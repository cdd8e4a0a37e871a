import FunctionQueue.Buffer.Ring
import FunctionQueue.Buffer.Ops
import FunctionQueue.Buffer.Threads
import FunctionQueue.Buffer.Wakeups
import FunctionQueue.Scheduler.Pool
import FunctionQueue.Scheduler.Moves
import FunctionQueue.Scheduler.Ledger
import FunctionQueue.Scheduler.Shutdown
import FunctionQueue.Scheduler.Lifetime
import FunctionQueue.Scheduler.Runner
import FunctionQueue.Scheduler.Latches
import FunctionQueue.Scheduler.Indices
import FunctionQueue.Scheduler.Bounds
import FunctionQueue.FixedArray.Members
import FunctionQueue.FixedArray.Ownership
