import Mathlib.Data.List.Basic
import Mathlib.Logic.Relation

/-!
The task scheduler (`task_scheduler_impl` with the `add_task` wrappers of `task_scheduler`) as
a state machine of threads. The per-worker queues are bounded FIFOs (the refinement proved for
`locking_circular_buffer` in `FunctionQueue.Buffer.Threads` is what lets a queue be read as
one); `receive` and `send` are its non-blocking pop and push.

Three kinds of thread share one program-counter type: permanent workers (the thread lambda of
`start` and `task_runner(id, wself)`), helpers (the `thread_worker` of
`start_temp_task_runners` and `task_runner(id, wself, sem)`), and user threads, which hold a
`task_scheduler` handle and call `add_task`, `schedule_task`, `create_task_group`, `start`,
`stop` and `start_temp_task_runners`, and notify the latches they hold. A pool thread's `frames` are the drain loops
(`while (m_continue and run_next_task(id))`) of the wrappers it is inside.

Each accepted task carries a ghost `id`, the number of submissions accepted before it, and each
latch the ghost counts of what notifies it.
-/

namespace FunctionQueue.Scheduler

/-- What a task's callable does when invoked, besides returning: `schedule_task`'s wrapper
notifies its latch from `on_scope_exit`, also when the callable throws. -/
inductive Body
  | plain
  | notify (l : Nat)
  deriving DecidableEq, Repr

/-- A `task_t`: its callable, its `m_latch`, and the ids captured by the `add_task` wrappers
around the callable, innermost first (a re-submitted task gets one more wrapper). -/
structure Task where
  id : Nat
  body : Body
  latch : Option Nat
  drains : List Nat
  deriving DecidableEq, Repr

/-- Modelled from the spec: a `daw::shared_latch` is a counter that `notify` decrements (a
no-op at zero) and `try_wait` tests for zero. The other fields are ghost: the count it was made
with, the callables made to notify it (a group's tasks, and one per `schedule_task` on it), and
the `notify` calls its holders made themselves. -/
structure Latch where
  count : Nat
  initial : Nat
  tasks : Nat
  byUsers : Nat
  deriving DecidableEq, Repr

/-- A permanent worker for queue `id`; a helper of `start_temp_task_runners` for queue `id`,
retiring on latch `sem` and registered in list node `node`; or a user thread outside the pool,
which holds a `task_scheduler` handle. -/
inductive Role
  | worker (id : Nat)
  | helper (id sem node : Nat)
  | user
  deriving DecidableEq, Repr

/-- What a user's `send_task` loop does once its task is pushed: return, schedule the `left`
remaining tasks of a `create_task_group` on latch `l`, or send the sentinel of queue `next` in
`stop(block)`. -/
inductive After
  | done
  | group (l left : Nat)
  | stop (block : Bool) (next : Nat)
  deriving DecidableEq, Repr

/-- Where a thread is. A pool thread is `spawned` before its `wself.lock()`; at `loopHead`, the
worker's `while (self->m_continue)` or the helper's `while (!sem->try_wait())` with its
`m_continue` check; in `wait_for_task_from_pool` at `ownTry` (`m_tasks[id].receive`), at
`sweep m` (the steal at queue `m`) or in `waitLoop` (`while (!m_tasks[id].receive(tsk))
sleep_for(1ns)`); in `runTask t`, or in `resubmit t q`, `run_task`'s `send_task` spinning on
queue `q`; in the drain loop `while (m_continue and run_next_task(id))` of a wrapper, inside
the wrappers `outer`, at `drainHead`, `nextOwn` or `nextSweep m`; or at `erase`, the helper's
scope-exit `m_other_threads.erase(it)`. A user is `idle` between calls; `starting` inside
`start()`, with `m_continue` set and the `m_threads` lock still to take; in `send t q next`,
`send_task` spinning on queue `q`; in `join block pending`, `stop`'s loop over the `m_threads`
entries `pending`; or in `start_temp_task_runners(k)` at iteration `n` on latch `sem`, at
`spawnNext`, `assign` (`*it = create_thread(thread_worker)` for node `node` and thread `th`) or
`detach`. `fault` is undefined behaviour or `std::terminate`: a list node used after its erase,
or a node holding a joinable `std::thread` destroyed. -/
inductive Pc
  | spawned
  | loopHead
  | ownTry
  | sweep (m : Nat)
  | waitLoop
  | runTask (t : Task)
  | resubmit (t : Task) (q : Nat)
  | drainHead (id : Nat) (outer : List Nat)
  | nextOwn (id : Nat) (outer : List Nat)
  | nextSweep (id : Nat) (outer : List Nat) (m : Nat)
  | erase
  | exited
  | idle
  | starting
  | send (t : Task) (q : Nat) (next : After)
  | join (block : Bool) (pending : List Nat)
  | spawnNext (sem k n : Nat)
  | assign (sem k n node th : Nat)
  | detach (sem k n node : Nat)
  | fault
  deriving DecidableEq, Repr

structure Thread where
  role : Role
  pc : Pc
  frames : List (Nat × List Nat)
  deriving DecidableEq, Repr

/-- The content of an `m_other_threads` node, an `optional<std::thread>`. -/
inductive Slot
  | empty
  | joinable (th : Nat)
  | detached
  deriving DecidableEq, Repr

/-- The scheduler and every thread that calls into it. `n` is `m_num_threads`, the number of
queues in `m_tasks`, each of capacity `cap`; `running` is `m_continue` and `taskCount` the
`size_t` `m_task_count`; `tracked` is `m_threads`, the threads `start` created and no `stop`
has joined or detached; `others` is `m_other_threads`, list nodes and their threads; `handles`
counts the external `task_scheduler` handles, each a strong reference. `accepted`, the number
of accepted submissions, and `invoked`, the tasks whose callable has been invoked in order, are
ghost. -/
structure Sched where
  n : Nat
  cap : Nat
  queues : List (List Task)
  running : Bool
  taskCount : UInt64
  latches : List Latch
  threads : List Thread
  tracked : List Nat
  others : List (Nat × Slot)
  nodes : Nat
  handles : Nat
  accepted : Nat
  invoked : List Task
  deriving DecidableEq, Repr

/-- The environment's part of a step: what a user calls, or what a callable or the clock does.
`tick` is a thread's next step when nothing else is chosen, `busy` a pool thread's
`receive` whose try-lock finds the queue's mutex held, and `raise` an invoked callable
throwing. `addTask l` is `add_task(task)` or `add_task(task, sem)`; `schedule l` is
`schedule_task` with the caller's latch `l`; `group k` is `create_task_group` of `k` tasks
(`create_waitable_task` is `k = 1`); `latch k` makes a `shared_latch` of count `k`, and
`notify l` notifies a latch the user holds; `tempRunners k` is `start_temp_task_runners(k)`,
and `epoch e` the clock reading it takes modulo `size()`; `release` drops the user's handle. -/
inductive Act
  | tick
  | busy
  | raise
  | start
  | stop (block : Bool)
  | addTask (latch : Option Nat)
  | schedule (l : Nat)
  | group (k : Nat)
  | latch (k : Nat)
  | notify (l : Nat)
  | tempRunners (k : Nat)
  | epoch (e : Nat)
  | release
  deriving DecidableEq, Repr

namespace Thread

def finish (th : Thread) : Thread :=
  match th.frames with
  | [] => { th with pc := .loopHead }
  | (id, outer) :: fs => { th with pc := .drainHead id outer, frames := fs }

def endWrapper (th : Thread) : List Nat → Thread
  | [] => th.finish
  | d :: outer => { th with pc := .drainHead d outer }

/-- The thread holds a strong reference to the scheduler: a worker or helper from its thread
lambda's `wself.lock()` on until it ends. -/
def holdsRef (th : Thread) : Bool :=
  match th.role, th.pc with
  | .user, _ => false
  | _, .spawned => false
  | _, .exited => false
  | _, _ => true

/-- The thread holds `task_runner`'s `self` as well: a permanent worker across its loop, a
helper from an iteration's `wself.lock()` until its `run_task` returns. -/
def holdsRunnerRef (th : Thread) : Bool :=
  match th.role, th.pc with
  | .user, _ => false
  | _, .spawned => false
  | _, .exited => false
  | .helper .., .loopHead => false
  | .helper .., .erase => false
  | _, _ => true

end Thread

namespace Sched

/-- A constructed, not yet started scheduler of `n` queues of capacity `cap`, with `users`
user threads, each holding a handle. -/
def init (n cap users : Nat) : Sched where
  n := n
  cap := cap
  queues := List.replicate n []
  running := false
  taskCount := 0
  latches := []
  threads := List.replicate users ⟨.user, .idle, []⟩
  tracked := []
  others := []
  nodes := 0
  handles := users
  accepted := 0
  invoked := []

variable (s : Sched)

def setThread (i : Nat) (th : Thread) : Sched := { s with threads := s.threads.set i th }

/-- Modelled from the spec, which makes each queue a bounded FIFO (the queue's own code is not
among the sources): `m_tasks[q].receive`, with the queue's mutex, pops its head. -/
def receive (q : Nat) : Option (Task × Sched) :=
  match s.queues[q]? with
  | some (t :: rest) => some (t, { s with queues := s.queues.set q rest })
  | _ => none

/-- Modelled from the spec: `m_tasks[q].send` appends `t` unless the bounded queue is full. -/
def push (q : Nat) (t : Task) : Option Sched :=
  match s.queues[q]? with
  | some l => if l.length < s.cap then some { s with queues := s.queues.set q (l ++ [t]) } else none
  | none => none

/-- A pool thread's `m_tasks[q].receive(tsk)`, the spec's `try_pop`: when its try-lock gets the
mutex (`tick`), the head of a non-empty queue goes into the thread's hands; an empty queue or a
mutex held elsewhere (`busy`) is a miss, and the thread goes on at `miss`. -/
def pop (a : Act) (i : Nat) (th : Thread) (q : Nat) (miss : Pc) (frame : List (Nat × List Nat)) :
    Option Sched :=
  match a, s.receive q with
  | .tick, some (t, s') =>
    some (s'.setThread i { th with pc := .runTask t, frames := frame ++ th.frames })
  | .tick, none | .busy, _ => some (s.setThread i { th with pc := miss })
  | _, _ => none

def latchCount (l : Nat) : Nat := ((s.latches[l]?).map Latch.count).getD 0

/-- `task_t::is_ready`: no latch, or its `try_wait`. -/
def ready (t : Task) : Bool :=
  match t.latch with
  | none => true
  | some l => s.latchCount l == 0

def notifyLatch (l : Nat) : Sched :=
  { s with latches := s.latches.modify (fun x => { x with count := x.count - 1 }) l }

def userNotify (l : Nat) : Sched :=
  let f (x : Latch) : Latch := { x with count := x.count - 1, byUsers := x.byUsers + 1 }
  { s with latches := s.latches.modify f l }

def addWrapper (l : Nat) : Sched :=
  { s with latches := s.latches.modify (fun x => { x with tasks := x.tasks + 1 }) l }

/-- Invokes the callable of `t`; `schedule_task`'s wrapper notifies its latch on scope exit. -/
def invoke (t : Task) : Sched :=
  let s' := { s with invoked := s.invoked ++ [t] }
  match t.body with
  | .plain => s'
  | .notify l => s'.notifyLatch l

/-- The strong count of the scheduler: the external handles, and the references of the pool
threads' lambdas and of their `task_runner`s. -/
def strong : Nat :=
  s.handles + (s.threads.filter Thread.holdsRef).length +
    (s.threads.filter Thread.holdsRunnerRef).length

/-- `get_task_id()`: `m_task_count++ % m_num_threads`, with the counter a `size_t`. -/
def nextTaskId : Nat × Sched := (s.taskCount.toNat % s.n, { s with taskCount := s.taskCount + 1 })

/-- A task scheduled by `add_task(task, id)`: the wrapper records `id`. -/
def wrap (b : Body) (latch : Option Nat) (q : Nat) : Task := ⟨0, b, latch, [q]⟩

/-- The sentinel `stop` sends to queue `k`: `add_task([]() {}, k)`. -/
def sentinel (k : Nat) : Task := wrap .plain none k

/-- One step of a pool thread `i` (worker or helper for queue `id`). -/
def poolStep (i : Nat) (th : Thread) (id : Nat) (a : Act) : Option Sched :=
  match th.pc, a with
  | .spawned, .tick =>
    some (s.setThread i { th with pc := if 0 < s.strong then .loopHead else .exited })
  | .loopHead, .tick =>
    match th.role with
    | .worker _ => some (s.setThread i { th with pc := if s.running then .ownTry else .exited })
    | .helper _ sem _ =>
      some (s.setThread i
        { th with pc := if s.latchCount sem == 0 || !s.running then .erase else .ownTry })
    | .user => none
  | .ownTry, a => s.pop a i th id (.sweep ((id + 1) % s.n)) []
  | .sweep m, a =>
    if m = id then (if a = .tick then some (s.setThread i { th with pc := .waitLoop }) else none)
    else s.pop a i th m (.sweep ((m + 1) % s.n)) []
  | .waitLoop, a => s.pop a i th id .waitLoop []
  | .runTask t, .tick =>
    if s.ready t then
      some ((s.invoke t).setThread i (th.endWrapper t.drains))
    else
      let (q, s') := s.nextTaskId
      some (s'.setThread i { th with pc := .resubmit { t with drains := t.drains ++ [q] } q })
  | .runTask t, .raise =>
    if s.ready t then some ((s.invoke t).setThread i th.finish) else none
  | .resubmit t q, .tick =>
    match s.push q t with
    | some s' => some (s'.setThread i th.finish)
    | none => some s
  | .drainHead d outer, .tick =>
    if s.running then some (s.setThread i { th with pc := .nextOwn d outer })
    else some (s.setThread i (th.endWrapper outer))
  | .nextOwn d outer, a => s.pop a i th d (.nextSweep d outer ((d + 1) % s.n)) [(d, outer)]
  | .nextSweep d outer m, a =>
    if m = d then (if a = .tick then some (s.setThread i (th.endWrapper outer)) else none)
    else s.pop a i th m (.nextSweep d outer ((m + 1) % s.n)) [(d, outer)]
  | .erase, .tick =>
    match th.role with
    | .helper _ _ node =>
      match s.others.find? (·.1 == node) with
      | some (_, .joinable _) => some (s.setThread i { th with pc := .fault })
      | some _ =>
        some ({ s with others := s.others.filter (·.1 != node) }.setThread i
          { th with pc := .exited })
      | none => some (s.setThread i { th with pc := .fault })
    | _ => none
  | _, _ => none

/-- The user's next task of `create_task_group` on latch `l`: `schedule_task`'s wrapper. -/
def groupTask (i : Nat) (th : Thread) (l left : Nat) : Sched :=
  let (q, s') := s.nextTaskId
  s'.setThread i { th with pc := .send (wrap (.notify l) none q) q (.group l left) }

def afterSend (i : Nat) (th : Thread) : After → Sched
  | .done => s.setThread i { th with pc := .idle }
  | .group l left =>
    if left = 0 then s.setThread i { th with pc := .idle } else s.groupTask i th l (left - 1)
  | .stop b k =>
    if k < s.n then s.setThread i { th with pc := .send (sentinel k) k (.stop b (k + 1)) }
    else s.setThread i { th with pc := .join b s.tracked }

def newWorkers (n : Nat) : List Thread := (List.range n).map fun k => ⟨.worker k, .spawned, []⟩

/-- The loop of `start()` under the `m_threads` lock: `m_num_threads` new workers, recorded in
`m_threads`. Nothing checks whether the scheduler is already started. -/
def createWorkers : Sched :=
  { s with
    threads := s.threads ++ newWorkers s.n
    tracked := s.tracked ++ (List.range s.n).map (s.threads.length + ·) }

/-- Some user is inside `stop`'s loop over `m_threads`, which holds that list's lock. -/
def joining : Bool :=
  s.threads.any fun th => match th.pc with
    | .join _ _ => true
    | _ => false

def exitedAt (j : Nat) : Bool := (s.threads[j]?.map (·.pc)) == some .exited

/-- One step of user thread `i`. -/
def userStep (i : Nat) (th : Thread) (a : Act) : Option Sched :=
  match th.pc, a with
  | .idle, .release => if 0 < s.handles then some { s with handles := s.handles - 1 } else none
  | .idle, a =>
    if s.handles = 0 then none else
    match a with
    | .start => some ({ s with running := true }.setThread i { th with pc := .starting })
    | .stop b =>
      let s' := { s with running := false }
      if 0 < s.n then some (s'.setThread i { th with pc := .send (sentinel 0) 0 (.stop b 1) })
      else some (s'.setThread i { th with pc := .join b s.tracked })
    | .addTask l =>
      let (q, s') := s.nextTaskId
      some (s'.setThread i { th with pc := .send (wrap .plain l q) q .done })
    | .schedule l =>
      if l < s.latches.length then
        let (q, s') := s.nextTaskId
        some ((s'.addWrapper l).setThread i { th with pc := .send (wrap (.notify l) none q) q .done })
      else none
    | .group k =>
      let s' := { s with latches := s.latches ++ [⟨k, k, k, 0⟩] }
      if k = 0 then some s' else some (s'.groupTask i th s.latches.length (k - 1))
    | .latch k => some { s with latches := s.latches ++ [⟨k, k, 0, 0⟩] }
    | .notify l => if l < s.latches.length then some (s.userNotify l) else none
    | .tempRunners k =>
      let s' : Sched := { s with latches := s.latches ++ [⟨k, k, 0, 0⟩] }
      some (s'.setThread i { th with pc := .spawnNext s.latches.length k 0 })
    | _ => none
  | .starting, .tick =>
    if s.joining then none else some (s.setThread i { th with pc := .idle }).createWorkers
  | .send t q next, .tick =>
    match s.push q { t with id := s.accepted } with
    | some s' => some ({ s' with accepted := s.accepted + 1 }.afterSend i th next)
    | none => some s
  | .join b pending, .tick =>
    match pending with
    | [] => some ({ s with tracked := [] }.setThread i { th with pc := .idle })
    | j :: rest =>
      if !b || s.exitedAt j then some (s.setThread i { th with pc := .join b rest }) else none
  | .spawnNext sem k n, .epoch e =>
    if n < k then
      let node := s.nodes
      let s' : Sched := { s with
        others := s.others ++ [(node, Slot.empty)]
        nodes := node + 1
        threads := s.threads ++ [Thread.mk (.helper (e % s.n) sem node) .spawned []] }
      some (s'.setThread i { th with pc := .assign sem k n node s.threads.length })
    else none
  | .spawnNext _ k n, .tick =>
    if k ≤ n then some (s.setThread i { th with pc := .idle }) else none
  | .assign sem k n node j, .tick =>
    if s.others.any (·.1 == node) then
      let s' : Sched := { s with
        others := s.others.map fun (x : Nat × Slot) => if x.1 = node then (node, .joinable j) else x }
      some (s'.setThread i { th with pc := .detach sem k n node })
    else some (s.setThread i { th with pc := .fault })
  | .detach sem k n node, .tick =>
    match s.others.find? (·.1 == node) with
    | some (_, .joinable _) =>
      let s' : Sched := { s with
        others := s.others.map fun (x : Nat × Slot) => if x.1 = node then (node, .detached) else x }
      some (s'.setThread i { th with pc := .spawnNext sem k (n + 1) })
    | _ => some (s.setThread i { th with pc := .fault })
  | _, _ => none

/-- One step of thread `i`, `none` when it cannot be taken. -/
def step (i : Nat) (a : Act) : Option Sched :=
  match s.threads[i]? with
  | none => none
  | some th =>
    match th.role with
    | .user => s.userStep i th a
    | .worker id => s.poolStep i th id a
    | .helper id _ _ => s.poolStep i th id a

def Step (s s' : Sched) : Prop := ∃ i a, s.step i a = some s'

def Reachable (s₀ s : Sched) : Prop := Relation.ReflTransGen Step s₀ s

end Sched

def Sched.runTrace (s : Sched) : List (Nat × Act) → Option Sched
  | [] => some s
  | (i, a) :: as => (s.step i a).bind fun s' => Sched.runTrace s' as

namespace Sched

variable (s : Sched)

theorem reachable_of_runTrace {s₀ : Sched} {as : List (Nat × Act)} {s' : Sched}
    (hs : Reachable s₀ s) (h : s.runTrace as = some s') : Reachable s₀ s' := by
  induction as generalizing s with
  | nil => cases h; exact hs
  | cons a as ih =>
    obtain ⟨i, a⟩ := a
    simp only [runTrace, Option.bind_eq_some] at h
    obtain ⟨s₁, h₁, h₂⟩ := h
    exact ih _ (.tail hs ⟨i, a, h₁⟩) h₂

theorem runTrace_append (as bs : List (Nat × Act)) :
    s.runTrace (as ++ bs) = (s.runTrace as).bind (·.runTrace bs) := by
  induction as generalizing s with
  | nil => rfl
  | cons a as ih =>
    obtain ⟨i, a⟩ := a
    simp only [List.cons_append, runTrace]
    cases s.step i a with
    | none => rfl
    | some s' => exact ih s'

end Sched

end FunctionQueue.Scheduler
