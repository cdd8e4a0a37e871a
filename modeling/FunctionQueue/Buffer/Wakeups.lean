import FunctionQueue.Buffer.Threads

/-!
Which segments notify which condition variable, and what the waits do with the keep-going
predicate. Both `try_pop_front`s take a value out of a full buffer without notifying
`m_not_full`, while the blocking pops do notify it; a producer asleep on `m_not_full` then
stays asleep although the buffer has room. The blocking waits of `push_back` (both buffers),
the runtime `pop_front` and the runtime `try_push_back` carry the keep-going predicate inside
the wait's predicate, or not at all, so a wakeup at which it is false does not end the call;
only the fixed `pop_front(pred, timeout)`, through `wait_impl::wait_for`, gives up there.
-/

namespace FunctionQueue.Buffer

/-- The lost wakeup, on each buffer of capacity one with three threads: thread 2 fills it,
thread 0's `push_back` finds it full and waits on `m_not_full` (its predicate's
`can_continue` holding), thread 1's `try_pop_front` empties it and returns. Thread 0 is then
asleep on `m_not_full` with its wait predicate true, and every other thread has returned; no
`notify_one` is left to wake it. The blocking `pop_front` in thread 1's place wakes it. -/
theorem try_pop_front_loses_not_full_wakeup :
    System.runTrace (Fixed.segment 1) (System.init 1 3)
        [.call 2 (.tryPushBack 0), .run 2 .go 0, .call 0 (.pushBack 1), .run 0 .go 0,
         .call 1 .tryPopFront, .run 1 .go 0] =
      some ⟨⟨[none], 0, 0, false⟩,
        [.asleep (.pushBack 1) .pushBackFull, .returned (.value (some 0)),
         .returned (.pushed true)]⟩ ∧
    System.runTrace (Runtime.segment 1) (System.init 1 3)
        [.call 2 (.tryPushBack 0), .run 2 .go 0, .call 0 (.pushBack 1), .run 0 .go 0,
         .call 1 .tryPopFront, .run 1 .go 0] =
      some ⟨⟨[none], 0, 0, false⟩,
        [.asleep (.pushBack 1) .rtPushBack, .returned (.value (some 0)),
         .returned (.pushed true)]⟩ ∧
    System.runTrace (Fixed.segment 1) (System.init 1 3)
        [.call 2 (.tryPushBack 0), .run 2 .go 0, .call 0 (.pushBack 1), .run 0 .go 0,
         .call 1 .popFront, .run 1 .go 0] =
      some ⟨⟨[none], 0, 0, false⟩,
        [.woken (.pushBack 1) .pushBackFull false, .returned (.value (some 0)),
         .returned (.pushed true)]⟩ := by
  decide

/-- Waits that do not end when the keep-going predicate is false. The runtime `try_push_back`
on a full buffer with the mutex free waits on `m_not_full` instead of returning `failed`. In
the fixed buffer, thread 0's `push_back` with a false `can_continue` finds the buffer full and
waits; thread 1's `pop_front` makes room and wakes it; at that wakeup its predicate
`can_continue() and !full()` is false, so it waits again. The runtime `pop_front` and
`push_back`, woken with a false keep-going predicate, wait again likewise. -/
theorem waits_ignore_false_keep_going :
    Runtime.segment 1 (.tryPushBack 1) .start Env.go (⟨[some 0], 0, 0, true⟩ : Members Nat) =
      .stay ⟨[some 0], 0, 0, true⟩ (.sleep .rtTryPushBack) ∧
    System.runTrace (Fixed.segment 1) (System.init 1 3)
        [.call 2 (.tryPushBack 0), .run 2 .go 0, .call 0 (.pushBack 1), .run 0 .halt 0,
         .call 1 .popFront, .run 1 .go 0, .run 0 .halt 0] =
      some ⟨⟨[none], 0, 0, false⟩,
        [.asleep (.pushBack 1) .pushBackFull, .returned (.value (some 0)),
         .returned (.pushed true)]⟩ ∧
    Runtime.segment 1 .popFront (.resume .rtPopFront) Env.halt
        (⟨[some 0], 0, 0, true⟩ : Members Nat) =
      .stay ⟨[some 0], 0, 0, true⟩ (.sleep .rtPopFront) ∧
    Runtime.segment 1 (.pushBack 1) (.resume .rtPushBack) Env.halt
        (⟨[none], 0, 0, false⟩ : Members Nat) =
      .stay ⟨[none], 0, 0, false⟩ (.sleep .rtPushBack) := by
  decide

end FunctionQueue.Buffer
