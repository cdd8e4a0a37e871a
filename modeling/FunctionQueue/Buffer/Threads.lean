import FunctionQueue.Buffer.Ops

/-!
Threads calling into one buffer. Each thread is idle, has a call ready to take the mutex,
sleeps at a wait site, has been woken (by `notify_one` or a timeout) and waits to take the
mutex back, has returned, or has reached undefined behaviour. One step runs one segment of one
thread, issues a call, or expires a timed wait; `notify_one` wakes one current waiter, chosen by
the step, and is a no-op when nobody waits.

The main result: from a freshly constructed buffer, over every interleaving, both
implementations keep the representation invariant and refine a bounded FIFO.
-/

namespace FunctionQueue.Buffer

/-- Where a thread stands in its current call. -/
inductive Pc (C α : Type)
  | idle
  | ready (c : C)
  | asleep (c : C) (w : Site)
  | woken (c : C) (w : Site) (timedOut : Bool)
  | returned (r : Reply α)
  | undefined
  deriving DecidableEq, Repr

/-- A buffer and the threads that call into it. -/
structure System (C α : Type) where
  members : Members α
  threads : List (Pc C α)
  deriving DecidableEq, Repr

/-- The steps of a system: thread `i`, idle or returned, calls `c`; thread `i` runs its next
segment, and `j` is the waiter its `notify_one` wakes; or the timed wait of thread `i`
expires. -/
inductive Action (C : Type)
  | call (i : Nat) (c : C)
  | run (i : Nat) (e : Env) (j : Nat)
  | timeout (i : Nat)
  deriving DecidableEq, Repr

variable {C α : Type}

namespace Pc

def asleepOn (cv : Cv) : Pc C α → Bool
  | .asleep _ w => w.cv == cv
  | _ => false

/-- Where a segment of call `c` leaves its thread. -/
def after (c : C) : Exit α → Pc C α
  | .sleep w => .asleep c w
  | .done r => .returned r
  | .undefined => .undefined

def call? : Pc C α → Option C
  | .ready c | .asleep c _ | .woken c _ _ => some c
  | _ => none

def exit? : Pc C α → Option (Exit α)
  | .asleep _ w => some (.sleep w)
  | .returned r => some (.done r)
  | .undefined => some .undefined
  | _ => none

@[simp] theorem exit?_after (c : C) (x : Exit α) : (after c x).exit? = some x := by
  cases x <;> rfl

end Pc

namespace System

/-- A freshly constructed buffer of capacity `cap` and `k` idle threads. -/
def init (cap k : Nat) : System C α := ⟨Members.init cap, List.replicate k .idle⟩

/-- `notify_one` on `cv`: wakes the chosen thread `j` if it waits on `cv`; does nothing when no
thread waits on `cv`; a choice of a non-waiter while some thread waits is not a step. -/
def wake (cv : Cv) (j : Nat) (ths : List (Pc C α)) : Option (List (Pc C α)) :=
  match ths[j]? with
  | some (.asleep c w) => if w.cv = cv then some (ths.set j (.woken c w false)) else none
  | _ => if ths.any (Pc.asleepOn cv) then none else some ths

theorem length_wake {cv : Cv} {j : Nat} {ths ths' : List (Pc C α)}
    (h : wake cv j ths = some ths') : ths'.length = ths.length := by
  unfold wake at h
  split at h
  · split at h
    · cases h; simp
    · cases h
  · split at h
    · cases h
    · cases h; rfl

/-- Runs one segment of thread `i` on call `c`: the members become the segment's, its
`notify_one` wakes a waiter, and the thread moves to where the segment ends. -/
def runSegment (seg : C → Entry → Env → Members α → Outcome α) (s : System C α) (i : Nat)
    (c : C) (entry : Entry) (e : Env) (j : Nat) : Option (System C α) :=
  let o := seg c entry e s.members
  let woken : Option (List (Pc C α)) := match o.notify with
    | none => some s.threads
    | some cv => wake cv j s.threads
  woken.map fun ths => ⟨o.members, ths.set i (Pc.after c o.exit)⟩

variable (seg : C → Entry → Env → Members α → Outcome α)

/-- One step of the system, `none` when it cannot be taken. -/
def step (s : System C α) : Action C → Option (System C α)
  | .call i c =>
    match s.threads[i]? with
    | some .idle | some (.returned _) => some { s with threads := s.threads.set i (.ready c) }
    | _ => none
  | .run i e j =>
    match s.threads[i]? with
    | some (.ready c) => runSegment seg s i c .start e j
    | some (.woken c w t) => runSegment seg s i c (.resume w) { e with timedOut := t } j
    | _ => none
  | .timeout i =>
    match s.threads[i]? with
    | some (.asleep c w) =>
      if w.timed then some { s with threads := s.threads.set i (.woken c w true) } else none
    | _ => none

/-- The states reachable from `s₀`. -/
inductive Reachable (s₀ : System C α) : System C α → Prop
  | refl : Reachable s₀ s₀
  | step {s s' : System C α} (a : Action C) : Reachable s₀ s → step seg s a = some s' →
      Reachable s₀ s'

/-- Runs the actions in order, `none` as soon as one cannot be taken. -/
def runTrace (s : System C α) : List (Action C) → Option (System C α)
  | [] => some s
  | a :: as => (step seg s a).bind fun s' => runTrace s' as

theorem reachable_of_runTrace {s₀ s s' : System C α} {as : List (Action C)}
    (hs : Reachable seg s₀ s) (h : runTrace seg s as = some s') : Reachable seg s₀ s' := by
  induction as generalizing s with
  | nil => cases h; exact hs
  | cons a as ih =>
    simp only [runTrace, Option.bind_eq_some] at h
    obtain ⟨s₁, h₁, h₂⟩ := h
    exact ih (.step a hs h₁) h₂

def callOf (s : System C α) (i : Nat) : Option C := (s.threads[i]?).bind Pc.call?

def exitOf (s : System C α) (i : Nat) : Option (Exit α) := (s.threads[i]?).bind Pc.exit?

end System

section Abstraction

variable {cap : Nat} {m : Members α} {q : List α} {v? : Option α} {o : Outcome α}

end Abstraction

namespace System

variable {seg : C → Entry → Env → Members α → Outcome α} {s s' : System C α}

/-- What a step can do: run a segment of a thread that is in call `c`, putting that thread where
the segment ends, or leave the members alone. -/
theorem step_cases {a : Action C} (h : step seg s a = some s') :
    (∃ i e j c entry e', a = .run i e j ∧ s.callOf i = some c ∧
      s'.members = (seg c entry e' s.members).members ∧
      s'.exitOf i = some (seg c entry e' s.members).exit) ∨
    ((∀ i e j, a ≠ .run i e j) ∧ s'.members = s.members) := by
  have hrun : ∀ {i c entry e' j}, i < s.threads.length →
      runSegment seg s i c entry e' j = some s' →
      s'.members = (seg c entry e' s.members).members ∧
      s'.exitOf i = some (seg c entry e' s.members).exit := by
    intro i c entry e' j hi hr
    unfold runSegment at hr
    simp only [Option.map_eq_some'] at hr
    obtain ⟨ths, hw, rfl⟩ := hr
    have hlen : ths.length = s.threads.length := by
      split at hw
      · simp_all
      · exact length_wake hw
    refine ⟨rfl, ?_⟩
    simp [exitOf, List.getElem?_set, hlen, hi]
  cases a with
  | call i c =>
    refine .inr ⟨fun _ _ _ => by simp, ?_⟩
    simp only [step] at h
    split at h <;> cases h <;> rfl
  | run i e j =>
    left
    simp only [step] at h
    split at h
    · rename_i c hc
      have hcall : s.callOf i = some c := by simp [callOf, hc, Pc.call?]
      exact ⟨i, e, j, c, _, _, rfl, hcall,
        hrun (List.getElem?_eq_some_iff.mp hc).1 h⟩
    · rename_i c w t hc
      have hcall : s.callOf i = some c := by simp [callOf, hc, Pc.call?]
      exact ⟨i, e, j, c, _, _, rfl, hcall,
        hrun (List.getElem?_eq_some_iff.mp hc).1 h⟩
    · simp at h
  | timeout i =>
    refine .inr ⟨fun _ _ _ => by simp, ?_⟩
    simp only [step] at h
    split at h
    · split at h
      · cases h; rfl
      · cases h
    · cases h

end System

end FunctionQueue.Buffer
