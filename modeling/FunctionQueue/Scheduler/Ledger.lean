import FunctionQueue.Scheduler.Moves

/-!
Where the accepted submissions are. At every step each of them is in exactly one place: a
slot of some `task_queue_t`, the hands of the pool thread running it (`run_task`) or
re-submitting it (`run_task`'s `add_task` spinning in `send_task`), or the log of invoked
callables. Stealing (`wait_for_task_from_pool`, `run_next_task`) and re-submission move a
task; only a user's `send_task` adds one, and only `run_task`, after `is_ready()` returned
true, removes one, by invoking it.
-/

namespace FunctionQueue.Scheduler

/-- The accepted submission a thread holds: the task it runs or re-submits. A user's task is
not accepted yet while its `send_task` spins. -/
def Pc.held : Pc → List Nat
  | .runTask t => [t.id]
  | .resubmit t _ => [t.id]
  | _ => []

@[simp] theorem Thread.held_finish (th : Thread) : th.finish.pc.held = [] := by
  unfold Thread.finish; split <;> rfl

@[simp] theorem Thread.held_endWrapper (th : Thread) (ds : List Nat) :
    (th.endWrapper ds).pc.held = [] := by
  cases ds with
  | nil => exact th.held_finish
  | cons => rfl

theorem Pc.held_of_free {pc : Pc} (h : pc.free = true) : pc.held = [] := by
  cases pc <;> simp_all [Pc.free, Pc.held]

theorem getElem?_append_of_some {β : Type} {l₁ l₂ : List β} {k : Nat} {a : β}
    (h : l₁[k]? = some a) : (l₁ ++ l₂)[k]? = some a := by
  rw [List.getElem?_append_left (List.getElem?_eq_some_iff.mp h).1, h]

theorem count_flatMap_set {β γ : Type} [BEq γ] (f : β → List γ) (x : γ) (b : β) :
    ∀ {l : List β} {k : Nat} {a : β}, l[k]? = some a →
      ((l.set k b).flatMap f).count x + (f a).count x =
        (l.flatMap f).count x + (f b).count x
  | _ :: _, 0, _, h => by
    simp only [List.getElem?_cons_zero, Option.some.injEq] at h
    subst h
    simp only [List.set_cons_zero, List.flatMap_cons, List.count_append]
    omega
  | _ :: _, k + 1, _, h => by
    have ih := count_flatMap_set f x b (k := k) (by simpa using h)
    simp only [List.set_cons_succ, List.flatMap_cons, List.count_append]
    omega

namespace Sched

variable (s : Sched)

def queuedIds : List Nat := s.queues.flatMap (List.map Task.id)

def heldIds : List Nat := s.threads.flatMap (·.pc.held)

def invokedIds : List Nat := s.invoked.map Task.id

/-- The accepted submissions, by place: queued, held, invoked. -/
def ledger : List Nat := s.queuedIds ++ s.heldIds ++ s.invokedIds

variable {s} {s' s₁ : Sched} {i q : Nat} {th : Thread} {t : Task}

theorem count_ledger_setThread (hth : s.threads[i]? = some th) (th' : Thread) (x : Nat) :
    (s.setThread i th').ledger.count x + th.pc.held.count x =
      s.ledger.count x + th'.pc.held.count x := by
  have := count_flatMap_set (fun th : Thread => th.pc.held) x th' hth
  simp only [ledger, queuedIds, heldIds, invokedIds, setThread, List.count_append] at this ⊢
  omega

theorem count_ledger_receive (h : s.receive q = some (t, s₁)) (x : Nat) :
    s₁.ledger.count x + [t.id].count x = s.ledger.count x := by
  obtain ⟨rest, hq, rfl⟩ := receive_spec h
  have := count_flatMap_set (List.map Task.id) x rest hq
  simp only [ledger, queuedIds, heldIds, invokedIds, List.map_cons, List.map_nil,
    List.count_append, List.count_cons, List.count_nil] at this ⊢
  omega

theorem count_ledger_push (h : s.push q t = some s₁) (x : Nat) :
    s₁.ledger.count x = s.ledger.count x + [t.id].count x := by
  obtain ⟨l, hq, -, rfl⟩ := push_spec h
  have := count_flatMap_set (List.map Task.id) x (l ++ [t]) hq
  simp only [ledger, queuedIds, heldIds, invokedIds, List.map_append, List.map_cons,
    List.map_nil, List.count_append] at this ⊢
  omega

theorem count_ledger_invoke (x : Nat) :
    (s.invoke t).ledger.count x = s.ledger.count x + [t.id].count x := by
  simp only [ledger, queuedIds, heldIds, invokedIds, invoke_threads, invoke_queues,
    invoke_invoked, List.map_append, List.map_cons, List.map_nil, List.count_append]
  omega

/-- The accepted submissions only move: none is added, none is invoked. -/
structure Keeps (s s' : Sched) : Prop where
  accepted : s'.accepted = s.accepted
  invoked : s'.invoked = s.invoked
  count : ∀ x, s'.ledger.count x = s.ledger.count x

/-- Thread `i` moves on, in a state that holds the same submissions as `s`. -/
theorem Keeps.setThread {s₂ : Sched} (hs : Keeps s s₂) (hth : s₂.threads[i]? = some th)
    {th' : Thread} (hh : th'.pc.held = th.pc.held) : Keeps s (s₂.setThread i th') :=
  ⟨hs.accepted, hs.invoked, fun x => by
    have := count_ledger_setThread hth th' x
    rw [hh] at this
    rw [← hs.count]
    omega⟩

theorem Keeps.trans {s₂ s₃ : Sched} (h₁ : Keeps s s₂) (h₂ : Keeps s₂ s₃) : Keeps s s₃ :=
  ⟨h₂.accepted.trans h₁.accepted, h₂.invoked.trans h₁.invoked,
    fun x => (h₂.count x).trans (h₁.count x)⟩

/-- New threads that hold nothing. -/
theorem Keeps.append {s₂ : Sched} {ts : List Thread} (hq : s₂.queues = s.queues)
    (ht : s₂.threads = s.threads ++ ts) (hts : ∀ th ∈ ts, th.pc.held = [])
    (hacc : s₂.accepted = s.accepted) (hinv : s₂.invoked = s.invoked) : Keeps s s₂ :=
  ⟨hacc, hinv, fun x => by
    have : ts.flatMap (·.pc.held) = [] := List.flatMap_eq_nil_iff.mpr hts
    simp only [ledger, queuedIds, heldIds, invokedIds, hq, ht, hinv, List.flatMap_append,
      this, List.append_nil]⟩

theorem Keeps.of_aside {s₂ : Sched} (h : Aside s s₂) : Keeps s s₂ :=
  ⟨h.accepted, h.invoked, fun x => by
    simp only [ledger, queuedIds, heldIds, invokedIds, h.queues, h.threads, h.invoked]⟩

/-- A hit of `receive` moves the head of the queue into the thread's hands. -/
theorem keeps_take (hth : s.threads[i]? = some th) (h0 : th.pc.held = [])
    (hr : s.receive q = some (t, s₁)) (frame : List (Nat × List Nat)) :
    Keeps s (s₁.setThread i { th with pc := .runTask t, frames := frame ++ th.frames }) := by
  obtain ⟨rest, -, hs₁⟩ := receive_spec hr
  have hth₁ : s₁.threads[i]? = some th := by rw [hs₁]; exact hth
  refine ⟨by rw [setThread_accepted, hs₁], by rw [setThread_invoked, hs₁], fun x => ?_⟩
  have h₁ := count_ledger_receive hr x
  have h₂ := count_ledger_setThread hth₁
    { th with pc := .runTask t, frames := frame ++ th.frames } x
  rw [h0] at h₂
  simp only [Pc.held, List.count_nil] at h₂
  omega

/-- A successful re-submission moves the task from the thread's hands into the queue. -/
theorem keeps_put (hth : s.threads[i]? = some th) (hpc : th.pc = .resubmit t q)
    (hp : s.push q t = some s₁) : Keeps s (s₁.setThread i th.finish) := by
  obtain ⟨l, -, -, hs₁⟩ := push_spec hp
  have hth₁ : s₁.threads[i]? = some th := by rw [hs₁]; exact hth
  refine ⟨by rw [setThread_accepted, hs₁], by rw [setThread_invoked, hs₁], fun x => ?_⟩
  have h₁ := count_ledger_push hp x
  have h₂ := count_ledger_setThread hth₁ th.finish x
  rw [hpc, Thread.held_finish] at h₂
  simp only [Pc.held, List.count_nil] at h₂
  omega

theorem keeps_groupTask (hth : s.threads[i]? = some th) (h0 : th.pc.held = []) (l left : Nat) :
    Keeps s (s.groupTask i th l left) := by
  unfold groupTask
  exact (⟨rfl, rfl, fun _ => rfl⟩ : Keeps s s.nextTaskId.2).setThread hth (by rw [h0]; rfl)

theorem keeps_afterSend (hth : s.threads[i]? = some th) (h0 : th.pc.held = []) (next : After) :
    Keeps s (s.afterSend i th next) := by
  have hset : ∀ {pc : Pc}, pc.held = [] → Keeps s (s.setThread i { th with pc := pc }) :=
    fun hh => Keeps.setThread ⟨rfl, rfl, fun _ => rfl⟩ hth (by simp [h0, hh])
  cases next with
  | done => exact hset rfl
  | group l left =>
    dsimp only [afterSend]
    split
    · exact hset rfl
    · exact keeps_groupTask hth h0 l _
  | stop b k =>
    dsimp only [afterSend]
    split <;> exact hset rfl

/-- What one step of thread `i` does to the accepted submissions. -/
inductive Flow (s : Sched) (i : Nat) (s' : Sched) : Prop
  /-- tasks only move, between queues and pool threads -/
  | move (h : Keeps s s')
  /-- a user's `send_task` pushes its task, the next accepted submission -/
  | accept (hacc : s'.accepted = s.accepted + 1) (hinv : s'.invoked = s.invoked)
      (hc : ∀ x, s'.ledger.count x = s.ledger.count x + [s.accepted].count x)
  /-- `run_task` invokes the task thread `i` holds, `is_ready()` having returned true -/
  | invoke (th : Thread) (t : Task) (hth : s.threads[i]? = some th) (hpc : th.pc = .runTask t)
      (hready : s.ready t = true) (hacc : s'.accepted = s.accepted)
      (hinv : s'.invoked = s.invoked ++ [t]) (hc : ∀ x, s'.ledger.count x = s.ledger.count x)

/-- `run_task` invokes the task it holds and moves on to `th'`. -/
theorem Flow.invokeTask (hth : s.threads[i]? = some th) {t : Task} (hpc : th.pc = .runTask t)
    (hready : s.ready t = true) {th' : Thread} (h0 : th'.pc.held = []) :
    Flow s i ((s.invoke t).setThread i th') := by
  refine .invoke th t hth hpc hready (by simp) (by simp) fun x => ?_
  have h₁ := count_ledger_setThread (s := s.invoke t) (by simpa using hth) th' x
  have h₂ := count_ledger_invoke (s := s) (t := t) x
  rw [hpc, h0] at h₁
  simp only [Pc.held, List.count_nil] at h₁
  omega

theorem poolStep_flow {id : Nat} {a : Act} (hth : s.threads[i]? = some th)
    (h : s.poolStep i th id a = some s') : Flow s i s' := by
  have hset : ∀ {s₂ : Sched} {th' : Thread}, Aside s s₂ → th'.pc.held = th.pc.held →
      Flow s i (s₂.setThread i th') :=
    fun hs hh => .move ((Keeps.of_aside hs).setThread (by rw [hs.threads]; exact hth) hh)
  cases poolStep_cases h with
  | move th' hs _ hf hf' => exact hset hs (by rw [Pc.held_of_free hf, Pc.held_of_free hf'])
  | take frame hr hf => exact .move (keeps_take hth (Pc.held_of_free hf) hr frame)
  | invoke ds hpc hready => exact .invokeTask hth hpc hready (by simp)
  | resubmit q hs hpc => exact hset hs (by simp [Pc.held, hpc])
  | put hpc hp => exact .move (keeps_put hth hpc hp)
  | stay => exact .move ⟨rfl, rfl, fun _ => rfl⟩

theorem userStep_flow {a : Act} (hth : s.threads[i]? = some th)
    (h : s.userStep i th a = some s') : Flow s i s' := by
  have hset : ∀ {s₂ : Sched} {pc : Pc}, Keeps s s₂ → s₂.threads = s.threads →
      pc.held = th.pc.held → Flow s i (s₂.setThread i { th with pc := pc }) :=
    fun hs ht hh => .move (hs.setThread (by rw [ht]; exact hth) hh)
  cases userStep_cases h with
  | move pc hs hf hf' =>
    exact hset (.of_aside hs) hs.threads (by rw [Pc.held_of_free hf, Pc.held_of_free hf'])
  | release => exact .move ⟨rfl, rfl, fun _ => rfl⟩
  | start hpc => exact hset ⟨rfl, rfl, fun _ => rfl⟩ rfl (by simp [Pc.held, hpc])
  | createWorkers hpc =>
    exact .move (((⟨rfl, rfl, fun _ => rfl⟩ : Keeps s s).setThread hth (by simp [Pc.held, hpc])).trans
      (Keeps.append rfl rfl (by simp [Pc.held, newWorkers]) rfl rfl))
  | stop b pc hpc _ hpc' =>
    exact hset ⟨rfl, rfl, fun _ => rfl⟩ rfl
      (by rcases hpc' with ⟨-, rfl⟩ | ⟨-, rfl⟩ <;> simp [Pc.held, hpc])
  | addTask l hpc => exact hset ⟨rfl, rfl, fun _ => rfl⟩ rfl (by simp [Pc.held, hpc])
  | latch => exact .move ⟨rfl, rfl, fun _ => rfl⟩
  | group k hpc =>
    refine .move (Keeps.trans ?_ (keeps_groupTask
      (s := { s with latches := s.latches ++ [Latch.mk k k k 0] }) hth (by simp [Pc.held, hpc]) _ _))
    exact ⟨rfl, rfl, fun _ => rfl⟩
  | schedule l hpc => exact hset ⟨rfl, rfl, fun _ => rfl⟩ rfl (by simp [Pc.held, hpc])
  | notify => exact .move ⟨rfl, rfl, fun _ => rfl⟩
  | tempRunners k hpc => exact hset ⟨rfl, rfl, fun _ => rfl⟩ rfl (by simp [Pc.held, hpc])
  | @send t q next s₁ hpc hp =>
    obtain ⟨l, -, -, rfl⟩ := push_spec hp
    have hk := keeps_afterSend (s := { s with
      queues := s.queues.set q (l ++ [{ t with id := s.accepted }])
      accepted := s.accepted + 1 }) hth (by simp [Pc.held, hpc]) next
    refine .accept hk.accepted hk.invoked fun x => ?_
    rw [hk.count]
    exact count_ledger_push hp x
  | wait => exact .move ⟨rfl, rfl, fun _ => rfl⟩
  | joined b hpc => exact hset ⟨rfl, rfl, fun _ => rfl⟩ rfl (by simp [Pc.held, hpc])
  | spawn sem k n e hpc =>
    have hk : Keeps s { s with
        others := s.others ++ [(s.nodes, Slot.empty)]
        nodes := s.nodes + 1
        threads := s.threads ++ [Thread.mk (.helper (e % s.n) sem s.nodes) .spawned []] } :=
      Keeps.append rfl rfl (by simp [Pc.held]) rfl rfl
    exact .move (hk.setThread (getElem?_append_of_some hth) (by simp [Pc.held, hpc]))

/-- One inversion for every step of every thread. -/
theorem step_flow {a : Act} (h : s.step i a = some s') : Flow s i s' := by
  obtain ⟨th, hth, ⟨-, h⟩ | ⟨_, -, h⟩⟩ := step_cases h
  · exact userStep_flow hth h
  · exact poolStep_flow hth h

/-- Each accepted submission is in the ledger exactly once, and nothing else is. -/
def Balanced (s : Sched) : Prop := ∀ x, s.ledger.count x = if x < s.accepted then 1 else 0

theorem balanced_init (n cap users : Nat) : Balanced (init n cap users) := by
  have hq : (List.replicate n ([] : List Task)).flatMap (List.map Task.id) = [] :=
    List.flatMap_eq_nil_iff.mpr fun l hl => by rw [List.eq_of_mem_replicate hl]; rfl
  have ht : (List.replicate users (⟨.user, .idle, []⟩ : Thread)).flatMap (·.pc.held) = [] :=
    List.flatMap_eq_nil_iff.mpr fun th hth => by rw [List.eq_of_mem_replicate hth]; rfl
  intro x
  simp [ledger, queuedIds, heldIds, invokedIds, init, hq, ht]

theorem Balanced.step {a : Act} (hb : Balanced s) (h : s.step i a = some s') : Balanced s' := by
  intro x
  cases step_flow h with
  | move hk => rw [hk.count, hk.accepted]; exact hb x
  | accept hacc _ hc =>
    rw [hc, hb, hacc, List.count_singleton']
    split_ifs <;> omega
  | invoke _ _ _ _ _ hacc _ hc => rw [hc, hacc]; exact hb x

theorem balanced_of_reachable {n cap users : Nat} (hs : (init n cap users).Reachable s) :
    Balanced s := by
  induction hs with
  | refl => exact balanced_init n cap users
  | tail _ hst ih =>
    obtain ⟨i, a, h⟩ := hst
    exact ih.step h

/-- Over every run of the scheduler from its construction: each accepted submission is, until
invoked, in exactly one queue slot or in the hands of exactly one thread, and once invoked in
neither and never invoked again; no other task id appears anywhere; and a step invokes a
callable only as `run_task` of the thread holding it, with its latch found at zero by
`is_ready()`. -/
theorem accepted_tasks_invoked_at_most_once {n cap users : Nat}
    (hs : (init n cap users).Reachable s) :
    (∀ x, x < s.accepted → (s.queuedIds ++ s.heldIds).count x + s.invokedIds.count x = 1) ∧
    (∀ x, s.accepted ≤ x → x ∉ s.ledger) ∧
    (∀ i a s', s.step i a = some s' → s'.invoked = s.invoked ∨
      ∃ th t, s.threads[i]? = some th ∧ th.pc = .runTask t ∧ s.ready t = true ∧
        s'.invoked = s.invoked ++ [t]) := by
  have hb := balanced_of_reachable hs
  refine ⟨fun x hx => ?_, fun x hx hmem => ?_, fun i a s' h => ?_⟩
  · have := hb x
    simp only [ledger, List.count_append, if_pos hx] at this
    simpa only [List.count_append] using this
  · have := hb x
    rw [if_neg (by omega)] at this
    exact List.count_pos_iff.mpr hmem |>.ne' this
  · cases step_flow h with
    | move hk => exact .inl hk.invoked
    | accept _ hinv _ => exact .inl hinv
    | invoke th t hth hpc hready _ hinv _ => exact .inr ⟨th, t, hth, hpc, hready, hinv⟩

end Sched

open Sched

/-- `create_task_group` of two tasks on one worker: the user sends the first, which the worker
takes from its queue and runs, while the user is about to send the second. -/
def groupHalfDoneRun : List (Nat × Act) :=
  [(0, .start), (0, .tick), (0, .group 2), (0, .tick), (1, .tick), (1, .tick), (1, .tick),
   (1, .tick)]

/-- Where that run ends: one callable invoked, the other in the user's hands, and the latch at
one. -/
def groupHalfDoneEnd : Sched where
  n := 1
  cap := 4
  queues := [[]]
  running := true
  taskCount := 2
  latches := [⟨1, 2, 2, 0⟩]
  threads := [⟨.user, .send ⟨0, .notify 0, none, [0]⟩ 0 (.group 0 0), []⟩,
    ⟨.worker 0, .drainHead 0 [], []⟩]
  tracked := [1]
  others := []
  nodes := 0
  handles := 1
  accepted := 1
  invoked := [⟨0, .notify 0, none, [0]⟩]

theorem accepted_tasks_invoked_at_most_once_half_done :
    (init 1 4 1).runTrace groupHalfDoneRun = some groupHalfDoneEnd ∧
    (∀ x, x < groupHalfDoneEnd.accepted →
      (groupHalfDoneEnd.queuedIds ++ groupHalfDoneEnd.heldIds).count x +
        groupHalfDoneEnd.invokedIds.count x = 1) ∧
    (∀ x, groupHalfDoneEnd.accepted ≤ x → x ∉ groupHalfDoneEnd.ledger) ∧
    (∀ i a s', groupHalfDoneEnd.step i a = some s' → s'.invoked = groupHalfDoneEnd.invoked ∨
      ∃ th t, groupHalfDoneEnd.threads[i]? = some th ∧ th.pc = .runTask t ∧
        groupHalfDoneEnd.ready t = true ∧ s'.invoked = groupHalfDoneEnd.invoked ++ [t]) := by
  have hr : (init 1 4 1).runTrace groupHalfDoneRun = some groupHalfDoneEnd := by decide
  exact ⟨hr, accepted_tasks_invoked_at_most_once (reachable_of_runTrace _ .refl hr)⟩

end FunctionQueue.Scheduler
