import FunctionQueue.Scheduler.Ledger

/-!
What notifies a latch. `schedule_task` wraps a callable so that the wrapper's `on_scope_exit`
notifies the latch when the callable returns or throws; `create_task_group` (and
`create_waitable_task`, a group of one) schedules each of its callables that way on the latch it
makes, and a user may pass a latch of its own to `schedule_task`, or notify one it holds.
Nothing else notifies a latch: not `stop`, which abandons whatever is queued, and not
`run_task`'s re-submission, which carries the wrapped callable along. So every latch is notified
once per invoked wrapper and once per `notify` of its holders, and a group's latch counts
exactly its callables not yet invoked, wherever they are.
-/

namespace FunctionQueue.Scheduler

/-- The callables `create_task_group` has still to schedule after the current one. -/
def After.bodies : After → List Body
  | .group l left => List.replicate left (.notify l)
  | _ => []

/-- The callables a thread holds and has not invoked: the task it runs or re-submits, or the task
a user is sending together with those it has still to schedule. -/
def Pc.bodies : Pc → List Body
  | .runTask t => [t.body]
  | .resubmit t _ => [t.body]
  | .send t _ next => t.body :: next.bodies
  | _ => []

@[simp] theorem Thread.bodies_finish (th : Thread) : th.finish.pc.bodies = [] := by
  unfold Thread.finish; split <;> rfl

@[simp] theorem Thread.bodies_endWrapper (th : Thread) (ds : List Nat) :
    (th.endWrapper ds).pc.bodies = [] := by
  cases ds with
  | nil => exact th.bodies_finish
  | cons => rfl

theorem Pc.bodies_of_free {pc : Pc} (h : pc.free = true) : pc.bodies = [] := by
  cases pc <;> simp_all [Pc.free, Pc.bodies]

/-- A latch is notified once for each of the `invoked` callables made to notify it and once for
each `notify` of its holders, and those not invoked yet (`pending`) and the invoked ones are as
many as were made. -/
def Latch.Exact (x : Latch) (pending invoked : Nat) : Prop :=
  x.count = x.initial - (x.byUsers + invoked) ∧ pending + invoked = x.tasks

namespace Sched

variable (s : Sched)

/-- The callables not yet invoked that notify latch `l`: queued, held by a thread, or still to
be scheduled by a user. -/
def pendingOf (l : Nat) : Nat :=
  (s.queues.flatMap (List.map Task.body) ++ s.threads.flatMap (·.pc.bodies)).count (.notify l)

/-- The invoked callables that notify latch `l`. -/
def invokedOf (l : Nat) : Nat := (s.invoked.map Task.body).count (.notify l)

/-- Every latch is `Exact`, and no callable notifies a latch not made yet. -/
structure LatchesExact : Prop where
  made : ∀ l (x : Latch), s.latches[l]? = some x → x.Exact (s.pendingOf l) (s.invokedOf l)
  fresh : ∀ l, s.latches.length ≤ l → s.pendingOf l = 0 ∧ s.invokedOf l = 0

variable {s} {s' s₁ s₂ : Sched} {i q : Nat} {th : Thread} {t : Task}

/-- Latches hold no callable. -/
@[simp] theorem pendingOf_latches (ls : List Latch) (l : Nat) :
    ({ s with latches := ls } : Sched).pendingOf l = s.pendingOf l := rfl

@[simp] theorem pendingOf_addWrapper (l' l : Nat) : (s.addWrapper l').pendingOf l = s.pendingOf l :=
  rfl

@[simp] theorem pendingOf_nextTaskId (l : Nat) : s.nextTaskId.2.pendingOf l = s.pendingOf l := rfl

/-- The latches, the invoked callables and the pending ones, per latch, are unchanged. -/
structure Still (s s' : Sched) : Prop where
  latches : s'.latches = s.latches
  invoked : s'.invoked = s.invoked
  pending : ∀ l, s'.pendingOf l = s.pendingOf l

theorem LatchesExact.of_still (h : s.LatchesExact) (hs : Still s s') : s'.LatchesExact := by
  have hi : s'.invokedOf = s.invokedOf := by funext l; simp [invokedOf, hs.invoked]
  refine ⟨fun l x hx => ?_, fun l hl => ?_⟩
  · rw [hi, hs.pending]
    exact h.made l x (hs.latches ▸ hx)
  · rw [hi, hs.pending]
    exact h.fresh l (hs.latches ▸ hl)

theorem pendingOf_setThread (hth : s.threads[i]? = some th) (th' : Thread) (l : Nat) :
    (s.setThread i th').pendingOf l + th.pc.bodies.count (.notify l) =
      s.pendingOf l + th'.pc.bodies.count (.notify l) := by
  have := count_flatMap_set (fun th : Thread => th.pc.bodies) (Body.notify l) th' hth
  simp only [pendingOf, setThread, List.count_append] at this ⊢
  omega

theorem Still.setThread (hs : Still s s₂) (hth : s₂.threads[i]? = some th) {th' : Thread}
    (hb : ∀ l, th'.pc.bodies.count (.notify l) = th.pc.bodies.count (.notify l)) :
    Still s (s₂.setThread i th') :=
  ⟨hs.latches, hs.invoked, fun l => by
    have := pendingOf_setThread hth th' l
    rw [hb, hs.pending] at this
    omega⟩

theorem pendingOf_receive (h : s.receive q = some (t, s₁)) (l : Nat) :
    s₁.pendingOf l + [t.body].count (.notify l) = s.pendingOf l := by
  obtain ⟨rest, hq, rfl⟩ := receive_spec h
  have := count_flatMap_set (List.map Task.body) (Body.notify l) rest hq
  simp only [pendingOf, List.map_cons, List.map_nil, List.count_append, List.count_cons,
    List.count_nil] at this ⊢
  omega

theorem pendingOf_push (h : s.push q t = some s₁) (l : Nat) :
    s₁.pendingOf l = s.pendingOf l + [t.body].count (.notify l) := by
  obtain ⟨xs, hq, -, rfl⟩ := push_spec h
  have := count_flatMap_set (List.map Task.body) (Body.notify l) (xs ++ [t]) hq
  simp only [pendingOf, List.map_append, List.map_cons, List.map_nil, List.count_append] at this ⊢
  omega

theorem Still.of_aside (h : Aside s s₂) : Still s s₂ :=
  ⟨h.latches, h.invoked, fun l => by simp only [pendingOf, h.queues, h.threads]⟩

/-- A hit of `receive` moves the head of the queue into the thread's hands. -/
theorem still_take (hth : s.threads[i]? = some th) (h0 : th.pc.bodies = [])
    (hr : s.receive q = some (t, s₁)) (frame : List (Nat × List Nat)) :
    Still s (s₁.setThread i { th with pc := .runTask t, frames := frame ++ th.frames }) := by
  obtain ⟨rest, -, hs₁⟩ := receive_spec hr
  have hth₁ : s₁.threads[i]? = some th := by rw [hs₁]; exact hth
  refine ⟨by rw [setThread_latches, hs₁], by rw [setThread_invoked, hs₁], fun l => ?_⟩
  have h₁ := pendingOf_receive hr l
  have h₂ := pendingOf_setThread hth₁ { th with pc := .runTask t, frames := frame ++ th.frames } l
  rw [h0] at h₂
  simp only [Pc.bodies, List.count_nil] at h₂
  omega

/-- A successful re-submission moves the task from the thread's hands into the queue. -/
theorem still_put (hth : s.threads[i]? = some th) (hpc : th.pc = .resubmit t q)
    (hp : s.push q t = some s₁) : Still s (s₁.setThread i th.finish) := by
  obtain ⟨l, -, -, hs₁⟩ := push_spec hp
  have hth₁ : s₁.threads[i]? = some th := by rw [hs₁]; exact hth
  refine ⟨by rw [setThread_latches, hs₁], by rw [setThread_invoked, hs₁], fun l => ?_⟩
  have h₁ := pendingOf_push hp l
  have h₂ := pendingOf_setThread hth₁ th.finish l
  rw [hpc, Thread.bodies_finish] at h₂
  simp only [Pc.bodies, List.count_nil] at h₂
  omega

theorem getElem?_latches_invoke (l : Nat) :
    (s.invoke t).latches[l]? =
      (s.latches[l]?).map fun x => { x with count := x.count - [t.body].count (.notify l) } := by
  unfold invoke
  split
  next hb =>
    cases s.latches[l]? with
    | none => rfl
    | some x => simp [hb]
  next l' hb =>
    simp only [notifyLatch, List.getElem?_modify, hb, List.count_singleton', Body.notify.injEq]
    cases s.latches[l]? <;> split_ifs <;> simp

theorem length_latches_invoke : (s.invoke t).latches.length = s.latches.length := by
  unfold invoke notifyLatch; split <;> simp

/-- `run_task` invokes the task thread `i` holds: the callable leaves the pending ones for the
invoked ones, and the wrapper notifies its latch, which counted it. -/
theorem LatchesExact.invoke (h : s.LatchesExact) (hth : s.threads[i]? = some th)
    (hpc : th.pc = .runTask t) {th' : Thread} (h0 : th'.pc.bodies = []) :
    ((s.invoke t).setThread i th').LatchesExact := by
  have hp : ∀ l, ((s.invoke t).setThread i th').pendingOf l + [t.body].count (.notify l) =
      s.pendingOf l := fun l => by
    have := pendingOf_setThread (s := s.invoke t) (by simpa using hth) th' l
    rw [hpc, h0] at this
    simpa [Pc.bodies, pendingOf] using this
  have hi : ∀ l, ((s.invoke t).setThread i th').invokedOf l =
      s.invokedOf l + [t.body].count (.notify l) := fun l => by
    simp [invokedOf, List.count_append]
  refine ⟨fun l x hx => ?_, fun l hl => ?_⟩
  · rw [setThread_latches, getElem?_latches_invoke] at hx
    obtain ⟨x₀, hx₀, rfl⟩ := Option.map_eq_some'.mp hx
    obtain ⟨hc, htk⟩ := h.made l x₀ hx₀
    have := hp l
    refine ⟨?_, ?_⟩ <;> simp only [hi] <;> omega
  · rw [setThread_latches, length_latches_invoke] at hl
    have := hp l
    have := h.fresh l hl
    exact ⟨by omega, by rw [hi]; omega⟩

/-- A latch made at the end of the list, `Exact` with the callables the step made for it. -/
theorem LatchesExact.extend (h : s.LatchesExact) {x : Latch}
    (hlat : s'.latches = s.latches ++ [x]) (hinv : s'.invoked = s.invoked)
    (hp : ∀ l, l ≠ s.latches.length → s'.pendingOf l = s.pendingOf l)
    (hx : x.Exact (s'.pendingOf s.latches.length) 0) : s'.LatchesExact := by
  have hi : ∀ l, s'.invokedOf l = s.invokedOf l := fun l => by simp [invokedOf, hinv]
  refine ⟨fun l y hy => ?_, fun l hl => ?_⟩
  · rw [hlat, List.getElem?_append] at hy
    split_ifs at hy with hlt
    · rw [hi, hp l (by omega)]
      exact h.made l y hy
    · obtain rfl : l = s.latches.length := by
        have := (List.getElem?_eq_some_iff.mp hy).1
        simp only [List.length_singleton] at this
        omega
      simp only [Nat.sub_self, List.getElem?_cons_zero, Option.some.injEq] at hy
      subst hy
      rw [hi, (h.fresh _ le_rfl).2]
      exact hx
  · rw [hlat, List.length_append, List.length_singleton] at hl
    rw [hi, hp l (by omega)]
    exact h.fresh l (by omega)

/-- A step that changes one made latch `l'` through `f`, keeps the invoked callables, and
changes the pending ones of `l'` alone, as `f` allows. -/
theorem LatchesExact.of_modify (h : s.LatchesExact) {l' : Nat} (hl' : l' < s.latches.length)
    {f : Latch → Latch} (hlat : s'.latches = s.latches.modify f l') (hinv : s'.invoked = s.invoked)
    (hp : ∀ l, l ≠ l' → s'.pendingOf l = s.pendingOf l)
    (hf : ∀ x, x.Exact (s.pendingOf l') (s.invokedOf l') →
      (f x).Exact (s'.pendingOf l') (s.invokedOf l')) : s'.LatchesExact := by
  have hi : ∀ l, s'.invokedOf l = s.invokedOf l := fun l => by simp [invokedOf, hinv]
  refine ⟨fun l y hy => ?_, fun l hl => ?_⟩
  · rw [hlat, List.getElem?_modify] at hy
    obtain ⟨x, hx, rfl⟩ := Option.map_eq_some'.mp hy
    rw [hi]
    split_ifs with hl
    · subst hl
      exact hf x (h.made _ x hx)
    · rw [hp l (Ne.symm hl)]
      exact h.made l x hx
  · rw [hlat, List.length_modify] at hl
    rw [hi, hp l (by omega)]
    exact h.fresh l hl

theorem Still.trans (h₁ : Still s s₁) (h₂ : Still s₁ s₂) : Still s s₂ :=
  ⟨h₂.latches.trans h₁.latches, h₂.invoked.trans h₁.invoked,
    fun l => (h₂.pending l).trans (h₁.pending l)⟩

/-- New threads that hold no callable. -/
theorem Still.append {ts : List Thread} (hq : s'.queues = s.queues)
    (ht : s'.threads = s.threads ++ ts) (hts : ∀ th ∈ ts, th.pc.bodies = [])
    (hlat : s'.latches = s.latches) (hinv : s'.invoked = s.invoked) : Still s s' :=
  ⟨hlat, hinv, fun l => by
    have : ts.flatMap (·.pc.bodies) = [] := List.flatMap_eq_nil_iff.mpr hts
    simp only [pendingOf, hq, ht, List.flatMap_append, this, List.append_nil]⟩

/-- `create_task_group`'s next task: one of the group's callables still to schedule is now in the
user's hands. -/
theorem pendingOf_groupTask (hth : s.threads[i]? = some th) (l' left l : Nat) :
    (s.groupTask i th l' left).pendingOf l + th.pc.bodies.count (.notify l) =
      s.pendingOf l + (List.replicate (left + 1) (Body.notify l')).count (.notify l) := by
  have := pendingOf_setThread (s := s.nextTaskId.2) hth
    { th with pc := .send (wrap (.notify l') none s.nextTaskId.1) s.nextTaskId.1 (.group l' left) } l
  simpa [groupTask, Pc.bodies, After.bodies, wrap, List.replicate_succ, List.count_cons] using this

theorem pendingOf_afterSend (hth : s.threads[i]? = some th) (next : After) (l : Nat) :
    (s.afterSend i th next).pendingOf l + th.pc.bodies.count (.notify l) =
      s.pendingOf l + next.bodies.count (.notify l) := by
  have hset := fun pc => pendingOf_setThread hth { th with pc := pc } l
  cases next with
  | done => simpa only [afterSend, Pc.bodies, After.bodies, List.count_nil, Nat.add_zero] using hset .idle
  | group l' left =>
    dsimp only [afterSend]
    split
    · subst left
      simpa only [Pc.bodies, After.bodies, List.replicate_zero, List.count_nil, Nat.add_zero] using
        hset .idle
    · obtain ⟨m, rfl⟩ : ∃ m, left = m + 1 := ⟨left - 1, by omega⟩
      simpa only [Nat.add_one_sub_one, After.bodies] using pendingOf_groupTask hth l' m l
  | stop b k =>
    dsimp only [afterSend]
    split
    · simpa only [sentinel, wrap, Pc.bodies, After.bodies, List.count_nil, Nat.add_zero, ne_eq,
        reduceCtorEq, not_false_eq_true, List.count_cons_of_ne] using
        hset (.send (sentinel k) k (.stop b (k + 1)))
    · simpa only [Pc.bodies, After.bodies, List.count_nil, Nat.add_zero] using hset (.join b s.tracked)

theorem afterSend_latches_invoked (th : Thread) (next : After) :
    (s.afterSend i th next).latches = s.latches ∧ (s.afterSend i th next).invoked = s.invoked := by
  cases next with
  | done => exact ⟨rfl, rfl⟩
  | group l left => dsimp only [afterSend]; split <;> exact ⟨rfl, rfl⟩
  | stop b k => dsimp only [afterSend]; split <;> exact ⟨rfl, rfl⟩

theorem LatchesExact.poolStep (hl : s.LatchesExact) (hth : s.threads[i]? = some th) {id : Nat}
    {a : Act} (h : s.poolStep i th id a = some s') : s'.LatchesExact := by
  have hset : ∀ {s₂ : Sched} {th' : Thread}, Aside s s₂ → th'.pc.bodies = th.pc.bodies →
      (s₂.setThread i th').LatchesExact := fun hs hb =>
    hl.of_still ((Still.of_aside hs).setThread (by rw [hs.threads]; exact hth) fun _ => by rw [hb])
  cases poolStep_cases h with
  | move th' hs _ hf hf' => exact hset hs (by rw [Pc.bodies_of_free hf, Pc.bodies_of_free hf'])
  | take frame hr hf => exact hl.of_still (still_take hth (Pc.bodies_of_free hf) hr frame)
  | invoke ds hpc hready => exact hl.invoke hth hpc (by simp)
  | resubmit q hs hpc => exact hset hs (by simp [Pc.bodies, hpc])
  | put hpc hp => exact hl.of_still (still_put hth hpc hp)
  | stay => exact hl

theorem LatchesExact.userStep (hl : s.LatchesExact) (hth : s.threads[i]? = some th) {a : Act}
    (h : s.userStep i th a = some s') : s'.LatchesExact := by
  have hset : ∀ {s₂ : Sched} {pc : Pc}, Still s s₂ → s₂.threads = s.threads →
      (∀ l, pc.bodies.count (.notify l) = th.pc.bodies.count (.notify l)) →
      (s₂.setThread i { th with pc := pc }).LatchesExact :=
    fun hs ht hb => hl.of_still (hs.setThread (by rw [ht]; exact hth) hb)
  have hL : s.pendingOf s.latches.length = 0 := (hl.fresh _ le_rfl).1
  cases userStep_cases h with
  | move pc hs hf hf' =>
    exact hset (.of_aside hs) hs.threads (by simp [Pc.bodies_of_free hf, Pc.bodies_of_free hf'])
  | release => exact hl.of_still ⟨rfl, rfl, fun _ => rfl⟩
  | start hpc => exact hset ⟨rfl, rfl, fun _ => rfl⟩ rfl (by simp [Pc.bodies, hpc])
  | createWorkers hpc =>
    have h₁ : Still s (s.setThread i { th with pc := .idle }) :=
      Still.setThread ⟨rfl, rfl, fun _ => rfl⟩ hth (by simp [Pc.bodies, hpc])
    exact hl.of_still (h₁.trans (Still.append rfl rfl (by simp [Pc.bodies, newWorkers]) rfl rfl))
  | stop b pc hpc _ hpc' =>
    exact hset ⟨rfl, rfl, fun _ => rfl⟩ rfl (by
      rcases hpc' with ⟨-, rfl⟩ | ⟨-, rfl⟩ <;> simp [Pc.bodies, After.bodies, hpc, sentinel, wrap])
  | addTask l hpc =>
    exact hset ⟨rfl, rfl, fun _ => rfl⟩ rfl (by simp [Pc.bodies, After.bodies, hpc, wrap])
  | latch c => exact hl.extend rfl rfl (fun _ _ => rfl) ⟨by simp, by simpa using hL⟩
  | group k hpc _ hk =>
    have hp := pendingOf_groupTask (s := { s with latches := s.latches ++ [Latch.mk k k k 0] })
      hth s.latches.length (k - 1)
    simp only [hpc, Pc.bodies, List.count_nil, Nat.add_zero, Nat.sub_add_cancel hk,
      List.count_replicate] at hp
    refine hl.extend rfl rfl (fun l hne => ?_) ⟨by simp, ?_⟩
    · simp [hp, Ne.symm hne]
    · simp [hp, hL]
  | schedule l hpc _ hlt =>
    have hp : ∀ l₀, ((s.nextTaskId.2.addWrapper l).setThread i
        { th with pc := .send (wrap (.notify l) none s.nextTaskId.1) s.nextTaskId.1 .done }).pendingOf
          l₀ = s.pendingOf l₀ + [Body.notify l].count (.notify l₀) := fun l₀ => by
      have := pendingOf_setThread (s := s.nextTaskId.2.addWrapper l) hth
        { th with pc := .send (wrap (.notify l) none s.nextTaskId.1) s.nextTaskId.1 .done } l₀
      simpa [hpc, Pc.bodies, After.bodies, wrap] using this
    refine hl.of_modify hlt rfl rfl (fun l₀ hne => ?_) fun x ⟨hc, htk⟩ => ⟨hc, ?_⟩
    · simpa [List.count_singleton', Ne.symm hne] using hp l₀
    · have := hp l
      simp only [List.count_singleton', if_true] at this
      simp only [this]
      omega
  | notify l _ _ hlt =>
    exact hl.of_modify hlt rfl rfl (fun _ _ => rfl) fun x ⟨hc, htk⟩ => ⟨by simp only; omega, htk⟩
  | tempRunners k hpc =>
    have hp := pendingOf_setThread (s := { s with latches := s.latches ++ [Latch.mk k k 0 0] })
      hth { th with pc := .spawnNext s.latches.length k 0 }
    simp only [hpc, Pc.bodies, List.count_nil, Nat.add_zero] at hp
    exact hl.extend rfl rfl (fun l _ => hp l) ⟨by simp, by simpa [hp] using hL⟩
  | @send t q next s₁ hpc hp =>
    obtain ⟨xs, -, -, hs₁⟩ := push_spec hp
    have hth₁ : ({ s₁ with accepted := s.accepted + 1 } : Sched).threads[i]? = some th := by
      rw [hs₁]; exact hth
    obtain ⟨hlat, hinv⟩ := afterSend_latches_invoked
      (s := { s₁ with accepted := s.accepted + 1 }) (i := i) th next
    refine hl.of_still ⟨hlat.trans (by rw [hs₁]), hinv.trans (by rw [hs₁]), fun l => ?_⟩
    have h₁ := pendingOf_push hp l
    have h₂ := pendingOf_afterSend hth₁ next l
    have h₃ : ({ s₁ with accepted := s.accepted + 1 } : Sched).pendingOf l = s₁.pendingOf l :=
      rfl
    rw [hpc] at h₂
    simp only [Pc.bodies, List.count_cons, List.count_nil] at h₁ h₂
    omega
  | wait => exact hl
  | joined b hpc => exact hset ⟨rfl, rfl, fun _ => rfl⟩ rfl (by simp [Pc.bodies, hpc])
  | spawn sem k n e hpc =>
    have hs : Still s { s with
        others := s.others ++ [(s.nodes, Slot.empty)]
        nodes := s.nodes + 1
        threads := s.threads ++ [Thread.mk (.helper (e % s.n) sem s.nodes) .spawned []] } :=
      Still.append rfl rfl (by simp [Pc.bodies]) rfl rfl
    exact hl.of_still (hs.setThread (getElem?_append_of_some hth) (by simp [Pc.bodies, hpc]))

theorem LatchesExact.step (hl : s.LatchesExact) {a : Act} (h : s.step i a = some s') :
    s'.LatchesExact := by
  obtain ⟨th, hth, ⟨-, h⟩ | ⟨_, -, h⟩⟩ := step_cases h
  · exact hl.userStep hth h
  · exact hl.poolStep hth h

theorem latchesExact_init (n cap users : Nat) : (init n cap users).LatchesExact := by
  have hq : (List.replicate n ([] : List Task)).flatMap (List.map Task.body) = [] :=
    List.flatMap_eq_nil_iff.mpr fun l hl => by rw [List.eq_of_mem_replicate hl]; rfl
  have ht : (List.replicate users (⟨.user, .idle, []⟩ : Thread)).flatMap (·.pc.bodies) = [] :=
    List.flatMap_eq_nil_iff.mpr fun th hth => by rw [List.eq_of_mem_replicate hth]; rfl
  refine ⟨fun l x hx => by simp [init] at hx, fun l _ => ?_⟩
  simp [pendingOf, invokedOf, init, hq, ht]

theorem latchesExact_of_reachable {n cap users : Nat} (hs : (init n cap users).Reachable s) :
    s.LatchesExact := by
  induction hs with
  | refl => exact latchesExact_init n cap users
  | tail _ hst ih =>
    obtain ⟨i, a, h⟩ := hst
    exact ih.step h

/-- Over every run of the scheduler from its construction, `stop` and throwing callables
included, every latch (made by `create_task_group`, by `create_waitable_task`, or by a user and
passed to `schedule_task`) is notified once for each invoked callable whose wrapper notifies it
and once for each `notify` of its holders, and by nothing else: its count is the count it was made
with less those. Its callables not yet invoked (queued, held by a pool thread that runs or
re-submits them, or still to be scheduled by their user) and the invoked ones are as many as were
made to notify it. So a latch with as many callables as its count, which its holders do not
notify, as a group's latch, counts exactly its callables not yet invoked: it reaches zero when
the last is invoked and never before, and a callable that `stop` leaves in a queue keeps it above
zero for as long as it stays there. -/
theorem latches_notified_once_per_invoked_task {n cap users : Nat}
    (hs : (init n cap users).Reachable s) {l : Nat} {x : Latch} (hl : s.latches[l]? = some x) :
    x.count = x.initial - (x.byUsers + s.invokedOf l) ∧ s.pendingOf l + s.invokedOf l = x.tasks ∧
      (x.byUsers = 0 → x.tasks = x.initial → x.count = s.pendingOf l) := by
  obtain ⟨hc, htk⟩ := (latchesExact_of_reachable hs).made l x hl
  exact ⟨hc, htk, fun hb ht => by omega⟩

end Sched

open Sched

/-- Halfway through a group of two: the latch has been notified once, by the wrapper of the
callable invoked, and counts the other, which the user is about to send. -/
theorem latches_notified_once_per_invoked_task_half_done :
    (init 1 4 1).runTrace groupHalfDoneRun = some groupHalfDoneEnd ∧
    groupHalfDoneEnd.latches = [⟨1, 2, 2, 0⟩] ∧
    1 = 2 - (0 + groupHalfDoneEnd.invokedOf 0) ∧
    groupHalfDoneEnd.pendingOf 0 + groupHalfDoneEnd.invokedOf 0 = 2 ∧
    1 = groupHalfDoneEnd.pendingOf 0 := by
  have hr : (init 1 4 1).runTrace groupHalfDoneRun = some groupHalfDoneEnd := by decide
  obtain ⟨hc, htk, hg⟩ :=
    latches_notified_once_per_invoked_task (reachable_of_runTrace _ .refl hr) (l := 0) rfl
  exact ⟨hr, rfl, hc, htk, hg rfl rfl⟩

end FunctionQueue.Scheduler
