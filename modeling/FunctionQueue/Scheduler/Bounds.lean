import FunctionQueue.Scheduler.Shutdown

/-!
The queue indices the scheduler holds stay inside `m_tasks`. `m_tasks[id]` is indexed without a
check: by a worker or helper at its own queue, by the steal sweeps at `(m + 1) % m_num_threads`,
by `send_task` at the id `get_task_id()` gave, and by the drain loops of the `add_task` wrappers
at the ids the wrappers captured. For every `N > 0` each of these is below `N` in every state of
every run from the constructed scheduler (`queue_indices_in_range`): the ids are made by `% N`
or copied from one already held, and `m_tasks` keeps its `N` queues. At `N = 0` the `%` itself is
undefined behaviour (`FunctionQueue.Scheduler.Indices`).
-/

namespace FunctionQueue.Scheduler

/-- The queues a program counter will use: the queue of a sweep or of `send_task`, and the drain
loops of the wrappers around a task it holds or of the wrapper it drains for. -/
@[simp] def Pc.queueIds : Pc → List Nat
  | .sweep m => [m]
  | .runTask t => t.drains
  | .resubmit t q => q :: t.drains
  | .send t q _ => q :: t.drains
  | .drainHead d outer => d :: outer
  | .nextOwn d outer => d :: outer
  | .nextSweep d outer m => m :: d :: outer
  | _ => []

/-- The queue a worker or a helper serves. -/
@[simp] def Role.queueIds : Role → List Nat
  | .worker id => [id]
  | .helper id _ _ => [id]
  | .user => []

/-- The drain loops a pool thread returns to once `run_task` ends. -/
def frameIds (fs : List (Nat × List Nat)) : List Nat := fs.flatMap fun f => f.1 :: f.2

@[simp] theorem frameIds_nil : frameIds [] = [] := rfl

@[simp] theorem frameIds_cons (d : Nat) (outer : List Nat) (fs : List (Nat × List Nat)) :
    frameIds ((d, outer) :: fs) = d :: (outer ++ frameIds fs) := rfl

@[simp] theorem frameIds_append (fs fs' : List (Nat × List Nat)) :
    frameIds (fs ++ fs') = frameIds fs ++ frameIds fs' := List.flatMap_append _ _ _

/-- Every queue index a thread holds. -/
def Thread.queueIds (th : Thread) : List Nat :=
  th.role.queueIds ++ th.pc.queueIds ++ frameIds th.frames

/-- Every index of `qs` names one of the `n` queues. -/
def IdsBelow (n : Nat) (qs : List Nat) : Prop := ∀ q ∈ qs, q < n

section IdsBelow

variable {n q : Nat} {qs qs' : List Nat}

@[simp] theorem idsBelow_nil : IdsBelow n [] := fun _ h => nomatch h

@[simp] theorem idsBelow_cons : IdsBelow n (q :: qs) ↔ q < n ∧ IdsBelow n qs :=
  List.forall_mem_cons

@[simp] theorem idsBelow_append : IdsBelow n (qs ++ qs') ↔ IdsBelow n qs ∧ IdsBelow n qs' :=
  List.forall_mem_append

theorem idsBelow_queueIds {th : Thread} : IdsBelow n th.queueIds ↔
    IdsBelow n th.role.queueIds ∧ IdsBelow n th.pc.queueIds ∧ IdsBelow n (frameIds th.frames) := by
  simp only [Thread.queueIds, idsBelow_append, and_assoc]

end IdsBelow

namespace Thread

variable {n : Nat} {th : Thread}

theorem idsBelow_withPc (h : IdsBelow n th.queueIds) {pc : Pc} (hpc : IdsBelow n pc.queueIds) :
    IdsBelow n { th with pc := pc }.queueIds :=
  have h := idsBelow_queueIds.mp h
  idsBelow_queueIds.mpr ⟨h.1, hpc, h.2.2⟩

/-- Ending `run_task` goes back to a drain loop of the thread's own frames. -/
theorem idsBelow_finish (h : IdsBelow n th.queueIds) : IdsBelow n th.finish.queueIds := by
  have h := idsBelow_queueIds.mp h
  unfold finish
  split
  · exact idsBelow_queueIds.mpr ⟨h.1, idsBelow_nil, by simp [*]⟩
  · rename_i fs hfs
    rw [hfs, frameIds_cons, idsBelow_cons, idsBelow_append] at h
    exact idsBelow_queueIds.mpr ⟨h.1, by simpa using ⟨h.2.2.1, h.2.2.2.1⟩, h.2.2.2.2⟩

theorem idsBelow_endWrapper (h : IdsBelow n th.queueIds) {ds : List Nat} (hds : IdsBelow n ds) :
    IdsBelow n (th.endWrapper ds).queueIds := by
  cases ds with
  | nil => exact idsBelow_finish h
  | cons d outer => exact idsBelow_withPc h hds

end Thread

namespace Sched

/-- `m_tasks` has its `n` queues, and every queue index a thread holds or a queued task carries
names one of them. -/
structure InRange (n : Nat) (s : Sched) : Prop where
  size : s.n = n
  length : s.queues.length = n
  queued : ∀ l ∈ s.queues, ∀ t ∈ l, IdsBelow n t.drains
  held : ∀ th ∈ s.threads, IdsBelow n th.queueIds

variable {n : Nat} {s s₁ : Sched} {i q : Nat} {th : Thread} {t : Task}

theorem inRange_init (n cap users : Nat) : InRange n (init n cap users) where
  size := rfl
  length := List.length_replicate n []
  queued l hl t ht := by rw [(List.mem_replicate.mp hl).2] at ht; cases ht
  held th hth := by rw [(List.mem_replicate.mp hth).2]; simp [Thread.queueIds]

namespace InRange

/-- A change that keeps `m_num_threads`, the queues and the threads keeps the invariant. -/
theorem congr (hs : InRange n s) (hn : s₁.n = s.n) (hq : s₁.queues = s.queues)
    (ht : s₁.threads = s.threads) : InRange n s₁ :=
  ⟨hn.trans hs.size, hq ▸ hs.length, hq ▸ hs.queued, ht ▸ hs.held⟩

theorem setThread (hs : InRange n s) (h : IdsBelow n th.queueIds) :
    InRange n (s.setThread i th) :=
  ⟨hs.size, hs.length, hs.queued,
    fun x hx => (List.mem_or_eq_of_mem_set hx).elim (hs.held x) (· ▸ h)⟩

theorem withPc (hs : InRange n s) (hth : IdsBelow n th.queueIds) {pc : Pc}
    (hpc : IdsBelow n pc.queueIds) : InRange n (s.setThread i { th with pc := pc }) :=
  hs.setThread (Thread.idsBelow_withPc hth hpc)

theorem mod_lt (hs : InRange n s) (hpos : 0 < n) (x : Nat) : x % s.n < n := by
  rw [hs.size]; exact Nat.mod_lt x hpos

/-- A hit of `m_tasks[q].receive` hands over a task whose ids are in range. -/
theorem receive (hs : InRange n s) (h : s.receive q = some (t, s₁)) :
    InRange n s₁ ∧ IdsBelow n t.drains := by
  obtain ⟨rest, hq, rfl⟩ := receive_spec h
  have hmem := List.getElem?_mem hq
  refine ⟨⟨hs.size, (List.length_set ..).trans hs.length, fun l hl => ?_, hs.held⟩,
    hs.queued _ hmem t (List.mem_cons_self t rest)⟩
  rcases List.mem_or_eq_of_mem_set hl with hl | rfl
  · exact hs.queued l hl
  · exact fun t' ht' => hs.queued _ hmem t' (List.mem_cons_of_mem t ht')

theorem push (hs : InRange n s) (h : s.push q t = some s₁) (ht : IdsBelow n t.drains) :
    InRange n s₁ := by
  obtain ⟨l, hq, -, rfl⟩ := push_spec h
  refine ⟨hs.size, (List.length_set ..).trans hs.length, fun l' hl' => ?_, hs.held⟩
  rcases List.mem_or_eq_of_mem_set hl' with hl' | rfl
  · exact hs.queued l' hl'
  · intro t' ht'
    rcases List.mem_append.mp ht' with ht' | ht'
    · exact hs.queued l (List.getElem?_mem hq) t' ht'
    · rw [List.mem_singleton.mp ht']; exact ht

theorem pop (hs : InRange n s) (hth : IdsBelow n th.queueIds) {miss : Pc}
    (hmiss : IdsBelow n miss.queueIds) {frame : List (Nat × List Nat)}
    (hframe : IdsBelow n (frameIds frame)) {a : Act} (hp : s.pop a i th q miss frame = some s₁) :
    InRange n s₁ := by
  unfold Sched.pop at hp
  split at hp <;> cases hp
  · rename_i t s₂ hr
    have ⟨hs₂, ht⟩ := hs.receive hr
    have h := idsBelow_queueIds.mp hth
    exact hs₂.setThread (idsBelow_queueIds.mpr ⟨h.1, ht, by simpa using ⟨hframe, h.2.2⟩⟩)
  all_goals exact hs.withPc hth hmiss

theorem invoke (hs : InRange n s) : InRange n (s.invoke t) := by
  unfold Sched.invoke; split <;> exact ⟨hs.size, hs.length, hs.queued, hs.held⟩

theorem createWorkers (hs : InRange n s) : InRange n s.createWorkers := by
  refine ⟨hs.size, hs.length, hs.queued, fun th' hth' => ?_⟩
  rcases List.mem_append.mp hth' with hth' | hth'
  · exact hs.held th' hth'
  · obtain ⟨k, hk, rfl⟩ := List.mem_map.mp hth'
    simpa [Thread.queueIds, ← hs.size] using List.mem_range.mp hk

theorem groupTask (hs : InRange n s) (hpos : 0 < n) (hth : IdsBelow n th.queueIds)
    (l left : Nat) : InRange n (s.groupTask i th l left) := by
  dsimp only [Sched.groupTask, Sched.nextTaskId]
  refine (hs.congr ?_ ?_ ?_).withPc hth ?_ <;> simp [wrap, hs.mod_lt hpos]

theorem afterSend (hs : InRange n s) (hpos : 0 < n) (hth : IdsBelow n th.queueIds) :
    ∀ next, InRange n (s.afterSend i th next)
  | .done => hs.withPc hth (by simp)
  | .group l left => by
    simp only [Sched.afterSend]
    split
    · exact hs.withPc hth (by simp)
    · exact hs.groupTask hpos hth l _
  | .stop b k => by
    simp only [Sched.afterSend]
    split
    · exact hs.withPc hth (by simp [sentinel, wrap, ← hs.size, *])
    · exact hs.withPc hth (by simp)

end InRange

section Steps

variable {s' : Sched} {a : Act}

/-- A step of a worker or helper for queue `id` keeps every queue index in range. -/
theorem InRange.poolStep (hs : InRange n s) (hpos : 0 < n) (hth : IdsBelow n th.queueIds)
    {id : Nat} (h : s.poolStep i th id a = some s') : InRange n s' := by
  have hpc := (idsBelow_queueIds.mp hth).2.1
  have hmod := hs.mod_lt hpos
  unfold Sched.poolStep at h
  split at h
  next => cases h; exact hs.withPc hth (by split <;> simp)
  next =>
    split at h <;> cases h
    · exact hs.withPc hth (by split <;> simp)
    · exact hs.withPc hth (by split <;> simp)
  next => exact hs.pop hth (by simp [hmod]) (by simp) h
  next =>
    split at h
    · split at h <;> cases h
      exact hs.withPc hth (by simp)
    · exact hs.pop hth (by simp [hmod]) (by simp) h
  next => exact hs.pop hth (by simp) (by simp) h
  next _ _ _ hp =>
    rw [hp, Pc.queueIds] at hpc
    split at h <;> cases h
    · exact hs.invoke.setThread (Thread.idsBelow_endWrapper hth hpc)
    · refine (hs.congr ?_ ?_ ?_).withPc hth ?_ <;> simp [hs.mod_lt hpos, hpc]
  next => split at h <;> cases h; exact hs.invoke.setThread (Thread.idsBelow_finish hth)
  next _ _ _ _ hp =>
    rw [hp, Pc.queueIds, idsBelow_cons] at hpc
    split at h <;> cases h
    · exact (hs.push ‹_› hpc.2).setThread (Thread.idsBelow_finish hth)
    · exact hs
  next _ _ _ _ hp =>
    rw [hp] at hpc
    split at h <;> cases h
    · exact hs.withPc hth hpc
    · exact hs.setThread (Thread.idsBelow_endWrapper hth (idsBelow_cons.mp hpc).2)
  next _ _ _ _ hp =>
    rw [hp] at hpc
    exact hs.pop hth (by simpa [hmod] using hpc) (by simpa using hpc) h
  next _ _ _ _ _ hp =>
    rw [hp, Pc.queueIds, idsBelow_cons] at hpc
    split at h
    · split at h <;> cases h
      exact hs.setThread (Thread.idsBelow_endWrapper hth (idsBelow_cons.mp hpc.2).2)
    · exact hs.pop hth (by simpa [hmod] using hpc.2) (by simpa using hpc.2) h
  next =>
    split at h
    · split at h <;> cases h
      · exact hs.withPc hth (by simp)
      · refine (hs.congr ?_ ?_ ?_).withPc hth ?_ <;> simp
      · exact hs.withPc hth (by simp)
    · cases h
  next => cases h

/-- A step of a user keeps every queue index in range. -/
theorem InRange.userStep (hs : InRange n s) (hpos : 0 < n) (hth : IdsBelow n th.queueIds)
    (h : s.userStep i th a = some s') : InRange n s' := by
  have hpc := (idsBelow_queueIds.mp hth).2.1
  unfold Sched.userStep at h
  split at h
  next => split at h <;> cases h; exact hs.congr rfl rfl rfl
  next =>
    split at h
    · cases h
    split at h
    next => cases h; refine (hs.congr ?_ ?_ ?_).withPc hth ?_ <;> simp
    next =>
      split at h <;> cases h
      · refine (hs.congr ?_ ?_ ?_).withPc hth ?_ <;> simp [sentinel, wrap, hpos]
      · refine (hs.congr ?_ ?_ ?_).withPc hth ?_ <;> simp
    next =>
      cases h
      refine (hs.congr ?_ ?_ ?_).withPc hth ?_ <;> simp [wrap, hs.mod_lt hpos]
    next =>
      split at h <;> cases h
      refine (hs.congr ?_ ?_ ?_).withPc hth ?_ <;> simp [wrap, addWrapper, hs.mod_lt hpos]
    next =>
      split at h <;> cases h
      · exact hs.congr rfl rfl rfl
      · refine (hs.congr ?_ ?_ ?_).groupTask hpos hth _ _ <;> rfl
    next => cases h; exact hs.congr rfl rfl rfl
    next =>
      split at h <;> cases h
      exact hs.congr rfl rfl rfl
    next => cases h; refine (hs.congr ?_ ?_ ?_).withPc hth ?_ <;> simp
    next => cases h
  next =>
    split at h <;> cases h
    exact (hs.withPc hth (by simp)).createWorkers
  next _ _ _ _ _ hp =>
    rw [hp, Pc.queueIds, idsBelow_cons] at hpc
    split at h <;> cases h
    · rename_i hpush
      refine ((hs.push hpush hpc.2).congr ?_ ?_ ?_).afterSend hpos hth _ <;> rfl
    · exact hs
  next =>
    split at h
    · cases h; refine (hs.congr ?_ ?_ ?_).withPc hth ?_ <;> simp
    · split at h <;> cases h; exact hs.withPc hth (by simp)
  next =>
    split at h <;> cases h
    refine InRange.withPc ?_ hth (by simp)
    refine ⟨hs.size, hs.length, hs.queued, fun th' hth' => ?_⟩
    rcases List.mem_append.mp hth' with hth' | hth'
    · exact hs.held th' hth'
    · rw [List.mem_singleton.mp hth']
      simpa [Thread.queueIds] using hs.mod_lt hpos _
  next => split at h <;> cases h; exact hs.withPc hth (by simp)
  next =>
    split at h <;> cases h
    · refine (hs.congr ?_ ?_ ?_).withPc hth ?_ <;> simp
    · exact hs.withPc hth (by simp)
  next =>
    split at h <;> cases h
    · refine (hs.congr ?_ ?_ ?_).withPc hth ?_ <;> simp
    · exact hs.withPc hth (by simp)
  next => cases h

theorem InRange.step (hs : InRange n s) (hpos : 0 < n) (h : s.step i a = some s') :
    InRange n s' := by
  obtain ⟨th, hth, ⟨-, hu⟩ | ⟨id, hrole, hp⟩⟩ := step_cases h
  · exact hs.userStep hpos (hs.held th (List.getElem?_mem hth)) hu
  · exact hs.poolStep hpos (hs.held th (List.getElem?_mem hth)) hp

theorem InRange.reachable (hs : InRange n s) (hpos : 0 < n) (hr : s.Reachable s') :
    InRange n s' := by
  induction hr with
  | refl => exact hs
  | tail _ hstep ih =>
    obtain ⟨i, a, h⟩ := hstep
    exact ih.step hpos h

end Steps

/-- For every number of queues `N > 0`, over every interleaving of users, workers and helpers
from the constructed scheduler, `m_tasks` keeps its `N` queues, and every queue index a thread
holds (the queue it serves, the queue its sweep or `send_task` is at, the drain loops it will
go back to) or a queued task carries (its wrappers' ids) is below `N`: no `m_tasks[id]` is out
of range. -/
theorem queue_indices_in_range {n cap users : Nat} (hpos : 0 < n) {s : Sched}
    (hr : (init n cap users).Reachable s) :
    s.n = n ∧ s.queues.length = n ∧ (∀ th ∈ s.threads, ∀ q ∈ th.queueIds, q < n) ∧
      ∀ l ∈ s.queues, ∀ t ∈ l, ∀ q ∈ t.drains, q < n :=
  have hs := (inRange_init n cap users).reachable hpos hr
  ⟨hs.size, hs.length, hs.held, hs.queued⟩

/-- The run in which a worker steals the other's sentinel keeps every index in range. -/
theorem queue_indices_in_range_stolen_sentinel :
    0 < 2 ∧ (init 2 4 1).Reachable stolenSentinelEnd ∧
      (stolenSentinelEnd.n = 2 ∧ stolenSentinelEnd.queues.length = 2 ∧
        (∀ th ∈ stolenSentinelEnd.threads, ∀ q ∈ th.queueIds, q < 2) ∧
        ∀ l ∈ stolenSentinelEnd.queues, ∀ t ∈ l, ∀ q ∈ t.drains, q < 2) :=
  have hr : (init 2 4 1).Reachable stolenSentinelEnd :=
    reachable_of_runTrace _ .refl
      (show (init 2 4 1).runTrace stolenSentinelRun = some stolenSentinelEnd by decide)
  ⟨by decide, hr, queue_indices_in_range (by decide) hr⟩

end Sched

end FunctionQueue.Scheduler
