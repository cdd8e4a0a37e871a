import FunctionQueue.Scheduler.Shutdown

/-!
Who keeps the scheduler alive, how many workers run, and the `m_other_threads` list.

`start` sets `m_continue`, then takes the `m_threads` lock and creates `m_num_threads` workers,
every time it is called; nothing checks `started()`.
A worker locks `wself` twice, in its thread lambda and in `task_runner`, and keeps both strong
references for its whole loop, waits for a task included, so dropping every external handle does not end a started scheduler. A helper of
`start_temp_task_runners` erases its own list node on scope exit, under the list's lock, while
`start_temp_task_runners` writes the node (`*it = create_thread(...)`) and detaches it after
releasing that lock: the helper can erase the node first.
-/

namespace FunctionQueue.Scheduler

/-- The thread runs the permanent worker loop: a worker between its `wself.lock()` and its
exit. -/
def Thread.inWorkerLoop (th : Thread) : Bool :=
  match th.role with
  | .worker _ => th.holdsRef
  | _ => false

namespace Sched

/-- The number of threads running the permanent worker loop. -/
def workersInLoop (s : Sched) : Nat := (s.threads.filter Thread.inWorkerLoop).length

variable {s s' : Sched} {i : Nat} {th : Thread} {a : Act}

/-- What a pool thread's step leaves alone: it rewrites its own entry only, keeping its role; it
changes neither the handles, `m_continue` nor `m_threads`; and a thread holding its reference
drops it only at a worker's loop head with `m_continue` false or at a helper's erase. -/
structure PoolFrame (s : Sched) (i : Nat) (th : Thread) (s' : Sched) : Prop where
  threads : ∃ th', s'.threads = s.threads.set i th' ∧ th'.role = th.role ∧
    (th.holdsRef = true → th'.holdsRef = false →
      (th.pc = .loopHead ∧ s.running = false) ∨
      (th.pc = .erase ∧ ∃ id sem node, th.role = .helper id sem node))
  handles : s'.handles = s.handles
  running : s'.running = s.running
  tracked : s'.tracked = s.tracked

/-- Thread `i` moves inside its loop, in a state with the same threads, handles, flag and
`m_threads`. -/
theorem PoolFrame.move {s₂ : Sched} (ht : s₂.threads = s.threads) (hh : s₂.handles = s.handles)
    (hr : s₂.running = s.running) (htr : s₂.tracked = s.tracked) {th' : Thread}
    (hrole : th'.role = th.role) (h₁ : th'.pc ≠ .spawned) (h₂ : th'.pc ≠ .exited) :
    PoolFrame s i th (s₂.setThread i th') :=
  ⟨⟨th', by simp [ht], hrole, fun hh₀ hh₁ => by
    rw [Thread.holdsRef_of_move hrole h₁ h₂ hh₀] at hh₁; cases hh₁⟩, hh, hr, htr⟩

theorem poolStep_frame {id : Nat} (hth : s.threads[i]? = some th)
    (h : s.poolStep i th id a = some s') : PoolFrame s i th s' := by
  cases poolStep_cases h with
  | move th' hs hrole _ _ hsp hexit =>
    refine ⟨⟨th', by simp [hs.threads], hrole, fun hh hh' => ?_⟩, hs.handles, hs.running,
      hs.tracked⟩
    have hx : th'.pc = .exited := by
      by_contra hne
      rw [Thread.holdsRef_of_move hrole hsp hne hh] at hh'
      cases hh'
    rcases hexit hx with hsp₀ | hloop | herase
    · simp [Thread.holdsRef_eq, hsp₀] at hh
    · exact .inl hloop
    · exact .inr herase
  | take frame hr _ =>
    obtain ⟨rest, -, rfl⟩ := receive_spec hr
    refine .move ?_ ?_ ?_ ?_ ?_ ?_ ?_ <;> simp
  | invoke ds _ _ =>
    have ⟨_, h₁, h₂⟩ := th.endWrapper_in_loop ds
    exact .move (by simp) (by simp) (by simp) (by simp) (by simp) h₁ h₂
  | resubmit q hs _ _ =>
    exact .move hs.threads hs.handles hs.running hs.tracked rfl (by simp) (by simp)
  | put _ hp =>
    obtain ⟨l, -, -, rfl⟩ := push_spec hp
    have ⟨_, h₁, h₂⟩ := th.endWrapper_in_loop []
    refine .move ?_ ?_ ?_ ?_ th.role_finish h₁ h₂ <;> rfl
  | stay =>
    exact ⟨⟨th, (set_self_of_getElem? hth).symm, rfl, fun h₁ h₂ => by simp [h₁] at h₂⟩,
      rfl, rfl, rfl⟩

/-- No user can act again (none holds a handle, each is between calls) while the scheduler
runs, and worker `k` of queue `id` holds its reference. -/
structure Abandoned (s : Sched) (k id : Nat) : Prop where
  handles : s.handles = 0
  running : s.running = true
  users : ∀ (j : Nat) (th : Thread), s.threads[j]? = some th → th.role = .user → th.pc = .idle
  worker : ∃ th, s.threads[k]? = some th ∧ th.role = .worker id ∧ th.holdsRef = true

theorem Abandoned.step {k id : Nat} (hs : Abandoned s k id) (h : s.step i a = some s') :
    Abandoned s' k id := by
  obtain ⟨th, hth, ⟨hu, h⟩ | ⟨_, hpool, h⟩⟩ := step_cases h
  · rw [userStep_idle_of_no_handle (hs.users i th hth hu) hs.handles] at h
    cases h
  have hnu : th.role ≠ .user := by rcases hpool with hr | ⟨_, _, hr⟩ <;> simp [hr]
  obtain ⟨⟨th', hthreads, hrole, hexit⟩, hh, hr, -⟩ := poolStep_frame hth h
  have hi : i < s.threads.length := (List.getElem?_eq_some_iff.mp hth).1
  refine ⟨hh ▸ hs.handles, hr ▸ hs.running, fun j th₀ hj hu => ?_, ?_⟩
  · rw [hthreads, List.getElem?_set] at hj
    split_ifs at hj with hij
    · simp only [Option.some.injEq] at hj
      subst hij hj
      exact absurd (hrole.symm.trans hu) hnu
    · exact hs.users j th₀ hj hu
  · obtain ⟨thk, hk, hkr, hkh⟩ := hs.worker
    by_cases hik : i = k
    · subst hik
      obtain rfl : th = thk := Option.some.inj (hth.symm.trans hk)
      refine ⟨th', by simp [hthreads, hi], hrole.trans hkr, ?_⟩
      by_contra hoff
      rcases hexit hkh (by simpa using hoff) with ⟨-, hr'⟩ | ⟨-, _, _, _, hw⟩
      · rw [hs.running] at hr'; cases hr'
      · rw [hkr] at hw; cases hw
    · exact ⟨thk, by rw [hthreads, List.getElem?_set, if_neg hik, hk], hkr, hkh⟩

theorem Abandoned.strong_pos {k id : Nat} (hs : Abandoned s k id) : 0 < s.strong := by
  obtain ⟨thk, hk, -, hkh⟩ := hs.worker
  have := List.length_pos_of_mem (List.mem_filter.mpr ⟨List.getElem?_mem hk, hkh⟩)
  unfold strong
  omega

/-- A permanent worker keeps its strong reference across its whole loop, waits for tasks
included, and gives it up only at its loop head with `m_continue` false, which only a user's
`stop` clears. So from a running scheduler whose users are all between calls with no handle left,
and one of whose workers holds its reference, every reachable state has that worker still
holding it and a positive strong count: the destructor never runs. -/
theorem released_scheduler_kept_alive_by_worker {k id : Nat} (hs : Abandoned s k id) :
    ∀ s', s.Reachable s' → Abandoned s' k id ∧ 0 < s'.strong := by
  intro s' hr
  induction hr with
  | refl => exact ⟨hs, hs.strong_pos⟩
  | tail _ hst ih =>
    obtain ⟨i, a, h⟩ := hst
    have := ih.1.step h
    exact ⟨this, this.strong_pos⟩

theorem joining_of_join {u : Nat} {th : Thread} {b : Bool} {p : List Nat}
    (hu : s.threads[u]? = some th) (hpc : th.pc = .join b p) : s.joining = true :=
  List.any_eq_true.mpr ⟨th, List.getElem?_mem hu, by simp [hpc]⟩

/-- A thread that stepped had not left its loop. -/
theorem exitedAt_eq_false_of_step (h : s.step i a = some s') : s.exitedAt i = false := by
  obtain ⟨th, hth, ⟨-, h⟩ | ⟨_, -, h⟩⟩ := step_cases h
  all_goals
    have hpc : th.pc ≠ .exited := fun hpc => by
      simp [userStep_exited hpc, poolStep_exited hpc] at h
    simp [exitedAt, hth, hpc]

/-- A step that rewrites only thread `i`, which had not left its loop, and appends threads keeps
every thread that had left its loop where it is. -/
theorem exitedAt_of_threads {th' : Thread} {ts : List Thread}
    (hthreads : s'.threads = s.threads.set i th' ++ ts) (hi : s.exitedAt i = false) {j : Nat}
    (hj : s.exitedAt j = true) : s'.exitedAt j = true := by
  have hlt : j < s.threads.length := by
    by_contra hge
    simp [exitedAt, List.getElem?_eq_none (Nat.le_of_not_lt hge)] at hj
  have hij : i ≠ j := by rintro rfl; rw [hi] at hj; cases hj
  have : s'.threads[j]? = s.threads[j]? := by
    rw [hthreads, List.getElem?_append_left (by simpa using hlt), List.getElem?_set_ne hij]
  simpa only [exitedAt, this] using hj

/-- What a user's step does to the threads and to `m_threads`: it rewrites its own entry and may
append unstarted threads; it enters `stop`'s join loop with `m_threads` as its list and, when
blocking, moves on in that loop only past a thread that has left its loop; and it changes
`m_threads` only by clearing it or by `start`, which waits while anybody joins. -/
structure UserFrame (s : Sched) (i : Nat) (th : Thread) (s' : Sched) : Prop where
  threads : ∃ th' ts, s'.threads = s.threads.set i th' ++ ts ∧ th'.role = th.role ∧
    (∀ t ∈ ts, t.pc = .spawned) ∧
    ∀ b p, th'.pc = .join b p →
      (∃ j, th.pc = .join b (j :: p) ∧ (b = true → s.exitedAt j = true) ∧
        s'.tracked = s.tracked) ∨ p = s'.tracked
  tracked : s'.tracked = s.tracked ∨ s'.tracked = [] ∨
    (s.joining = false ∧ ∃ l, s'.tracked = s.tracked ++ l)

theorem UserFrame.set {s₂ : Sched} (ht : s₂.threads = s.threads) (htr : s₂.tracked = s.tracked)
    {pc : Pc} (hj : ∀ b p, pc = .join b p → p = s.tracked) :
    UserFrame s i th (s₂.setThread i { th with pc := pc }) :=
  ⟨⟨{ th with pc := pc }, [], by simp [ht], rfl, by simp,
    fun b p h => .inr ((hj b p h).trans htr.symm)⟩, .inl htr⟩

theorem UserFrame.same (hth : s.threads[i]? = some th) (hpc : ∀ b p, th.pc ≠ .join b p)
    {s₂ : Sched} (ht : s₂.threads = s.threads) (htr : s₂.tracked = s.tracked) :
    UserFrame s i th s₂ :=
  ⟨⟨th, [], by simp [ht, set_self_of_getElem? hth], rfl, by simp,
    fun b p h => absurd h (hpc b p)⟩, .inl htr⟩

theorem userStep_frame (hth : s.threads[i]? = some th) (h : s.userStep i th a = some s') :
    UserFrame s i th s' := by
  have hi : i < s.threads.length := (List.getElem?_eq_some_iff.mp hth).1
  cases userStep_cases h with
  | move pc hs _ _ hjoin =>
    refine ⟨⟨{ th with pc := pc }, [], by simp [hs.threads], rfl, by simp, fun b p hp => .inl ?_⟩,
      .inl hs.tracked⟩
    obtain ⟨j, hpc, hj⟩ := hjoin b p hp
    exact ⟨j, hpc, fun hb => by simpa [hb] using hj, hs.tracked⟩
  | release hpc => exact .same hth (by simp [hpc]) rfl rfl
  | start => refine .set ?_ ?_ ?_ <;> simp
  | createWorkers _ hjoin =>
    exact ⟨⟨{ th with pc := .idle }, newWorkers s.n, rfl, rfl, by simp [newWorkers], fun _ _ h => by cases h⟩, .inr (.inr ⟨hjoin, _, rfl⟩)⟩
  | stop b pc _ _ hpc' =>
    rcases hpc' with ⟨-, rfl⟩ | ⟨-, rfl⟩ <;> refine .set ?_ ?_ ?_ <;> simp
  | addTask => refine .set ?_ ?_ ?_ <;> simp [nextTaskId]
  | latch _ hpc => exact .same hth (by simp [hpc]) rfl rfl
  | group => refine .set ?_ ?_ ?_ <;> simp
  | schedule => refine .set ?_ ?_ ?_ <;> simp [nextTaskId, addWrapper]
  | notify l hpc => exact .same hth (by simp [hpc]) rfl rfl
  | tempRunners => refine .set ?_ ?_ ?_ <;> simp
  | @send t q next s₁ hpc hp =>
    obtain ⟨l, -, -, rfl⟩ := push_spec hp
    cases next with
    | done => refine .set ?_ ?_ ?_ <;> simp
    | group l left =>
      dsimp only [afterSend]
      split <;> refine .set ?_ ?_ ?_ <;> simp
    | stop b k =>
      dsimp only [afterSend]
      split <;> refine .set ?_ ?_ ?_ <;> simp
  | wait hpc => exact .same hth (by simp [hpc]) rfl rfl
  | joined b hpc =>
    exact ⟨⟨{ th with pc := .idle }, [], by simp, rfl, by simp, fun _ _ h => by cases h⟩,
      .inr (.inl rfl)⟩
  | spawn sem k n e hpc =>
    exact ⟨⟨{ th with pc := .assign sem k n s.nodes s.threads.length },
      [Thread.mk (.helper (e % s.n) sem s.nodes) .spawned []],
      by simp [List.set_append_left _ _ hi], rfl, by simp, fun _ _ h => by cases h⟩, .inl rfl⟩

/-- Where a thread comes from after a step that rewrote thread `i` and appended `ts`. -/
theorem getElem?_of_threads {th' thu : Thread} {ts : List Thread} {u : Nat}
    (hthreads : s'.threads = s.threads.set i th' ++ ts) (hi : i < s.threads.length)
    (hu : s'.threads[u]? = some thu) :
    (u = i ∧ thu = th') ∨ (u ≠ i ∧ s.threads[u]? = some thu) ∨ thu ∈ ts := by
  rw [hthreads] at hu
  by_cases hlt : u < s.threads.length
  · rw [List.getElem?_append_left (by simpa using hlt), List.getElem?_set] at hu
    split_ifs at hu with hiu
    · exact .inl ⟨hiu.symm, (Option.some.inj hu).symm⟩
    · exact .inr (.inl ⟨Ne.symm hiu, hu⟩)
  · rw [List.getElem?_append_right (by simpa using Nat.le_of_not_lt hlt)] at hu
    exact .inr (.inr (List.getElem?_mem hu))

/-- Every user inside `stop(true)`'s join loop has seen each thread of `m_threads` that it no
longer waits for leave its loop. -/
def JoinsSeen (s : Sched) : Prop :=
  ∀ (u : Nat) (th : Thread) (pending : List Nat), s.threads[u]? = some th → th.role = .user →
    th.pc = .join true pending → ∀ j ∈ s.tracked, j ∉ pending → s.exitedAt j = true

theorem joinsSeen_init (n cap users : Nat) : JoinsSeen (init n cap users) :=
  fun _ _ _ _ _ _ _ hj => by simp [init] at hj

theorem JoinsSeen.step (hj : JoinsSeen s) (h : s.step i a = some s') : JoinsSeen s' := by
  have hi := exitedAt_eq_false_of_step h
  intro u thu p hu hur hup k hk hkp
  obtain ⟨th, hth, hstep⟩ := step_cases h
  have hlt : i < s.threads.length := (List.getElem?_eq_some_iff.mp hth).1
  -- a thread other than `i` that joins was joining before, with `m_threads` unchanged or cleared
  have hother : ∀ {th' : Thread} {ts : List Thread}, s'.threads = s.threads.set i th' ++ ts →
      (∀ t ∈ ts, t.pc = .spawned) →
      (s'.tracked = s.tracked ∨ s'.tracked = [] ∨
        (s.joining = false ∧ ∃ l, s'.tracked = s.tracked ++ l)) →
      u ≠ i ∨ thu ∈ ts → s.threads[u]? = some thu → s'.exitedAt k = true := by
    intro th' ts hthreads _ htr _ hu'
    rcases htr with htr | htr | ⟨hjn, -⟩
    · rw [htr] at hk
      exact exitedAt_of_threads hthreads hi (hj u thu p hu' hur hup k hk hkp)
    · rw [htr] at hk; cases hk
    · rw [joining_of_join hu' hup] at hjn; cases hjn
  have hspawned : ∀ {ts : List Thread}, (∀ t ∈ ts, t.pc = .spawned) → thu ∉ ts :=
    fun hts hm => by rw [hts thu hm] at hup; cases hup
  rcases hstep with ⟨hrole, h⟩ | ⟨_, hpool, h⟩
  · obtain ⟨⟨th', ts, hthreads, hrole', hts, hjoin⟩, htr⟩ := userStep_frame hth h
    rcases getElem?_of_threads hthreads hlt hu with ⟨rfl, rfl⟩ | ⟨hne, hu'⟩ | hm
    · rcases hjoin true p hup with ⟨j, hpc, hex, htr'⟩ | rfl
      · rw [htr'] at hk
        by_cases hkj : k = j
        · exact exitedAt_of_threads hthreads hi (hkj ▸ hex rfl)
        · exact exitedAt_of_threads hthreads hi
            (hj u th (j :: p) hth hrole hpc k hk (by simp [hkj, hkp]))
      · exact absurd hk hkp
    · exact hother hthreads hts htr (.inl hne) hu'
    · exact absurd hm (hspawned hts)
  · obtain ⟨⟨th', hthreads, hrole', -⟩, -, -, htr⟩ := poolStep_frame hth h
    have hthreads' : s'.threads = s.threads.set i th' ++ [] := by simpa using hthreads
    rcases getElem?_of_threads hthreads' hlt hu with ⟨rfl, rfl⟩ | ⟨hne, hu'⟩ | hm
    · rcases hpool with hr | ⟨_, _, hr⟩ <;> rw [hrole', hr] at hur <;> cases hur
    · exact hother hthreads' (by simp) (.inl htr) (.inl hne) hu'
    · cases hm

theorem joinsSeen_of_reachable {n cap users : Nat} (hs : (init n cap users).Reachable s) :
    JoinsSeen s := by
  induction hs with
  | refl => exact joinsSeen_init n cap users
  | tail _ hst ih =>
    obtain ⟨i, a, h⟩ := hst
    exact JoinsSeen.step ih h

end Sched

open Sched

namespace Sched

variable {s : Sched}

/-- `start()` called `k` times by user 0. -/
def startCalls : Nat → List (Nat × Act)
  | 0 => []
  | k + 1 => (0, .start) :: (0, .tick) :: startCalls k

/-- `start()` called `k` times on a scheduler of `n` queues, then the first step of each of the
`k * n` workers the calls created. -/
def repeatedStartRun (n k : Nat) : List (Nat × Act) :=
  startCalls k ++ (List.range (k * n)).map fun j => (j + 1, .tick)

theorem joining_setThread (hj : s.joining = false) {i : Nat} {th : Thread}
    (hpc : ∀ b p, th.pc ≠ .join b p) : (s.setThread i th).joining = false := by
  simp only [joining, setThread, List.any_eq_false] at hj ⊢
  intro x hx
  rcases List.mem_or_eq_of_mem_set hx with hx | rfl
  · exact hj x hx
  · split <;> simp_all

theorem joining_append_newWorkers (hj : s.joining = false) {s' : Sched}
    (ht : s'.threads = s.threads ++ newWorkers s.n) : s'.joining = false := by
  simp only [joining, ht, List.any_append, Bool.or_eq_false_iff] at hj ⊢
  exact ⟨hj, by simp [newWorkers]⟩

/-- One `start()` by user 0, idle with a handle while no `stop` joins, sets `m_continue` and
appends `m_num_threads` new workers. -/
theorem runTrace_start (h0 : s.threads[0]? = some ⟨.user, .idle, []⟩) (hh : s.handles ≠ 0)
    (hj : s.joining = false) :
    ∃ s', s.runTrace [(0, .start), (0, .tick)] = some s' ∧
      s'.threads = s.threads ++ newWorkers s.n ∧ s'.n = s.n ∧ s'.handles = s.handles ∧
      s'.running = true := by
  set s₁ : Sched := { s with running := true }.setThread 0 ⟨.user, .starting, []⟩
  have hlt : 0 < s.threads.length := (List.getElem?_eq_some_iff.mp h0).1
  have h₁ : s.step 0 .start = some s₁ := by
    rw [step, h0]
    exact if_neg hh
  have h₀ : s₁.threads[0]? = some ⟨.user, .starting, []⟩ := by simp [s₁, hlt]
  have hj₁ : s₁.joining = false := joining_setThread hj (by simp)
  have h₂ : s₁.step 0 .tick = some (s₁.setThread 0 ⟨.user, .idle, []⟩).createWorkers := by
    rw [step, h₀]
    exact if_neg (by simp [hj₁])
  refine ⟨(s₁.setThread 0 ⟨.user, .idle, []⟩).createWorkers, by simp [runTrace, h₁, h₂], ?_,
    rfl, rfl, rfl⟩
  simp [createWorkers, s₁, setThread, set_self_of_getElem? h0]

theorem length_workerRounds (k n : Nat) :
    (List.replicate k (newWorkers n)).flatten.length = k * n := by
  induction k with
  | zero => simp
  | succ k ih =>
    rw [List.replicate_succ, List.flatten_cons, List.length_append, ih]
    simp [newWorkers, Nat.succ_mul, Nat.add_comm]

theorem mem_workerRounds {k n : Nat} {w : Thread}
    (hw : w ∈ (List.replicate k (newWorkers n)).flatten) : ∃ j, w = ⟨.worker j, .spawned, []⟩ := by
  obtain ⟨l, hl, hw⟩ := List.mem_flatten.mp hw
  rw [List.eq_of_mem_replicate hl, newWorkers] at hw
  obtain ⟨j, -, rfl⟩ := List.mem_map.mp hw
  exact ⟨j, rfl⟩

/-- `k` calls of `start()` by user 0, idle with a handle while no `stop` joins, append `k`
rounds of `m_num_threads` new workers. -/
theorem runTrace_startCalls (k : Nat) (h0 : s.threads[0]? = some ⟨.user, .idle, []⟩)
    (hh : s.handles ≠ 0) (hj : s.joining = false) :
    ∃ s', s.runTrace (startCalls k) = some s' ∧
      s'.threads = s.threads ++ (List.replicate k (newWorkers s.n)).flatten ∧
      s'.handles = s.handles ∧ (s.running = true ∨ 0 < k → s'.running = true) := by
  induction k generalizing s with
  | zero => exact ⟨s, rfl, by simp, rfl, fun h => h.resolve_right (Nat.lt_irrefl 0)⟩
  | succ k ih =>
    obtain ⟨s₁, h₁, ht₁, hn₁, hh₁, hr₁⟩ := runTrace_start h0 hh hj
    obtain ⟨s', h', ht', hh', hr'⟩ := ih (by rw [ht₁]; exact getElem?_append_of_some h0)
      (hh₁ ▸ hh) (joining_append_newWorkers hj ht₁)
    refine ⟨s', ?_, ?_, hh'.trans hh₁, fun _ => hr' (.inl hr₁)⟩
    · show s.runTrace ([(0, .start), (0, .tick)] ++ startCalls k) = some s'
      rw [runTrace_append, h₁]
      exact h'
    · rw [ht', ht₁, hn₁, List.replicate_succ, List.flatten_cons, List.append_assoc]

/-- The first step of each new worker, in order, while a handle is held: each locks its
reference and reaches its loop head. -/
theorem runTrace_first_ticks {pre ws : List Thread} (ht : s.threads = pre ++ ws)
    (hw : ∀ w ∈ ws, ∃ k, w = ⟨.worker k, .spawned, []⟩) (hh : 0 < s.handles) :
    ∃ s', s.runTrace ((List.range ws.length).map fun j => (j + pre.length, .tick)) = some s' ∧
      s'.threads = pre ++ ws.map (fun w => { w with pc := .loopHead }) ∧
      s'.running = s.running := by
  induction ws generalizing s pre with
  | nil => exact ⟨s, rfl, by simpa using ht, rfl⟩
  | cons w ws ih =>
    obtain ⟨k, rfl⟩ := hw _ (List.mem_cons_self _ ws)
    have hpos : 0 < s.strong := by unfold strong; omega
    have hi : s.threads[pre.length]? = some ⟨.worker k, .spawned, []⟩ := by
      rw [ht, List.getElem?_append_right le_rfl, Nat.sub_self, List.getElem?_cons_zero]
    have h₁ : s.step pre.length .tick =
        some (s.setThread pre.length ⟨.worker k, .loopHead, []⟩) := by
      rw [step, hi]
      show some (s.setThread _ _) = _
      rw [if_pos hpos]
    have ht₁ : (s.setThread pre.length ⟨.worker k, .loopHead, []⟩).threads =
        (pre ++ [⟨.worker k, .loopHead, []⟩]) ++ ws := by
      simp [ht, List.set_append_right]
    obtain ⟨s', h', ht', hr'⟩ := ih ht₁ (fun w hw' => hw w (List.mem_cons_of_mem _ hw')) hh
    refine ⟨s', ?_, by simpa using ht', hr'⟩
    rw [List.length_cons, List.range_succ_eq_map, List.map_cons, List.map_map, runTrace,
      Nat.zero_add, h₁, Option.some_bind, ← h']
    congr 1
    refine List.map_congr_left fun j _ => ?_
    simp only [Function.comp, List.length_append, List.length_singleton]
    congr 1
    omega

/-- Each call of `start()` creates `m_num_threads` workers, each of which enters the worker loop
at its first step while a handle is held: `k` calls without a `stop` run `k * N` worker loops. -/
theorem repeated_starts_run_workers (n cap k : Nat) (hk : 0 < k) :
    ((init n cap 1).runTrace (repeatedStartRun n k)).map (fun s => (s.workersInLoop, s.running)) =
      some (k * n, true) := by
  obtain ⟨s₁, h₁, ht₁, hh₁, hr₁⟩ :=
    runTrace_startCalls (s := init n cap 1) k rfl Nat.one_ne_zero (by simp [joining, init])
  obtain ⟨s', h', ht', hr'⟩ :=
    runTrace_first_ticks ht₁ (fun w hw => mem_workerRounds hw) (hh₁ ▸ Nat.one_pos)
  have hloop : ∀ w ∈ (List.replicate k (newWorkers n)).flatten,
      Thread.inWorkerLoop { w with pc := .loopHead } = true := fun w hw => by
    obtain ⟨j, rfl⟩ := mem_workerRounds hw
    rfl
  have hn : (init n cap 1).n = n := rfl
  have hu₀ : (init n cap 1).threads = [⟨.user, .idle, []⟩] := rfl
  simp only [hn, hu₀, length_workerRounds, List.length_singleton] at h' ht'
  rw [repeatedStartRun, runTrace_append, h₁, Option.some_bind, h', Option.map_some']
  simp only [workersInLoop, ht', hr', hr₁ (.inr hk), List.filter_append, List.filter_cons,
    List.filter_nil, List.filter_map]
  have hf : List.filter (Thread.inWorkerLoop ∘ fun w : Thread => { w with pc := .loopHead })
      (List.replicate k (newWorkers n)).flatten = (List.replicate k (newWorkers n)).flatten :=
    List.filter_eq_self.mpr fun w hw => hloop w hw
  have hu : Thread.inWorkerLoop ⟨.user, .idle, []⟩ = false := rfl
  simp only [hf, hu, Bool.false_eq_true, if_false, List.nil_append, List.length_map,
    length_workerRounds]

/-- `start()` and `stop(true)` on a scheduler of `N` queues. `stop(true)` returns only after
every thread of `m_threads` has left its loop: in every reachable state, a user inside
`stop(true)`'s join loop has seen each thread of `m_threads` that it no longer waits for leave its
loop, so at the step that returns, with nothing left to wait for, every thread that `start`
created since the last `stop` has left its loop. And each `start()` creates `N` workers, each of
which enters the worker loop at its first step while a handle is held: `k` calls without a `stop`
run `k * N` worker loops. -/
theorem start_stop_worker_loops {n cap users : Nat} (hs : (init n cap users).Reachable s) :
    (∀ (u : Nat) (th : Thread) (pending : List Nat), s.threads[u]? = some th →
      th.role = .user → th.pc = .join true pending →
      ∀ j ∈ s.tracked, j ∉ pending → s.exitedAt j = true) ∧
    ∀ k, 0 < k → ((init n cap 1).runTrace (repeatedStartRun n k)).map
      (fun s => (s.workersInLoop, s.running)) = some (k * n, true) :=
  ⟨joinsSeen_of_reachable hs, repeated_starts_run_workers n cap⟩

end Sched

/-- `start()` does not check whether the scheduler is already started: two calls on a scheduler
of two queues run four worker loops. -/
theorem repeated_start_doubles_workers :
    ((init 2 4 1).runTrace (repeatedStartRun 2 2)).map
      (fun s => (s.n, s.workersInLoop, s.running)) = some (2, 4, true) := by
  decide

/-- `start()` and `stop(true)` on one queue: the worker finds `m_continue` false at its first
check and leaves, and the user's join loop moves past it. -/
def stopJoinedRun : List (Nat × Act) :=
  [(0, .start), (0, .tick), (0, .stop true), (0, .tick), (1, .tick), (1, .tick), (0, .tick)]

/-- Where that run ends: the user is about to return from `stop(true)`. -/
def stopJoinedEnd : Sched where
  n := 1
  cap := 4
  queues := [[⟨0, .plain, none, [0]⟩]]
  running := false
  taskCount := 0
  latches := []
  threads := [⟨.user, .join true [], []⟩, ⟨.worker 0, .exited, []⟩]
  tracked := [1]
  others := []
  nodes := 0
  handles := 1
  accepted := 1
  invoked := []

/-- The user returning from `stop(true)` has seen the worker leave its loop; and on that one
queue, two calls of `start()` run two worker loops. -/
theorem start_stop_worker_loops_at_return :
    (init 1 4 1).runTrace stopJoinedRun = some stopJoinedEnd ∧ stopJoinedEnd.exitedAt 1 = true ∧
    ((init 1 4 1).runTrace (repeatedStartRun 1 2)).map (fun s => (s.workersInLoop, s.running)) =
      some (2, true) :=
  have hr : (init 1 4 1).runTrace stopJoinedRun = some stopJoinedEnd := by decide
  have h := start_stop_worker_loops (reachable_of_runTrace _ .refl hr)
  ⟨hr, h.1 0 _ [] rfl rfl rfl 1 (by decide) (by decide), h.2 2 (by decide)⟩

/-- `start()` on one queue, the worker settles in `wait_for_task_from_pool`'s wait on its empty
queue, and the only user drops its handle. -/
def releasedWhileWaitingRun : List (Nat × Act) :=
  [(0, .start), (0, .tick), (1, .tick), (1, .tick), (1, .tick), (1, .tick), (0, .release)]

/-- Where that run ends: no handle is left, and the worker still holds its reference. -/
def releasedWhileWaitingEnd : Sched where
  n := 1
  cap := 4
  queues := [[]]
  running := true
  taskCount := 0
  latches := []
  threads := [⟨.user, .idle, []⟩, ⟨.worker 0, .waitLoop, []⟩]
  tracked := [1]
  others := []
  nodes := 0
  handles := 0
  accepted := 0
  invoked := []

/-- A worker blocked waiting for a task holds its two strong references: once the last external
handle is gone the strong count is two, in that state and in every later one, so the destructor
(and its `stop`) never runs. -/
theorem waiting_worker_keeps_scheduler_alive :
    (init 1 4 1).runTrace releasedWhileWaitingRun = some releasedWhileWaitingEnd ∧
    releasedWhileWaitingEnd.handles = 0 ∧
    ∀ s', releasedWhileWaitingEnd.Reachable s' → s'.strong = 2 := by
  have hp : releasedWhileWaitingEnd.threads.all releasedWhileWaitingEnd.parked = true := by
    decide
  refine ⟨by decide, rfl, fun s' hr => ?_⟩
  rw [reachable_eq_self_of_parked hp hr]
  rfl

theorem released_scheduler_kept_alive_after_waiting_run :
    Abandoned releasedWhileWaitingEnd 1 0 ∧
      ∀ s', releasedWhileWaitingEnd.Reachable s' → Abandoned s' 1 0 ∧ 0 < s'.strong :=
  have hs : Abandoned releasedWhileWaitingEnd 1 0 :=
    ⟨rfl, rfl, (fun j th hj hu => by
      match j, hj with
      | 0, hj => cases hj; rfl
      | 1, hj => cases hj; cases hu
      | _ + 2, hj => cases hj), ⟨_, rfl, rfl, rfl⟩⟩
  ⟨hs, released_scheduler_kept_alive_by_worker hs⟩

/-- `start_temp_task_runners(1)` on a scheduler that is not started: the helper is created, locks
its handle, finds `m_continue` false, and erases its list node, all before the caller's
`*it = create_thread(...)`. -/
def eraseBeforeAssignRun : List (Nat × Act) :=
  [(0, .tempRunners 1), (0, .epoch 0), (1, .tick), (1, .tick), (1, .tick)]

/-- The same, with the caller's assignment between the helper's creation and its erase. -/
def eraseBeforeDetachRun : List (Nat × Act) :=
  [(0, .tempRunners 1), (0, .epoch 0), (0, .tick), (1, .tick), (1, .tick), (1, .tick)]

/-- The `m_other_threads` protocol is not safe. In the first run the helper has erased node 0
while its creator is about to assign it, and the assignment is a use of the erased node. In the
second the helper erases node 0 while it holds the helper's joinable, not yet detached
`std::thread`, which `std::terminate`s. -/
theorem temp_runner_node_erased_before_use :
    ((init 1 4 1).runTrace eraseBeforeAssignRun).map (fun s => (s.threads.map (·.pc), s.others)) =
      some ([.assign 0 1 0 0 1, .exited], []) ∧
    ((init 1 4 1).runTrace (eraseBeforeAssignRun ++ [(0, .tick)])).map
      (fun s => (s.threads.map (·.pc))) = some [.fault, .exited] ∧
    ((init 1 4 1).runTrace (eraseBeforeDetachRun.take 5)).map
      (fun s => (s.threads.map (·.pc), s.others)) =
      some ([.detach 0 1 0 0, .erase], [(0, .joinable 1)]) ∧
    ((init 1 4 1).runTrace eraseBeforeDetachRun).map (fun s => (s.threads.map (·.pc))) =
      some [.detach 0 1 0 0, .fault] := by
  decide

end FunctionQueue.Scheduler
