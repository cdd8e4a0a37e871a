import FunctionQueue.Buffer.Ring
import FunctionQueue.Scheduler.Moves

/-!
The queue indices the scheduler computes, in `size_t` arithmetic: `get_task_id`'s
`m_task_count++ % m_num_threads`, the `current_epoch % size()` of `start_temp_task_runners`, and
the steal sweep of `wait_for_task_from_pool` and `run_next_task`,
`for (m = (id + 1) % m_num_threads; m != id; m = (m + 1) % m_num_threads)`. A `%` by zero is
undefined behaviour, so `modSize` returns `none` there. The constructors do not keep
`num_threads` above zero, and its default, `std::thread::hardware_concurrency()`, may be 0.

`sweepOrder` and `scan` say what a sweep is for: try each other queue once, from `id + 1` on,
and stop at the first that gives a task. `stealSweep_eq_scan` shows that the loop does this for
every `id < N`, within `N` tests of `m != id`. The `Sched` model keeps `m_task_count` as a
`size_t` and takes its indices with the `%` of `Nat`, which agrees with the `%` of `size_t`
whenever `N > 0` (`modSize_ofNat`): its `nextTaskId` is `getTaskId` (`getTaskId_eq_nextTaskId`).
-/

namespace FunctionQueue.Scheduler

open FunctionQueue.Buffer (mod_of_lt_add add_mod_inj)

/-- `a % b` on `size_t`: undefined behaviour when `b` is zero. -/
def modSize (a b : UInt64) : Option UInt64 := if b = 0 then none else some (a % b)

/-- `get_task_id()`: `auto const tc = m_task_count++; return tc % m_num_threads;`. The index,
`none` for a modulo by zero, and the counter after the increment, which wraps at 2^64. -/
def getTaskId (numThreads taskCount : UInt64) : Option UInt64 × UInt64 :=
  (modSize taskCount numThreads, taskCount + 1)

/-- The queue a helper of `start_temp_task_runners` serves: `current_epoch % size()`, where
`size()` is `m_tasks.size()`, which the constructor makes `num_threads`. -/
def startTempTaskRunnersId (numThreads epoch : UInt64) : Option UInt64 :=
  modSize epoch numThreads

/-- How a steal sweep ends: `m_tasks[m].receive(tsk)` gave a task; back at `id`, every queue it
tried having been empty; at a modulo by zero; or still looping when the fuel ran out. -/
inductive SweepEnd
  | hit (m : UInt64)
  | miss
  | undefined
  | looping
  deriving DecidableEq, Repr

/-- The sweep loop from queue `m`: while `m != id`, return if `m_tasks[m].receive(tsk)` gives a
task, else go on with `m = (m + 1) % m_num_threads`. `hit m` says whether `receive` on queue `m`
gives a task; a sweep that tries each queue at most once sees every run of the queues this way.
The result is the queues it calls `receive` on, in order, and how it ends; `fuel` bounds the
tests of `m != id`. -/
def sweepFrom (n id : UInt64) (hit : UInt64 → Bool) : Nat → UInt64 → List UInt64 × SweepEnd
  | 0, _ => ([], .looping)
  | fuel + 1, m =>
    if m = id then ([], .miss)
    else if hit m then ([m], .hit m)
    else
      match modSize (m + 1) n with
      | none => ([m], .undefined)
      | some m' => let r := sweepFrom n id hit fuel m'; (m :: r.1, r.2)

/-- The steal sweep: `for (auto m = (id + 1) % m_num_threads; m != id;
m = (m + 1) % m_num_threads) if (m_tasks[m].receive(tsk)) ...`. -/
def stealSweep (n id : UInt64) (hit : UInt64 → Bool) (fuel : Nat) : List UInt64 × SweepEnd :=
  match modSize (id + 1) n with
  | none => ([], .undefined)
  | some m => sweepFrom n id hit fuel m

/-- The sweep of `wait_for_task_from_pool(id)`, once its own queue missed. -/
def waitForTaskFromPoolSweep (n id : UInt64) (hit : UInt64 → Bool) (fuel : Nat) :
    List UInt64 × SweepEnd :=
  stealSweep n id hit fuel

/-- The sweep of `run_next_task(id)`, once its own queue missed. -/
def runNextTaskSweep (n id : UInt64) (hit : UInt64 → Bool) (fuel : Nat) :
    List UInt64 × SweepEnd :=
  stealSweep n id hit fuel

/-- The `k`-th queue a sweep from `id` is to try: `id + 1 + k`, modulo `N`. -/
def sweepAt (n id : UInt64) (k : Nat) : UInt64 := UInt64.ofNat ((id.toNat + 1 + k) % n.toNat)

/-- The queues a sweep from `id` is to try, in order: `id + 1, …, id + N - 1`, modulo `N`. -/
def sweepOrder (n id : UInt64) : List UInt64 := (List.range (n.toNat - 1)).map (sweepAt n id)

/-- Trying the queues `ms` in order, and stopping at the first that gives a task. -/
def scan (hit : UInt64 → Bool) : List UInt64 → List UInt64 × SweepEnd
  | [] => ([], .miss)
  | m :: ms => if hit m then ([m], .hit m) else let r := scan hit ms; (m :: r.1, r.2)

/-! ### `size_t` values as natural numbers -/

theorem uint64_eq_iff_toNat {a b : UInt64} : a = b ↔ a.toNat = b.toNat :=
  ⟨congrArg _, fun h => UInt64.eq_of_val_eq (Fin.ext h)⟩

theorem toNat_uint64_ofNat (x : Nat) : (UInt64.ofNat x).toNat = x % UInt64.size := rfl

theorem toNat_add_one (a : UInt64) : (a + 1).toNat = (a.toNat + 1) % UInt64.size := rfl

theorem ofNat_add_one (x : Nat) : UInt64.ofNat (x + 1) = UInt64.ofNat x + 1 := by
  rw [uint64_eq_iff_toNat, toNat_add_one, toNat_uint64_ofNat, toNat_uint64_ofNat, Nat.mod_add_mod]

theorem uint64_ne_zero_iff {a : UInt64} : a ≠ 0 ↔ 0 < a.toNat := by
  rw [Ne, uint64_eq_iff_toNat]
  exact Nat.pos_iff_ne_zero.symm

/-! ### `%` on `size_t` -/

@[simp] theorem modSize_zero (a : UInt64) : modSize a 0 = none := rfl

theorem modSize_of_ne_zero {b : UInt64} (hb : b ≠ 0) (a : UInt64) : modSize a b = some (a % b) :=
  if_neg hb

/-- A `%` by a divisor other than zero is defined and below the divisor. -/
theorem modSize_lt {a b : UInt64} (hb : b ≠ 0) : ∃ r, modSize a b = some r ∧ r < b :=
  ⟨a % b, modSize_of_ne_zero hb a, UInt64.mod_lt a (uint64_ne_zero_iff.mp hb)⟩

/-- `scan` tries the queues up to the first that gives a task, and ends there or with a miss. -/
theorem scan_eq (hit : UInt64 → Bool) (ms : List UInt64) :
    scan hit ms = (ms.takeWhile (!hit ·) ++ (ms.find? hit).toList,
      ((ms.find? hit).map .hit).getD .miss) := by
  induction ms with
  | nil => rfl
  | cons m ms ih => cases hm : hit m <;> simp [scan, hm, ih]

section Sweep

variable {n id : UInt64} (hid : id < n)
include hid

theorem toNat_sweepAt (k : Nat) : (sweepAt n id k).toNat = (id.toNat + 1 + k) % n.toNat :=
  Nat.mod_eq_of_lt (lt_trans (Nat.mod_lt _ (Nat.zero_lt_of_lt hid)) n.toNat_lt_size)

/-- The sweep's index comes back to `id` after `N - 1` queues, and not before. -/
theorem sweepAt_eq_self_iff {k : Nat} (hk : k < n.toNat) :
    sweepAt n id k = id ↔ k = n.toNat - 1 := by
  have hI : id.toNat < n.toNat := hid
  rw [uint64_eq_iff_toNat, toNat_sweepAt hid, mod_of_lt_add (by omega)]
  split <;> omega

theorem modSize_of_gt (a : UInt64) : modSize a n = some (a % n) :=
  modSize_of_ne_zero (uint64_ne_zero_iff.mpr (Nat.zero_lt_of_lt hid)) a

/-- `(id + 1) % m_num_threads` is the first queue of the order. -/
theorem modSize_start : modSize (id + 1) n = some (sweepAt n id 0) := by
  have hI : id.toNat < n.toNat := hid
  have h64 := n.toNat_lt_size
  rw [modSize_of_gt hid, Option.some.injEq, uint64_eq_iff_toNat, UInt64.toNat_mod,
    toNat_add_one, toNat_sweepAt hid, Nat.mod_eq_of_lt (show id.toNat + 1 < UInt64.size by omega)]

/-- `(m + 1) % m_num_threads` is the next queue of the order. -/
theorem modSize_next (k : Nat) :
    modSize (sweepAt n id k + 1) n = some (sweepAt n id (k + 1)) := by
  have hI : id.toNat < n.toNat := hid
  have h64 := n.toNat_lt_size
  have hx := Nat.mod_lt (id.toNat + 1 + k) (show 0 < n.toNat by omega)
  rw [modSize_of_gt hid, Option.some.injEq, uint64_eq_iff_toNat, UInt64.toNat_mod,
    toNat_add_one, toNat_sweepAt hid, toNat_sweepAt hid,
    Nat.mod_eq_of_lt (a := (id.toNat + 1 + k) % n.toNat + 1) (by omega), Nat.mod_add_mod]
  rfl

/-- From the `k`-th queue of the order, with enough fuel, the loop tries the rest of the order
in turn and stops at the first that gives a task. -/
theorem sweepFrom_eq_scan (hit : UInt64 → Bool) :
    ∀ r k fuel, k + r + 1 = n.toNat → r < fuel →
      sweepFrom n id hit fuel (sweepAt n id k) = scan hit ((List.range' k r).map (sweepAt n id))
  | 0, k, fuel + 1, hk, _ => by
    have hself : sweepAt n id k = id := (sweepAt_eq_self_iff hid (k := k) (by omega)).mpr (by omega)
    simp [sweepFrom, hself, scan]
  | r + 1, k, fuel + 1, hk, hf => by
    have hne : sweepAt n id k ≠ id := fun h => by
      have := (sweepAt_eq_self_iff hid (by omega)).mp h
      omega
    simp only [sweepFrom, if_neg hne, modSize_next hid k,
      sweepFrom_eq_scan hit r (k + 1) fuel (by omega) (by omega), List.range', List.map_cons,
      scan]

/-- With `id < N` and fuel for `N` tests of `m != id`, the steal sweep is `scan` over
`sweepOrder`: it tries the other queues in the order `id + 1, …, id + N - 1` modulo `N`, stops
at the first that gives a task, and otherwise ends back at `id`. -/
theorem stealSweep_eq_scan (hit : UInt64 → Bool) {fuel : Nat} (hf : n.toNat ≤ fuel) :
    stealSweep n id hit fuel = scan hit (sweepOrder n id) := by
  have hI : id.toNat < n.toNat := hid
  rw [stealSweep, modSize_start hid, sweepOrder, List.range_eq_range']
  exact sweepFrom_eq_scan hid hit _ 0 fuel (by omega) (by omega)

/-- The order lists each queue other than `id` exactly once. -/
theorem mem_sweepOrder (m : UInt64) : m ∈ sweepOrder n id ↔ m < n ∧ m ≠ id := by
  have hI : id.toNat < n.toNat := hid
  simp only [sweepOrder, List.mem_map, List.mem_range]
  constructor
  · rintro ⟨k, hk, rfl⟩
    refine ⟨?_, fun h => by have := (sweepAt_eq_self_iff hid (by omega)).mp h; omega⟩
    show (sweepAt n id k).toNat < n.toNat
    rw [toNat_sweepAt hid]
    exact Nat.mod_lt _ (by omega)
  · rintro ⟨hm, hne⟩
    have hm' : m.toNat < n.toNat := hm
    have hne' : m.toNat ≠ id.toNat := fun h => hne (uint64_eq_iff_toNat.mpr h)
    refine ⟨if id.toNat < m.toNat then m.toNat - id.toNat - 1
      else n.toNat - id.toNat - 1 + m.toNat, by split <;> omega, ?_⟩
    rw [uint64_eq_iff_toNat, toNat_sweepAt hid, mod_of_lt_add (by split <;> omega)]
    split <;> split <;> omega

theorem nodup_sweepOrder : (sweepOrder n id).Nodup := by
  have hI : id.toNat < n.toNat := hid
  rw [sweepOrder, List.Nodup, List.pairwise_map]
  refine (List.nodup_range _).imp_of_mem fun {k j} hk hj hne h => hne ?_
  simp only [List.mem_range] at hk hj
  rw [uint64_eq_iff_toNat, toNat_sweepAt hid, toNat_sweepAt hid, Nat.add_assoc, Nat.add_assoc,
    add_mod_inj hI (by omega) (by omega)] at h
  omega

end Sweep

/-- Without a queue, the sweep's first index is already a modulo by zero. -/
theorem stealSweep_zero (id : UInt64) (hit : UInt64 → Bool) (fuel : Nat) :
    stealSweep 0 id hit fuel = ([], .undefined) := rfl

/-- With at least one queue, `get_task_id` and `start_temp_task_runners` compute an index below
`m_tasks.size()` for every counter and every epoch. -/
theorem indices_lt {n : UInt64} (hn : n ≠ 0) (tc e : UInt64) :
    (∃ q, (getTaskId n tc).1 = some q ∧ q < n) ∧
      ∃ q, startTempTaskRunnersId n e = some q ∧ q < n :=
  ⟨modSize_lt hn, modSize_lt hn⟩

/-! ### The indices of the `Sched` model -/

/-- A scheduler constructed with zero threads, as `task_scheduler()` is where
`hardware_concurrency()` returns 0, accepts `add_task` and `start_temp_task_runners`, and both
reach a `%` by `m_num_threads = 0` for every counter and epoch, as does every steal sweep. For every
`N > 0` the indices are defined and below `N`, and for every `id < N` each sweep is `scan` over
`sweepOrder` within `N` tests: it tries the other queues once each, from `id + 1` on, and stops at
the first that gives a task. -/
theorem queue_index_modulo_by_zero_without_threads :
    ((Sched.init 0 4 1).runTrace [(0, .addTask none)]).isSome = true ∧
    ((Sched.init 0 4 1).runTrace [(0, .tempRunners 1), (0, .epoch 0)]).isSome = true ∧
    (∀ tc, (getTaskId 0 tc).1 = none) ∧ (∀ e, startTempTaskRunnersId 0 e = none) ∧
    (∀ id hit fuel, waitForTaskFromPoolSweep 0 id hit fuel = ([], .undefined) ∧
      runNextTaskSweep 0 id hit fuel = ([], .undefined)) ∧
    (∀ n : UInt64, n ≠ 0 → ∀ tc e,
      (∃ q, (getTaskId n tc).1 = some q ∧ q < n) ∧
        ∃ q, startTempTaskRunnersId n e = some q ∧ q < n) ∧
    ∀ n id : UInt64, id < n → ∀ hit fuel, n.toNat ≤ fuel →
      waitForTaskFromPoolSweep n id hit fuel = scan hit (sweepOrder n id) ∧
      runNextTaskSweep n id hit fuel = scan hit (sweepOrder n id) ∧
      (sweepOrder n id).Nodup ∧ ∀ m, m ∈ sweepOrder n id ↔ m < n ∧ m ≠ id :=
  ⟨rfl, rfl, fun _ => rfl, fun _ => rfl, fun _ _ _ => ⟨rfl, rfl⟩,
    fun _ hn => indices_lt hn,
    fun _ _ hid hit _ hf => ⟨stealSweep_eq_scan hid hit hf, stealSweep_eq_scan hid hit hf,
      nodup_sweepOrder hid, mem_sweepOrder hid⟩⟩


/-! ### The round robin of `get_task_id` -/

/-- The queue indices of `k` consecutive `get_task_id()` calls from the counter value `tc`. -/
def taskIds (n : UInt64) : Nat → UInt64 → List (Option UInt64)
  | 0, _ => []
  | k + 1, tc => (getTaskId n tc).1 :: taskIds n k (getTaskId n tc).2

theorem toNat_ofNat_mod {n : UInt64} (hn : 0 < n.toNat) (x : Nat) :
    (UInt64.ofNat (x % n.toNat)).toNat = x % n.toNat := by
  rw [toNat_uint64_ofNat]
  exact Nat.mod_eq_of_lt ((Nat.mod_lt x hn).trans n.toNat_lt_size)

/-- While the counter does not wrap, the `j`-th of `k` calls from `tc` gives `(tc + j) % N`. -/
theorem taskIds_eq {n : UInt64} (hn : 0 < n.toNat) (k : Nat) :
    ∀ tc : UInt64, tc.toNat + k ≤ UInt64.size →
      taskIds n k tc = (List.range k).map fun j => some (UInt64.ofNat ((tc.toNat + j) % n.toNat)) := by
  induction k with
  | zero => intro _ _; rfl
  | succ k ih =>
    intro tc hk
    have hstep : ∀ j < k, (tc + 1).toNat + j = tc.toNat + (j + 1) := fun j hj => by
      rw [toNat_add_one, Nat.mod_eq_of_lt (by omega)]; omega
    have hk' : (tc + 1).toNat + k ≤ UInt64.size := by
      rcases Nat.eq_zero_or_pos k with rfl | hpos
      · exact (tc + 1).toNat_lt_size.le
      · have := hstep 0 hpos; omega
    rw [taskIds, getTaskId, ih (tc + 1) hk', List.range_succ_eq_map, List.map_cons, List.map_map]
    congr 1
    · rw [modSize_of_ne_zero (uint64_ne_zero_iff.mpr hn), Option.some.injEq, uint64_eq_iff_toNat,
        UInt64.toNat_mod, Nat.add_zero, toNat_ofNat_mod hn]
    · exact List.map_congr_left fun j hj => by
        simp only [Function.comp, hstep j (List.mem_range.mp hj)]

/-- `N` consecutive indices from any start are the sweep order of the queue before the start,
followed by that queue. -/
theorem range_map_eq_sweepOrder {n : UInt64} (hn : 0 < n.toNat) (x : Nat) :
    (List.range n.toNat).map (fun j => UInt64.ofNat ((x + j) % n.toNat)) =
      sweepOrder n (UInt64.ofNat ((x + n.toNat - 1) % n.toNat)) ++
        [UInt64.ofNat ((x + n.toNat - 1) % n.toNat)] := by
  rw [show List.range n.toNat = List.range (n.toNat - 1) ++ [n.toNat - 1] by
      rw [← List.range_succ]; congr; omega,
    List.map_append, List.map_singleton, sweepOrder]
  congr 1
  · refine List.map_congr_left fun j _ => ?_
    rw [sweepAt, toNat_ofNat_mod hn, Nat.add_assoc, Nat.mod_add_mod,
      show x + n.toNat - 1 + (1 + j) = x + j + n.toNat by omega, Nat.add_mod_right]
  · rw [Nat.add_sub_assoc (by omega)]

/-- `N` calls that do not wrap the counter give the sweep order of some queue `id`, then `id`. -/
theorem taskIds_eq_sweepOrder {n : UInt64} (hn : 0 < n.toNat) {tc : UInt64}
    (htc : tc.toNat + n.toNat ≤ UInt64.size) :
    ∃ id, id < n ∧ taskIds n n.toNat tc = (sweepOrder n id ++ [id]).map some := by
  refine ⟨UInt64.ofNat ((tc.toNat + n.toNat - 1) % n.toNat), ?_, ?_⟩
  · have h := Nat.mod_lt (tc.toNat + n.toNat - 1) hn
    rw [← toNat_ofNat_mod hn] at h
    exact h
  · rw [taskIds_eq hn _ tc htc, ← range_map_eq_sweepOrder hn, List.map_map]
    rfl

/-- A sweep order followed by the queue it leaves out names every queue exactly once. -/
theorem sweepOrder_append_covers {n id : UInt64} (hid : id < n) :
    ((sweepOrder n id ++ [id]).map some).Nodup ∧
      ∀ q, some q ∈ (sweepOrder n id ++ [id]).map some ↔ q < n := by
  have hnd : (sweepOrder n id ++ [id]).Nodup := List.pairwise_append.mpr
    ⟨nodup_sweepOrder hid, List.pairwise_singleton _ _,
      fun m hm m' hm' => List.mem_singleton.mp hm' ▸ ((mem_sweepOrder hid m).mp hm).2⟩
  refine ⟨List.pairwise_map.mpr (hnd.imp fun hne heq => hne (Option.some.inj heq)), fun q => ?_⟩
  simp only [List.mem_map, Option.some.injEq, exists_eq_right, List.mem_append,
    mem_sweepOrder hid, List.mem_singleton]
  by_cases hq : q = id
  · simp [hq, hid]
  · simp [hq]

/-- Across the wrap of the counter the next index is `0`, which follows the index before it
round robin exactly when `N` divides `2^64`. -/
theorem taskIds_wrap {n : UInt64} (hn : n ≠ 0) :
    ∃ q, taskIds n 2 (UInt64.ofNat (UInt64.size - 1)) = [some q, some 0] ∧
      ((q.toNat + 1) % n.toNat = 0 ↔ n.toNat ∣ UInt64.size) := by
  refine ⟨UInt64.ofNat (UInt64.size - 1) % n, ?_, ?_⟩
  · have h0 : UInt64.ofNat (UInt64.size - 1) + 1 = 0 := by decide
    have hz : (0 : UInt64) % n = 0 := uint64_eq_iff_toNat.mpr (Nat.zero_mod _)
    simp only [taskIds, getTaskId, h0, modSize_of_ne_zero hn, hz]
  · have hM : (UInt64.ofNat (UInt64.size - 1)).toNat = UInt64.size - 1 := by decide
    rw [UInt64.toNat_mod, hM, ← Nat.dvd_iff_mod_eq_zero]
    have hdiv := Nat.div_add_mod (UInt64.size - 1) n.toNat
    have hsize : UInt64.size = n.toNat * ((UInt64.size - 1) / n.toNat) +
        ((UInt64.size - 1) % n.toNat + 1) := by
      have : 0 < UInt64.size := by decide
      omega
    exact (Nat.dvd_add_iff_right (Nat.dvd_mul_right _ _)).trans (by rw [← hsize])

/-- The round robin of `get_task_id`: `N` consecutive calls that do not wrap the counter give
each queue exactly once, from whatever counter value; across the wrap from `2^64 - 1` to `0`
the next index is `0`, which follows the previous one round robin exactly when `N` divides
`2^64`. -/
theorem get_task_id_round_robin {n : UInt64} (hn : n ≠ 0) :
    (∀ tc : UInt64, tc.toNat + n.toNat ≤ UInt64.size →
      (taskIds n n.toNat tc).Nodup ∧ ∀ q, some q ∈ taskIds n n.toNat tc ↔ q < n) ∧
    ∃ q, taskIds n 2 (UInt64.ofNat (UInt64.size - 1)) = [some q, some 0] ∧
      ((q.toNat + 1) % n.toNat = 0 ↔ n.toNat ∣ UInt64.size) := by
  refine ⟨fun tc htc => ?_, taskIds_wrap hn⟩
  obtain ⟨id, hid, hl⟩ := taskIds_eq_sweepOrder (uint64_ne_zero_iff.mp hn) htc
  rw [hl]
  exact sweepOrder_append_covers hid

theorem get_task_id_round_robin_three :
    (3 : UInt64) ≠ 0 ∧
      ((∀ tc : UInt64, tc.toNat + (3 : UInt64).toNat ≤ UInt64.size →
        (taskIds 3 (3 : UInt64).toNat tc).Nodup ∧
          ∀ q, some q ∈ taskIds 3 (3 : UInt64).toNat tc ↔ q < 3) ∧
      ∃ q, taskIds 3 2 (UInt64.ofNat (UInt64.size - 1)) = [some q, some 0] ∧
        ((q.toNat + 1) % (3 : UInt64).toNat = 0 ↔ (3 : UInt64).toNat ∣ UInt64.size)) :=
  ⟨by decide, get_task_id_round_robin (by decide)⟩

end FunctionQueue.Scheduler
