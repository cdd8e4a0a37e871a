import FunctionQueue.Scheduler.Ledger

/-!
States in which no thread can change anything, and two runs of `stop(true)` that reach one.

`stop` clears `m_continue` and pushes one empty task per queue, counting on each worker to take
the sentinel of its own queue: a worker in the last loop of `wait_for_task_from_pool` polls only
its own queue. But a worker still in its steal sweep can take another worker's sentinel, run it,
find `m_continue` false and leave; the other worker then polls its empty queue for ever while
`stop` joins it. And `stop` abandons whatever is queued: the tasks of a `create_task_group` still
in a queue are never invoked, so their latch is never notified.
-/

namespace FunctionQueue.Scheduler

theorem set_self_of_getElem? {β : Type} {l : List β} {k : Nat} {a : β} (h : l[k]? = some a) :
    l.set k a = l := by
  obtain ⟨hk, -⟩ := List.getElem?_eq_some_iff.mp h
  apply List.ext_getElem?
  intro j
  rw [List.getElem?_set]
  by_cases hj : k = j
  · subst hj
    rw [if_pos rfl, if_pos hk, h]
  · rw [if_neg hj]

namespace Sched

variable (s : Sched)

/-- A thread whose every step leaves the state as it is: it has left its loop, it is a user with
no handle left, it is a worker polling its own empty queue, or it is a user in `stop(true)`
joining a thread that has not left its loop. -/
def parked (th : Thread) : Bool :=
  match th.role, th.pc with
  | _, .exited => true
  | .user, .idle => s.handles == 0
  | .worker id, .waitLoop => s.queues[id]? == some []
  | .user, .join true (j :: _) => !s.exitedAt j
  | _, _ => false

variable {s} {s' : Sched} {i : Nat} {a : Act}

theorem parked_cases {th : Thread} (hp : s.parked th = true) :
    th.pc = .exited ∨ (th.role = .user ∧ th.pc = .idle ∧ s.handles = 0) ∨
    (∃ id, th.role = .worker id ∧ th.pc = .waitLoop ∧ s.queues[id]? = some []) ∨
    (∃ j rest, th.role = .user ∧ th.pc = .join true (j :: rest) ∧ s.exitedAt j = false) := by
  unfold parked at hp
  split at hp <;> simp_all

theorem userStep_exited {th : Thread} (hpc : th.pc = .exited) : s.userStep i th a = none := by
  unfold userStep
  rw [hpc]

theorem poolStep_exited {th : Thread} {id : Nat} (hpc : th.pc = .exited) :
    s.poolStep i th id a = none := by
  unfold poolStep
  rw [hpc]

/-- A user between calls can do nothing once no handle is left. -/
theorem userStep_idle_of_no_handle {th : Thread} (hpc : th.pc = .idle) (hh : s.handles = 0) :
    s.userStep i th a = none := by
  unfold userStep
  cases a <;> simp [hpc, hh]

theorem step_eq_self_of_parked (hp : s.threads.all s.parked = true)
    (h : s.step i a = some s') : s' = s := by
  obtain ⟨th, hth, ⟨hu, h⟩ | ⟨id', hr, h⟩⟩ := step_cases h <;>
  rcases parked_cases (List.all_eq_true.mp hp th (List.getElem?_mem hth)) with
    hpc | ⟨hrole, hpc, hh⟩ | ⟨id, hrole, hpc, hq⟩ | ⟨j, _, hrole, hpc, hj⟩
  · simp [userStep_exited hpc] at h
  · simp [userStep_idle_of_no_handle hpc hh] at h
  · rw [hrole] at hu; cases hu
  · unfold userStep at h
    cases a <;> simp [hpc, hj] at h
  · simp [poolStep_exited hpc] at h
  · rw [hrole] at hr; simp at hr
  · obtain rfl : id = id' := by rw [hrole] at hr; simpa using hr
    have hr : s.receive id = none := by simp [receive, hq]
    have hself : s.setThread i { th with pc := .waitLoop } = s := by
      simp only [setThread, ← hpc]
      rw [set_self_of_getElem? hth]
    unfold poolStep at h
    simp only [hpc, pop, hr] at h
    cases a <;> simp only [reduceCtorEq, Option.some.injEq] at h <;> rw [← h, hself]
  · rw [hrole] at hr; simp at hr

theorem reachable_eq_self_of_parked (hp : s.threads.all s.parked = true)
    (hr : s.Reachable s') : s' = s := by
  induction hr with
  | refl => rfl
  | tail _ hst ih =>
    subst ih
    obtain ⟨i, a, h⟩ := hst
    exact step_eq_self_of_parked hp h

end Sched

open Sched

/-- `stop(true)` on two workers. Worker 0 (thread 1) sweeps both empty queues and settles on its
own; worker 1 (thread 2) is at its steal of queue 0 when the user's `stop` clears `m_continue` and
pushes the sentinel of queue 0. Worker 1 takes it, the user pushes the sentinel of queue 1 and
starts joining, and worker 1 runs the sentinel, finds `m_continue` false in the wrapper's drain
loop and at its loop head, and leaves. -/
def stolenSentinelRun : List (Nat × Act) :=
  [(0, .start), (0, .tick), (1, .tick), (1, .tick), (1, .tick), (1, .tick), (1, .tick),
   (2, .tick), (2, .tick), (2, .tick), (0, .stop true), (0, .tick), (2, .tick), (0, .tick),
   (2, .tick), (2, .tick), (2, .tick)]

/-- Where that run ends: the user joins worker 0, which polls its own empty queue; the sentinel
meant to end worker 1 is still in queue 1. -/
def stolenSentinelEnd : Sched where
  n := 2
  cap := 4
  queues := [[], [⟨1, .plain, none, [1]⟩]]
  running := false
  taskCount := 0
  latches := []
  threads := [⟨.user, .join true [1, 2], []⟩, ⟨.worker 0, .waitLoop, []⟩, ⟨.worker 1, .exited, []⟩]
  tracked := [1, 2]
  others := []
  nodes := 0
  handles := 1
  accepted := 2
  invoked := [⟨0, .plain, none, [0]⟩]

/-- `stop(true)` deadlocks: after a run in which one worker steals the other's sentinel, the user
joins a worker that polls its own empty queue, with both sentinels pushed and the other worker
gone, and no step of any thread ever changes that state. -/
theorem stop_deadlocks_on_stolen_sentinel :
    (init 2 4 1).runTrace stolenSentinelRun = some stolenSentinelEnd ∧
    stolenSentinelEnd.threads.all stolenSentinelEnd.parked = true ∧
    ∀ s', stolenSentinelEnd.Reachable s' → s' = stolenSentinelEnd := by
  have hp : stolenSentinelEnd.threads.all stolenSentinelEnd.parked = true := by decide
  exact ⟨by decide, hp, fun _ => reachable_eq_self_of_parked hp⟩

/-- `create_task_group` of one task on one worker, then `stop(true)` before the worker reaches
its loop: the worker finds `m_continue` false at its first check and leaves, `stop` returns, and
the user drops its handle. -/
def abandonedGroupRun : List (Nat × Act) :=
  [(0, .start), (0, .tick), (0, .group 1), (0, .tick), (0, .stop true), (0, .tick), (1, .tick),
   (1, .tick), (0, .tick), (0, .tick), (0, .release)]

/-- Where that run ends: the group's task is still in queue 0, behind nothing, and its latch still
counts one. -/
def abandonedGroupEnd : Sched where
  n := 1
  cap := 4
  queues := [[⟨0, .notify 0, none, [0]⟩, ⟨1, .plain, none, [0]⟩]]
  running := false
  taskCount := 1
  latches := [⟨1, 1, 1, 0⟩]
  threads := [⟨.user, .idle, []⟩, ⟨.worker 0, .exited, []⟩]
  tracked := []
  others := []
  nodes := 0
  handles := 0
  accepted := 2
  invoked := []

/-- `stop` abandons a group's task without notifying its latch: once `stop(true)` has returned
and the handle is gone, the task is in a queue, never invoked, and the latch counts one in every
later state. -/
theorem stop_abandons_group_task_without_notify :
    (init 1 4 1).runTrace abandonedGroupRun = some abandonedGroupEnd ∧
    abandonedGroupEnd.latches = [⟨1, 1, 1, 0⟩] ∧
    ∀ s', abandonedGroupEnd.Reachable s' →
      s'.latchCount 0 = 1 ∧ s'.invoked = [] ∧ s'.queues = abandonedGroupEnd.queues := by
  have hp : abandonedGroupEnd.threads.all abandonedGroupEnd.parked = true := by decide
  refine ⟨by decide, rfl, fun s' hr => ?_⟩
  rw [reachable_eq_self_of_parked hp hr]
  exact ⟨rfl, rfl, rfl⟩

end FunctionQueue.Scheduler
