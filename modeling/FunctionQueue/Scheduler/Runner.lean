import Mathlib.Data.List.Basic

/-!
The helper loop `task_runner(id, hnd, sem)` of `task_scheduler`, against the older
`task_runner(id, wself, sem)` of `task_scheduler_impl`, each run against what its iterations
observe: whether the latch's `try_wait()` succeeds, whether the handle can still be locked, and
`m_continue`. The older loop returns at the first iteration where one of the three stops it and
runs a task in every iteration before. The newer one tests `not(self or self->m_data->m_continue)`:
with a live handle the `or` stops at `self`, so `m_continue` is never read and the loop goes on
running tasks after `stop`; with an expired handle it reads `m_continue` through the empty handle.
-/

namespace FunctionQueue.Scheduler

/-- What one iteration of a helper loop observes: whether `sem->try_wait()` succeeds (the latch
is at zero), whether the handle's `lock()` gives a scheduler, and `m_continue`. -/
structure Observation where
  fired : Bool
  live : Bool
  running : Bool
  deriving DecidableEq, Repr

/-- How a helper loop ends: it returns, it reads a member through an empty handle, or it is
still looping when the observations run out. -/
inductive Ending
  | returned
  | undefined
  | looping
  deriving DecidableEq, Repr

/-- The `run_task` calls a helper loop makes, and how it ends. -/
structure Run where
  runs : Nat
  ending : Ending
  deriving DecidableEq, Repr

def Run.ranTask (r : Run) : Run := { r with runs := r.runs + 1 }

/-- `task_scheduler_impl::task_runner(id, wself, sem)`:
`while (!sem || !sem->try_wait()) { auto self = wself.lock(); if (!self || !self->m_continue)
return; run_task(...); }`, with the latch present. -/
def taskRunnerWself : List Observation → Run
  | [] => ⟨0, .looping⟩
  | o :: os =>
    if o.fired then ⟨0, .returned⟩
    else if !o.live || !o.running then ⟨0, .returned⟩
    else (taskRunnerWself os).ranTask

/-- The loop of `task_scheduler::task_runner(id, hnd, sem)`:
`while (not sem->try_wait()) { if (auto self = hnd.lock(); not(self or
self->m_data->m_continue)) return; else run_task(...); }`. -/
def taskRunnerHndLoop : List Observation → Run
  | [] => ⟨0, .looping⟩
  | o :: os =>
    if o.fired then ⟨0, .returned⟩
    else if o.live then (taskRunnerHndLoop os).ranTask
    else ⟨0, .undefined⟩

/-- `task_scheduler::task_runner(id, hnd, sem)`: `if (hnd.expired()) return;`, then the loop. -/
def taskRunnerHnd (expired : Bool) (obs : List Observation) : Run :=
  if expired then ⟨0, .returned⟩ else taskRunnerHndLoop obs

/-- An iteration in which none of the three conditions stops the loop. -/
def Observation.clear (o : Observation) : Bool := !o.fired && o.live && o.running

/-- The older loop returns at the first iteration that is not clear, having run a task in every
iteration before it, and is still looping only if every iteration was clear. -/
theorem taskRunnerWself_eq (obs : List Observation) :
    taskRunnerWself obs =
      ⟨(obs.takeWhile Observation.clear).length,
        if obs.all Observation.clear then .looping else .returned⟩ := by
  induction obs with
  | nil => rfl
  | cons o os ih =>
    obtain ⟨f, l, r⟩ := o
    cases f <;> cases l <;> cases r <;>
      simp [taskRunnerWself, Observation.clear, Run.ranTask, ih]

/-- With the handle live at every iteration, the newer loop runs a task in every iteration until
the latch fires, whatever `m_continue` says. -/
theorem taskRunnerHndLoop_of_live (obs : List Observation) (hlive : ∀ o ∈ obs, o.live = true) :
    taskRunnerHndLoop obs =
      ⟨(obs.takeWhile (!·.fired)).length,
        if obs.all (!·.fired) then .looping else .returned⟩ := by
  induction obs with
  | nil => rfl
  | cons o os ih =>
    have ho : o.live = true := hlive o (List.mem_cons_self o os)
    have ih := ih fun o' h => hlive o' (List.mem_cons_of_mem o h)
    cases hf : o.fired <;> simp [taskRunnerHndLoop, hf, ho, Run.ranTask, ih]

/-- The newer loop ends undefined at the first iteration whose handle has expired, unless the
latch fired earlier: it never returns because the handle expired. -/
theorem taskRunnerHndLoop_of_expired (pre : List Observation) (o : Observation)
    (post : List Observation) (hpre : ∀ p ∈ pre, p.fired = false ∧ p.live = true)
    (hf : o.fired = false) (hl : o.live = false) :
    taskRunnerHndLoop (pre ++ o :: post) = ⟨pre.length, .undefined⟩ := by
  induction pre with
  | nil => simp [taskRunnerHndLoop, hf, hl]
  | cons p ps ih =>
    obtain ⟨hpf, hpl⟩ := hpre p (List.mem_cons_self p ps)
    have ih := ih fun p' h => hpre p' (List.mem_cons_of_mem p h)
    simp [taskRunnerHndLoop, hpf, hpl, ih, Run.ranTask]

/-- The newer helper loop does not behave as the older one: after `stop` (a live handle with
`m_continue` false) it runs a task where the older returns, and once the scheduler is gone (an
expired handle after the entry check) it reads `m_continue` through the empty handle where the
older returns. -/
theorem hnd_runner_ignores_stop_and_reads_expired_handle :
    taskRunnerHnd false [⟨false, true, false⟩] = ⟨1, .looping⟩ ∧
    taskRunnerWself [⟨false, true, false⟩] = ⟨0, .returned⟩ ∧
    taskRunnerHnd false [⟨false, false, true⟩] = ⟨0, .undefined⟩ ∧
    taskRunnerWself [⟨false, false, true⟩] = ⟨0, .returned⟩ := by
  decide

end FunctionQueue.Scheduler
