import FunctionQueue.Scheduler.Pool

/-!
What one step of a thread can do, said once per kind of thread. A worker or a helper moves on
with no task in its hands, takes the head of a queue into them (`m_tasks[q].receive`), invokes
the task it holds (`run_task` once `is_ready()` returned true), labels that task for
re-submission (`get_task_id`), pushes it back (`send_task`), or spins on a full queue. A user
makes one of the calls of `task_scheduler`, or takes the next step inside one. The invariants of
the other modules take a step apart with `poolStep_cases` and `userStep_cases`, never with
`poolStep` or `userStep` themselves.
-/

namespace FunctionQueue.Scheduler

/-- The thread has no task in its hands: it neither runs, re-submits nor sends one. -/
def Pc.free : Pc → Bool
  | .runTask _ | .resubmit _ _ | .send _ _ _ => false
  | _ => true

namespace Thread

theorem holdsRef_eq (th : Thread) :
    th.holdsRef = (th.role != .user && th.pc != .spawned && th.pc != .exited) := by
  unfold holdsRef
  split <;> simp_all

/-- A thread that keeps its role and moves to a program counter inside the loop holds a
reference if it held one. -/
theorem holdsRef_of_move {th th' : Thread} (hr : th'.role = th.role)
    (h₁ : th'.pc ≠ .spawned) (h₂ : th'.pc ≠ .exited) (hh : th.holdsRef = true) :
    th'.holdsRef = true := by
  rw [holdsRef_eq] at hh ⊢
  simp_all

@[simp] theorem role_finish (th : Thread) : th.finish.role = th.role := by
  unfold finish; split <;> rfl

@[simp] theorem role_endWrapper (th : Thread) (ds : List Nat) :
    (th.endWrapper ds).role = th.role := by
  cases ds <;> simp [endWrapper]

theorem pc_finish (th : Thread) :
    th.finish.pc = .loopHead ∨ ∃ d outer, th.finish.pc = .drainHead d outer := by
  unfold finish
  split <;> simp

theorem pc_endWrapper (th : Thread) (ds : List Nat) :
    (th.endWrapper ds).pc = .loopHead ∨ ∃ d outer, (th.endWrapper ds).pc = .drainHead d outer := by
  cases ds with
  | nil => exact th.pc_finish
  | cons d outer => exact .inr ⟨d, outer, rfl⟩

/-- Leaving a drain loop lands at a drain loop or at the loop head, in the loop and with empty
hands. -/
theorem endWrapper_in_loop (th : Thread) (ds : List Nat) :
    (th.endWrapper ds).pc.free = true ∧ (th.endWrapper ds).pc ≠ .spawned ∧
      (th.endWrapper ds).pc ≠ .exited := by
  rcases th.pc_endWrapper ds with h | ⟨_, _, h⟩ <;> simp [h, Pc.free]

end Thread

namespace Sched

variable {s s' s₁ s₂ : Sched} {i q : Nat} {th : Thread} {t : Task}

@[simp] theorem setThread_queues : (s.setThread i th).queues = s.queues := rfl
@[simp] theorem setThread_invoked : (s.setThread i th).invoked = s.invoked := rfl
@[simp] theorem setThread_accepted : (s.setThread i th).accepted = s.accepted := rfl
@[simp] theorem setThread_latches : (s.setThread i th).latches = s.latches := rfl
@[simp] theorem setThread_threads : (s.setThread i th).threads = s.threads.set i th := rfl

theorem receive_spec (h : s.receive q = some (t, s₁)) :
    ∃ rest, s.queues[q]? = some (t :: rest) ∧ s₁ = { s with queues := s.queues.set q rest } := by
  unfold receive at h
  split at h
  · cases h
    exact ⟨_, ‹_›, rfl⟩
  · cases h

theorem push_spec (h : s.push q t = some s₁) :
    ∃ l, s.queues[q]? = some l ∧ l.length < s.cap ∧
      s₁ = { s with queues := s.queues.set q (l ++ [t]) } := by
  unfold push at h
  split at h
  · split at h
    · cases h
      exact ⟨_, ‹_›, ‹_›, rfl⟩
    · cases h
  · cases h

@[simp] theorem invoke_threads : (s.invoke t).threads = s.threads := by
  unfold invoke; split <;> rfl
@[simp] theorem invoke_queues : (s.invoke t).queues = s.queues := by
  unfold invoke; split <;> rfl
@[simp] theorem invoke_accepted : (s.invoke t).accepted = s.accepted := by
  unfold invoke; split <;> rfl
@[simp] theorem invoke_invoked : (s.invoke t).invoked = s.invoked ++ [t] := by
  unfold invoke; split <;> rfl
@[simp] theorem invoke_handles : (s.invoke t).handles = s.handles := by
  unfold invoke; split <;> rfl
@[simp] theorem invoke_running : (s.invoke t).running = s.running := by
  unfold invoke; split <;> rfl
@[simp] theorem invoke_tracked : (s.invoke t).tracked = s.tracked := by
  unfold invoke; split <;> rfl

/-- `s₂` differs from `s` at most in `m_task_count` and `m_other_threads`. -/
structure Aside (s s₂ : Sched) : Prop where
  queues : s₂.queues = s.queues
  threads : s₂.threads = s.threads
  latches : s₂.latches = s.latches
  invoked : s₂.invoked = s.invoked
  accepted : s₂.accepted = s.accepted
  handles : s₂.handles = s.handles
  running : s₂.running = s.running
  tracked : s₂.tracked = s.tracked

theorem Aside.refl (s : Sched) : Aside s s := ⟨rfl, rfl, rfl, rfl, rfl, rfl, rfl, rfl⟩

/-- A step of thread `i` is a step of a user or of a pool thread, as its role says. -/
theorem step_cases {a : Act} (h : s.step i a = some s') :
    ∃ th, s.threads[i]? = some th ∧
      (th.role = .user ∧ s.userStep i th a = some s' ∨
        ∃ id, (th.role = .worker id ∨ ∃ sem node, th.role = .helper id sem node) ∧
          s.poolStep i th id a = some s') := by
  unfold step at h
  split at h
  · cases h
  · rename_i th hth
    refine ⟨th, hth, ?_⟩
    split at h
    · exact .inl ⟨‹_›, h⟩
    · exact .inr ⟨_, .inl ‹_›, h⟩
    · exact .inr ⟨_, .inr ⟨_, _, ‹_›⟩, h⟩

/-- What one step of pool thread `i`, found as `th`, does. Each kind rewrites entry `i` only and
keeps the thread's role. The thread moves on with empty hands, inside the loop or out of it
(`move`): it leaves its loop only when it finds no strong reference to lock, at a worker's loop
head with `m_continue` false, or at a helper's erase, which also drops its node of
`m_other_threads`. A hit of `m_tasks[q].receive` puts the head of the queue into its hands
(`take`). `run_task` invokes the task it holds once `is_ready()` returned true and leaves the
drain loops `ds` (`invoke`), or finds it not ready and labels it for queue `q` (`resubmit`);
the labelled task goes back into queue `q` (`put`), or `send_task` spins on a full queue
(`stay`). -/
inductive PoolMove (s : Sched) (i : Nat) (th : Thread) : Sched → Prop
  | move {s₂ : Sched} (th' : Thread) (hs : Aside s s₂) (hrole : th'.role = th.role)
      (hfree : th.pc.free = true) (hfree' : th'.pc.free = true) (hspawned : th'.pc ≠ .spawned)
      (hexit : th'.pc = .exited → th.pc = .spawned ∨ (th.pc = .loopHead ∧ s.running = false) ∨
        (th.pc = .erase ∧ ∃ id sem node, th.role = .helper id sem node)) :
      PoolMove s i th (s₂.setThread i th')
  | take {q : Nat} {t : Task} {s₁ : Sched} (frame : List (Nat × List Nat))
      (hr : s.receive q = some (t, s₁)) (hfree : th.pc.free = true) :
      PoolMove s i th (s₁.setThread i { th with pc := .runTask t, frames := frame ++ th.frames })
  | invoke {t : Task} (ds : List Nat) (hpc : th.pc = .runTask t) (hready : s.ready t = true) :
      PoolMove s i th ((s.invoke t).setThread i (th.endWrapper ds))
  | resubmit {s₂ : Sched} {t : Task} (q : Nat) (hs : Aside s s₂) (hpc : th.pc = .runTask t)
      (hready : s.ready t = false) :
      PoolMove s i th
        (s₂.setThread i { th with pc := .resubmit { t with drains := t.drains ++ [q] } q })
  | put {t : Task} {q : Nat} {s₁ : Sched} (hpc : th.pc = .resubmit t q)
      (hp : s.push q t = some s₁) :
      PoolMove s i th (s₁.setThread i th.finish)
  | stay {t : Task} {q : Nat} (hpc : th.pc = .resubmit t q) (hp : s.push q t = none) :
      PoolMove s i th s

/-- Thread `i` moves on inside its loop with empty hands, and nothing else changes. -/
theorem PoolMove.go (hfree : th.pc.free = true) {pc : Pc} (hpc : pc.free = true)
    (h₁ : pc ≠ .spawned) (h₂ : pc ≠ .exited) : PoolMove s i th (s.setThread i { th with pc := pc }) :=
  .move _ (.refl s) rfl hfree hpc h₁ fun h => absurd h h₂

theorem PoolMove.pop (hfree : th.pc.free = true) {miss : Pc} (hmiss : miss.free = true)
    (h₁ : miss ≠ .spawned) (h₂ : miss ≠ .exited) {a : Act} {frame : List (Nat × List Nat)}
    (h : s.pop a i th q miss frame = some s') : PoolMove s i th s' := by
  unfold Sched.pop at h
  split at h <;> cases h
  · exact .take frame ‹_› hfree
  all_goals exact .go hfree hmiss h₁ h₂

/-- Every step of a pool thread is one of the kinds of `PoolMove`. -/
theorem poolStep_cases {id : Nat} {a : Act} (h : s.poolStep i th id a = some s') :
    PoolMove s i th s' := by
  have hleave : ∀ ds, th.pc.free = true → PoolMove s i th (s.setThread i (th.endWrapper ds)) :=
    fun ds hf =>
      have ⟨hf', h₁, h₂⟩ := th.endWrapper_in_loop ds
      .move _ (.refl s) (by simp) hf hf' h₁ fun h => absurd h h₂
  unfold poolStep at h
  split at h
  next _ _ hpc =>
    cases h
    exact .move _ (.refl s) rfl (by simp [hpc, Pc.free]) (by split <;> rfl) (by split <;> simp)
      fun _ => .inl hpc
  next _ _ hpc =>
    split at h <;> cases h
    · exact .move _ (.refl s) rfl (by simp [hpc, Pc.free]) (by split <;> rfl)
        (by split <;> simp) fun hx => .inr (.inl ⟨hpc, by cases hr : s.running <;> simp_all⟩)
    · exact .move _ (.refl s) rfl (by simp [hpc, Pc.free]) (by split <;> rfl)
        (by split <;> simp) fun hx => by split at hx <;> cases hx
  next _ _ hpc => exact .pop (by simp [hpc, Pc.free]) (by rfl) (by simp) (by simp) h
  next _ _ _ hpc =>
    split at h
    · split at h <;> cases h
      exact .go (by simp [hpc, Pc.free]) rfl (by simp) (by simp)
    · exact .pop (by simp [hpc, Pc.free]) (by rfl) (by simp) (by simp) h
  next _ _ hpc => exact .pop (by simp [hpc, Pc.free]) (by rfl) (by simp) (by simp) h
  next _ _ _ hpc =>
    split at h <;> cases h
    · exact .invoke _ hpc ‹_›
    · exact .resubmit _ ⟨rfl, rfl, rfl, rfl, rfl, rfl, rfl, rfl⟩ hpc (Bool.eq_false_iff.mpr ‹_›)
  next _ _ _ hpc =>
    split at h <;> cases h
    exact .invoke [] hpc ‹_›
  next _ _ _ _ hpc =>
    split at h <;> cases h
    · exact .put hpc ‹_›
    · exact .stay hpc ‹_›
  next _ _ _ _ hpc =>
    split at h <;> cases h
    · exact .go (by simp [hpc, Pc.free]) rfl (by simp) (by simp)
    · exact hleave _ (by simp [hpc, Pc.free])
  next _ _ _ _ hpc => exact .pop (by simp [hpc, Pc.free]) (by rfl) (by simp) (by simp) h
  next _ _ _ _ _ hpc =>
    split at h
    · split at h <;> cases h
      exact hleave _ (by simp [hpc, Pc.free])
    · exact .pop (by simp [hpc, Pc.free]) (by rfl) (by simp) (by simp) h
  next _ _ hpc =>
    split at h
    · rename_i hrole
      split at h <;> cases h
      · exact .go (by simp [hpc, Pc.free]) rfl (by simp) (by simp)
      · exact .move _ ⟨rfl, rfl, rfl, rfl, rfl, rfl, rfl, rfl⟩ rfl (by simp [hpc, Pc.free]) rfl
          (by simp) fun _ => .inr (.inr ⟨hpc, _, _, _, hrole⟩)
      · exact .go (by simp [hpc, Pc.free]) rfl (by simp) (by simp)
    · cases h
  next => cases h

/-- What one step of user thread `i`, found as `th`, does. It moves on with empty hands (`move`):
out of `start_temp_task_runners`, through its `*it = ...` and `detach()` (which may find the node
erased), or to the next thread of `stop`'s join loop once the one it waits for, when blocking,
has left its loop. It drops its handle (`release`). `start()` sets `m_continue` and waits for the
`m_threads` lock (`start`), then, holding it while no `stop` does, creates the workers
(`createWorkers`). `stop(b)` clears `m_continue` and goes on to send the first sentinel, or to
join when there is no queue (`stop`); the join loop done, `m_threads` is cleared (`joined`). It
makes a latch with nothing to schedule, a user's `shared_latch` or a group of no task (`latch`);
the latch of `create_task_group` of `k` tasks and its first task (`group`); the wrapper of
`schedule_task` with the caller's latch `l` (`schedule`); notifies a latch it holds (`notify`);
makes the latch of `start_temp_task_runners(k)` (`tempRunners`) and pushes an empty node and a
helper for it (`spawn`). `send_task` pushes its task, the next accepted submission (`send`), or
spins on a full queue (`wait`). -/
inductive UserMove (s : Sched) (i : Nat) (th : Thread) : Sched → Prop
  | move {s₂ : Sched} (pc : Pc) (hs : Aside s s₂) (hfree : th.pc.free = true)
      (hfree' : pc.free = true)
      (hjoin : ∀ b p, pc = .join b p → ∃ j, th.pc = .join b (j :: p) ∧ (!b || s.exitedAt j) = true) :
      UserMove s i th (s₂.setThread i { th with pc := pc })
  | release (hpc : th.pc = .idle) (hh : 0 < s.handles) :
      UserMove s i th { s with handles := s.handles - 1 }
  | start (hpc : th.pc = .idle) (hh : s.handles ≠ 0) :
      UserMove s i th ({ s with running := true }.setThread i { th with pc := .starting })
  | createWorkers (hpc : th.pc = .starting) (hj : s.joining = false) :
      UserMove s i th (s.setThread i { th with pc := .idle }).createWorkers
  | stop (b : Bool) (pc : Pc) (hpc : th.pc = .idle) (hh : s.handles ≠ 0)
      (hpc' : 0 < s.n ∧ pc = .send (sentinel 0) 0 (.stop b 1) ∨ s.n = 0 ∧ pc = .join b s.tracked) :
      UserMove s i th ({ s with running := false }.setThread i { th with pc := pc })
  | addTask (l : Option Nat) (hpc : th.pc = .idle) (hh : s.handles ≠ 0) :
      UserMove s i th (s.nextTaskId.2.setThread i
        { th with pc := .send (wrap .plain l s.nextTaskId.1) s.nextTaskId.1 .done })
  | latch (c : Nat) (hpc : th.pc = .idle) (hh : s.handles ≠ 0) :
      UserMove s i th { s with latches := s.latches ++ [Latch.mk c c 0 0] }
  | group (k : Nat) (hpc : th.pc = .idle) (hh : s.handles ≠ 0) (hk : 0 < k) :
      UserMove s i th ({ s with latches := s.latches ++ [Latch.mk k k k 0] }.groupTask i th
        s.latches.length (k - 1))
  | schedule (l : Nat) (hpc : th.pc = .idle) (hh : s.handles ≠ 0) (hl : l < s.latches.length) :
      UserMove s i th ((s.nextTaskId.2.addWrapper l).setThread i
        { th with pc := .send (wrap (.notify l) none s.nextTaskId.1) s.nextTaskId.1 .done })
  | notify (l : Nat) (hpc : th.pc = .idle) (hh : s.handles ≠ 0) (hl : l < s.latches.length) :
      UserMove s i th (s.userNotify l)
  | tempRunners (k : Nat) (hpc : th.pc = .idle) (hh : s.handles ≠ 0) :
      UserMove s i th ({ s with latches := s.latches ++ [Latch.mk k k 0 0] }.setThread i
        { th with pc := .spawnNext s.latches.length k 0 })
  | send {t : Task} {q : Nat} {next : After} {s₁ : Sched} (hpc : th.pc = .send t q next)
      (hp : s.push q { t with id := s.accepted } = some s₁) :
      UserMove s i th ({ s₁ with accepted := s.accepted + 1 }.afterSend i th next)
  | wait {t : Task} {q : Nat} {next : After} (hpc : th.pc = .send t q next)
      (hp : s.push q { t with id := s.accepted } = none) :
      UserMove s i th s
  | joined (b : Bool) (hpc : th.pc = .join b []) :
      UserMove s i th ({ s with tracked := [] }.setThread i { th with pc := .idle })
  | spawn (sem k n e : Nat) (hpc : th.pc = .spawnNext sem k n) (hn : n < k) :
      UserMove s i th ({ s with
        others := s.others ++ [(s.nodes, Slot.empty)]
        nodes := s.nodes + 1
        threads := s.threads ++ [Thread.mk (.helper (e % s.n) sem s.nodes) .spawned []] }.setThread
          i { th with pc := .assign sem k n s.nodes s.threads.length })

/-- Every step of a user is one of the kinds of `UserMove`. -/
theorem userStep_cases {a : Act} (h : s.userStep i th a = some s') : UserMove s i th s' := by
  have hmove : ∀ {s₂ : Sched} {pc : Pc}, Aside s s₂ → th.pc.free = true → pc.free = true →
      (∀ b p, pc ≠ .join b p) → UserMove s i th (s₂.setThread i { th with pc := pc }) :=
    fun hs hf hf' hj => .move _ hs hf hf' fun b p h => absurd h (hj b p)
  unfold userStep at h
  split at h
  next _ _ hpc =>
    split at h <;> cases h
    exact .release hpc ‹_›
  next _ _ hpc _ =>
    split at h
    · cases h
    rename_i hh
    split at h
    next => cases h; exact .start hpc hh
    next b _ =>
      split at h <;> cases h
      · exact .stop b _ hpc hh (.inl ⟨‹_›, rfl⟩)
      · exact .stop b _ hpc hh (.inr ⟨by omega, rfl⟩)
    next l _ => cases h; exact .addTask l hpc hh
    next l _ =>
      split at h <;> cases h
      exact .schedule l hpc hh ‹_›
    next k _ =>
      split at h <;> cases h
      · subst k; exact .latch 0 hpc hh
      · exact .group k hpc hh (by omega)
    next k _ => cases h; exact .latch k hpc hh
    next l _ =>
      split at h <;> cases h
      exact .notify l hpc hh ‹_›
    next k _ => cases h; exact .tempRunners k hpc hh
    next => cases h
  next hpc =>
    split at h <;> cases h
    exact .createWorkers hpc (Bool.eq_false_iff.mpr ‹_›)
  next _ _ _ _ _ hpc =>
    split at h <;> cases h
    · exact .send hpc ‹_›
    · exact .wait hpc ‹_›
  next _ _ b pending hpc =>
    split at h
    · cases h; exact .joined b hpc
    · rename_i j rest
      split at h <;> cases h
      exact .move _ (.refl s) (by simp [hpc, Pc.free]) rfl fun b' p h => by
        simp only [Pc.join.injEq] at h
        obtain ⟨rfl, rfl⟩ := h
        exact ⟨j, hpc, ‹_›⟩
  next sem k n e hpc =>
    split at h <;> cases h
    exact .spawn sem k n e hpc ‹_›
  next hpc =>
    split at h <;> cases h
    exact hmove (.refl s) (by simp [hpc, Pc.free]) rfl (by simp)
  next hpc =>
    split at h <;> cases h
    · refine hmove ?_ (by simp [hpc, Pc.free]) rfl (by simp)
      exact ⟨rfl, rfl, rfl, rfl, rfl, rfl, rfl, rfl⟩
    · exact hmove (.refl s) (by simp [hpc, Pc.free]) rfl (by simp)
  next hpc =>
    split at h <;> cases h
    · refine hmove ?_ (by simp [hpc, Pc.free]) rfl (by simp)
      exact ⟨rfl, rfl, rfl, rfl, rfl, rfl, rfl, rfl⟩
    · exact hmove (.refl s) (by simp [hpc, Pc.free]) rfl (by simp)
  next => cases h

end Sched

end FunctionQueue.Scheduler
