/-
Critical sections: runs of the mutexes in which every task's calls on a
mutex are balanced.

Beside the machine a run records `opened m t`, the locks on `m` that have
returned to the task `t` and that it has not closed, and `inside t`, the
mutex whose `mutex_lock` the task is still in. A task that is inside goes
on with the next pass of that call; `mutex_unlock` closes the lock opened
last.
-/
import ZenithOS.Sync.Mutex

namespace ZenithOS.Sync

open Lib Mm Scheduler

variable {μ : Type} [DecidableEq μ]

/-- The machine and the record of the open locks. -/
structure NestSys (μ : Type) where
  sys : MutexSys μ
  opened : μ → TaskPtr → Nat
  inside : TaskPtr → Option μ

/-- The open locks after `f` of those of the task `t` on `m`. -/
def NestSys.count (y : NestSys μ) (m : μ) (t : TaskPtr) (f : Nat → Nat) : μ → TaskPtr → Nat :=
  Function.update y.opened m (Function.update (y.opened m) t (f (y.opened m t)))

/-- After a pass of the current task on `m`. -/
def NestSys.passed (y : NestSys μ) (m : μ) (r : LockPass × Mutex × Sched) : NestSys μ :=
  match y.sys.sched.currentTask, r.1 with
  | none, _ => { y with sys := lockPassed y.sys m r }
  | some t, .returned =>
      { sys := lockPassed y.sys m r
        opened := y.count m t (· + 1)
        inside := Function.update y.inside t none }
  | some t, .yielded _ =>
      { y with
        sys := lockPassed y.sys m r
        inside := Function.update y.inside t (some m) }

/-- After a `mutex_unlock` of `m` by the current task. -/
def NestSys.closed (y : NestSys μ) (m : μ) (r : Mutex × Sched) : NestSys μ :=
  match y.sys.sched.currentTask with
  | none => { y with sys := unlocked y.sys m r }
  | some t => { y with sys := unlocked y.sys m r, opened := y.count m t (· - 1) }

/-- One step, which records who has taken what. -/
def nestStep (trampoline : Nat) (y : NestSys μ) : MutexOp μ → Option (NestSys μ)
  | .lock m regs => (mutexLock y.sys.sched (y.sys.mutexes m) regs).map (y.passed m)
  | .relock m regs =>
      match y.sys.sched.currentTask with
      | none => some y
      | some current =>
          (mutexLockPass y.sys.sched (y.sys.mutexes m) current regs).map (y.passed m)
  | .unlock m => (mutexUnlock y.sys.sched (y.sys.mutexes m)).map (y.closed m)
  | .sched op => (mutexStep trampoline y.sys (.sched op)).map fun s => { y with sys := s }

/-- What the current task may do: it goes on where it is inside, and
closes only what it has opened. -/
def MutexOp.Balanced (y : NestSys μ) (op : MutexOp μ) : Prop :=
  op.Allowed y.sys ∧ ∀ t ∈ y.sys.sched.currentTask,
    match op with
    | .lock .. => y.inside t = none
    | .relock m _ => y.inside t = some m
    | .unlock m => y.inside t = none ∧ 0 < y.opened m t
    | .sched _ => True

/-- No `mutex_unlock` closes a lock inside another. -/
def MutexOp.Outermost (y : NestSys μ) (op : MutexOp μ) : Prop :=
  ∀ t ∈ y.sys.sched.currentTask,
    match op with
    | .unlock m => y.opened m t = 1
    | _ => True

instance MutexOp.decidableBalanced [Fintype μ] (y : NestSys μ) (op : MutexOp μ) :
    Decidable (op.Balanced y) :=
  match op with
  | .lock .. | .relock .. => inferInstanceAs (Decidable (_ ∧ ∀ _ ∈ _, _ = _))
  | .unlock _ => inferInstanceAs (Decidable (_ ∧ ∀ _ ∈ _, _ ∧ _))
  | .sched _ => inferInstanceAs (Decidable (_ ∧ ∀ _ ∈ _, True))

instance MutexOp.decidableOutermost (y : NestSys μ) (op : MutexOp μ) :
    Decidable (op.Outermost y) :=
  match op with
  | .unlock _ => inferInstanceAs (Decidable (∀ _ ∈ _, _ = _))
  | .lock .. | .relock .. | .sched _ => inferInstanceAs (Decidable (∀ _ ∈ _, True))

/-- The machine after `scheduler_init`: no lock is open. -/
def nestInit (μ : Type) (boot : Sched) (id entry stack : Nat) : NestSys μ :=
  { sys := mutexSysInit μ boot id entry stack
    opened := fun _ _ => 0
    inside := fun _ => none }

end ZenithOS.Sync
