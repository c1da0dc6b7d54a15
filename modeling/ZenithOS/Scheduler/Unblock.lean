/-
`scheduler_unblock` with interrupts enabled.

The function tests the state of the task first and disables interrupts
then. A timer interrupt in between may switch to other tasks, and these
may call the scheduler, `scheduler_unblock` of the same task included. So
a call is two steps here: `test`, and `relink` when the caller runs again
and goes on. Everything else that runs is an operation of the machine; a
`scheduler_unblock` called with interrupts disabled is one of them.

`testing` says which task a caller has found blocked; the caller is the
task that is current, or the boot stream. The code does not keep `stale`:
it is set when somebody else unblocks that task, and cleared when it
blocks again.
-/
import ZenithOS.Scheduler.Run

namespace ZenithOS.Scheduler

open Lib

/-- The scheduler, with what each caller of `scheduler_unblock` has tested
and whether it still holds. -/
structure UnblockSys where
  sys : SchedSys
  testing : Option TaskPtr → Option TaskPtr
  stale : Option TaskPtr → Bool

/-- `scheduler_unblock` in its two steps, and everything else. -/
inductive UnblockOp
  | sched (op : SchedOp)
  | test (t : TaskPtr)
  | relink

/-- Who runs. -/
abbrev UnblockSys.caller (y : UnblockSys) : Option TaskPtr := y.sys.sched.currentTask

/-- Whose test does not hold any more after an operation. -/
def staleAfter (y : UnblockSys) (op : SchedOp) (c : Option TaskPtr) : Bool :=
  match op with
  | .unblock t => if y.testing c = some t then true else y.stale c
  | .blockCurrent _ => if y.testing c = y.caller then false else y.stale c
  | _ => y.stale c

/-- One step; `none` when the code does not come back, or the caller is
not in `scheduler_unblock`. -/
def unblockStep (trampoline : Nat) (y : UnblockSys) : UnblockOp → Option UnblockSys
  | .sched op =>
      (sysStep trampoline y.sys op).map fun sys =>
        { y with sys := sys, stale := staleAfter y op }
  | .test t =>
      if (y.sys.sched.tasks t).state ≠ .blocked then some y
      else
        some { y with
          testing := Function.update y.testing y.caller (some t)
          stale := Function.update y.stale y.caller false }
  | .relink => do
      let t ← y.testing y.caller
      let s ← schedulerUnblockLocked y.sys.sched t
      some
        { sys := { y.sys with sched := s }
          testing := Function.update y.testing y.caller none
          stale := staleAfter y (.unblock t) }

/-- The machine after `scheduler_init`. -/
def unblockInit (boot : Sched) (id entry stack : Nat) : UnblockSys :=
  { sys := sysInit boot id entry stack, testing := fun _ => none, stale := fun _ => false }

/-- A timer interrupt. -/
def SchedOp.isTimer : SchedOp → Bool
  | .timer _ => true
  | _ => false

/-- Between the two steps a caller can only be interrupted. -/
def UnblockOp.Allowed (y : UnblockSys) : UnblockOp → Prop
  | .sched op => op.Allowed y.sys ∧ (op.isTimer = true ∨ y.testing y.caller = none)
  | .test t => t < y.sys.sched.taskCount ∧ y.testing y.caller = none
  | .relink => y.testing y.caller ≠ none

/-- Nobody else has unblocked the task since the caller's test, or it has
blocked again. -/
def UnblockOp.Fresh (y : UnblockSys) : UnblockOp → Prop
  | .relink => y.stale y.caller = false
  | _ => True

instance UnblockOp.decidableAllowed (y : UnblockSys) :
    ∀ op : UnblockOp, Decidable (op.Allowed y)
  | .sched _ => inferInstanceAs (Decidable (_ ∧ _))
  | .test _ => inferInstanceAs (Decidable (_ ∧ _))
  | .relink => inferInstanceAs (Decidable (_ ≠ _))

instance UnblockOp.decidableFresh (y : UnblockSys) : ∀ op : UnblockOp, Decidable (op.Fresh y)
  | .relink => inferInstanceAs (Decidable (_ = _))
  | .sched _ | .test _ => isTrue trivial

end ZenithOS.Scheduler
