/-
The interrupt flag over the scheduler's blocking calls.

# Streams

A stream of execution is a task or, before the first switch, the boot
stream: `currentTask` says which one the processor runs, and `flag` is
the processor's. `scheduler_yield`, `scheduler_sleep` and
`scheduler_block_current` save it in locals named `irq_was_enabled`, one
inside the other, and restore it once the stream runs again; in between,
the routine that resumes a stream decides what it is.

# Calls

A call is one step up to the switch, or to its early return. It stays
open while its locals are restored, which interrupts may cut into, and
over when it returns. The code keeps neither `entry` nor `stays`.
-/
import ZenithOS.Scheduler.Run

namespace ZenithOS.Scheduler

open Lib

/-- The calls that may switch to another task. -/
inductive BlockingCall
  | yield
  | sleep (ticks : Nat)
  | blockCurrent
  deriving DecidableEq, Repr

/-- The call up to the switch. -/
def BlockingCall.run (s : Sched) (regs : CpuContext) :
    BlockingCall → Option (Resume × Sched)
  | .yield => schedulerYield s regs
  | .sleep ticks => schedulerSleep s ticks regs
  | .blockCurrent => schedulerBlockCurrentLocked s regs

/-- The test by which `scheduler_sleep` and
`scheduler_block_current_locked` return early. -/
def ReturnsEarly (s : Sched) : Prop :=
  s.currentTask = none ∨ s.currentTask = s.idle

instance ReturnsEarly.decidable (s : Sched) : Decidable (ReturnsEarly s) :=
  inferInstanceAs (Decidable (_ ∨ _))

/-- The flag when the call comes to the switch or to its early return,
and the `irq_was_enabled` of the functions it is in, innermost first. -/
def BlockingCall.enter (s : Sched) (flag : Bool) : BlockingCall → Bool × List Bool
  | .yield => (false, [flag])
  | .sleep _ => if ReturnsEarly s then (flag, []) else (false, [false, flag])
  | .blockCurrent => if ReturnsEarly s then (false, [flag]) else (false, [false, flag])

/-- The call comes back without a switch: there is no one else to run, or
the caller does not sleep. -/
def BlockingCall.Stays (s : Sched) : BlockingCall → Prop
  | .yield => s.readyQueue = none ∧ s.currentTask ≠ none
  | .sleep _ | .blockCurrent => ReturnsEarly s

instance BlockingCall.decidableStays (s : Sched) : ∀ c : BlockingCall, Decidable (c.Stays s)
  | .yield => inferInstanceAs (Decidable (_ ∧ _))
  | .sleep _ | .blockCurrent => inferInstanceAs (Decidable (ReturnsEarly s))

/-- A call that has not returned: the flag when it was made, whether it
came back without a switch, and the locals still to be restored. -/
structure Call where
  entry : Bool
  stays : Bool
  locals : List Bool
  deriving DecidableEq, Repr

/-- The scheduler with the flag, the calls of the streams and, for each
task, the flag in the frame at its `interrupt_rsp`. -/
structure FlagSys where
  sys : SchedSys
  flag : Bool
  calls : Option TaskPtr → Option Call
  frames : TaskPtr → Bool

/-- What a kernel task does with its interrupt flag, and the timer. -/
inductive FlagOp
  /-- A scheduler call that cannot switch, which restores the flag itself. -/
  | sched (op : SchedOp)
  /-- The stream sets or clears the flag outside of the calls. -/
  | setFlag (enabled : Bool)
  | call (c : BlockingCall) (regs : CpuContext)
  /-- The innermost `interrupt_restore` of the open call. -/
  | restore
  /-- The open call returns. -/
  | ret
  | exit (regs : CpuContext)
  | timer (rsp : Nat)

/-- Scheduler calls that may switch to another task. -/
def SchedOp.Switches : SchedOp → Prop
  | .createTask .. | .addTask _ | .unblock _ => False
  | _ => True

instance SchedOp.decidableSwitches : ∀ op : SchedOp, Decidable op.Switches
  | .createTask .. | .addTask _ | .unblock _ => isFalse False.elim
  | .yield _ | .blockCurrent _ | .sleep .. | .exit _ | .timer _ => isTrue trivial

/-- The flag of the stream that `scheduler_yield` resumes:
`context_switch` ends with `sti`, `context_switch_to_interrupt` with the
`iretq` of the saved frame. -/
def flagAfter (frames : TaskPtr → Bool) (flag : Bool) : Resume → Bool
  | .caller => flag
  | .context .. => true
  | .interrupt t _ => frames t

/-- What kind of frame `scheduler_get_next_interrupt_rsp` resumes from. -/
inductive FrameKind
  | saved
  | trampoline
  | user (rflags : Nat)
  deriving DecidableEq, Repr

/-- The choice that `nextInterruptRsp` makes for `next`. -/
def nextFrame (s : Sched) (next : TaskPtr) : FrameKind :=
  let task := s.tasks next
  let kernelFrame :=
    if taskResumeUsesInterruptFrame task then FrameKind.saved else .trampoline
  match task.process with
  | some pr =>
      let process := s.processes pr
      if process.isUserProcess then
        if !process.userStarted then .user process.userRflags else .saved
      else kernelFrame
  | none => kernelFrame

/-- The interrupt enable bit of a flags word. -/
def interruptEnableBit : Nat := 9

/-- `scheduler_save_interrupt_context`, as far as the flag goes. -/
def saveFrame (s : Sched) (flag : Bool) (frames : TaskPtr → Bool) : TaskPtr → Bool :=
  match s.currentTask with
  | none => frames
  | some t => if some t = s.idle then frames else Function.update frames t flag

/-- The end of an interrupt. A trampoline frame leads to
`context_resume_from_interrupt`, which ends with `sti`; a user frame
starts the process anew, whatever its task was in. -/
def interruptReturn (y : FlagSys) (next : TaskPtr → FrameKind) : Resume → FlagSys
  | .caller => y
  | .context .. => { y with flag := true }
  | .interrupt t _ =>
      match next t with
      | .saved => { y with flag := y.frames t }
      | .trampoline => { y with flag := true }
      | .user rflags =>
          { y with
            flag := rflags.testBit interruptEnableBit
            calls := Function.update y.calls (some t) none }

/-- `timerInterrupt` with its flag. -/
def timerFlagStep (trampoline : Nat) (y : FlagSys) (rsp : Nat) : Option FlagSys := do
  let s ← schedulerTick (tickSystem y.sys.sched)
  let s := schedulerPreempt s
  let (resume, s') ← isrExit trampoline s rsp
  let y := { y with
    sys := { y.sys with sched := s' }, frames := saveFrame s y.flag y.frames }
  some (interruptReturn y (nextFrame (schedulerSaveInterruptContext s rsp)) resume)

/-- One step of the stream that runs, or one timer interrupt; `none` when
it cannot happen. -/
def flagStep (trampoline : Nat) (y : FlagSys) : FlagOp → Option FlagSys
  | .sched op => (sysStep trampoline y.sys op).map fun sys => { y with sys := sys }
  | .setFlag enabled =>
      if y.calls y.sys.sched.currentTask = none then some { y with flag := enabled }
      else none
  | .call c regs =>
      let s := y.sys.sched
      if y.calls s.currentTask = none then
        (c.run s regs).map fun (resume, s') =>
          let (flag, locals) := c.enter s y.flag
          { y with
            sys := { y.sys with sched := s' }
            flag := flagAfter y.frames flag resume
            calls := Function.update y.calls s.currentTask
              (some { entry := y.flag, stays := decide (c.Stays s), locals := locals }) }
      else none
  | .restore =>
      match y.calls y.sys.sched.currentTask with
      | some { entry, stays, locals := irqWasEnabled :: locals } =>
          some { y with
            flag := if irqWasEnabled then true else y.flag
            calls := Function.update y.calls y.sys.sched.currentTask
              (some { entry := entry, stays := stays, locals := locals }) }
      | _ => none
  | .ret =>
      match y.calls y.sys.sched.currentTask with
      | some { locals := [], .. } =>
          some { y with calls := Function.update y.calls y.sys.sched.currentTask none }
      | _ => none
  | .exit regs =>
      if y.calls y.sys.sched.currentTask = none then
        (taskExit y.sys.sched regs).map fun (resume, s') =>
          { y with
            sys := { y.sys with sched := s' }
            flag := flagAfter y.frames y.flag resume }
      else none
  | .timer rsp => if y.flag then timerFlagStep trampoline y rsp else none

/-- What the caller of an operation promises. -/
def FlagOp.Allowed (y : FlagSys) : FlagOp → Prop
  | .sched op => op.Allowed y.sys ∧ ¬ op.Switches
  | .exit regs => (SchedOp.exit regs).Allowed y.sys
  | _ => True

instance FlagOp.decidableAllowed (y : FlagSys) : ∀ op : FlagOp, Decidable (op.Allowed y)
  | .sched op => inferInstanceAs (Decidable (op.Allowed y.sys ∧ ¬ op.Switches))
  | .exit regs => inferInstanceAs (Decidable ((SchedOp.exit regs).Allowed y.sys))
  | .setFlag _ | .call .. | .restore | .ret | .timer _ => isTrue trivial

/-- The machine after `scheduler_init`, with no call open; `frames` is
what the memory holds before there is any. -/
def flagInit (sys : SchedSys) (flag : Bool) (frames : TaskPtr → Bool) : FlagSys :=
  { sys := sys, flag := flag, calls := fun _ => none, frames := frames }

end ZenithOS.Scheduler
