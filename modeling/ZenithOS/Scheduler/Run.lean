/-
The scheduler as a machine: one operation is one scheduler call made by
whatever runs, or one timer interrupt, taken to its end.

`SchedOp.Allowed` holds what the callers promise: a task is added once,
`task_exit` is never called by idle, and a task pointer is one that
`task_create` has returned. `added` records the tasks handed to
`scheduler_add_task`; the code does not keep it.
-/
import ZenithOS.Lib.Run
import ZenithOS.Scheduler.Basic

namespace ZenithOS.Scheduler

open Lib

/-- One scheduler call or timer interrupt. `regs` are the registers the
caller holds, `rsp` the interrupt frame. -/
inductive SchedOp
  | createTask (id entry stack : Nat) (process : Option ProcessPtr)
  | addTask (t : TaskPtr)
  | yield (regs : CpuContext)
  | blockCurrent (regs : CpuContext)
  | unblock (t : TaskPtr)
  | sleep (ticks : Nat) (regs : CpuContext)
  | exit (regs : CpuContext)
  | timer (rsp : Nat)

/-- The scheduler and the tasks added so far. -/
structure SchedSys where
  sched : Sched
  added : List TaskPtr

/-- What the caller of an operation promises. -/
def SchedOp.Allowed (y : SchedSys) : SchedOp → Prop
  | .addTask t => t < y.sched.taskCount ∧ t ∉ y.added ∧ some t ≠ y.sched.idle
  | .unblock t => t < y.sched.taskCount
  | .exit _ => y.sched.currentTask ≠ none ∧ y.sched.currentTask ≠ y.sched.idle
  | _ => True

instance (y : SchedSys) : ∀ op : SchedOp, Decidable (op.Allowed y)
  | .addTask _ => inferInstanceAs (Decidable (_ ∧ _ ∧ _))
  | .unblock _ => inferInstanceAs (Decidable (_ < _))
  | .exit _ => inferInstanceAs (Decidable (_ ∧ _))
  | .createTask .. | .yield _ | .blockCurrent _ | .sleep .. | .timer _ =>
      isTrue trivial

/-- The time slice of the running task ends with the next interrupt. -/
def sliceEnds (s : Sched) : Prop :=
  s.currentTask ≠ none ∧ s.currentTask ≠ s.idle
    ∧ schedulerTimeSlice ≤ s.preemptionTicks + 1

instance (s : Sched) : Decidable (sliceEnds s) :=
  inferInstanceAs (Decidable (_ ∧ _ ∧ _))

/-- The scheduler after one operation; `none` when the code does not
come back. -/
def schedStep (trampoline : Nat) (s : Sched) : SchedOp → Option Sched
  | .createTask id entry stack process => some (taskCreate s id entry stack process)
  | .addTask t => schedulerAddTask s (some t)
  | .yield regs => (schedulerYield s regs).map Prod.snd
  | .blockCurrent regs => (schedulerBlockCurrentLocked s regs).map Prod.snd
  | .unblock t => schedulerUnblock s (some t)
  | .sleep ticks regs => (schedulerSleep s ticks regs).map Prod.snd
  | .exit regs => (taskExit s regs).map Prod.snd
  | .timer rsp => (timerInterrupt trampoline s rsp).map Prod.snd

/-- `schedStep` with the record of added tasks. -/
def sysStep (trampoline : Nat) (y : SchedSys) (op : SchedOp) : Option SchedSys :=
  (schedStep trampoline y.sched op).map fun s =>
    match op with
    | .addTask t => { sched := s, added := t :: y.added }
    | _ => { sched := s, added := y.added }

/-- The machine after `scheduler_init`. -/
def sysInit (boot : Sched) (id entry stack : Nat) : SchedSys :=
  { sched := schedulerInit boot id entry stack, added := [] }

end ZenithOS.Scheduler
