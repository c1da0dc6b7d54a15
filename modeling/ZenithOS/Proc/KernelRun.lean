/-
Runs of a kernel with processes: they are made, run programs, exit and
are destroyed, while the scheduler goes on.

Beside the kernel a run records `added`, the tasks handed to
`scheduler_add_task`, and `live`, the `process_t` objects that
`process_create` returned and `process_destroy` has not freed.

`KernelOp.Allowed` holds what the callers promise. `KernelOp.Safe` is
what the code neither checks nor ensures: that a process is destroyed
only when none of its tasks can run any more and when the process list
holds no process that was freed before, that names and images stay within
the memory they are copied to, and that images stay out of the kernel's
half of the address space.
-/
import ZenithOS.Lib.Run
import ZenithOS.Mm.HeapRun
import ZenithOS.Proc.Exec
import ZenithOS.Scheduler.Run

namespace ZenithOS.Proc

open Lib Mm Vmm Klib Scheduler

/-- The calls on processes, and whatever the scheduler does. -/
inductive KernelOp
  | processCreate (failures : CreateFailures) (name : List Byte) (entry : Nat)
  | processExec (failures : ExecFailures) (process base : Nat) (elf : Nat → Byte)
  | processDestroy (process : Nat)
  | processExit (exitCode : Int) (regs : CpuContext)
  /-- A call of the scheduler, or a timer interrupt. -/
  | sched (op : SchedOp)

/-- The kernel, with the tasks added and the processes that are not
destroyed. -/
structure KernelSys where
  kernel : Kernel
  added : List TaskPtr
  live : List Nat

/-- What the scheduler sees of it. -/
def KernelSys.schedSys (y : KernelSys) : SchedSys := ⟨y.kernel.sched, y.added⟩

/-- The tasks that run or are going to. -/
def scheduled (s : Sched) : List TaskPtr :=
  s.currentTask.toList ++ s.pendingTask.toList
    ++ membersFrom (links s) s.taskCount s.readyQueue
    ++ membersFrom (links s) s.taskCount s.blockedQueue
    ++ membersFrom (links s) s.taskCount s.sleepQueue

/-- The members of the process list. -/
def processMembers (k : Kernel) : List Nat :=
  membersFrom (processLinks k) processListMax (pageTablePointer k.processList)

/-- A task is created for a process by `process_create` alone. -/
def Ownerless : SchedOp → Prop
  | .createTask _ _ _ process => process = none
  | _ => True

/-- Calls are made on live processes. -/
def KernelOp.Allowed (y : KernelSys) : KernelOp → Prop
  | .processCreate .. | .processExit .. => True
  | .processExec _ process _ _ | .processDestroy process => process = null ∨ process ∈ y.live
  | .sched op => op.Allowed y.schedSys ∧ Ownerless op

/-- Names and images fit, images lie below the kernel, and a process is
destroyed when no task of it is left. -/
def KernelOp.Safe (y : KernelSys) : KernelOp → Prop
  | .processCreate _ name _ => (cString name).length ≤ 63
  | .processExec _ _ base elf => ∀ ph ∈ loadSegments base elf, UserSegment ph
  | .processDestroy process =>
      (∀ t ∈ scheduled y.kernel.sched, (y.kernel.sched.tasks t).process ≠ some process)
        ∧ ∀ p ∈ processMembers y.kernel, p ∈ y.live
  | .processExit .. | .sched _ => True

instance : ∀ op : SchedOp, Decidable (Ownerless op)
  | .createTask .. => inferInstanceAs (Decidable (_ = _))
  | .addTask _ | .yield _ | .blockCurrent _ | .unblock _ | .sleep .. | .exit _ | .timer _ =>
      isTrue trivial

instance KernelOp.decidableAllowed (y : KernelSys) : ∀ op : KernelOp, Decidable (op.Allowed y)
  | .processCreate .. | .processExit .. => isTrue trivial
  | .processExec .. | .processDestroy _ => inferInstanceAs (Decidable (_ ∨ _))
  | .sched _ => inferInstanceAs (Decidable (_ ∧ _))

instance KernelOp.decidableSafe (y : KernelSys) : ∀ op : KernelOp, Decidable (op.Safe y)
  | .processCreate .. => inferInstanceAs (Decidable (_ ≤ _))
  | .processExec .. => inferInstanceAs (Decidable (∀ _ ∈ _, _))
  | .processDestroy _ => inferInstanceAs (Decidable ((∀ _ ∈ _, _) ∧ ∀ _ ∈ _, _))
  | .processExit .. | .sched _ => isTrue trivial

/-- One call; `none` when the code does not come back. -/
def kernelStep (trampoline : Nat) (y : KernelSys) : KernelOp → Option KernelSys
  | .processCreate failures name entry =>
      (processCreate failures name entry y.kernel).map fun (process, _, k) =>
        if process = null then { y with kernel := k }
        else
          { kernel := k
            added := y.kernel.sched.taskCount :: y.added
            live := process :: y.live }
  | .processExec failures process base elf =>
      (processExec failures process base elf y.kernel).map fun (_, k) => { y with kernel := k }
  | .processDestroy process =>
      (processDestroy process y.kernel).map fun k =>
        { y with kernel := k, live := y.live.filter (· ≠ process) }
  | .processExit exitCode regs =>
      (processExit exitCode regs y.kernel).map fun k => { y with kernel := k }
  | .sched op =>
      (sysStep trampoline y.schedSys op).map fun z =>
        { y with kernel := y.kernel.withSched z.sched, added := z.added }

end ZenithOS.Proc
