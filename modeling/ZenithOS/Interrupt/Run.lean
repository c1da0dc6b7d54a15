/-
The processor shared by the tasks, instruction streams and all: what
runs computes on its registers and memory, and interrupts arrive.

`Core` is the machine. `work` is whatever the running task does between
two interrupts; it keeps to kernel mode and off the other tasks' stacks.
An interrupt is `interrupt`, the code of `isr.asm` with the C functions
it calls.

`Shared` adds what a task would have on a processor of its own: only its
own work changes that. The code does not keep it; the results are about
how the two compare.
-/
import ZenithOS.Interrupt.Isr
import ZenithOS.Lib.Run

namespace ZenithOS.Interrupt

open Lib Lib.X86 Mm Scheduler

/-- Where the kernel stacks are; they do not overlap. A task that is not
there has none (`hi t < lo t`). -/
structure StackAreas where
  lo : TaskPtr → Nat
  hi : TaskPtr → Nat
  positive : ∀ t, 0 < lo t
  fits : ∀ t, hi t < 2 ^ 64
  apart : ∀ t u, t ≠ u → hi t ≤ lo u ∨ hi u ≤ lo t

/-- A byte of a task's stack. -/
def StackAreas.On (areas : StackAreas) (t : TaskPtr) (x : Nat) : Prop :=
  areas.lo t ≤ x ∧ x < areas.hi t

/-- The program the processor runs, and the kernel. -/
structure Core where
  program : Context
  sched : Sched

/-- A program works, or an interrupt arrives. -/
inductive CoreOp
  | work (program : Context) (mem : Mem)
  | interrupt (vector error : Nat)

/-- One step of the processor. -/
def coreStep (calls : Extern → Sched × Cpu → Sched × Cpu) (isrTable : Nat → Nat) (y : Core) :
    CoreOp → Option Core
  | .work program mem => some { program := program, sched := { y.sched with stack := mem } }
  | .interrupt vector error =>
      (interrupt calls isrTable vector error y.program y.sched).map fun r =>
        { program := r.1, sched := r.2 }

/-- The machine, and each task's program on a processor of its own. -/
structure Shared where
  core : Core
  programs : TaskPtr → Context

/-- The task that runs changes its own program. -/
def programsAfter (current : Option TaskPtr) (programs : TaskPtr → Context) :
    CoreOp → TaskPtr → Context
  | .work program _ =>
      match current with
      | some t => Function.update programs t program
      | none => programs
  | .interrupt .. => programs

/-- One step, and what the current task alone would have done. -/
def sharedStep (calls : Extern → Sched × Cpu → Sched × Cpu) (isrTable : Nat → Nat) (y : Shared)
    (op : CoreOp) : Option Shared :=
  (coreStep calls isrTable y.core op).map fun core =>
    { core := core, programs := programsAfter y.core.sched.currentTask y.programs op }

/-- The bytes an interrupt needs below the stack pointer of a program:
the frame, its alignment, and `depth` for the C functions. -/
def interruptRoom (depth : Nat) : Nat := depth + interruptFrameSize + 15

/-- What the running task and the hardware promise. A task stays in ring
0 and writes to no other task's stack. A device interrupts a program
only if the program lets it, and a page fault is one the kernel handles;
both find room on the task's stack. -/
def CoreOp.Allowed (areas : StackAreas) (depth : Nat) (y : Shared) : CoreOp → Prop
  | .work program mem =>
      program.Valid ∧ program.cs % 4 = 0
        ∧ ∀ u, y.core.sched.currentTask ≠ some u → ∀ x, areas.On u x →
          mem x = y.core.sched.stack x
  | .interrupt vector _ =>
      vector < isrVectorCount
        ∧ (vector = exceptionPageFault ∨ irqBaseVector ≤ vector ∧ y.core.program.rflags.testBit 9)
        ∧ ∀ t, y.core.sched.currentTask = some t →
          areas.lo t + interruptRoom depth ≤ y.core.program.regs .rsp
            ∧ y.core.program.regs .rsp ≤ areas.hi t

end ZenithOS.Interrupt
