/-
The interrupt path: `cpu/isr.asm` instruction by instruction, with
`isr_dispatch` (`cpu/isr.c`), `exception_dispatch` and `irq_dispatch`
for what they do to the scheduler.

# Representation

The labels of `isr.asm` are blocks of `Lib.X86` code with labels; `isr
v` is the stub the macros make for vector `v`. The four C functions the
code calls are parameters, held to what the model of the scheduler says
of them (`CompiledKernel`); the memory is the one the kernel stacks lie
in, `Sched.stack`. `interrupt` is one interrupt from the program it
takes the processor away from to the program it returns to.

A fault that `page_fault_handler` cannot handle, and every other
exception, ends in `kernel_panic`, which does not return. The end of
interrupt the PIC is sent and the devices' own state are not part of
this model; `Interrupt.Irq` has the former.
-/
import ZenithOS.Interrupt.Irq
import ZenithOS.Lib.Interrupt
import ZenithOS.Scheduler.Basic

namespace ZenithOS.Interrupt

open Lib Lib.X86 Mm Scheduler

-- ================================================== interrupt_context.h

/-- The fields of `registers_t`. -/
def registersFields : List Reg :=
  [.r15, .r14, .r13, .r12, .r11, .r10, .r9, .r8, .rdi, .rsi, .rbp, .rdx, .rcx, .rbx, .rax]

/-- The offset of a register's field. -/
def registerOffset (r : Reg) : Nat := 8 * registersFields.idxOf r

/-- `interrupt_context_t`; `frame.rsp` is the `rsp` of `regs`. -/
structure InterruptContext where
  regs : Reg → Nat
  interruptNumber : Nat
  errorCode : Nat
  rip : Nat
  cs : Nat
  rflags : Nat
  ss : Nat

/-- The `interrupt_context_t` at `a`. -/
def loadInterruptContext (m : Mem) (a : Nat) : InterruptContext where
  regs r := if r = .rsp then loadWord m (a + 160) else loadWord m (a + registerOffset r)
  interruptNumber := loadWord m (a + 120)
  errorCode := loadWord m (a + 128)
  rip := loadWord m (a + 136)
  cs := loadWord m (a + 144)
  rflags := loadWord m (a + 152)
  ss := loadWord m (a + 168)

/-- The program a frame is of. -/
def InterruptContext.program (c : InterruptContext) : Context where
  regs := c.regs
  rip := c.rip
  cs := c.cs % 2 ^ 16
  rflags := c.rflags
  ss := c.ss % 2 ^ 16

-- ============================================================== isr.asm

/-- The functions `isr.asm` calls. -/
inductive Extern
  | isrDispatch
  | schedulerSaveInterruptContext
  | schedulerGetNextInterruptRsp
  | schedulerCommitPendingTask

/-- The labels of `isr.asm`. -/
inductive Label
  | isr (vector : Nat)
  | commonIsrEntry
  /-- What follows `jz common_isr_exit`. -/
  | commitPending
  | commonIsrExit

/-- `PUSH_REGS`. -/
def pushRegs : List (Instr Empty) :=
  [.push .rax, .push .rbx, .push .rcx, .push .rdx, .push .rbp, .push .rsi, .push .rdi,
   .push .r8, .push .r9, .push .r10, .push .r11, .push .r12, .push .r13, .push .r14, .push .r15]

/-- `POP_REGS`. -/
def popRegs : List (Instr Empty) :=
  [.pop .r15, .pop .r14, .pop .r13, .pop .r12, .pop .r11, .pop .r10, .pop .r9, .pop .r8,
   .pop .rdi, .pop .rsi, .pop .rbp, .pop .rdx, .pop .rcx, .pop .rbx, .pop .rax]

/-- The vectors declared with `ISR_ERROR`. -/
def isrErrorVectors : List Nat := [8, 10, 11, 12, 13, 14, 17, 21, 29, 30]

/-- `ISR_COUNT` stubs are declared. -/
def isrVectorCount : Nat := 48

/-- `ISR_NO_ERROR`. -/
def isrNoError (vector : Nat) : List (Op Extern) := [.pushImm 0, .pushImm vector]

/-- `ISR_ERROR`. -/
def isrError (vector : Nat) : List (Op Extern) := [.pushImm vector]

/-- `isr.asm`: the stubs and the common entry and exit. -/
def isrCode : Label → Block Extern Label
  | .isr vector =>
      { body := if vector ∈ isrErrorVectors then isrError vector else isrNoError vector
        jump := .jmp .commonIsrEntry }
  | .commonIsrEntry =>
      { body := pushRegs.map .instr ++
          [.instr (.mov .rdi .rsp), .instr (.mov .r12 .rsp), .andImm .rsp (2 ^ 64 - 16),
           .call .isrDispatch,
           .instr (.mov .rdi .r12), .call .schedulerSaveInterruptContext,
           .call .schedulerGetNextInterruptRsp]
        jump := .jz .rax .commonIsrExit .commitPending }
  | .commitPending =>
      { body := [.instr (.mov .r12 .rax), .call .schedulerCommitPendingTask]
        jump := .jmp .commonIsrExit }
  | .commonIsrExit =>
      { body := [.instr (.mov .rsp .r12)] ++ popRegs.map .instr ++ [.instr (.add .rsp 16)]
        jump := .exit .iretq }

-- ================================================================ isr.c

/-- `EXCEPTION_PAGE_FAULT`. -/
def exceptionPageFault : Nat := 14

/-- `pit_irq_handler`. -/
def pitIrqHandler (s : Sched) : Option Sched :=
  (schedulerTick (tickSystem s)).map schedulerPreempt

/-- The handlers registered at boot, for what they do to the scheduler:
that of the timer line, and those of the keyboard and the mouse. -/
def irqHandlers (line : Nat) : Option (Sched → Option Sched) :=
  if line = irqTimerLine then some pitIrqHandler
  else if line = irqKeyboardLine ∨ line = irqMouseLine then some some
  else none

/-- `exception_dispatch`, the page fault being one that is handled. -/
def exceptionDispatch (number : Nat) (s : Sched) : Option Sched :=
  if number = exceptionPageFault then some s else none

/-- `isr_dispatch`. -/
def isrDispatch (context : InterruptContext) (s : Sched) : Option Sched :=
  if context.interruptNumber < 32 then exceptionDispatch context.interruptNumber s
  else irqDispatch irqHandlers (fun _ s => s) context.interruptNumber s

-- ============================================================ the calls

/-- A function on the scheduler's state and the memory in it. -/
def onStack (f : Sched → Option (Option Nat × Sched)) (s : Sched) (m : Mem) :
    Option (Option Nat × Sched × Mem) :=
  (f { s with stack := m }).map fun p => (p.1, p.2, p.2.stack)

/-- The calls run what the C functions compile to. -/
structure CompiledKernel (depth trampoline : Nat) (calls : Extern → Sched × Cpu → Sched × Cpu) :
    Prop where
  dispatch : Compiled depth
    (fun context => onStack fun s =>
      (isrDispatch (loadInterruptContext s.stack context) s).map fun s => (none, s))
    (calls .isrDispatch)
  save : Compiled depth
    (fun rsp => onStack fun s => some (none, schedulerSaveInterruptContext s rsp))
    (calls .schedulerSaveInterruptContext)
  next : Compiled depth
    (fun _ => onStack fun s =>
      (schedulerGetNextInterruptRsp trampoline s).map fun p => (some p.1, p.2))
    (calls .schedulerGetNextInterruptRsp)
  commit : Compiled depth
    (fun _ => onStack fun s => some (none, schedulerCommitPendingTask s))
    (calls .schedulerCommitPendingTask)

/-- A call that does what the function does and needs no stack. -/
def plainCall (f : Nat → Sched → Option (Option Nat × Sched)) (p : Sched × Cpu) : Sched × Cpu :=
  match f (p.2.regs .rdi) { p.1 with stack := p.2.mem } with
  | none => p
  | some (none, s) => (s, { p.2 with mem := s.stack })
  | some (some v, s) => (s, { p.2.set .rax v with mem := s.stack })

/-- All four calls made so. -/
def plainCalls (trampoline : Nat) : Extern → Sched × Cpu → Sched × Cpu
  | .isrDispatch =>
      plainCall fun context s =>
        (isrDispatch (loadInterruptContext s.stack context) s).map fun s => (none, s)
  | .schedulerSaveInterruptContext =>
      plainCall fun rsp s => some (none, schedulerSaveInterruptContext s rsp)
  | .schedulerGetNextInterruptRsp =>
      plainCall fun _ s =>
        (schedulerGetNextInterruptRsp trampoline s).map fun p => (some p.1, p.2)
  | .schedulerCommitPendingTask =>
      plainCall fun _ s => some (none, schedulerCommitPendingTask s)

/-- The exceptions for which the processor pushes an error code: #DF, #TS,
#NP, #SS, #GP, #PF, #AC, #CP, #VC and #SX. -/
def errorCodeVectors : List Nat := [8, 10, 11, 12, 13, 14, 17, 21, 29, 30]

/-- The error code the processor pushes for a vector. -/
def errorCodeOf (vector error : Nat) : Option Nat :=
  if vector ∈ errorCodeVectors then some error else none

/-- One interrupt: the program and the scheduler it leads to. `isrTable`
has the addresses of the stubs. -/
def interrupt (calls : Extern → Sched × Cpu → Sched × Cpu) (isrTable : Nat → Nat)
    (vector error : Nat) (k : Context) (s : Sched) : Option (Context × Sched) :=
  let gate := ⟨isrTable vector, kernelCodeSelector⟩
  let c := deliver s.tssRsp0 gate (errorCodeOf vector error) k s.stack
  match runFrom calls isrCode 4 (.isr vector) (s, c) with
  | some (.iretq, s', c') => (iret c').map fun k' => (k', { s' with stack := c'.mem })
  | _ => none

end ZenithOS.Interrupt
