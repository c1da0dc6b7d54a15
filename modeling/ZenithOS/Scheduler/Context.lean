/-
The register switches: `scheduler/context.asm`, `scheduler/context.c`
and the exit of `cpu/isr.asm`, instruction by instruction.

# Representation

The macros are functions to instruction lists, the labels are routines.
The memory is the one the kernel stacks, the `task_t` objects and
`boot_context` lie in; a `cpu_context_t` is read out of it by
`loadContext`. The frame these routines pop is the one
`schedulerBuildContextInterruptRsp` writes or an interrupt has pushed.

`context_start` is called by nothing and is not modelled.
-/
import ZenithOS.Lib.X86
import ZenithOS.Scheduler.Basic

namespace ZenithOS.Scheduler.Asm

open Lib Lib.X86

-- ============================================================ context.h

/-- `CTX_RSP`. -/
def ctxRsp : Nat := 0

/-- `CTX_RBX`. -/
def ctxRbx : Nat := 8

/-- `CTX_RBP`. -/
def ctxRbp : Nat := 16

/-- `CTX_R12`. -/
def ctxR12 : Nat := 24

/-- `CTX_R13`. -/
def ctxR13 : Nat := 32

/-- `CTX_R14`. -/
def ctxR14 : Nat := 40

/-- `CTX_R15`. -/
def ctxR15 : Nat := 48

/-- `sizeof(cpu_context_t)`. -/
def cpuContextSize : Nat := 56

/-- The `cpu_context_t` at `context`. -/
def loadContext (m : Mem) (context : Nat) : CpuContext where
  rsp := loadWord m (context + ctxRsp)
  rbx := loadWord m (context + ctxRbx)
  rbp := loadWord m (context + ctxRbp)
  r12 := loadWord m (context + ctxR12)
  r13 := loadWord m (context + ctxR13)
  r14 := loadWord m (context + ctxR14)
  r15 := loadWord m (context + ctxR15)

/-- The registers a `cpu_context_t` is for. -/
def contextRegs (c : Cpu) : CpuContext where
  rsp := c.regs .rsp
  rbx := c.regs .rbx
  rbp := c.regs .rbp
  r12 := c.regs .r12
  r13 := c.regs .r13
  r14 := c.regs .r14
  r15 := c.regs .r15

-- ============================================================ context.c

/-- `context_init`. -/
def contextInit (m : Mem) (context entry stackTop : Nat) : Mem :=
  let m := fill m context 0#8 cpuContextSize
  let stack := wordSub stackTop 8
  let m := storeWord m stack 0
  let stack := wordSub stack 8
  let m := storeWord m stack entry
  storeWord m (context + ctxRsp) stack

-- ========================================================== context.asm

/-- The one function the switches call. -/
inductive Extern
  | schedulerTraceContextSwitchEntry

/-- `SAVE_CONTEXT`. -/
def saveContext (context : Reg) : List (Instr Extern) :=
  [.lea .rax .rsp 0,
   .store context ctxRsp .rax,
   .store context ctxRbx .rbx,
   .store context ctxRbp .rbp,
   .store context ctxR12 .r12,
   .store context ctxR13 .r13,
   .store context ctxR14 .r14,
   .store context ctxR15 .r15]

/-- `RESTORE_CONTEXT`. -/
def restoreContext (context : Reg) : List (Instr Extern) :=
  [.load .rsp context ctxRsp,
   .load .rbx context ctxRbx,
   .load .rbp context ctxRbp,
   .load .r12 context ctxR12,
   .load .r13 context ctxR13,
   .load .r14 context ctxR14,
   .load .r15 context ctxR15]

/-- `POP_INTERRUPT_REGS`, and `POP_REGS` of `isr.asm`. -/
def popInterruptRegs : List (Instr Extern) :=
  [.pop .r15, .pop .r14, .pop .r13, .pop .r12, .pop .r11, .pop .r10, .pop .r9, .pop .r8,
   .pop .rdi, .pop .rsi, .pop .rbp, .pop .rdx, .pop .rcx, .pop .rbx, .pop .rax]

/-- `context_switch`: `rdi` is the old context, `rsi` the new one. -/
def contextSwitch : Routine Extern where
  body :=
    [.push .rdi, .push .rsi, .call .schedulerTraceContextSwitchEntry, .pop .rsi, .pop .rdi]
      ++ saveContext .rdi ++ restoreContext .rsi ++ [.sti]
  exit := .ret

/-- `context_switch_to_interrupt`: `rdi` is the old context, `rsi` the
stack pointer of the next task's frame. -/
def contextSwitchToInterrupt : Routine Extern where
  body := saveContext .rdi ++ [.mov .rsp .rsi] ++ popInterruptRegs ++ [.add .rsp 16]
  exit := .iretq

/-- `context_resume_from_interrupt`: `rdi` is the context. -/
def contextResumeFromInterrupt : Routine Extern where
  body := restoreContext .rdi ++ [.sti]
  exit := .ret

-- ============================================================== isr.asm

/-- `common_isr_exit`: `r12` is the stack pointer of the frame. -/
def commonIsrExit : Routine Extern where
  body := [.mov .rsp .r12] ++ popInterruptRegs ++ [.add .rsp 16]
  exit := .iretq

end ZenithOS.Scheduler.Asm
