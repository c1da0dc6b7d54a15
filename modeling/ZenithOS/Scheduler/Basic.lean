/-
The scheduler: `scheduler/queue.c`, `scheduler/task.c`,
`scheduler/scheduler.c`, the part of `vmm/page_table.c` and `cpu/tss.c`
a switch touches, and the timer path of `cpu/isr.asm`.

# Representation

A `task_t *` is an index into `tasks`, and stands for the object's
address where the code uses one; the objects `task_create` has
returned are those below `taskCount`, and they are never freed. `NULL`
is `none`. All queues go through the one link field `task->next`, so a
queue is a head pointer and the queue functions are `Lib.pushBack` and
`Lib.unlink` on that field; a queue function that does not return
(links that never end) is `none`.

What runs next is part of the result of a switch: `Resume` says whether
the processor goes on with the interrupted instruction stream, with a
saved `cpu_context_t` (`context_switch`, or the trampoline frame that
leads to `context_resume_from_interrupt`), or with an interrupt frame
(`context_switch_to_interrupt`, `common_isr_exit`). The callee-saved
registers a task holds when it gives up the processor are an input:
what a task computes between two scheduler calls is up to the task.

The `kprintf` lines, and `last_rsp0`, which only guards one of them, are
not modelled.
-/
import ZenithOS.Lib.Intrusive
import ZenithOS.Lib.Mem
import ZenithOS.Proc.Types

namespace ZenithOS.Scheduler

open Lib Mm Proc

-- ================================================================ types

/-- `task_state_t`. -/
inductive TaskState
  | ready
  | running
  | blocked
  | sleeping
  | terminated
  | idle
  deriving DecidableEq, Repr

/-- `task_resume_mode_t`. -/
inductive TaskResumeMode
  | context
  | interrupt
  deriving DecidableEq, Repr

/-- `cpu_context_t`. -/
structure CpuContext where
  rsp : Nat := 0
  rbx : Nat := 0
  rbp : Nat := 0
  r12 : Nat := 0
  r13 : Nat := 0
  r14 : Nat := 0
  r15 : Nat := 0
  deriving DecidableEq, Repr

/-- A `task_t *` that is not `NULL`. -/
abbrev TaskPtr := Nat

/-- A `process_t *` that is not `NULL`. -/
abbrev ProcessPtr := Nat

/-- `task_t`. -/
structure Task where
  id : Nat := 0
  context : CpuContext := {}
  interruptRsp : Nat := null
  entry : Nat := 0
  kernelStack : Nat := 0
  kernelStackSize : Nat := 0
  state : TaskState := .ready
  next : Option TaskPtr := none
  wakeTick : Nat := 0
  resumeMode : TaskResumeMode := .context
  process : Option ProcessPtr := none

/-- `KERNEL_STACK_SIZE`. -/
def kernelStackSize : Nat := 16 * 1024

/-- `SCHEDULER_TIME_SLICE`. -/
def schedulerTimeSlice : Nat := 10

/-- The file-scope state of `scheduler.c`, the objects its pointers
reach, `system_ticks`, `active_pml4_physical` with CR3 behind it, and
`kernel_tss.rsp0`. `stack` is the memory kernel stacks live in. -/
structure Sched where
  tasks : TaskPtr → Task
  taskCount : Nat
  processes : ProcessPtr → Process
  readyQueue : Option TaskPtr
  currentTask : Option TaskPtr
  idle : Option TaskPtr
  blockedQueue : Option TaskPtr
  sleepQueue : Option TaskPtr
  pendingTask : Option TaskPtr
  preemptionTicks : Nat
  preemptionRequested : Bool
  bootContext : CpuContext
  systemTicks : Nat
  activePml4Physical : Nat
  cr3 : Nat
  tssRsp0 : Nat
  stack : Mem

/-- Where execution goes on after a scheduler call. -/
inductive Resume
  | caller
  | context (task : TaskPtr) (context : CpuContext)
  | interrupt (task : TaskPtr) (rsp : Nat)
  deriving DecidableEq, Repr

-- ============================================================ task_t access

/-- Write one task object. -/
@[simps]
def setTask (s : Sched) (t : TaskPtr) (task : Task) : Sched :=
  { s with tasks := Function.update s.tasks t task }

/-- Assigns `task->state`. -/
def setState (s : Sched) (t : TaskPtr) (state : TaskState) : Sched :=
  setTask s t { s.tasks t with state := state }

/-- The link field of every task. -/
def links (s : Sched) : TaskPtr → Option TaskPtr :=
  fun t => (s.tasks t).next

/-- Write the link field of every task. -/
@[simps]
def setLinks (s : Sched) (next : TaskPtr → Option TaskPtr) : Sched :=
  { s with tasks := fun t => { s.tasks t with next := next t } }

-- ============================================================== queue.c

/-- `task_queue_push` on the queue at `head`; the new head is returned. -/
def taskQueuePush (s : Sched) (head : Option TaskPtr) (t : TaskPtr) :
    Option (Sched × Option TaskPtr) :=
  (pushBack (links s) s.taskCount head t).map fun (next, head) =>
    (setLinks s next, head)

/-- `task_queue_remove` on the queue at `head`. -/
def taskQueueRemove (s : Sched) (head : Option TaskPtr) (t : TaskPtr) :
    Option (Sched × Option TaskPtr) :=
  (unlink (links s) s.taskCount head t).map fun (next, head) =>
    (setLinks s next, head)

/-- `task_queue_push` onto the ready queue. -/
def readyPush (s : Sched) (t : TaskPtr) : Option Sched :=
  (taskQueuePush s s.readyQueue t).map fun (s, head) =>
    { s with readyQueue := head }

/-- `task_queue_push` onto the blocked queue. -/
def blockedPush (s : Sched) (t : TaskPtr) : Option Sched :=
  (taskQueuePush s s.blockedQueue t).map fun (s, head) =>
    { s with blockedQueue := head }

/-- `scheduler_sleep_queue_add`. -/
def schedulerSleepQueueAdd (s : Sched) (t : TaskPtr) : Option Sched :=
  (taskQueuePush s s.sleepQueue t).map fun (s, head) =>
    { s with sleepQueue := head }

/-- `task_queue_remove` from the blocked queue. -/
def blockedRemove (s : Sched) (t : TaskPtr) : Option Sched :=
  (taskQueueRemove s s.blockedQueue t).map fun (s, head) =>
    { s with blockedQueue := head }

/-- `task_queue_remove` from the sleep queue. -/
def sleepRemove (s : Sched) (t : TaskPtr) : Option Sched :=
  (taskQueueRemove s s.sleepQueue t).map fun (s, head) =>
    { s with sleepQueue := head }

/-- `scheduler_ready_queue_pop`. -/
def schedulerReadyQueuePop (s : Sched) : Sched :=
  match s.readyQueue with
  | none => s
  | some t =>
      let s := { s with readyQueue := (s.tasks t).next }
      setTask s t { s.tasks t with next := none }

-- =============================================================== task.c

/-- `task_create` once its two allocations have succeeded: `stack` is
the stack's address and `entry` the task's entry. The new object is
`s.taskCount`; `context_init` leaves `entry` above a zero return address
on the stack. -/
def taskCreate (s : Sched) (id entry stack : Nat) (process : Option ProcessPtr) :
    Sched :=
  let stackTop := stack + kernelStackSize
  let s := setTask s s.taskCount
    { id := id, entry := entry, kernelStack := stack
      kernelStackSize := kernelStackSize, state := .ready, next := none
      wakeTick := 0, interruptRsp := null, resumeMode := .context
      process := process
      context := { rsp := stackTop - 16 } }
  { s with
    taskCount := s.taskCount + 1
    stack := storeWord (storeWord s.stack (stackTop - 8) 0) (stackTop - 16) entry }

/-- `task_resume_uses_interrupt_frame`. -/
def taskResumeUsesInterruptFrame (task : Task) : Bool :=
  task.resumeMode == .interrupt && task.interruptRsp != null

-- ========================================================== scheduler.c

/-- `scheduler_reset_resume_state`. -/
def schedulerResetResumeState (s : Sched) (t : TaskPtr) : Sched :=
  setTask s t { s.tasks t with interruptRsp := null, resumeMode := .context }

/-- `page_table_switch`. -/
def pageTableSwitch (s : Sched) (physicalPml4 : Nat) : Sched :=
  if physicalPml4 = 0 then s
  else if s.activePml4Physical = physicalPml4 then s
  else { s with cr3 := physicalPml4, activePml4Physical := physicalPml4 }

/-- `tss_set_rsp0`. -/
def tssSetRsp0 (s : Sched) (rsp0 : Nat) : Sched :=
  { s with tssRsp0 := rsp0 }

/-- The ring-0 stack top of a task. -/
def kernelStackTop (task : Task) : Nat :=
  (task.kernelStack + task.kernelStackSize) % 2 ^ 64

/-- Switch to the address space of the task's process, if it has one. -/
def switchAddressSpace (s : Sched) (t : TaskPtr) : Sched :=
  match (s.tasks t).process with
  | some process => pageTableSwitch s (s.processes process).pageTablePhysical
  | none => s

/-- `scheduler_switch_to`. -/
def schedulerSwitchTo (s : Sched) (next : Option TaskPtr) :
    Option TaskPtr × Sched :=
  match next with
  | none => (none, s)
  | some t =>
      let s := switchAddressSpace s t
      let s := tssSetRsp0 s (kernelStackTop (s.tasks t))
      let s := { s with currentTask := some t, preemptionTicks := 0 }
      let s := if s.currentTask ≠ s.idle then setState s t .running else s
      (s.currentTask, s)

/-- `scheduler_init`, `task_create` of the idle task having succeeded
with the stack at `stack`. -/
def schedulerInit (s : Sched) (id entry stack : Nat) : Sched :=
  let i := s.taskCount
  let s := taskCreate s id entry stack none
  let s := setTask s i { s.tasks i with state := .idle, next := none }
  { s with
    readyQueue := none, currentTask := none, blockedQueue := none
    sleepQueue := none, pendingTask := none, preemptionTicks := 0
    preemptionRequested := false, idle := some i }

/-- `scheduler_add_task`. -/
def schedulerAddTask (s : Sched) (task : Option TaskPtr) : Option Sched :=
  match task with
  | none => some s
  | some t => readyPush (setState s t .ready) t

/-- `scheduler_get_next_task`. -/
def schedulerGetNextTask (s : Sched) : Option TaskPtr :=
  match s.readyQueue with
  | some t => some t
  | none => s.idle

/-- `scheduler_schedule`. -/
def schedulerSchedule (s : Sched) : Option TaskPtr × Sched :=
  match schedulerGetNextTask s with
  | none => (none, s)
  | some next =>
      let s := if some next ≠ s.idle then schedulerReadyQueuePop s else s
      schedulerSwitchTo s (some next)

/-- The first half of `scheduler_yield`: a running task that is not
idle goes back to the ready queue. -/
def schedulerRequeue (s : Sched) : Option Sched :=
  match s.currentTask with
  | none => some s
  | some t =>
      if some t ≠ s.idle ∧ (s.tasks t).state = .running then
        readyPush (schedulerResetResumeState (setState s t .ready) t) t
      else some s

/-- The register save of `context_switch` and
`context_switch_to_interrupt`, into the previous task's context or, when
there was none, into `boot_context`. -/
def saveContext (s : Sched) (previous : Option TaskPtr) (regs : CpuContext) :
    Sched :=
  match previous with
  | some t => setTask s t { s.tasks t with context := regs }
  | none => { s with bootContext := regs }

/-- The second half of `scheduler_yield`, from `scheduler_schedule` on;
`regs` are the registers the switch saves. -/
def schedulerDispatch (s : Sched) (regs : CpuContext) : Resume × Sched :=
  let previous := s.currentTask
  match schedulerSchedule s with
  | (none, s) => (.caller, s)
  | (some next, s) =>
      if some next = previous then (.caller, s)
      else
        let task := s.tasks next
        let s := saveContext s previous regs
        if taskResumeUsesInterruptFrame task then
          (.interrupt next task.interruptRsp, s)
        else (.context next task.context, s)

/-- `scheduler_yield`. -/
def schedulerYield (s : Sched) (regs : CpuContext) : Option (Resume × Sched) :=
  (schedulerRequeue s).map fun s => schedulerDispatch s regs

/-- `scheduler_block_current_locked`. -/
def schedulerBlockCurrentLocked (s : Sched) (regs : CpuContext) :
    Option (Resume × Sched) :=
  match s.currentTask with
  | none => some (.caller, s)
  | some t =>
      if some t = s.idle then some (.caller, s)
      else do
        let s ← blockedPush (setState s t .blocked) t
        schedulerYield s regs

/-- `scheduler_unblock` after its state test has passed. -/
def schedulerUnblockLocked (s : Sched) (t : TaskPtr) : Option Sched := do
  let s ← blockedRemove s t
  readyPush (schedulerResetResumeState (setState s t .ready) t) t

/-- `scheduler_unblock`. -/
def schedulerUnblock (s : Sched) (task : Option TaskPtr) : Option Sched :=
  match task with
  | none => some s
  | some t =>
      if (s.tasks t).state ≠ .blocked then some s
      else schedulerUnblockLocked s t

/-- `scheduler_sleep`. -/
def schedulerSleep (s : Sched) (ticks : Nat) (regs : CpuContext) :
    Option (Resume × Sched) :=
  match s.currentTask with
  | none => some (.caller, s)
  | some t =>
      if some t = s.idle then some (.caller, s)
      else do
        let s := setTask s t { s.tasks t with
          wakeTick := (s.systemTicks + ticks) % 2 ^ 64, state := .sleeping }
        let s ← schedulerSleepQueueAdd s t
        schedulerYield s regs

/-- `task_exit` of the current task. -/
def taskExit (s : Sched) (regs : CpuContext) : Option (Resume × Sched) :=
  match s.currentTask with
  | none => some (.caller, s)
  | some t => schedulerYield (setState s t .terminated) regs

/-- Wake one sleeping task. -/
def wakeTask (s : Sched) (t : TaskPtr) : Option Sched := do
  let s ← sleepRemove s t
  readyPush (schedulerResetResumeState (setState s t .ready) t) t

/-- The loop of `scheduler_check_sleeping_tasks` from `task` on: the
successor is read before the task is moved. -/
def checkSleepingFrom : Nat → Option TaskPtr → Sched → Option Sched
  | _, none, s => some s
  | 0, some _, _ => none
  | fuel + 1, some t, s => do
      let next := (s.tasks t).next
      let s ← if s.systemTicks ≥ (s.tasks t).wakeTick then wakeTask s t else some s
      checkSleepingFrom fuel next s

/-- `scheduler_check_sleeping_tasks`, which is all of `scheduler_tick`. -/
def schedulerTick (s : Sched) : Option Sched :=
  checkSleepingFrom s.taskCount s.sleepQueue s

/-- `scheduler_preempt` with a non-`NULL` context. -/
def schedulerPreempt (s : Sched) : Sched :=
  if s.currentTask = none ∨ s.currentTask = s.idle then s
  else if s.preemptionTicks + 1 < schedulerTimeSlice then
    { s with preemptionTicks := s.preemptionTicks + 1 }
  else if s.readyQueue = none then { s with preemptionTicks := 0 }
  else { s with preemptionTicks := 0, preemptionRequested := true }

/-- `scheduler_save_interrupt_context`. -/
def schedulerSaveInterruptContext (s : Sched) (interruptRsp : Nat) : Sched :=
  match s.currentTask with
  | none => s
  | some t =>
      if some t = s.idle then s
      else setTask s t
        { s.tasks t with interruptRsp := interruptRsp, resumeMode := .interrupt }

/-- `sizeof(kernel_interrupt_frame_t)`: fifteen registers, the vector
and error code, and the five words the processor pushes. -/
def interruptFrameSize : Nat := 176

/-- The address of a frame right below a stack pointer. -/
def interruptFrameBelow (rsp : Nat) : Nat :=
  (rsp + 2 ^ 64 - interruptFrameSize) % 2 ^ 64

/-- `&task->context`, as the frame's `rdi` carries it: the object's
address and the offset `task.c` asserts for the field. -/
def taskContextAddress (t : TaskPtr) : Nat := t + 8

/-- `KERNEL_CODE_SELECTOR`. -/
def kernelCodeSelector : Nat := 0x08

/-- `KERNEL_TRAMPOLINE_RFLAGS`. -/
def kernelTrampolineRflags : Nat := 0x02

/-- `USER_CODE_SELECTOR`. -/
def userCodeSelector : Nat := 0x18

/-- `USER_DATA_SELECTOR`. -/
def userDataSelector : Nat := 0x20

/-- `scheduler_build_context_interrupt_rsp`: a zeroed frame below the
saved stack pointer, aimed at `context_resume_from_interrupt`
(`trampoline`) or, for a user process, at its user entry. -/
def schedulerBuildContextInterruptRsp (trampoline : Nat) (s : Sched)
    (t : TaskPtr) : Nat × Sched :=
  let task := s.tasks t
  if task.context.rsp = 0 then (null, s)
  else
    let frame := interruptFrameBelow task.context.rsp
    let m := fill s.stack frame 0#8 interruptFrameSize
    let m := storeWord m (frame + 64) (taskContextAddress t)
    let m :=
      match task.process with
      | some pr =>
          let process := s.processes pr
          if process.isUserProcess then
            let m := storeWord m (frame + 136) process.userRip
            let m := storeWord m (frame + 160) process.userRsp
            let m := storeWord m (frame + 152) process.userRflags
            let m := storeWord m (frame + 144) (userCodeSelector ||| 3)
            storeWord m (frame + 168) (userDataSelector ||| 3)
          else
            let m := storeWord m (frame + 136) trampoline
            let m := storeWord m (frame + 144) kernelCodeSelector
            storeWord m (frame + 152) kernelTrampolineRflags
      | none =>
          let m := storeWord m (frame + 136) trampoline
          let m := storeWord m (frame + 144) kernelCodeSelector
          storeWord m (frame + 152) kernelTrampolineRflags
    (frame, { s with stack := m })

/-- Set `user_started` of the process at `pr`. -/
def setUserStarted (s : Sched) (pr : ProcessPtr) : Sched :=
  let process := { s.processes pr with userStarted := true }
  { s with processes := Function.update s.processes pr process }

/-- The stack pointer `scheduler_get_next_interrupt_rsp` resumes `next`
from. -/
def nextInterruptRsp (trampoline : Nat) (s : Sched) (next : TaskPtr) :
    Nat × Sched :=
  let task := s.tasks next
  let kernelRsp :=
    if taskResumeUsesInterruptFrame task then (task.interruptRsp, s)
    else schedulerBuildContextInterruptRsp trampoline s next
  match task.process with
  | some pr =>
      if (s.processes pr).isUserProcess then
        if !(s.processes pr).userStarted then
          schedulerBuildContextInterruptRsp trampoline (setUserStarted s pr) next
        else (task.interruptRsp, s)
      else kernelRsp
  | none => kernelRsp

/-- The previous task's half of `scheduler_get_next_interrupt_rsp`: a
running task that is not idle goes back to the ready queue. -/
def preemptRequeue (s : Sched) : Option Sched :=
  match s.currentTask with
  | none => some s
  | some t =>
      if some t ≠ s.idle ∧ (s.tasks t).state = .running then
        readyPush (setState s t .ready) t
      else some s

/-- `scheduler_get_next_interrupt_rsp`. -/
def schedulerGetNextInterruptRsp (trampoline : Nat) (s : Sched) :
    Option (Nat × Sched) :=
  if !s.preemptionRequested then some (null, s)
  else
    match schedulerGetNextTask s with
    | none => some (null, { s with preemptionRequested := false })
    | some next =>
        if some next = s.idle then
          some (null, { s with preemptionRequested := false })
        else
          let (rsp, s) := nextInterruptRsp trampoline s next
          if rsp = null then some (null, { s with preemptionRequested := false })
          else
            (preemptRequeue (schedulerReadyQueuePop s)).map fun s =>
              (rsp, { s with pendingTask := some next, preemptionRequested := false })

/-- `scheduler_commit_pending_task`. -/
def schedulerCommitPendingTask (s : Sched) : Sched :=
  match s.pendingTask with
  | none => s
  | some t =>
      let s := { s with currentTask := some t, preemptionTicks := 0 }
      let s := if s.currentTask ≠ s.idle then setState s t .running else s
      { s with pendingTask := none }

/-- What `common_isr_entry` does after `isr_dispatch`, for any vector:
the resume point is the interrupted stream unless a task is pending. -/
def isrExit (trampoline : Nat) (s : Sched) (interruptRsp : Nat) :
    Option (Resume × Sched) := do
  let s := schedulerSaveInterruptContext s interruptRsp
  let (rsp, s) ← schedulerGetNextInterruptRsp trampoline s
  if rsp = null then some (.caller, s)
  else
    let s := schedulerCommitPendingTask s
    match s.currentTask with
    | none => some (.caller, s)
    | some t => some (.interrupt t rsp, s)

/-- `system_ticks++` of `pit_irq_handler`. -/
def tickSystem (s : Sched) : Sched :=
  { s with systemTicks := (s.systemTicks + 1) % 2 ^ 64 }

/-- A timer interrupt taken with the frame at `interruptRsp`:
`pit_irq_handler` inside `isr_dispatch`, then the exit path. -/
def timerInterrupt (trampoline : Nat) (s : Sched) (interruptRsp : Nat) :
    Option (Resume × Sched) := do
  let s ← schedulerTick (tickSystem s)
  isrExit trampoline (schedulerPreempt s) interruptRsp

end ZenithOS.Scheduler
