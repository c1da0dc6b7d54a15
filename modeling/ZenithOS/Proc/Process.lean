/-
Processes: `process/process.c`, and the allocations of `task_create` in
`scheduler/task.c`.

# State

A `Kernel` is the heap, with the page allocator and the page tables
behind it, and the scheduler, with the tasks and the `process_t` objects;
`processList`, `nextPid` and `nextTaskId` are the file-scope variables of
the two source files. A `process_t *` is its address. A task is named by
its index, as the scheduler names it; where `process_t` points to it, by
the address of its `task_t`.

# Failures

Any allocation and any mapping that `process_create` makes can be made to
fail (`CreateFailures`), beyond what the state of the allocators does.

# The frames taken

`process_create` takes frames for the root table, the stack page and the
first heap page. Which ones is part of the result here: the code keeps no
such record.
-/
import ZenithOS.Proc.Memory
import ZenithOS.Scheduler.Basic

namespace ZenithOS.Proc

open Lib Mm Vmm Klib Scheduler

/-- `sizeof(process_t)`. -/
def processBytes : Nat := 744

/-- `sizeof(task_t)`. -/
def taskBytes : Nat := 136

/-- The heap, the scheduler with its tasks and processes, and the variables
of `process.c`. -/
structure Kernel where
  heap : Heap
  sched : Sched
  processList : Nat
  nextPid : Nat
  nextTaskId : Nat

/-- The page tables and the page allocator. -/
abbrev Kernel.vm (k : Kernel) : Vm := k.heap.vm

/-- The page tables and the page allocator move on. -/
def Kernel.withVm (k : Kernel) (v : Vm) : Kernel :=
  { k with heap := { k.heap with vm := v } }

/-- The scheduler moves on, and CR3 and the active root with it. -/
def Kernel.withSched (k : Kernel) (s : Sched) : Kernel :=
  { k.withVm { k.vm with activePml4Physical := s.activePml4Physical, cr3 := s.cr3 } with
    sched := s }

/-- `*p`. -/
abbrev Kernel.process (k : Kernel) (p : Nat) : Process := k.sched.processes p

/-- The processes get new fields. -/
def Kernel.withProcesses (k : Kernel) (processes : Nat → Process) : Kernel :=
  { k with sched := { k.sched with processes := processes } }

/-- Stores a process. -/
def Kernel.setProcess (k : Kernel) (p : Nat) (process : Process) : Kernel :=
  k.withProcesses (Function.update k.sched.processes p process)

/-- `kfree` in the kernel's state. -/
def Kernel.kfree (k : Kernel) (p : Nat) : Kernel :=
  { k with heap := Mm.kfree p k.heap }

-- ================================================================== task.c

/-- `task_create`: the address of the new `task_t` and the task. -/
def taskCreate (refuseTask refuseStack : Bool) (entry : Nat) (k : Kernel) :
    Option (Option (Nat × TaskPtr) × Kernel) :=
  if entry = null then some (none, k)
  else do
    let (task, heap) ← kmallocUnless refuseTask taskBytes k.heap
    let k := { k with heap := heap }
    if task = null then some (none, k)
    else do
      let (stack, heap) ← kmallocUnless refuseStack kernelStackSize k.heap
      let k := { k with heap := heap }
      if stack = null then some (none, k.kfree task)
      else
        some (some (task, k.sched.taskCount),
          { k with
            sched := Scheduler.taskCreate k.sched k.nextTaskId entry stack none
            nextTaskId := wordAdd k.nextTaskId 1 })

-- =============================================================== process.c

/-- Which of the calls that `process_create` makes are made to fail. -/
structure CreateFailures where
  process : Bool := false
  root : Bool := false
  stack : Refusal := .granted
  heap : Refusal := .granted
  task : Bool := false
  kernelStack : Bool := false
  deriving DecidableEq, Repr

/-- `page_table_create`, or the failure of its `pmm_alloc_page`. -/
def pageTableCreateUnless (refuse : Bool) (v : Vm) : Option Nat × Vm :=
  if refuse then (none, v) else pageTableCreate v

/-- The frame that the next `pmm_alloc_page` takes, if it is made. -/
def frameTaken (refuse : Bool) (p : Pmm) : List Nat :=
  if refuse ∨ (pmmAllocPage p).1 = null then [] else [(pmmAllocPage p).1]

/-- The process becomes the head of the list and gets its name. -/
def processLink (name : List Byte) (process : Nat) (k : Kernel) : Kernel :=
  { k.setProcess process { k.process process with
      next := k.processList
      name := kStrcpy (List.replicate 64 0#8) name } with
    processList := process }

/-- The process and its main thread, a `task_t` at `address`, get to know
each other. -/
def processAttach (process address : Nat) (t : TaskPtr) (k : Kernel) : Kernel :=
  { k with
    sched := setTask k.sched t { k.sched.tasks t with process := some process } }.setProcess
      process { k.process process with mainThread := address, threadList := address }

/-- What `process_create` does once the process has its pages. -/
def processStart (failures : CreateFailures) (name : List Byte) (entry process : Nat)
    (k : Kernel) : Option (Nat × Kernel) := do
  match ← taskCreate failures.task failures.kernelStack entry (processLink name process k) with
  | (none, k) => some (null, k.kfree process)
  | (some (address, t), k) =>
      let k := processAttach process address t k
      let sched ← schedulerAddTask k.sched (some t)
      some (process, { k with sched := sched })

/-- The process gets its root table and the range of its stack. -/
def processRooted (process root : Nat) (k : Kernel) : Kernel :=
  k.setProcess process { k.process process with
    pageTable := root
    pageTablePhysical := root
    userStackTop := userStackTop
    userStackBottom := userStackTop - userStackSize }

/-- The process gets an empty heap. -/
def processHeaped (process : Nat) (k : Kernel) : Kernel :=
  k.setProcess process { k.process process with
    userHeapStart := userHeapBase
    userHeapEnd := userHeapBase
    userHeapCurrent := userHeapBase }

/-- What `process_create` does once the process has its root table. -/
def processMapPages (failures : CreateFailures) (name : List Byte) (entry process root : Nat)
    (k : Kernel) : Option (Nat × List Nat × Kernel) :=
  let k := processRooted process root k
  let frames := frameTaken (failures.stack = .noPage) k.vm.pmm
  match processMapInitialStack failures.stack k.sched.processes process k.vm with
  | (rc, v) =>
      let k := k.withVm v
      if rc ≠ kernelSuccess then some (null, frames, k.kfree process)
      else
        let k := processHeaped process k
        let frames := frameTaken (failures.heap = .noPage) k.vm.pmm ++ frames
        match processHeapExpand failures.heap k.sched.processes process k.vm with
        | (rc, processes, v) =>
            let k := (k.withProcesses processes).withVm v
            if rc ≠ kernelSuccess then some (null, frames, k.kfree process)
            else
              (processStart failures name entry process k).map fun (result, k) =>
                (result, frames, k)

/-- What `process_create` puts into a new `process_t`: its number, zeroes,
and an empty descriptor table. -/
def processZeroed (process : Nat) (k : Kernel) : Kernel :=
  { k.setProcess process { pid := k.nextPid } with nextPid := wordAdd k.nextPid 1 }

/-- `process_create`: the process or `NULL`, and the frames taken for its
root table, stack and heap. -/
def processCreate (failures : CreateFailures) (name : List Byte) (entry : Nat) (k : Kernel) :
    Option (Nat × List Nat × Kernel) :=
  if entry = null then some (null, [], k)
  else do
    let (process, heap) ← kmallocUnless failures.process processBytes k.heap
    let k := { k with heap := heap }
    if process = null then some (null, [], k)
    else
      let k := processZeroed process k
      let frames := frameTaken failures.root k.vm.pmm
      match pageTableCreateUnless failures.root k.vm with
      -- the process is not given back here
      | (none, v) => some (null, frames, k.withVm v)
      | (some root, v) =>
          (processMapPages failures name entry process root (k.withVm v)).map
            fun (result, pages, k) => (result, pages ++ frames, k)

/-- The links of the process list. -/
def processLinks (k : Kernel) (p : Nat) : Option Nat := pageTablePointer (k.process p).next

/-- A walk along the process list is not longer than this: there are no
more addresses. -/
def processListMax : Nat := 2 ^ 64

/-- The loop of `process_lookup`. -/
def processLookupFrom (k : Kernel) (pid : Nat) : Nat → Option Nat → Option (Option Nat)
  | _, none => some none
  | 0, some _ => none
  | fuel + 1, some process =>
      if (k.process process).pid = pid then some (some process)
      else processLookupFrom k pid fuel (processLinks k process)

/-- `process_lookup`; the inner `none` is `NULL`. -/
def processLookup (pid : Nat) (k : Kernel) : Option (Option Nat) :=
  processLookupFrom k pid processListMax (pageTablePointer k.processList)

/-- `process_destroy`. -/
def processDestroy (process : Nat) (k : Kernel) : Option Kernel :=
  if process = null then some k
  else if k.processList = process then
    some ({ k with processList := (k.process process).next }.kfree process)
  else
    match pageTablePointer k.processList with
    | none => some (k.kfree process)
    | some head => do
        match ← predFrom (processLinks k) process processListMax head with
        | none => some (k.kfree process)
        | some current =>
            some ((k.setProcess current { k.process current with
              next := (k.process process).next }).kfree process)

/-- `process_current`. -/
def processCurrent (k : Kernel) : Option Nat :=
  k.sched.currentTask.bind fun t => (k.sched.tasks t).process

/-- The process is over. -/
def processExited (exitCode : Int) (process : Nat) (k : Kernel) : Kernel :=
  k.setProcess process { k.process process with state := .exited, exitCode := exitCode }

/-- `process_exit`; `regs` are the registers its task leaves the processor
with. -/
def processExit (exitCode : Int) (regs : CpuContext) (k : Kernel) : Option Kernel :=
  match processCurrent k with
  | none => some k
  | some process => do
      let k := processExited exitCode process k
      let (_, s) ← taskExit k.sched regs
      some (k.withSched s)

end ZenithOS.Proc
