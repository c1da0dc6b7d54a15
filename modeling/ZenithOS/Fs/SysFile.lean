/-
File descriptors and the file system calls: `fs/fd.c` and
`fs/sys_file.c`.

# State

The calls work on the kernel, whose processes hold the descriptor tables,
and on the file system. Both stand on one heap (`SysFiles.shared`).

# Runs

A run is calls of any processes in any order, with a switch of the task
between any two of them. It keeps the calls made so far, the last first:
what a descriptor denotes is a matter of which calls there were.
-/
import ZenithOS.Fs.Run
import ZenithOS.Proc.Process

namespace ZenithOS.Fs

open Lib Klib Mm Vmm Proc Scheduler

-- ================================================================== fd.c

/-- `FD_MAX`. -/
def fdMax : Nat := 64

/-- `fd_table_t`. A `fd_table_t *` is `none` for `NULL`. -/
abbrev FdTable := Nat → Nat

/-- `fd_init`. -/
def fdInit (table : Option FdTable) : Option FdTable :=
  table.map fun _ _ => null

/-- `fd_get`. -/
def fdGet (table : Option FdTable) (fd : Int) : Nat :=
  match table with
  | none => null
  | some files => if fd < 0 ∨ fd ≥ fdMax then null else files fd.toNat

/-- The loop of `fd_allocate` from `fd` on, with the rounds left. -/
def fdAllocateFrom (files : FdTable) (file : Nat) : Nat → Nat → Int × FdTable
  | 0, _ => (kernelEnomem, files)
  | rounds + 1, fd =>
      if files fd = null then (fd, Function.update files fd file)
      else fdAllocateFrom files file rounds (fd + 1)

/-- `fd_allocate`. -/
def fdAllocate (table : Option FdTable) (file : Nat) : Int × Option FdTable :=
  match table with
  | none => (kernelEinval, none)
  | some files =>
      if file = null then (kernelEinval, some files)
      else
        let (rc, files) := fdAllocateFrom files file fdMax 0
        (rc, some files)

/-- `fd_close`. -/
def fdClose (table : Option FdTable) (fd : Int) : Int × Option FdTable :=
  match table with
  | none => (kernelEinval, none)
  | some files =>
      if fd < 0 ∨ fd ≥ fdMax then (kernelEinval, some files)
      else if files fd.toNat = null then (kernelEinval, some files)
      else (kernelSuccess, some (Function.update files fd.toNat null))

-- ============================================================ sys_file.c

/-- The kernel and its file system, which share the heap. -/
structure SysFiles where
  kernel : Kernel
  vfs : Vfs
  shared : kernel.heap = vfs.heap

/-- The file system moves on, and the heap with it. -/
def SysFiles.withVfs (y : SysFiles) (v : Vfs) : SysFiles :=
  { kernel := { y.kernel with heap := v.heap }, vfs := v, shared := rfl }

/-- `&process->fd_table`. -/
def SysFiles.fdTable (y : SysFiles) (process : ProcessPtr) : Option FdTable :=
  some (y.kernel.process process).fdTable

/-- A function of `fd.c` has worked on the table of a process. -/
def SysFiles.withTable (y : SysFiles) (process : ProcessPtr) (table : Option FdTable) :
    SysFiles :=
  match table with
  | none => y
  | some files =>
      { y with
        kernel := y.kernel.setProcess process
          { y.kernel.process process with fdTable := files } }

/-- The current task becomes another. -/
def SysFiles.switchTo (y : SysFiles) (task : Option TaskPtr) : SysFiles :=
  { y with
    kernel := { y.kernel with sched := { y.kernel.sched with currentTask := task } } }

/-- `sys_open`. -/
def sysOpen (path : Option (List Byte)) (refuse : Bool) (y : SysFiles) :
    Option (Int × SysFiles) :=
  if path = none then some (kernelEinval, y)
  else
    match processCurrent y.kernel with
    | none => some (kernelEinval, y)
    | some process => do
        let (status, file, v) ← vfsOpen path refuse y.vfs
        let y := y.withVfs v
        if status ≠ kernelSuccess then some (status, y)
        else
          let (rc, table) := fdAllocate (y.fdTable process) (file.getD null)
          some (rc, y.withTable process table)

/-- `sys_read`, with the bytes it puts into the buffer. -/
def sysRead (fd : Int) (buffer size : Nat) (y : SysFiles) : Int × List Byte × SysFiles :=
  match processCurrent y.kernel with
  | none => (kernelEinval, [], y)
  | some process =>
      let file := fdGet (y.fdTable process) fd
      if file = null then (kernelEnoent, [], y)
      else
        let (rc, bytes, v) := vfsRead file buffer size y.vfs
        (rc, bytes, y.withVfs v)

/-- `sys_write`. -/
def sysWrite (fd : Int) (buffer : Option (Nat → Byte)) (size : Nat) (refuse : Bool)
    (y : SysFiles) : Option (Int × SysFiles) :=
  match processCurrent y.kernel with
  | none => some (kernelEinval, y)
  | some process =>
      let file := fdGet (y.fdTable process) fd
      if file = null then some (kernelEnoent, y)
      else (vfsWrite file buffer size refuse y.vfs).map fun (rc, v) => (rc, y.withVfs v)

/-- `sys_close`. -/
def sysClose (fd : Int) (y : SysFiles) : Int × SysFiles :=
  match processCurrent y.kernel with
  | none => (kernelEinval, y)
  | some process =>
      let (rc, table) := fdClose (y.fdTable process) fd
      (rc, y.withTable process table)

-- ================================================================== runs

/-- The system calls on files, and switches of the current task. -/
inductive FileOp
  | switchTo (task : Option TaskPtr)
  | sysOpen (path : Option (List Byte)) (refuse : Bool)
  | sysRead (fd : Int) (buffer size : Nat)
  | sysWrite (fd : Int) (buffer : Option (Nat → Byte)) (size : Nat) (refuse : Bool)
  | sysClose (fd : Int)

/-- One call and what it returns; `none` when the code does not come
back. -/
def fileCall (y : SysFiles) : FileOp → Option (Int × SysFiles)
  | .switchTo task => some (kernelSuccess, y.switchTo task)
  | .sysOpen path refuse => Fs.sysOpen path refuse y
  | .sysRead fd buffer size =>
      some ((Fs.sysRead fd buffer size y).1, (Fs.sysRead fd buffer size y).2.2)
  | .sysWrite fd buffer size refuse => Fs.sysWrite fd buffer size refuse y
  | .sysClose fd => some (Fs.sysClose fd y)

/-- A call, the state it was made in, and its result. -/
structure FileCall where
  before : SysFiles
  op : FileOp
  result : Int

/-- The state of the files, and the calls so far. -/
structure FileSys where
  now : SysFiles
  calls : List FileCall

/-- The call is made and kept. -/
def FileSys.after (y : FileSys) (op : FileOp) (r : Int × SysFiles) : FileSys :=
  { now := r.2, calls := ⟨y.now, op, r.1⟩ :: y.calls }

/-- One call, recorded; `none` when the code does not come back. -/
def fileStep (y : FileSys) (op : FileOp) : Option FileSys :=
  (fileCall y.now op).map (y.after op)

/-- The call is a `sys_open` of the process that returned `fd`. -/
def FileCall.opens (process : ProcessPtr) (fd : Int) (c : FileCall) : Bool :=
  match c.op with
  | .sysOpen _ _ =>
      decide (processCurrent c.before.kernel = some process ∧ c.result = fd ∧ 0 ≤ fd)
  | _ => false

/-- The call is a `sys_close` of `fd` by the process. -/
def FileCall.closes (process : ProcessPtr) (fd : Int) (c : FileCall) : Bool :=
  match c.op with
  | .sysClose fd' => decide (processCurrent c.before.kernel = some process ∧ fd' = fd)
  | _ => false

/-- The process's most recent `sys_open` that returned `fd`, unless `fd`
was closed since. -/
def lastOpen (process : ProcessPtr) (fd : Int) : List FileCall → Option FileCall
  | [] => none
  | c :: calls =>
      if c.opens process fd then some c
      else if c.closes process fd then none
      else lastOpen process fd calls

/-- The file object that a call created: the `file` of `sys_open`. -/
def FileCall.created (c : FileCall) : Option Nat :=
  match c.op, processCurrent c.before.kernel with
  | .sysOpen path refuse, some _ =>
      (vfsOpen path refuse c.before.vfs).bind fun r => r.2.1
  | _, _ => none

/-- A `sys_write` meets a buffer that is large enough. -/
def FileOp.Fits (y : SysFiles) : FileOp → Prop
  | .sysWrite fd _ size _ =>
      BufferFits size ∧ ∀ process ∈ processCurrent y.kernel,
        WriteFits y.vfs (fdGet (y.fdTable process) fd) size
  | _ => True

instance FileOp.decidableFits (y : SysFiles) : ∀ op : FileOp, Decidable (op.Fits y)
  | .sysWrite .. => inferInstanceAs (Decidable (_ ∧ ∀ _ ∈ _, _))
  | .switchTo _ | .sysOpen .. | .sysRead .. | .sysClose _ => isTrue trivial

/-- The descriptor table of the process has a free slot. -/
def HasFreeSlot (y : SysFiles) (process : ProcessPtr) : Prop :=
  ∃ fd < fdMax, (y.kernel.process process).fdTable fd = null

instance (y : SysFiles) (process : ProcessPtr) : Decidable (HasFreeSlot y process) :=
  inferInstanceAs (Decidable (∃ fd < fdMax, _))

/-- There is no memory for a file object. -/
def NoFileMemory (v : Vfs) (refuse : Bool) : Prop :=
  ∀ r ∈ kmallocUnless refuse fileBytes v.heap, r.1 = null

instance (v : Vfs) (refuse : Bool) : Decidable (NoFileMemory v refuse) :=
  inferInstanceAs (Decidable (∀ _ ∈ _, _))

/-- The path leads to no vnode. -/
def Lost (v : Vfs) (path : Option (List Byte)) : Prop :=
  ∀ node, vfsLookup v path ≠ some (kernelSuccess, some node)

instance (v : Vfs) (path : Option (List Byte)) : Decidable (Lost v path) :=
  decidable_of_iff (∀ r ∈ vfsLookup v path, ¬ (r.1 = kernelSuccess ∧ r.2.isSome)) (by
    constructor
    · intro h node hnode
      exact h _ hnode ⟨rfl, rfl⟩
    · intro h r hr hfound
      obtain ⟨rc, node⟩ := r
      obtain ⟨hrc, hsome⟩ := hfound
      obtain ⟨node, rfl⟩ := Option.isSome_iff_exists.mp hsome
      have hrc' : rc = kernelSuccess := hrc
      rw [hrc'] at hr
      exact h node hr)

/-- A `sys_close` finds the descriptor closed; a `sys_open` has a free
slot, or nothing to put there. -/
def FileOp.Keeps (y : SysFiles) : FileOp → Prop
  | .sysClose fd =>
      ∀ process ∈ processCurrent y.kernel, fdGet (y.fdTable process) fd = null
  | .sysOpen path refuse =>
      ∀ process ∈ processCurrent y.kernel,
        HasFreeSlot y process ∨ NoFileMemory y.vfs refuse ∨ Lost y.vfs path
  | _ => True

instance FileOp.decidableKeeps (y : SysFiles) : ∀ op : FileOp, Decidable (op.Keeps y)
  | .sysClose _ | .sysOpen .. => inferInstanceAs (Decidable (∀ _ ∈ _, _))
  | .switchTo _ | .sysRead .. | .sysWrite .. => isTrue trivial

end ZenithOS.Fs
