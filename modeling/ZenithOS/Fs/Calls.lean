/-
The calls on the file system as its users make them.

A directory is named by a path: whoever adds to one looks it up first
(`addAt`). The other calls are those of `sys_file.c`. What the
specification is told of a call is `PathOp.input`: who makes it, and
whether the `kmalloc` in it would return `NULL`.
-/
import ZenithOS.Fs.Spec
import ZenithOS.Fs.Proofs.Lookup

namespace ZenithOS.Fs

open Lib Klib Mm Vmm Proc Scheduler

/-- The calls on paths and descriptors, and what fails in each. -/
inductive PathOp
  | mkdir (path name : Option (List Byte)) (refuse : Bool)
  | create (path name : Option (List Byte)) (refuse : Bool)
  | file (op : FileOp)

/-- `vfs_lookup` and then an operation of the vnode it gives. -/
def addAt (add : Nat → Option (List Byte) → Bool → Vfs → Option (Int × Vfs))
    (path name : Option (List Byte)) (refuse : Bool) (y : SysFiles) : Option (Int × SysFiles) := do
  let (rc, node) ← vfsLookup y.vfs path
  match node with
  | none => some (rc, y)
  | some dir => (add dir name refuse y.vfs).map fun (rc, v) => (rc, y.withVfs v)

/-- The bytes that a call puts into a buffer of its caller. -/
def FileOp.bytes (y : SysFiles) : FileOp → List Byte
  | .sysRead fd buffer size => (Fs.sysRead fd buffer size y).2.1
  | _ => []

/-- One call with its answer; `none` when the code does not come back. -/
def pathCall (y : SysFiles) : PathOp → Option (Answer × SysFiles)
  | .mkdir path name refuse =>
      (addAt ramfsMkdir path name refuse y).map fun r => ((r.1, []), r.2)
  | .create path name refuse =>
      (addAt ramfsCreate path name refuse y).map fun r => ((r.1, []), r.2)
  | .file op => (fileCall y op).map fun r => ((r.1, op.bytes y), r.2)

/-- `kmalloc` returns `NULL`. -/
def outOfMemory (h : Heap) (size : Nat) (refuse : Bool) : Bool :=
  (kmallocUnless refuse size h).all fun r => r.1 = null

/-- What the specification sees of a call. A switch of the task is no call
on the files. -/
def PathOp.input (y : SysFiles) (op : PathOp) : Option FileRequest :=
  let request (size : Nat) (refuse : Bool) (r : Request) : Option FileRequest :=
    some ⟨processCurrent y.kernel, outOfMemory y.vfs.heap size refuse, r⟩
  match op with
  | .mkdir path name refuse => request ramfsNodeBytes refuse
      (.add (.directory []) (path.map components) (name.map cString))
  | .create path name refuse => request ramfsNodeBytes refuse
      (.add (.file none) (path.map components) (name.map cString))
  | .file (.sysOpen path refuse) => request fileBytes refuse (.openPath (path.map components))
  | .file (.sysRead fd buffer size) => request 0 false (.read fd buffer size)
  | .file (.sysWrite fd buffer size refuse) => request size refuse
      (.write fd (buffer.map fun b => bufferBytes b size))
  | .file (.sysClose fd) => request 0 false (.close fd)
  | .file (.switchTo _) => none

/-- Names and buffers fit. -/
def PathOp.Fits (y : SysFiles) : PathOp → Prop
  | .mkdir _ name _ | .create _ name _ => NameFits name
  | .file op => op.Fits y

instance (y : SysFiles) : ∀ op : PathOp, Decidable (op.Fits y)
  | .mkdir _ name _ | .create _ name _ => inferInstanceAs (Decidable (NameFits name))
  | .file op => inferInstanceAs (Decidable (op.Fits y))

end ZenithOS.Fs
