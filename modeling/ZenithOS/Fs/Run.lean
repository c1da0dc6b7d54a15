/-
Runs of the mounted RAM file system: its calls in any order, each
`kmalloc` in them failing or not.

Beside the objects a run keeps three records of its own: `tree`, the
nodes made so far with the root last, `handles`, the files opened, and
`written`, what was last written to a node.
-/
import ZenithOS.Lib.Run
import ZenithOS.Fs.Vfs

namespace ZenithOS.Fs

open Lib Klib Mm Vmm

/-- The calls of the file system, each with whether its allocations are
refused. -/
inductive FsOp
  | mkdir (dir : Nat) (name : Option (List Byte)) (refuse : Bool)
  | create (dir : Nat) (name : Option (List Byte)) (refuse : Bool)
  | lookup (dir : Nat) (name : Option (List Byte))
  | openFile (path : Option (List Byte)) (refuse : Bool)
  | write (file : Nat) (buffer : Option (Nat → Byte)) (size : Nat) (refuse : Bool)
  | read (file buffer size : Nat)

/-- The file system, with the nodes made so far, the open files and what was
written to each. -/
structure FsSys where
  vfs : Vfs
  tree : List Nat
  handles : List Nat
  written : Nat → Option (List Byte)

/-- The root file system is prepared and mounted on the kernel's heap. -/
def fsBoot (h : Heap) (fs : Nat) (refuse : Bool) (v : Vfs) : Option (Int × Vfs) :=
  vfsMount fs null refuse (ramfsInit fs (vfsInit { v with heap := h })).2

/-- The system when the root has just been mounted. -/
def fsSysInit (v : Vfs) : FsSys := ⟨v, [ramfsRoot], [], fun _ => none⟩

/-- The node that a directory has got as its last child. -/
def lastChild (v : Vfs) (dir : Nat) : Nat :=
  (v.nodes dir).children ((v.nodes dir).childCount - 1)

/-- After a `ramfs_mkdir` or `ramfs_create` in `dir`. -/
def added (y : FsSys) (dir : Nat) (r : Int × Vfs) : FsSys :=
  { y with
    vfs := r.2
    tree := if r.1 = kernelSuccess then lastChild r.2 dir :: y.tree else y.tree }

/-- The bytes a call of `vfs_write` hands over. -/
def bufferBytes (buffer : Nat → Byte) (size : Nat) : List Byte :=
  (List.range size).map buffer

/-- After a `vfs_write`. -/
def wrote (y : FsSys) (file : Nat) (buffer : Option (Nat → Byte)) (size : Nat)
    (r : Int × Vfs) : FsSys :=
  { y with
    vfs := r.2
    written :=
      if r.1 = kernelSuccess then
        Function.update y.written (y.vfs.files file).node
          (buffer.map fun b => bufferBytes b size)
      else y.written }

/-- One call; `none` when the code does not come back. -/
def fsStep (y : FsSys) : FsOp → Option FsSys
  | .mkdir dir name refuse => (ramfsMkdir dir name refuse y.vfs).map (added y dir)
  | .create dir name refuse => (ramfsCreate dir name refuse y.vfs).map (added y dir)
  | .lookup _ _ => some y
  | .openFile path refuse =>
      (vfsOpen path refuse y.vfs).map fun r =>
        { y with vfs := r.2.2, handles := r.2.1.toList ++ y.handles }
  | .write file buffer size refuse =>
      (vfsWrite file buffer size refuse y.vfs).map (wrote y file buffer size)
  | .read file buffer size => some { y with vfs := (vfsRead file buffer size y.vfs).2.2 }

/-- A name that fits the array `name` of a vnode. -/
def NameFits (name : Option (List Byte)) : Prop :=
  ∀ n ∈ name, (cString n).length ≤ 63

instance (name : Option (List Byte)) : Decidable (NameFits name) :=
  inferInstanceAs (Decidable (∀ _ ∈ name, _))

/-- The buffer of a write and the kernel's heap are both in the address
space. -/
def BufferFits (size : Nat) : Prop := size + 15 < 2 ^ 64

instance (size : Nat) : Decidable (BufferFits size) :=
  inferInstanceAs (Decidable (_ < _))

/-- A write to a file finds no buffer yet, or one that is large enough. -/
def WriteFits (v : Vfs) (file size : Nat) : Prop :=
  file = null ∨ (v.nodes (v.files file).node).data = null
    ∨ size ≤ (v.nodes (v.files file).node).capacity

instance (v : Vfs) (file size : Nat) : Decidable (WriteFits v file size) :=
  inferInstanceAs (Decidable (_ ∨ _))

/-- A call is made on nodes and files that exist, with names and buffers
that fit. -/
def FsOp.Allowed (y : FsSys) : FsOp → Prop
  | .mkdir dir name _ | .create dir name _ => (dir = null ∨ dir ∈ y.tree) ∧ NameFits name
  | .lookup dir _ => dir = null ∨ dir ∈ y.tree
  | .openFile _ _ => True
  | .write file _ size _ =>
      (file = null ∨ file ∈ y.handles) ∧ BufferFits size ∧ WriteFits y.vfs file size
  | .read file _ _ => file = null ∨ file ∈ y.handles

instance (y : FsSys) : ∀ op : FsOp, Decidable (op.Allowed y)
  | .mkdir .. | .create .. | .write .. => inferInstanceAs (Decidable (_ ∧ _))
  | .lookup .. | .read .. => inferInstanceAs (Decidable (_ ∨ _))
  | .openFile .. => isTrue trivial

end ZenithOS.Fs
