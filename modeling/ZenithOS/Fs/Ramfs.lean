/-
The RAM file system: `fs/ramfs.c`, with `fs/vnode.h`, `fs/filesystem.h`
and `fs/file.h`.

# Objects

Nodes, open files, file systems and mounts are records by their address,
`NULL` being 0. A `vnode_t` is the first member of its node and so has
the node's address. What a file's `data` points to are bytes of the
heap's memory.

# Callers

A string argument is `none` for `NULL`. A buffer that is written from is
the bytes in it (`none` for `NULL`), one that is read into is an address,
and the bytes put there are returned; these buffers are the callers' and
not part of any file. Out-parameters are results: `none` when nothing was
stored.

# Allocation

The heap is the kernel's, and a call of `kmalloc` may be made to fail
beyond that (`refuse`). The only operation tables are the ones of this
file system.
-/
import ZenithOS.Klib.String
import ZenithOS.Mm.Heap

namespace ZenithOS.Fs

open Lib Klib Mm Vmm

/-- `RAMFS_MAX_CHILDREN`. -/
def ramfsMaxChildren : Nat := 64

/-- `sizeof(ramfs_node_t)`. -/
def ramfsNodeBytes : Nat := 648

/-- `vnode_type_t`. -/
inductive VnodeType
  | file
  | directory
  | device
  | symlink
  deriving DecidableEq, Repr

/-- The `vnode_operations_t` tables. -/
inductive VnodeOps
  | ramfsVnodeOps
  deriving DecidableEq, Repr

/-- The `filesystem_operations_t` tables. -/
inductive FilesystemOps
  | ramfsFsOps
  deriving DecidableEq, Repr

/-- `vnode_t`. -/
structure Vnode where
  name : List Byte
  type : VnodeType
  size : Nat
  parent : Nat
  fs : Nat
  ops : Option VnodeOps
  privateData : Nat

/-- `ramfs_node_t`. -/
structure RamfsNode where
  vnode : Vnode
  children : Nat → Nat
  childCount : Nat
  data : Nat
  capacity : Nat

/-- `file_t`. -/
structure File where
  node : Nat
  position : Nat
  flags : Nat
  refcount : Nat
  deriving Repr

/-- `filesystem_t`. -/
structure Filesystem where
  name : List Byte
  root : Nat
  ops : Option FilesystemOps

/-- A `mount_t`; its other fields are never set. -/
structure Mount where
  fs : Nat
  mountpoint : Nat
  next : Nat

/-- The objects of the file system layer and the file-scope state of
`vfs.c`. -/
structure Vfs where
  heap : Heap
  nodes : Nat → RamfsNode
  files : Nat → File
  filesystems : Nat → Filesystem
  mounts : Nat → Mount
  mountList : Nat
  rootMount : Nat

/-- The address of the static `ramfs_root`: some place in the kernel's
image, which is linked at the top of the address space. -/
def ramfsRoot : Nat := 0xFFFFFFFF80000000

/-- Stores a node. -/
def setNode (p : Nat) (node : RamfsNode) (v : Vfs) : Vfs :=
  { v with nodes := Function.update v.nodes p node }

/-- Stores a file object. -/
def setFile (p : Nat) (file : File) (v : Vfs) : Vfs :=
  { v with files := Function.update v.files p file }

/-- A node whose fields are all zero but for its type, name and links, as
each of the three places that make one fills it. -/
def newNode (type : VnodeType) (name : List Byte) (parent fs self : Nat) : RamfsNode :=
  { vnode :=
      { name := name
        type := type
        size := 0
        parent := parent
        fs := fs
        ops := some .ramfsVnodeOps
        privateData := self }
    children := fun _ => null
    childCount := 0
    data := null
    capacity := 0 }

/-- `ramfs_mount`. -/
def ramfsMount (fs : Nat) (v : Vfs) : Int × Vfs :=
  if fs = null then (kernelEinval, v)
  else
    let v := setNode ramfsRoot
      (newNode .directory (List.replicate 64 0#8) null fs ramfsRoot) v
    (kernelSuccess, { v with
      filesystems := Function.update v.filesystems fs
        { v.filesystems fs with root := ramfsRoot, ops := some .ramfsFsOps } })

/-- `ramfs_init`. -/
def ramfsInit (fs : Nat) (v : Vfs) : Int × Vfs :=
  if fs = null then (kernelEinval, v)
  else
    (kernelSuccess, { v with
      filesystems := Function.update v.filesystems fs
        { name := kStrcpy (v.filesystems fs).name [0x72#8, 0x61#8, 0x6D#8, 0x66#8, 0x73#8]
          root := null
          ops := some .ramfsFsOps } })

/-- The loop of `ramfs_lookup`, with so many children to go from `i`. -/
def ramfsLookupFrom (v : Vfs) (node : RamfsNode) (name : List Byte) : Nat → Nat → Option Nat
  | 0, _ => none
  | n + 1, i =>
      let child := node.children i
      if child ≠ null ∧ kStrcmp (v.nodes child).vnode.name name = 0 then some child
      else ramfsLookupFrom v node name n (i + 1)

/-- `ramfs_lookup`. -/
def ramfsLookup (v : Vfs) (dir : Nat) (name : Option (List Byte)) : Int × Option Nat :=
  match name with
  | none => (kernelEinval, none)
  | some name =>
      if dir = null then (kernelEinval, none)
      else
        let node := (v.nodes dir).vnode.privateData
        if node = null then (kernelEinval, none)
        else
          match ramfsLookupFrom v (v.nodes node) name (v.nodes node).childCount 0 with
          | some child => (kernelSuccess, some child)
          | none => (kernelEnoent, none)

/-- The body that `ramfs_mkdir` and `ramfs_create` share. -/
def ramfsAdd (type : VnodeType) (dir : Nat) (name : Option (List Byte)) (refuse : Bool)
    (v : Vfs) : Option (Int × Vfs) :=
  match name with
  | none => some (kernelEinval, v)
  | some name =>
      let parent := (v.nodes dir).vnode.privateData
      if dir = null then some (kernelEinval, v)
      else if (v.nodes dir).vnode.type ≠ .directory then some (kernelEnotsup, v)
      else if parent = null then some (kernelEinval, v)
      else if (ramfsLookup v dir (some name)).1 = kernelSuccess then some (kernelEexist, v)
      else if (v.nodes parent).childCount ≥ ramfsMaxChildren then some (kernelEnomem, v)
      else do
        let (child, heap) ← kmallocUnless refuse ramfsNodeBytes v.heap
        let v := { v with heap := heap }
        if child = null then some (kernelEnomem, v)
        else
          let v := setNode child
            (newNode type (kStrcpy (List.replicate 64 0#8) name) dir (v.nodes dir).vnode.fs child) v
          let node := v.nodes parent
          some (kernelSuccess, setNode parent { node with
            children := Function.update node.children node.childCount child
            childCount := node.childCount + 1 } v)

/-- `ramfs_mkdir`. -/
def ramfsMkdir := ramfsAdd .directory

/-- `ramfs_create`. -/
def ramfsCreate := ramfsAdd .file

/-- What `ramfs_write` stores once the file has its buffer. -/
def ramfsStore (file p : Nat) (buffer : Nat → Byte) (size : Nat) (v : Vfs) : Vfs :=
  let node := v.nodes p
  let v := { v with heap := { v.heap with
    mem := kMemcpyFrom v.heap.mem node.data buffer size } }
  let v := setNode p { node with vnode := { node.vnode with size := size } } v
  setFile file { v.files file with position := size } v

/-- `ramfs_write`. -/
def ramfsWrite (file : Nat) (buffer : Option (Nat → Byte)) (size : Nat) (refuse : Bool)
    (v : Vfs) : Option (Int × Vfs) :=
  match buffer with
  | none => some (kernelEinval, v)
  | some buffer =>
      let vnode := (v.nodes (v.files file).node).vnode
      let p := vnode.privateData
      if file = null then some (kernelEinval, v)
      else if p = null then some (kernelEinval, v)
      else if vnode.type ≠ .file then some (kernelEnotsup, v)
      else if (v.nodes p).data = null then do
        let (data, heap) ← kmallocUnless refuse size v.heap
        let v := { v with heap := heap }
        let v := setNode p { v.nodes p with data := data } v
        if data = null then some (kernelEnomem, v)
        else
          let v := setNode p { v.nodes p with capacity := size } v
          some (kernelSuccess, ramfsStore file p buffer size v)
      else some (kernelSuccess, ramfsStore file p buffer size v)

/-- `(int)bytes`. -/
def toInt (n : Nat) : Int := (BitVec.ofNat 32 n).toInt

/-- `ramfs_read`, with the bytes it puts into the buffer. -/
def ramfsRead (file buffer size : Nat) (v : Vfs) : Int × List Byte × Vfs :=
  let vnode := (v.nodes (v.files file).node).vnode
  let p := vnode.privateData
  let node := v.nodes p
  if file = null ∨ buffer = null then (kernelEinval, [], v)
  else if p = null then (kernelEinval, [], v)
  else if vnode.type ≠ .file then (kernelEnotsup, [], v)
  else if node.data = null then (kernelSuccess, [], v)
  else
    let bytes := if size > node.vnode.size then node.vnode.size else size
    let f := v.files file
    (toInt bytes, (List.range bytes).map fun i => v.heap.mem (node.data + i),
      setFile file { f with position := wordAdd f.position bytes } v)

end ZenithOS.Fs
