/-
The virtual file system: `fs/vfs.c`, `fs/path.c` and `fs/file.c`.

A path is a character array and a pointer into it is the rest of the
array; past its end a NUL is read. Every component that is found moves
the cursor, so the loop of `vfs_lookup` has as many rounds as the path
has characters at most, and is `none` if that is not enough.
-/
import ZenithOS.Fs.Ramfs

namespace ZenithOS.Fs

open Lib Klib Mm Vmm

/-- `VFS_MAX_COMPONENT_LEN`. -/
def vfsMaxComponentLen : Nat := 64

/-- `'/'`. -/
def slash : Byte := 0x2F#8

/-- `sizeof(file_t)`. -/
def fileBytes : Nat := 24

/-- `sizeof(mount_t)`. -/
def mountBytes : Nat := 48

-- ================================================================ path.c

/-- The loop over leading slashes. -/
def skipSlashes : List Byte → List Byte
  | [] => []
  | c :: p => if c = slash then skipSlashes p else c :: p

/-- The loop that copies a component: what it copied and where it
stopped, or `none` when the component is too long. -/
def copyComponent : List Byte → List Byte → Option (List Byte × List Byte)
  | [], component => some (component, [])
  | c :: p, component =>
      if c ≠ slash ∧ c ≠ 0#8 then
        if component.length ≥ vfsMaxComponentLen - 1 then none
        else copyComponent p (component ++ [c])
      else some (component, c :: p)

/-- What `path_next_component` returns: 0, -1, or 1 with the component and
the cursor. -/
inductive NextComponent
  | finished
  | tooLong
  | found (component cursor : List Byte)
  deriving DecidableEq, Repr

/-- `path_next_component`. -/
def pathNextComponent (path : List Byte) : NextComponent :=
  let p := skipSlashes path
  if p.headD 0#8 = 0#8 then .finished
  else
    match copyComponent p [] with
    | none => .tooLong
    | some (component, p) => .found component p

-- ================================================================= vfs.c

/-- `vfs_init`. -/
def vfsInit (v : Vfs) : Vfs := { v with mountList := null, rootMount := null }

/-- `vfs_mount`. -/
def vfsMount (fs mountpoint : Nat) (refuse : Bool) (v : Vfs) : Option (Int × Vfs) :=
  if fs = null then some (kernelEinval, v)
  else if v.rootMount ≠ null ∧ mountpoint = null then some (kernelEinval, v)
  else do
    let (mount, heap) ← kmallocUnless refuse mountBytes v.heap
    let v := { v with heap := heap }
    if mount = null then some (kernelEnomem, v)
    else
      let isRoot := v.rootMount = null
      let v := { v with
        mounts := Function.update v.mounts mount
          { fs := fs
            mountpoint := if isRoot then null else mountpoint
            next := v.mountList }
        mountList := mount
        rootMount := if isRoot then mount else v.rootMount }
      match (v.filesystems fs).ops with
      | none => some (kernelSuccess, v)
      | some .ramfsFsOps => some (ramfsMount fs v)

/-- `vfs_get_root`. -/
def vfsGetRoot (v : Vfs) : Nat :=
  if v.rootMount = null then null
  else if (v.mounts v.rootMount).fs = null then null
  else (v.filesystems (v.mounts v.rootMount).fs).root

/-- The loop of `vfs_lookup`. -/
def vfsLookupFrom (v : Vfs) : Nat → Nat → List Byte → Option (Int × Option Nat)
  | 0, _, _ => none
  | fuel + 1, current, cursor =>
      match pathNextComponent cursor with
      | .finished => some (kernelSuccess, some current)
      | .tooLong => some (kernelEinval, none)
      | .found component cursor =>
          match (v.nodes current).vnode.ops with
          | none => some (kernelEnotsup, none)
          | some .ramfsVnodeOps =>
              match ramfsLookup v current (some component) with
              | (rc, some next) =>
                  if rc ≠ kernelSuccess then some (rc, none)
                  else vfsLookupFrom v fuel next cursor
              | (rc, none) => some (rc, none)

/-- `vfs_lookup`. -/
def vfsLookup (v : Vfs) (path : Option (List Byte)) : Option (Int × Option Nat) :=
  match path with
  | none => some (kernelEinval, none)
  | some path =>
      let current := vfsGetRoot v
      if current = null then some (kernelEnoent, none)
      else if path.headD 0#8 = slash ∧ path.tail.headD 0#8 = 0#8 then
        some (kernelSuccess, some current)
      else vfsLookupFrom v (path.length + 1) current path

/-- `file_open`. -/
def fileOpen (node : Nat) (refuse : Bool) (v : Vfs) : Option (Int × Option Nat × Vfs) :=
  if node = null then some (kernelEinval, none, v)
  else do
    let (file, heap) ← kmallocUnless refuse fileBytes v.heap
    let v := { v with heap := heap }
    if file = null then some (kernelEnomem, none, v)
    else
      some (kernelSuccess, some file,
        setFile file { node := node, position := 0, flags := 0, refcount := 1 } v)

/-- `file_close`. -/
def fileClose (file : Nat) (v : Vfs) : Vfs :=
  if file = null then v else { v with heap := kfree file v.heap }

/-- `vfs_open`. -/
def vfsOpen (path : Option (List Byte)) (refuse : Bool) (v : Vfs) :
    Option (Int × Option Nat × Vfs) := do
  let (rc, node) ← vfsLookup v path
  match node with
  | none => some (rc, none, v)
  | some node =>
      if rc ≠ kernelSuccess then some (rc, none, v) else fileOpen node refuse v

/-- `vfs_write`. -/
def vfsWrite (file : Nat) (buffer : Option (Nat → Byte)) (size : Nat) (refuse : Bool)
    (v : Vfs) : Option (Int × Vfs) :=
  if file = null then some (kernelEinval, v)
  else if (v.files file).node = null then some (kernelEinval, v)
  else
    match (v.nodes (v.files file).node).vnode.ops with
    | none => some (kernelEnotsup, v)
    | some .ramfsVnodeOps => ramfsWrite file buffer size refuse v

/-- `vfs_read`, with the bytes it puts into the buffer. -/
def vfsRead (file buffer size : Nat) (v : Vfs) : Int × List Byte × Vfs :=
  if file = null then (kernelEinval, [], v)
  else if (v.files file).node = null then (kernelEinval, [], v)
  else
    match (v.nodes (v.files file).node).vnode.ops with
    | none => (kernelEnotsup, [], v)
    | some .ramfsVnodeOps => ramfsRead file buffer size v

end ZenithOS.Fs
