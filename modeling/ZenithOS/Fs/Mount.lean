/-
Mounting with any mount operation: `vfs_mount` of `fs/vfs.c`.

`vfsMount` has the operation tables of this kernel. Here the mount
operation of the file system is a parameter: whatever it does, and
whichever code it returns. It comes to the file-scope variables of
`vfs.c` only as those do that call `vfs_mount`.
-/
import ZenithOS.Fs.Vfs

namespace ZenithOS.Fs

open Lib Klib Mm Vmm

/-- The `mount` of a `filesystem_operations_t`. -/
abbrev MountOperation := Nat → Vfs → Int × Vfs

/-- The new mount record is filled in and linked, and is the root if there
is none. -/
def vfsLink (fs mountpoint mount : Nat) (v : Vfs) : Vfs :=
  let isRoot := v.rootMount = null
  { v with
    mounts := Function.update v.mounts mount
      { fs := fs
        mountpoint := if isRoot then null else mountpoint
        next := v.mountList }
    mountList := mount
    rootMount := if isRoot then mount else v.rootMount }

/-- `vfs_mount` of a file system with this mount operation, or none. -/
def vfsMountWith (operation : Option MountOperation) (fs mountpoint : Nat) (refuse : Bool)
    (v : Vfs) : Option (Int × Vfs) :=
  if fs = null then some (kernelEinval, v)
  else if v.rootMount ≠ null ∧ mountpoint = null then some (kernelEinval, v)
  else do
    let (mount, heap) ← kmallocUnless refuse mountBytes v.heap
    let v := { v with heap := heap }
    if mount = null then some (kernelEnomem, v)
    else
      let v := vfsLink fs mountpoint mount v
      match operation with
      | none => some (kernelSuccess, v)
      | some operation =>
          let (result, v) := operation fs v
          if result ≠ kernelSuccess then some (result, v) else some (kernelSuccess, v)

/-- The mount operation in a table. -/
def mountOperation : Option FilesystemOps → Option MountOperation
  | none => none
  | some .ramfsFsOps => some ramfsMount

/-- Both branches pass the result on. -/
theorem mounted_eq (r : Int × Vfs) :
    (if r.1 ≠ kernelSuccess then some (r.1, r.2) else some (kernelSuccess, r.2)) = some r := by
  by_cases hrc : r.1 ≠ kernelSuccess
  · rw [if_pos hrc]
  · rw [if_neg hrc, ← not_not.mp hrc]

/-- With the tables of this kernel it is `vfs_mount`. -/
theorem vfsMount_eq (fs mountpoint : Nat) (refuse : Bool) (v : Vfs) :
    vfsMount fs mountpoint refuse v
      = vfsMountWith (mountOperation (v.filesystems fs).ops) fs mountpoint refuse v := by
  unfold vfsMount vfsMountWith
  by_cases hfs : fs = null
  · rw [if_pos hfs, if_pos hfs]
  rw [if_neg hfs, if_neg hfs]
  by_cases hroot : v.rootMount ≠ null ∧ mountpoint = null
  · rw [if_pos hroot, if_pos hroot]
  rw [if_neg hroot, if_neg hroot]
  cases kmallocUnless refuse mountBytes v.heap with
  | none => rfl
  | some r =>
      obtain ⟨mount, heap⟩ := r
      rw [Option.bind_eq_bind, Option.bind_some, Option.bind_some]
      dsimp only
      by_cases hmount : mount = null
      · rw [if_pos hmount, if_pos hmount]
      rw [if_neg hmount, if_neg hmount]
      cases (v.filesystems fs).ops with
      | none => rfl
      | some table =>
          cases table with
          | ramfsFsOps =>
              exact (mounted_eq (ramfsMount fs _)).symm

end ZenithOS.Fs
