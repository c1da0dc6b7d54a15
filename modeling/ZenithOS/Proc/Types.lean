/-
The process control block: `process/process.h` with the types it embeds
(`elf_image_t` of `elf/elf_loader.h`, `fd_table_t` of `fd.h`).

Pointers are addresses, `null` (0) among them; `page_table`, a pointer to
a page table, is the frame of the root table, like `page_table_physical`,
or `null`.
-/
import ZenithOS.Mm.Pmm
import ZenithOS.Lib.Mem

namespace ZenithOS.Proc

open Lib Mm

/-- `elf_image_t`. -/
structure ElfImage where
  base : Nat := null
  size : Nat := 0
  entry : Nat := 0
  imageBase : Nat := 0
  deriving DecidableEq, Repr

/-- `process_state_t`. -/
inductive ProcessState
  | ready
  | running
  | exited
  deriving DecidableEq, Repr

/-- `process_t`. `fdTable fd` is `fd_table.files[fd]`. -/
structure Process where
  pid : Nat := 0
  state : ProcessState := .ready
  exitCode : Int := 0
  name : List Byte := []
  parent : Nat := null
  mainThread : Nat := null
  threadList : Nat := null
  next : Nat := null
  image : ElfImage := {}
  userStackTop : Nat := 0
  userStackBottom : Nat := 0
  userHeapStart : Nat := 0
  userHeapEnd : Nat := 0
  userHeapCurrent : Nat := 0
  fdTable : Nat → Nat := fun _ => null
  pageTable : Nat := null
  pageTablePhysical : Nat := 0
  userRip : Nat := 0
  userRsp : Nat := 0
  userRflags : Nat := 0
  isUserProcess : Bool := false
  userStarted : Bool := false

end ZenithOS.Proc
