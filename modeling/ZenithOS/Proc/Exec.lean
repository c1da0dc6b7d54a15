/-
Running a program: `elf/elf.c`, `elf/elf_loader.c` and
`process/process_exec.c`.

# The image

An ELF image at the address `base` is the bytes from there on; it is in
none of the memory that these functions write. Its headers are read out
of the bytes, little-endian, at the offsets of the packed structures of
`elf/elf_types.h`.

# The copy in the heap

`elf_load_image` allocates one block for all the segments and copies them
there, without looking at whether they fit; `heap.mem` is where it
writes, around the end of the address space where the sizes are such. The
console output is not modelled, nor is the look at the first code bytes,
which only the console output shows.
-/
import ZenithOS.Proc.Process

namespace ZenithOS.Proc

open Lib Mm Vmm Klib

-- =================================================================== elf.c

/-- The fields of `elf64_header_t` that are read. -/
structure ElfHeader where
  ident : List Byte
  type : Nat
  machine : Nat
  version : Nat
  entry : Nat
  phoff : Nat
  phentsize : Nat
  phnum : Nat

/-- The header at the start of an image. -/
def elfHeader (elf : Nat → Byte) : ElfHeader :=
  { ident := (List.range 6).map elf
    type := loadWord elf 16 % 2 ^ 16
    machine := loadWord elf 18 % 2 ^ 16
    version := loadWord elf 20 % 2 ^ 32
    entry := loadWord elf 24
    phoff := loadWord elf 32
    phentsize := loadWord elf 54 % 2 ^ 16
    phnum := loadWord elf 56 % 2 ^ 16 }

/-- `ELFCLASS64`. -/
def elfClass64 : Byte := 2#8

/-- `ELFDATA2LSB`. -/
def elfData2Lsb : Byte := 1#8

/-- `EV_CURRENT`. -/
def evCurrent : Nat := 1

/-- `ET_EXEC`. -/
def etExec : Nat := 2

/-- `EM_X86_64`. -/
def emX8664 : Nat := 62

/-- `elf_validate`. -/
def elfValidate (header : ElfHeader) : Int :=
  if header.ident.take 4 ≠ [0x7F#8, 0x45#8, 0x4C#8, 0x46#8] then kernelEinval
  else if header.ident.getD 4 0#8 ≠ elfClass64 then kernelEinval
  else if header.ident.getD 5 0#8 ≠ elfData2Lsb then kernelEinval
  else if header.version ≠ evCurrent then kernelEinval
  else if header.type ≠ etExec then kernelEinval
  else if header.machine ≠ emX8664 then kernelEinval
  else kernelSuccess

/-- An `int` in 64 bits; where its computation overflows, what the machine
makes of it. -/
def intWord (n : Nat) : Nat := ((BitVec.ofNat 32 n).signExtend 64).toNat

/-- `e_phoff + index * e_phentsize`; the product is an `int`. -/
def elfHeaderOffset (header : ElfHeader) (index : Nat) : Nat :=
  wordAdd header.phoff (intWord (index * header.phentsize))

/-- `elf_program_header`, read out of the image. -/
def elfProgramHeader (base : Nat) (elf : Nat → Byte) (index : Nat) : Option ElfProgramHeader :=
  let header := elfHeader elf
  let offset := elfHeaderOffset header index
  if index ≥ header.phnum then none
  else if wordAdd base offset = null then none
  else
    some
      { type := loadWord elf offset % 2 ^ 32
        flags := loadWord elf (offset + 4) % 2 ^ 32
        offset := loadWord elf (offset + 8)
        vaddr := loadWord elf (offset + 16)
        filesz := loadWord elf (offset + 32)
        memsz := loadWord elf (offset + 40) }

/-- The `PT_LOAD` program headers in their order: each of the three loops
over the program headers passes over all others. -/
def loadSegments (base : Nat) (elf : Nat → Byte) : List ElfProgramHeader :=
  ((List.range (elfHeader elf).phnum).filterMap (elfProgramHeader base elf)).filter
    fun ph => ph.type = ptLoad

-- ============================================================ elf_loader.c

/-- A segment is within the address space and not larger in the file than
in memory. -/
def SegmentFits (ph : ElfProgramHeader) : Prop :=
  ph.filesz ≤ ph.memsz ∧ ph.vaddr + ph.memsz + 15 < 2 ^ 64

/-- A segment is in the user half, and not larger in the file than in
memory. One elsewhere would replace pages of the kernel. -/
def UserSegment (ph : ElfProgramHeader) : Prop :=
  ph.filesz ≤ ph.memsz ∧ ph.vaddr + ph.memsz ≤ 2 ^ 47

instance (ph : ElfProgramHeader) : Decidable (SegmentFits ph) :=
  inferInstanceAs (Decidable (_ ∧ _))

instance (ph : ElfProgramHeader) : Decidable (UserSegment ph) :=
  inferInstanceAs (Decidable (_ ∧ _))

/-- `lowest` and `highest` after one more segment. -/
def widenBounds (bounds : Nat × Nat) (ph : ElfProgramHeader) : Nat × Nat :=
  let stop := wordAdd ph.vaddr ph.memsz
  (if ph.vaddr < bounds.1 then ph.vaddr else bounds.1,
    if stop > bounds.2 then stop else bounds.2)

/-- `lowest` and `highest` after the first loop of `elf_load_image`. -/
def imageBounds (segments : List ElfProgramHeader) : Nat × Nat :=
  segments.foldl widenBounds (2 ^ 64 - 1, 0)

/-- What the second loop writes for a segment. -/
def copySegment (elf : Nat → Byte) (base lowest : Nat) (m : Mem) (ph : ElfProgramHeader) : Mem :=
  let dest := wordAdd base (wordSub ph.vaddr lowest)
  let m := wrapBlit m dest (fun j => elf (wordAdd ph.offset j)) ph.filesz
  if ph.memsz > ph.filesz then
    wrapBlit m (wordAdd dest ph.filesz) (fun _ => 0#8) (ph.memsz - ph.filesz)
  else m

/-- `elf_load_image` of the image at `base`, with `*loaded`. -/
def elfLoadImage (refuse : Bool) (base : Nat) (elf : Nat → Byte) (heap : Heap) :
    Option (Int × ElfImage × Heap) :=
  if base = null then some (kernelEinval, {}, heap)
  else if elfValidate (elfHeader elf) ≠ kernelSuccess then some (kernelEinval, {}, heap)
  else
    let segments := loadSegments base elf
    let (lowest, highest) := imageBounds segments
    let loaded : ElfImage := { entry := (elfHeader elf).entry }
    if lowest = 2 ^ 64 - 1 then
      some (kernelSuccess, loaded,
        { heap with mem := segments.foldl (copySegment elf loaded.base lowest) heap.mem })
    else do
      let size := wordSub highest lowest
      let (block, heap) ← kmallocUnless refuse size heap
      let loaded := { loaded with size := size, imageBase := lowest, base := block }
      if block = null then some (kernelEnomem, loaded, heap)
      else
        some (kernelSuccess, loaded,
          { heap with mem := segments.foldl (copySegment elf block lowest) heap.mem })

-- ========================================================== process_exec.c

/-- The loop of `process_exec` over the segments; `refusals` numbers the
segments and the pages of each. -/
def processMapSegments (refusals : Nat → Nat → Refusal) (processes : Nat → Process)
    (process base : Nat) (elf : Nat → Byte) : Nat → List ElfProgramHeader → Vm → Int × Vm
  | _, [], v => (kernelSuccess, v)
  | i, ph :: segments, v =>
      match processMapSegment (refusals i) processes process (some ph) base elf v with
      | (rc, _, v) =>
          if rc ≠ kernelSuccess then (rc, v)
          else processMapSegments refusals processes process base elf (i + 1) segments v

/-- Which of the calls that `process_exec` makes are made to fail. -/
structure ExecFailures where
  image : Bool := false
  pages : Nat → Nat → Refusal := fun _ _ => .granted

/-- The `user_rflags` of a process: interrupts are on. -/
def userRflags : Nat := 0x202

/-- `process_exec`. -/
def processExec (failures : ExecFailures) (process base : Nat) (elf : Nat → Byte) (k : Kernel) :
    Option (Int × Kernel) :=
  if process = null ∨ base = null then some (kernelEinval, k)
  else do
    let (status, image, heap) ← elfLoadImage failures.image base elf k.heap
    let k := { k with heap := heap }
    if status ≠ kernelSuccess then some (status, k)
    else
      match processMapSegments failures.pages k.sched.processes process base elf 0
          (loadSegments base elf) k.vm with
      | (rc, v) =>
          let k := k.withVm v
          if rc ≠ kernelSuccess then some (rc, k)
          else
            let k := k.setProcess process { k.process process with
              image := image
              userRip := image.entry }
            match pageWalkInternal k.vm (pageTablePointer (k.process process).pageTable)
                image.entry false with
            | (.error _, _) => some (kernelEinval, k)
            | (.ok _, _) =>
                some (kernelSuccess, k.setProcess process { k.process process with
                  userRsp := wordSub (k.process process).userStackTop 8
                  userRflags := userRflags
                  isUserProcess := true })

end ZenithOS.Proc
