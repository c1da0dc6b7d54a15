/-
Running a program out of a file: `process/process_exec_file.c`.

# The image in the heap

The file is read into a block of the heap, and `elf_load_image` writes to
the heap. What the loops over the program headers read is therefore not
fixed beforehand: each round reads the memory as the rounds before it
have left it. `process_exec` on such an image is `processExecAt`; of an
image that stays as it is, it is `processExec`.

# Reads

The result has what is read of the image: a `Span` for every field and
every range of bytes, in the order of the code, with its offset in the
image. What is read of the file is in the image's first bytes, as many as
`vfs_read` has delivered.
-/
import ZenithOS.Fs.Vfs
import ZenithOS.Proc.Exec

namespace ZenithOS.Proc

open Lib Mm Vmm Klib
open Fs (Vfs fileClose vfsOpen vfsRead)

/-- Bytes of the image: `length` of them from `offset` on. -/
structure Span where
  offset : Nat
  length : Nat
  deriving DecidableEq, Repr

/-- The image at `base`. -/
def elfAt (base : Nat) (m : Mem) : Nat → Byte := fun j => m (wordAdd base j)

-- ================================================================== fields

/-- `e_entry` of `elf64_header_t`. -/
def eEntry : Span := ⟨24, 8⟩

/-- `e_phoff`. -/
def ePhoff : Span := ⟨32, 8⟩

/-- `e_phentsize`. -/
def ePhentsize : Span := ⟨54, 2⟩

/-- `e_phnum`. -/
def ePhnum : Span := ⟨56, 2⟩

/-- `p_type` of the `elf64_program_header_t` at an offset. -/
def pType (offset : Nat) : Span := ⟨offset, 4⟩

/-- `p_flags`. -/
def pFlags (offset : Nat) : Span := ⟨offset + 4, 4⟩

/-- `p_offset`. -/
def pOffset (offset : Nat) : Span := ⟨offset + 8, 8⟩

/-- `p_vaddr`. -/
def pVaddr (offset : Nat) : Span := ⟨offset + 16, 8⟩

/-- `p_filesz`. -/
def pFilesz (offset : Nat) : Span := ⟨offset + 32, 8⟩

/-- `p_memsz`. -/
def pMemsz (offset : Nat) : Span := ⟨offset + 40, 8⟩

/-- The comparisons of `elf_validate` in their order: what each reads and
whether it goes well. -/
def elfValidateChecks (header : ElfHeader) : List (Span × Bool) :=
  [(⟨0, 1⟩, header.ident.getD 0 0#8 == 0x7F#8),
    (⟨1, 1⟩, header.ident.getD 1 0#8 == 0x45#8),
    (⟨2, 1⟩, header.ident.getD 2 0#8 == 0x4C#8),
    (⟨3, 1⟩, header.ident.getD 3 0#8 == 0x46#8),
    (⟨4, 1⟩, header.ident.getD 4 0#8 == elfClass64),
    (⟨5, 1⟩, header.ident.getD 5 0#8 == elfData2Lsb),
    (⟨20, 4⟩, header.version == evCurrent),
    (⟨16, 2⟩, header.type == etExec),
    (⟨18, 2⟩, header.machine == emX8664)]

/-- What is read by comparisons of which the first that fails is the last
that is made. -/
def readsThrough : List (Span × Bool) → List Span
  | [] => []
  | (span, passes) :: checks => span :: if passes then readsThrough checks else []

/-- What `elf_validate` reads. -/
def elfValidateReads (elf : Nat → Byte) : List Span :=
  readsThrough (elfValidateChecks (elfHeader elf))

/-- What a round of a loop over the program headers reads before it looks
at the header: its condition and `elf_program_header`. -/
def roundReads : List Span := [ePhnum, ePhnum, ePhoff, ePhentsize]

-- ============================================================ elf_loader.c

/-- What round `i` of the first loop of `elf_load_image` reads. -/
def boundsRoundReads (base : Nat) (elf : Nat → Byte) (i : Nat) : List Span :=
  let offset := elfHeaderOffset (elfHeader elf) i
  roundReads ++
    match elfProgramHeader base elf i with
    | none => []
    | some ph =>
        pType offset ::
          if ph.type = ptLoad then [pVaddr offset, pMemsz offset, pOffset offset, pFilesz offset]
          else []

/-- What the first loop of `elf_load_image` reads. -/
def boundsReads (base : Nat) (elf : Nat → Byte) : List Span :=
  (List.range (elfHeader elf).phnum).flatMap (boundsRoundReads base elf) ++ [ePhnum]

/-- The copy of a segment out of the image at `base`. -/
def copySegmentAt (base block lowest : Nat) (ph : ElfProgramHeader) (m : Mem) : Mem :=
  let dest := wordAdd block (wordSub ph.vaddr lowest)
  let m := kMemcpy m dest (wordAdd base ph.offset) ph.filesz
  if ph.memsz > ph.filesz then fill m (wordAdd dest ph.filesz) 0#8 (ph.memsz - ph.filesz)
  else m

/-- Round `i` of the second loop of `elf_load_image`. -/
def copyRound (base block lowest i : Nat) (m : Mem) : List Span × Mem :=
  let offset := elfHeaderOffset (elfHeader (elfAt base m)) i
  match elfProgramHeader base (elfAt base m) i with
  | none => (roundReads, m)
  | some ph =>
      if ph.type = ptLoad then
        (roundReads ++ [pType offset, pVaddr offset, pOffset offset, pFilesz offset,
            ⟨ph.offset, ph.filesz⟩, pMemsz offset],
          copySegmentAt base block lowest ph m)
      else (roundReads ++ [pType offset], m)

/-- The second loop of `elf_load_image` from round `i` on. -/
def copyLoop (base block lowest : Nat) : Nat → Nat → Mem → List Span × Mem
  | 0, _, m => ([], m)
  | rounds + 1, i, m =>
      if i < (elfHeader (elfAt base m)).phnum then
        let (reads, m) := copyRound base block lowest i m
        let (rest, m) := copyLoop base block lowest rounds (i + 1) m
        (reads ++ rest, m)
      else ([ePhnum], m)

/-- `e_phnum` has 16 bits, so no loop over the program headers has more
rounds. -/
def phnumBound : Nat := 2 ^ 16

/-- `elf_load_image` of the image at `base` in the heap. -/
def elfLoadImageAt (refuse : Bool) (base : Nat) (heap : Heap) :
    Option (Int × ElfImage × List Span × Heap) :=
  let elf := elfAt base heap.mem
  if base = null then some (kernelEinval, {}, [], heap)
  else if elfValidate (elfHeader elf) ≠ kernelSuccess then
    some (kernelEinval, {}, elfValidateReads elf, heap)
  else
    let reads := elfValidateReads elf ++ [eEntry] ++ boundsReads base elf
    let (lowest, highest) := imageBounds (loadSegments base elf)
    let loaded : ElfImage := { entry := (elfHeader elf).entry }
    if lowest = 2 ^ 64 - 1 then
      let (copyReads, m) := copyLoop base loaded.base lowest phnumBound 0 heap.mem
      some (kernelSuccess, loaded, reads ++ copyReads, { heap with mem := m })
    else do
      let size := wordSub highest lowest
      let (block, heap) ← kmallocUnless refuse size heap
      let loaded := { loaded with size := size, imageBase := lowest, base := block }
      if block = null then some (kernelEnomem, loaded, reads, heap)
      else
        let (copyReads, m) := copyLoop base block lowest phnumBound 0 heap.mem
        some (kernelSuccess, loaded, reads ++ copyReads, { heap with mem := m })

-- ========================================================== process_exec.c

/-- What `process_map_segment` reads that maps `pages` of the segment's
pages: a round that fails reads no more than where the page belongs. -/
def mapSegmentReads (offset : Nat) (ph : ElfProgramHeader) (pages : Nat) : List Span :=
  pMemsz offset ::
    (List.range (segmentPageCount ph)).flatMap fun i =>
      if i < pages then
        [pVaddr offset, pFlags offset, pFilesz offset, pOffset offset,
          ⟨wordAdd ph.offset (i * pageSize), bytesInPage ph.filesz (i * pageSize)⟩, pMemsz offset]
      else if i = pages then [pVaddr offset, pFlags offset]
      else []

/-- The loop of `process_exec` over the program headers, from round `i`
and segment `segment` on. -/
def mapLoop (refusals : Nat → Nat → Refusal) (processes : Nat → Process) (process base : Nat)
    (elf : Nat → Byte) : Nat → Nat → Nat → Vm → Int × List Span × Vm
  | 0, _, _, v => (kernelSuccess, [], v)
  | rounds + 1, i, segment, v =>
      let offset := elfHeaderOffset (elfHeader elf) i
      if i < (elfHeader elf).phnum then
        match elfProgramHeader base elf i with
        | none =>
            let (rc, rest, v) :=
              mapLoop refusals processes process base elf rounds (i + 1) segment v
            (rc, roundReads ++ rest, v)
        | some ph =>
            if ph.type = ptLoad then
              match processMapSegment (refusals segment) processes process (some ph) base elf v with
              | (rc, pages, v) =>
                  let reads := roundReads ++ pType offset :: mapSegmentReads offset ph pages
                  if rc ≠ kernelSuccess then (rc, reads, v)
                  else
                    let (rc, rest, v) :=
                      mapLoop refusals processes process base elf rounds (i + 1) (segment + 1) v
                    (rc, reads ++ rest, v)
            else
              let (rc, rest, v) :=
                mapLoop refusals processes process base elf rounds (i + 1) segment v
              (rc, roundReads ++ pType offset :: rest, v)
      else (kernelSuccess, [ePhnum], v)

/-- What `process_exec` does once the segments are mapped. -/
def processEnter (process : Nat) (image : ElfImage) (k : Kernel) : Int × Kernel :=
  let k := k.setProcess process { k.process process with
    image := image
    userRip := image.entry }
  match pageWalkInternal k.vm (pageTablePointer (k.process process).pageTable)
      image.entry false with
  | (.error _, _) => (kernelEinval, k)
  | (.ok _, _) =>
      (kernelSuccess, k.setProcess process { k.process process with
        userRsp := wordSub (k.process process).userStackTop 8
        userRflags := userRflags
        isUserProcess := true })

/-- `process_exec` of the image at `base` in the heap. -/
def processExecAt (failures : ExecFailures) (process base : Nat) (k : Kernel) :
    Option (Int × List Span × Kernel) :=
  if process = null ∨ base = null then some (kernelEinval, [], k)
  else do
    let (status, image, reads, heap) ← elfLoadImageAt failures.image base k.heap
    let k := { k with heap := heap }
    if status ≠ kernelSuccess then some (status, reads, k)
    else
      match mapLoop failures.pages k.sched.processes process base (elfAt base heap.mem)
          phnumBound 0 0 k.vm with
      | (rc, mapReads, v) =>
          if rc ≠ kernelSuccess then some (rc, reads ++ mapReads, k.withVm v)
          else
            let entered := processEnter process image (k.withVm v)
            some (entered.1, reads ++ mapReads, entered.2)

-- ===================================================== process_exec_file.c

/-- `EXEC_BUFFER_SIZE`. -/
def execBufferSize : Nat := 65536

/-- Which of the calls that `process_exec_file` makes are made to fail. -/
structure ExecFileFailures where
  file : Bool := false
  buffer : Bool := false
  exec : ExecFailures := {}

/-- The file is open, and the first `delivered` bytes of `buffer` are what
was read of it. -/
structure ExecBuffer where
  file : Nat
  buffer : Nat
  delivered : Nat

/-- `process_exec_file` up to its call of `process_exec`: the error it
returns, or the buffer with the file in it. -/
def execFileRead (failures : ExecFileFailures) (path : List Byte) (v : Vfs) :
    Option (Except Int ExecBuffer × Vfs) := do
  let (status, file, v) ← vfsOpen (some path) failures.file v
  let file := file.getD null
  if status ≠ kernelSuccess then some (.error status, v)
  else
    let (buffer, heap) ← kmallocUnless failures.buffer execBufferSize v.heap
    let v := { v with heap := heap }
    if buffer = null then some (.error kernelEnomem, fileClose file v)
    else
      let v := { v with heap := { v.heap with
        mem := fill v.heap.mem buffer 0#8 execBufferSize } }
      match vfsRead file buffer execBufferSize v with
      | (bytes, content, v) =>
          let v := { v with heap := { v.heap with
            mem := blit v.heap.mem buffer (content.getD · 0#8) content.length } }
          if bytes < 0 then
            some (.error bytes, fileClose file { v with heap := kfree buffer v.heap })
          else some (.ok ⟨file, buffer, content.length⟩, v)

/-- `process_exec_file`, with how many bytes were delivered and what was
read of the image. -/
def processExecFile (failures : ExecFileFailures) (process : Nat) (path : Option (List Byte))
    (k : Kernel) (v : Vfs) : Option (Int × Nat × List Span × Kernel × Vfs) :=
  match path with
  | none => some (kernelEinval, 0, [], k, v)
  | some path =>
      if process = null then some (kernelEinval, 0, [], k, v)
      else do
        let (stage, v) ← execFileRead failures path { v with heap := k.heap }
        match stage with
        | .error status => some (status, 0, [], { k with heap := v.heap }, v)
        | .ok ⟨file, buffer, delivered⟩ =>
            let (status, reads, k) ←
              processExecAt failures.exec process buffer { k with heap := v.heap }
            let v := { v with heap := k.heap }
            let v :=
              if status ≠ kernelSuccess then fileClose file { v with heap := kfree buffer v.heap }
              else
                let v := fileClose file v
                { v with heap := kfree buffer v.heap }
            some (status, delivered, reads, { k with heap := v.heap }, v)

end ZenithOS.Proc
