/-
A process's user pages: `process/process_memory.c`,
`process/process_heap.c` and `process/process_loader.c`.

# Pages

The stack, the heap and a segment get each of their pages the same way:
`pmm_alloc_page`, then `page_table_map_user`, and the page given back when
that fails (`mapNewPage`). Each of the two calls may fail by itself; a
`Refusal` makes it fail.

# Objects

A `process_t *` is its address and `processes` what is there. The ELF
image is not in the frames these functions write: `elf` is the bytes from
`elf_base` on. The console output is not modelled; the segment loop's
counter, which it prints, is part of the result.
-/
import ZenithOS.Klib.String
import ZenithOS.Mm.Heap
import ZenithOS.Proc.Types

namespace ZenithOS.Proc

open Lib Mm Vmm Klib

/-- `USER_HEAP_BASE`. -/
def userHeapBase : Nat := 0x800000

/-- `USER_STACK_TOP`. -/
def userStackTop : Nat := 0x00007FFFFFFFF000

/-- `USER_STACK_SIZE`. -/
def userStackSize : Nat := 1024 * 1024

-- ================================================================= one page

/-- A `page_table_t *` field as the page tables take it. -/
def pageTablePointer (pointer : Nat) : Option Nat :=
  if pointer = null then none else some pointer

/-- A new page at `va` for users: the frame, or `none`. -/
def mapNewPage (refusal : Refusal) (pml4 : Option Nat) (va : Nat) (writable : Bool) (v : Vm) :
    Option Nat × Vm :=
  if refusal = .noPage then (none, v)
  else
    let (page, pmm) := pmmAllocPage v.pmm
    let v := { v with pmm := pmm }
    if page = null then (none, v)
    else
      let (mapped, v) :=
        if refusal = .noMap then (false, v) else pageTableMapUser v pml4 va page writable
      if mapped then (some page, v) else (none, { v with pmm := pmmFreePage page v.pmm })

/-- `process_map_initial_stack`. -/
def processMapInitialStack (refusal : Refusal) (processes : Nat → Process) (process : Nat)
    (v : Vm) : Int × Vm :=
  if process = null then (kernelEinval, v)
  else
    let stackPage := wordSub (processes process).userStackTop pageSize
    match mapNewPage refusal (pageTablePointer (processes process).pageTable) stackPage true v with
    | (none, v) => (kernelEnomem, v)
    | (some _, v) => (kernelSuccess, v)

/-- `process_heap_expand`. -/
def processHeapExpand (refusal : Refusal) (processes : Nat → Process) (process : Nat)
    (v : Vm) : Int × (Nat → Process) × Vm :=
  if process = null then (kernelEinval, processes, v)
  else
    let heapPage := (processes process).userHeapEnd
    match mapNewPage refusal (pageTablePointer (processes process).pageTable) heapPage true v with
    | (none, v) => (kernelEnomem, processes, v)
    | (some _, v) =>
        let heapEnd := wordAdd heapPage pageSize
        (kernelSuccess,
          Function.update processes process
            { processes process with userHeapEnd := heapEnd, userHeapCurrent := heapEnd },
          v)

-- ================================================================ segments

/-- The fields of `elf64_program_header_t` that the loader reads. -/
structure ElfProgramHeader where
  type : Nat
  flags : Nat
  offset : Nat
  vaddr : Nat
  filesz : Nat
  memsz : Nat
  deriving DecidableEq, Repr

/-- `PT_LOAD`. -/
def ptLoad : Nat := 1

/-- `PF_W`. -/
def pfW : Nat := 0x2

/-- How much of `size` falls into the page at `pageOffset`. -/
def bytesInPage (size pageOffset : Nat) : Nat :=
  if pageOffset < size then
    if size - pageOffset > pageSize then pageSize else size - pageOffset
  else 0

/-- What the loader writes into the page it mapped for `pageOffset`. -/
def loadSegmentPage (ph : ElfProgramHeader) (elf : Nat → Byte) (page pageOffset : Nat) (m : Mem) :
    Mem :=
  let bytesToCopy := bytesInPage ph.filesz pageOffset
  let m :=
    if bytesToCopy > 0 then
      blit m page (fun j => elf (wordAdd (wordAdd ph.offset pageOffset) j)) bytesToCopy
    else m
  let bytesInMemory := bytesInPage ph.memsz pageOffset
  if bytesInMemory > bytesToCopy then
    fill m (page + bytesToCopy) 0#8 (bytesInMemory - bytesToCopy)
  else m

/-- The address of a segment's `i`-th page. -/
def segmentPage (ph : ElfProgramHeader) (i : Nat) : Nat := wordAdd ph.vaddr (i * pageSize)

/-- The loop of `process_map_segment` from round `i` on, with the round
it left in. -/
def processMapSegmentFrom (refusals : Nat → Refusal) (pml4 : Option Nat) (ph : ElfProgramHeader)
    (elf : Nat → Byte) : Nat → Nat → Vm → Int × Nat × Vm
  | 0, i, v => (kernelSuccess, i, v)
  | rounds + 1, i, v =>
      match mapNewPage (refusals i) pml4 (segmentPage ph i) (ph.flags &&& pfW != 0) v with
      | (none, v) => (kernelEnomem, i, v)
      | (some page, v) =>
          processMapSegmentFrom refusals pml4 ph elf rounds (i + 1)
            { v with mem := loadSegmentPage ph elf page (i * pageSize) v.mem }

/-- `page_count` of `process_map_segment`. -/
def segmentPageCount (ph : ElfProgramHeader) : Nat :=
  wordSub (wordAdd ph.memsz pageSize) 1 / pageSize

/-- `process_map_segment`, with how many pages it mapped. -/
def processMapSegment (refusals : Nat → Refusal) (processes : Nat → Process) (process : Nat)
    (ph : Option ElfProgramHeader) (elfBase : Nat) (elf : Nat → Byte) (v : Vm) :
    Int × Nat × Vm :=
  if process = null then (kernelEinval, 0, v)
  else
    match ph with
    | none => (kernelEinval, 0, v)
    | some ph =>
        if elfBase = null then (kernelEinval, 0, v)
        else
          processMapSegmentFrom refusals (pageTablePointer (processes process).pageTable) ph elf
            (segmentPageCount ph) 0 v

end ZenithOS.Proc
