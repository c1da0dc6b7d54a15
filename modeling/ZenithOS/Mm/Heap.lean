/-
The kernel heap: `mm/heap.c`.

# Memory

The heap lives in the virtual range from `HEAP_START_ADDRESS` on, in
frames that only the heap has; `mem` is the memory of that range, by
virtual address. A `heap_block_t` is 32 bytes: `size` at 0, `free` at 8,
`next` at 16, `prev` at 24. Pointers are addresses and `NULL` is 0;
sums of pointers and sizes are 64-bit.

# Growth

A page is committed with `pmm_alloc_page` and `page_table_map_page`. Each
may fail by itself; beyond that `refusals` says which of the coming
commits are made to fail, and where. The bytes of a fresh page are those
its frame happens to hold.

# Loops

A walk along the list takes fuel, one unit a block, and is `none` when
that runs out. The console output is not modelled, nor
`heap_virtual_end`, which nothing reads.
-/
import ZenithOS.Klib.Memory
import ZenithOS.Vmm.PageTable
import ZenithOS.Vmm.Vma

namespace ZenithOS.Mm

open Lib Klib Vmm

/-- `HEAP_START_ADDRESS`. -/
def heapStartAddress : Nat := 0xFFFF900000000000

/-- `HEAP_INITIAL_SIZE`. -/
def heapInitialSize : Nat := 4 * 1024

/-- `HEAP_MAX_SIZE`, which `heap.c` does not use. -/
def heapMaxSize : Nat := 64 * 1024 * 1024

/-- `HEAP_GROW_SIZE`. -/
def heapGrowSize : Nat := 4096

/-- `HEAP_ALIGNMENT`. -/
def heapAlignment : Nat := 16

/-- `sizeof(heap_block_t)`. -/
def heapBlockBytes : Nat := 32

/-- What the environment does to a commit: nothing, or `pmm_alloc_page`
or `page_table_map_page` fails. -/
inductive Refusal
  | granted
  | noPage
  | noMap
  deriving DecidableEq, Repr

/-- The file-scope state of `heap.c` and what it works on. -/
structure Heap where
  mem : Mem
  vm : Vm
  vma : VmaTable
  refusals : List Refusal
  head : Nat
  size : Nat
  virtualStart : Nat
  committedEnd : Nat
  heapVma : Option Nat

-- ============================================================ heap_block_t

/-- `block->size`. -/
def blockSize (m : Mem) (block : Nat) : Nat := loadWord m block

/-- `block->free`. -/
def blockFree (m : Mem) (block : Nat) : Bool := m (block + 8) != 0#8

/-- `block->next`. -/
def blockNext (m : Mem) (block : Nat) : Nat := loadWord m (block + 16)

/-- `block->prev`. -/
def blockPrev (m : Mem) (block : Nat) : Nat := loadWord m (block + 24)

/-- Assigns `block->size`. -/
def setBlockSize (block size : Nat) (m : Mem) : Mem := storeWord m block size

/-- Assigns `block->free`. -/
def setBlockFree (block : Nat) (free : Bool) (m : Mem) : Mem :=
  storeByte m (block + 8) (if free then 1#8 else 0#8)

/-- Assigns `block->next`. -/
def setBlockNext (block next : Nat) (m : Mem) : Mem := storeWord m (block + 16) next

/-- Assigns `block->prev`. -/
def setBlockPrev (block prev : Nat) (m : Mem) : Mem := storeWord m (block + 24) prev

/-- `block + 1`: the payload. -/
def blockPayload (block : Nat) : Nat := wordAdd block heapBlockBytes

-- ================================================================ the list

/-- `find_free_block` from `current` on. -/
def findFreeBlockFrom (m : Mem) (size : Nat) : Nat → Nat → Option Nat
  | 0, _ => none
  | fuel + 1, current =>
      if current = null then some null
      else if blockFree m current ∧ blockSize m current ≥ size then some current
      else findFreeBlockFrom m size fuel (blockNext m current)

/-- `split_block`. -/
def splitBlock (block size : Nat) (m : Mem) : Mem :=
  if blockSize m block ≤ wordAdd size heapBlockBytes then m
  else
    let newBlock := wordAdd (blockPayload block) size
    let m := setBlockSize newBlock
      (wordSub (wordSub (blockSize m block) size) heapBlockBytes) m
    let m := setBlockFree newBlock true m
    let m := setBlockNext newBlock (blockNext m block) m
    let m := setBlockPrev newBlock block m
    let m := if blockNext m block ≠ null then
      setBlockPrev (blockNext m block) newBlock m else m
    let m := setBlockNext block newBlock m
    setBlockSize block size m

/-- `merge_with_next`. -/
def mergeWithNext (block : Nat) (m : Mem) : Mem :=
  if block = null then m
  else
    let next := blockNext m block
    if next = null then m
    else if !blockFree m next then m
    else
      let m := setBlockSize block
        (wordAdd (blockSize m block) (wordAdd heapBlockBytes (blockSize m next))) m
      let m := setBlockNext block (blockNext m next) m
      if blockNext m next ≠ null then setBlockPrev (blockNext m next) block m else m

/-- `merge_with_previous`. -/
def mergeWithPrevious (block : Nat) (m : Mem) : Mem :=
  if block = null then m
  else
    let prev := blockPrev m block
    if prev = null then m
    else if !blockFree m prev then m
    else
      let m := setBlockSize prev
        (wordAdd (blockSize m prev) (wordAdd heapBlockBytes (blockSize m block))) m
      let m := setBlockNext prev (blockNext m block) m
      if blockNext m block ≠ null then setBlockPrev (blockNext m block) prev m else m

/-- `coalesce_free_blocks` from `current` on; the inner loop's test comes
first. -/
def coalesceFreeBlocksFrom : Nat → Nat → Mem → Option Mem
  | 0, _, _ => none
  | fuel + 1, current, m =>
      if current = null then some m
      else if blockFree m current ∧ blockNext m current ≠ null
          ∧ blockFree m (blockNext m current) then
        coalesceFreeBlocksFrom fuel current (mergeWithNext current m)
      else coalesceFreeBlocksFrom fuel (blockNext m current) m

/-- `align_size`. -/
def alignSize (size : Nat) : Nat :=
  wordAdd size (heapAlignment - 1) / heapAlignment * heapAlignment

/-- `find_last_block` from `current` on. -/
def findLastBlockFrom (m : Mem) : Nat → Nat → Option Nat
  | 0, _ => none
  | fuel + 1, current =>
      if blockNext m current ≠ null then findLastBlockFrom m fuel (blockNext m current)
      else some current

/-- A list of blocks of 32 bytes and more fits so many times into the
heap. -/
def walkFuel (h : Heap) : Nat := h.size / heapBlockBytes + 1

/-- `find_free_block`. -/
def findFreeBlock (h : Heap) (size : Nat) : Option Nat :=
  findFreeBlockFrom h.mem size (walkFuel h) h.head

/-- `coalesce_free_blocks`. -/
def coalesceFreeBlocks (h : Heap) : Option Heap :=
  (coalesceFreeBlocksFrom (walkFuel h) h.head h.mem).map fun m => { h with mem := m }

/-- `find_last_block`. -/
def findLastBlock (h : Heap) : Option Nat :=
  findLastBlockFrom h.mem (walkFuel h) h.head

-- =================================================================== growth

/-- `heap_commit_page`, told whether it succeeded. -/
def heapCommitPage (virtualAddress : Nat) (h : Heap) : Bool × Heap :=
  let refusal := h.refusals.headD .granted
  let h := { h with refusals := h.refusals.tail }
  if refusal = .noPage then (false, h)
  else
    let (physical, pmm) := pmmAllocPage h.vm.pmm
    let h := { h with vm := { h.vm with pmm := pmm } }
    if physical = null ∨ refusal = .noMap then (false, h)
    else
      match pageTableMapPage h.vm virtualAddress physical true with
      | (false, vm) => (false, { h with vm := vm })
      | (true, vm) =>
          (true, { h with
            vm := vm
            mem := blit h.mem virtualAddress (fun i => vm.mem (physical + i)) pageSize
            committedEnd := wordAdd h.committedEnd pageSize })

/-- `heap_create_block`. -/
def heapCreateBlock (block size : Nat) (m : Mem) : Mem :=
  let m := setBlockSize block (wordSub size heapBlockBytes) m
  let m := setBlockFree block true m
  let m := setBlockNext block null m
  setBlockPrev block null m

/-- What `heap_expand` writes for a new page after the block `last`. -/
def heapLinkPage (last virtualPage : Nat) (m : Mem) : Mem :=
  let m := heapCreateBlock virtualPage pageSize m
  let m := setBlockNext last virtualPage m
  let m := setBlockPrev virtualPage last m
  if blockFree m last then mergeWithNext last m else m

/-- `heap_committed_size`. -/
def heapCommittedSize (h : Heap) : Nat := wordSub h.committedEnd h.virtualStart

/-- `heap_expand`. -/
def heapExpand (h : Heap) : Option (Bool × Heap) :=
  match h.heapVma with
  | none => some (false, h)
  | some vma =>
      let virtualPage := h.committedEnd
      match heapCommitPage virtualPage h with
      | (false, h) => some (false, h)
      | (true, h) => do
          let last ← findLastBlock h
          let size := wordSub h.committedEnd h.virtualStart
          some (true, { h with
            mem := heapLinkPage last virtualPage h.mem
            size := size
            vma := (vmaResize h.vma (h.vma.entry vma).start size).2 })

/-- The loop of `heap_grow`. -/
def heapGrowFrom (bytes : Nat) : Nat → Heap → Option (Bool × Heap)
  | 0, _ => none
  | fuel + 1, h =>
      if heapCommittedSize h < bytes then
        match heapExpand h with
        | none => none
        | some (false, h) => some (false, h)
        | some (true, h) => heapGrowFrom bytes fuel h
      else some (true, h)

/-- `heap_grow`; every round commits a page. -/
def heapGrow (bytes : Nat) (h : Heap) : Option (Bool × Heap) :=
  heapGrowFrom bytes (bytes / pageSize + 1) h

/-- `heap_init`; the flag says whether it reached its end. -/
def heapInit (h : Heap) : Bool × Heap :=
  let (heapPhysical, pmm) := pmmAllocPage h.vm.pmm
  let h := { h with vm := { h.vm with pmm := pmm } }
  if heapPhysical = null then (false, h)
  else
    match pageTableMapPage h.vm heapStartAddress heapPhysical true with
    | (false, vm) => (false, { h with vm := vm })
    | (true, vm) =>
        let h := { h with
          vm := vm
          mem := blit h.mem heapStartAddress (fun i => vm.mem (heapPhysical + i)) pageSize
          virtualStart := heapStartAddress
          committedEnd := heapStartAddress + heapInitialSize
          heapVma := vmaFind h.vma heapStartAddress }
        match h.heapVma with
        | none => (false, h)
        | some _ =>
            (true, { h with
              size := heapInitialSize
              head := heapStartAddress
              mem := setBlockPrev heapStartAddress null
                (setBlockNext heapStartAddress null
                  (setBlockFree heapStartAddress true
                    (setBlockSize heapStartAddress
                      (wordSub heapInitialSize heapBlockBytes) h.mem))) })

-- ================================================================= the API

/-- The loop of `kmalloc`. -/
def kmallocFrom (size : Nat) : Nat → Heap → Option (Nat × Heap)
  | 0, _ => none
  | fuel + 1, h => do
      let h ← coalesceFreeBlocks h
      let block ← findFreeBlock h size
      if block ≠ null then
        let m := splitBlock block size h.mem
        let m := setBlockFree block false m
        some (blockPayload block, { h with mem := m })
      else
        let (grown, h) ← heapGrow (wordAdd (heapCommittedSize h) heapGrowSize) h
        if grown then kmallocFrom size fuel h else some (null, h)

/-- `kmalloc`; every round but the last adds a page to the free space at
the end. -/
def kmalloc (size : Nat) (h : Heap) : Option (Nat × Heap) :=
  if size = 0 then some (null, h)
  else kmallocFrom (alignSize size) (alignSize size / pageSize + 3) h

/-- `kcalloc`; the product fits once the second test is passed. -/
def kcalloc (count size : Nat) (h : Heap) : Option (Nat × Heap) :=
  if count = 0 ∨ size = 0 then some (null, h)
  else if count > (2 ^ 64 - 1) / size then some (null, h)
  else do
    let total := count * size % 2 ^ 64
    let (ptr, h) ← kmalloc total h
    if ptr = null then some (null, h)
    else some (ptr, { h with mem := kMemset h.mem ptr 0#8 total })

/-- `kmalloc`, or its failure. -/
def kmallocUnless (refuse : Bool) (size : Nat) (h : Heap) : Option (Nat × Heap) :=
  if refuse then some (null, h) else kmalloc size h

/-- `((heap_block_t *)ptr) - 1`. -/
def payloadBlock (ptr : Nat) : Nat := wordSub ptr heapBlockBytes

/-- `kfree`. -/
def kfree (ptr : Nat) (h : Heap) : Heap :=
  if ptr = null then h
  else
    let block := payloadBlock ptr
    { h with
      mem := mergeWithPrevious block (mergeWithNext block
        (setBlockFree block true h.mem)) }

/-- `krealloc`. -/
def krealloc (ptr size : Nat) (h : Heap) : Option (Nat × Heap) :=
  if ptr = null then kmalloc size h
  else if size = 0 then some (null, kfree ptr h)
  else
    let size := alignSize size
    let block := payloadBlock ptr
    if blockSize h.mem block ≥ size then some (ptr, h)
    else do
      let (newPtr, h) ← kmalloc size h
      if newPtr = null then some (null, h)
      else
        some (newPtr, kfree ptr
          { h with mem := kMemcpy h.mem newPtr ptr (blockSize h.mem block) })

end ZenithOS.Mm
