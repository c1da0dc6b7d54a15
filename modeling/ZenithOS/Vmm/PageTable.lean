/-
Page tables: `vmm/page_table.c`.

# Pointers

A `page_table_t *` is the physical address of its frame: the code only
ever makes such pointers with `page_table_physical_to_virtual`, and all
of physical memory is mapped at `hhdm_offset`, so an access through one
is an access to `mem` at the frame. What is left of the virtual address
is whether it is `NULL`, which `pageTablePhysicalToVirtual` decides. A
`page_entry_t *` is the table with an index.

Entries, addresses and flags are `uint64_t`, kept as naturals below
`2 ^ 64`; `invlpg` and the `kprintf` lines are not modelled, and a walk's
status, which the code only prints, is the error of the walk.
-/
import ZenithOS.Lib.Mem
import ZenithOS.Mm.Pmm

namespace ZenithOS.Vmm

open Lib Mm

-- ============================================================ page_table.h

/-- `PAGE_SIZE`. -/
def pageSize : Nat := 4096

/-- `PAGE_PRESENT`. -/
def pagePresent : Nat := 1 <<< 0

/-- `PAGE_WRITABLE`. -/
def pageWritable : Nat := 1 <<< 1

/-- `PAGE_USER`. -/
def pageUser : Nat := 1 <<< 2

/-- `PAGE_HUGE`. -/
def pageHuge : Nat := 1 <<< 7

/-- `PML4_INDEX`. -/
def pml4Index (addr : Nat) : Nat := (addr >>> 39) &&& 0x1FF

/-- `PDPT_INDEX`. -/
def pdptIndex (addr : Nat) : Nat := (addr >>> 30) &&& 0x1FF

/-- `PD_INDEX`. -/
def pdIndex (addr : Nat) : Nat := (addr >>> 21) &&& 0x1FF

/-- `PT_INDEX`. -/
def ptIndex (addr : Nat) : Nat := (addr >>> 12) &&& 0x1FF

/-- `PAGE_TABLE_ADDRESS_MASK`. -/
def pageTableAddressMask : Nat := 0x000FFFFFFFFFF000

/-- `PAGE_2MIB_SIZE`. -/
def page2mibSize : Nat := 1 <<< 21

/-- `PAGE_1GIB_SIZE`. -/
def page1gibSize : Nat := 1 <<< 30

/-- `page_is_present`. -/
def pageIsPresent (entry : Nat) : Bool := entry &&& pagePresent != 0

/-- `page_is_writable`. -/
def pageIsWritable (entry : Nat) : Bool := entry &&& pageWritable != 0

/-- `page_is_user`. -/
def pageIsUser (entry : Nat) : Bool := entry &&& pageUser != 0

/-- `entry & PAGE_HUGE`. -/
def pageIsHuge (entry : Nat) : Bool := entry &&& pageHuge != 0

/-- `entry & PAGE_TABLE_ADDRESS_MASK`. -/
def pageAddress (entry : Nat) : Nat := entry &&& pageTableAddressMask

/-- `page_walk_level_t`. -/
inductive PageWalkLevel
  | none
  | pt
  | pd
  | pdpt
  deriving DecidableEq, Repr

/-- `page_walk_status_t`. -/
inductive PageWalkStatus
  | ok
  | invalidRoot
  | missingPml4Entry
  | missingPdptEntry
  | missingPdEntry
  | missingPtEntry
  | hugePagePdpt
  | hugePagePd
  | allocationFailed
  | hhdmUnconfigured
  deriving DecidableEq, Repr

/-- Physical memory, the page allocator, and the file-scope state of
`page_table.c`. -/
structure Vm where
  mem : Mem
  pmm : Pmm
  hhdmOffset : Nat
  hhdmReady : Bool
  kernelPml4 : Option Nat
  kernelPml4Physical : Nat
  activePml4Physical : Nat
  cr3 : Nat

/-- `table->entries[index]`. -/
def pageEntry (m : Mem) (table index : Nat) : Nat :=
  loadWord m (table + 8 * index)

/-- `table->entries[index] = entry`. -/
def setPageEntry (v : Vm) (table index entry : Nat) : Vm :=
  { v with mem := storeWord v.mem (table + 8 * index) entry }

/-- `page_table_physical_to_virtual`: the frame, or `NULL`. -/
def pageTablePhysicalToVirtual (hhdmOffset physicalAddress : Nat) : Option Nat :=
  if (physicalAddress + hhdmOffset) % 2 ^ 64 = 0 then none else some physicalAddress

-- ================================================================ the walk

/-- `ensure_next_table` on a table that is not `NULL`. -/
def ensureNextTable (v : Vm) (table index : Nat) (create : Bool)
    (missingStatus : PageWalkStatus) : Except PageWalkStatus Nat × Vm :=
  let entry := pageEntry v.mem table index
  if pageIsPresent entry then
    match pageTablePhysicalToVirtual v.hhdmOffset (pageAddress entry) with
    | some next => (.ok next, v)
    | none => (.error .ok, v)
  else if !create then (.error missingStatus, v)
  else
    let (physicalPage, pmm) := pmmAllocPage v.pmm
    if physicalPage = null then (.error .allocationFailed, { v with pmm := pmm })
    else
      match pageTablePhysicalToVirtual v.hhdmOffset physicalPage with
      | none => (.error .hhdmUnconfigured, { v with pmm := pmmFreePage physicalPage pmm })
      | some newTable =>
          let v := { v with pmm := pmm, mem := fill v.mem newTable 0#8 pageSize }
          (.ok newTable,
            setPageEntry v table index (physicalPage ||| pagePresent ||| pageWritable))

/-- Where a walk ends: the entry pointer and its level, or a status. -/
abbrev PageWalk := Except PageWalkStatus ((Nat × Nat) × PageWalkLevel)

/-- The test of a PDPT or PD entry between two tables: `some` outcome
ends the walk, at the entry or with a status. -/
def checkMiddleEntry (v : Vm) (table index : Nat) (create : Bool)
    (level : PageWalkLevel) (huge missing : PageWalkStatus) :
    Option PageWalk :=
  let entry := pageEntry v.mem table index
  if pageIsPresent entry then
    if pageIsHuge entry then
      if create then some (.error huge) else some (.ok ((table, index), level))
    else none
  else if !create then some (.error missing)
  else none

/-- `page_walk_internal` from the page table on. -/
def pageWalkPt (v : Vm) (pt virtualAddress : Nat) (create : Bool) : PageWalk × Vm :=
  let index := ptIndex virtualAddress
  if !create && !pageIsPresent (pageEntry v.mem pt index) then
    (.error .missingPtEntry, v)
  else (.ok ((pt, index), .pt), v)

/-- `page_walk_internal` from the page directory on. -/
def pageWalkPd (v : Vm) (pd virtualAddress : Nat) (create : Bool) : PageWalk × Vm :=
  let index := pdIndex virtualAddress
  match checkMiddleEntry v pd index create .pd .hugePagePd .missingPdEntry with
  | some outcome => (outcome, v)
  | none =>
      match ensureNextTable v pd index create .missingPdEntry with
      | (.error status, v) => (.error status, v)
      | (.ok pt, v) => pageWalkPt v pt virtualAddress create

/-- `page_walk_internal` from the page-directory-pointer table on. -/
def pageWalkPdpt (v : Vm) (pdpt virtualAddress : Nat) (create : Bool) :
    PageWalk × Vm :=
  let index := pdptIndex virtualAddress
  match checkMiddleEntry v pdpt index create .pdpt .hugePagePdpt .missingPdptEntry with
  | some outcome => (outcome, v)
  | none =>
      match ensureNextTable v pdpt index create .missingPdptEntry with
      | (.error status, v) => (.error status, v)
      | (.ok pd, v) => pageWalkPd v pd virtualAddress create

/-- `page_walk_internal`. -/
def pageWalkInternal (v : Vm) (pml4 : Option Nat) (virtualAddress : Nat)
    (create : Bool) : PageWalk × Vm :=
  match pml4 with
  | none => (.error .invalidRoot, v)
  | some pml4 =>
      match ensureNextTable v pml4 (pml4Index virtualAddress) create
          .missingPml4Entry with
      | (.error status, v) => (.error status, v)
      | (.ok pdpt, v) => pageWalkPdpt v pdpt virtualAddress create

/-- `page_table_current_root`. -/
def pageTableCurrentRoot (v : Vm) : Option Nat :=
  if !v.hhdmReady then none
  else pageTablePhysicalToVirtual v.hhdmOffset (pageAddress v.cr3)

/-- `page_table_active_root`. -/
def pageTableActiveRoot (v : Vm) : Option Nat :=
  match v.kernelPml4 with
  | some root => some root
  | none => pageTableCurrentRoot v

-- ============================================================= the service

/-- `page_table_create`: the new root, whose frame is also
`*physical_out`. -/
def pageTableCreate (v : Vm) : Option Nat × Vm :=
  let (physicalPage, pmm) := pmmAllocPage v.pmm
  if physicalPage = null then (none, { v with pmm := pmm })
  else
    match pageTablePhysicalToVirtual v.hhdmOffset physicalPage with
    | none => (none, { v with pmm := pmmFreePage physicalPage pmm })
    | some newPml4 =>
        let m := fill v.mem newPml4 0#8 pageSize
        let m :=
          match v.kernelPml4 with
          | some kernel => blit m newPml4 (fun i => m (kernel + i)) pageSize
          | none => m
        (some newPml4, { v with pmm := pmm, mem := m })

/-- `page_table_init`. -/
def pageTableInit (v : Vm) : Vm :=
  match v.kernelPml4 with
  | some _ => v
  | none =>
      let (pml4Physical, pmm) := pmmAllocPage v.pmm
      if pml4Physical = null then { v with pmm := pmm }
      else
        match pageTablePhysicalToVirtual v.hhdmOffset pml4Physical with
        | none => { v with pmm := pmmFreePage pml4Physical pmm, kernelPml4Physical := 0 }
        | some kernel =>
            match pageTableCurrentRoot v with
            | none =>
                { v with
                  pmm := pmmFreePage pml4Physical pmm, kernelPml4Physical := 0 }
            | some current =>
                { v with
                  pmm := pmm
                  kernelPml4 := some kernel
                  kernelPml4Physical := pml4Physical
                  mem := blit v.mem kernel (fun i => v.mem (current + i)) pageSize }

/-- The bits `flags & ~PAGE_PRESENT & ~PAGE_HUGE` keeps of a 64-bit
word. -/
def mapFlagsMask : Nat := 0xFFFFFFFFFFFFFF7E

/-- `page_table_map`. -/
def pageTableMap (v : Vm) (virtualAddress physicalAddress flags : Nat) : Bool × Vm :=
  match pageWalkInternal v (pageTableActiveRoot v) virtualAddress true with
  | (.error _, v) => (false, v)
  | (.ok ((table, index), level), v) =>
      if level ≠ .pt then (false, v)
      else
        (true, setPageEntry v table index
          ((physicalAddress &&& pageTableAddressMask) ||| (flags &&& mapFlagsMask)
            ||| pagePresent))

/-- `page_table_map_page`. -/
def pageTableMapPage (v : Vm) (virtualAddress physicalAddress : Nat)
    (writable : Bool) : Bool × Vm :=
  pageTableMap v virtualAddress physicalAddress (if writable then pageWritable else 0)

/-- `table->entries[index] |= PAGE_USER`, and the table the entry points
to. -/
def markUser (v : Vm) (table index : Nat) : Nat × Vm :=
  let entry := pageEntry v.mem table index
  (pageAddress entry, setPageEntry v table index (entry ||| pageUser))

/-- `page_table_map_user`. -/
def pageTableMapUser (v : Vm) (pml4 : Option Nat)
    (virtualAddress physicalAddress : Nat) (writable : Bool) : Bool × Vm :=
  let flags := pagePresent ||| pageUser ||| if writable then pageWritable else 0
  match pml4 with
  -- the walk finds no entry under `NULL`
  | none => (false, v)
  | some root =>
      match pageWalkInternal v pml4 virtualAddress true with
      | (.error _, v) => (false, v)
      | (.ok ((table, index), _), v) =>
          let (pdpt, v) := markUser v root (pml4Index virtualAddress)
          let (pd, v) := markUser v pdpt (pdptIndex virtualAddress)
          let (_, v) := markUser v pd (pdIndex virtualAddress)
          (true, setPageEntry v table index (physicalAddress ||| flags))

/-- `page_table_unmap`. -/
def pageTableUnmap (v : Vm) (virtualAddress : Nat) : Bool × Vm :=
  match pageWalkInternal v (pageTableActiveRoot v) virtualAddress false with
  | (.error _, v) => (false, v)
  | (.ok ((table, index), level), v) =>
      if level ≠ .pt then (false, v)
      else if !pageIsPresent (pageEntry v.mem table index) then (false, v)
      else (true, setPageEntry v table index 0)

/-- `page_size_for_level`. -/
def pageSizeForLevel : PageWalkLevel → Nat
  | .pt => pageSize
  | .pd => page2mibSize
  | .pdpt => page1gibSize
  | .none => 0

/-- `page_table_translate`. -/
def pageTableTranslate (v : Vm) (virtualAddress : Nat) : Nat :=
  match pageWalkInternal v (pageTableActiveRoot v) virtualAddress false with
  | (.error _, _) => 0
  | (.ok ((table, index), level), v) =>
      let entry := pageEntry v.mem table index
      if !pageIsPresent entry then 0
      else
        let size := pageSizeForLevel level
        if size = 0 then 0
        else pageAddress entry ||| (virtualAddress &&& (size - 1))

/-- `page_table_is_mapped`. -/
def pageTableIsMapped (v : Vm) (virtualAddress : Nat) : Bool :=
  match pageWalkInternal v (pageTableActiveRoot v) virtualAddress false with
  | (.error _, _) => false
  | (.ok ((table, index), _), v) => pageIsPresent (pageEntry v.mem table index)

end ZenithOS.Vmm
