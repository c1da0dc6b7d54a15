/-
The physical page allocator: `mm/bitmap.c` and `mm/pmm.c`.

One bit per 4 KiB page, set when the page is used, in the static
`kernel_bitmap`; `next_free_page` is a hint below which the allocator
does not look first. Every counter and page number is a `Nat`; the
places where the source's `uint64_t` can wrap (`base + length`, the
rounding of a length up to pages, the rounding of the highest address)
carry their `% 2 ^ 64`. Page numbers are bounded by the bitmap, so
`page * PMM_PAGE_SIZE` and the loop bounds do not wrap.

A `void *` is its address; `null` is 0. The console output and the
totals that only the console output reads (`total_memory`,
`usable_memory`, `reserved_memory`, `highest_physical_address`) are not
modelled.
-/
import ZenithOS.Lib.Loop
import Mathlib.Logic.Function.Basic
import Mathlib.Tactic.NormNum

namespace ZenithOS.Mm

open Lib

/-- The `NULL` pointer. -/
def null : Nat := 0

-- ============================================================ bitmap.c

/-- `bitmap` and `bitmap_bits`: the buffer and how many of its bits
count. -/
structure Bitmap where
  bytes : Nat → BitVec 8
  bits : Nat

/-- `bitmap_init`: adopt the buffer and set every byte the bits need. -/
def bitmapInit (buffer : Nat → BitVec 8) (bits : Nat) : Bitmap :=
  { bytes := forUp (fun i b => Function.update b i 0xFF#8) 0 ((bits + 7) / 8) buffer
    bits := bits }

/-- `bitmap_set`. -/
def bitmapSet (b : Bitmap) (bit : Nat) : Bitmap :=
  if bit ≥ b.bits then b
  else { b with
    bytes := Function.update b.bytes (bit / 8)
      (b.bytes (bit / 8) ||| (1#8 <<< (bit % 8))) }

/-- `bitmap_clear`. -/
def bitmapClear (b : Bitmap) (bit : Nat) : Bitmap :=
  if bit ≥ b.bits then b
  else { b with
    bytes := Function.update b.bytes (bit / 8)
      (b.bytes (bit / 8) &&& ~~~(1#8 <<< (bit % 8))) }

/-- `bitmap_test`: out-of-range bits read as set. -/
def bitmapTest (b : Bitmap) (bit : Nat) : Bool :=
  if bit ≥ b.bits then true
  else (b.bytes (bit / 8) &&& (1#8 <<< (bit % 8))) != 0#8

-- =============================================================== pmm.c

/-- `PMM_PAGE_SIZE`. -/
def pmmPageSize : Nat := 4096

/-- `PMM_BITMAP_MAX_SIZE`. -/
def pmmBitmapMaxSize : Nat := 128 * 1024

/-- `PMM_BITMAP_MAX_BITS`. -/
def pmmBitmapMaxBits : Nat := pmmBitmapMaxSize * 8

/-- The file-scope state of `pmm.c`. `bitmap.bytes` is `kernel_bitmap`. -/
structure Pmm where
  bitmap : Bitmap
  totalPages : Nat
  freePages : Nat
  usedPages : Nat
  nextFreePage : Nat

/-- `pmm_address_to_page`. -/
def pmmAddressToPage (address : Nat) : Nat :=
  address / pmmPageSize

/-- `pmm_region_page_count`. -/
def pmmRegionPageCount (length : Nat) : Nat :=
  if length = 0 then 0
  else ((length + pmmPageSize - 1) % 2 ^ 64) / pmmPageSize

/-- `pmm_clamp_page_count`. -/
def pmmClampPageCount (p : Pmm) (startPage pageCount : Nat) : Nat :=
  if startPage ≥ p.totalPages then 0
  else if pageCount > p.totalPages - startPage then p.totalPages - startPage
  else pageCount

/-- `pmm_mark_page_used`. -/
def pmmMarkPageUsed (page : Nat) (p : Pmm) : Pmm :=
  if page ≥ p.totalPages then p
  else if bitmapTest p.bitmap page then p
  else { p with
    bitmap := bitmapSet p.bitmap page
    freePages := if p.freePages > 0 then p.freePages - 1 else p.freePages
    usedPages := p.usedPages + 1 }

/-- `pmm_mark_page_free`. -/
def pmmMarkPageFree (page : Nat) (p : Pmm) : Pmm :=
  if page = 0 ∨ page ≥ p.totalPages then p
  else if !bitmapTest p.bitmap page then p
  else { p with
    bitmap := bitmapClear p.bitmap page
    freePages := p.freePages + 1
    usedPages := if p.usedPages > 0 then p.usedPages - 1 else p.usedPages
    nextFreePage := if page < p.nextFreePage then page else p.nextFreePage }

/-- `pmm_reserve_region`. -/
def pmmReserveRegion (base length : Nat) (p : Pmm) : Pmm :=
  let startPage := base / pmmPageSize
  forUp pmmMarkPageUsed startPage
    (pmmClampPageCount p startPage (pmmRegionPageCount length)) p

/-- `pmm_unreserve_region`. -/
def pmmUnreserveRegion (base length : Nat) (p : Pmm) : Pmm :=
  let startPage := base / pmmPageSize
  forUp pmmMarkPageFree startPage
    (pmmClampPageCount p startPage (pmmRegionPageCount length)) p

/-- `pmm_lock_page`. -/
def pmmLockPage (address : Nat) (p : Pmm) : Pmm :=
  pmmMarkPageUsed (pmmAddressToPage address) p

/-- `pmm_unlock_page`. -/
def pmmUnlockPage (address : Nat) (p : Pmm) : Pmm :=
  pmmMarkPageFree (pmmAddressToPage address) p

/-- `pmm_unlock_pages`. -/
def pmmUnlockPages (address count : Nat) (p : Pmm) : Pmm :=
  let page := pmmAddressToPage address
  forUp pmmMarkPageFree page (pmmClampPageCount p page count) p

/-- `pmm_lock_pages`. -/
def pmmLockPages (address count : Nat) (p : Pmm) : Pmm :=
  let page := pmmAddressToPage address
  forUp pmmMarkPageUsed page (pmmClampPageCount p page count) p

/-- The loop of `pmm_seek_next_free_page` from `page`, for at most
`fuel` iterations; the loop leaves by itself within `total_pages - page`
of them. -/
def pmmSeekFrom (p : Pmm) : Nat → Nat → Nat
  | 0, page => page
  | fuel + 1, page =>
      if page < p.totalPages ∧ bitmapTest p.bitmap page then
        pmmSeekFrom p fuel (page + 1)
      else page

/-- `pmm_seek_next_free_page`. -/
def pmmSeekNextFreePage (p : Pmm) : Pmm :=
  { p with
    nextFreePage := pmmSeekFrom p (p.totalPages - p.nextFreePage) p.nextFreePage }

/-- One pass of `pmm_alloc_page`'s scan: the first clear page of
`[first, last)`. -/
def pmmScan (p : Pmm) (first last : Nat) : Option Nat :=
  (List.range' first (last - first)).find? fun page => !bitmapTest p.bitmap page

/-- What `pmm_alloc_page` does with the clear page it found. -/
def pmmTakePage (p : Pmm) (page : Nat) : Nat × Pmm :=
  let p := pmmMarkPageUsed page p
  let next := page + 1
  let p := { p with nextFreePage := if next ≥ p.totalPages then 0 else next }
  (page * pmmPageSize, pmmSeekNextFreePage p)

/-- `pmm_alloc_page`: pass 0 scans from the hint up, pass 1 below it. -/
def pmmAllocPage (p : Pmm) : Nat × Pmm :=
  if p.freePages = 0 then (null, p)
  else
    match pmmScan p p.nextFreePage p.totalPages with
    | some page => pmmTakePage p page
    | none =>
        match pmmScan p 0 p.nextFreePage with
        | some page => pmmTakePage p page
        | none => (null, p)

/-- `pmm_free_page`. -/
def pmmFreePage (address : Nat) (p : Pmm) : Pmm :=
  pmmUnlockPage address p

/-- `pmm_get_free_pages`. -/
def pmmGetFreePages (p : Pmm) : Nat := p.freePages

/-- `pmm_get_used_pages`. -/
def pmmGetUsedPages (p : Pmm) : Nat := p.usedPages

/-- `pmm_get_total_pages`. -/
def pmmGetTotalPages (p : Pmm) : Nat := p.totalPages

-- ============================================================ pmm_init

/-- The memory-map entry types of the boot protocol. -/
inductive MemmapType
  | usable
  | reserved
  | acpiReclaimable
  | acpiNvs
  | badMemory
  | bootloaderReclaimable
  | executableAndModules
  | framebuffer
  deriving DecidableEq, Repr

/-- `struct limine_memmap_entry`. -/
structure MemmapEntry where
  base : Nat
  length : Nat
  type : MemmapType
  deriving DecidableEq, Repr

/-- `highest_address` after the first loop of `pmm_init`. -/
def pmmHighestAddress (response : List MemmapEntry) : Nat :=
  response.foldl (fun highest entry =>
    let stop := (entry.base + entry.length) % 2 ^ 64
    if entry.type = .usable ∧ stop > highest then stop else highest) 0

/-- `pmm_reserve_memmap_type`. -/
def pmmReserveMemmapType (response : List MemmapEntry) (type : MemmapType)
    (p : Pmm) : Pmm :=
  response.foldl (fun p entry =>
    if entry.type ≠ type then p
    else pmmReserveRegion entry.base entry.length p) p

/-- `pmm_mark_usable`. -/
def pmmMarkUsable (response : List MemmapEntry) (p : Pmm) : Pmm :=
  response.foldl (fun p entry =>
    if entry.type ≠ .usable then p
    else
      let startPage := entry.base / pmmPageSize
      forUp pmmMarkPageFree startPage
        (pmmClampPageCount p startPage (pmmRegionPageCount entry.length)) p) p

/-- The kernel image's pages: `executable_response->physical_base` and
`_kernel_end - _kernel_start`, when the response is there. -/
def pmmReserveKernel (executable : Option (Nat × Nat)) (p : Pmm) : Pmm :=
  match executable with
  | some (physicalBase, kernelSize) => pmmReserveRegion physicalBase kernelSize p
  | none => p

/-- `pmm_init`; the flag says whether the memory map was accepted. -/
def pmmInit (old : Pmm) (response : List MemmapEntry)
    (executable : Option (Nat × Nat)) : Bool × Pmm :=
  let totalPages :=
    ((pmmHighestAddress response + pmmPageSize - 1) % 2 ^ 64) / pmmPageSize
  let p := { old with
    totalPages := totalPages, freePages := 0, usedPages := 0, nextFreePage := 0 }
  if (totalPages + 7) / 8 > pmmBitmapMaxSize ∨ totalPages > pmmBitmapMaxBits then
    (false, p)
  else
    let p := { p with bitmap := bitmapInit old.bitmap.bytes totalPages }
    let p := pmmMarkUsable response p
    let p := pmmReserveRegion 0 pmmPageSize p
    let p := pmmReserveKernel executable p
    let p := pmmReserveMemmapType response .bootloaderReclaimable p
    let p := pmmReserveMemmapType response .executableAndModules p
    let p := pmmReserveMemmapType response .framebuffer p
    (true, pmmSeekNextFreePage p)

-- ================================================================ runs

/-- The allocator's entry points. -/
inductive PmmOp
  | allocPage
  | freePage (address : Nat)
  | lockPage (address : Nat)
  | unlockPage (address : Nat)
  | lockPages (address count : Nat)
  | unlockPages (address count : Nat)
  | reserveRegion (base length : Nat)
  | unreserveRegion (base length : Nat)
  deriving DecidableEq, Repr

/-- One call. -/
def pmmStep (p : Pmm) : PmmOp → Pmm
  | .allocPage => (pmmAllocPage p).2
  | .freePage address => pmmFreePage address p
  | .lockPage address => pmmLockPage address p
  | .unlockPage address => pmmUnlockPage address p
  | .lockPages address count => pmmLockPages address count p
  | .unlockPages address count => pmmUnlockPages address count p
  | .reserveRegion base length => pmmReserveRegion base length p
  | .unreserveRegion base length => pmmUnreserveRegion base length p

/-- Calls in order. -/
def pmmRun (p : Pmm) (ops : List PmmOp) : Pmm :=
  ops.foldl pmmStep p

end ZenithOS.Mm
