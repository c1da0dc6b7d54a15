/-
What the page allocator's counters and its bits do not say.

# The used pages

`bitmap_init` marks every page used, but `pmm_init` starts with
`used_pages` at 0, and the guard of `pmm_mark_page_free` keeps it there
while the usable pages are freed. So the pages that are used from the
start are never counted. The two counters together stay below the number
of pages (`Undercounted`), for page 0 at least is never freed.

# Locked pages

A page has one bit, for whoever uses it. Locking a used page changes
nothing, so unlocking it afterwards frees it.
-/
import Mathlib.Order.Interval.Finset.Nat
import ZenithOS.Mm.Proofs.PmmBoot

namespace ZenithOS.Mm

open Lib

variable {n : Nat} {p p₀ old : Pmm} {response : List MemmapEntry} {executable : Option (Nat × Nat)}

-- ============================================================ the counters

/-- The pages in use. -/
def pmmSetPages (p : Pmm) : Finset Nat :=
  (Finset.range p.totalPages).filter fun page => bitmapTest p.bitmap page = true

/-- The counters say how many pages are clear, how many are set, and how
many there are. -/
def Accounts (p : Pmm) : Prop :=
  pmmGetFreePages p = (pmmClearPages p).card
    ∧ pmmGetUsedPages p = (pmmSetPages p).card
    ∧ pmmGetFreePages p + pmmGetUsedPages p = pmmGetTotalPages p

instance decidableAccounts (p : Pmm) : Decidable (Accounts p) :=
  inferInstanceAs (Decidable (_ ∧ _ ∧ _))

/-- Of `n` pages the two counters leave at least one out. -/
structure Undercounted (n : Nat) (p : Pmm) : Prop where
  inv : PmmInv p
  total : p.totalPages = n
  sum : p.freePages + p.usedPages ≤ n - 1

/-- Page 0 is never free. -/
theorem PmmInv.freePages_le_pred (hp : PmmInv p) : p.freePages ≤ p.totalPages - 1 := by
  have hsub : pmmClearPages p ⊆ Finset.Ico 1 p.totalPages := by
    intro page hmem
    obtain ⟨hlt, hclear⟩ := mem_pmmClearPages.mp hmem
    refine Finset.mem_Ico.mpr ⟨?_, hlt⟩
    by_contra hzero
    obtain rfl : page = 0 := by omega
    rw [hp.zero_used] at hclear
    cases hclear
  have hcard := Finset.card_le_card hsub
  rw [Nat.card_Ico] at hcard
  rw [hp.free_eq]
  exact hcard

/-- Marking a page used keeps it. -/
theorem Undercounted.markPageUsed (h : Undercounted n p) (page : Nat) :
    Undercounted n (pmmMarkPageUsed page p) := by
  refine ⟨h.inv.markPageUsed page, (pmmMarkPageUsed_totalPages page p).trans h.total, ?_⟩
  have hsum := h.sum
  unfold pmmMarkPageUsed
  by_cases hout : page ≥ p.totalPages
  · rw [if_pos hout]
    exact hsum
  rw [if_neg hout]
  by_cases hused : bitmapTest p.bitmap page = true
  · rw [if_pos hused]
    exact hsum
  · rw [if_neg hused]
    -- the page was clear, so there was a free one
    have hmem : page ∈ pmmClearPages p :=
      mem_pmmClearPages.mpr ⟨by omega, by simpa using hused⟩
    have hpos : p.freePages > 0 := by
      rw [h.inv.free_eq]
      exact Finset.card_pos.mpr ⟨page, hmem⟩
    show (if p.freePages > 0 then p.freePages - 1 else p.freePages) + (p.usedPages + 1) ≤ n - 1
    rw [if_pos hpos]
    omega

/-- Marking a page free keeps it. -/
theorem Undercounted.markPageFree (h : Undercounted n p) (page : Nat) :
    Undercounted n (pmmMarkPageFree page p) := by
  have hinv := h.inv.markPageFree page
  have htotal := (pmmMarkPageFree_totalPages page p).trans h.total
  have hfree := hinv.freePages_le_pred
  rw [htotal] at hfree
  refine ⟨hinv, htotal, ?_⟩
  have hsum := h.sum
  unfold pmmMarkPageFree at hfree ⊢
  by_cases hout : page = 0 ∨ page ≥ p.totalPages
  · rw [if_pos hout]
    exact hsum
  rw [if_neg hout] at hfree ⊢
  by_cases hclear : (!bitmapTest p.bitmap page) = true
  · rw [if_pos hclear]
    exact hsum
  · rw [if_neg hclear] at hfree ⊢
    have hfree' : p.freePages + 1 ≤ n - 1 := hfree
    show p.freePages + 1 + (if p.usedPages > 0 then p.usedPages - 1 else p.usedPages) ≤ n - 1
    by_cases hcounted : p.usedPages > 0
    · rw [if_pos hcounted]
      omega
    · -- nothing is counted, and page 0 is used
      rw [if_neg hcounted]
      omega

/-- A loop of markings keeps it. -/
theorem Undercounted.usedLoop (h : Undercounted n p) (start count : Nat) :
    Undercounted n (forUp pmmMarkPageUsed start count p) :=
  forUp_preserves h fun i _ _ _ ht => ht.markPageUsed i

/-- A loop of unmarkings keeps it. -/
theorem Undercounted.freeLoop (h : Undercounted n p) (start count : Nat) :
    Undercounted n (forUp pmmMarkPageFree start count p) :=
  forUp_preserves h fun i _ _ _ ht => ht.markPageFree i

theorem Undercounted.seekNextFreePage (h : Undercounted n p) :
    Undercounted n (pmmSeekNextFreePage p) :=
  ⟨h.inv.seekNextFreePage, h.total, h.sum⟩

/-- `pmm_alloc_page` keeps it. -/
theorem Undercounted.allocPage (h : Undercounted n p) : Undercounted n (pmmAllocPage p).2 := by
  rcases pmmAllocPage_spec h.inv with ⟨-, heq⟩ | ⟨page, -, -, heq⟩
  · rw [heq]
    exact h
  · have hmark := h.markPageUsed page
    refine ⟨h.inv.allocPage, ?_, ?_⟩
    · rw [heq]
      exact hmark.total
    · rw [heq]
      exact hmark.sum

/-- Every call leaves them out. -/
theorem Undercounted.step (h : Undercounted n p) (op : PmmOp) : Undercounted n (pmmStep p op) := by
  cases op with
  | allocPage => exact h.allocPage
  | freePage address => exact h.markPageFree _
  | lockPage address => exact h.markPageUsed _
  | unlockPage address => exact h.markPageFree _
  | lockPages address count => exact h.usedLoop _ _
  | unlockPages address count => exact h.freeLoop _ _
  | reserveRegion base length => exact h.usedLoop _ _
  | unreserveRegion base length => exact h.freeLoop _ _

/-- Every run keeps it. -/
theorem Undercounted.run (h : Undercounted n p) (ops : List PmmOp) :
    Undercounted n (pmmRun p ops) := by
  induction ops generalizing p with
  | nil => exact h
  | cons op ops ih => exact ih (h.step op)

/-- The first pass over the memory map keeps it. -/
theorem Undercounted.markUsable (h : Undercounted n p) (response : List MemmapEntry) :
    Undercounted n (pmmMarkUsable response p) := by
  unfold pmmMarkUsable
  induction response generalizing p with
  | nil => exact h
  | cons e response ih =>
      rw [List.foldl_cons]
      by_cases htype : e.type ≠ .usable
      · rw [if_pos htype]
        exact ih h
      · rw [if_neg htype]
        exact ih (h.freeLoop _ _)

/-- The other passes keep it. -/
theorem Undercounted.reserveMemmapType (h : Undercounted n p) (response : List MemmapEntry)
    (type : MemmapType) : Undercounted n (pmmReserveMemmapType response type p) := by
  unfold pmmReserveMemmapType
  induction response generalizing p with
  | nil => exact h
  | cons e response ih =>
      rw [List.foldl_cons]
      by_cases htype : e.type ≠ type
      · rw [if_pos htype]
        exact ih h
      · rw [if_neg htype]
        exact ih (h.usedLoop _ _)

/-- Reserving the kernel keeps it. -/
theorem Undercounted.reserveKernel (h : Undercounted n p) (executable : Option (Nat × Nat)) :
    Undercounted n (pmmReserveKernel executable p) := by
  cases executable with
  | none => exact h
  | some image => exact h.usedLoop _ _

/-- `pmm_init` accepts only what fits the bitmap. -/
theorem pmmInit_fits (hinit : pmmInit old response executable = (true, p)) :
    bootPages response ≤ pmmBitmapMaxBits := by
  by_contra hmany
  rw [pmmInit, if_pos (.inr (Nat.lt_of_not_le hmany))] at hinit
  cases hinit

/-- `pmm_init` leaves a page out, if there is one. -/
theorem pmmInit_undercounted (hinit : pmmInit old response executable = (true, p)) :
    Undercounted (bootPages response) p := by
  have hfits := pmmInit_fits hinit
  rw [pmmInit_eq old executable hfits] at hinit
  injection hinit with _ hp
  rw [← hp]
  have hstart : Undercounted (bootPages response)
      ⟨bitmapInit old.bitmap.bytes (bootPages response), bootPages response, 0, 0, 0⟩ :=
    ⟨bitmapInit_inv _ hfits, rfl, Nat.zero_le _⟩
  have husable : Undercounted (bootPages response) (usableMarked old response) :=
    hstart.markUsable response
  have hzero : Undercounted (bootPages response)
      (pmmReserveRegion 0 pmmPageSize (usableMarked old response)) :=
    husable.usedLoop _ _
  have hkernel := hzero.reserveKernel executable
  exact (((hkernel.reserveMemmapType response .bootloaderReclaimable).reserveMemmapType response
    .executableAndModules).reserveMemmapType response .framebuffer).seekNextFreePage

/-- The used pages are never counted right, unless there are no pages. -/
theorem pmm_accounting_iff (hinit : pmmInit old response executable = (true, p₀))
    (ops : List PmmOp) : Accounts (pmmRun p₀ ops) ↔ bootPages response = 0 := by
  have h := (pmmInit_undercounted hinit).run ops
  generalize pmmRun p₀ ops = p at h
  have hsum := h.sum
  constructor
  · intro haccounts
    have hboth : p.freePages + p.usedPages = p.totalPages := haccounts.2.2
    rw [h.total] at hboth
    omega
  · intro hnone
    have htotal := h.total
    rw [hnone] at htotal hsum
    have hset : (pmmSetPages p).card = 0 := by
      rw [pmmSetPages, htotal]
      rfl
    refine ⟨h.inv.free_eq, ?_, ?_⟩
    · show p.usedPages = _
      omega
    · show p.freePages + p.usedPages = p.totalPages
      omega

/-- A page more is locked, and still the pages do not add up. -/
theorem pmm_accounting_two_pages :
    ¬ Accounts (pmmRun (pmmInit ⟨⟨fun _ => 0#8, 0⟩, 0, 0, 0, 0⟩ [⟨0x1000, 0x2000, .usable⟩]
      none).2 [.lockPage 0x1000]) :=
  (pmm_accounting_iff (Prod.ext (by decide) rfl) [.lockPage 0x1000]).not.mpr (by decide)

/-- Two usable pages after page 0: page 0 is used, and no page is counted
as used. -/
theorem pmm_init_undercounts :
    let p := (pmmInit ⟨⟨fun _ => 0#8, 0⟩, 0, 0, 0, 0⟩ [⟨0x1000, 0x2000, .usable⟩] none)
    p.1 = true ∧ ¬ Accounts p.2 ∧ pmmGetFreePages p.2 = 2 ∧ pmmGetUsedPages p.2 = 0
      ∧ pmmGetTotalPages p.2 = 3 := by
  decide

-- ============================================================== locked pages

/-- A call that locks pages and the call that unlocks them. -/
inductive LockPair
  | page (address : Nat)
  | pages (address count : Nat)
  deriving DecidableEq, Repr

/-- The call that locks. -/
def LockPair.lock : LockPair → Pmm → Pmm
  | .page address => pmmLockPage address
  | .pages address count => pmmLockPages address count

/-- The call that unlocks. -/
def LockPair.unlock : LockPair → Pmm → Pmm
  | .page address => pmmUnlockPage address
  | .pages address count => pmmUnlockPages address count

/-- The pages it is about, those that there are. -/
def LockPair.Locks (p : Pmm) (page : Nat) : LockPair → Prop
  | .page address => page = pmmAddressToPage address ∧ page < p.totalPages
  | .pages address count =>
      (pmmAddressToPage address ≤ page ∧ page < pmmAddressToPage address + count)
        ∧ page < p.totalPages

/-- What marking a page does to each page, in any state: a page may be
without a bit of its own, when `pmm_init` has rejected its map. -/
theorem pmmMarkPageUsed_test (p : Pmm) (i page : Nat) :
    (pmmMarkPageUsed i p).bitmap.bits = p.bitmap.bits
      ∧ bitmapTest (pmmMarkPageUsed i p).bitmap page
        = (bitmapTest p.bitmap page || decide (page = i ∧ page < p.totalPages)) := by
  unfold pmmMarkPageUsed
  by_cases hout : i ≥ p.totalPages
  · rw [if_pos hout, decide_eq_false (by omega), Bool.or_false]
    exact ⟨rfl, rfl⟩
  rw [if_neg hout]
  by_cases hused : bitmapTest p.bitmap i = true
  · rw [if_pos hused]
    refine ⟨rfl, ?_⟩
    by_cases hpage : page = i
    · rw [hpage, hused, Bool.true_or]
    · rw [decide_eq_false (fun h => hpage h.1), Bool.or_false]
  · rw [if_neg hused]
    have hbits : i < p.bitmap.bits := by
      by_contra hge
      rw [bitmapTest_eq, decide_eq_true (Nat.le_of_not_lt hge), Bool.true_or] at hused
      exact hused rfl
    refine ⟨bitmapSet_bits .., ?_⟩
    show bitmapTest (bitmapSet p.bitmap i) page = _
    rw [bitmapTest_set hbits, Bool.or_comm]
    by_cases hpage : page = i
    · rw [hpage, decide_eq_true rfl, decide_eq_true ⟨rfl, Nat.lt_of_not_le hout⟩]
    · rw [decide_eq_false hpage, decide_eq_false (fun h => hpage h.1)]

/-- What `pmm_mark_page_free` does to every page. -/
theorem pmmMarkPageFree_test (p : Pmm) (i page : Nat) :
    (pmmMarkPageFree i p).bitmap.bits = p.bitmap.bits
      ∧ bitmapTest (pmmMarkPageFree i p).bitmap page = (bitmapTest p.bitmap page
        && !decide (page = i ∧ page ≠ 0 ∧ page < p.totalPages ∧ page < p.bitmap.bits)) := by
  unfold pmmMarkPageFree
  by_cases hout : i = 0 ∨ i ≥ p.totalPages
  · rw [if_pos hout, decide_eq_false (by omega), Bool.not_false, Bool.and_true]
    exact ⟨rfl, rfl⟩
  rw [if_neg hout]
  by_cases hclear : (!bitmapTest p.bitmap i) = true
  · rw [if_pos hclear]
    have hfalse : bitmapTest p.bitmap i = false := by simpa using hclear
    refine ⟨rfl, ?_⟩
    by_cases hpage : page = i
    · rw [hpage, hfalse, Bool.false_and]
    · rw [decide_eq_false (fun h => hpage h.1), Bool.not_false, Bool.and_true]
  · rw [if_neg hclear]
    refine ⟨bitmapClear_bits .., ?_⟩
    show bitmapTest (bitmapClear p.bitmap i) page = _
    by_cases hbits : i < p.bitmap.bits
    · rw [bitmapTest_clear hbits, Bool.and_comm]
      by_cases hpage : page = i
      · rw [hpage, decide_eq_true rfl, decide_eq_true (by omega)]
      · rw [decide_eq_false hpage, decide_eq_false (fun h => hpage h.1)]
    · -- a page without a bit
      rw [bitmapClear, if_pos (Nat.le_of_not_lt hbits), decide_eq_false (by omega), Bool.not_false,
        Bool.and_true]

/-- A page in a loop over `[start, start + count)`. -/
theorem usedLoop_test (p : Pmm) (start count page : Nat) :
    (forUp pmmMarkPageUsed start count p).bitmap.bits = p.bitmap.bits
      ∧ bitmapTest (forUp pmmMarkPageUsed start count p).bitmap page
        = (bitmapTest p.bitmap page
          || decide ((start ≤ page ∧ page < start + count) ∧ page < p.totalPages)) := by
  have hloop := forUp_rule (f := pmmMarkPageUsed) (a := start) (n := count) (s := p)
    (P := fun k t => t.totalPages = p.totalPages ∧ t.bitmap.bits = p.bitmap.bits
      ∧ bitmapTest t.bitmap page = (bitmapTest p.bitmap page
        || decide ((start ≤ page ∧ page < k) ∧ page < p.totalPages)))
    ⟨rfl, rfl, by rw [decide_eq_false (by omega), Bool.or_false]⟩ ?_
  · exact hloop.2
  · intro i t hlo hhi ht
    obtain ⟨htotal, hbits, htest⟩ := ht
    obtain ⟨hbits', htest'⟩ := pmmMarkPageUsed_test t i page
    refine ⟨(pmmMarkPageUsed_totalPages i t).trans htotal, hbits'.trans hbits, ?_⟩
    rw [htest', htest, htotal, Bool.or_assoc, ← Bool.decide_or]
    congr 2
    refine propext ⟨fun h => ?_, fun h => ?_⟩
    · omega
    · omega

/-- What a loop of them does to every page. -/
theorem freeLoop_test (p : Pmm) (start count page : Nat) :
    bitmapTest (forUp pmmMarkPageFree start count p).bitmap page
      = (bitmapTest p.bitmap page && !decide ((start ≤ page ∧ page < start + count)
        ∧ page ≠ 0 ∧ page < p.totalPages ∧ page < p.bitmap.bits)) := by
  have hloop := forUp_rule (f := pmmMarkPageFree) (a := start) (n := count) (s := p)
    (P := fun k t => t.totalPages = p.totalPages ∧ t.bitmap.bits = p.bitmap.bits
      ∧ bitmapTest t.bitmap page = (bitmapTest p.bitmap page && !decide
        ((start ≤ page ∧ page < k) ∧ page ≠ 0 ∧ page < p.totalPages ∧ page < p.bitmap.bits)))
    ⟨rfl, rfl, by rw [decide_eq_false (by omega), Bool.not_false, Bool.and_true]⟩ ?_
  · exact hloop.2.2
  · intro i t hlo hhi ht
    obtain ⟨htotal, hbits, htest⟩ := ht
    obtain ⟨hbits', htest'⟩ := pmmMarkPageFree_test t i page
    refine ⟨(pmmMarkPageFree_totalPages i t).trans htotal, hbits'.trans hbits, ?_⟩
    rw [htest', htest, htotal, hbits, Bool.and_assoc, ← Bool.not_or, ← Bool.decide_or]
    congr 3
    refine propext ⟨fun h => ?_, fun h => ?_⟩
    · omega
    · omega

/-- What the clamp cuts off are pages that do not exist. -/
theorem clamp_page (p : Pmm) (start count page : Nat) :
    ((start ≤ page ∧ page < start + pmmClampPageCount p start count) ∧ page < p.totalPages)
      ↔ (start ≤ page ∧ page < start + count) ∧ page < p.totalPages := by
  constructor
  · intro h
    exact ⟨(pmmClampPageCount_iff h.2 start count).mp h.1, h.2⟩
  · intro h
    exact ⟨(pmmClampPageCount_iff h.2 start count).mpr h.1, h.2⟩

/-- Locking marks the pages it is about. -/
theorem LockPair.lock_test (pair : LockPair) (p : Pmm) (page : Nat) :
    (pair.lock p).bitmap.bits = p.bitmap.bits ∧ (pair.lock p).totalPages = p.totalPages
      ∧ (bitmapTest (pair.lock p).bitmap page = true
        ↔ bitmapTest p.bitmap page = true ∨ pair.Locks p page) := by
  cases pair with
  | page address =>
      obtain ⟨hbits, htest⟩ := pmmMarkPageUsed_test p (pmmAddressToPage address) page
      refine ⟨hbits, pmmMarkPageUsed_totalPages _ p, ?_⟩
      show bitmapTest (pmmMarkPageUsed _ p).bitmap page = true ↔ _
      rw [htest, Bool.or_eq_true, decide_eq_true_eq]
      rfl
  | pages address count =>
      obtain ⟨hbits, htest⟩ := usedLoop_test p (pmmAddressToPage address)
        (pmmClampPageCount p (pmmAddressToPage address) count) page
      refine ⟨hbits, usedLoop_totalPages _ _, ?_⟩
      show bitmapTest (forUp pmmMarkPageUsed _ _ p).bitmap page = true ↔ _
      rw [htest, Bool.or_eq_true, decide_eq_true_eq, clamp_page]
      rfl

/-- Unlocking clears them, whoever else has locked them. -/
theorem LockPair.unlock_test (pair : LockPair) (p : Pmm) (page : Nat) :
    bitmapTest (pair.unlock p).bitmap page = true
      ↔ bitmapTest p.bitmap page = true
        ∧ ¬ (pair.Locks p page ∧ page ≠ 0 ∧ page < p.bitmap.bits) := by
  cases pair with
  | page address =>
      show bitmapTest (pmmMarkPageFree _ p).bitmap page = true ↔ _
      rw [(pmmMarkPageFree_test p _ page).2, Bool.and_eq_true, Bool.not_eq_true',
        decide_eq_false_iff_not]
      refine and_congr_right fun _ => not_congr ?_
      show _ ↔ (page = _ ∧ page < p.totalPages) ∧ page ≠ 0 ∧ page < p.bitmap.bits
      tauto
  | pages address count =>
      show bitmapTest (forUp pmmMarkPageFree _ _ p).bitmap page = true ↔ _
      rw [freeLoop_test, Bool.and_eq_true, Bool.not_eq_true', decide_eq_false_iff_not]
      refine and_congr_right fun _ => not_congr ?_
      have hclamp := clamp_page p (pmmAddressToPage address) count page
      show _ ↔ ((_ ∧ page < _ + count) ∧ page < p.totalPages) ∧ page ≠ 0 ∧ page < p.bitmap.bits
      tauto

/-- Locking and unlocking pages changes nothing just when the pages were
free, but for page 0, which is never freed, and pages without a bit. -/
theorem lock_unlock_keeps_iff (p : Pmm) (pair : LockPair) :
    (∀ page, bitmapTest (pair.unlock (pair.lock p)).bitmap page = bitmapTest p.bitmap page)
      ↔ ∀ page, pair.Locks p page → page < p.bitmap.bits →
        bitmapTest p.bitmap page = decide (page = 0) := by
  have hafter : ∀ page, bitmapTest (pair.unlock (pair.lock p)).bitmap page = true
      ↔ (bitmapTest p.bitmap page = true ∨ pair.Locks p page)
        ∧ ¬ (pair.Locks p page ∧ page ≠ 0 ∧ page < p.bitmap.bits) := by
    intro page
    obtain ⟨hbits, htotal, htest⟩ := pair.lock_test p page
    have hlocks : pair.Locks (pair.lock p) page ↔ pair.Locks p page := by
      cases pair with
      | page address => rw [LockPair.Locks, LockPair.Locks, htotal]
      | pages address count => rw [LockPair.Locks, LockPair.Locks, htotal]
    rw [pair.unlock_test, htest, hbits, hlocks]
  have hnobit : ∀ page, ¬ page < p.bitmap.bits → bitmapTest p.bitmap page = true := by
    intro page hge
    rw [bitmapTest_eq, decide_eq_true (Nat.le_of_not_lt hge), Bool.true_or]
  constructor
  · intro hsame page hlocks hbit
    have hpage := hafter page
    rw [hsame page] at hpage
    rw [Bool.eq_iff_iff, decide_eq_true_eq]
    tauto
  · intro hfree page
    rw [Bool.eq_iff_iff, hafter page]
    by_cases hlocks : pair.Locks p page
    · by_cases hbit : page < p.bitmap.bits
      · have hpage := hfree page hlocks hbit
        rw [Bool.eq_iff_iff, decide_eq_true_eq] at hpage
        tauto
      · have hused := hnobit page hbit
        tauto
    · tauto

/-- An allocated page is locked and unlocked: it can be allocated again. -/
theorem lock_unlock_frees_page :
    let r := pmmAllocPage
      (pmmInit ⟨⟨fun _ => 0#8, 0⟩, 0, 0, 0, 0⟩ [⟨0x1000, 0x2000, .usable⟩] none).2
    let p := pmmUnlockPage 0x1000 (pmmLockPage 0x1000 r.2)
    r.1 = 0x1000 ∧ bitmapTest r.2.bitmap 1 = true ∧ bitmapTest p.bitmap 1 = false
      ∧ (pmmAllocPage p).1 = 0x1000 := by
  decide

end ZenithOS.Mm
