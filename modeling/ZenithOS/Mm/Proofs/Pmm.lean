/-
The page allocator's invariant, and what it makes of `pmm_alloc_page`:
lowest-free-page allocation.

# The invariant

`PmmInv` is kept by the two primitives every entry point is a loop
over, `pmm_mark_page_used` and `pmm_mark_page_free`: the bitmap covers
exactly `total_pages`, page 0 is used, `free_pages` counts the clear
bits, and no page below the hint is clear. The last clause survives a
free because the hint is lowered with it, and an allocation because the
page taken was the lowest clear one, so everything below the next hint
is used. `pmm_init` establishes it from an all-ones bitmap and hint 0.

# The allocation

Under the invariant pass 0 finds the lowest clear page if there is one,
and pass 1, which scans only below the hint, never finds anything
(`pmmAllocPage_spec`).
-/
import ZenithOS.Mm.Pmm
import Mathlib.Data.Finset.Card
import Mathlib.Order.Bounds.Basic

namespace ZenithOS.Mm

open Lib

variable {p : Pmm}

-- ===================================================== bits and bytes

/-- Bit `i` of the buffer, whatever `bits` says. -/
def bitmapBit (b : Bitmap) (i : Nat) : Bool :=
  (b.bytes (i / 8)).getLsbD (i % 8)

/-- A page outside the bitmap counts as used. -/
theorem bitmapTest_eq (b : Bitmap) (i : Nat) :
    bitmapTest b i = (decide (b.bits ≤ i) || bitmapBit b i) := by
  unfold bitmapTest bitmapBit
  by_cases h : b.bits ≤ i
  · rw [if_pos h, decide_eq_true h, Bool.true_or]
  · rw [if_neg h, decide_eq_false h, Bool.false_or,
      show (1#8 <<< (i % 8)) = BitVec.twoPow 8 (i % 8) from rfl,
      BitVec.and_twoPow]
    have hlt : i % 8 < 8 := Nat.mod_lt _ (by decide)
    cases hb : (b.bytes (i / 8)).getLsbD (i % 8) with
    | false => simp
    | true =>
        simp only [if_true, bne_iff_ne]
        intro hzero
        have hbit := congrArg (fun v => v.getLsbD (i % 8)) hzero
        simp [hlt] at hbit

@[simp] theorem bitmapSet_bits (b : Bitmap) (i : Nat) :
    (bitmapSet b i).bits = b.bits := by
  unfold bitmapSet
  split <;> rfl

@[simp] theorem bitmapClear_bits (b : Bitmap) (i : Nat) :
    (bitmapClear b i).bits = b.bits := by
  unfold bitmapClear
  split <;> rfl

theorem bitmapBit_set {b : Bitmap} {i : Nat} (hi : i < b.bits) (j : Nat) :
    bitmapBit (bitmapSet b i) j = (decide (j = i) || bitmapBit b j) := by
  simp only [bitmapSet, bitmapBit, if_neg (Nat.not_le.mpr hi)]
  by_cases hbyte : j / 8 = i / 8
  · rw [hbyte, Function.update_self, BitVec.getLsbD_or,
      show (1#8 <<< (i % 8)) = BitVec.twoPow 8 (i % 8) from rfl,
      BitVec.getLsbD_twoPow]
    by_cases hij : j = i
    · subst hij
      simp
      omega
    · have hbit : i % 8 ≠ j % 8 := by omega
      simp [hij, hbit]
  · rw [Function.update_of_ne hbyte]
    have hij : j ≠ i := fun h => hbyte (by rw [h])
    simp [hij]

theorem bitmapBit_clear {b : Bitmap} {i : Nat} (hi : i < b.bits) (j : Nat) :
    bitmapBit (bitmapClear b i) j = (!decide (j = i) && bitmapBit b j) := by
  simp only [bitmapClear, bitmapBit, if_neg (Nat.not_le.mpr hi)]
  by_cases hbyte : j / 8 = i / 8
  · rw [hbyte, Function.update_self, BitVec.getLsbD_and, BitVec.getLsbD_not,
      show (1#8 <<< (i % 8)) = BitVec.twoPow 8 (i % 8) from rfl,
      BitVec.getLsbD_twoPow]
    have hlt : j % 8 < 8 := Nat.mod_lt _ (by decide)
    by_cases hij : j = i
    · subst hij
      simp [hlt]
    · have hbit : i % 8 ≠ j % 8 := by omega
      simp [hij, hbit, hlt]
  · rw [Function.update_of_ne hbyte]
    have hij : j ≠ i := fun h => hbyte (by rw [h])
    simp [hij]

/-- `bitmap_set` marks one page. -/
theorem bitmapTest_set {b : Bitmap} {i : Nat} (hi : i < b.bits) (j : Nat) :
    bitmapTest (bitmapSet b i) j = (decide (j = i) || bitmapTest b j) := by
  rw [bitmapTest_eq, bitmapTest_eq, bitmapSet_bits, bitmapBit_set hi,
    Bool.or_left_comm]

/-- `bitmap_clear` unmarks one page. -/
theorem bitmapTest_clear {b : Bitmap} {i : Nat} (hi : i < b.bits) (j : Nat) :
    bitmapTest (bitmapClear b i) j = (!decide (j = i) && bitmapTest b j) := by
  rw [bitmapTest_eq, bitmapTest_eq, bitmapClear_bits, bitmapBit_clear hi]
  by_cases hij : j = i
  · subst hij
    simp [hi]
  · simp [hij]

/-- Everything is used at first. -/
theorem bitmapTest_init (buffer : Nat → BitVec 8) (bits j : Nat) :
    bitmapTest (bitmapInit buffer bits) j = true := by
  rw [bitmapTest_eq]
  by_cases hj : bits ≤ j
  · simp [bitmapInit, hj]
  · have hbytes : (bitmapInit buffer bits).bytes (j / 8) = 0xFF#8 := by
      have hloop := forUp_each (σ := Nat → BitVec 8)
        (f := fun i b => Function.update b i 0xFF#8)
        (g := fun b i => b i) (v := fun _ => 0xFF#8)
        (a := 0) (n := (bits + 7) / 8) (s := buffer)
        (fun i t _ _ _ => Function.update_self ..)
        (fun i t k _ _ hk => Function.update_of_ne hk ..) (j / 8)
      rw [if_pos (by omega)] at hloop
      exact hloop
    have hones : ∀ k < 8, (0xFF#8).getLsbD k = true := by decide
    rw [bitmapBit, hbytes, hones _ (Nat.mod_lt _ (by decide)), Bool.or_true]

-- ======================================================= the invariant

/-- The pages the allocator may hand out. -/
def pmmClearPages (p : Pmm) : Finset Nat :=
  (Finset.range p.totalPages).filter fun page => bitmapTest p.bitmap page = false

/-- The allocator's invariant (module doc). -/
structure PmmInv (p : Pmm) : Prop where
  bits_eq : p.bitmap.bits = p.totalPages
  total_le : p.totalPages ≤ pmmBitmapMaxBits
  zero_used : bitmapTest p.bitmap 0 = true
  free_eq : p.freePages = (pmmClearPages p).card
  hint : ∀ page < p.nextFreePage, bitmapTest p.bitmap page = true

/-- The clear pages are those that test free. -/
theorem mem_pmmClearPages {page : Nat} :
    page ∈ pmmClearPages p
      ↔ page < p.totalPages ∧ bitmapTest p.bitmap page = false := by
  simp [pmmClearPages]

/-- No more pages are free than the bitmap has bits. -/
theorem PmmInv.freePages_le (hp : PmmInv p) : p.freePages ≤ pmmBitmapMaxBits := by
  have hcard := Finset.card_filter_le (Finset.range p.totalPages)
    fun page => bitmapTest p.bitmap page = false
  rw [Finset.card_range] at hcard
  rw [hp.free_eq]
  exact Nat.le_trans hcard hp.total_le

/-- Clear pages are in range: an out-of-range bit reads as set. -/
theorem PmmInv.lt_total (hp : PmmInv p) {page : Nat}
    (hclear : bitmapTest p.bitmap page = false) : page < p.totalPages := by
  by_contra hge
  rw [bitmapTest_eq, hp.bits_eq, decide_eq_true (Nat.le_of_not_lt hge),
    Bool.true_or] at hclear
  cases hclear

/-- Marking a page used sets its bit if it is in range, and no other. -/
theorem pmmMarkPageUsed_bit (hp : PmmInv p) (page j : Nat) :
    bitmapTest (pmmMarkPageUsed page p).bitmap j
      = (decide (j = page ∧ page < p.totalPages) || bitmapTest p.bitmap j) := by
  unfold pmmMarkPageUsed
  by_cases hge : page ≥ p.totalPages
  · simp [hge, Nat.not_lt.mpr hge]
  · rw [if_neg hge]
    have hlt : page < p.totalPages := Nat.lt_of_not_ge hge
    by_cases hused : bitmapTest p.bitmap page = true
    · rw [if_pos hused]
      by_cases hj : j = page
      · subst hj
        simp [hused]
      · simp [hj]
    · rw [if_neg hused]
      show bitmapTest (bitmapSet p.bitmap page) j = _
      rw [bitmapTest_set (by rw [hp.bits_eq]; exact hlt)]
      simp [hlt]

/-- Marking a page free clears its bit if it is an allocatable page, and
no other. -/
theorem pmmMarkPageFree_bit (hp : PmmInv p) (page j : Nat) :
    bitmapTest (pmmMarkPageFree page p).bitmap j
      = (!decide (j = page ∧ page ≠ 0 ∧ page < p.totalPages)
          && bitmapTest p.bitmap j) := by
  unfold pmmMarkPageFree
  by_cases hout : page = 0 ∨ page ≥ p.totalPages
  · rw [if_pos hout]
    have hno : ¬ (j = page ∧ page ≠ 0 ∧ page < p.totalPages) := by omega
    simp [hno]
  · rw [if_neg hout]
    have hin : page ≠ 0 ∧ page < p.totalPages := by omega
    by_cases hclear : bitmapTest p.bitmap page = true
    · rw [if_neg (by simp [hclear])]
      show bitmapTest (bitmapClear p.bitmap page) j = _
      rw [bitmapTest_clear (by rw [hp.bits_eq]; exact hin.2)]
      simp [hin]
    · rw [if_pos (by simp [hclear])]
      by_cases hj : j = page
      · subst hj
        simp [Bool.eq_false_iff.mpr hclear]
      · simp [hj]

@[simp] theorem pmmMarkPageUsed_totalPages (page : Nat) (p : Pmm) :
    (pmmMarkPageUsed page p).totalPages = p.totalPages := by
  unfold pmmMarkPageUsed
  split
  · rfl
  · split <;> rfl

@[simp] theorem pmmMarkPageFree_totalPages (page : Nat) (p : Pmm) :
    (pmmMarkPageFree page p).totalPages = p.totalPages := by
  unfold pmmMarkPageFree
  split
  · rfl
  · split <;> rfl

/-- Marking a page used keeps the invariant: the bit that goes up leaves
the clear set, and `free_pages` with it. -/
theorem PmmInv.markPageUsed (hp : PmmInv p) (page : Nat) :
    PmmInv (pmmMarkPageUsed page p) := by
  by_cases hout : page ≥ p.totalPages ∨ bitmapTest p.bitmap page = true
  · have hsame : pmmMarkPageUsed page p = p := by
      unfold pmmMarkPageUsed
      rcases hout with h | h
      · rw [if_pos h]
      · rw [if_pos h, ite_self]
    rw [hsame]
    exact hp
  · have hlt : page < p.totalPages := by omega
    have hclear : bitmapTest p.bitmap page = false := by
      simpa using fun h => hout (Or.inr h)
    have hmem : page ∈ pmmClearPages p := mem_pmmClearPages.mpr ⟨hlt, hclear⟩
    have hpos : 0 < (pmmClearPages p).card := Finset.card_pos.mpr ⟨page, hmem⟩
    have hbit := pmmMarkPageUsed_bit hp page
    have herase : pmmClearPages (pmmMarkPageUsed page p)
        = (pmmClearPages p).erase page := by
      ext j
      rw [Finset.mem_erase, mem_pmmClearPages, mem_pmmClearPages, hbit,
        pmmMarkPageUsed_totalPages]
      by_cases hj : j = page
      · simp [hj, hlt]
      · simp [hj]
    have heq : pmmMarkPageUsed page p = { p with
        bitmap := bitmapSet p.bitmap page
        freePages := if p.freePages > 0 then p.freePages - 1 else p.freePages
        usedPages := p.usedPages + 1 } := by
      unfold pmmMarkPageUsed
      rw [if_neg (by omega), if_neg (by simp [hclear])]
    refine ⟨?_, ?_, ?_, ?_, ?_⟩
    · rw [heq]
      exact (bitmapSet_bits ..).trans hp.bits_eq
    · rw [pmmMarkPageUsed_totalPages]
      exact hp.total_le
    · rw [hbit, hp.zero_used, Bool.or_true]
    · rw [herase, Finset.card_erase_of_mem hmem, heq]
      show (if p.freePages > 0 then p.freePages - 1 else p.freePages) = _
      rw [hp.free_eq, if_pos hpos]
    · intro q hq
      rw [heq] at hq
      rw [hbit, hp.hint q hq, Bool.or_true]

/-- Marking a page free keeps the invariant: the hint is lowered to a
page that would otherwise be clear below it. -/
theorem PmmInv.markPageFree (hp : PmmInv p) (page : Nat) :
    PmmInv (pmmMarkPageFree page p) := by
  by_cases hout : (page = 0 ∨ page ≥ p.totalPages)
      ∨ bitmapTest p.bitmap page = false
  · have hsame : pmmMarkPageFree page p = p := by
      unfold pmmMarkPageFree
      rcases hout with h | h
      · rw [if_pos h]
      · rw [if_pos (show (!bitmapTest p.bitmap page) = true by rw [h]; rfl),
          ite_self]
    rw [hsame]
    exact hp
  · have hin : page ≠ 0 ∧ page < p.totalPages := by omega
    have hused : bitmapTest p.bitmap page = true := by
      simpa using fun h => hout (Or.inr h)
    have hnot : page ∉ pmmClearPages p := by
      rw [mem_pmmClearPages]
      simp [hused]
    have hbit := pmmMarkPageFree_bit hp page
    have hinsert : pmmClearPages (pmmMarkPageFree page p)
        = insert page (pmmClearPages p) := by
      ext j
      rw [Finset.mem_insert, mem_pmmClearPages, mem_pmmClearPages, hbit,
        pmmMarkPageFree_totalPages]
      by_cases hj : j = page
      · simp [hj, hin]
      · simp [hj]
    have heq : pmmMarkPageFree page p = { p with
        bitmap := bitmapClear p.bitmap page
        freePages := p.freePages + 1
        usedPages := if p.usedPages > 0 then p.usedPages - 1 else p.usedPages
        nextFreePage := if page < p.nextFreePage then page else p.nextFreePage } := by
      unfold pmmMarkPageFree
      rw [if_neg (by omega), if_neg (by simp [hused])]
    refine ⟨?_, ?_, ?_, ?_, ?_⟩
    · rw [heq]
      exact (bitmapClear_bits ..).trans hp.bits_eq
    · rw [pmmMarkPageFree_totalPages]
      exact hp.total_le
    · rw [hbit, hp.zero_used, decide_eq_false (by omega)]
      rfl
    · rw [hinsert, Finset.card_insert_of_notMem hnot, heq]
      exact congrArg (· + 1) hp.free_eq
    · intro q hq
      have hlow : q < p.nextFreePage ∧ q ≠ page := by
        rw [heq] at hq
        simp only at hq
        split at hq <;> omega
      rw [hbit, hp.hint q hlow.1, decide_eq_false (by omega)]
      rfl

-- ==================================================== the entry points

/-- A counted loop of `pmm_mark_page_used` keeps the invariant. -/
theorem PmmInv.usedLoop (hp : PmmInv p) (start n : Nat) :
    PmmInv (forUp pmmMarkPageUsed start n p) :=
  forUp_preserves hp fun i _ _ _ h => h.markPageUsed i

/-- A counted loop of `pmm_mark_page_free` keeps the invariant. -/
theorem PmmInv.freeLoop (hp : PmmInv p) (start n : Nat) :
    PmmInv (forUp pmmMarkPageFree start n p) :=
  forUp_preserves hp fun i _ _ _ h => h.markPageFree i

/-- The seek loop stops at the first page from `page` on that is clear
or out of range, skipping only used pages. -/
theorem pmmSeekFrom_used (p : Pmm) (fuel page : Nat) {q : Nat}
    (hlo : page ≤ q) (hhi : q < pmmSeekFrom p fuel page) :
    bitmapTest p.bitmap q = true := by
  induction fuel generalizing page with
  | zero => simp only [pmmSeekFrom] at hhi; omega
  | succ fuel ih =>
      simp only [pmmSeekFrom] at hhi
      split at hhi
      case isTrue hgo =>
        by_cases hq : q = page
        · rw [hq]
          exact hgo.2
        · exact ih (page + 1) (by omega) hhi
      case isFalse => omega

/-- Seeking moves the hint over used pages only. -/
theorem PmmInv.seekNextFreePage (hp : PmmInv p) :
    PmmInv (pmmSeekNextFreePage p) := by
  refine ⟨hp.bits_eq, hp.total_le, hp.zero_used, hp.free_eq, ?_⟩
  intro q hq
  by_cases hlow : q < p.nextFreePage
  · exact hp.hint q hlow
  · exact pmmSeekFrom_used p _ _ (Nat.le_of_not_lt hlow) hq

-- ====================================================== the allocation

/-- A scan that stops has found the lowest clear page of its range. -/
theorem pmmScan_some {first last page : Nat}
    (hscan : pmmScan p first last = some page) :
    first ≤ page ∧ page < last ∧ bitmapTest p.bitmap page = false
      ∧ ∀ q, first ≤ q → q < page → bitmapTest p.bitmap q = true := by
  rw [pmmScan, List.find?_range'_eq_some] at hscan
  obtain ⟨hclear, hmem, hlow⟩ := hscan
  rw [List.mem_range'_1] at hmem
  refine ⟨hmem.1, by omega, by simpa using hclear, fun q hlo hhi => ?_⟩
  simpa using hlow q hlo hhi

/-- A scan that runs through has seen only used pages. -/
theorem pmmScan_none {first last : Nat}
    (hscan : pmmScan p first last = none) :
    ∀ q, first ≤ q → q < last → bitmapTest p.bitmap q = true := by
  intro q hlo hhi
  rw [pmmScan, List.find?_eq_none] at hscan
  have hq := hscan q (List.mem_range'_1.mpr ⟨hlo, by omega⟩)
  simpa using hq

/-- Taking the lowest clear page: its bit goes up, alone, and the
invariant holds with the new hint. -/
theorem pmmTakePage_spec (hp : PmmInv p) {page : Nat}
    (hclear : bitmapTest p.bitmap page = false)
    (hlow : ∀ q < page, bitmapTest p.bitmap q = true) :
    (pmmTakePage p page).1 = page * pmmPageSize
      ∧ PmmInv (pmmTakePage p page).2
      ∧ (pmmTakePage p page).2.totalPages = p.totalPages
      ∧ (pmmTakePage p page).2.bitmap = bitmapSet p.bitmap page := by
  have hlt := hp.lt_total hclear
  have hset : (pmmMarkPageUsed page p).bitmap = bitmapSet p.bitmap page := by
    unfold pmmMarkPageUsed
    rw [if_neg (by omega), if_neg (by simp [hclear])]
  refine ⟨rfl, ?_, pmmMarkPageUsed_totalPages page p, hset⟩
  apply PmmInv.seekNextFreePage
  have hused := hp.markPageUsed page
  refine ⟨hused.bits_eq, hused.total_le, hused.zero_used, hused.free_eq, ?_⟩
  intro q hq
  have hq' : q < page + 1 := by
    simp only at hq
    split at hq <;> omega
  rw [pmmMarkPageUsed_bit hp]
  by_cases hqp : q = page
  · simp [hqp, hlt]
  · rw [hlow q (by omega), Bool.or_true]

/-- `pmm_alloc_page` under the invariant: `NULL` and nothing changes
when every page is used, else the lowest clear page is taken. -/
theorem pmmAllocPage_spec (hp : PmmInv p) :
    ((∀ q < p.totalPages, bitmapTest p.bitmap q = true)
        ∧ pmmAllocPage p = (null, p))
      ∨ ∃ page, bitmapTest p.bitmap page = false
          ∧ (∀ q < page, bitmapTest p.bitmap q = true)
          ∧ pmmAllocPage p = pmmTakePage p page := by
  unfold pmmAllocPage
  by_cases hfree : p.freePages = 0
  · rw [if_pos hfree]
    refine Or.inl ⟨fun q hq => ?_, rfl⟩
    have hempty : pmmClearPages p = ∅ := by
      rw [hp.free_eq] at hfree
      exact Finset.card_eq_zero.mp hfree
    by_contra hclear
    have hmem : q ∈ pmmClearPages p :=
      mem_pmmClearPages.mpr ⟨hq, by simpa using hclear⟩
    rw [hempty] at hmem
    cases hmem
  · rw [if_neg hfree]
    -- pass 1 can find nothing: everything below the hint is used
    have hpass1 : pmmScan p 0 p.nextFreePage = none := by
      cases hscan : pmmScan p 0 p.nextFreePage with
      | none => rfl
      | some page =>
          obtain ⟨-, hlt, hclear, -⟩ := pmmScan_some hscan
          rw [hp.hint page hlt] at hclear
          cases hclear
    cases hscan : pmmScan p p.nextFreePage p.totalPages with
    | none =>
        rw [hpass1]
        refine Or.inl ⟨fun q hq => ?_, rfl⟩
        by_cases hlow : q < p.nextFreePage
        · exact hp.hint q hlow
        · exact pmmScan_none hscan q (Nat.le_of_not_lt hlow) hq
    | some page =>
        obtain ⟨-, -, hclear, habove⟩ := pmmScan_some hscan
        refine Or.inr ⟨page, hclear, fun q hq => ?_, rfl⟩
        by_cases hlow : q < p.nextFreePage
        · exact hp.hint q hlow
        · exact habove q (Nat.le_of_not_lt hlow) hq

/-- Allocation keeps the invariant. -/
theorem PmmInv.allocPage (hp : PmmInv p) : PmmInv (pmmAllocPage p).2 := by
  rcases pmmAllocPage_spec hp with ⟨-, heq⟩ | ⟨page, hclear, hlow, heq⟩
  · rw [heq]
    exact hp
  · rw [heq]
    exact (pmmTakePage_spec hp hclear hlow).2.1

-- =========================================================== for clients

/-- The frame at `a` is a page the allocator may hand out. -/
def PmmClear (p : Pmm) (a : Nat) : Prop :=
  ∃ page, a = page * pmmPageSize ∧ bitmapTest p.bitmap page = false

/-- The frames the allocator hands out are page aligned, not frame 0 and
below 4 GiB. -/
theorem PmmInv.clear_frame (hp : PmmInv p) {a : Nat} (ha : PmmClear p a) :
    pmmPageSize ∣ a ∧ a ≠ null ∧ a < 2 ^ 32 := by
  obtain ⟨page, rfl, hclear⟩ := ha
  have hlt := hp.lt_total hclear
  have htotal : p.totalPages ≤ 2 ^ 20 := hp.total_le
  have hzero : page ≠ 0 := by
    intro hzero
    rw [hzero, hp.zero_used] at hclear
    cases hclear
  refine ⟨Nat.dvd_mul_left .., ?_, ?_⟩
  · intro hnull
    have hmul : page * 4096 = 0 := hnull
    omega
  · show page * 4096 < 2 ^ 32
    omega

/-- `pmm_alloc_page` for a client: `NULL`, or a frame that was clear and,
alone, no longer is. -/
theorem PmmInv.alloc_cases (hp : PmmInv p) :
    pmmAllocPage p = (null, p)
      ∨ ∃ a p', pmmAllocPage p = (a, p') ∧ PmmClear p a ∧ PmmInv p'
          ∧ ∀ b, PmmClear p' b ↔ PmmClear p b ∧ b ≠ a := by
  rcases pmmAllocPage_spec hp with ⟨-, heq⟩ | ⟨page, hclear, hlow, heq⟩
  · exact Or.inl heq
  · obtain ⟨haddr, hinv, -, hbitmap⟩ := pmmTakePage_spec hp hclear hlow
    have hbit : ∀ q, bitmapTest (pmmTakePage p page).2.bitmap q = false
        ↔ bitmapTest p.bitmap q = false ∧ q ≠ page := by
      intro q
      rw [hbitmap, bitmapTest_set (by rw [hp.bits_eq]; exact hp.lt_total hclear)]
      by_cases hq : q = page
      · simp [hq]
      · simp [hq]
    have hscale : ∀ q, q * pmmPageSize = page * pmmPageSize ↔ q = page := by
      intro q
      show q * 4096 = page * 4096 ↔ q = page
      omega
    refine Or.inr ⟨page * pmmPageSize, (pmmTakePage p page).2, ?_, ⟨page, rfl, hclear⟩,
      hinv, ?_⟩
    · rw [heq, ← haddr]
    · intro b
      constructor
      · intro hb
        obtain ⟨q, rfl, hq⟩ := hb
        obtain ⟨hq', hne⟩ := (hbit q).mp hq
        exact ⟨⟨q, rfl, hq'⟩, fun hsame => hne ((hscale q).mp hsame)⟩
      · intro hb
        obtain ⟨⟨q, rfl, hq⟩, hne⟩ := hb
        exact ⟨q, rfl, (hbit q).mpr ⟨hq, fun hsame => hne ((hscale q).mpr hsame)⟩⟩

/-- No page is handed out exactly if none is clear. -/
theorem PmmInv.alloc_null_iff (hp : PmmInv p) :
    (pmmAllocPage p).1 = null ↔ ∀ a, ¬ PmmClear p a := by
  rcases pmmAllocPage_spec hp with ⟨hall, heq⟩ | ⟨page, hclear, hlow, heq⟩
  · apply iff_of_true (by rw [heq])
    rintro a ⟨page, -, hbit⟩
    rw [hall page (hp.lt_total hbit)] at hbit
    cases hbit
  · have hframe : PmmClear p (page * pmmPageSize) := ⟨page, rfl, hclear⟩
    refine iff_of_false ?_ fun hall => hall _ hframe
    rw [heq, (pmmTakePage_spec hp hclear hlow).1]
    exact (hp.clear_frame hframe).2.1

/-- Freeing a frame makes at most that frame clear. -/
theorem PmmInv.clear_of_freePage (hp : PmmInv p) {a b : Nat} (ha : pmmPageSize ∣ a)
    (hb : PmmClear (pmmFreePage a p) b) : PmmClear p b ∨ b = a := by
  obtain ⟨q, rfl, hq⟩ := hb
  have hbit : bitmapTest (pmmFreePage a p).bitmap q = _ :=
    pmmMarkPageFree_bit hp (pmmAddressToPage a) q
  rw [hbit] at hq
  by_cases hsame : q = pmmAddressToPage a
  · apply Or.inr
    rw [hsame]
    exact Nat.div_mul_cancel ha
  · exact Or.inl ⟨q, rfl, by simpa [hsame] using hq⟩

/-- What was clear stays clear when a frame is freed. -/
theorem PmmInv.freePage_mono (hp : PmmInv p) (a : Nat) {b : Nat} (hb : PmmClear p b) :
    PmmClear (pmmFreePage a p) b := by
  obtain ⟨q, rfl, hq⟩ := hb
  refine ⟨q, rfl, ?_⟩
  rw [pmmFreePage, pmmUnlockPage, pmmMarkPageFree_bit hp, hq, Bool.and_false]

/-- A frame the allocator once handed out is clear again when freed. -/
theorem PmmInv.freePage_self (hp : PmmInv p) {old : Pmm} (hold : PmmInv old) {a : Nat}
    (ha : PmmClear old a) (htotal : p.totalPages = old.totalPages) :
    PmmClear (pmmFreePage a p) a := by
  obtain ⟨page, rfl, hclear⟩ := ha
  have hpage : pmmAddressToPage (page * pmmPageSize) = page :=
    Nat.mul_div_cancel page (by decide)
  have hlt := hold.lt_total hclear
  have hzero : page ≠ 0 := by
    intro hzero
    rw [hzero, hold.zero_used] at hclear
    cases hclear
  refine ⟨page, rfl, ?_⟩
  rw [pmmFreePage, pmmUnlockPage, hpage, pmmMarkPageFree_bit hp]
  simp [hzero, htotal, hlt]

@[simp] theorem pmmFreePage_null (p : Pmm) : pmmFreePage null p = p := by
  rw [pmmFreePage, pmmUnlockPage, pmmMarkPageFree]
  exact if_pos (Or.inl rfl)

@[simp] theorem pmmFreePage_totalPages (a : Nat) (p : Pmm) :
    (pmmFreePage a p).totalPages = p.totalPages :=
  pmmMarkPageFree_totalPages ..

@[simp] theorem pmmAllocPage_totalPages (p : Pmm) :
    (pmmAllocPage p).2.totalPages = p.totalPages := by
  have htake : ∀ page, (pmmTakePage p page).2.totalPages = p.totalPages :=
    fun page => pmmMarkPageUsed_totalPages page p
  rw [pmmAllocPage]
  split_ifs
  · rfl
  · cases pmmScan p p.nextFreePage p.totalPages with
    | some page => exact htake page
    | none =>
        cases pmmScan p 0 p.nextFreePage with
        | some page => exact htake page
        | none => rfl

/-- A frame taken and given back leaves the clear frames as they were. -/
theorem PmmInv.clear_giveBack {q : Pmm} (hp : PmmInv p) (hq : PmmInv q) {g a : Nat}
    (halloc : pmmAllocPage p = (g, q)) (hg : PmmClear p g)
    (hclear : ∀ a, PmmClear q a ↔ PmmClear p a ∧ a ≠ g) :
    PmmClear (pmmFreePage g q) a ↔ PmmClear p a := by
  have htotal : q.totalPages = p.totalPages := by
    have hsnd : (pmmAllocPage p).2 = q := by rw [halloc]
    rw [← hsnd]
    exact pmmAllocPage_totalPages p
  constructor
  · intro ha
    cases hq.clear_of_freePage (hp.clear_frame hg).1 ha with
    | inl hold => exact ((hclear a).mp hold).1
    | inr heq => exact heq ▸ hg
  · intro ha
    by_cases heq : a = g
    · rw [heq]
      exact hq.freePage_self hp hg htotal
    · exact hq.freePage_mono g ((hclear a).mpr ⟨ha, heq⟩)

-- ============================================================ whole runs

/-- Every entry point keeps the invariant. -/
theorem PmmInv.step (hp : PmmInv p) (op : PmmOp) : PmmInv (pmmStep p op) := by
  cases op with
  | allocPage => exact hp.allocPage
  | freePage address => exact hp.markPageFree _
  | lockPage address => exact hp.markPageUsed _
  | unlockPage address => exact hp.markPageFree _
  | lockPages address count => exact hp.usedLoop _ _
  | unlockPages address count => exact hp.freeLoop _ _
  | reserveRegion base length => exact hp.usedLoop _ _
  | unreserveRegion base length => exact hp.freeLoop _ _

/-- The invariant along a run. -/
theorem PmmInv.run (hp : PmmInv p) (ops : List PmmOp) :
    PmmInv (pmmRun p ops) := by
  induction ops generalizing p with
  | nil => exact hp
  | cons op ops ih => exact ih (hp.step op)

-- ============================================================ pmm_init

/-- Freeing the usable entries keeps the invariant. -/
theorem PmmInv.markUsable (hp : PmmInv p) (response : List MemmapEntry) :
    PmmInv (pmmMarkUsable response p) := by
  unfold pmmMarkUsable
  induction response generalizing p with
  | nil => exact hp
  | cons entry rest ih =>
      rw [List.foldl_cons]
      split
      · exact ih hp
      · exact ih (hp.freeLoop _ _)

/-- Reserving the entries of one type keeps the invariant. -/
theorem PmmInv.reserveMemmapType (hp : PmmInv p)
    (response : List MemmapEntry) (type : MemmapType) :
    PmmInv (pmmReserveMemmapType response type p) := by
  unfold pmmReserveMemmapType
  induction response generalizing p with
  | nil => exact hp
  | cons entry rest ih =>
      rw [List.foldl_cons]
      split
      · exact ih hp
      · exact ih (hp.usedLoop _ _)

/-- Reserving the kernel keeps the invariant. -/
theorem PmmInv.reserveKernel (hp : PmmInv p) (executable : Option (Nat × Nat)) :
    PmmInv (pmmReserveKernel executable p) := by
  cases executable with
  | none => exact hp
  | some image => exact hp.usedLoop _ _

/-- Right after `bitmap_init` every bit is set. -/
theorem bitmapInit_inv (buffer : Nat → BitVec 8) {total : Nat} (htotal : total ≤ pmmBitmapMaxBits) :
    PmmInv ⟨bitmapInit buffer total, total, 0, 0, 0⟩ := by
  refine ⟨rfl, htotal, bitmapTest_init .., ?_, ?_⟩
  · symm
    rw [Finset.card_eq_zero, Finset.eq_empty_iff_forall_notMem]
    intro page hmem
    have hclear := (mem_pmmClearPages.mp hmem).2
    rw [bitmapTest_init] at hclear
    cases hclear
  · intro page hlt
    exact absurd hlt (Nat.not_lt_zero page)

/-- An accepting `pmm_init` establishes the invariant. -/
theorem pmmInit_inv {old : Pmm} {response : List MemmapEntry}
    {executable : Option (Nat × Nat)} {p : Pmm}
    (hinit : pmmInit old response executable = (true, p)) : PmmInv p := by
  simp only [pmmInit] at hinit
  split at hinit
  case isTrue => cases hinit
  case isFalse hfits =>
    obtain ⟨-, rfl⟩ := Prod.mk.inj hinit
    apply PmmInv.seekNextFreePage
    refine PmmInv.reserveMemmapType ?_ _ _
    refine PmmInv.reserveMemmapType ?_ _ _
    refine PmmInv.reserveMemmapType ?_ _ _
    refine PmmInv.reserveKernel ?_ _
    refine PmmInv.usedLoop ?_ _ _
    refine PmmInv.markUsable ?_ _
    exact bitmapInit_inv _ (by omega)

-- ======================================================= held pages

/-- The pages an entry point asks to release. -/
def pmmReleased (p : Pmm) : PmmOp → List Nat
  | .freePage address => [pmmAddressToPage address]
  | .unlockPage address => [pmmAddressToPage address]
  | .unlockPages address count =>
      List.range' (pmmAddressToPage address)
        (pmmClampPageCount p (pmmAddressToPage address) count)
  | .unreserveRegion base length =>
      List.range' (base / pmmPageSize)
        (pmmClampPageCount p (base / pmmPageSize) (pmmRegionPageCount length))
  | _ => []

/-- One step with the pages somebody holds: `pmm_alloc_page` hands its
page to a holder, and a page stops being held when it is released. -/
def pmmHeldStep (s : Pmm × List Nat) (op : PmmOp) : Pmm × List Nat :=
  (pmmStep s.1 op,
    match op with
    | .allocPage =>
        if (pmmAllocPage s.1).1 = null then s.2
        else pmmAddressToPage (pmmAllocPage s.1).1 :: s.2
    | op => s.2.filter fun page => page ∉ pmmReleased s.1 op)

/-- A whole run, from nothing held. -/
def pmmHeldRun (p : Pmm) (ops : List PmmOp) : Pmm × List Nat :=
  ops.foldl pmmHeldStep (p, [])

/-- A loop of `pmm_mark_page_used` lowers no bit. -/
theorem PmmInv.usedLoop_bit (hp : PmmInv p) {start n page : Nat}
    (hused : bitmapTest p.bitmap page = true) :
    bitmapTest (forUp pmmMarkPageUsed start n p).bitmap page = true := by
  have hloop := forUp_preserves (f := pmmMarkPageUsed) (a := start) (n := n)
    (P := fun t => PmmInv t ∧ bitmapTest t.bitmap page = true) ⟨hp, hused⟩
    (fun i t _ _ ⟨ht, hbit⟩ =>
      ⟨ht.markPageUsed i, by rw [pmmMarkPageUsed_bit ht, hbit, Bool.or_true]⟩)
  exact hloop.2

/-- A loop of `pmm_mark_page_free` lowers no bit outside its range. -/
theorem PmmInv.freeLoop_bit (hp : PmmInv p) {start n page : Nat}
    (hused : bitmapTest p.bitmap page = true)
    (hout : page ∉ List.range' start n) :
    bitmapTest (forUp pmmMarkPageFree start n p).bitmap page = true := by
  rw [List.mem_range'_1] at hout
  have hloop := forUp_preserves (f := pmmMarkPageFree) (a := start) (n := n)
    (P := fun t => PmmInv t ∧ bitmapTest t.bitmap page = true) ⟨hp, hused⟩
    (fun i t hlo hhi ⟨ht, hbit⟩ => by
      refine ⟨ht.markPageFree i, ?_⟩
      rw [pmmMarkPageFree_bit ht, hbit, decide_eq_false (by omega)]
      rfl)
  exact hloop.2

/-- No step clears the bit of a used page it was not asked to release. -/
theorem PmmInv.step_bit (hp : PmmInv p) {op : PmmOp} {page : Nat}
    (hused : bitmapTest p.bitmap page = true)
    (hkept : page ∉ pmmReleased p op) :
    bitmapTest (pmmStep p op).bitmap page = true := by
  cases op with
  | allocPage =>
      rcases pmmAllocPage_spec hp with ⟨-, heq⟩ | ⟨q, hclear, hlow, heq⟩
      · rw [pmmStep, heq]
        exact hused
      · rw [pmmStep, heq, (pmmTakePage_spec hp hclear hlow).2.2.2,
          bitmapTest_set (by rw [hp.bits_eq]; exact hp.lt_total hclear),
          hused, Bool.or_true]
  | freePage address =>
      have hne : page ≠ pmmAddressToPage address := by
        simpa [pmmReleased] using hkept
      show bitmapTest (pmmMarkPageFree _ p).bitmap page = true
      rw [pmmMarkPageFree_bit hp, hused, decide_eq_false (by tauto)]
      rfl
  | unlockPage address =>
      have hne : page ≠ pmmAddressToPage address := by
        simpa [pmmReleased] using hkept
      show bitmapTest (pmmMarkPageFree _ p).bitmap page = true
      rw [pmmMarkPageFree_bit hp, hused, decide_eq_false (by tauto)]
      rfl
  | lockPage address =>
      show bitmapTest (pmmMarkPageUsed _ p).bitmap page = true
      rw [pmmMarkPageUsed_bit hp, hused, Bool.or_true]
  | lockPages address count => exact hp.usedLoop_bit hused
  | unlockPages address count => exact hp.freeLoop_bit hused hkept
  | reserveRegion base length => exact hp.usedLoop_bit hused
  | unreserveRegion base length => exact hp.freeLoop_bit hused hkept

/-- Held pages are used, along every run. -/
theorem pmmHeldRun_used (hp : PmmInv p) (ops : List PmmOp) :
    (pmmHeldRun p ops).1 = pmmRun p ops
      ∧ ∀ page ∈ (pmmHeldRun p ops).2,
          bitmapTest (pmmRun p ops).bitmap page = true := by
  suffices hgen : ∀ (held : List Nat) (p : Pmm), PmmInv p →
      (∀ page ∈ held, bitmapTest p.bitmap page = true) →
      (ops.foldl pmmHeldStep (p, held)).1 = pmmRun p ops
        ∧ ∀ page ∈ (ops.foldl pmmHeldStep (p, held)).2,
            bitmapTest (pmmRun p ops).bitmap page = true from
    hgen [] p hp (by simp)
  induction ops with
  | nil => exact fun held p _ hheld => ⟨rfl, hheld⟩
  | cons op ops ih =>
      intro held p hp hheld
      apply ih _ _ (hp.step op)
      have hkeep : ∀ page ∈ held, page ∉ pmmReleased p op →
          bitmapTest (pmmStep p op).bitmap page = true :=
        fun page hmem hnot => hp.step_bit (hheld page hmem) hnot
      by_cases halloc : op = .allocPage
      · subst halloc
        intro page hmem
        simp only at hmem
        split at hmem
        · exact hkeep page hmem (by simp [pmmReleased])
        · rename_i hsome
          rcases List.mem_cons.mp hmem with hnew | hold
          · -- the page just taken: its bit was set by the allocation
            rcases pmmAllocPage_spec hp with ⟨-, heq⟩ | ⟨q, hclear, hlow, heq⟩
            · rw [heq] at hsome
              exact absurd rfl hsome
            · have hq : page = q := by
                rw [hnew, heq, (pmmTakePage_spec hp hclear hlow).1]
                simp [pmmAddressToPage, pmmPageSize]
              rw [pmmStep, heq, (pmmTakePage_spec hp hclear hlow).2.2.2,
                bitmapTest_set (by rw [hp.bits_eq]; exact hp.lt_total hclear), hq]
              simp
          · exact hkeep page hold (by simp [pmmReleased])
      · intro page hmem
        have hmem' : page ∈ held.filter fun page => page ∉ pmmReleased p op := by
          cases op <;> first | exact absurd rfl halloc | exact hmem
        rw [List.mem_filter] at hmem'
        exact hkeep page hmem'.1 (by simpa using hmem'.2)

-- ==================================================== the main result

/-- The hinted scan is lowest-free-page allocation, after any accepted
memory map and any history of the entry points: every page below the
hint is used; `pmm_alloc_page` returns `NULL` exactly when no page is
clear, and otherwise the lowest clear page, which is not page 0, setting
that bit of the bitmap and no other; and it never returns a page that
is still held. -/
theorem pmm_alloc_lowest_free {old p₀ : Pmm} {response : List MemmapEntry}
    {executable : Option (Nat × Nat)}
    (hinit : pmmInit old response executable = (true, p₀))
    (ops : List PmmOp) :
    (∀ page < (pmmRun p₀ ops).nextFreePage,
        bitmapTest (pmmRun p₀ ops).bitmap page = true)
      ∧ ((pmmAllocPage (pmmRun p₀ ops)).1 = null
          ↔ ∀ page < (pmmRun p₀ ops).totalPages,
              bitmapTest (pmmRun p₀ ops).bitmap page = true)
      ∧ (∀ page, IsLeast {q | q < (pmmRun p₀ ops).totalPages
              ∧ bitmapTest (pmmRun p₀ ops).bitmap q = false} page →
          page ≠ 0
            ∧ (pmmAllocPage (pmmRun p₀ ops)).1 = 4096 * page
            ∧ ∀ i, bitmapBit (pmmAllocPage (pmmRun p₀ ops)).2.bitmap i
                = (decide (i = page) || bitmapBit (pmmRun p₀ ops).bitmap i))
      ∧ ((pmmAllocPage (pmmRun p₀ ops)).1 ≠ null →
          pmmAddressToPage (pmmAllocPage (pmmRun p₀ ops)).1
            ∉ (pmmHeldRun p₀ ops).2) := by
  have hinv : PmmInv (pmmRun p₀ ops) := (pmmInit_inv hinit).run ops
  have hheld := (pmmHeldRun_used (pmmInit_inv hinit) ops).2
  generalize pmmRun p₀ ops = p at hinv hheld ⊢
  refine ⟨hinv.hint, ?_⟩
  rcases pmmAllocPage_spec hinv with ⟨hall, heq⟩ | ⟨q, hclear, hlow, heq⟩
  · rw [heq]
    refine ⟨iff_of_true rfl hall, fun page hleast => ?_, fun h => absurd rfl h⟩
    have hpage := hleast.1
    rw [Set.mem_ofPred_eq, hall page hpage.1] at hpage
    cases hpage.2
  · have hq0 : q ≠ 0 := by
      rintro rfl
      rw [hinv.zero_used] at hclear
      cases hclear
    have hlt := hinv.lt_total hclear
    obtain ⟨haddr, -, -, hbitmap⟩ := pmmTakePage_spec hinv hclear hlow
    rw [heq, haddr, hbitmap]
    refine ⟨?_, ?_, ?_⟩
    · constructor
      · intro hnull
        have hzero : q * 4096 = 0 := hnull
        omega
      · intro hall
        rw [hall q hlt] at hclear
        cases hclear
    · intro page hleast
      have hpq : page = q := by
        have hle : page ≤ q := hleast.2 ⟨hlt, hclear⟩
        rcases Nat.lt_or_eq_of_le hle with hltq | heqq
        · have hpage := hleast.1
          rw [Set.mem_ofPred_eq, hlow page hltq] at hpage
          cases hpage.2
        · exact heqq
      rw [hpq]
      refine ⟨hq0, Nat.mul_comm .., fun i => ?_⟩
      exact bitmapBit_set (by rw [hinv.bits_eq]; exact hlt) i
    · intro _ hmem
      have hused := hheld _ hmem
      have hpage : pmmAddressToPage (q * pmmPageSize) = q := by
        simp [pmmAddressToPage, pmmPageSize]
      rw [hpage, hclear] at hused
      cases hused

/-- A four-page map with two usable pages, one page already handed out:
the next allocation is page 2. -/
theorem pmm_alloc_lowest_free_small :
    let old : Pmm := ⟨⟨fun _ => 0#8, 0⟩, 0, 0, 0, 0⟩
    let map : List MemmapEntry :=
      [⟨0x1000, 0x2000, .usable⟩, ⟨0x3000, 0x1000, .framebuffer⟩]
    let p := pmmRun (pmmInit old map none).2 [.allocPage]
    (pmmInit old map none).1 = true ∧ (pmmAllocPage p).1 = 8192 := by
  intro old map p
  refine ⟨by decide, ?_⟩
  have hinit : pmmInit old map none = (true, (pmmInit old map none).2) :=
    Prod.ext (by decide) rfl
  have hmain := pmm_alloc_lowest_free hinit [.allocPage]
  refine (hmain.2.2.1 2 ⟨by decide, ?_⟩).2.1
  intro q hq
  have hbelow : ∀ q < 2, ¬ (q < p.totalPages ∧ bitmapTest p.bitmap q = false) := by
    decide
  by_contra hlt
  exact hbelow q (Nat.lt_of_not_le hlt) hq

end ZenithOS.Mm
