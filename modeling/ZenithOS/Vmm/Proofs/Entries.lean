/-
Page-table entries bit by bit, and physical memory as table slots.

An entry's fields are single bits and the address bits 12..51, so each
fact about how an entry is put together is one about `testBit`. `slots`
reads memory as the tables the walks see: distinct slots of page-aligned
tables do not overlap, so a store, a cleared frame or a copied frame is
one update of `slots`.
-/
import ZenithOS.Vmm.Mmu
import ZenithOS.Mm.Proofs.Pmm

namespace ZenithOS.Vmm

open Lib Mm

variable {a b e : Nat} {m : Mem}

-- ==================================================================== bits

/-- A single bit of a word. -/
private theorem and_two_pow_ne_zero (e k : Nat) :
    (e &&& 2 ^ k != 0) = e.testBit k := by
  cases hbit : e.testBit k with
  | false =>
      have hzero : e &&& 2 ^ k = 0 := by
        refine Nat.eq_of_testBit_eq fun i => ?_
        rw [Nat.testBit_and, Nat.testBit_two_pow, Nat.zero_testBit]
        by_cases hik : k = i
        · rw [← hik, hbit, Bool.false_and]
        · simp [hik]
      simp [hzero]
  | true =>
      have hne : e &&& 2 ^ k ≠ 0 := by
        intro hzero
        have hk : (e &&& 2 ^ k).testBit k = false := by
          rw [hzero, Nat.zero_testBit]
        rw [Nat.testBit_and, hbit, Nat.testBit_two_pow_self] at hk
        cases hk
      simp [hne]

theorem pageIsPresent_eq (e : Nat) : pageIsPresent e = e.testBit 0 :=
  and_two_pow_ne_zero e 0

theorem pageIsWritable_eq (e : Nat) : pageIsWritable e = e.testBit 1 :=
  and_two_pow_ne_zero e 1

theorem pageIsUser_eq (e : Nat) : pageIsUser e = e.testBit 2 :=
  and_two_pow_ne_zero e 2

theorem pageIsHuge_eq (e : Nat) : pageIsHuge e = e.testBit 7 :=
  and_two_pow_ne_zero e 7

theorem testBit_addressMask (i : Nat) :
    pageTableAddressMask.testBit i = decide (12 ≤ i ∧ i < 52) := by
  have hmask : pageTableAddressMask = (2 ^ 40 - 1) <<< 12 := by decide
  rw [hmask, Nat.testBit_shiftLeft, Nat.testBit_two_pow_sub_one]
  by_cases hlo : 12 ≤ i
  · have hshift : i - 12 < 40 ↔ i < 52 := by omega
    simp [hlo, hshift]
  · simp [hlo]

/-- The address bits of an entry. -/
theorem testBit_pageAddress (e i : Nat) :
    (pageAddress e).testBit i = (e.testBit i && decide (12 ≤ i ∧ i < 52)) := by
  rw [pageAddress, Nat.testBit_and, testBit_addressMask]

/-- The address of a union. -/
theorem pageAddress_or (a b : Nat) :
    pageAddress (a ||| b) = pageAddress a ||| pageAddress b :=
  Nat.and_or_distrib_right a b _

theorem pageAddress_lt (e : Nat) : pageAddress e < 2 ^ 52 :=
  Nat.and_lt_two_pow e (by decide)

/-- Below bit 12 an aligned address is zero. -/
theorem testBit_of_aligned (ha : 4096 ∣ a) {i : Nat} (hi : i < 12) :
    a.testBit i = false := by
  obtain ⟨k, rfl⟩ := ha
  rw [show 4096 * k = k <<< 12 by rw [Nat.shiftLeft_eq]; omega, Nat.testBit_shiftLeft]
  simp [Nat.not_le.mpr hi]

theorem pageAddress_aligned (e : Nat) : 4096 ∣ pageAddress e := by
  have hshift : pageAddress e = (pageAddress e >>> 12) <<< 12 := by
    refine Nat.eq_of_testBit_eq fun i => ?_
    rw [Nat.testBit_shiftLeft, Nat.testBit_shiftRight, testBit_pageAddress]
    by_cases hlo : 12 ≤ i
    · rw [show 12 + (i - 12) = i by omega, testBit_pageAddress]
      simp [hlo]
    · simp [hlo]
  rw [hshift, Nat.shiftLeft_eq]
  exact Nat.dvd_mul_left ..

/-- A frame address is its own address field. -/
theorem pageAddress_of_aligned (ha : 4096 ∣ a) (hlt : a < 2 ^ 52) :
    pageAddress a = a := by
  refine Nat.eq_of_testBit_eq fun i => ?_
  rw [testBit_pageAddress]
  by_cases hlo : 12 ≤ i
  · by_cases hhi : i < 52
    · simp [hlo, hhi]
    · have hzero : a.testBit i = false := by
        refine Nat.testBit_lt_two_pow (Nat.lt_of_lt_of_le hlt ?_)
        exact Nat.pow_le_pow_right (by decide) (by omega)
      simp [hzero]
  · rw [testBit_of_aligned ha (by omega)]
    rfl

/-- The bits of a word from `k` up to 51. -/
theorem testBit_frameBits (e k i : Nat) :
    (e % 2 ^ 52 / 2 ^ k * 2 ^ k).testBit i = (e.testBit i && decide (k ≤ i ∧ i < 52)) := by
  rw [← Nat.shiftLeft_eq, ← Nat.shiftRight_eq_div_pow, Nat.testBit_shiftLeft,
    Nat.testBit_shiftRight, Nat.testBit_mod_two_pow]
  by_cases hlo : k ≤ i
  · rw [Nat.add_sub_cancel' hlo]
    simp [hlo, Bool.and_comm]
  · simp [hlo]

theorem mmuFrame_pt (e : Nat) : mmuFrame .pt e = pageAddress e := by
  refine Nat.eq_of_testBit_eq fun i => ?_
  rw [testBit_pageAddress]
  exact testBit_frameBits e 12 i

/-- The entry `ensure_next_table` writes for a frame. -/
def tableEntry (frame : Nat) : Nat := frame ||| pagePresent ||| pageWritable

theorem tableEntry_address (ha : 4096 ∣ a) (hlt : a < 2 ^ 52) :
    pageAddress (tableEntry a) = a := by
  rw [tableEntry, pageAddress_or, pageAddress_or, pageAddress_of_aligned ha hlt]
  rw [show pageAddress pagePresent = 0 by decide, show pageAddress pageWritable = 0 by decide]
  simp

theorem tableEntry_lt (hlt : a < 2 ^ 52) : tableEntry a < 2 ^ 64 := by
  have hbig : a < 2 ^ 64 := Nat.lt_trans hlt (by decide)
  exact Nat.or_lt_two_pow (Nat.or_lt_two_pow hbig (by decide)) (by decide)

/-- The flags of a new table's entry. -/
theorem tableEntry_bits (ha : 4096 ∣ a) :
    pageIsPresent (tableEntry a) = true ∧ pageIsWritable (tableEntry a) = true
      ∧ pageIsUser (tableEntry a) = false ∧ pageIsHuge (tableEntry a) = false := by
  rw [pageIsPresent_eq, pageIsWritable_eq, pageIsUser_eq, pageIsHuge_eq]
  have hbit : ∀ i < 12, (tableEntry a).testBit i
      = (pagePresent.testBit i || pageWritable.testBit i) := by
    intro i hi
    rw [tableEntry, Nat.testBit_or, Nat.testBit_or, testBit_of_aligned ha hi,
      Bool.false_or]
  rw [hbit 0 (by decide), hbit 1 (by decide), hbit 2 (by decide), hbit 7 (by decide)]
  decide

-- =================================================================== slots

theorem slots_lt (m : Mem) (table : Nat) (index : Fin 512) :
    slots m table index < 2 ^ 64 :=
  loadWord_lt m _

variable {f g : Nat} {i j : Fin 512}

/-- Two slots of aligned tables are the same or apart. -/
private theorem slots_apart (hf : 4096 ∣ f) (hg : 4096 ∣ g) (hne : g ≠ f ∨ j ≠ i) :
    g + 8 * j.val + 8 ≤ f + 8 * i.val ∨ f + 8 * i.val + 8 ≤ g + 8 * j.val := by
  obtain ⟨k, rfl⟩ := hf
  obtain ⟨l, rfl⟩ := hg
  have hi := i.isLt
  have hj := j.isLt
  have hne' : l ≠ k ∨ j.val ≠ i.val := by
    cases hne with
    | inl h => exact .inl fun heq => h (by rw [heq])
    | inr h => exact .inr fun heq => h (Fin.ext heq)
  omega

/-- A slot that is stored is read. -/
theorem slots_store_self : slots (storeWord m (f + 8 * i.val) e) f i = e % 2 ^ 64 :=
  loadWord_storeWord m _ e

/-- No other slot changes. -/
theorem slots_store_other (hf : 4096 ∣ f) (hg : 4096 ∣ g) (hne : g ≠ f ∨ j ≠ i) :
    slots (storeWord m (f + 8 * i.val) e) g j = slots m g j :=
  loadWord_storeWord_of_disjoint (slots_apart hf hg hne)

/-- Aligned frames are the same or apart. -/
private theorem frames_apart (hf : 4096 ∣ f) (hg : 4096 ∣ g) (hne : g ≠ f)
    (j : Fin 512) : g + 8 * j.val + 8 ≤ f ∨ f + 4096 ≤ g + 8 * j.val := by
  obtain ⟨k, rfl⟩ := hf
  obtain ⟨l, rfl⟩ := hg
  have hj := j.isLt
  omega

/-- A cleared table is empty. -/
theorem slots_fill_self : slots (fill m f 0#8 pageSize) f i = 0 := by
  have hi := i.isLt
  apply loadWord_fill_zero (Nat.le_add_right ..)
  show f + 8 * i.val + 8 ≤ f + 4096
  omega

theorem slots_fill_other (hf : 4096 ∣ f) (hg : 4096 ∣ g) (hne : g ≠ f) :
    slots (fill m f 0#8 pageSize) g j = slots m g j :=
  loadWord_fill_of_disjoint (frames_apart hf hg hne j)

/-- A copied table is the same. -/
theorem slots_copy_self {k : Nat} :
    slots (blit m f (fun x => m (k + x)) pageSize) f i = slots m k i := by
  have hi := i.isLt
  have hinside : f + 8 * i.val + 8 ≤ f + pageSize := by
    show f + 8 * i.val + 8 ≤ f + 4096
    omega
  show loadWord (blit m f (fun x => m (k + x)) pageSize) (f + 8 * i.val)
    = loadWord m (k + 8 * i.val)
  rw [loadWord_blit_inside (Nat.le_add_right ..) hinside,
    show f + 8 * i.val - f = 8 * i.val by omega]

theorem slots_copy_other {src : Nat → Byte} (hf : 4096 ∣ f) (hg : 4096 ∣ g)
    (hne : g ≠ f) : slots (blit m f src pageSize) g j = slots m g j :=
  loadWord_blit_of_disjoint (frames_apart hf hg hne j)

/-- The memory `page_table_create` leaves: the frame `g` is a copy of the
kernel's root. -/
theorem slots_create {m : Mem} {g k : Nat} (hg : 4096 ∣ g) (hk : 4096 ∣ k) (hne : k ≠ g) :
    let filled := fill m g 0#8 pageSize
    let copied := blit filled g (fun i => filled (k + i)) pageSize
    (∀ j, slots copied g j = slots m k j)
      ∧ ∀ f j, 4096 ∣ f → f ≠ g → slots copied f j = slots m f j := by
  intro filled copied
  constructor
  · intro j
    rw [slots_copy_self, slots_fill_other hg hk hne]
  · intro f j hf hfg
    rw [slots_copy_other hg hf hfg, slots_fill_other hg hf hfg]

-- ==================================================================== walks

/-- The table an entry of a level-`n` table leads to, the root being at
level 3: a present entry, unless it maps a huge page, which the code does
not ask of a root's entry. -/
def nextTable (hhdmOffset n entry : Nat) : Option Nat :=
  if n ≠ 0 ∧ pageIsPresent entry ∧ (n = 3 ∨ ¬ pageIsHuge entry) then
    pageTablePhysicalToVirtual hhdmOffset (pageAddress entry)
  else none

theorem nextTable_absent {n : Nat} (he : pageIsPresent e = false) :
    nextTable a n e = none := by
  simp [nextTable, he]

theorem nextTable_leaf : nextTable a 0 e = none := by
  simp [nextTable]

/-- The tables a walk comes to are aligned. -/
theorem nextTable_aligned {n : Nat} (hnext : nextTable a n e = some g) :
    4096 ∣ g ∧ g < 2 ^ 52 := by
  unfold nextTable pageTablePhysicalToVirtual at hnext
  split_ifs at hnext
  rw [← Option.some.inj hnext]
  exact ⟨pageAddress_aligned e, pageAddress_lt e⟩

/-- The processor goes where the code's walk goes. -/
theorem mmuNext_of_nextTable {n : Nat} (h : nextTable a n e = some g) :
    mmuNext n e = some g := by
  unfold nextTable pageTablePhysicalToVirtual at h
  split_ifs at h with hcond
  rw [mmuNext, if_pos hcond, ← Option.some.inj h]

theorem mmuNext_aligned {n : Nat} (h : mmuNext n e = some g) : 4096 ∣ g := by
  unfold mmuNext at h
  split_ifs at h
  rw [← Option.some.inj h]
  exact pageAddress_aligned e

theorem mmuNext_absent {n : Nat} (he : pageIsPresent e = false) : mmuNext n e = none := by
  simp [mmuNext, he]

theorem mmuNext_leaf : mmuNext 0 e = none := by
  simp [mmuNext]

theorem pml4Index_eq (va : Nat) : pml4Index va = pml4Digit va := rfl
theorem pdptIndex_eq (va : Nat) : pdptIndex va = pdptDigit va := rfl
theorem pdIndex_eq (va : Nat) : pdIndex va = pdDigit va := rfl
theorem ptIndex_eq (va : Nat) : ptIndex va = ptDigit va := rfl

/-- Two addresses that agree on bits 12..47. -/
def SamePage (v w : Nat) : Prop :=
  ∀ i, 12 ≤ i → i ≤ 47 → v.testBit i = w.testBit i

/-- Bit `i` of a nine-bit index. -/
private theorem testBit_index (v k i : Nat) :
    ((v >>> k) &&& 0x1FF).testBit i = (v.testBit (k + i) && decide (i < 9)) := by
  rw [Nat.testBit_and, Nat.testBit_shiftRight, show (0x1FF : Nat) = 2 ^ 9 - 1 by decide,
    Nat.testBit_two_pow_sub_one]

/-- Two addresses have an index in common when its nine bits agree. -/
private theorem index_eq_iff (v w k : Nat) :
    (v >>> k) &&& 0x1FF = (w >>> k) &&& 0x1FF
      ↔ ∀ i, k ≤ i → i < k + 9 → v.testBit i = w.testBit i := by
  constructor
  · intro heq i hlo hhi
    have hbit := congrArg (fun x => x.testBit (i - k)) heq
    simp only [testBit_index] at hbit
    rw [show k + (i - k) = i by omega] at hbit
    simpa [show i - k < 9 by omega] using hbit
  · intro hbits
    refine Nat.eq_of_testBit_eq fun i => ?_
    rw [testBit_index, testBit_index]
    by_cases hi : i < 9
    · rw [hbits (k + i) (by omega) (by omega)]
    · simp [hi]

/-- A page is its four indices. -/
theorem samePage_iff_digits (v w : Nat) : SamePage v w ↔ digits v = digits w := by
  have hdigits : digits v = digits w
      ↔ pml4Index v = pml4Index w ∧ pdptIndex v = pdptIndex w
        ∧ pdIndex v = pdIndex w ∧ ptIndex v = ptIndex w := by
    simp [digits, pml4Digit, pdptDigit, pdDigit, ptDigit, Fin.ext_iff]
  rw [hdigits, pml4Index, pml4Index, pdptIndex, pdptIndex, pdIndex, pdIndex, ptIndex,
    ptIndex, index_eq_iff, index_eq_iff, index_eq_iff, index_eq_iff]
  constructor
  · intro hsame
    exact ⟨fun i hlo hhi => hsame i (by omega) (by omega),
      fun i hlo hhi => hsame i (by omega) (by omega),
      fun i hlo hhi => hsame i (by omega) (by omega),
      fun i hlo hhi => hsame i (by omega) (by omega)⟩
  · intro hbits i hlo hhi
    obtain ⟨h39, h30, h21, h12⟩ := hbits
    by_cases h₁ : i < 21
    · exact h12 i hlo h₁
    · by_cases h₂ : i < 30
      · exact h21 i (by omega) h₂
      · by_cases h₃ : i < 39
        · exact h30 i (by omega) h₃
        · exact h39 i (by omega) (by omega)

end ZenithOS.Vmm
