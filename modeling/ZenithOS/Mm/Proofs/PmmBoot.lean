/-
What `pmm_init` leaves free.

Each of its passes is a loop over the memory map whose body is a counted
loop over pages; a pass is summarised by what it does to the set of clear
pages (`markUsable_clear`, `reserveMemmapType_clear`). The pages a region
covers are taken from its rounded base and its rounded length separately
(`RegionPage`), so for a region that is not page aligned they are not the
pages it meets; but each of them does meet it (`RegionPage.byte`), which
is why reserving such a region takes no page of a usable one.
-/
import ZenithOS.Mm.Proofs.Pmm
import Mathlib.Data.List.Pairwise

namespace ZenithOS.Mm

open Lib

variable {p : Pmm} {response : List MemmapEntry} {base length page : Nat}

-- ================================================================== regions

/-- The pages `pmm_reserve_region` and `pmm_mark_usable` walk over, but
for the clamping. -/
def RegionPage (base length page : Nat) : Prop :=
  base / pmmPageSize ≤ page ∧ page < base / pmmPageSize + pmmRegionPageCount length

/-- A byte of the entry. -/
def MemmapEntry.Has (e : MemmapEntry) (x : Nat) : Prop :=
  e.base ≤ x ∧ x < e.base + e.length

/-- The whole page is inside the entry. -/
def MemmapEntry.HasPage (e : MemmapEntry) (page : Nat) : Prop :=
  e.base ≤ page * pmmPageSize ∧ page * pmmPageSize + pmmPageSize ≤ e.base + e.length

/-- The page count of a length that does not wrap. -/
theorem pmmRegionPageCount_eq (hlen : length + 4095 < 2 ^ 64) :
    pmmRegionPageCount length = (length + 4095) / 4096 := by
  rw [pmmRegionPageCount]
  split_ifs with hzero
  · rw [hzero]
  · show (length + 4095) % 2 ^ 64 / 4096 = _
    rw [Nat.mod_eq_of_lt hlen]

/-- The rounding of a length that wraps gives no page at all. -/
theorem pmmRegionPageCount_le (hlen : length < 2 ^ 64) :
    pmmRegionPageCount length ≤ (length + 4095) / 4096 := by
  by_cases hwrap : length + 4095 < 2 ^ 64
  · exact Nat.le_of_eq (pmmRegionPageCount_eq hwrap)
  · rw [pmmRegionPageCount]
    split_ifs
    · exact Nat.zero_le _
    · show (length + 4095) % 2 ^ 64 / 4096 ≤ _
      omega

/-- Every page of a region has a byte of it. -/
theorem RegionPage.byte (h : RegionPage base length page) (hlen : length < 2 ^ 64) :
    ∃ x, base ≤ x ∧ x < base + length ∧ page * 4096 ≤ x ∧ x < page * 4096 + 4096 := by
  have hcount := pmmRegionPageCount_le hlen
  have hlo : base / 4096 ≤ page := h.1
  have hhi : page < base / 4096 + pmmRegionPageCount length := h.2
  rcases Nat.le_total base (page * 4096) with hle | hle
  · exact ⟨page * 4096, hle, by omega, Nat.le_refl _, by omega⟩
  · exact ⟨base, Nat.le_refl _, by omega, hle, by omega⟩

/-- The pages of an aligned region are those inside it. -/
theorem regionPage_aligned (hbase : 4096 ∣ base) (hlen : 4096 ∣ length) (hlt : length < 2 ^ 64) :
    RegionPage base length page ↔ base ≤ page * 4096 ∧ page * 4096 + 4096 ≤ base + length := by
  have hcount : pmmRegionPageCount length = (length + 4095) / 4096 :=
    pmmRegionPageCount_eq (by omega)
  rw [RegionPage, hcount]
  show base / 4096 ≤ page ∧ page < base / 4096 + (length + 4095) / 4096 ↔ _
  omega

-- =================================================================== passes

/-- A counted loop of `pmm_mark_page_used`, by the clear pages. -/
theorem PmmInv.usedLoop_clear (hp : PmmInv p) (start n page : Nat) :
    bitmapTest (forUp pmmMarkPageUsed start n p).bitmap page = false
      ↔ bitmapTest p.bitmap page = false ∧ ¬ (start ≤ page ∧ page < start + n) := by
  have hloop := forUp_rule (f := pmmMarkPageUsed) (a := start) (n := n) (s := p)
    (P := fun k t => PmmInv t ∧ (bitmapTest t.bitmap page = false
      ↔ bitmapTest p.bitmap page = false ∧ ¬ (start ≤ page ∧ page < k)))
    ⟨hp, fun h => ⟨h, by omega⟩, fun h => h.1⟩ ?_
  · exact hloop.2
  · intro i t hlo hhi ht
    obtain ⟨hinv, hclear⟩ := ht
    refine ⟨hinv.markPageUsed i, ?_⟩
    rw [pmmMarkPageUsed_bit hinv, Bool.or_eq_false_iff, hclear, decide_eq_false_iff_not]
    constructor
    · intro hboth
      refine ⟨hboth.2.1, fun hin => ?_⟩
      have hne : page ≠ i := fun heq =>
        hboth.1 ⟨heq, heq ▸ hinv.lt_total (hclear.mpr hboth.2)⟩
      exact hboth.2.2 ⟨hin.1, by omega⟩
    · intro hboth
      exact ⟨fun hin => hboth.2 ⟨by omega, by omega⟩, hboth.1,
        fun hin => hboth.2 ⟨hin.1, by omega⟩⟩

/-- A counted loop of `pmm_mark_page_free`, by the clear pages. -/
theorem PmmInv.freeLoop_clear (hp : PmmInv p) (start n page : Nat) :
    (forUp pmmMarkPageFree start n p).totalPages = p.totalPages
      ∧ (bitmapTest (forUp pmmMarkPageFree start n p).bitmap page = false
        ↔ bitmapTest p.bitmap page = false
          ∨ (page ≠ 0 ∧ page < p.totalPages ∧ start ≤ page ∧ page < start + n)) := by
  have hloop := forUp_rule (f := pmmMarkPageFree) (a := start) (n := n) (s := p)
    (P := fun k t => PmmInv t ∧ t.totalPages = p.totalPages
      ∧ (bitmapTest t.bitmap page = false ↔ bitmapTest p.bitmap page = false
        ∨ (page ≠ 0 ∧ page < p.totalPages ∧ start ≤ page ∧ page < k)))
    ⟨hp, rfl, fun h => .inl h, fun h => h.resolve_right (by omega)⟩ ?_
  · exact hloop.2
  · intro i t hlo hhi ht
    obtain ⟨hinv, htotal, hclear⟩ := ht
    refine ⟨hinv.markPageFree i, by rw [pmmMarkPageFree_totalPages, htotal], ?_⟩
    rw [pmmMarkPageFree_bit hinv, htotal, Bool.and_eq_false_iff, hclear, Bool.not_eq_false',
      decide_eq_true_eq]
    constructor
    · intro hor
      rcases hor with ⟨rfl, h0, hlt⟩ | hold | ⟨h0, hlt, hs, hk⟩
      · exact .inr ⟨h0, hlt, hlo, by omega⟩
      · exact .inl hold
      · exact .inr ⟨h0, hlt, hs, by omega⟩
    · intro hor
      rcases hor with hold | ⟨h0, hlt, hs, hk⟩
      · exact .inr (.inl hold)
      · by_cases heq : page = i
        · exact .inl ⟨heq, heq ▸ h0, heq ▸ hlt⟩
        · exact .inr (.inr ⟨h0, hlt, hs, by omega⟩)

/-- The clamp only cuts pages that do not exist. -/
theorem pmmClampPageCount_iff (hpage : page < p.totalPages) (start count : Nat) :
    (start ≤ page ∧ page < start + pmmClampPageCount p start count)
      ↔ start ≤ page ∧ page < start + count := by
  rw [pmmClampPageCount]
  split_ifs
  · omega
  · omega
  · rfl

/-- The pages of the region are not free any more. -/
theorem PmmInv.reserveRegion_clear (hp : PmmInv p) (base length page : Nat) :
    bitmapTest (pmmReserveRegion base length p).bitmap page = false
      ↔ bitmapTest p.bitmap page = false ∧ ¬ RegionPage base length page := by
  rw [pmmReserveRegion, hp.usedLoop_clear]
  refine and_congr_right fun hclear => ?_
  rw [pmmClampPageCount_iff (hp.lt_total hclear)]
  rfl

/-- The pages of usable entries become free. -/
theorem PmmInv.markUsable_clear (hp : PmmInv p) (response : List MemmapEntry) (page : Nat) :
    (pmmMarkUsable response p).totalPages = p.totalPages
      ∧ (bitmapTest (pmmMarkUsable response p).bitmap page = false
        ↔ bitmapTest p.bitmap page = false ∨ (page ≠ 0 ∧ page < p.totalPages
          ∧ ∃ e ∈ response, e.type = .usable ∧ RegionPage e.base e.length page)) := by
  induction response generalizing p with
  | nil => simp [pmmMarkUsable]
  | cons e response ih =>
      rw [pmmMarkUsable, List.foldl_cons]
      by_cases htype : e.type = .usable
      · rw [if_neg (not_not.mpr htype)]
        obtain ⟨htotal, hclear⟩ := hp.freeLoop_clear (e.base / pmmPageSize)
          (pmmClampPageCount p (e.base / pmmPageSize) (pmmRegionPageCount e.length)) page
        obtain ⟨htotal', hclear'⟩ := ih (hp.freeLoop (e.base / pmmPageSize)
          (pmmClampPageCount p (e.base / pmmPageSize) (pmmRegionPageCount e.length)))
        refine ⟨htotal'.trans htotal, hclear'.trans ?_⟩
        rw [hclear, htotal, or_assoc, ← and_or_left]
        refine or_congr_right (and_congr_right fun _ => ?_)
        rw [← and_or_left]
        refine and_congr_right fun hlt => ?_
        rw [pmmClampPageCount_iff hlt, List.exists_mem_cons_iff]
        simp only [htype, true_and]
        rfl
      · rw [if_pos htype]
        obtain ⟨htotal', hclear'⟩ := ih hp
        refine ⟨htotal', hclear'.trans ?_⟩
        simp [htype]

/-- The pages of entries of a type are not free any more. -/
theorem PmmInv.reserveMemmapType_clear (hp : PmmInv p) (response : List MemmapEntry)
    (type : MemmapType) (page : Nat) :
    bitmapTest (pmmReserveMemmapType response type p).bitmap page = false
      ↔ bitmapTest p.bitmap page = false
        ∧ ∀ e ∈ response, e.type = type → ¬ RegionPage e.base e.length page := by
  induction response generalizing p with
  | nil => simp [pmmReserveMemmapType]
  | cons e response ih =>
      rw [pmmReserveMemmapType, List.foldl_cons]
      by_cases htype : e.type = type
      · rw [if_neg (not_not.mpr htype)]
        have hrest := ih (p := pmmReserveRegion e.base e.length p) (hp.usedLoop _ _)
        rw [pmmReserveMemmapType, hp.reserveRegion_clear] at hrest
        rw [hrest, List.forall_mem_cons, and_assoc]
        simp [htype]
      · rw [if_pos htype]
        have hrest := ih hp
        rw [pmmReserveMemmapType] at hrest
        rw [hrest, List.forall_mem_cons]
        simp [htype]

/-- The pages of the kernel image. -/
def KernelPage (executable : Option (Nat × Nat)) (page : Nat) : Prop :=
  ∃ base size, executable = some (base, size)
    ∧ base ≤ page * pmmPageSize ∧ page * pmmPageSize < base + size

-- ================================================================== pmm_init

/-- The boot protocol's promises, and no address beyond 64 bits. -/
structure GoodMap (response : List MemmapEntry) : Prop where
  aligned : ∀ e ∈ response, e.type = .usable → pmmPageSize ∣ e.base ∧ pmmPageSize ∣ e.length
  apart : response.Pairwise fun e f =>
    e.type = .usable ∨ f.type = .usable → ∀ x, ¬ (e.Has x ∧ f.Has x)
  bounded : ∀ e ∈ response, e.base + e.length < 2 ^ 64

/-- The kernel image is page aligned. -/
def GoodImage (executable : Option (Nat × Nat)) : Prop :=
  ∀ base size, executable = some (base, size) →
    pmmPageSize ∣ base ∧ pmmPageSize ∣ size ∧ size < 2 ^ 64

/-- The pages meant to be free: inside a usable entry, but for page 0 and
the kernel image. -/
def BootFree (response : List MemmapEntry) (executable : Option (Nat × Nat)) (page : Nat) :
    Prop :=
  page ≠ 0 ∧ (∃ e ∈ response, e.type = .usable ∧ e.HasPage page) ∧ ¬ KernelPage executable page

variable {executable : Option (Nat × Nat)}

/-- The pages of a usable entry are those it covers. -/
theorem GoodMap.usable_page (h : GoodMap response) {e : MemmapEntry} (he : e ∈ response)
    (htype : e.type = .usable) : RegionPage e.base e.length page ↔ e.HasPage page := by
  obtain ⟨hbase, hlen⟩ := h.aligned e he htype
  have hlt := h.bounded e he
  exact regionPage_aligned hbase hlen (by omega)

/-- Reserving another entry takes no usable page. -/
theorem GoodMap.reserved_page (h : GoodMap response) {e f : MemmapEntry} (he : e ∈ response)
    (hf : f ∈ response) (htype : e.type = .usable) (hother : f.type ≠ .usable)
    (hpage : e.HasPage page) : ¬ RegionPage f.base f.length page := by
  intro hregion
  have hlt := h.bounded f hf
  obtain ⟨x, hlo, hhi, hpage_lo, hpage_hi⟩ := hregion.byte (by omega)
  have hne : e ≠ f := by
    rintro rfl
    exact hother htype
  have hsymm : Std.Symm fun e f : MemmapEntry =>
      e.type = .usable ∨ f.type = .usable → ∀ x, ¬ (e.Has x ∧ f.Has x) :=
    ⟨fun e f hef hor x hx => hef hor.symm x hx.symm⟩
  refine h.apart.forall he hf hne (.inl htype) x ⟨⟨?_, ?_⟩, hlo, hhi⟩
  · exact Nat.le_trans hpage.1 hpage_lo
  · exact Nat.lt_of_lt_of_le hpage_hi hpage.2

/-- The kernel's pages are not free any more. -/
theorem PmmInv.reserveKernel_clear (hp : PmmInv p) (hexec : GoodImage executable) :
    bitmapTest (pmmReserveKernel executable p).bitmap page = false
      ↔ bitmapTest p.bitmap page = false ∧ ¬ KernelPage executable page := by
  cases executable with
  | none =>
      rw [pmmReserveKernel]
      refine (and_iff_left ?_).symm
      intro hkernel
      obtain ⟨base, size, heq, -⟩ := hkernel
      cases heq
  | some image =>
      obtain ⟨base, size⟩ := image
      obtain ⟨hbase, hsize, hlt⟩ := hexec base size rfl
      have hregion : RegionPage base size page ↔ _ := regionPage_aligned hbase hsize hlt
      rw [pmmReserveKernel, hp.reserveRegion_clear, hregion]
      refine and_congr_right fun _ => not_congr ?_
      constructor
      · intro hin
        exact ⟨base, size, rfl, hin.1, by show page * 4096 < _; omega⟩
      · intro hkernel
        obtain ⟨base', size', heq, hlo, hhi⟩ := hkernel
        injection heq with heq
        injection heq with hb hs
        subst hb hs
        have hlo' : base ≤ page * 4096 := hlo
        have hhi' : page * 4096 < base + size := hhi
        have hbase' : 4096 ∣ base := hbase
        have hsize' : 4096 ∣ size := hsize
        omega

/-- `highest_address` bounds every usable entry, and one reaches it. -/
theorem pmmHighestAddress_spec (hbounded : ∀ e ∈ response, e.base + e.length < 2 ^ 64) :
    (∀ e ∈ response, e.type = .usable → e.base + e.length ≤ pmmHighestAddress response)
      ∧ (pmmHighestAddress response = 0
        ∨ ∃ e ∈ response, e.type = .usable
          ∧ pmmHighestAddress response = e.base + e.length) := by
  let step := fun (highest : Nat) (entry : MemmapEntry) =>
    let stop := (entry.base + entry.length) % 2 ^ 64
    if entry.type = .usable ∧ stop > highest then stop else highest
  have hfold : ∀ (l : List MemmapEntry) (init : Nat), (∀ e ∈ l, e.base + e.length < 2 ^ 64) →
      init ≤ l.foldl step init
        ∧ (∀ e ∈ l, e.type = .usable → e.base + e.length ≤ l.foldl step init)
        ∧ (l.foldl step init = init
          ∨ ∃ e ∈ l, e.type = .usable ∧ l.foldl step init = e.base + e.length) := by
    intro l
    induction l with
    | nil =>
        intro init _
        exact ⟨Nat.le_refl _, by simp, .inl rfl⟩
    | cons e l ih =>
        intro init hl
        have hmod : (e.base + e.length) % 2 ^ 64 = e.base + e.length :=
          Nat.mod_eq_of_lt (hl e List.mem_cons_self)
        obtain ⟨hinit, hall, hreach⟩ :=
          ih (step init e) fun f hf => hl f (List.mem_cons_of_mem e hf)
        rw [List.foldl_cons]
        have hstep : init ≤ step init e
            ∧ (e.type = .usable → e.base + e.length ≤ step init e)
            ∧ (step init e = init
              ∨ e.type = .usable ∧ step init e = e.base + e.length) := by
          show init ≤ (if _ then _ else _) ∧ (_ → _ ≤ (if _ then _ else _))
            ∧ ((if _ then _ else _) = _ ∨ _ ∧ (if _ then _ else _) = _)
          rw [hmod]
          split_ifs with hcond
          · exact ⟨Nat.le_of_lt hcond.2, fun _ => Nat.le_refl _, .inr ⟨hcond.1, rfl⟩⟩
          · exact ⟨Nat.le_refl _, fun ht => Nat.le_of_not_lt fun hlt => hcond ⟨ht, hlt⟩, .inl rfl⟩
        refine ⟨Nat.le_trans hstep.1 hinit, ?_, ?_⟩
        · intro f hf ht
          cases List.mem_cons.mp hf with
          | inl heq =>
              rw [heq] at ht ⊢
              exact Nat.le_trans (hstep.2.1 ht) hinit
          | inr hmem => exact hall f hmem ht
        · rcases hreach with hsame | ⟨f, hf, ht, heq⟩
          · rw [hsame]
            rcases hstep.2.2 with hsame' | ⟨ht, heq⟩
            · exact .inl hsame'
            · exact .inr ⟨e, List.mem_cons_self, ht, heq⟩
          · exact .inr ⟨f, List.mem_cons_of_mem e hf, ht, heq⟩
  obtain ⟨-, hall, hreach⟩ := hfold response 0 hbounded
  exact ⟨hall, hreach⟩

/-- The pages `pmm_init` counts. -/
def bootPages (response : List MemmapEntry) : Nat :=
  ((pmmHighestAddress response + pmmPageSize - 1) % 2 ^ 64) / pmmPageSize

/-- The bitmap after `bitmap_init` and the first pass. -/
def usableMarked (old : Pmm) (response : List MemmapEntry) : Pmm :=
  pmmMarkUsable response
    ⟨bitmapInit old.bitmap.bytes (bootPages response), bootPages response, 0, 0, 0⟩

/-- The passes of a `pmm_init` that accepts. -/
theorem pmmInit_eq (old : Pmm) (executable : Option (Nat × Nat))
    (hfits : bootPages response ≤ pmmBitmapMaxBits) :
    pmmInit old response executable
      = (true, pmmSeekNextFreePage
          (pmmReserveMemmapType response .framebuffer
            (pmmReserveMemmapType response .executableAndModules
              (pmmReserveMemmapType response .bootloaderReclaimable
                (pmmReserveKernel executable
                  (pmmReserveRegion 0 pmmPageSize (usableMarked old response))))))) := by
  have hfits' : bootPages response ≤ 1048576 := hfits
  rw [pmmInit]
  apply if_neg
  show ¬ ((bootPages response + 7) / 8 > 131072 ∨ bootPages response > 1048576)
  omega

theorem usedLoop_totalPages (start n : Nat) :
    (forUp pmmMarkPageUsed start n p).totalPages = p.totalPages :=
  forUp_preserves (P := fun t : Pmm => t.totalPages = p.totalPages) rfl
    fun i t _ _ ht => by rw [pmmMarkPageUsed_totalPages, ht]

theorem reserveMemmapType_totalPages (response : List MemmapEntry) (type : MemmapType) :
    (pmmReserveMemmapType response type p).totalPages = p.totalPages := by
  induction response generalizing p with
  | nil => rfl
  | cons e response ih =>
      rw [pmmReserveMemmapType, List.foldl_cons]
      by_cases htype : e.type ≠ type
      · rw [if_pos htype]
        exact ih
      · rw [if_neg htype]
        exact ih.trans (usedLoop_totalPages _ _)

theorem reserveKernel_totalPages (executable : Option (Nat × Nat)) :
    (pmmReserveKernel executable p).totalPages = p.totalPages := by
  cases executable with
  | none => rfl
  | some image => exact usedLoop_totalPages _ _

/-- The pages clear after all passes: those of the first, but for page 0,
the kernel image and the reserved entries. -/
theorem pmmInit_clear {old : Pmm} (hexec : GoodImage executable)
    (hfits : bootPages response ≤ pmmBitmapMaxBits)
    (hinit : pmmInit old response executable = (true, p)) (page : Nat) :
    p.totalPages = bootPages response
      ∧ (bitmapTest p.bitmap page = false
        ↔ (page ≠ 0 ∧ page < bootPages response ∧ ∃ e ∈ response, e.type = .usable
            ∧ RegionPage e.base e.length page)
          ∧ ¬ KernelPage executable page
          ∧ ∀ e ∈ response, e.type = .bootloaderReclaimable ∨ e.type = .executableAndModules
            ∨ e.type = .framebuffer → ¬ RegionPage e.base e.length page) := by
  rw [pmmInit_eq old executable hfits] at hinit
  injection hinit with _ hp
  have h₀ := bitmapInit_inv old.bitmap.bytes hfits
  have h₁ : PmmInv (usableMarked old response) := h₀.markUsable response
  have h₂ : PmmInv (pmmReserveRegion 0 pmmPageSize (usableMarked old response)) :=
    h₁.usedLoop _ _
  have h₃ := h₂.reserveKernel executable
  have h₄ := h₃.reserveMemmapType response .bootloaderReclaimable
  have h₅ := h₄.reserveMemmapType response .executableAndModules
  obtain ⟨htotal, husable⟩ := h₀.markUsable_clear response page
  have husable' : bitmapTest (usableMarked old response).bitmap page = false
      ↔ page ≠ 0 ∧ page < bootPages response ∧ ∃ e ∈ response, e.type = .usable
        ∧ RegionPage e.base e.length page := by
    refine husable.trans (or_iff_right ?_)
    rw [bitmapTest_init]
    exact Bool.noConfusion
  subst hp
  refine ⟨?_, ?_⟩
  · show (pmmReserveMemmapType _ _ _).totalPages = _
    rw [reserveMemmapType_totalPages, reserveMemmapType_totalPages, reserveMemmapType_totalPages,
      reserveKernel_totalPages]
    exact (usedLoop_totalPages _ _).trans htotal
  · show bitmapTest (pmmReserveMemmapType _ _ _).bitmap page = false ↔ _
    rw [h₅.reserveMemmapType_clear, h₄.reserveMemmapType_clear, h₃.reserveMemmapType_clear,
      h₂.reserveKernel_clear hexec, h₁.reserveRegion_clear, husable']
    have hzero : page ≠ 0 → ¬ RegionPage 0 pmmPageSize page := by
      intro hne hregion
      have hhi : page < 0 / 4096 + 1 := hregion.2
      omega
    constructor
    · intro hall
      obtain ⟨⟨⟨⟨⟨hu, -⟩, hk⟩, hb⟩, he⟩, hf⟩ := hall
      refine ⟨hu, hk, ?_⟩
      intro e hmem htype
      rcases htype with ht | ht | ht
      · exact hb e hmem ht
      · exact he e hmem ht
      · exact hf e hmem ht
    · intro hall
      obtain ⟨hu, hk, hr⟩ := hall
      exact ⟨⟨⟨⟨⟨hu, hzero hu.1⟩, hk⟩, fun e hmem ht => hr e hmem (.inl ht)⟩,
        fun e hmem ht => hr e hmem (.inr (.inl ht))⟩, fun e hmem ht => hr e hmem (.inr (.inr ht))⟩

/-- The pages counted cover the usable entries, and no more. -/
theorem GoodMap.bootPages_spec (h : GoodMap response) :
    (∀ e ∈ response, e.type = .usable → e.base + e.length ≤ bootPages response * pmmPageSize)
      ∧ (bootPages response = 0 ∨ ∃ e ∈ response, e.type = .usable
        ∧ bootPages response * pmmPageSize = e.base + e.length) := by
  obtain ⟨hall, hreach⟩ := pmmHighestAddress_spec h.bounded
  have hpages : pmmHighestAddress response = bootPages response * 4096 := by
    show _ = (pmmHighestAddress response + 4095) % 2 ^ 64 / 4096 * 4096
    rcases hreach with hzero | ⟨e, he, ht, heq⟩
    · rw [hzero]
      rfl
    · obtain ⟨hbase, hlen⟩ := h.aligned e he ht
      have hbase' : 4096 ∣ e.base := hbase
      have hlen' : 4096 ∣ e.length := hlen
      have hlt := h.bounded e he
      rw [heq]
      omega
  rw [hpages] at hall hreach
  refine ⟨hall, ?_⟩
  rcases hreach with hzero | hreach
  · exact .inl (by omega)
  · exact .inr hreach

/-- After `pmm_init` on a map the boot protocol allows, a page is free
just when it is inside a usable entry, not page 0 and not the kernel's.
A map with too many pages leaves nothing to allocate. -/
theorem pmm_boot_free_set (old : Pmm) (response : List MemmapEntry)
    (executable : Option (Nat × Nat)) (hmap : GoodMap response)
    (hexec : GoodImage executable) :
    ((∀ e ∈ response, e.type = .usable → e.base + e.length ≤ 2 ^ 32) →
      ∃ p, pmmInit old response executable = (true, p)
        ∧ (∀ page, bitmapTest p.bitmap page = false ↔ BootFree response executable page)
        ∧ (∃ free : Finset Nat, (∀ page, page ∈ free ↔ BootFree response executable page)
          ∧ p.freePages = free.card)
        ∧ (∀ e ∈ response, e.type = .usable → e.base + e.length ≤ p.totalPages * pmmPageSize)
        ∧ (p.totalPages = 0 ∨ ∃ e ∈ response, e.type = .usable
          ∧ p.totalPages * pmmPageSize = e.base + e.length))
      ∧ ((∃ e ∈ response, e.type = .usable
          ∧ pmmBitmapMaxBits * pmmPageSize < e.base + e.length) →
        (pmmAllocPage (pmmInit old response executable).2).1 = null) := by
  obtain ⟨hcover, hreach⟩ := hmap.bootPages_spec
  refine ⟨?_, ?_⟩
  · intro hlow
    have hfits : bootPages response ≤ pmmBitmapMaxBits := by
      show bootPages response ≤ 1048576
      rcases hreach with hzero | ⟨e, he, ht, heq⟩
      · omega
      · have hle := hlow e he ht
        have heq' : bootPages response * 4096 = e.base + e.length := heq
        omega
    obtain ⟨p, hinit⟩ : ∃ p, pmmInit old response executable = (true, p) :=
      ⟨_, pmmInit_eq old executable hfits⟩
    have hclear : ∀ page, bitmapTest p.bitmap page = false
        ↔ BootFree response executable page := by
      intro page
      rw [(pmmInit_clear hexec hfits hinit page).2]
      constructor
      · intro hall
        obtain ⟨⟨hzero, -, e, he, ht, hregion⟩, hkernel, -⟩ := hall
        exact ⟨hzero, ⟨e, he, ht, (hmap.usable_page he ht).mp hregion⟩, hkernel⟩
      · intro hfree
        obtain ⟨hzero, ⟨e, he, ht, hpage⟩, hkernel⟩ := hfree
        refine ⟨⟨hzero, ?_, e, he, ht, (hmap.usable_page he ht).mpr hpage⟩, hkernel, ?_⟩
        · have hend : e.base + e.length ≤ bootPages response * 4096 := hcover e he ht
          have hin : page * 4096 + 4096 ≤ e.base + e.length := hpage.2
          omega
        · intro f hf hother
          refine hmap.reserved_page he hf ht ?_ hpage
          intro husable
          rw [husable] at hother
          rcases hother with h | h | h <;> cases h
    have htotal := (pmmInit_clear hexec hfits hinit 0).1
    refine ⟨p, hinit, hclear, ⟨pmmClearPages p, ?_, (pmmInit_inv hinit).free_eq⟩, ?_, ?_⟩
    · intro page
      rw [mem_pmmClearPages, ← hclear]
      exact and_iff_right_of_imp (pmmInit_inv hinit).lt_total
    · rw [htotal]
      exact hcover
    · rw [htotal]
      exact hreach
  · intro hlarge
    obtain ⟨e, he, ht, hlt⟩ := hlarge
    have hend := Nat.lt_of_lt_of_le hlt (hcover e he ht)
    have hmany : pmmBitmapMaxBits < bootPages response := Nat.lt_of_mul_lt_mul_right hend
    have hreject : (pmmInit old response executable).2.freePages = 0 := by
      rw [pmmInit, if_pos (.inr hmany)]
    rw [pmmAllocPage, if_pos hreject]

/-- Three usable pages after a reserved entry that is not aligned, with the
kernel in the second of them. -/
theorem pmm_boot_free_set_small :
    let response : List MemmapEntry :=
      [⟨0x2800, 0x7FF, .bootloaderReclaimable⟩, ⟨0x3000, 0x3000, .usable⟩]
    ∃ p, pmmInit ⟨⟨fun _ => 0#8, 0⟩, 0, 0, 0, 0⟩ response (some (0x4000, 0x1000)) = (true, p)
      ∧ bitmapTest p.bitmap 3 = false ∧ p.freePages = 2 := by
  intro response
  have hmap : GoodMap response := by
    refine ⟨?_, ?_, ?_⟩
    · intro e he ht
      simp only [response, List.mem_cons, List.not_mem_nil, or_false] at he
      rcases he with rfl | rfl
      · cases ht
      · exact ⟨by decide, by decide⟩
    · refine List.pairwise_pair.mpr fun _ x hx => ?_
      obtain ⟨⟨-, hlt⟩, hge, -⟩ := hx
      have hlt' : x < 0x2800 + 0x7FF := hlt
      have hge' : 0x3000 ≤ x := hge
      omega
    · intro e he
      simp only [response, List.mem_cons, List.not_mem_nil, or_false] at he
      rcases he with rfl | rfl
      · decide
      · decide
  have hexec : GoodImage (some (0x4000, 0x1000)) := by
    intro base size heq
    injection heq with heq
    injection heq with hb hs
    subst hb hs
    decide
  obtain ⟨p, hinit, hclear, -⟩ :=
    (pmm_boot_free_set ⟨⟨fun _ => 0#8, 0⟩, 0, 0, 0, 0⟩ response _ hmap hexec).1 (by
      intro e he ht
      simp only [response, List.mem_cons, List.not_mem_nil, or_false] at he
      rcases he with rfl | rfl
      · cases ht
      · decide)
  refine ⟨p, hinit, (hclear 3).mpr ⟨by decide, ⟨_, List.mem_cons_of_mem _ List.mem_cons_self, rfl,
    by decide, by decide⟩, ?_⟩, ?_⟩
  · intro hkernel
    obtain ⟨base, size, heq, hlo, -⟩ := hkernel
    injection heq with heq
    injection heq with hb _
    subst hb
    exact absurd hlo (by decide)
  · have hfree : (pmmInit ⟨⟨fun _ => 0#8, 0⟩, 0, 0, 0, 0⟩ response
        (some (0x4000, 0x1000))).2.freePages = 2 := by decide
    rw [hinit] at hfree
    exact hfree

end ZenithOS.Mm
