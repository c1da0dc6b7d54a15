/-
Which pages `pmm_reserve_region` reserves, against the pages its region
meets.

# The loop

The call marks `⌈length / 4096⌉` pages from `⌊base / 4096⌋` on, for
every state of the allocator (`reserveRegion_test`). A region meets the
pages from `⌊base / 4096⌋` to `⌊(base + length - 1) / 4096⌋`
(`meetsRegion_iff`), which is one more when the offsets of its two ends
in their pages add up to a page or more.

# The two gaps

So the call misses the last page of such a region, and it misses every
page when the rounding of the length wraps (`regionPageCount_wrapped`).
It reserves the region just when what it misses was used before or does
not exist (`pmm_reserve_region_covers`).
-/
import ZenithOS.Mm.Proofs.PmmAccounts

namespace ZenithOS.Mm

open Lib

variable {base length page : Nat} {p : Pmm}

-- ============================================================== the region

/-- Page `page` has a byte of `[base, base + length)`. -/
def MeetsRegion (base length page : Nat) : Prop :=
  ∃ x, base ≤ x ∧ x < base + length ∧ pmmAddressToPage x = page

/-- From `p` to `p'` the pages of the region became used, and no other
page changed. -/
def Reserves (base length : Nat) (p p' : Pmm) : Prop :=
  (∀ page < p.totalPages, MeetsRegion base length page →
      bitmapTest p'.bitmap page = true)
    ∧ ∀ page, ¬ (page < p.totalPages ∧ MeetsRegion base length page) →
      bitmapTest p'.bitmap page = bitmapTest p.bitmap page

/-- The page of the region's last byte. -/
def regionLastPage (base length : Nat) : Nat :=
  pmmAddressToPage (base + length - 1)

/-- The pages the rounding loses are used already, or do not exist: the
last one of a region whose two ends reach over a page, all of them when
the length rounds up past `2 ^ 64`. -/
def RegionKept (base length : Nat) (p : Pmm) : Prop :=
  length = 0
    ∨ (length ≤ 2 ^ 64 - 4096
      ∧ (base % 4096 + (length - 1) % 4096 < 4096
        ∨ p.totalPages ≤ regionLastPage base length
        ∨ bitmapTest p.bitmap (regionLastPage base length) = true))
    ∨ (2 ^ 64 - 4096 < length
      ∧ ∀ page < p.totalPages, page ≤ regionLastPage base length →
        bitmapTest p.bitmap page = true)

/-- The pages that a region meets, from its first to its last. -/
theorem meetsRegion_iff :
    MeetsRegion base length page
      ↔ length ≠ 0 ∧ base / 4096 ≤ page ∧ page ≤ regionLastPage base length := by
  show (∃ x, base ≤ x ∧ x < base + length ∧ x / 4096 = page)
    ↔ length ≠ 0 ∧ base / 4096 ≤ page ∧ page ≤ (base + length - 1) / 4096
  constructor
  · intro hmeets
    obtain ⟨x, hlo, hhi, rfl⟩ := hmeets
    exact ⟨by omega, Nat.div_le_div_right hlo, Nat.div_le_div_right (by omega)⟩
  · intro hin
    obtain ⟨hlen, hlo, hhi⟩ := hin
    -- the page's first byte, unless the region starts behind it
    rcases Nat.le_total base (page * 4096) with hle | hle
    · exact ⟨page * 4096, hle, by omega, by omega⟩
    · exact ⟨base, Nat.le_refl _, by omega, by omega⟩

-- ================================================================ the call

/-- The call marks the pages it counts, as far as they exist. -/
theorem reserveRegion_test (base length : Nat) (p : Pmm) (page : Nat) :
    bitmapTest (pmmReserveRegion base length p).bitmap page = true
      ↔ bitmapTest p.bitmap page = true
        ∨ RegionPage base length page ∧ page < p.totalPages := by
  rw [pmmReserveRegion, (usedLoop_test p _ _ page).2, Bool.or_eq_true, decide_eq_true_eq,
    clamp_page]
  rfl

/-- A length that rounds up past `2 ^ 64` counts no page. -/
theorem regionPageCount_wrapped (hlen : length < 2 ^ 64) (hwrap : 2 ^ 64 - 4096 < length) :
    pmmRegionPageCount length = 0 := by
  rw [pmmRegionPageCount, if_neg (by omega)]
  show (length + 4095) % 2 ^ 64 / 4096 = 0
  omega

/-- No page outside the region changes: every page counted meets it. -/
theorem reserveRegion_outside (hlen : length < 2 ^ 64)
    (hout : ¬ (page < p.totalPages ∧ MeetsRegion base length page)) :
    bitmapTest (pmmReserveRegion base length p).bitmap page = bitmapTest p.bitmap page := by
  rw [Bool.eq_iff_iff, reserveRegion_test]
  refine or_iff_left fun hcounted => hout ⟨hcounted.2, ?_⟩
  obtain ⟨x, hlo, hhi, hpage_lo, hpage_hi⟩ := hcounted.1.byte hlen
  exact ⟨x, hlo, hhi, show x / 4096 = page by omega⟩

/-- The pages of the region the call counts: all but the last one of a
region that reaches over a page. -/
theorem regionPage_iff_meets (hlen : length ≤ 2 ^ 64 - 4096) :
    RegionPage base length page
      ↔ MeetsRegion base length page
        ∧ (base % 4096 + (length - 1) % 4096 < 4096 ∨ page ≠ regionLastPage base length) := by
  rw [meetsRegion_iff, RegionPage, pmmRegionPageCount_eq (by omega)]
  show base / 4096 ≤ page ∧ page < base / 4096 + (length + 4095) / 4096
    ↔ (length ≠ 0 ∧ base / 4096 ≤ page ∧ page ≤ (base + length - 1) / 4096)
      ∧ (_ ∨ page ≠ (base + length - 1) / 4096)
  rcases Nat.eq_zero_or_pos length with rfl | hpos
  · omega
  · omega

/-- `pmm_reserve_region` reserves a region just when the pages its
rounding loses need no reserving. -/
theorem pmm_reserve_region_covers (base length : Nat) (p : Pmm)
    (hend : base + length ≤ 2 ^ 64) (hlen : length < 2 ^ 64) :
    Reserves base length p (pmmReserveRegion base length p) ↔ RegionKept base length p := by
  have houtside : ∀ page, ¬ (page < p.totalPages ∧ MeetsRegion base length page) →
      bitmapTest (pmmReserveRegion base length p).bitmap page = bitmapTest p.bitmap page :=
    fun page hout => reserveRegion_outside hlen hout
  rw [Reserves, and_iff_left houtside]
  rcases Nat.eq_zero_or_pos length with hzero | hpos
  · refine iff_of_true (fun page _ hmeets => ?_) (.inl hzero)
    exact absurd hzero (meetsRegion_iff.mp hmeets).1
  have hfirst : base / 4096 ≤ regionLastPage base length :=
    Nat.div_le_div_right (by omega)
  rcases Nat.lt_or_ge (2 ^ 64 - 4096) length with hwrap | hfits
  · -- nothing is counted, and the region starts in page 0
    have hnone : ∀ page, ¬ RegionPage base length page := by
      intro page hregion
      have hhi : page < base / 4096 + pmmRegionPageCount length := hregion.2
      have hlo : base / 4096 ≤ page := hregion.1
      rw [regionPageCount_wrapped hlen hwrap] at hhi
      omega
    have hkept : RegionKept base length p ↔ ∀ page < p.totalPages,
        page ≤ regionLastPage base length → bitmapTest p.bitmap page = true := by
      rw [RegionKept, or_iff_right (by omega), or_iff_right (by omega), and_iff_right hwrap]
    rw [hkept]
    refine forall_congr' fun page => imp_congr_right fun hlt => ?_
    rw [meetsRegion_iff, reserveRegion_test, or_iff_left fun h => hnone page h.1]
    have hlo : base / 4096 ≤ page := by omega
    simp only [ne_eq, Nat.ne_of_gt hpos, not_false_eq_true, hlo, true_and]
  · have hkept : RegionKept base length p ↔ base % 4096 + (length - 1) % 4096 < 4096
        ∨ p.totalPages ≤ regionLastPage base length
        ∨ bitmapTest p.bitmap (regionLastPage base length) = true := by
      rw [RegionKept, or_iff_right (by omega), or_iff_left (by omega), and_iff_right hfits]
    rw [hkept]
    constructor
    · intro hcovers
      by_contra hlost
      obtain ⟨hover, hexists, hclear⟩ : ¬ _ ∧ ¬ _ ∧ ¬ _ := by
        simpa only [not_or] using hlost
      have hmeets : MeetsRegion base length (regionLastPage base length) :=
        meetsRegion_iff.mpr ⟨by omega, hfirst, Nat.le_refl _⟩
      have hmarked := hcovers _ (Nat.lt_of_not_le hexists) hmeets
      rw [reserveRegion_test, regionPage_iff_meets hfits] at hmarked
      rcases hmarked with hused | ⟨⟨-, hend' | hne⟩, -⟩
      · exact hclear hused
      · exact hover hend'
      · exact hne rfl
    · intro hkept' page hlt hmeets
      rw [reserveRegion_test, regionPage_iff_meets hfits]
      by_cases hlast : page = regionLastPage base length
      · rcases hkept' with hend' | hnone | hused
        · exact .inr ⟨⟨hmeets, .inl hend'⟩, hlt⟩
        · omega
        · exact .inl (hlast ▸ hused)
      · exact .inr ⟨⟨hmeets, .inr hlast⟩, hlt⟩

/-- Four pages of usable memory, page 0 taken. -/
def reserveBoot : Pmm :=
  (pmmInit ⟨⟨fun _ => 0#8, 0⟩, 0, 0, 0, 0⟩ [⟨0, 0x4000, .usable⟩] none).2

/-- Reserving a page from the middle of page 1 to the middle of page 2
leaves page 2 free. -/
theorem reserve_region_loses_last_page :
    ¬ Reserves 0x1800 0x1000 reserveBoot (pmmReserveRegion 0x1800 0x1000 reserveBoot) := by
  intro hreserves
  have hmarked := hreserves.1 2 (by decide) ⟨0x2000, by decide, by decide, by decide⟩
  exact absurd hmarked (by decide +kernel)

/-- Half a page that ends with its page is reserved. -/
theorem pmm_reserve_region_covers_half :
    Reserves 0x1800 0x800 reserveBoot (pmmReserveRegion 0x1800 0x800 reserveBoot) :=
  (pmm_reserve_region_covers 0x1800 0x800 reserveBoot (by decide) (by decide)).mpr
    (.inr (.inl ⟨by decide, .inl (by decide)⟩))

end ZenithOS.Mm
