/-
What `fill_rect` makes of a rectangle that is partly off the screen.

A rectangle is clipped at the right and at the bottom, where its pixels
are beyond the size of the screen. A negative coordinate is a huge
`size_t`: either the end of its loop wraps around and the loop is not
entered, or its pixels are all far off the screen (`sizeOfInt_covers`).
So what is right of the left edge or below the top edge is lost as well.
-/
import ZenithOS.Graphics.Draw

namespace ZenithOS.Graphics

open Lib

variable {f : Framebuffer} {m : Mem} {color : BitVec 32}

-- ========================================================= the promise

/-- The pixel (`px`, `py`) is one of the rectangle. -/
def Covers (x y width height : Int) (px py : Nat) : Prop :=
  (x ≤ px ∧ px < x + width) ∧ y ≤ py ∧ py < y + height

instance (x y width height : Int) (px py : Nat) : Decidable (Covers x y width height px py) :=
  inferInstanceAs (Decidable (_ ∧ _))

/-- From `m` to `m'` the pixels of the rectangle that are on the screen
have got the color, and nothing else has changed. -/
structure Fills (f : Framebuffer) (x y width height : Int) (color : BitVec 32) (m m' : Mem) :
    Prop where
  inside : ∀ px < f.width, ∀ py < f.height, Covers x y width height px py →
    pixel f m' px py = color
  outside : ∀ px < f.width, ∀ py < f.height, ¬ Covers x y width height px py →
    pixel f m' px py = pixel f m px py
  rest : ∀ a, (∀ px < f.width, ∀ py < f.height,
    a < pixelAddress f px py ∨ pixelAddress f px py + 4 ≤ a) → m' a = m a

-- ============================================================ the code

/-- The test is made twice. -/
theorem drawPixel_eq (f : Framebuffer) (x y : Nat) (color : BitVec 32) :
    drawPixel f x y color = framebufferPutpixel f x y color := by
  funext m
  unfold drawPixel framebufferPutpixel
  by_cases hout : f.width ≤ x ∨ f.height ≤ y
  · rw [if_pos hout, if_pos hout]
  · rw [if_neg hout]

/-- A screen has few enough columns and rows for its addresses. -/
theorem size_lt {px py : Nat} (hx : px < f.width) (hy : py < f.height) :
    px < 2 ^ 62 ∧ py < 2 ^ 62 := by
  have hwidth := f.width_le
  have hfits := f.fits
  have hrow : f.pitch * 1 ≤ f.pitch * f.height := Nat.mul_le_mul_left _ (by omega)
  have hcol : 1 * f.height ≤ f.pitch * f.height := Nat.mul_le_mul_right _ (by omega)
  omega

/-- The counters of a loop of `fill_rect` that are on the screen. -/
theorem sizeOfInt_covers {x width : Int} {px : Nat} (hx : IsInt x) (hwidth : IsInt width)
    (hpos : 0 ≤ width) (hpx : px < 2 ^ 62) :
    (sizeOfInt x ≤ px
        ∧ px < sizeOfInt x + (wordAdd (sizeOfInt x) (sizeOfInt width) - sizeOfInt x))
      ↔ 0 ≤ x ∧ x ≤ px ∧ px < x + width := by
  unfold IsInt at hx hwidth
  have hw : sizeOfInt width = width.toNat := by
    unfold sizeOfInt
    omega
  by_cases hneg : x < 0
  · have hx' : sizeOfInt x = (2 ^ 64 + x).toNat := by
      unfold sizeOfInt
      omega
    omega
  · have hx' : sizeOfInt x = x.toNat := by
      unfold sizeOfInt
      omega
    rw [hx', hw, wordAdd_eq (by omega)]
    omega

/-- A rectangle is drawn, clipped, if it does not begin left of the
screen or above it; else nothing is drawn. -/
theorem pixel_fillRect {x y width height : Int} (hx : IsInt x) (hy : IsInt y)
    (hwidth : IsInt width) (hheight : IsInt height) (hwpos : 0 ≤ width) (hhpos : 0 ≤ height)
    {px py : Nat} (hpx : px < f.width) (hpy : py < f.height) :
    screen f (fillRect f (sizeOfInt x) (sizeOfInt y) (sizeOfInt width) (sizeOfInt height)
        color m) py px
      = if (0 ≤ x ∧ 0 ≤ y) ∧ Covers x y width height px py then some color
        else screen f m py px := by
  obtain ⟨hpx', hpy'⟩ := size_lt hpx hpy
  unfold fillRect
  simp only [drawPixel_eq]
  rw [forUp_grid (g := screen f)
    (v := fun py px => if px < f.width ∧ py < f.height then some color else none)
    (fun py px t _ _ _ _ => by
      by_cases hon : px < f.width ∧ py < f.height
      · rw [if_pos hon, screen_putpixel_self hon.1 hon.2]
      · unfold screen
        rw [if_neg hon, if_neg hon])
    (fun py px t j i _ _ _ _ hne => screen_putpixel_of_ne hne)]
  refine if_congr ?_ (if_pos ⟨hpx, hpy⟩) rfl
  rw [sizeOfInt_covers hx hwidth hwpos hpx', sizeOfInt_covers hy hheight hhpos hpy']
  unfold Covers
  omega

/-- No byte outside the screen's pixels changes. -/
theorem fillRect_rest {x y width height a : Nat}
    (hout : ∀ px < f.width, ∀ py < f.height,
      a < pixelAddress f px py ∨ pixelAddress f px py + 4 ≤ a) :
    fillRect f x y width height color m a = m a := by
  unfold fillRect
  apply forUp_preserves (P := fun t : Mem => t a = m a) rfl
  intro py t _ _ ht
  apply forUp_preserves (P := fun t : Mem => t a = m a) ht
  intro px u _ _ hu
  rw [drawPixel_eq, putpixel_outside hout, hu]

/-- `fill_rect` clips exactly the rectangles that do not begin at a
negative coordinate, and gets the others right only where nothing of
them is to be seen. -/
theorem fill_rect_clips_iff (f : Framebuffer) (x y width height : Int) (color : BitVec 32)
    (m : Mem) (hx : IsInt x) (hy : IsInt y) (hwidth : IsInt width) (hheight : IsInt height)
    (hwpos : 0 ≤ width) (hhpos : 0 ≤ height) :
    Fills f x y width height color m
        (fillRect f (sizeOfInt x) (sizeOfInt y) (sizeOfInt width) (sizeOfInt height) color m)
      ↔ (0 ≤ x ∧ 0 ≤ y) ∨ ∀ px < f.width, ∀ py < f.height, Covers x y width height px py →
        pixel f m px py = color := by
  have hpixel : ∀ px < f.width, ∀ py < f.height,
      pixel f (fillRect f (sizeOfInt x) (sizeOfInt y) (sizeOfInt width) (sizeOfInt height)
          color m) px py
        = if (0 ≤ x ∧ 0 ≤ y) ∧ Covers x y width height px py then color
          else pixel f m px py := by
    intro px hpx py hpy
    apply pixel_of_screen hpx hpy
    rw [pixel_fillRect hx hy hwidth hheight hwpos hhpos hpx hpy]
    have hold : screen f m py px = some (pixel f m px py) := if_pos ⟨hpx, hpy⟩
    rw [hold]
    split_ifs <;> rfl
  constructor
  · intro h
    by_cases hbegin : 0 ≤ x ∧ 0 ≤ y
    · exact .inl hbegin
    · right
      intro px hpx py hpy hin
      have hcolor := h.inside px hpx py hpy hin
      rwa [hpixel px hpx py hpy, if_neg fun h => hbegin h.1] at hcolor
  · intro h
    refine ⟨fun px hpx py hpy hin => ?_, fun px hpx py hpy hin => ?_, fun a ha => ?_⟩
    · rw [hpixel px hpx py hpy]
      rcases h with hbegin | hcolor
      · rw [if_pos ⟨hbegin, hin⟩]
      · rw [hcolor px hpx py hpy hin]
        split_ifs <;> rfl
    · rw [hpixel px hpx py hpy, if_neg fun h => hin h.2]
    · exact fillRect_rest ha

/-- A screen of one pixel, black. -/
def onePixel : Framebuffer := ⟨0x1000, 1, 1, 1, by decide, by decide⟩

/-- A rectangle that begins above the screen. -/
theorem fill_rect_clips_iff_one :
    ¬ Fills onePixel 0 (-1) 2 2 7#32 (fun _ => 0)
      (fillRect onePixel (sizeOfInt 0) (sizeOfInt (-1)) (sizeOfInt 2) (sizeOfInt 2) 7#32
        fun _ => 0) := by
  rw [fill_rect_clips_iff onePixel 0 (-1) 2 2 7#32 (fun _ => 0) ⟨by decide, by decide⟩
    ⟨by decide, by decide⟩ ⟨by decide, by decide⟩ ⟨by decide, by decide⟩ (by decide) (by decide)]
  rintro (hbegin | hcolor)
  · exact absurd hbegin (by decide)
  · exact absurd (hcolor 0 (by decide) 0 (by decide) (by decide)) (by decide)

/-- A window two pixels wide, dragged to one pixel left of the screen. -/
theorem fill_rect_drops_left :
    ¬ Fills onePixel (-1) 0 2 1 7#32 (fun _ => 0)
      (fillRect onePixel (sizeOfInt (-1)) (sizeOfInt 0) (sizeOfInt 2) (sizeOfInt 1) 7#32
        fun _ => 0) := by
  intro h
  exact absurd (h.inside 0 (by decide) 0 (by decide) (by decide)) (by decide)

end ZenithOS.Graphics
