/-
What a character looks like.

`drawCharScaled` draws a rectangle for each bit that is set, so a place
shows the bit of the row and column of the glyph that it is in
(`draws_drawCharScaled`). Rectangles do not overlap, and one that begins
left of the screen or above it is not drawn.
-/
import ZenithOS.Font.Font
import ZenithOS.Graphics.Proofs.Layers

namespace ZenithOS.Font

open Lib Klib Graphics

variable {f : Framebuffer} {color : BitVec 32} {x y : Int} {scale : Nat} {c : Byte}

/-- Coordinates on the screen are not negative as `int`s. -/
def Visible (f : Framebuffer) : Prop := f.width ≤ 2 ^ 31 ∧ f.height ≤ 2 ^ 31

instance (f : Framebuffer) : Decidable (Visible f) := inferInstanceAs (Decidable (_ ∧ _))

/-- A quotient, by its bounds. -/
theorem ediv_eq_iff {a b s : Int} (hs : 0 < s) : a / s = b ↔ b * s ≤ a ∧ a < b * s + s := by
  constructor
  · rintro rfl
    refine ⟨Int.ediv_mul_le a (Int.ne_of_gt hs), ?_⟩
    have hlt := Int.lt_ediv_add_one_mul_self a hs
    rwa [Int.add_mul, Int.one_mul] at hlt
  · rintro ⟨hle, hlt⟩
    apply Int.le_antisymm
    · apply Int.lt_add_one_iff.mp
      apply (Int.ediv_lt_iff_lt_mul hs).mpr
      rwa [Int.add_mul, Int.one_mul]
    · exact (Int.le_ediv_iff_mul_le hs).mpr hle

/-- A coordinate that is an unsigned sum of an `int` and a number. -/
theorem unsigned_covers {v : Int} {size p : Nat} (hlo : -2 ^ 31 ≤ v) (hhi : v + size ≤ 2 ^ 31)
    (hp : p < 2 ^ 31) :
    (unsignedOfInt v ≤ p ∧ p < unsignedOfInt v + (wordAdd (unsignedOfInt v) size - unsignedOfInt v))
      ↔ 0 ≤ v ∧ v ≤ p ∧ p < v + size := by
  unfold unsignedOfInt
  by_cases hneg : v < 0
  · have hv : v % 2 ^ 32 = v + 2 ^ 32 := by omega
    rw [hv]
    omega
  · have hv : v % 2 ^ 32 = v := by omega
    rw [hv, wordAdd_eq (by omega)]
    omega

/-- `draw_rect` of such coordinates. -/
theorem draws_drawRect (hvis : Visible f) (hx : -2 ^ 31 ≤ x) (hx' : x + scale ≤ 2 ^ 31)
    (hy : -2 ^ 31 ≤ y) (hy' : y + scale ≤ 2 ^ 31) (color : BitVec 32) :
    Draws f (rectangle x y scale scale color)
      (drawRect f (unsignedOfInt x) (unsignedOfInt y) scale scale color) := by
  refine (draws_counters _ _ _ _ color).congr fun p => ?_
  have hpx := unsigned_covers hx hx' (p := p.x) (Nat.lt_of_lt_of_le p.x_lt hvis.1)
  have hpy := unsigned_covers hy hy' (p := p.y) (Nat.lt_of_lt_of_le p.y_lt hvis.2)
  rw [rectangle]
  by_cases hbegin : 0 ≤ x ∧ 0 ≤ y
  · rw [if_pos hbegin]
    refine if_congr ?_ rfl rfl
    rw [hpx, hpy]
    unfold Covers
    omega
  · rw [if_neg hbegin]
    refine if_neg ?_
    rw [hpx, hpy]
    exact fun h => hbegin ⟨h.1.1, h.2.1⟩

/-- The square of a bit is where the quotients say. -/
theorem square_apply {row col : Nat} (hscale : 0 < scale) (p : Pixel f) :
    rectangle (x + col * scale) (y + row * scale) scale scale color p
      = if (0 ≤ x + col * scale ∧ 0 ≤ y + row * scale)
          ∧ (p.x - x) / scale = col ∧ (p.y - y) / scale = row then some color else none := by
  have hs : (0 : Int) < scale := by omega
  rw [rectangle]
  by_cases hbegin : 0 ≤ x + col * scale ∧ 0 ≤ y + row * scale
  · rw [if_pos hbegin]
    refine if_congr ?_ rfl rfl
    rw [ediv_eq_iff hs, ediv_eq_iff hs]
    unfold Covers
    omega
  · rw [if_neg hbegin, if_neg fun h => hbegin h.1]
    rfl

/-- A place is in the column `col` and the row `row` of a glyph, and this
bit is drawn. -/
def Lit (x y : Int) (c : Byte) (scale : Nat) (col row : Int) : Prop :=
  (0 ≤ col ∧ col < 8) ∧ (0 ≤ row ∧ row < 8)
    ∧ (0 ≤ x + col * scale ∧ 0 ≤ y + row * scale)
    ∧ c.toNat < 128 ∧ (fontBits c row.toNat).getLsbD col.toNat = true

instance (x y : Int) (c : Byte) (scale : Nat) (col row : Int) :
    Decidable (Lit x y c scale col row) :=
  inferInstanceAs (Decidable (_ ∧ _))

/-- The picture of a character. -/
def glyph (x y : Int) (c : Byte) (color : BitVec 32) (scale : Nat) : Picture f :=
  fun p => if Lit x y c scale ((p.x - x) / scale) ((p.y - y) / scale) then some color else none

/-- One row of the bits. -/
theorem draws_glyphRow (hvis : Visible f) (hscale : 0 < scale) (hx : -2 ^ 31 ≤ x)
    (hx' : x + 8 * scale ≤ 2 ^ 31) (hy : -2 ^ 31 ≤ y) (hy' : y + 8 * scale ≤ 2 ^ 31)
    (hc : c.toNat < 128) {row : Nat} (hrow : row < 8) :
    Draws f (fun p => if (p.y - y) / scale = row
          ∧ Lit x y c scale ((p.x - x) / scale) row then some color else none)
      (forUp (fun col m =>
        if (fontBits c row).getLsbD col then
          drawRect f (unsignedOfInt (x + col * scale)) (unsignedOfInt (y + row * scale))
            scale scale color m
        else m) 0 8) := by
  have hbound : ∀ {i : Nat}, i < 8 → (i : Int) * scale + scale ≤ 8 * scale := by
    intro i hi
    have hmul := Int.mul_le_mul_of_nonneg_right (show (i : Int) + 1 ≤ 8 by omega)
      (Int.natCast_nonneg scale)
    rwa [Int.add_mul, Int.one_mul] at hmul
  have hpos : ∀ i : Nat, (0 : Int) ≤ i * scale := fun i =>
    Int.mul_nonneg (Int.natCast_nonneg i) (Int.natCast_nonneg scale)
  have hsquare : ∀ col, 0 ≤ col → col < 0 + 8 → Draws f
      (if (fontBits c row).getLsbD col then
        rectangle (x + col * scale) (y + row * scale) scale scale color else .clear)
      (fun m => if (fontBits c row).getLsbD col then
          drawRect f (unsignedOfInt (x + col * scale)) (unsignedOfInt (y + row * scale))
            scale scale color m
        else m) := by
    intro col _ hcol
    have hcb := hbound (i := col) (by omega)
    have hrb := hbound hrow
    have hc0 := hpos col
    have hr0 := hpos row
    exact (draws_drawRect hvis (by omega) (by omega) (by omega) (by omega) color).ite .nothing
  refine (Draws.loop_at (fun p => ((p.x - x) / scale).toNat) hsquare ?_).congr ?_
  · intro col p hne
    by_cases hbit : (fontBits c row).getLsbD col
    · rw [if_pos hbit, square_apply hscale, if_neg]
      rintro ⟨-, hcol, -⟩
      exact hne (by rw [hcol, Int.toNat_natCast])
    · rw [if_neg hbit]
      rfl
  · intro p
    by_cases hcol : 0 ≤ (p.x - x) / scale ∧ (p.x - x) / scale < 8
    · have hnat : (((p.x - x) / scale).toNat : Int) = (p.x - x) / scale :=
        Int.toNat_of_nonneg hcol.1
      rw [if_pos (by omega)]
      by_cases hbit : (fontBits c row).getLsbD ((p.x - x) / scale).toNat
      · rw [if_pos hbit, square_apply hscale, hnat]
        refine if_congr ⟨fun h => ⟨h.2.2, hcol, by omega, h.1, hc, hbit⟩,
          fun h => ⟨h.2.2.2.1, rfl, h.1⟩⟩ rfl rfl
      · rw [if_neg hbit, if_neg fun h => hbit h.2.2.2.2.2]
        rfl
    · rw [if_neg fun h : _ ∧ Lit x y c scale ((p.x - x) / scale) row => hcol h.2.1]
      by_cases hzero : (p.x - x) / scale < 0
      · rw [Int.toNat_of_nonpos (by omega), if_pos (by omega)]
        by_cases hbit : (fontBits c row).getLsbD 0
        · rw [if_pos hbit, square_apply hscale, if_neg]
          rintro ⟨-, hcol0, -⟩
          omega
        · rw [if_neg hbit]
          rfl
      · rw [if_neg (by omega)]

/-- `draw_char_scaled`. -/
theorem draws_drawCharScaled (hvis : Visible f) (hscale : 0 < scale) (hx : -2 ^ 31 ≤ x)
    (hx' : x + 8 * scale ≤ 2 ^ 31) (hy : -2 ^ 31 ≤ y) (hy' : y + 8 * scale ≤ 2 ^ 31)
    (c : Byte) (color : BitVec 32) :
    Draws f (glyph x y c color scale) (drawCharScaled f x y c color scale) := by
  unfold drawCharScaled
  by_cases hc : 128 ≤ c.toNat
  · simp only [if_pos hc]
    refine Draws.nothing.congr fun p => ?_
    rw [glyph, if_neg fun h => absurd h.2.2.2.1 (Nat.not_lt.mpr hc)]
    rfl
  · simp only [if_neg hc]
    refine (Draws.loop_at (fun p => ((p.y - y) / scale).toNat) (fun row _ hrow =>
      draws_glyphRow hvis hscale hx hx' hy hy' (Nat.not_le.mp hc) (by omega)) ?_).congr ?_
    · intro row p hne
      refine if_neg fun h => hne ?_
      rw [h.1, Int.toNat_natCast]
    · intro p
      rw [glyph]
      by_cases hrow : 0 ≤ (p.y - y) / scale ∧ (p.y - y) / scale < 8
      · have hnat : (((p.y - y) / scale).toNat : Int) = (p.y - y) / scale :=
          Int.toNat_of_nonneg hrow.1
        rw [if_pos (by omega), hnat]
        exact if_congr ⟨fun h => h.2, fun h => ⟨rfl, h⟩⟩ rfl rfl
      · rw [if_neg fun h : Lit x y c scale ((p.x - x) / scale) ((p.y - y) / scale) => hrow h.2.1]
        by_cases hzero : (p.y - y) / scale < 0
        · rw [Int.toNat_of_nonpos (by omega), if_pos (by omega), if_neg]
          rintro ⟨hrow0, -⟩
          omega
        · rw [if_neg (by omega)]

-- ==================================================================== text

/-- The characters of a text side by side, the later one over the
earlier. -/
def textPicture (y : Int) (color : BitVec 32) (scale spacing : Nat) :
    List Byte → Int → Picture f
  | [], _ => .clear
  | c :: text, x =>
      (textPicture y color scale spacing text (x + (8 * scale + spacing : Nat))).onto
        (glyph x y c color scale)

/-- An `int` survives the way through a `uint32_t`. -/
theorem intOfUnsigned_unsignedOfInt {v : Int} (hv : IsInt v) :
    intOfUnsigned (unsignedOfInt v) = v := by
  obtain ⟨hlo, hhi⟩ := hv
  unfold intOfUnsigned unsignedOfInt
  rw [BitVec.toInt_eq_toNat_cond, BitVec.toNat_ofNat]
  split_ifs <;> omega

/-- A text draws its glyphs side by side. -/
theorem draws_drawTextLoop (hvis : Visible f) (hscale : 0 < scale) {spacing : Nat}
    {text : List Byte} (hx : -2 ^ 31 ≤ x)
    (hx' : x + (text.length * (8 * scale + spacing) : Nat) < 2 ^ 31) (hy : -2 ^ 31 ≤ y)
    (hy' : y + 8 * scale ≤ 2 ^ 31) :
    Draws f (textPicture y color scale spacing text x)
      (drawTextLoop f y color scale spacing text x) := by
  induction text generalizing x with
  | nil => exact .nothing
  | cons c text ih =>
      rw [List.length_cons, Nat.succ_mul] at hx'
      have hnext : IsInt (x + (8 * scale + spacing : Nat)) := ⟨by omega, by omega⟩
      have hrest := ih (x := x + (8 * scale + spacing : Nat)) (by omega) (by omega)
      have hloop : drawTextLoop f y color scale spacing (c :: text) x = fun m =>
          drawTextLoop f y color scale spacing text (x + (8 * scale + spacing : Nat))
            (drawCharScaled f x y c color scale m) := by
        funext m
        rw [drawTextLoop, intOfUnsigned_unsignedOfInt hnext]
      rw [hloop]
      exact (draws_drawCharScaled hvis hscale hx (by omega) hy hy' c color).comp hrest

end ZenithOS.Font
