/-
Drawing as painting layers.

`Draws` says of a drawing procedure which layer it paints over the pixels
of the screen, and that it changes no other byte of the memory. It is
proved once for a pixel and once for each way of putting drawing
procedures together; the rectangle of `fill_rect` follows from its loops.
-/
import ZenithOS.Lib.Painting
import ZenithOS.Graphics.Proofs.FillRect

namespace ZenithOS.Graphics

open Lib

variable {f : Framebuffer} {m : Mem} {color : BitVec 32} {draw draw' : Mem → Mem}

/-- A place on the screen. -/
structure Pixel (f : Framebuffer) where
  x : Nat
  y : Nat
  x_lt : x < f.width
  y_lt : y < f.height

/-- What is seen there. -/
def look (f : Framebuffer) (m : Mem) (p : Pixel f) : BitVec 32 := pixel f m p.x p.y

/-- The byte is part of no pixel. -/
def OffScreen (f : Framebuffer) (a : Nat) : Prop :=
  ∀ x < f.width, ∀ y < f.height, a < pixelAddress f x y ∨ pixelAddress f x y + 4 ≤ a

/-- Colours at places of the screen. -/
abbrev Picture (f : Framebuffer) := Layer (Pixel f) (BitVec 32)

/-- The layer is painted, and nothing but pixels is changed. -/
structure Draws (f : Framebuffer) (l : Picture f) (draw : Mem → Mem) : Prop where
  paints : Paints (look f) l draw
  inside : ∀ m a, OffScreen f a → draw m a = m a

variable {l l' : Picture f}

theorem Draws.nothing : Draws f Layer.clear fun m => m := ⟨Paints.nothing, fun _ _ _ => rfl⟩

/-- What is drawn later lies on top. -/
theorem Draws.comp (h : Draws f l draw) (h' : Draws f l' draw') :
    Draws f (l'.onto l) fun m => draw' (draw m) := by
  refine ⟨h.paints.comp h'.paints, fun m a ha => ?_⟩
  rw [h'.inside _ a ha, h.inside m a ha]

/-- A choice draws what it chooses. -/
theorem Draws.ite {p : Prop} [Decidable p] (h : Draws f l draw) (h' : Draws f l' draw') :
    Draws f (if p then l else l') fun m => if p then draw m else draw' m := by
  refine ⟨h.paints.ite h'.paints, fun m a ha => ?_⟩
  by_cases hp : p
  · rw [if_pos hp, h.inside m a ha]
  · rw [if_neg hp, h'.inside m a ha]

/-- The same picture. -/
theorem Draws.congr (h : Draws f l draw) (hl : ∀ p, l p = l' p) : Draws f l' draw :=
  (funext hl : l = l') ▸ h

section Loops

variable {layers : Nat → Picture f} {body : Nat → Mem → Mem} {a n : Nat}

/-- A loop of drawings stays on the screen. -/
theorem forUp_inside (h : ∀ i, a ≤ i → i < a + n → Draws f (layers i) (body i)) {byte : Nat}
    (hbyte : OffScreen f byte) : forUp body a n m byte = m byte := by
  apply forUp_preserves (P := fun t : Mem => t byte = m byte) rfl
  intro i t hlo hhi ht
  rw [(h i hlo hhi).inside t byte hbyte, ht]

/-- A loop draws its layers over one another. -/
theorem Draws.loop (h : ∀ i, a ≤ i → i < a + n → Draws f (layers i) (body i)) :
    Draws f (.stack ((List.range' a n).reverse.map layers)) (forUp body a n) :=
  ⟨.loop fun i hlo hhi => (h i hlo hhi).paints, fun _ _ hbyte => forUp_inside h hbyte⟩

/-- A loop whose rounds draw in places of their own. -/
theorem Draws.loop_at (place : Pixel f → Nat)
    (h : ∀ i, a ≤ i → i < a + n → Draws f (layers i) (body i))
    (hone : ∀ i p, place p ≠ i → layers i p = none) :
    Draws f (fun p => if a ≤ place p ∧ place p < a + n then layers (place p) p else none)
      (forUp body a n) :=
  ⟨.loop_at (fun i hlo hhi => (h i hlo hhi).paints) hone,
    fun _ _ hbyte => forUp_inside h hbyte⟩

end Loops

-- ============================================================== rectangles

/-- One pixel. -/
theorem draws_drawPixel (x y : Nat) (color : BitVec 32) :
    Draws f (fun p => if p.x = x ∧ p.y = y then some color else none)
      (drawPixel f x y color) := by
  refine ⟨fun m p => ?_, fun m a ha => ?_⟩
  · rw [drawPixel_eq]
    have hseen : ∀ m : Mem, screen f m p.y p.x = some (look f m p) :=
      fun m => if_pos ⟨p.x_lt, p.y_lt⟩
    apply Option.some.inj
    rw [← hseen]
    by_cases hat : p.x = x ∧ p.y = y
    · rw [if_pos hat, ← hat.1, ← hat.2, screen_putpixel_self p.x_lt p.y_lt]
      rfl
    · rw [if_neg hat, screen_putpixel_of_ne (by omega), hseen]
      rfl
  · rw [drawPixel_eq, putpixel_outside ha]

/-- The rectangle of the counters of the loops. -/
theorem draws_counters (x y width height : Nat) (color : BitVec 32) :
    Draws f (fun p => if (x ≤ p.x ∧ p.x < x + (wordAdd x width - x))
        ∧ y ≤ p.y ∧ p.y < y + (wordAdd y height - y) then some color else none)
      (fillRect f x y width height color) := by
  have hrow : ∀ py, Draws f (fun p => if (x ≤ p.x ∧ p.x < x + (wordAdd x width - x)) ∧ p.y = py
      then some color else none)
      (forUp (fun px m => drawPixel f px py color m) x (wordAdd x width - x)) := by
    intro py
    refine (Draws.loop_at Pixel.x (fun px _ _ => draws_drawPixel px py color) ?_).congr ?_
    · intro i p hne
      exact if_neg fun h => hne h.1
    · intro p
      by_cases hin : x ≤ p.x ∧ p.x < x + (wordAdd x width - x)
      · rw [if_pos hin]
        exact if_congr ⟨fun h => ⟨hin, h.2⟩, fun h => ⟨rfl, h.2⟩⟩ rfl rfl
      · rw [if_neg hin, if_neg fun h => hin h.1]
  refine (Draws.loop_at Pixel.y (fun py _ _ => hrow py) ?_).congr ?_
  · intro i p hne
    exact if_neg fun h => hne h.2
  · intro p
    by_cases hin : y ≤ p.y ∧ p.y < y + (wordAdd y height - y)
    · rw [if_pos hin]
      exact if_congr ⟨fun h => ⟨h.1, hin⟩, fun h => ⟨h.1, rfl⟩⟩ rfl rfl
    · rw [if_neg hin, if_neg fun h => hin h.2]

/-- A rectangle, wherever it is. -/
def block (x y width height : Int) (color : BitVec 32) : Picture f :=
  fun p => if Covers x y width height p.x p.y then some color else none

/-- What is drawn of it: nothing when it begins left of the screen or
above it. -/
def rectangle (x y width height : Int) (color : BitVec 32) : Picture f :=
  if 0 ≤ x ∧ 0 ≤ y then block x y width height color else .clear

/-- `fill_rect` of `int` arguments. -/
theorem draws_fillRect {x y width height : Int} (hx : IsInt x) (hy : IsInt y)
    (hwidth : IsInt width) (hheight : IsInt height) (hwpos : 0 ≤ width) (hhpos : 0 ≤ height)
    (color : BitVec 32) :
    Draws f (rectangle x y width height color)
      (fillRect f (sizeOfInt x) (sizeOfInt y) (sizeOfInt width) (sizeOfInt height) color) := by
  refine (draws_counters _ _ _ _ color).congr fun p => ?_
  obtain ⟨hpx, hpy⟩ := size_lt p.x_lt p.y_lt
  rw [rectangle]
  by_cases hbegin : 0 ≤ x ∧ 0 ≤ y
  · rw [if_pos hbegin]
    refine if_congr ?_ rfl rfl
    rw [sizeOfInt_covers hx hwidth hwpos hpx, sizeOfInt_covers hy hheight hhpos hpy]
    unfold Covers
    omega
  · rw [if_neg hbegin]
    refine if_neg ?_
    rw [sizeOfInt_covers hx hwidth hwpos hpx, sizeOfInt_covers hy hheight hhpos hpy]
    omega

end ZenithOS.Graphics
