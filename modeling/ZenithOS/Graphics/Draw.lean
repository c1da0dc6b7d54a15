/-
Drawing: `graphics/graphics.c` and `abs_int` of `lib/math.c`.

# Integers

A coordinate of `fill_rect` is a `size_t`, and an `int` passed for one is
its value modulo 2^64 (`sizeOfInt`); sums of such coordinates wrap
around. A loop bound that has wrapped is below the start of the loop,
which then is left at once.

The `int` arithmetic of `draw_line` is checked: `none` is an overflow.

# Lines

`drawLineLoop` is the loop over what visiting a point does, so that the
points it visits can be told apart from what is drawn there. `none` also
stands for running out of `fuel`.
-/
import ZenithOS.Graphics.Framebuffer

namespace ZenithOS.Graphics

open Lib

/-- An `int` as a `size_t`. -/
def sizeOfInt (v : Int) : Nat := (v % 2 ^ 64).toNat

/-- The values of an `int`. -/
def IsInt (v : Int) : Prop := -2 ^ 31 ≤ v ∧ v < 2 ^ 31

instance (v : Int) : Decidable (IsInt v) := inferInstanceAs (Decidable (_ ∧ _))

/-- The result of an `int` operation. -/
def checked (v : Int) : Option Int :=
  if IsInt v then some v else none

/-- `abs_int`; `none` where the negation overflows. -/
def absInt (value : Int) : Option Int :=
  if value < 0 then checked (-value) else some value

variable (f : Framebuffer)

/-- `draw_pixel`. -/
def drawPixel (x y : Nat) (color : BitVec 32) (m : Mem) : Mem :=
  if f.width ≤ x ∨ f.height ≤ y then m else framebufferPutpixel f x y color m

/-- `fill_rect`. -/
def fillRect (x y width height : Nat) (color : BitVec 32) (m : Mem) : Mem :=
  forUp (fun py => forUp (fun px m => drawPixel f px py color m) x (wordAdd x width - x))
    y (wordAdd y height - y) m

-- =============================================================== lines

variable {σ : Type}

/-- `while (1)` of `draw_line`. -/
def drawLineLoop (visit : Int → Int → σ → σ) (dx dy sx sy x1 y1 : Int) :
    Nat → Int → Int → Int → σ → Option σ
  | 0, _, _, _, _ => none
  | fuel + 1, x0, y0, err, s =>
      let s := visit x0 y0 s
      if x0 = x1 ∧ y0 = y1 then some s
      else do
        let e2 ← checked (2 * err)
        let (err, x0) ←
          if dy ≤ e2 then do
            let err ← checked (err + dy)
            let x0 ← checked (x0 + sx)
            some (err, x0)
          else some (err, x0)
        let (err, y0) ←
          if e2 ≤ dx then do
            let err ← checked (err + dx)
            let y0 ← checked (y0 + sy)
            some (err, y0)
          else some (err, y0)
        drawLineLoop visit dx dy sx sy x1 y1 fuel x0 y0 err s

/-- `draw_line`, with `visit` for `draw_pixel`. -/
def drawLineWith (visit : Int → Int → σ → σ) (fuel : Nat) (x0 y0 x1 y1 : Int) (s : σ) :
    Option σ := do
  let dx ← absInt (← checked (x1 - x0))
  let sx := if x0 < x1 then 1 else -1
  let dy ← checked (-(← absInt (← checked (y1 - y0))))
  let sy := if y0 < y1 then 1 else -1
  let err ← checked (dx + dy)
  drawLineLoop visit dx dy sx sy x1 y1 fuel x0 y0 err s

/-- `draw_line`. -/
def drawLine (fuel : Nat) (x0 y0 x1 y1 : Int) (color : BitVec 32) (m : Mem) : Option Mem :=
  drawLineWith (fun x y m => drawPixel f (sizeOfInt x) (sizeOfInt y) color m) fuel x0 y0 x1 y1 m

end ZenithOS.Graphics
