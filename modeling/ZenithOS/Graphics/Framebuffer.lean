/-
The framebuffer: `framebuffer/framebuffer.c`.

A pixel is a 32-bit word. `fb_pitch` counts pixels, as `framebuffer_init`
stores it. A row is at least as long as the screen is wide, and the
buffer lies inside the address space, so the addresses of its pixels are
plain sums.
-/
import ZenithOS.Klib.Memory
import ZenithOS.Lib.Dword

namespace ZenithOS.Graphics

open Lib Klib

/-- `fb`, `fb_width`, `fb_height` and `fb_pitch`. -/
structure Framebuffer where
  fb : Nat
  width : Nat
  height : Nat
  pitch : Nat
  width_le : width ≤ pitch
  fits : fb + 4 * (pitch * height) ≤ 2 ^ 64

variable (f : Framebuffer)

/-- `&fb[y * fb_pitch + x]`. -/
def pixelAddress (x y : Nat) : Nat := f.fb + 4 * (y * f.pitch + x)

/-- `framebuffer_putpixel`. -/
def framebufferPutpixel (x y : Nat) (color : BitVec 32) (m : Mem) : Mem :=
  if f.width ≤ x ∨ f.height ≤ y then m else storeDword m (pixelAddress f x y) color

/-- `framebuffer_clear`. -/
def framebufferClear (color : BitVec 32) (m : Mem) : Mem :=
  forUp (fun y => forUp (fun x m => framebufferPutpixel f x y color m) 0 f.width) 0 f.height m

/-- `framebuffer_scroll`. -/
def framebufferScroll (pixels : Nat) (clearColor : BitVec 32) (m : Mem) : Mem :=
  if f.height ≤ pixels then framebufferClear f clearColor m
  else
    let rowSize := f.pitch * 4
    let m := kMemmove m f.fb (f.fb + 4 * (pixels * f.pitch)) ((f.height - pixels) * rowSize)
    let bottom := f.fb + 4 * ((f.height - pixels) * f.pitch)
    forUp (fun y => forUp (fun x m => storeDword m (bottom + 4 * (y * f.pitch + x)) clearColor)
      0 f.width) 0 pixels m

variable {f} {x y x' y' : Nat} {m : Mem} {color : BitVec 32}

-- ============================================================= pixels

/-- The pixel at (`x`, `y`). -/
def pixel (f : Framebuffer) (m : Mem) (x y : Nat) : BitVec 32 :=
  loadDword m (pixelAddress f x y)

/-- The pixel at (`x`, `y`) of the screen. -/
def screen (f : Framebuffer) (m : Mem) (y x : Nat) : Option (BitVec 32) :=
  if x < f.width ∧ y < f.height then some (pixel f m x y) else none

/-- Pixels of the screen do not overlap. -/
theorem pixelAddress_apart (hx : x < f.width) (hx' : x' < f.width) (hne : y' ≠ y ∨ x' ≠ x) :
    pixelAddress f x' y' + 4 ≤ pixelAddress f x y
      ∨ pixelAddress f x y + 4 ≤ pixelAddress f x' y' := by
  have hle := f.width_le
  unfold pixelAddress
  rcases Nat.lt_trichotomy y y' with hlt | rfl | hlt
  · have hrow : (y + 1) * f.pitch ≤ y' * f.pitch := Nat.mul_le_mul_right _ hlt
    rw [Nat.succ_mul] at hrow
    omega
  · omega
  · have hrow : (y' + 1) * f.pitch ≤ y * f.pitch := Nat.mul_le_mul_right _ hlt
    rw [Nat.succ_mul] at hrow
    omega

/-- A pixel that is put is seen. -/
theorem screen_putpixel_self (hx : x < f.width) (hy : y < f.height) :
    screen f (framebufferPutpixel f x y color m) y x = some color := by
  unfold screen framebufferPutpixel pixel
  rw [if_pos ⟨hx, hy⟩, if_neg (by omega), loadDword_storeDword]

/-- No other pixel changes. -/
theorem screen_putpixel_of_ne (hne : y' ≠ y ∨ x' ≠ x) :
    screen f (framebufferPutpixel f x y color m) y' x' = screen f m y' x' := by
  unfold screen framebufferPutpixel pixel
  by_cases hout : f.width ≤ x ∨ f.height ≤ y
  · rw [if_pos hout]
  · rw [if_neg hout]
    by_cases hon : x' < f.width ∧ y' < f.height
    · rw [if_pos hon, if_pos hon,
        loadDword_storeDword_of_disjoint (pixelAddress_apart (by omega) hon.1 hne)]
    · rw [if_neg hon, if_neg hon]

/-- A pixel that is drawn is a pixel of the screen. -/
theorem putpixel_outside {a : Nat}
    (hout : ∀ x < f.width, ∀ y < f.height, a < pixelAddress f x y ∨ pixelAddress f x y + 4 ≤ a) :
    framebufferPutpixel f x y color m a = m a := by
  unfold framebufferPutpixel
  by_cases hoff : f.width ≤ x ∨ f.height ≤ y
  · rw [if_pos hoff]
  · rw [if_neg hoff, storeDword_outside (hout x (by omega) y (by omega))]

theorem pixel_of_screen {v : BitVec 32} (hx : x < f.width) (hy : y < f.height)
    (h : screen f m y x = some v) : pixel f m x y = v := by
  unfold screen at h
  rw [if_pos ⟨hx, hy⟩] at h
  exact Option.some.inj h

end ZenithOS.Graphics
