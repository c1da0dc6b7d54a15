/-
Scrolling moves the picture up, and the last rows are cleared.

`k_memmove` copies the rows over themselves, `pixels` rows further up;
what it leaves is a copy of the old memory (`kMemmove_eq`), so a row
shows the one `pixels` below it. The loop behind it is one over pixels of
the screen (`bottomLoop_eq`).
-/
import ZenithOS.Graphics.Framebuffer

namespace ZenithOS.Graphics

open Lib Klib

variable {f : Framebuffer} {x y pixels : Nat} {m : Mem} {color : BitVec 32}

/-- Every pixel has the colour. -/
theorem screen_clear (hx : x < f.width) (hy : y < f.height) :
    screen f (framebufferClear f color m) y x = some color := by
  unfold framebufferClear
  rw [forUp_grid (g := screen f) (v := fun _ _ => some color)
    (fun y x t _ hy _ hx => screen_putpixel_self (by omega) (by omega))
    (fun y x t j i _ _ _ _ hne => screen_putpixel_of_ne hne), if_pos (by omega)]

/-- After the move, a row is the one `pixels` further down. -/
theorem pixel_kMemmove (hx : x < f.width) (hy : y + pixels < f.height) :
    pixel f (kMemmove m f.fb (f.fb + 4 * (pixels * f.pitch))
      ((f.height - pixels) * (f.pitch * 4))) x y = pixel f m x (y + pixels) := by
  have hle := f.width_le
  have hrows : (y + 1) * f.pitch ≤ (f.height - pixels) * f.pitch :=
    Nat.mul_le_mul_right _ (by omega)
  rw [Nat.succ_mul] at hrows
  have hsize : (f.height - pixels) * (f.pitch * 4) = 4 * ((f.height - pixels) * f.pitch) := by
    rw [← Nat.mul_assoc, Nat.mul_comm]
  unfold pixel pixelAddress
  rw [kMemmove_eq, hsize, loadDword_blit_inside (by omega) (by omega)]
  congr 1
  rw [Nat.add_mul]
  omega

/-- The second loop clears the rows from `f.height - pixels` on. -/
theorem bottomLoop_eq (hp : pixels < f.height) (m : Mem) :
    forUp (fun y => forUp (fun x m => storeDword m
        (f.fb + 4 * ((f.height - pixels) * f.pitch) + 4 * (y * f.pitch + x)) color)
        0 f.width) 0 pixels m
      = forUp (fun y => forUp (fun x m => framebufferPutpixel f x y color m) 0 f.width)
        (f.height - pixels) pixels m := by
  rw [← Nat.add_zero (f.height - pixels), forUp_add, Nat.add_zero]
  apply forUp_congr
  intro y _ hy
  funext m
  apply forUp_congr
  intro x _ hx
  funext m
  have haddr : f.fb + 4 * ((f.height - pixels) * f.pitch) + 4 * (y * f.pitch + x)
      = pixelAddress f x (f.height - pixels + y) := by
    unfold pixelAddress
    rw [Nat.add_mul]
    omega
  unfold framebufferPutpixel
  rw [if_neg (by omega), haddr]

/-- Every pixel is the one below it, or clear. -/
theorem screen_scroll (hx : x < f.width) (hy : y < f.height) :
    screen f (framebufferScroll f pixels color m) y x
      = some (if y + pixels < f.height then pixel f m x (y + pixels) else color) := by
  unfold framebufferScroll
  by_cases hp : f.height ≤ pixels
  · rw [if_pos hp, screen_clear hx hy, if_neg (by omega)]
  · rw [if_neg hp]
    dsimp only
    rw [bottomLoop_eq (by omega), forUp_grid (g := screen f) (v := fun _ _ => some color)
      (fun y x t _ hy _ hx => screen_putpixel_self (by omega) (by omega))
      (fun y x t j i _ _ _ _ hne => screen_putpixel_of_ne hne)]
    by_cases hrow : y + pixels < f.height
    · rw [if_neg (by omega), if_pos hrow]
      unfold screen
      rw [if_pos ⟨hx, hy⟩, pixel_kMemmove hx hrow]
    · rw [if_pos (by omega), if_neg hrow]

/-- `k_memmove` is a copy of what was there, and `framebuffer_scroll` on
top of it moves the picture. -/
theorem memmove_scroll :
    (∀ (m : Mem) (dest src n : Nat),
      (∀ i < n, kMemmove m dest src n (dest + i) = m (src + i))
        ∧ ∀ x, x < dest ∨ dest + n ≤ x → kMemmove m dest src n x = m x)
      ∧ ∀ (f : Framebuffer) (p : Nat) (c : BitVec 32) (m : Mem) (x y : Nat),
        x < f.width → y < f.height →
          pixel f (framebufferScroll f p c m) x y
            = if y + p < f.height then pixel f m x (y + p) else c := by
  refine ⟨fun m dest src n => ⟨fun i hi => ?_, fun x hx => ?_⟩, ?_⟩
  · rw [kMemmove_eq, blit_inside (by omega) (by omega), Nat.add_sub_cancel_left]
  · rw [kMemmove_eq, blit_outside hx]
  · intro f p c m x y hx hy
    exact pixel_of_screen hx hy (screen_scroll hx hy)

/-- A screen of 2 by 3 pixels with a pixel of padding in each row. -/
def smallScreen : Framebuffer := ⟨0x1000, 2, 3, 3, by decide, by decide⟩

/-- A screen of three by two pixels, scrolled by one. -/
theorem memmove_scroll_small :
    pixel smallScreen (framebufferScroll smallScreen 1 7#32 fun a => BitVec.ofNat 8 a) 1 0
        = pixel smallScreen (fun a => BitVec.ofNat 8 a) 1 1
      ∧ pixel smallScreen (framebufferScroll smallScreen 1 7#32 fun a => BitVec.ofNat 8 a) 1 2
        = 7#32 :=
  ⟨memmove_scroll.2 smallScreen 1 7#32 _ 1 0 (by decide) (by decide),
    memmove_scroll.2 smallScreen 1 7#32 _ 1 2 (by decide) (by decide)⟩

end ZenithOS.Graphics
