/-
Block operations: `lib/memory.c`.

The loops of the source, byte by byte; `k_memmove` also has one that
counts down. Objects do not wrap around the address space, so `dest + i`
is a plain sum.
-/
import ZenithOS.Lib.Mem

namespace ZenithOS.Klib

open Lib

/-- `k_memcpy`. -/
def kMemcpy (m : Mem) (dest src n : Nat) : Mem :=
  forUp (fun i m => storeByte m (dest + i) (m (src + i))) 0 n m

/-- `k_memcpy` out of an object that is not in `m`. -/
def kMemcpyFrom (m : Mem) (dest : Nat) (src : Nat → Byte) (n : Nat) : Mem :=
  forUp (fun i m => storeByte m (dest + i) (src i)) 0 n m

/-- `k_memset`. -/
def kMemset (m : Mem) (s : Nat) (c : Byte) (n : Nat) : Mem :=
  forUp (fun i m => storeByte m (s + i) c) 0 n m

/-- `k_memmove`. -/
def kMemmove (m : Mem) (dest src n : Nat) : Mem :=
  if dest < src then forUp (fun i m => storeByte m (dest + i) (m (src + i))) 0 n m
  else if src < dest then forDown (fun i m => storeByte m (dest + i) (m (src + i))) n m
  else m

/-- `k_memset` fills the bytes, one after the other. -/
theorem kMemset_eq (m : Mem) (s : Nat) (c : Byte) (n : Nat) :
    kMemset m s c n = fill m s c n :=
  (fill_eq_loop m s c n).symm

/-- `k_memcpy` copies the bytes, one after the other. -/
theorem kMemcpyFrom_eq (m : Mem) (dest : Nat) (src : Nat → Byte) (n : Nat) :
    kMemcpyFrom m dest src n = blit m dest src n :=
  (blit_eq_loop_from m dest src n).symm

/-- A copy between ranges that are apart. -/
theorem kMemcpy_eq (m : Mem) {dest src n : Nat} (h : dest + n ≤ src ∨ src + n ≤ dest) :
    kMemcpy m dest src n = blit m dest (fun i => m (src + i)) n :=
  (blit_eq_loop m h).symm

/-- A copy writes nothing else, also when the ranges overlap. -/
theorem kMemcpy_outside {m : Mem} {dest src n x : Nat} (hout : x < dest ∨ dest + n ≤ x) :
    kMemcpy m dest src n x = m x := by
  apply forUp_preserves (P := fun t : Mem => t x = m x) rfl
  intro i t _ hi ht
  rw [storeByte_of_ne (by omega), ht]

/-- A move, however the ranges lie: no byte of the source is overwritten
before it is read. -/
theorem kMemmove_eq (m : Mem) (dest src n : Nat) :
    kMemmove m dest src n = blit m dest (fun i => m (src + i)) n := by
  unfold kMemmove
  by_cases hup : dest < src
  · -- upwards, the bytes written are below those still to be read
    have hloop := forUp_rule (f := fun i m => storeByte m (dest + i) (m (src + i)))
      (a := 0) (n := n) (s := m) (P := fun i t => t = blit m dest (fun i => m (src + i)) i)
      (by funext x; rw [blit_outside (by omega)])
      (fun i t _ _ hP => by
        subst hP
        funext x
        by_cases hx : x = dest + i
        · rw [hx, storeByte_self, blit_outside (x := src + i) (by omega),
            blit_inside (by omega) (by omega), Nat.add_sub_cancel_left]
        · rw [storeByte_of_ne hx]
          by_cases hin : dest ≤ x ∧ x < dest + i
          · rw [blit_inside hin.1 hin.2, blit_inside hin.1 (by omega)]
          · rw [blit_outside (by omega), blit_outside (by omega)])
    rw [if_pos hup, hloop, Nat.zero_add]
  · rw [if_neg hup]
    by_cases hdown : src < dest
    · -- downwards, they are above
      have hloop := forDown_rule (f := fun i m => storeByte m (dest + i) (m (src + i)))
        (n := n) (s := m)
        (P := fun i t => t = blit m (dest + i) (fun j => m (src + i + j)) (n - i))
        (by funext x; rw [blit_outside (by omega)])
        (fun i t hi hP => by
          subst hP
          funext x
          by_cases hx : x = dest + i
          · rw [hx, storeByte_self, blit_outside (x := src + i) (by omega),
              blit_inside (by omega) (by omega), Nat.sub_self, Nat.add_zero]
          · rw [storeByte_of_ne hx]
            by_cases hin : dest + (i + 1) ≤ x ∧ x < dest + n
            · rw [blit_inside hin.1 (by omega), blit_inside (by omega) (by omega)]
              congr 1
              omega
            · rw [blit_outside (by omega), blit_outside (by omega)])
      rw [if_pos hdown, hloop]
      rfl
    · -- the ranges are one
      obtain rfl : dest = src := by omega
      rw [if_neg hdown]
      funext x
      by_cases hin : dest ≤ x ∧ x < dest + n
      · rw [blit_inside hin.1 hin.2]
        congr 1
        omega
      · rw [blit_outside (by omega)]

end ZenithOS.Klib
