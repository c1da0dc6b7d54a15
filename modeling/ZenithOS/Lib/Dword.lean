/-
Little-endian 32-bit words in a byte memory. The rules are those of the
64-bit words: a load sees the store to its own address, and not one it
does not overlap; a word of a block that is copied is the word at its
source.
-/
import ZenithOS.Lib.Mem

namespace ZenithOS.Lib

/-- The 32-bit word at `a`. -/
def loadDword (m : Mem) (a : Nat) : BitVec 32 :=
  BitVec.ofNat 32 ((m a).toNat + 2 ^ 8 * (m (a + 1)).toNat + 2 ^ 16 * (m (a + 2)).toNat
    + 2 ^ 24 * (m (a + 3)).toNat)

/-- Stores four bytes, the lowest first. -/
def storeDword (m : Mem) (a : Nat) (v : BitVec 32) : Mem := fun x =>
  if a ≤ x ∧ x < a + 4 then BitVec.ofNat 8 (v.toNat / 2 ^ (8 * (x - a))) else m x

variable {m m' : Mem} {a b n : Nat} {v : BitVec 32}

/-- A word is read from its own bytes. -/
theorem loadDword_congr (heq : ∀ i < 4, m' (b + i) = m (a + i)) :
    loadDword m' b = loadDword m a := by
  have h0 := heq 0 (by decide)
  rw [Nat.add_zero, Nat.add_zero] at h0
  unfold loadDword
  rw [h0, heq 1 (by decide), heq 2 (by decide), heq 3 (by decide)]

/-- Byte `i` of a stored word. -/
private theorem storeDword_byte (m : Mem) (a : Nat) (v : BitVec 32) {i : Nat} (hi : i < 4) :
    (storeDword m a v (a + i)).toNat = v.toNat / 2 ^ (8 * i) % 2 ^ 8 := by
  unfold storeDword
  rw [if_pos (by omega), Nat.add_sub_cancel_left, BitVec.toNat_ofNat]

@[simp] theorem loadDword_storeDword (m : Mem) (a : Nat) (v : BitVec 32) :
    loadDword (storeDword m a v) a = v := by
  have h := fun i hi => storeDword_byte m a v (i := i) hi
  have h0 := h 0 (by decide)
  rw [Nat.add_zero] at h0
  have hv := v.isLt
  apply BitVec.eq_of_toNat_eq
  unfold loadDword
  rw [BitVec.toNat_ofNat, h0, h 1 (by decide), h 2 (by decide), h 3 (by decide)]
  norm_num
  omega

theorem storeDword_outside {x : Nat} (hout : x < a ∨ a + 4 ≤ x) :
    storeDword m a v x = m x :=
  if_neg (by omega)

/-- A store leaves words apart from it alone. -/
theorem loadDword_storeDword_of_disjoint (hsep : b + 4 ≤ a ∨ a + 4 ≤ b) :
    loadDword (storeDword m a v) b = loadDword m b :=
  loadDword_congr fun _ _ => storeDword_outside (by omega)

/-- A word of a copied block. -/
theorem loadDword_blit_inside {src : Mem} {s : Nat} (hlo : a ≤ b) (hhi : b + 4 ≤ a + n) :
    loadDword (blit m a (fun i => src (s + i)) n) b = loadDword src (s + (b - a)) := by
  apply loadDword_congr
  intro i hi
  rw [blit_inside (by omega) (by omega)]
  congr 1
  omega

end ZenithOS.Lib
