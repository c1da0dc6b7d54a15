/-
Little-endian fields of any number of bytes, as packed structures have
them.

A field is a number below `256 ^ n`; storing reduces. Two fields side by
side are one field (`loadField_add`), so that what is written field by
field can be read as a word.
-/
import ZenithOS.Lib.Mem
import Mathlib.Tactic.Ring

namespace ZenithOS.Lib

/-- The `n` bytes at `a`. -/
def loadField (m : Mem) : Nat → Nat → Nat
  | _, 0 => 0
  | a, n + 1 => (m a).toNat + 256 * loadField m (a + 1) n

/-- Write the low `n` bytes of `v` at `a`. -/
def storeField (m : Mem) (a n v : Nat) : Mem := fun x =>
  if a ≤ x ∧ x < a + n then BitVec.ofNat 8 (v / 256 ^ (x - a)) else m x

variable {m m' : Mem} {a b k n v : Nat}

/-- A field is read from its own bytes. -/
theorem loadField_congr (heq : ∀ x, a ≤ x → x < a + n → m' x = m x) :
    loadField m' a n = loadField m a n := by
  induction n generalizing a with
  | zero => rfl
  | succ n ih =>
      simp only [loadField]
      rw [heq a le_rfl (by omega), ih fun x hlo hhi => heq x (by omega) (by omega)]

theorem loadField_zero (hzero : ∀ x, a ≤ x → x < a + n → m x = 0) : loadField m a n = 0 := by
  induction n generalizing a with
  | zero => rfl
  | succ n ih =>
      simp only [loadField]
      rw [hzero a le_rfl (by omega), ih fun x hlo hhi => hzero x (by omega) (by omega)]
      rfl

theorem storeField_outside {x : Nat} (hout : x < a ∨ a + n ≤ x) : storeField m a n v x = m x := by
  unfold storeField
  rw [if_neg (by omega)]

/-- A store is invisible to a field it does not overlap. -/
theorem loadField_storeField_of_disjoint (hsep : b + k ≤ a ∨ a + n ≤ b) :
    loadField (storeField m a n v) b k = loadField m b k :=
  loadField_congr fun _ _ _ => storeField_outside (by omega)

/-- A field sees the part of a store it covers. -/
theorem loadField_storeField_from (hle : a ≤ b) (hend : b + k ≤ a + n) :
    loadField (storeField m a n v) b k = v / 256 ^ (b - a) % 256 ^ k := by
  induction k generalizing b with
  | zero => rw [Nat.pow_zero, Nat.mod_one, loadField]
  | succ k ih =>
      have hbyte : (storeField m a n v b).toNat = v / 256 ^ (b - a) % 256 := by
        unfold storeField
        rw [if_pos (by omega), BitVec.toNat_ofNat]
      have hnext : v / 256 ^ (b + 1 - a) = v / 256 ^ (b - a) / 256 := by
        rw [Nat.div_div_eq_div_mul, ← Nat.pow_succ, show b + 1 - a = b - a + 1 by omega]
      simp only [loadField]
      rw [hbyte, ih (by omega) (by omega), hnext, Nat.pow_succ, Nat.mul_comm (256 ^ k),
        Nat.mod_mul]

@[simp] theorem loadField_storeField (m : Mem) (a n v : Nat) :
    loadField (storeField m a n v) a n = v % 256 ^ n := by
  rw [loadField_storeField_from le_rfl le_rfl, Nat.sub_self, Nat.pow_zero, Nat.div_one]

/-- Two fields side by side. -/
theorem loadField_add (m : Mem) (a n k : Nat) :
    loadField m a (n + k) = loadField m a n + 256 ^ n * loadField m (a + n) k := by
  induction n generalizing a with
  | zero => simp [loadField]
  | succ n ih =>
      rw [Nat.succ_add]
      simp only [loadField]
      rw [ih, show a + 1 + n = a + (n + 1) by omega, Nat.pow_succ]
      ring

end ZenithOS.Lib
