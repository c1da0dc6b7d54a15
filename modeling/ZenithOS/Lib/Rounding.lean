/-
Quotients rounded to the nearest integer, halves up.

`rounded a n k` is `k * a / n`, so rounded. With `a ≤ n` it is a walk from
0 to `a` in `n` steps of 0 or 1 (`rounded_zero`, `rounded_self`,
`rounded_succ`), and it is within one half of the quotient
(`rounded_close`, `abs_sub_div_le_half`).
-/
import Mathlib.Algebra.Order.Field.Basic
import Mathlib.Data.Rat.Cast.Order
import Mathlib.Tactic.FieldSimp
import Mathlib.Tactic.Linarith
import Mathlib.Tactic.Ring

namespace ZenithOS.Lib

/-- `k * a / n`, rounded. -/
def rounded (a n k : Nat) : Nat := (2 * (k * a) + n) / (2 * n)

variable {a n k j : Nat}

/-- The rounded quotient is not too large. -/
theorem rounded_le (a n k : Nat) : 2 * (rounded a n k * n) ≤ 2 * (k * a) + n := by
  have h := Nat.div_mul_le_self (2 * (k * a) + n) (2 * n)
  calc 2 * (rounded a n k * n) = rounded a n k * (2 * n) := by ring
    _ ≤ 2 * (k * a) + n := h

/-- The rounded quotient is not too small. -/
theorem lt_rounded (hn : 0 < n) : 2 * (k * a) + n < 2 * ((rounded a n k + 1) * n) := by
  have h := Nat.lt_mul_div_succ (2 * (k * a) + n) (b := 2 * n) (by omega)
  calc 2 * (k * a) + n < 2 * n * ((2 * (k * a) + n) / (2 * n) + 1) := h
    _ = 2 * ((rounded a n k + 1) * n) := by
        unfold rounded
        ring

/-- No other integer is as close. -/
theorem rounded_unique (hn : 0 < n) (hlo : 2 * (j * n) ≤ 2 * (k * a) + n)
    (hhi : 2 * (k * a) + n < 2 * ((j + 1) * n)) : rounded a n k = j := by
  unfold rounded
  rw [Nat.div_eq_iff (by omega)]
  have hleft : j * (2 * n) = 2 * (j * n) := by ring
  have hright : 2 * ((j + 1) * n) = 2 * (j * n) + 2 * n := by ring
  omega

theorem rounded_zero (a n : Nat) : rounded a n 0 = 0 := by
  rcases Nat.eq_zero_or_pos n with rfl | hn
  · simp [rounded]
  · exact rounded_unique hn (by omega) (by omega)

theorem rounded_self (hn : 0 < n) : rounded a n n = a := by
  have hcomm := Nat.mul_comm n a
  have hsucc := add_one_mul a n
  exact rounded_unique hn (by omega) (by omega)

/-- All the way, `rounded` does not round. -/
theorem rounded_all (hn : 0 < n) : rounded n n k = k := by
  have hsucc := add_one_mul k n
  exact rounded_unique hn (by omega) (by omega)

/-- The next value is one more if that is not more than one half off. -/
theorem rounded_succ (hn : 0 < n) (ha : a ≤ n) :
    rounded a n (k + 1)
      = if (2 * rounded a n k + 1) * n ≤ 2 * ((k + 1) * a) then rounded a n k + 1
        else rounded a n k := by
  have hlo := rounded_le a n k
  have hhi := lt_rounded (a := a) (k := k) hn
  have hk := add_one_mul k a
  generalize rounded a n k = j at *
  have hj := add_one_mul j n
  have hj' := add_one_mul (j + 1) n
  have hhalf : (2 * j + 1) * n = 2 * (j * n) + n := by ring
  by_cases hup : (2 * j + 1) * n ≤ 2 * ((k + 1) * a)
  · rw [if_pos hup]
    exact rounded_unique hn (by omega) (by omega)
  · rw [if_neg hup]
    exact rounded_unique hn (by omega) (by omega)

/-- Rounding keeps the order. -/
theorem rounded_mono {l : Nat} (h : k ≤ l) : rounded a n k ≤ rounded a n l := by
  have hmul : k * a ≤ l * a := Nat.mul_le_mul_right _ h
  exact Nat.div_le_div_right (by omega)

/-- Twice the distance, times `n`. -/
theorem rounded_close (hn : 0 < n) :
    |2 * ((rounded a n k : Int) * n - k * a)| ≤ n := by
  have hlo := rounded_le a n k
  have hhi := lt_rounded (a := a) (k := k) hn
  rw [add_one_mul] at hhi
  generalize rounded a n k = j at *
  rw [abs_le]
  zify at hlo hhi
  constructor
  · linarith
  · linarith

/-- What that says about the quotient. -/
theorem abs_sub_div_le_half {y b c d : Int} (hd : d ≠ 0)
    (h : |2 * (y * d - b * c)| ≤ |d|) : |(y : ℚ) - b * c / d| ≤ 1 / 2 := by
  have hd' : (d : ℚ) ≠ 0 := by exact_mod_cast hd
  have hpos : 0 < |(d : ℚ)| := abs_pos.mpr hd'
  have hq : |2 * ((y : ℚ) * d - b * c)| ≤ |(d : ℚ)| := by exact_mod_cast h
  have heq : (y : ℚ) - b * c / d = (y * d - b * c) / d := by field_simp
  rw [heq, abs_div, div_le_iff₀ hpos]
  rw [abs_mul, abs_two] at hq
  linarith

end ZenithOS.Lib
