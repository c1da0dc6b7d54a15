/-
What the conversions of `lib/convert.c` put into the caller's buffer,
place by place: the numeral, a NUL, and nothing behind it. So the size
a caller has to provide is that of the longest numeral and the NUL.
-/
import ZenithOS.Klib.Convert

namespace ZenithOS.Klib

open Lib

variable {base v : Nat} {digit : Nat → Byte} {b : Buffer}

/-- `b` with the string `l` and its NUL at the beginning. -/
def writeString (l : List Byte) (b : Buffer) : Buffer :=
  fun j => (l ++ [0#8])[j]?.getD (b j)

/-- The case of 0 writes `0`. -/
theorem zeroString_eq (b : Buffer) : zeroString b = writeString [48#8] b := by
  funext j
  unfold zeroString writeString
  rcases j with _ | _ | j
  · simp
  · simp
  · simp [Function.update_of_ne]

/-- Turning characters around and putting a NUL behind them. -/
theorem reverseLoop_writeString {chars : List Byte} {b' : Buffer}
    (hb : ∀ j, b' j = chars[j]?.getD (b j)) :
    reverseLoop chars.length (Function.update b' chars.length 0#8)
      = writeString chars.reverse b := by
  funext j
  rw [reverseLoop_apply]
  unfold writeString
  rcases Nat.lt_trichotomy j chars.length with hj | rfl | hj
  · rw [if_pos hj, Function.update_of_ne (by omega), hb,
      List.getElem?_append_left (by simpa using hj), List.getElem?_reverse hj,
      List.getElem?_eq_getElem (by omega), Option.getD_some, Option.getD_some]
  · rw [if_neg (by omega), Function.update_self]
    simp
  · rw [if_neg (by omega), Function.update_of_ne (by omega), hb,
      List.getElem?_eq_none (by omega), List.getElem?_eq_none (by simp; omega)]

/-- The digit loop, the NUL and the reversal write the numeral. -/
theorem digitString_writeString (hbase : 1 < base) (hpos : v ≠ 0) (hv : v < base ^ 64)
    (b : Buffer) :
    digitString base digit false v b = writeString (numeral base digit v) b := by
  obtain ⟨hlen, hbuf⟩ := digitLoop_spec digit (i := 0) (b := b) hbase hv
  rw [Nat.zero_add, ← List.length_map digit] at hlen
  unfold digitString
  dsimp only
  rw [if_neg (by decide), hlen, numeral_of_ne_zero hpos]
  apply reverseLoop_writeString
  intro j
  rw [hbuf, if_pos (Nat.zero_le j), Nat.sub_zero]

/-- `uint_to_string` writes the decimal numeral. -/
theorem uintToString_eq (value : BitVec 32) (b : Buffer) :
    uintToString value b = writeString (decimal value.toNat) b := by
  unfold uintToString
  by_cases hvalue : value = 0#32
  · rw [if_pos hvalue, zeroString_eq, hvalue]
    rfl
  · have hne : value.toNat ≠ 0 := fun h => hvalue (BitVec.eq_of_toNat_eq h)
    have hlt := value.isLt
    rw [if_neg hvalue, digitString_writeString (by decide) hne (by omega)]
    rfl

/-- `uint64_to_hex` writes the hexadecimal numeral. -/
theorem uint64ToHex_eq (value : BitVec 64) (b : Buffer) :
    uint64ToHex value b = writeString (hex value.toNat) b := by
  unfold uint64ToHex
  by_cases hvalue : value = 0#64
  · rw [if_pos hvalue, zeroString_eq, hvalue]
    rfl
  · have hne : value.toNat ≠ 0 := fun h => hvalue (BitVec.eq_of_toNat_eq h)
    have hlt := value.isLt
    rw [if_neg hvalue, digitString_writeString (by decide) hne (by omega)]
    rfl

/-- A numeral is as long as its digits. -/
theorem numeral_length_le (hbase : 1 < base) {n : Nat} (hn : 0 < n) (hv : v < base ^ n) :
    (numeral base digit v).length ≤ n := by
  have hdigits := (Nat.digits_length_le_iff hbase v).mpr hv
  rw [numeral_length hbase]
  omega

/-- `uint_to_string` and `uint64_to_hex` write numerals, in buffers of 11
and 17 characters. -/
theorem digit_conversion :
    (∀ (value : BitVec 32) (b : Buffer),
      uintToString value b = writeString (decimal value.toNat) b
        ∧ IsNumeral 10 decimalDigit digitValue value.toNat (decimal value.toNat)
        ∧ (decimal value.toNat).length + 1 ≤ 11)
      ∧ ∀ (value : BitVec 64) (b : Buffer),
        uint64ToHex value b = writeString (hex value.toNat) b
          ∧ IsNumeral 16 hexDigit digitValue value.toNat (hex value.toNat)
          ∧ (hex value.toNat).length + 1 ≤ 17 := by
  refine ⟨fun value b => ⟨uintToString_eq value b, ?_, ?_⟩,
    fun value b => ⟨uint64ToHex_eq value b, ?_, ?_⟩⟩
  · exact numeral_isNumeral (by decide) digitValue_decimalDigit value.toNat
  · have hlt := value.isLt
    exact Nat.succ_le_succ (numeral_length_le (by decide) (by decide) (by omega))
  · exact numeral_isNumeral (by decide) digitValue_hexDigit value.toNat
  · have hlt := value.isLt
    exact Nat.succ_le_succ (numeral_length_le (by decide) (by decide) (by omega))

example : uintToString 4294967295#32 (fun _ => 7#8) 10 = 0#8 := by decide

end ZenithOS.Klib
