/-
Numbers as text: `lib/convert.c`.

A buffer is the characters by their place; what it held before is an
argument, since the callers leave it uninitialised.

`int_to_string` takes `-value` in an `int`. For the most negative number
this overflows, and C does not say what happens then: `overflowed` is what
the buffer is left with.
-/
import ZenithOS.Klib.String
import ZenithOS.Lib.Numeral

namespace ZenithOS.Klib

open Lib

/-- A `char` array. -/
abbrev Buffer := Nat → Byte

/-- `value % 10 + '0'`. -/
def decimalDigit (d : Nat) : Byte := BitVec.ofNat 8 (d + 48)

/-- `digits[d]` of "0123456789ABCDEF". -/
def hexDigit (d : Nat) : Byte :=
  [48#8, 49#8, 50#8, 51#8, 52#8, 53#8, 54#8, 55#8, 56#8, 57#8, 65#8, 66#8, 67#8, 68#8, 69#8,
    70#8].getD d 0#8

/-- `'-'`. -/
def minus : Byte := 45#8

/-- What all three functions put into the buffer for 0. -/
def zeroString (buffer : Buffer) : Buffer :=
  Function.update (Function.update buffer 0 48#8) 1 0#8

/-- The digits, the sign, the NUL and the reversal; no number of 64 bits
has more than 64 digits. -/
def digitString (base : Nat) (digit : Nat → Byte) (negative : Bool) (value : Nat)
    (buffer : Buffer) : Buffer :=
  let digits := digitLoop base digit 64 value 0 buffer
  let signed :=
    if negative then (digits.1 + 1, Function.update digits.2 digits.1 minus) else digits
  reverseLoop signed.1 (Function.update signed.2 signed.1 0#8)

/-- `int_to_string`. -/
def intToString (overflowed : Buffer) (value : BitVec 32) (buffer : Buffer) : Buffer :=
  if value = 0#32 then zeroString buffer
  else if value = BitVec.intMin 32 then overflowed
  else if value.toInt < 0 then digitString 10 decimalDigit true (-value).toInt.toNat buffer
  else digitString 10 decimalDigit false value.toInt.toNat buffer

/-- `uint64_to_hex`. -/
def uint64ToHex (value : BitVec 64) (buffer : Buffer) : Buffer :=
  if value = 0#64 then zeroString buffer
  else digitString 16 hexDigit false value.toNat buffer

/-- `uint_to_string`. -/
def uintToString (value : BitVec 32) (buffer : Buffer) : Buffer :=
  if value = 0#32 then zeroString buffer
  else digitString 10 decimalDigit false value.toNat buffer

/-- The string in a buffer of `size` characters. -/
def bufferString (size : Nat) (buffer : Buffer) : List Byte :=
  cString ((List.range size).map buffer)

/-- The decimal numeral. -/
def decimal (v : Nat) : List Byte := numeral 10 decimalDigit v

/-- The hexadecimal numeral. -/
def hex (v : Nat) : List Byte := numeral 16 hexDigit v

variable {base v w n size : Nat} {digit : Nat → Byte} {b : Buffer}

-- ============================================================== digits

theorem decimalDigit_ne_zero : ∀ d < 10, decimalDigit d ≠ 0#8 := by decide
theorem hexDigit_ne_zero : ∀ d < 16, hexDigit d ≠ 0#8 := by decide

/-- The value of a digit character. -/
def digitValue (c : Byte) : Nat := if c.toNat < 65 then c.toNat - 48 else c.toNat - 55

/-- A decimal digit is read as what was written. -/
theorem digitValue_decimalDigit : ∀ d < 10, digitValue (decimalDigit d) = d := by decide

/-- A hexadecimal digit is read as what was written. -/
theorem digitValue_hexDigit : ∀ d < 16, digitValue (hexDigit d) = d := by decide

/-- Different values have different numerals. -/
theorem decimal_inj (h : decimal v = decimal w) : v = w :=
  numeral_inj (by decide) digitValue_decimalDigit h

/-- A greater value has no shorter numeral. -/
theorem decimal_length_mono (h : v ≤ w) : (decimal v).length ≤ (decimal w).length :=
  numeral_length_mono (by decide) h

-- ============================================================= buffers

/-- A string ends at its NUL. -/
theorem bufferString_eq (hsize : n < size) (hend : b n = 0#8) (hchars : ∀ j < n, b j ≠ 0#8) :
    bufferString size b = (List.range n).map b := by
  unfold bufferString cString
  obtain ⟨rest, rfl⟩ : ∃ rest, size = n + (rest + 1) := ⟨size - n - 1, by omega⟩
  rw [List.range_add, List.map_append, List.takeWhile_append_of_pos]
  · simp [List.range_succ_eq_map, hend]
  · intro c hc
    obtain ⟨j, hj, rfl⟩ := List.mem_map.mp hc
    simpa using hchars j (List.mem_range.mp hj)

/-- The buffer holds `0`. -/
theorem bufferString_zeroString (hsize : 1 < size) (b : Buffer) :
    bufferString size (zeroString b) = [48#8] := by
  rw [bufferString_eq hsize]
  · rfl
  · simp [zeroString]
  · intro j hj
    obtain rfl : j = 0 := by omega
    simp [zeroString]

/-- Turning characters around and putting a NUL behind them. -/
theorem bufferString_reverseLoop {size : Nat} {chars : List Byte} (hsize : chars.length < size)
    (hchars : ∀ c ∈ chars, c ≠ 0#8) (hb : ∀ j < chars.length, chars[j]? = some (b j)) :
    bufferString size (reverseLoop chars.length (Function.update b chars.length 0#8))
      = chars.reverse := by
  have hplace : ∀ j < chars.length,
      chars.reverse[j]?
        = some (reverseLoop chars.length (Function.update b chars.length 0#8) j) := by
    intro j hj
    rw [List.getElem?_reverse hj, hb _ (by omega), reverseLoop_apply, if_pos hj,
      Function.update_of_ne (by omega)]
  rw [bufferString_eq hsize]
  · apply List.ext_getElem?
    intro j
    by_cases hj : j < chars.length
    · rw [hplace j hj]
      simp [hj]
    · rw [List.getElem?_eq_none (by simpa using hj), List.getElem?_eq_none (by simpa using hj)]
  · rw [reverseLoop_apply, if_neg (by omega), Function.update_self]
  · intro j hj hzero
    have hmem := List.mem_of_getElem? (hplace j hj)
    rw [hzero] at hmem
    exact hchars _ (List.mem_reverse.mp hmem) rfl

/-- The three functions leave a numeral in the buffer, behind its sign. -/
theorem bufferString_digitString (hbase : 1 < base) (hdigit : ∀ d < base, digit d ≠ 0#8)
    (negative : Bool) (hv : v < base ^ 64)
    (hsize : (Nat.digits base v).length + negative.toNat < size) (b : Buffer) :
    bufferString size (digitString base digit negative v b)
      = (if negative then [minus] else []) ++ ((Nat.digits base v).map digit).reverse := by
  obtain ⟨hlen, hbuf⟩ := digitLoop_spec digit (i := 0) (b := b) hbase hv
  have hdigits : ∀ c ∈ (Nat.digits base v).map digit, c ≠ 0#8 := by
    intro c hc
    obtain ⟨d, hd, rfl⟩ := List.mem_map.mp hc
    exact hdigit d (Nat.digits_lt_base hbase hd)
  have hplace : ∀ j < ((Nat.digits base v).map digit).length,
      ((Nat.digits base v).map digit)[j]? = some ((digitLoop base digit 64 v 0 b).2 j) := by
    intro j hj
    rw [hbuf, if_pos (Nat.zero_le _), Nat.sub_zero, List.getElem?_eq_getElem hj]
    rfl
  rw [Nat.zero_add, ← List.length_map digit] at hlen
  rw [← List.length_map digit] at hsize
  unfold digitString
  dsimp only
  rw [hlen]
  cases negative with
  | false =>
      rw [if_neg (by decide), if_neg (by decide), hlen]
      exact bufferString_reverseLoop hsize hdigits hplace
  | true =>
      -- the sign is one more character behind the digits
      have hroom : ((Nat.digits base v).map digit ++ [minus]).length < size := by
        rw [List.length_append]
        exact hsize
      have hchars : ∀ c ∈ (Nat.digits base v).map digit ++ [minus], c ≠ 0#8 := by
        intro c hc
        rcases List.mem_append.mp hc with hc | hc
        · exact hdigits c hc
        · rw [List.mem_singleton.mp hc]
          decide
      have hplaced : ∀ j < ((Nat.digits base v).map digit ++ [minus]).length,
          ((Nat.digits base v).map digit ++ [minus])[j]?
            = some (Function.update (digitLoop base digit 64 v 0 b).2
                ((Nat.digits base v).map digit).length minus j) := by
        intro j hj
        rw [List.length_append, List.length_singleton] at hj
        by_cases hlast : j = ((Nat.digits base v).map digit).length
        · rw [hlast, List.getElem?_concat_length, Function.update_self]
        · rw [List.getElem?_append_left (by omega), hplace j (by omega),
            Function.update_of_ne hlast]
      have hsigned := bufferString_reverseLoop hroom hchars hplaced
      rw [List.length_append, List.length_singleton, List.reverse_append] at hsigned
      rw [if_pos rfl, if_pos rfl]
      exact hsigned

-- =========================================================== functions

/-- The numeral of a positive value, from its digits. -/
theorem numeral_of_ne_zero (hv : v ≠ 0) :
    numeral base digit v = ((Nat.digits base v).map digit).reverse :=
  if_neg hv

/-- The string of an `unsigned int` is its decimal numeral. -/
theorem uintToString_spec (value : BitVec 32) (b : Buffer) :
    bufferString 16 (uintToString value b) = decimal value.toNat := by
  unfold uintToString
  by_cases hvalue : value = 0#32
  · rw [if_pos hvalue, bufferString_zeroString (by decide), hvalue]
    rfl
  · have hne : value.toNat ≠ 0 := fun h => hvalue (BitVec.eq_of_toNat_eq h)
    have hlen : (Nat.digits 10 value.toNat).length ≤ 10 := by
      rw [Nat.digits_length_le_iff (by decide)]
      omega
    rw [if_neg hvalue, bufferString_digitString (by decide) decimalDigit_ne_zero]
    · exact (numeral_of_ne_zero hne).symm
    · omega
    · rw [Bool.toNat_false]
      omega

/-- The string of a 64-bit number is its hexadecimal numeral. -/
theorem uint64ToHex_spec (value : BitVec 64) (b : Buffer) :
    bufferString 17 (uint64ToHex value b) = hex value.toNat := by
  unfold uint64ToHex
  by_cases hvalue : value = 0#64
  · rw [if_pos hvalue, bufferString_zeroString (by decide), hvalue]
    rfl
  · have hne : value.toNat ≠ 0 := fun h => hvalue (BitVec.eq_of_toNat_eq h)
    have hlen : (Nat.digits 16 value.toNat).length ≤ 16 := by
      rw [Nat.digits_length_le_iff (by decide)]
      omega
    rw [if_neg hvalue, bufferString_digitString (by decide) hexDigit_ne_zero]
    · exact (numeral_of_ne_zero hne).symm
    · omega
    · rw [Bool.toNat_false]
      omega

/-- The string of an `int` is its sign and the digits of its absolute
value. -/
theorem intToString_spec (overflowed : Buffer) {value : BitVec 32}
    (hmin : value ≠ BitVec.intMin 32) (b : Buffer) :
    bufferString 16 (intToString overflowed value b)
      = (if value.toInt < 0 then [minus] else []) ++ decimal value.toInt.natAbs := by
  have hrange := value.two_mul_toInt_lt
  have hlow := value.le_two_mul_toInt
  unfold intToString
  by_cases hzero : value = 0#32
  · rw [if_pos hzero, bufferString_zeroString (by decide), hzero]
    rfl
  · have hne : value.toInt ≠ 0 := fun h => hzero (BitVec.eq_of_toInt_eq h)
    have hlen : ∀ v < 10 ^ 10, (Nat.digits 10 v).length ≤ 10 := fun v hv =>
      (Nat.digits_length_le_iff (by decide) v).mpr hv
    have hsmall := hlen value.toInt.natAbs (by omega)
    rw [if_neg hzero, if_neg hmin]
    by_cases hneg : value.toInt < 0
    · have habs : (-value).toInt.toNat = value.toInt.natAbs := by
        rw [BitVec.toInt_neg_of_ne_intMin hmin]
        omega
      rw [if_pos hneg, if_pos hneg, habs,
        bufferString_digitString (by decide) decimalDigit_ne_zero]
      · rw [decimal, numeral_of_ne_zero (by omega)]
        rfl
      · omega
      · rw [Bool.toNat_true]
        omega
    · have habs : value.toInt.toNat = value.toInt.natAbs := by omega
      rw [if_neg hneg, if_neg hneg, habs,
        bufferString_digitString (by decide) decimalDigit_ne_zero]
      · rw [decimal, numeral_of_ne_zero (by omega)]
        rfl
      · omega
      · rw [Bool.toNat_false]
        omega

/-- What C leaves open. -/
theorem intToString_intMin (overflowed b : Buffer) :
    intToString overflowed (BitVec.intMin 32) b = overflowed := by
  unfold intToString
  rw [if_neg (by decide), if_pos rfl]

end ZenithOS.Klib
