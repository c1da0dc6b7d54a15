/-
Strings: `lib/string.c`, and the error codes of `kernel_err/errno.h`.

A character array is a list of bytes and the string in it is what stands
before its first NUL (`cString`); past the end of the list a NUL is
read. The two loops of the source are recursions on the arrays, and the
lemmas say what they do to the strings.
-/
import ZenithOS.Lib.Mem

namespace ZenithOS.Klib

open Lib

/-- `KERNEL_SUCCESS`. -/
def kernelSuccess : Int := 0

/-- `KERNEL_EINVAL`. -/
def kernelEinval : Int := -1

/-- `KERNEL_ENOMEM`. -/
def kernelEnomem : Int := -2

/-- `KERNEL_EEXIST`. -/
def kernelEexist : Int := -3

/-- `KERNEL_ENOENT`. -/
def kernelEnoent : Int := -4

/-- `KERNEL_ENOTSUP`. -/
def kernelEnotsup : Int := -5

theorem einval_ne : kernelEinval ≠ kernelSuccess := by decide
theorem enomem_ne : kernelEnomem ≠ kernelSuccess := by decide
theorem eexist_ne : kernelEexist ≠ kernelSuccess := by decide
theorem enoent_ne : kernelEnoent ≠ kernelSuccess := by decide
theorem enotsup_ne : kernelEnotsup ≠ kernelSuccess := by decide

/-- The string in a character array. -/
def cString (a : List Byte) : List Byte := a.takeWhile (· ≠ 0#8)

/-- `k_strcmp`. -/
def kStrcmp : List Byte → List Byte → Int
  | [], b => 0 - (b.headD 0#8).toNat
  | x :: a, b =>
      if x ≠ 0#8 ∧ x = b.headD 0#8 then kStrcmp a b.tail
      else x.toNat - (b.headD 0#8).toNat

/-- `k_strcpy`: the array `dest` afterwards. A source longer than the
array runs past its end. -/
def kStrcpy : List Byte → List Byte → List Byte
  | dest, [] => 0#8 :: dest.tail
  | dest, c :: src => c :: if c ≠ 0#8 then kStrcpy dest.tail src else dest.tail

variable {a b dest src : List Byte} {x : Byte}

@[simp] theorem cString_nil : cString [] = [] := rfl

theorem cString_zero (a : List Byte) : cString (0#8 :: a) = [] := by
  simp [cString]

theorem cString_cons (hx : x ≠ 0#8) : cString (x :: a) = x :: cString a := by
  simp [cString, hx]

/-- The string of an array by its first byte. -/
theorem cString_eq (a : List Byte) :
    cString a = if a.headD 0#8 = 0#8 then [] else a.headD 0#8 :: cString a.tail := by
  cases a with
  | nil => rfl
  | cons x a =>
      by_cases hx : x = 0#8
      · rw [hx, cString_zero]
        rfl
      · rw [cString_cons hx, List.headD_cons, if_neg hx, List.tail_cons]

/-- Two characters compare equal when they are. -/
private theorem toNat_sub_eq_zero (x y : Byte) : (x.toNat : Int) - y.toNat = 0 ↔ x = y := by
  constructor
  · intro h
    exact BitVec.eq_of_toNat_eq (by omega)
  · intro h
    rw [h, Int.sub_self]

/-- A string is empty when its first byte is NUL. -/
private theorem zero_eq_headD (b : List Byte) : 0#8 = b.headD 0#8 ↔ [] = cString b := by
  rw [cString_eq b]
  by_cases hb : b.headD 0#8 = 0#8
  · rw [if_pos hb]
    exact ⟨fun _ => rfl, fun _ => hb.symm⟩
  · rw [if_neg hb]
    exact ⟨fun h => absurd h.symm hb, fun h => by cases h⟩

/-- Two arrays compare equal when they hold the same string. -/
theorem kStrcmp_eq_zero : kStrcmp a b = 0 ↔ cString a = cString b := by
  induction a generalizing b with
  | nil =>
      show (((0#8 : Byte).toNat : Int)) - _ = 0 ↔ _
      rw [toNat_sub_eq_zero, cString_nil]
      exact zero_eq_headD b
  | cons x a ih =>
      rw [kStrcmp]
      by_cases heq : x ≠ 0#8 ∧ x = b.headD 0#8
      · obtain ⟨hx, hxb⟩ := heq
        rw [if_pos ⟨hx, hxb⟩, cString_eq b, ← hxb, if_neg hx, cString_cons hx, ih,
          List.cons_inj_right]
      · rw [if_neg heq, toNat_sub_eq_zero]
        by_cases hx : x = 0#8
        · subst hx
          rw [cString_zero]
          exact zero_eq_headD b
        · have hne : x ≠ b.headD 0#8 := fun h => heq ⟨hx, h⟩
          rw [cString_cons hx, cString_eq b]
          refine ⟨fun h => absurd h hne, fun h => ?_⟩
          split at h
          · cases h
          · injection h

/-- The copy is the string. -/
theorem cString_kStrcpy (dest src : List Byte) : cString (kStrcpy dest src) = cString src := by
  induction src generalizing dest with
  | nil => rw [kStrcpy, cString_zero, cString_nil]
  | cons c src ih =>
      rw [kStrcpy]
      by_cases hc : c = 0#8
      · rw [hc, cString_zero, cString_zero]
      · rw [if_pos hc, cString_cons hc, cString_cons hc, ih]

/-- The copy has room for the string and its NUL. -/
theorem length_lt_kStrcpy (dest src : List Byte) :
    (cString src).length < (kStrcpy dest src).length := by
  induction src generalizing dest with
  | nil =>
      rw [cString_nil, kStrcpy, List.length_nil, List.length_cons]
      exact Nat.succ_pos _
  | cons c src ih =>
      rw [kStrcpy, List.length_cons]
      by_cases hc : c = 0#8
      · rw [hc, cString_zero, List.length_nil]
        exact Nat.succ_pos _
      · rw [if_pos hc, cString_cons hc, List.length_cons]
        exact Nat.succ_lt_succ (ih dest.tail)

/-- A string that fits the array with its NUL stays inside it. -/
theorem length_kStrcpy (hfits : (cString src).length < dest.length) :
    (kStrcpy dest src).length = dest.length := by
  induction src generalizing dest with
  | nil =>
      rw [cString_nil, List.length_nil] at hfits
      rw [kStrcpy, List.length_cons, List.length_tail]
      omega
  | cons c src ih =>
      rw [kStrcpy, List.length_cons]
      by_cases hc : c = 0#8
      · rw [if_neg (by simp [hc]), List.length_tail]
        omega
      · rw [cString_cons hc, List.length_cons] at hfits
        have htail : (kStrcpy dest.tail src).length = dest.tail.length :=
          ih (by rw [List.length_tail]; omega)
        rw [if_pos hc, htail, List.length_tail]
        omega

end ZenithOS.Klib
