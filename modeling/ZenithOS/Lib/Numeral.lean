/-
Numerals, and the loop that prints them.

`numeral base digit v` is `v` written out in `base`, the highest digit
first and a single zero for 0. It determines `v` (`numeral_inj`) and a
larger number is not shorter (`numeral_length_mono`).

A program that divides by the base gets the digits in the other order
and then turns them around in place: `digitLoop` and `reverseLoop` are
these two loops over a buffer.
-/
import ZenithOS.Lib.Loop
import Mathlib.Data.Nat.Digits.Lemmas

namespace ZenithOS.Lib

variable {β : Type _}

/-- `v` in `base`, with `digit` for the digits. -/
def numeral (base : Nat) (digit : Nat → β) (v : Nat) : List β :=
  if v = 0 then [digit 0] else ((Nat.digits base v).map digit).reverse

/-- `while (v > 0) { b[i++] = digit(v % base); v /= base; }` -/
def digitLoop (base : Nat) (digit : Nat → β) : Nat → Nat → Nat → (Nat → β) → Nat × (Nat → β)
  | 0, _, i, b => (i, b)
  | fuel + 1, v, i, b =>
      if 0 < v then
        digitLoop base digit fuel (v / base) (i + 1) (Function.update b i (digit (v % base)))
      else (i, b)

/-- The entries at two places change places. -/
def swapAt (b : Nat → β) (i j : Nat) : Nat → β :=
  Function.update (Function.update b i (b j)) j (b i)

/-- Exchange the ends of `b[0] … b[n - 1]` and go inwards. -/
def reverseLoop (n : Nat) (b : Nat → β) : Nat → β :=
  forUp (fun k b => swapAt b k (n - 1 - k)) 0 (n / 2) b

variable {base v w n i j fuel : Nat} {digit : Nat → β} {b : Nat → β}

-- =========================================================== numerals

/-- A numeral has at least one digit. -/
theorem numeral_length (hbase : 1 < base) (v : Nat) :
    (numeral base digit v).length = max 1 (Nat.digits base v).length := by
  unfold numeral
  by_cases hv : v = 0
  · simp [hv]
  · have hpos : 0 < (Nat.digits base v).length := by
      rw [Nat.lt_digits_length_iff hbase]
      rw [Nat.pow_zero]
      exact Nat.pos_of_ne_zero hv
    rw [if_neg hv, List.length_reverse, List.length_map]
    omega

/-- A greater value has no shorter numeral. -/
theorem numeral_length_mono (hbase : 1 < base) (h : v ≤ w) :
    (numeral base digit v).length ≤ (numeral base digit w).length := by
  have hmono := Nat.le_length_digits_le base v w h
  rw [numeral_length hbase, numeral_length hbase]
  omega

/-- A numeral is made of digits. -/
theorem mem_numeral {x : β} (hbase : 1 < base) (hx : x ∈ numeral base digit v) :
    ∃ d < base, x = digit d := by
  unfold numeral at hx
  by_cases hv : v = 0
  · rw [if_pos hv] at hx
    exact ⟨0, by omega, List.mem_singleton.mp hx⟩
  · rw [if_neg hv] at hx
    obtain ⟨d, hd, rfl⟩ := List.mem_map.mp (List.mem_reverse.mp hx)
    exact ⟨d, Nat.digits_lt_base hbase hd, rfl⟩

/-- Read back digit by digit, a numeral is its number. -/
theorem ofDigits_numeral (hbase : 1 < base) {value : β → Nat}
    (hvalue : ∀ d < base, value (digit d) = d) (v : Nat) :
    Nat.ofDigits base ((numeral base digit v).reverse.map value) = v := by
  unfold numeral
  by_cases hv : v = 0
  · simp [hv, hvalue 0 (by omega)]
  · have hmap : ((Nat.digits base v).map digit).map value = Nat.digits base v := by
      rw [List.map_map]
      conv_rhs => rw [← List.map_id (Nat.digits base v)]
      apply List.map_congr_left
      intro d hd
      exact hvalue d (Nat.digits_lt_base hbase hd)
    rw [if_neg hv, List.reverse_reverse, hmap, Nat.ofDigits_digits]

/-- Read digits, the highest first. -/
def readNumeral (base : Nat) (value : β → Nat) (l : List β) : Nat :=
  l.foldl (fun v c => value c + base * v) 0

/-- Reading sums the digits by their places. -/
theorem readNumeral_eq (base : Nat) (value : β → Nat) (l : List β) :
    readNumeral base value l = Nat.ofDigits base (l.reverse.map value) := by
  unfold readNumeral
  rw [Nat.ofDigits_eq_foldr, List.foldr_map, List.foldr_reverse]
  rfl

/-- `l` is how `v` is written: digits only, none of them missing, no
zero in front of others, and it reads as `v`. -/
structure IsNumeral (base : Nat) (digit : Nat → β) (value : β → Nat) (v : Nat) (l : List β) :
    Prop where
  digits : ∀ x ∈ l, ∃ d < base, x = digit d
  nonempty : l ≠ []
  canonical : l.head? = some (digit 0) → l = [digit 0]
  reads : readNumeral base value l = v

/-- The numeral is one of its value. -/
theorem numeral_isNumeral (hbase : 1 < base) {value : β → Nat}
    (hvalue : ∀ d < base, value (digit d) = d) (v : Nat) :
    IsNumeral base digit value v (numeral base digit v) := by
  refine ⟨fun x hx => mem_numeral hbase hx, ?_, ?_, ?_⟩
  · rw [← List.length_pos_iff, numeral_length hbase]
    omega
  · intro hhead
    unfold numeral at hhead ⊢
    by_cases hv : v = 0
    · rw [if_pos hv]
    · -- the highest digit is not a zero
      rw [if_neg hv, List.head?_reverse] at hhead
      have hne : Nat.digits base v ≠ [] := Nat.digits_ne_nil_iff_ne_zero.mpr hv
      have hlast : ((Nat.digits base v).map digit).getLast?
          = some (digit ((Nat.digits base v).getLast hne)) := by
        rw [List.getLast?_map, List.getLast?_eq_some_getLast hne]
        rfl
      rw [hlast] at hhead
      have hlt := Nat.digits_lt_base hbase (List.getLast_mem hne)
      have hzero := congrArg value (Option.some.inj hhead)
      rw [hvalue _ hlt, hvalue 0 (by omega)] at hzero
      exact absurd hzero (Nat.getLast_digit_ne_zero base hv)
  · rw [readNumeral_eq, ofDigits_numeral hbase hvalue]

/-- Different values have different numerals. -/
theorem numeral_inj (hbase : 1 < base) {value : β → Nat}
    (hvalue : ∀ d < base, value (digit d) = d)
    (h : numeral base digit v = numeral base digit w) : v = w := by
  rw [← ofDigits_numeral hbase hvalue v, h, ofDigits_numeral hbase hvalue w]

-- ============================================================== loops

/-- The loop puts the digits into the buffer, the lowest first. -/
theorem digitLoop_spec (digit : Nat → β) (hbase : 1 < base) (hfuel : v < base ^ fuel) :
    (digitLoop base digit fuel v i b).1 = i + (Nat.digits base v).length ∧
      ∀ j, (digitLoop base digit fuel v i b).2 j
        = if i ≤ j then (((Nat.digits base v).map digit)[j - i]?).getD (b j) else b j := by
  induction fuel generalizing v i b with
  | zero =>
      obtain rfl : v = 0 := by simpa using hfuel
      simp [digitLoop]
  | succ fuel ih =>
      unfold digitLoop
      by_cases hv : 0 < v
      · have hrest : v / base < base ^ fuel := by
          rw [Nat.div_lt_iff_lt_mul (by omega), ← Nat.pow_succ]
          exact hfuel
        obtain ⟨hlen, hbuf⟩ := ih (i := i + 1) (b := Function.update b i (digit (v % base))) hrest
        rw [if_pos hv, Nat.digits_def' hbase hv]
        refine ⟨by rw [hlen, List.length_cons]; omega, fun j => ?_⟩
        rw [hbuf]
        rcases Nat.lt_trichotomy j i with hj | rfl | hj
        · rw [if_neg (by omega), if_neg (by omega), Function.update_of_ne (by omega)]
        · simp
        · rw [if_pos (by omega), if_pos (by omega), Function.update_of_ne (by omega),
            show j - i = j - (i + 1) + 1 by omega]
          simp
      · obtain rfl : v = 0 := by omega
        simp

/-- The loop turns the first `n` places around. -/
theorem reverseLoop_apply (n : Nat) (b : Nat → β) (j : Nat) :
    reverseLoop n b j = if j < n then b (n - 1 - j) else b j := by
  have hloop := forUp_rule (f := fun k b => swapAt b k (n - 1 - k)) (a := 0) (n := n / 2) (s := b)
    (P := fun k b' => ∀ j, b' j
      = if j < n ∧ (j < k ∨ n ≤ j + k) then b (n - 1 - j) else b j)
    (fun j => by rw [if_neg (by omega)])
    (fun k b' _ hk hP j => by
      unfold swapAt
      by_cases hhigh : j = n - 1 - k
      · subst hhigh
        rw [Function.update_self, hP, if_neg (by omega), if_pos (by omega)]
        congr 1
        omega
      · rw [Function.update_of_ne hhigh]
        by_cases hlow : j = k
        · subst hlow
          rw [Function.update_self, hP, if_neg (by omega), if_pos (by omega)]
        · rw [Function.update_of_ne hlow, hP]
          congr 1
          simp only [eq_iff_iff]
          omega)
  rw [Nat.zero_add] at hloop
  unfold reverseLoop
  rw [hloop j]
  by_cases hj : j < n
  · rw [if_pos hj]
    by_cases hout : j < n / 2 ∨ n ≤ j + n / 2
    · rw [if_pos ⟨hj, hout⟩]
    · rw [if_neg (fun h => hout h.2), show n - 1 - j = j by omega]
  · rw [if_neg hj, if_neg (fun h => hj h.1)]

end ZenithOS.Lib
