/-
Byte-addressed memory with little-endian 64-bit words.

Words are natural numbers below 2^64 (`loadWord_lt`); storing reduces
modulo 2^64. Two rules carry every client proof: a load sees the store
to its own address (`loadWord_storeWord`), and does not see a write
whose bytes it does not overlap (`loadWord_congr` and its corollaries).
`fill` and `blit` are the block operations in closed form; the loops
they stand for compute them (`fill_eq_loop`, `blit_eq_loop_from`,
`blit_eq_loop`). They are for blocks inside the address space; `wrapBlit`
writes around its end, as the loop over 64-bit addresses does
(`wrapBlit_eq_loop`).
-/
import ZenithOS.Lib.Loop
import Mathlib.Logic.Function.Basic
import Mathlib.Tactic.NormNum

namespace ZenithOS.Lib

-- ============================================================= words

/-- `a + b` in 64 bits. -/
def wordAdd (a b : Nat) : Nat := (a + b) % 2 ^ 64

/-- `a - b` in 64 bits. -/
def wordSub (a b : Nat) : Nat := (a + (2 ^ 64 - b % 2 ^ 64)) % 2 ^ 64

/-- A sum that fits. -/
theorem wordAdd_eq {a b : Nat} (h : a + b < 2 ^ 64) : wordAdd a b = a + b :=
  Nat.mod_eq_of_lt h

/-- A difference that does not wrap. -/
theorem wordSub_eq {a b : Nat} (h : b ≤ a) (ha : a < 2 ^ 64) : wordSub a b = a - b := by
  unfold wordSub
  omega

-- ============================================================ memory

/-- A byte. -/
abbrev Byte := BitVec 8

/-- One byte per address. -/
abbrev Mem := Nat → Byte

/-- The little-endian word at `a`. -/
def loadWord (m : Mem) (a : Nat) : Nat :=
  (m a).toNat + 2 ^ 8 * (m (a + 1)).toNat + 2 ^ 16 * (m (a + 2)).toNat
    + 2 ^ 24 * (m (a + 3)).toNat + 2 ^ 32 * (m (a + 4)).toNat
    + 2 ^ 40 * (m (a + 5)).toNat + 2 ^ 48 * (m (a + 6)).toNat
    + 2 ^ 56 * (m (a + 7)).toNat

/-- Write the low 64 bits of `v` at `a`. -/
def storeWord (m : Mem) (a v : Nat) : Mem := fun x =>
  if a ≤ x ∧ x < a + 8 then BitVec.ofNat 8 (v / 2 ^ (8 * (x - a))) else m x

/-- Stores one byte. -/
def storeByte (m : Mem) (a : Nat) (b : Byte) : Mem :=
  Function.update m a b

/-- Write `b` to `n` bytes from `a` on. -/
def fill (m : Mem) (a : Nat) (b : Byte) (n : Nat) : Mem := fun x =>
  if a ≤ x ∧ x < a + n then b else m x

/-- Write the first `n` bytes of `src` from `a` on. -/
def blit (m : Mem) (a : Nat) (src : Nat → Byte) (n : Nat) : Mem := fun x =>
  if a ≤ x ∧ x < a + n then src (x - a) else m x

/-- Write the first `n` bytes of `src` from `a` on, around the end of the
address space. -/
def wrapBlit (m : Mem) (a : Nat) (src : Nat → Byte) (n : Nat) : Mem := fun x =>
  if x < 2 ^ 64 ∧ wordSub x a < n then src (wordSub x a) else m x

variable {m m' : Mem} {a b v n : Nat}

-- ============================================================== words

theorem loadWord_lt (m : Mem) (a : Nat) : loadWord m a < 2 ^ 64 := by
  unfold loadWord
  have h := fun i => (m (a + i)).isLt
  have h0 := (m a).isLt
  have h1 := h 1
  have h2 := h 2
  have h3 := h 3
  have h4 := h 4
  have h5 := h 5
  have h6 := h 6
  have h7 := h 7
  omega

/-- A word is its eight bytes. -/
theorem loadWord_congr (heq : ∀ x, a ≤ x → x < a + 8 → m' x = m x) :
    loadWord m' a = loadWord m a := by
  unfold loadWord
  rw [heq a (by omega) (by omega), heq (a + 1) (by omega) (by omega),
    heq (a + 2) (by omega) (by omega), heq (a + 3) (by omega) (by omega),
    heq (a + 4) (by omega) (by omega), heq (a + 5) (by omega) (by omega),
    heq (a + 6) (by omega) (by omega), heq (a + 7) (by omega) (by omega)]

/-- Byte `i` of a stored word. -/
private theorem storeWord_byte (m : Mem) (a v : Nat) {i : Nat} (hi : i < 8) :
    (storeWord m a v (a + i)).toNat = v / 2 ^ (8 * i) % 2 ^ 8 := by
  unfold storeWord
  rw [if_pos (by omega), show a + i - a = i by omega, BitVec.toNat_ofNat]

@[simp] theorem loadWord_storeWord (m : Mem) (a v : Nat) :
    loadWord (storeWord m a v) a = v % 2 ^ 64 := by
  have h := fun i hi => storeWord_byte m a v (i := i) hi
  have h0 := h 0 (by decide)
  unfold loadWord
  rw [h 1 (by decide), h 2 (by decide), h 3 (by decide), h 4 (by decide),
    h 5 (by decide), h 6 (by decide), h 7 (by decide)]
  rw [Nat.add_zero] at h0
  rw [h0]
  norm_num
  omega

theorem storeWord_outside {x : Nat} (hout : x < a ∨ a + 8 ≤ x) :
    storeWord m a v x = m x := by
  unfold storeWord
  rw [if_neg (by omega)]

/-- A store is invisible to a load it does not overlap. -/
theorem loadWord_storeWord_of_disjoint (hsep : b + 8 ≤ a ∨ a + 8 ≤ b) :
    loadWord (storeWord m a v) b = loadWord m b :=
  loadWord_congr fun _ _ _ => storeWord_outside (by omega)

theorem storeByte_self (m : Mem) (a : Nat) (c : Byte) : storeByte m a c a = c :=
  Function.update_self ..

theorem storeByte_of_ne {x : Nat} {c : Byte} (hne : x ≠ a) :
    storeByte m a c x = m x :=
  Function.update_of_ne hne ..

/-- A byte apart from a word leaves it alone. -/
theorem loadWord_storeByte_of_disjoint {c : Byte} (hsep : b + 8 ≤ a ∨ a + 1 ≤ b) :
    loadWord (storeByte m a c) b = loadWord m b :=
  loadWord_congr fun _ _ _ => storeByte_of_ne (by omega)

-- ============================================================= blocks

theorem fill_inside {c : Byte} {x : Nat} (hlo : a ≤ x) (hhi : x < a + n) :
    fill m a c n x = c :=
  if_pos ⟨hlo, hhi⟩

theorem fill_outside {c : Byte} {x : Nat} (hout : x < a ∨ a + n ≤ x) :
    fill m a c n x = m x :=
  if_neg (by omega)

theorem blit_inside {src : Nat → Byte} {x : Nat} (hlo : a ≤ x) (hhi : x < a + n) :
    blit m a src n x = src (x - a) :=
  if_pos ⟨hlo, hhi⟩

theorem blit_outside {src : Nat → Byte} {x : Nat} (hout : x < a ∨ a + n ≤ x) :
    blit m a src n x = m x :=
  if_neg (by omega)

/-- Byte `j` of a block around the end. -/
theorem wrapBlit_byte {src : Nat → Byte} {j : Nat} (hj : j < n) (hn : n ≤ 2 ^ 64) :
    wrapBlit m a src n (wordAdd a j) = src j := by
  have hback : wordSub (wordAdd a j) a = j := by
    unfold wordSub wordAdd
    omega
  unfold wrapBlit
  rw [hback]
  exact if_pos ⟨Nat.mod_lt _ (by decide), hj⟩

theorem wrapBlit_outside {src : Nat → Byte} {x : Nat} (hout : ∀ j < n, x ≠ wordAdd a j) :
    wrapBlit m a src n x = m x := by
  refine if_neg fun ⟨hx, hin⟩ => hout _ hin ?_
  unfold wordSub wordAdd
  omega

/-- Inside the address space the end is not reached. -/
theorem wrapBlit_eq {src : Nat → Byte} (hend : a + n ≤ 2 ^ 64) :
    wrapBlit m a src n = blit m a src n := by
  funext x
  by_cases hx : a ≤ x ∧ x < a + n
  · obtain ⟨j, rfl⟩ := Nat.exists_eq_add_of_le hx.1
    rw [blit_inside hx.1 hx.2, Nat.add_sub_cancel_left]
    have hbyte : wrapBlit m a src n (wordAdd a j) = src j := wrapBlit_byte (by omega) (by omega)
    rwa [wordAdd_eq (by omega)] at hbyte
  · rw [blit_outside (by omega), wrapBlit_outside]
    intro j hj
    rw [wordAdd_eq (by omega)]
    omega

/-- A word inside a zeroed block is zero. -/
theorem loadWord_fill_zero (hlo : a ≤ b) (hhi : b + 8 ≤ a + n) :
    loadWord (fill m a 0#8 n) b = 0 := by
  unfold loadWord
  rw [fill_inside (by omega) (by omega), fill_inside (by omega) (by omega),
    fill_inside (by omega) (by omega), fill_inside (by omega) (by omega),
    fill_inside (by omega) (by omega), fill_inside (by omega) (by omega),
    fill_inside (by omega) (by omega), fill_inside (by omega) (by omega)]
  rfl

/-- Filling leaves words apart alone. -/
theorem loadWord_fill_of_disjoint {c : Byte} (hsep : b + 8 ≤ a ∨ a + n ≤ b) :
    loadWord (fill m a c n) b = loadWord m b :=
  loadWord_congr fun _ _ _ => fill_outside (by omega)

/-- Copying leaves words apart alone. -/
theorem loadWord_blit_of_disjoint {src : Nat → Byte}
    (hsep : b + 8 ≤ a ∨ a + n ≤ b) :
    loadWord (blit m a src n) b = loadWord m b :=
  loadWord_congr fun _ _ _ => blit_outside (by omega)

/-- Copying a block word by word aligned copies its words. -/
theorem loadWord_blit_inside {src : Mem} {s : Nat} (hlo : a ≤ b)
    (hhi : b + 8 ≤ a + n) :
    loadWord (blit m a (fun i => src (s + i)) n) b = loadWord src (s + (b - a)) := by
  unfold loadWord
  have h : ∀ i < 8, blit m a (fun i => src (s + i)) n (b + i)
      = src (s + (b - a) + i) := by
    intro i hi
    rw [blit_inside (by omega) (by omega)]
    congr 1
    omega
  rw [h 1 (by decide), h 2 (by decide), h 3 (by decide), h 4 (by decide),
    h 5 (by decide), h 6 (by decide), h 7 (by decide)]
  rw [show b = b + 0 from rfl, h 0 (by decide)]
  rfl

/-- `blit` is what the byte-by-byte loop computes. -/
theorem blit_eq_loop_from (m : Mem) (a : Nat) (src : Nat → Byte) (n : Nat) :
    blit m a src n = forUp (fun i m => storeByte m (a + i) (src i)) 0 n m := by
  have hloop := forUp_rule (f := fun i m => storeByte m (a + i) (src i))
    (a := 0) (n := n) (s := m) (P := fun i t => t = blit m a src i)
    (by funext x; rw [blit_outside (by omega)])
    (fun i t _ _ hP => by
      subst hP
      funext x
      by_cases hx : x = a + i
      · rw [hx, storeByte_self, blit_inside (by omega) (by omega), Nat.add_sub_cancel_left]
      · rw [storeByte_of_ne hx]
        by_cases hin : a ≤ x ∧ x < a + i
        · rw [blit_inside hin.1 hin.2, blit_inside hin.1 (by omega)]
        · rw [blit_outside (by omega), blit_outside (by omega)])
  rw [hloop, Nat.zero_add]

/-- `wrapBlit` is what the byte-by-byte loop over 64-bit addresses
computes. -/
theorem wrapBlit_eq_loop (m : Mem) (a : Nat) (src : Nat → Byte) (hn : n ≤ 2 ^ 64) :
    wrapBlit m a src n = forUp (fun i m => storeByte m (wordAdd a i) (src i)) 0 n m := by
  have hloop := forUp_rule (f := fun i m => storeByte m (wordAdd a i) (src i))
    (a := 0) (n := n) (s := m) (P := fun i t => t = wrapBlit m a src i)
    (by
      funext x
      rw [wrapBlit_outside]
      intro j hj
      exact absurd hj (Nat.not_lt_zero j))
    (fun i t _ hi hP => by
      subst hP
      funext x
      by_cases hx : x = wordAdd a i
      · rw [hx, storeByte_self, wrapBlit_byte (Nat.lt_succ_self i) (by omega)]
      · rw [storeByte_of_ne hx]
        by_cases hin : ∃ j < i, x = wordAdd a j
        · obtain ⟨j, hj, rfl⟩ := hin
          rw [wrapBlit_byte hj (by omega), wrapBlit_byte (by omega) (by omega)]
        · rw [wrapBlit_outside fun j hj heq => hin ⟨j, hj, heq⟩, wrapBlit_outside]
          intro j hj heq
          rcases Nat.lt_succ_iff_lt_or_eq.mp hj with hlt | rfl
          · exact hin ⟨j, hlt, heq⟩
          · exact hx heq)
  rw [hloop, Nat.zero_add]

/-- `fill` is the copy of one byte. -/
theorem fill_eq_loop (m : Mem) (a : Nat) (c : Byte) (n : Nat) :
    fill m a c n = forUp (fun i m => storeByte m (a + i) c) 0 n m :=
  blit_eq_loop_from m a (fun _ => c) n

/-- `blit` out of the same memory is what the ascending byte-by-byte
loop computes when the two ranges are apart. -/
theorem blit_eq_loop (m : Mem) {d s n : Nat} (hsep : d + n ≤ s ∨ s + n ≤ d) :
    blit m d (fun i => m (s + i)) n
      = forUp (fun i m => storeByte m (d + i) (m (s + i))) 0 n m := by
  have hloop := forUp_rule (f := fun i m => storeByte m (d + i) (m (s + i)))
    (a := 0) (n := n) (s := m)
    (P := fun i t => t = blit m d (fun i => m (s + i)) i)
    (by funext x; rw [blit_outside (by omega)])
    (fun i t _ hi hP => by
      subst hP
      funext x
      by_cases hx : x = d + i
      · rw [hx, storeByte_self, blit_outside (x := s + i) (by omega),
          blit_inside (x := d + i) (by omega) (by omega),
          show d + i - d = i by omega]
      · rw [storeByte_of_ne hx]
        by_cases hin : d ≤ x ∧ x < d + i
        · rw [blit_inside hin.1 hin.2, blit_inside hin.1 (by omega)]
        · rw [blit_outside (by omega), blit_outside (by omega)])
  rw [hloop, Nat.zero_add]

end ZenithOS.Lib
