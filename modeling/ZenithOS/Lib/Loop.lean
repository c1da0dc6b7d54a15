/-
Counted loops. `forUp body start n` is the C loop
`for (i = start; i < start + n; i++) body(i)` as a state transformer,
and `forUp_rule` is its loop-invariant rule; everything a client proves
about such a loop goes through the rule or through one of its two
corollaries: a property every iteration keeps (`forUp_preserves`), and
a loop each of whose iterations settles its own index and leaves the
others alone (`forUp_each`; `forUp_grid` for two nested loops).
`forDown` is the loop that counts down, with `forDown_rule`.
-/
import Mathlib.Data.Nat.Init

namespace ZenithOS.Lib

variable {σ : Type _}

/-- Run `body` on `start`, `start + 1`, …, `start + n - 1`, in order. -/
def forUp (body : Nat → σ → σ) : Nat → Nat → σ → σ
  | _, 0, s => s
  | start, n + 1, s => forUp body (start + 1) n (body start s)

/-- Run `body` on `n - 1`, …, `1`, `0`, in order:
`for (i = n; i > 0; i--) body(i - 1)`. -/
def forDown (body : Nat → σ → σ) : Nat → σ → σ
  | 0, s => s
  | n + 1, s => forDown body n (body n s)

-- ============================================================= the rule

/-- The invariant rule: a property indexed by the loop counter that
holds on entry and is carried by each iteration holds on exit. -/
theorem forUp_rule {f : Nat → σ → σ} {P : Nat → σ → Prop}
    {a n : Nat} {s : σ} (hinit : P a s)
    (hstep : ∀ i t, a ≤ i → i < a + n → P i t → P (i + 1) (f i t)) :
    P (a + n) (forUp f a n s) := by
  induction n generalizing a s with
  | zero => exact hinit
  | succ n ih =>
      have hnext := hstep a s (Nat.le_refl _) (by omega) hinit
      have htail := ih (a := a + 1) hnext
        fun i t hlo hhi hP => hstep i t (by omega) (by omega) hP
      rw [show a + (n + 1) = a + 1 + n by omega]
      exact htail

/-- A property every iteration keeps is kept by the loop. -/
theorem forUp_preserves {f : Nat → σ → σ} {P : σ → Prop}
    {a n : Nat} {s : σ} (hinit : P s)
    (hstep : ∀ i t, a ≤ i → i < a + n → P t → P (f i t)) :
    P (forUp f a n s) :=
  forUp_rule (P := fun _ => P) hinit hstep

/-- A loop whose iteration `i` decides observation `i` and leaves the
others alone: afterwards exactly the loop's indices read as decided. -/
theorem forUp_each {f : Nat → σ → σ} {β : Type _} {g : σ → Nat → β}
    {v : Nat → β} {a n : Nat} {s : σ}
    (hhit : ∀ i t, a ≤ i → i < a + n →
      (∀ j, i ≤ j → g t j = g s j) → g (f i t) i = v i)
    (hmiss : ∀ i t j, a ≤ i → i < a + n → j ≠ i →
      g (f i t) j = g t j) (j : Nat) :
    g (forUp f a n s) j
      = if a ≤ j ∧ j < a + n then v j else g s j := by
  have hloop := forUp_rule (f := f) (a := a) (n := n) (s := s)
    (P := fun k t => ∀ j, g t j
      = if a ≤ j ∧ j < k then v j else g s j)
    (fun j => by rw [if_neg (by omega)])
    (fun i t hlo hhi hP j => by
      by_cases hji : j = i
      · subst hji
        rw [if_pos ⟨hlo, by omega⟩]
        exact hhit j t hlo hhi fun k hk => by rw [hP k, if_neg (by omega)]
      · rw [hmiss i t j hlo hhi hji, hP j]
        by_cases hin : a ≤ j ∧ j < i
        · rw [if_pos hin, if_pos ⟨hin.1, by omega⟩]
        · rw [if_neg hin, if_neg (by omega)])
  exact hloop j

/-- Bodies that agree on the indices of the loop. -/
theorem forUp_congr {f g : Nat → σ → σ} {a n : Nat} (h : ∀ i, a ≤ i → i < a + n → f i = g i)
    (s : σ) : forUp f a n s = forUp g a n s := by
  induction n generalizing a s with
  | zero => rfl
  | succ n ih =>
      unfold forUp
      rw [h a (Nat.le_refl a) (by omega)]
      exact ih (fun i hlo hhi => h i (by omega) (by omega)) (g a s)

/-- A loop from `k` on is one from 0 with `k` added. -/
theorem forUp_add (f : Nat → σ → σ) (k a n : Nat) (s : σ) :
    forUp f (k + a) n s = forUp (fun i => f (k + i)) a n s := by
  induction n generalizing a s with
  | zero => rfl
  | succ n ih => exact ih (a + 1) (f (k + a) s)

/-- Two nested loops whose body decides the cell of the two counters and
leaves the others alone. -/
theorem forUp_grid {f : Nat → Nat → σ → σ} {β : Type _} {g : σ → Nat → Nat → β}
    {v : Nat → Nat → β} {a n b k : Nat} {s : σ}
    (hhit : ∀ y x t, b ≤ y → y < b + k → a ≤ x → x < a + n → g (f y x t) y x = v y x)
    (hmiss : ∀ y x t j i, b ≤ y → y < b + k → a ≤ x → x < a + n → (j ≠ y ∨ i ≠ x) →
      g (f y x t) j i = g t j i) (j i : Nat) :
    g (forUp (fun y => forUp (f y) a n) b k s) j i
      = if (b ≤ j ∧ j < b + k) ∧ a ≤ i ∧ i < a + n then v j i else g s j i := by
  -- a row
  have hrow : ∀ y t, b ≤ y → y < b + k → ∀ j i, g (forUp (f y) a n t) j i
      = if j = y ∧ a ≤ i ∧ i < a + n then v y i else g t j i := by
    intro y t hlo hhi j i
    by_cases hj : j = y
    · subst hj
      have hline := forUp_each (f := f j) (g := fun t => g t j) (v := v j) (a := a) (n := n)
        (s := t) (fun x t hx hx' _ => hhit j x t hlo hhi hx hx')
        (fun x t i hx hx' hne => hmiss j x t j i hlo hhi hx hx' (.inr hne)) i
      rw [hline]
      simp
    · rw [if_neg fun h => hj h.1]
      refine forUp_preserves (P := fun u => g u j i = g t j i) rfl fun x u hx hx' hu => ?_
      rw [hmiss y x u j i hlo hhi hx hx' (.inl hj), hu]
  -- the rows
  have hrows := forUp_each (f := fun y => forUp (f y) a n) (g := g)
    (v := fun y i => if a ≤ i ∧ i < a + n then v y i else g s y i) (a := b) (n := k) (s := s)
    (fun y t hlo hhi hrest => by
      funext i
      rw [hrow y t hlo hhi, hrest y (Nat.le_refl y)]
      simp)
    (fun y t j hlo hhi hne => by
      funext i
      rw [hrow y t hlo hhi, if_neg fun h => hne h.1]) j
  rw [hrows]
  by_cases hj : b ≤ j ∧ j < b + k
  · simp [hj]
  · rw [if_neg hj, if_neg fun h => hj h.1]

/-- The invariant rule of the loop that counts down. -/
theorem forDown_rule {f : Nat → σ → σ} {P : Nat → σ → Prop} {n : Nat} {s : σ} (hinit : P n s)
    (hstep : ∀ i t, i < n → P (i + 1) t → P i (f i t)) : P 0 (forDown f n s) := by
  induction n generalizing s with
  | zero => exact hinit
  | succ n ih =>
      exact ih (hstep n s (Nat.lt_succ_self n) hinit)
        fun i t hi hP => hstep i t (Nat.lt_succ_of_lt hi) hP

end ZenithOS.Lib
