/-
Tables of items that each cover some keys, with no key covered twice.

`Exclusive` does not depend on the order of the table, and under it a
search for the item that covers a key has one answer: `find?_eq_some`.
The editing lemmas are about a table cut at one item, `l ++ v :: r`: what
it takes to put the item there, and what a search sees of it.
-/
import Mathlib.Data.List.Basic

namespace ZenithOS.Lib

variable {α κ : Type _} (covers : α → κ → Prop)

/-- The two have no key in common. -/
def Apart (v w : α) : Prop := ∀ a, covers v a → ¬ covers w a

/-- No key is covered by two items. -/
def Exclusive (t : List α) : Prop := t.Pairwise (Apart covers)

variable {covers} {t l r : List α} {v w : α} {a : κ}

theorem Apart.symm (h : Apart covers v w) : Apart covers w v :=
  fun a hw hv => h a hv hw

theorem Exclusive.nil : Exclusive covers [] := List.Pairwise.nil

/-- The order does not matter. -/
theorem Exclusive.perm {t' : List α} (h : Exclusive covers t) (hp : t.Perm t') :
    Exclusive covers t' :=
  hp.pairwise h fun hab => hab.symm

/-- An element of the list against the others. -/
theorem exclusive_middle :
    Exclusive covers (l ++ v :: r)
      ↔ (∀ w ∈ l ++ r, Apart covers v w) ∧ Exclusive covers (l ++ r) := by
  unfold Exclusive
  rw [List.pairwise_middle fun {_ _} hab => hab.symm, List.pairwise_cons]

/-- One less stays exclusive. -/
theorem Exclusive.middle (h : Exclusive covers (l ++ v :: r)) : Exclusive covers (l ++ r) :=
  (exclusive_middle.mp h).2

/-- Two items of the table with a key in common are at the same place. -/
theorem Exclusive.index_eq (h : Exclusive covers t) {i j : Nat} (hi : i < t.length)
    (hj : j < t.length) (hvi : covers t[i] a) (hvj : covers t[j] a) : i = j := by
  have hpair := List.pairwise_iff_getElem.mp h
  rcases Nat.lt_trichotomy i j with hlt | heq | hgt
  · exact absurd hvj (hpair i j hi hj hlt a hvi)
  · exact heq
  · exact absurd hvi (hpair j i hj hi hgt a hvj)

section Search

variable [∀ v a, Decidable (covers v a)]

/-- The search finds the one item that covers the key. -/
theorem Exclusive.find?_eq_some (h : Exclusive covers t) :
    t.find? (fun v => covers v a) = some v ↔ v ∈ t ∧ covers v a := by
  constructor
  · intro hfind
    exact ⟨List.mem_of_find?_eq_some hfind, by simpa using List.find?_some hfind⟩
  · rintro ⟨hmem, hcov⟩
    obtain ⟨l, r, rfl⟩ := List.append_of_mem hmem
    have hapart := (exclusive_middle.mp h).1
    rw [List.find?_append, List.find?_eq_none.mpr, Option.none_or, List.find?_cons_of_pos]
    · exact decide_eq_true hcov
    · intro w hw
      have hnot := hapart w (List.mem_append_left r hw) a hcov
      simpa using hnot

/-- Whatever the order of the table. -/
theorem Exclusive.find?_perm {t' : List α} (h : Exclusive covers t) (hp : t'.Perm t) (a : κ) :
    t'.find? (fun v => covers v a) = t.find? (fun v => covers v a) := by
  apply Option.ext
  intro v
  rw [(h.perm hp.symm).find?_eq_some, h.find?_eq_some, hp.mem_iff]

/-- What does not cover the place is passed over. -/
theorem find?_middle_of_not (hv : ¬ covers v a) :
    (l ++ v :: r).find? (fun v => covers v a) = (l ++ r).find? fun v => covers v a := by
  rw [List.find?_append, List.find?_append, List.find?_cons_of_neg]
  simpa using hv

end Search

end ZenithOS.Lib
