/-
Painting over.

A picture has a value at every place, a layer at some. Whoever paints a
layer leaves the value of the layer where it has one, and elsewhere what
was there (`Paints`). One layer after another is the later one over the
earlier (`Paints.comp`), a loop is a stack (`Paints.loop`), and at a
place that one round alone paints it shows that round's layer
(`Paints.loop_at`).
-/
import ZenithOS.Lib.Loop
import Mathlib.Logic.Basic

namespace ZenithOS.Lib

variable {σ κ γ : Type _}

/-- What is painted, and where. -/
abbrev Layer (κ γ : Type _) := κ → Option γ

namespace Layer

/-- Nothing. -/
def clear : Layer κ γ := fun _ => none

/-- One layer on top of another: where the upper has nothing, the lower is
seen. -/
def onto (top bottom : Layer κ γ) : Layer κ γ := fun k => (top k).or (bottom k)

/-- A stack of layers, the uppermost first. -/
def stack (layers : List (Layer κ γ)) : Layer κ γ := layers.foldr onto clear

variable {layers : List (Layer κ γ)} {top bottom : Layer κ γ} {k : κ}

theorem onto_clear (l : Layer κ γ) : l.onto clear = l := by
  funext k
  exact Option.or_none

theorem clear_onto (l : Layer κ γ) : clear.onto l = l := by
  funext k
  exact Option.none_or

/-- Layers may be joined in any order that keeps their own. -/
theorem onto_assoc (a b c : Layer κ γ) : (a.onto b).onto c = a.onto (b.onto c) := by
  funext k
  exact Option.or_assoc

/-- A place shows the first layer that has something there. -/
theorem stack_apply : stack layers k = layers.findSome? fun l => l k := by
  induction layers with
  | nil => rfl
  | cons l layers ih =>
      show (l k).or (stack layers k) = _
      rw [ih, List.findSome?_cons]
      cases l k with
      | none => rfl
      | some v => rfl

/-- A stack upon a stack. -/
theorem stack_append (layers layers' : List (Layer κ γ)) :
    stack (layers ++ layers') = (stack layers).onto (stack layers') := by
  induction layers with
  | nil => exact (clear_onto _).symm
  | cons l layers ih =>
      show l.onto (stack (layers ++ layers')) = (l.onto (stack layers)).onto _
      rw [ih, onto_assoc]

end Layer

variable {view : σ → κ → γ} {l l' : Layer κ γ} {draw draw' : σ → σ}

/-- From any picture the layer over it. -/
def Paints (view : σ → κ → γ) (l : Layer κ γ) (draw : σ → σ) : Prop :=
  ∀ s k, view (draw s) k = (l k).getD (view s k)

theorem Paints.nothing : Paints view Layer.clear fun s => s := fun _ _ => rfl

/-- First one, and then the other over it. -/
theorem Paints.comp (h : Paints view l draw) (h' : Paints view l' draw') :
    Paints view (l'.onto l) fun s => draw' (draw s) := by
  intro s k
  rw [h' (draw s) k, h s k, Layer.onto]
  cases l' k with
  | none => rfl
  | some v => rfl

/-- Painted or not. -/
theorem Paints.ite {p : Prop} [Decidable p] (h : Paints view l draw)
    (h' : Paints view l' draw') :
    Paints view (if p then l else l') fun s => if p then draw s else draw' s := by
  by_cases hp : p
  · simp only [if_pos hp]
    exact h
  · simp only [if_neg hp]
    exact h'

section Loops

variable {layers : Nat → Layer κ γ} {body : Nat → σ → σ} {a n : Nat} {place : κ → Nat}

/-- The rounds of a loop, the last uppermost. -/
theorem Paints.loop (h : ∀ i, a ≤ i → i < a + n → Paints view (layers i) (body i)) :
    Paints view (.stack ((List.range' a n).reverse.map layers)) (forUp body a n) := by
  induction n generalizing a with
  | zero => exact Paints.nothing
  | succ n ih =>
      have hrest := (h a (Nat.le_refl a) (by omega)).comp
        (ih (a := a + 1) fun i hlo hhi => h i (by omega) (by omega))
      rw [List.range'_succ, List.reverse_cons, List.map_append, Layer.stack_append]
      have hlast : Layer.stack [layers a] = layers a := Layer.onto_clear _
      rw [List.map_singleton, hlast]
      exact hrest

/-- Where a place is painted in one round at most. -/
theorem Paints.loop_at (h : ∀ i, a ≤ i → i < a + n → Paints view (layers i) (body i))
    (hone : ∀ i k, place k ≠ i → layers i k = none) :
    Paints view (fun k => if a ≤ place k ∧ place k < a + n then layers (place k) k else none)
      (forUp body a n) := by
  intro s k
  have hinv := forUp_rule (f := body) (a := a) (n := n) (s := s)
    (P := fun i t => view t k
      = (if a ≤ place k ∧ place k < i then layers (place k) k else none).getD (view s k))
    (by rw [if_neg (by omega), Option.getD_none])
    (fun i t hlo hhi ht => by
      rw [h i hlo hhi t k]
      by_cases hi : place k = i
      · rw [ht, if_neg (by omega), if_pos (by omega), hi, Option.getD_none]
      · rw [hone i k hi, Option.getD_none, ht]
        refine congrArg (Option.getD · _) (if_congr ?_ rfl rfl)
        omega)
  exact hinv

end Loops

end ZenithOS.Lib
