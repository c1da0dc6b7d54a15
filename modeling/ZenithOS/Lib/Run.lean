/-
Runs of a partial machine: a step that may have no result (the code does
not come back), and an environment that only issues some operations in
some states.

`runOps step s ops` is the state a list of operations leads to and
`AllowedRun` says that each was allowed where it was issued. The two
rules differ in what they ask of a step: `run_total` asks that every
allowed step comes back, and then whole runs do; `run_preserves` asks
only about steps that do.
-/
import Mathlib.Logic.Basic

namespace ZenithOS.Lib

variable {σ ω : Type _} (step : σ → ω → Option σ) (allowed : σ → ω → Prop)

/-- Issue the operations in order. -/
def runOps (s : σ) : List ω → Option σ
  | [] => some s
  | op :: ops =>
      match step s op with
      | none => none
      | some s' => runOps s' ops

/-- Every operation is allowed in the state it meets. -/
def AllowedRun (s : σ) : List ω → Prop
  | [] => True
  | op :: ops =>
      allowed s op ∧
        match step s op with
        | none => True
        | some s' => AllowedRun s' ops

instance AllowedRun.decidable [∀ s op, Decidable (allowed s op)] :
    ∀ (s : σ) (ops : List ω), Decidable (AllowedRun step allowed s ops)
  | _, [] => isTrue trivial
  | s, op :: ops =>
      match hstep : step s op with
      | none => decidable_of_iff (allowed s op) (by simp [AllowedRun, hstep])
      | some s' =>
          have := AllowedRun.decidable s' ops
          decidable_of_iff (allowed s op ∧ AllowedRun step allowed s' ops)
            (by simp [AllowedRun, hstep])

variable {step allowed} {P : σ → Prop} {s : σ} {ops : List ω}

/-- Where everything is allowed every run is. -/
theorem allowedRun_trivial (s : σ) (ops : List ω) : AllowedRun step (fun _ _ => True) s ops := by
  induction ops generalizing s with
  | nil => trivial
  | cons op ops ih =>
      refine ⟨trivial, ?_⟩
      cases step s op with
      | none => trivial
      | some s' => exact ih s'

/-- What is allowed less often is allowed. -/
theorem AllowedRun.mono {allowed' : σ → ω → Prop} (hsub : ∀ s op, allowed s op → allowed' s op)
    (h : AllowedRun step allowed s ops) : AllowedRun step allowed' s ops := by
  induction ops generalizing s with
  | nil => trivial
  | cons op ops ih =>
      refine ⟨hsub s op h.1, ?_⟩
      have htail := h.2
      cases hs : step s op with
      | none => trivial
      | some s' =>
          rw [hs] at htail
          exact ih htail

/-- What holds of all operations is a condition on the run. -/
theorem AllowedRun.and_forall {p : ω → Prop} {s : σ} {ops : List ω}
    (h : AllowedRun step allowed s ops) (hp : ∀ op ∈ ops, p op) :
    AllowedRun step (fun s op => allowed s op ∧ p op) s ops := by
  induction ops generalizing s with
  | nil => trivial
  | cons op ops ih =>
      obtain ⟨hop, hrest⟩ := List.forall_mem_cons.mp hp
      refine ⟨⟨h.1, hop⟩, ?_⟩
      have htail := h.2
      cases hs : step s op with
      | none => trivial
      | some s' =>
          rw [hs] at htail
          exact ih htail hrest

-- ============================================== one more operation

/-- An invariant whose allowed steps all come back carries every allowed
run to its end. -/
theorem run_total
    (hstep : ∀ s op, P s → allowed s op → ∃ s', step s op = some s' ∧ P s')
    (hinv : P s) (hops : AllowedRun step allowed s ops) :
    ∃ s', runOps step s ops = some s' ∧ P s' := by
  induction ops generalizing s with
  | nil => exact ⟨s, rfl, hinv⟩
  | cons op ops ih =>
      obtain ⟨s', hs', hinv'⟩ := hstep s op hinv hops.1
      have hrest : AllowedRun step allowed s' ops := by
        have htail := hops.2
        rw [hs'] at htail
        exact htail
      obtain ⟨s'', hrun, hinv''⟩ := ih hinv' hrest
      exact ⟨s'', by rw [runOps, hs']; exact hrun, hinv''⟩

/-- An invariant of every allowed step is one of every allowed run. -/
theorem run_preserves
    (hstep : ∀ s op s', P s → allowed s op → step s op = some s' → P s')
    (hinv : P s) (hops : AllowedRun step allowed s ops) {s' : σ}
    (hrun : runOps step s ops = some s') : P s' := by
  induction ops generalizing s with
  | nil =>
      obtain rfl : s = s' := Option.some.inj hrun
      exact hinv
  | cons op ops ih =>
      cases hs : step s op with
      | none => rw [runOps, hs] at hrun; exact absurd hrun (by simp)
      | some t =>
          have htail := hops.2
          rw [runOps, hs] at hrun
          rw [hs] at htail
          exact ih (hstep s op t hinv hops.1 hs) htail hrun

-- =============================================================== progress

section Progress

variable (step) (counted : σ → ω → Prop) [∀ s op, Decidable (counted s op)]

/-- How many operations count where they are issued. -/
def countRun (s : σ) : List ω → Nat
  | [] => 0
  | op :: ops =>
      (if counted s op then 1 else 0) +
        match step s op with
        | none => 0
        | some s' => countRun s' ops

variable {step counted} {goal : σ → Prop} {inv : Nat → σ → Prop} {n : Nat}

/-- Where every step reaches the goal or keeps an invariant that has a
measure, and the steps that count make it smaller, more such steps than
the measure reach the goal. -/
theorem run_reaches
    (hstep : ∀ n s op, inv n s → allowed s op → ∃ s', step s op = some s'
      ∧ (goal s' ∨ ∃ k, k + (if counted s op then 1 else 0) ≤ n ∧ inv k s'))
    (hinv : inv n s) (hops : AllowedRun step allowed s ops)
    (hcount : n < countRun step counted s ops) :
    ∃ ops₁ ops₂ z, ops = ops₁ ++ ops₂ ∧ runOps step s ops₁ = some z ∧ goal z := by
  induction ops generalizing n s with
  | nil => exact absurd hcount (Nat.not_lt_zero n)
  | cons op ops ih =>
      obtain ⟨s', hs', hcases⟩ := hstep n s op hinv hops.1
      have hfirst : runOps step s [op] = some s' := by rw [runOps, hs']; rfl
      have hrest : AllowedRun step allowed s' ops := by
        have htail := hops.2
        rw [hs'] at htail
        exact htail
      rw [countRun, hs'] at hcount
      dsimp only at hcount
      rcases hcases with hgoal | ⟨k, hk, hinv'⟩
      · exact ⟨[op], ops, s', rfl, hfirst, hgoal⟩
      · obtain ⟨ops₁, ops₂, z, rfl, hrun, hgoal⟩ := ih hinv' hrest (by omega)
        refine ⟨op :: ops₁, ops₂, z, rfl, ?_, hgoal⟩
        rw [runOps, hs']
        exact hrun

end Progress

end ZenithOS.Lib
