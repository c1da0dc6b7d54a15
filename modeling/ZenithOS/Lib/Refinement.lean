/-
Refinement of a machine that answers.

A call of the concrete machine gives an answer and the next state, or does
not come back. The abstract machine sees of it a request, or nothing where
the call is none of its business. `runLog` keeps the requests of a run and
what was answered to them.

# The rule

`Simulates` asks of one call that it comes back, keeps a relation between
the states, and answers a request as the abstract machine does. Then every
allowed run comes back, and its log is what the abstract machine answers
to the requests in it (`Simulates.run`).
-/
import ZenithOS.Lib.Run

namespace ZenithOS.Lib

variable {σ τ κ ι ω : Type _}

/-- What a machine answers to requests in order. -/
def answers (serve : τ → ι → ω × τ) (t : τ) : List ι → List ω
  | [] => []
  | i :: is => (serve t i).1 :: answers serve (serve t i).2 is

/-- Where the requests lead it. -/
def served (serve : τ → ι → ω × τ) (t : τ) : List ι → τ
  | [] => t
  | i :: is => served serve (serve t i).2 is

/-- A run with its log. -/
def runLog (call : σ → κ → Option (ω × σ)) (request : σ → κ → Option ι) (s : σ) :
    List κ → Option (List (ι × ω) × σ)
  | [] => some ([], s)
  | k :: ks =>
      match call s k with
      | none => none
      | some (w, s') =>
          (runLog call request s' ks).map fun (log, s'') =>
            ((request s k).elim log fun i => (i, w) :: log, s'')

/-- Every allowed call comes back, and what it answers to a request is
what the abstract machine answers. -/
structure Simulates (call : σ → κ → Option (ω × σ)) (request : σ → κ → Option ι)
    (allowed : σ → κ → Prop) (serve : τ → ι → ω × τ) (rel : σ → τ → Prop) : Prop where
  silent : ∀ s t k, rel s t → allowed s k → request s k = none →
    ∃ w s', call s k = some (w, s') ∧ rel s' t
  answer : ∀ s t k i, rel s t → allowed s k → request s k = some i →
    ∃ s', call s k = some ((serve t i).1, s') ∧ rel s' (serve t i).2

variable {call : σ → κ → Option (ω × σ)} {request : σ → κ → Option ι}
  {allowed : σ → κ → Prop} {serve : τ → ι → ω × τ} {rel : σ → τ → Prop} {s : σ} {t : τ}
  {ks : List κ}

/-- The step of the machine without its answers. -/
def stepOf (call : σ → κ → Option (ω × σ)) (s : σ) (k : κ) : Option σ := (call s k).map Prod.snd

/-- A simulation of single calls is one of runs: the log's answers are the
specification's. -/
theorem Simulates.run (h : Simulates call request allowed serve rel) (hrel : rel s t)
    (hks : AllowedRun (stepOf call) allowed s ks) :
    ∃ log s', runLog call request s ks = some (log, s')
      ∧ log.map Prod.snd = answers serve t (log.map Prod.fst)
      ∧ rel s' (served serve t (log.map Prod.fst)) := by
  induction ks generalizing s t with
  | nil => exact ⟨[], s, rfl, rfl, hrel⟩
  | cons k ks ih =>
      obtain ⟨hk, htail⟩ := hks
      have hrest : ∀ {w s'}, call s k = some (w, s') → AllowedRun (stepOf call) allowed s' ks := by
        intro w s' hcall
        rw [stepOf, hcall] at htail
        exact htail
      cases hrequest : request s k with
      | none =>
          obtain ⟨w, s', hcall, hrel'⟩ := h.silent s t k hrel hk hrequest
          obtain ⟨log, s'', hrun, hlog⟩ := ih hrel' (hrest hcall)
          refine ⟨log, s'', ?_, hlog⟩
          simp only [runLog, hcall, hrun, hrequest, Option.map_some, Option.elim_none]
      | some i =>
          obtain ⟨s', hcall, hrel'⟩ := h.answer s t k i hrel hk hrequest
          obtain ⟨log, s'', hrun, hlog, hend⟩ := ih hrel' (hrest hcall)
          refine ⟨(i, (serve t i).1) :: log, s'', ?_, ?_, hend⟩
          · simp only [runLog, hcall, hrun, hrequest, Option.map_some, Option.elim_some]
          · rw [List.map_cons, List.map_cons, answers, hlog]

end ZenithOS.Lib
