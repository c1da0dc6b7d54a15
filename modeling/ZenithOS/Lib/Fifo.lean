/-
A queue whose members are served in order.

One step either lets members arrive at the end of the queue, or takes the
first member into service; whoever was in service before may go back to
the end. `Serves` is that step, for a queue that is also empty at times
and then served by nobody or a substitute (`idle`).

Along a run of such steps nobody overtakes: of two members the one ahead
is in service before the other is (`Fifo.no_overtaking`).
-/
import ZenithOS.Lib.Run
import Mathlib.Data.List.Nodup

namespace ZenithOS.Lib

variable {α σ ω : Type _}

/-- A step from `queue` and `cur` in service to `queue'` and `cur'`, in
which `back` goes back to the end. -/
inductive Serves (idle : Option α) (back : List α) (cur cur' : Option α)
    (queue queue' : List α) : Prop
  | stays (arrivals : List α) (hqueue : queue' = queue ++ arrivals) (hcur : cur' = cur)
  | idles (hback : back = []) (hempty : queue = []) (hqueue : queue' = []) (hcur : cur' = idle)
  | switches (arrivals : List α) (next : α) (rest : List α)
      (hnext : queue ++ arrivals = next :: rest) (hqueue : queue' = rest ++ back)
      (hcur : cur' = some next)

/-- `a` is ahead of `b` in the queue. -/
def Ahead (a b : α) (queue : List α) : Prop :=
  ∃ front rest, queue = front ++ a :: rest ∧ b ∈ rest

variable {idle cur cur' : Option α} {back queue queue' arrivals : List α} {a b t : α}

/-- Both are in the queue. -/
theorem Ahead.mem (h : Ahead a b queue) : a ∈ queue ∧ b ∈ queue := by
  obtain ⟨front, rest, rfl, hb⟩ := h
  exact ⟨List.mem_append_right _ List.mem_cons_self,
    List.mem_append_right _ (List.mem_cons_of_mem _ hb)⟩

/-- Arrivals overtake nobody. -/
theorem Ahead.append (h : Ahead a b queue) (arrivals : List α) :
    Ahead a b (queue ++ arrivals) := by
  obtain ⟨front, rest, rfl, hb⟩ := h
  refine ⟨front, rest ++ arrivals, ?_, List.mem_append_left _ hb⟩
  rw [List.append_assoc, List.cons_append]

/-- The first of a queue is `a`, or `a` stays ahead when it leaves; it is
not `b`. -/
theorem Ahead.tail (h : Ahead a b (t :: queue)) (hnodup : (t :: queue).Nodup) :
    t ≠ b ∧ (t = a ∨ Ahead a b queue) := by
  obtain ⟨front, rest, hsplit, hb⟩ := h
  cases front with
  | nil =>
      injection hsplit with hhead htail
      refine ⟨?_, .inl hhead⟩
      intro heq
      apply (List.nodup_cons.mp hnodup).1
      rw [htail, heq]
      exact hb
  | cons u front =>
      injection hsplit with hhead htail
      refine ⟨?_, .inr ⟨front, rest, htail, hb⟩⟩
      intro heq
      apply (List.nodup_cons.mp hnodup).1
      rw [htail, heq]
      exact List.mem_append_right _ (List.mem_cons_of_mem _ hb)

/-- In one step `b` does not come into service, and `a` does or stays
ahead. -/
theorem Serves.ahead (h : Serves idle back cur cur' queue queue') (hahead : Ahead a b queue)
    (hnodup : queue.Nodup) (hcur : ∀ t ∈ queue, cur ≠ some t) :
    cur' ≠ some b ∧ (cur' = some a ∨ Ahead a b queue') := by
  cases h with
  | stays arrivals hqueue hsame =>
      rw [hsame, hqueue]
      exact ⟨hcur b hahead.mem.2, .inr (hahead.append arrivals)⟩
  | idles _ hempty =>
      rw [hempty] at hahead
      cases hahead.mem.1
  | switches arrivals next rest hnext hqueue hserved =>
      cases queue with
      | nil => cases hahead.mem.1
      | cons t queue =>
          injection hnext with hhead hrest
          obtain ⟨hne, hcases⟩ := hahead.tail hnodup
          rw [hserved, ← hhead]
          refine ⟨fun heq => hne (Option.some.inj heq), ?_⟩
          cases hcases with
          | inl heq => exact .inl (congrArg some heq)
          | inr htail =>
              rw [hqueue, ← hrest]
              exact .inr ((htail.append arrivals).append back)

/-- The arrivals of a first part of the step. -/
theorem Serves.arrived (h : Serves idle back cur cur' (queue ++ arrivals) queue') :
    Serves idle back cur cur' queue queue' := by
  cases h with
  | stays more hqueue hcur =>
      exact .stays (arrivals ++ more) (by rw [hqueue, List.append_assoc]) hcur
  | idles hback hempty hqueue hcur =>
      exact .idles hback (List.append_eq_nil_iff.mp hempty).1 hqueue hcur
  | switches more next rest hnext hqueue hcur =>
      exact .switches (arrivals ++ more) next rest (by rw [← List.append_assoc, hnext]) hqueue hcur

/-- Whoever goes back is behind everyone who was in the queue. -/
theorem Serves.behind (h : Serves idle [t] cur cur' queue queue') (hcur : cur = some t) :
    cur' = some t
      ∨ ∃ front, queue' = front ++ [t] ∧ ∀ u ∈ queue, cur' = some u ∨ u ∈ front := by
  cases h with
  | stays _ _ hsame => exact .inl (hsame.trans hcur)
  | idles hback => cases hback
  | switches arrivals next rest hnext hqueue hserved =>
      refine .inr ⟨rest, hqueue, ?_⟩
      intro u hu
      have hmem : u ∈ next :: rest := hnext ▸ List.mem_append_left arrivals hu
      cases List.mem_cons.mp hmem with
      | inl heq => exact .inl (by rw [hserved, heq])
      | inr hrest => exact .inr hrest

/-- Who waits at a place moves up by one when somebody else comes into
service, and keeps the place when nobody does. -/
theorem Serves.place (h : Serves idle back cur cur' queue queue') {i : Nat}
    (hi : queue[i]? = some b) (hcur : ∀ t ∈ queue, cur ≠ some t) :
    cur' = cur ∧ queue'[i]? = some b
      ∨ cur' ≠ cur ∧ (cur' = some b ∨ ∃ k, i = k + 1 ∧ queue'[k]? = some b) := by
  have hlt : i < queue.length := (List.getElem?_eq_some_iff.mp hi).1
  cases h with
  | stays arrivals hqueue hsame =>
      refine .inl ⟨hsame, ?_⟩
      rw [hqueue, List.getElem?_append_left hlt, hi]
  | idles _ hempty =>
      rw [hempty] at hlt
      exact absurd hlt (Nat.not_lt_zero i)
  | switches arrivals next rest hnext hqueue hserved =>
      cases queue with
      | nil => exact absurd hlt (Nat.not_lt_zero i)
      | cons t queue =>
          injection hnext with hhead hrest
          refine .inr ⟨?_, ?_⟩
          · rw [hserved, ← hhead]
            exact (hcur t List.mem_cons_self).symm
          · cases i with
            | zero =>
                rw [List.getElem?_cons_zero] at hi
                exact .inl (by rw [hserved, ← hhead, hi])
            | succ k =>
                rw [List.getElem?_cons_succ] at hi
                have hk : k < queue.length := (List.getElem?_eq_some_iff.mp hi).1
                refine .inr ⟨k, rfl, ?_⟩
                rw [hqueue, ← hrest]
                show (queue ++ arrivals ++ back)[k]? = some b
                rw [List.append_assoc, List.getElem?_append_left hk, hi]

-- =================================================================== runs

/-- A machine with a queue that is served in order. `view s queue` says
what the queue of `s` is. -/
structure Fifo (step : σ → ω → Option σ) (allowed : σ → ω → Prop) (cur : σ → Option α)
    (view : σ → List α → Prop) : Prop where
  nodup : ∀ s queue, view s queue → queue.Nodup
  waiting : ∀ s queue, view s queue → ∀ t ∈ queue, cur s ≠ some t
  serves : ∀ s queue op, view s queue → allowed s op →
    ∃ s' queue' idle back, step s op = some s' ∧ view s' queue'
      ∧ Serves idle back (cur s) (cur s') queue queue'

/-- Before `b` is in service, `a` is. -/
theorem Fifo.no_overtaking {step : σ → ω → Option σ} {allowed : σ → ω → Prop}
    {cur : σ → Option α} {view : σ → List α → Prop} (h : Fifo step allowed cur view) {s s' : σ}
    {ops : List ω} (hview : view s queue) (hahead : Ahead a b queue)
    (hops : AllowedRun step allowed s ops) (hrun : runOps step s ops = some s')
    (hb : cur s' = some b) :
    ∃ ops₁ ops₂ z, ops = ops₁ ++ ops₂ ∧ ops₂ ≠ [] ∧ runOps step s ops₁ = some z
      ∧ cur z = some a := by
  induction ops generalizing s queue with
  | nil =>
      cases hrun
      exact absurd hb (h.waiting _ queue hview b hahead.mem.2)
  | cons op ops ih =>
      obtain ⟨s₁, queue₁, idle, back, hstep, hview₁, hserves⟩ := h.serves s queue op hview hops.1
      obtain ⟨hnot, hcases⟩ := hserves.ahead hahead (h.nodup s queue hview)
        (h.waiting s queue hview)
      have hrest : runOps step s₁ ops = some s' := by
        rw [runOps, hstep] at hrun
        exact hrun
      have hfirst : runOps step s [op] = some s₁ := by
        rw [runOps, hstep]
        rfl
      cases hcases with
      | inl ha =>
          refine ⟨[op], ops, s₁, rfl, ?_, hfirst, ha⟩
          intro hnil
          rw [hnil] at hrest
          cases hrest
          exact hnot hb
      | inr hahead₁ =>
          have hallowed : AllowedRun step allowed s₁ ops := by
            have htail := hops.2
            rw [hstep] at htail
            exact htail
          obtain ⟨ops₁, ops₂, z, hsplit, hne, hrun₁, ha⟩ := ih hview₁ hahead₁ hallowed hrest
          refine ⟨op :: ops₁, ops₂, z, by rw [hsplit, List.cons_append], hne, ?_, ha⟩
          rw [runOps, hstep]
          exact hrun₁

end ZenithOS.Lib
