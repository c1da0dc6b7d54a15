/-
Intrusive singly linked queues: nodes that carry one link field, shared
by every queue a node may sit in. A queue is a head pointer; `pushBack`
and `unlink` are the two textbook operations, walking the links.

`Linked next h l` reads the links back: from `h` they visit exactly the
nodes of `l`, in order, and stop. It is functional in `l` and forces `l`
duplicate-free, so a linked queue is acyclic and terminated.

# One link field, many queues

`Queues next head q` is the invariant of a family of such queues over
one link field: each is linked, and no node is in two of them. The rules
at the end (`push`, `remove`, `pop`) say what an operation on one queue
does to the whole family — the others keep their nodes because the
links written belong to nodes they do not have.

The walks take fuel and return `none` when it runs out, that is, when
the links do not end within that many nodes.
-/
import Mathlib.Logic.Function.Basic
import Mathlib.Data.List.Nodup

namespace ZenithOS.Lib

variable {α : Type _}

-- ======================================================== the operations

/-- Walk to the node whose link is empty. -/
def lastFrom (next : α → Option α) : Nat → α → Option α
  | 0, _ => none
  | fuel + 1, a =>
      match next a with
      | none => some a
      | some b => lastFrom next fuel b

/-- The nodes met from `head` on. -/
def membersFrom (next : α → Option α) : Nat → Option α → List α
  | _, none => []
  | 0, some _ => []
  | fuel + 1, some a => a :: membersFrom next fuel (next a)

variable [DecidableEq α]

/-- Walk to the node whose link is `t`; `some none` when the links end
without meeting one. -/
def predFrom (next : α → Option α) (t : α) : Nat → α → Option (Option α)
  | 0, _ => none
  | fuel + 1, a =>
      match next a with
      | none => some none
      | some b => if b = t then some (some a) else predFrom next t fuel b

/-- Append `t` to the queue at `head`; the result is the new links and
the new head. -/
def pushBack (next : α → Option α) (fuel : Nat) (head : Option α) (t : α) :
    Option ((α → Option α) × Option α) :=
  let next := Function.update next t none
  match head with
  | none => some (next, some t)
  | some h =>
      (lastFrom next fuel h).map fun last =>
        (Function.update next last (some t), some h)

/-- Take `t` out of the queue at `head`, if it is there. -/
def unlink (next : α → Option α) (fuel : Nat) (head : Option α) (t : α) :
    Option ((α → Option α) × Option α) :=
  match head with
  | none => some (next, none)
  | some h =>
      if h = t then some (Function.update next t none, next t)
      else
        (predFrom next t fuel h).map fun
          | none => (next, some h)
          | some pred =>
              (Function.update (Function.update next pred (next t)) t none, some h)

-- ==================================================== reading the links

/-- From `h` the links visit exactly `l`, in order, and end. -/
def Linked (next : α → Option α) : Option α → List α → Prop
  | h, [] => h = none
  | h, a :: l => h = some a ∧ Linked next (next a) l

variable {next next' : α → Option α} {h : Option α} {l : List α}

omit [DecidableEq α] in
/-- A walk that is long enough meets what is linked. -/
theorem Linked.membersFrom (hl : Linked next h l) {fuel : Nat} (hfuel : l.length ≤ fuel) :
    membersFrom next fuel h = l := by
  induction l generalizing h fuel with
  | nil =>
      rw [show h = none from hl]
      cases fuel with
      | zero => rfl
      | succ fuel => rfl
  | cons a l ih =>
      obtain ⟨rfl, hrest⟩ := hl
      cases fuel with
      | zero => exact absurd hfuel (Nat.not_succ_le_zero _)
      | succ fuel =>
          rw [Lib.membersFrom, ih hrest (Nat.le_of_succ_le_succ hfuel)]

omit [DecidableEq α] in
/-- Only the links of the nodes visited matter. -/
theorem Linked.congr (hl : Linked next h l) (heq : ∀ a ∈ l, next' a = next a) :
    Linked next' h l := by
  induction l generalizing h with
  | nil => exact hl
  | cons a l ih =>
      refine ⟨hl.1, ?_⟩
      rw [heq a (List.mem_cons_self ..)]
      exact ih hl.2 fun b hb => heq b (List.mem_cons_of_mem _ hb)

omit [DecidableEq α] in
/-- The links determine the list. -/
theorem Linked.unique {l' : List α} (hl : Linked next h l)
    (hl' : Linked next h l') : l = l' := by
  induction l generalizing h l' with
  | nil =>
      cases l' with
      | nil => rfl
      | cons b l' =>
          rw [show h = none from hl] at hl'
          exact absurd hl'.1 (by simp)
  | cons a l ih =>
      obtain ⟨rfl, hrest⟩ := hl
      cases l' with
      | nil => exact absurd (show some a = none from hl') (by simp)
      | cons b l' =>
          obtain ⟨hab, hrest'⟩ := hl'
          obtain rfl : a = b := Option.some.inj hab
          rw [ih hrest hrest']

omit [DecidableEq α] in
/-- One list under two sets of links: they agree on it. -/
theorem Linked.same {h' : Option α} (hl : Linked next h l) (hl' : Linked next' h' l) :
    h' = h ∧ ∀ a ∈ l, next' a = next a := by
  induction l generalizing h h' with
  | nil => exact ⟨Eq.trans hl' (Eq.symm hl), fun a ha => absurd ha List.not_mem_nil⟩
  | cons a l ih =>
      obtain ⟨hnext, hrest⟩ := ih hl.2 hl'.2
      exact ⟨hl'.1.trans hl.1.symm, List.forall_mem_cons.mpr ⟨hnext, hrest⟩⟩

omit [DecidableEq α] in
/-- A linked list continues at each of its nodes. -/
theorem Linked.suffix {l₁ l₂ : List α} {a : α}
    (hl : Linked next h (l₁ ++ a :: l₂)) : Linked next (some a) (a :: l₂) := by
  induction l₁ generalizing h with
  | nil => exact ⟨rfl, hl.2⟩
  | cons b l₁ ih => exact ih hl.2

omit [DecidableEq α] in
/-- Following links that end never returns to a node already visited. -/
theorem Linked.nodup (hl : Linked next h l) : l.Nodup := by
  induction l generalizing h with
  | nil => exact List.nodup_nil
  | cons a l ih =>
      refine List.nodup_cons.mpr ⟨fun hmem => ?_, ih hl.2⟩
      obtain ⟨l₁, l₂, rfl⟩ := List.append_of_mem hmem
      -- the second visit of `a` would start the same list, but shorter
      have hfirst : Linked next (some a) (a :: (l₁ ++ a :: l₂)) := ⟨rfl, hl.2⟩
      have hsame := hfirst.unique (Linked.suffix hl.2)
      have hlen := congrArg List.length hsame
      simp only [List.length_cons, List.length_append] at hlen
      omega

-- ============================================================ the walks

omit [DecidableEq α] in
/-- With n for every node, the walk ends on the last one. -/
theorem Linked.lastFrom_eq {a : α} {n : Nat}
    (hl : Linked next (some a) (a :: l)) (hfuel : (a :: l).length ≤ n) :
    lastFrom next n a = some ((a :: l).getLast (List.cons_ne_nil _ _)) := by
  induction l generalizing a n with
  | nil =>
      obtain ⟨n, rfl⟩ : ∃ f, n = f + 1 := ⟨n - 1, by simp at hfuel; omega⟩
      have hend : next a = none := hl.2
      simp [lastFrom, hend]
  | cons b l ih =>
      obtain ⟨n, rfl⟩ : ∃ f, n = f + 1 := ⟨n - 1, by simp at hfuel; omega⟩
      have hnext : next a = some b := hl.2.1
      have htail := ih (n := n) ⟨rfl, hl.2.2⟩ (by simp at hfuel ⊢; omega)
      simp only [lastFrom, hnext, htail, List.getLast_cons_cons]

/-- The predecessor walk finds the node linking to `t`. -/
theorem Linked.predFrom_eq {l₁ l₂ : List α} {a t : α} {n : Nat}
    (hl : Linked next (some a) (a :: l)) (hlt : a :: l = l₁ ++ t :: l₂)
    (hfirst : l₁ ≠ []) (hfuel : (a :: l).length ≤ n) :
    predFrom next t n a = some (some (l₁.getLast hfirst)) := by
  induction l₁ generalizing a l n with
  | nil => exact absurd rfl hfirst
  | cons c l₁ ih =>
      obtain ⟨rfl, rfl⟩ : a = c ∧ l = l₁ ++ t :: l₂ := by simpa using hlt
      obtain ⟨n, rfl⟩ : ∃ f, n = f + 1 := ⟨n - 1, by simp at hfuel; omega⟩
      cases l₁ with
      | nil =>
          have hnext : next a = some t := hl.2.1
          simp [predFrom, hnext]
      | cons d l₁ =>
          have hnext : next a = some d := hl.2.1
          have hdt : d ≠ t := by
            have hnodup := hl.nodup
            rintro rfl
            simp at hnodup
          have htail := ih (a := d) (l := l₁ ++ t :: l₂) (n := n)
            ⟨rfl, hl.2.2⟩ rfl (List.cons_ne_nil _ _) (by simp at hfuel ⊢; omega)
          simp only [predFrom, hnext, if_neg hdt, htail, List.getLast_cons_cons]

/-- The predecessor walk runs off the end of a queue without `t`. -/
theorem Linked.predFrom_none {a t : α} {n : Nat}
    (hl : Linked next (some a) (a :: l)) (hnot : t ∉ l)
    (hfuel : (a :: l).length ≤ n) : predFrom next t n a = some none := by
  induction l generalizing a n with
  | nil =>
      obtain ⟨n, rfl⟩ : ∃ f, n = f + 1 := ⟨n - 1, by simp at hfuel; omega⟩
      have hend : next a = none := hl.2
      simp [predFrom, hend]
  | cons b l ih =>
      obtain ⟨n, rfl⟩ : ∃ f, n = f + 1 := ⟨n - 1, by simp at hfuel; omega⟩
      have hnext : next a = some b := hl.2.1
      have hbt : b ≠ t := fun heq => hnot (by simp [heq])
      have htail := ih (n := n) ⟨rfl, hl.2.2⟩
        (fun hmem => hnot (List.mem_cons_of_mem _ hmem)) (by simp at hfuel ⊢; omega)
      simp only [predFrom, hnext, if_neg hbt, htail]

-- ====================================================== one queue changes

/-- Linking a fresh node behind the last one appends it. -/
theorem Linked.append {t : α} (hl : Linked next h l) (hne : l ≠ [])
    (hnew : t ∉ l) (hend : next t = none) :
    Linked (Function.update next (l.getLast hne) (some t)) h (l ++ [t]) := by
  induction l generalizing h with
  | nil => exact absurd rfl hne
  | cons a l ih =>
      refine ⟨hl.1, ?_⟩
      cases l with
      | nil =>
          have hta : t ≠ a := fun heq => hnew (by simp [heq])
          simp only [List.getLast_singleton, Function.update_self]
          exact ⟨rfl, by rw [Function.update_of_ne hta]; exact hend⟩
      | cons b l =>
          have hnot : a ≠ (b :: l).getLast (List.cons_ne_nil _ _) := by
            intro heq
            have hnodup := hl.nodup
            rw [List.nodup_cons] at hnodup
            exact hnodup.1 (heq ▸ List.getLast_mem _)
          rw [List.getLast_cons_cons, Function.update_of_ne hnot]
          exact ih hl.2 (List.cons_ne_nil _ _)
            (fun hmem => hnew (List.mem_cons_of_mem _ hmem))

/-- Linking past a node takes it out. -/
theorem Linked.bypass {l₁ l₂ : List α} {t : α}
    (hl : Linked next h (l₁ ++ t :: l₂)) (hfirst : l₁ ≠ []) :
    Linked (Function.update next (l₁.getLast hfirst) (next t)) h (l₁ ++ l₂) := by
  induction l₁ generalizing h with
  | nil => exact absurd rfl hfirst
  | cons a l₁ ih =>
      refine ⟨hl.1, ?_⟩
      have hnodup := hl.nodup
      rw [List.cons_append, List.nodup_cons] at hnodup
      cases l₁ with
      | nil =>
          simp only [List.getLast_singleton, Function.update_self]
          refine Linked.congr hl.2.2 fun b hb => ?_
          refine Function.update_of_ne ?_ ..
          rintro rfl
          exact hnodup.1 (List.mem_cons_of_mem _ hb)
      | cons b l₁ =>
          have hnot : a ≠ (b :: l₁).getLast (List.cons_ne_nil _ _) := by
            intro heq
            refine hnodup.1 (List.mem_append_left _ ?_)
            exact heq ▸ List.getLast_mem _
          rw [List.getLast_cons_cons, Function.update_of_ne hnot]
          exact ih hl.2 (List.cons_ne_nil _ _)

-- =========================================================== the family

variable {ι : Type _} [DecidableEq ι]

/-- A family of queues over one link field: all linked, no node in
two. -/
structure Queues (next : α → Option α) (head : ι → Option α)
    (q : ι → List α) : Prop where
  linked : ∀ k, Linked next (head k) (q k)
  disjoint : ∀ {k k' : ι} {t : α}, t ∈ q k → t ∈ q k' → k = k'

variable {head : ι → Option α} {q : ι → List α} {k : ι} {t : α} {n : Nat}

/-- Rewriting links of nodes of queue `k`, or of nodes in no queue,
keeps the family when queue `k` itself is linked anew. -/
theorem Queues.replace (hq : Queues next head q) {h' : Option α} {l' : List α}
    (hk : Linked next' h' l')
    (hkeep : ∀ a, next' a ≠ next a → ∀ k', a ∈ q k' → k' = k)
    (hnew : ∀ a ∈ l', ∀ k', a ∈ q k' → k' = k) :
    Queues next' (Function.update head k h') (Function.update q k l') := by
  refine ⟨fun k' => ?_, fun {k₁ k₂ a} h₁ h₂ => ?_⟩
  · by_cases hkk : k' = k
    · subst hkk
      rw [Function.update_self, Function.update_self]
      exact hk
    · rw [Function.update_of_ne hkk, Function.update_of_ne hkk]
      refine (hq.linked k').congr fun a ha => ?_
      by_contra hdiff
      exact hkk (hkeep a hdiff k' ha)
  · by_cases hk₁ : k₁ = k
    · by_cases hk₂ : k₂ = k
      · rw [hk₁, hk₂]
      · subst hk₁
        rw [Function.update_self] at h₁
        rw [Function.update_of_ne hk₂] at h₂
        exact absurd (hnew a h₁ k₂ h₂) hk₂
    · rw [Function.update_of_ne hk₁] at h₁
      by_cases hk₂ : k₂ = k
      · subst hk₂
        rw [Function.update_self] at h₂
        exact absurd (hnew a h₂ k₁ h₁) hk₁
      · rw [Function.update_of_ne hk₂] at h₂
        exact hq.disjoint h₁ h₂

/-- Pushing a node that is in no queue appends it to one. -/
theorem Queues.push (hq : Queues next head q) (hfree : ∀ k', t ∉ q k')
    (hfuel : (q k).length ≤ n) :
    ∃ next' h', pushBack next n (head k) t = some (next', h')
      ∧ Queues next' (Function.update head k h')
          (Function.update q k (q k ++ [t])) := by
  have hcut : ∀ k', Linked (Function.update next t none) (head k') (q k') :=
    fun k' => (hq.linked k').congr fun a ha =>
      Function.update_of_ne (by rintro rfl; exact hfree k' ha) _ _
  have hnew : ∀ a ∈ q k ++ [t], ∀ k', a ∈ q k' → k' = k := by
    intro a ha k' hk'
    rcases List.mem_append.mp ha with ha | ha
    · exact hq.disjoint hk' ha
    · obtain rfl : a = t := by simpa using ha
      exact absurd hk' (hfree k')
  cases hl : q k with
  | nil =>
      have hnone : head k = none := by simpa [hl, Linked] using hq.linked k
      refine ⟨_, _, by rw [hnone]; rfl, ?_⟩
      rw [hl] at hnew
      refine hq.replace ⟨rfl, by rw [Function.update_self]; rfl⟩ ?_ hnew
      intro a hdiff k' hk'
      by_cases hat : a = t
      · exact absurd (hat ▸ hk') (hfree k')
      · exact absurd (Function.update_of_ne hat ..) hdiff
  | cons a l =>
      have hcutk := hcut k
      rw [hl] at hcutk
      have hhead : head k = some a := hcutk.1
      have hlast := Linked.lastFrom_eq (n := n) ⟨rfl, hcutk.2⟩
        (by rw [hl] at hfuel; exact hfuel)
      refine ⟨_, _, by rw [hhead]; simp only [pushBack, hlast, Option.map_some]; rfl, ?_⟩
      rw [hl] at hnew
      have htl : t ∉ a :: l := hl ▸ hfree k
      refine hq.replace ?_ ?_ hnew
      · exact hhead ▸ hcutk.append (List.cons_ne_nil _ _) htl (Function.update_self ..)
      · intro b hdiff k' hk'
        by_cases hbt : b = t
        · exact absurd (hbt ▸ hk') (hfree k')
        · by_cases hbl : b = (a :: l).getLast (List.cons_ne_nil _ _)
          · apply hq.disjoint hk'
            rw [hl, hbl]
            exact List.getLast_mem _
          · rw [Function.update_of_ne hbl, Function.update_of_ne hbt] at hdiff
            exact absurd rfl hdiff

/-- Unlinking a node of a queue takes it out of that queue. -/
theorem Queues.remove (hq : Queues next head q) (hmem : t ∈ q k)
    (hfuel : (q k).length ≤ n) :
    ∃ next' h', unlink next n (head k) t = some (next', h')
      ∧ next' t = none
      ∧ Queues next' (Function.update head k h')
          (Function.update q k ((q k).erase t)) := by
  obtain ⟨l₁, l₂, hl⟩ := List.append_of_mem hmem
  have hlinked := hq.linked k
  have hnodup := hlinked.nodup
  rw [hl] at hlinked hnodup
  have htl : t ∉ l₁ ∧ t ∉ l₂ := by
    rw [List.nodup_append] at hnodup
    exact ⟨fun h₁ => hnodup.2.2 t h₁ t (List.mem_cons_self ..) rfl,
      (List.nodup_cons.mp hnodup.2.1).1⟩
  have herase : (q k).erase t = l₁ ++ l₂ := by
    rw [hl, List.erase_append_right _ htl.1, List.erase_cons_head]
  have hnew : ∀ a ∈ l₁ ++ l₂, ∀ k', a ∈ q k' → k' = k := by
    intro a ha k' hk'
    apply hq.disjoint hk'
    rw [hl]
    rcases List.mem_append.mp ha with ha | ha <;> simp [ha]
  rw [herase]
  cases l₁ with
  | nil =>
      obtain ⟨hhead, hrest⟩ := hlinked
      refine ⟨_, _, by rw [hhead, unlink, if_pos rfl], Function.update_self .., ?_⟩
      refine hq.replace ?_ ?_ hnew
      · exact Linked.congr hrest fun a ha =>
          Function.update_of_ne (by rintro rfl; exact htl.2 ha) _ _
      · intro a hdiff k' hk'
        by_cases hat : a = t
        · exact hq.disjoint hk' (hat ▸ hmem)
        · exact absurd (Function.update_of_ne hat ..) hdiff
  | cons a l₁ =>
      have hhead : head k = some a := hlinked.1
      have hat : a ≠ t := fun heq => htl.1 (by simp [heq])
      have hpred := Linked.predFrom_eq (n := n) ⟨rfl, hlinked.2⟩ rfl
        (List.cons_ne_nil a l₁) (by rw [hl] at hfuel; exact hfuel)
      refine ⟨_, _, by rw [hhead, unlink, if_neg hat, hpred]; rfl,
        Function.update_self .., ?_⟩
      rw [← hhead]
      refine hq.replace ?_ ?_ hnew
      · refine Linked.congr (hlinked.bypass (List.cons_ne_nil _ _)) fun b hb => ?_
        refine Function.update_of_ne ?_ ..
        rintro rfl
        rcases List.mem_append.mp hb with hb | hb
        · exact htl.1 hb
        · exact htl.2 hb
      · intro b hdiff k' hk'
        by_cases hbt : b = t
        · exact hq.disjoint hk' (hbt ▸ hmem)
        · rw [Function.update_of_ne hbt] at hdiff
          by_cases hbp : b = (a :: l₁).getLast (List.cons_ne_nil _ _)
          · apply hq.disjoint hk'
            rw [hl]
            exact List.mem_append_left _ (hbp ▸ List.getLast_mem _)
          · exact absurd (Function.update_of_ne hbp ..) hdiff

omit [DecidableEq ι] in
/-- Unlinking a node from a queue it is not in does nothing. -/
theorem Queues.unlink_absent (hq : Queues next head q) (hnot : t ∉ q k)
    (hfuel : (q k).length ≤ n) :
    unlink next n (head k) t = some (next, head k) := by
  have hlinked := hq.linked k
  cases hl : q k with
  | nil =>
      rw [hl] at hlinked
      rw [show head k = none from hlinked]
      rfl
  | cons a l =>
      rw [hl] at hlinked hnot hfuel
      have hhead : head k = some a := hlinked.1
      have hat : a ≠ t := fun heq => hnot (by simp [heq])
      have hpred := Linked.predFrom_none (n := n) ⟨rfl, hlinked.2⟩
        (fun hmem => hnot (List.mem_cons_of_mem _ hmem)) hfuel
      rw [hhead, unlink, if_neg hat, hpred]
      rfl

/-- Popping the first node of a queue. -/
theorem Queues.pop (hq : Queues next head q) {l : List α} (hl : q k = t :: l) :
    head k = some t
      ∧ Queues (Function.update next t none) (Function.update head k (next t))
          (Function.update q k l) := by
  have hlinked := hq.linked k
  have hnodup := hlinked.nodup
  rw [hl] at hlinked hnodup
  refine ⟨hlinked.1, hq.replace ?_ ?_ ?_⟩
  · exact Linked.congr hlinked.2 fun a ha =>
      Function.update_of_ne
        (by rintro rfl; exact (List.nodup_cons.mp hnodup).1 ha) _ _
  · intro a hdiff k' hk'
    by_cases hat : a = t
    · exact hq.disjoint hk' (by rw [hl, hat]; exact List.mem_cons_self ..)
    · exact absurd (Function.update_of_ne hat ..) hdiff
  · intro a ha k' hk'
    exact hq.disjoint hk' (by rw [hl]; exact List.mem_cons_of_mem _ ha)

end ZenithOS.Lib
