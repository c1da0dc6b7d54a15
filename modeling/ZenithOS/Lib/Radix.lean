/-
Radix tables: tables of entries indexed by a digit, where an entry of a
table at level `n` may lead to a table one level down. `S f i` is the
entry at digit `i` of table `f`, and `next n e` the table an entry of a
level-`n` table leads to, if any; a walk goes from a root along a list of
digits.

# Two views of a walk

`tableAt` is the table a path leads to and `trail` the entries read on
the way, the last of them being the first that leads nowhere. What a
translation computes is a function of the trail.

# Trees

`Tree ok S n r`: no table is reached from `r` by two paths, among the
paths `ok` singles out (all, or those below some digits of the root).
Then a slot is read by one path position only, so that writing a slot
changes only the walks through it (`Tree.write_other`), and linking a
fresh empty table into an entry that led nowhere adds one table and
lengthens the walks that stopped there (`Tree.link_below`).
-/
import Mathlib.Data.List.Infix

namespace ZenithOS.Lib

variable {F I E : Type _} (next : Nat → E → Option F)

-- ============================================================== the walks

/-- The table at the end of a path of digits. -/
def tableAt (S : F → I → E) : Nat → F → List I → Option F
  | _, f, [] => some f
  | n, f, i :: p =>
      match next n (S f i) with
      | none => none
      | some g => tableAt S (n - 1) g p

/-- The entries read along a path of digits, up to the first that leads
nowhere. -/
def trail (S : F → I → E) : Nat → F → List I → List E
  | _, _, [] => []
  | n, f, i :: p =>
      S f i ::
        match next n (S f i) with
        | none => []
        | some g => trail S (n - 1) g p

variable {next} {S T : F → I → E} {n : Nat} {r f g : F} {i : I} {p q : List I}

/-- A path is walked in two parts. -/
theorem tableAt_append : tableAt next S n r (p ++ q)
    = (tableAt next S n r p).bind fun f => tableAt next S (n - p.length) f q := by
  induction p generalizing n r with
  | nil => simp [tableAt]
  | cons i p ih =>
      cases hnext : next n (S r i) with
      | none => simp [tableAt, hnext]
      | some g =>
          have hlevel : n - 1 - p.length = n - (p.length + 1) := by omega
          simp [tableAt, hnext, ih, hlevel]

/-- The last step of a walk. -/
theorem tableAt_snoc (hp : tableAt next S n r p = some f) :
    tableAt next S n r (p ++ [i]) = next (n - p.length) (S f i) := by
  rw [tableAt_append, hp, Option.bind_some]
  cases hnext : next (n - p.length) (S f i) with
  | none => simp [tableAt, hnext]
  | some g => simp [tableAt, hnext]

/-- A table below is reached through every table above. -/
theorem tableAt_prefix (hpq : p <+: q) (hq : tableAt next S n r q = some g) :
    ∃ f, tableAt next S n r p = some f := by
  obtain ⟨p', rfl⟩ := hpq
  rw [tableAt_append] at hq
  obtain ⟨f, hf, -⟩ := Option.bind_eq_some_iff.mp hq
  exact ⟨f, hf⟩

/-- The trail of a path in two parts. -/
theorem trail_append (hp : tableAt next S n r p = some f) :
    trail next S n r (p ++ q)
      = trail next S n r p ++ trail next S (n - p.length) f q := by
  induction p generalizing n r with
  | nil =>
      obtain rfl : r = f := Option.some.inj hp
      simp [trail]
  | cons i p ih =>
      cases hnext : next n (S r i) with
      | none =>
          rw [tableAt, hnext] at hp
          cases hp
      | some g =>
          rw [tableAt, hnext] at hp
          have hlevel : n - 1 - p.length = n - (p.length + 1) := by omega
          simp [trail, hnext, ih hp, hlevel]

/-- A walk that goes further goes through the same tables. -/
theorem tableAt_mono {next' : Nat → E → Option F}
    (hnext : ∀ n e g, next n e = some g → next' n e = some g)
    (hp : tableAt next S n r p = some f) : tableAt next' S n r p = some f := by
  induction p generalizing n r with
  | nil => exact hp
  | cons i p ih =>
      cases hstep : next n (S r i) with
      | none =>
          rw [tableAt, hstep] at hp
          cases hp
      | some g =>
          rw [tableAt, hstep] at hp
          rw [tableAt, hnext n _ g hstep]
          exact ih hp

/-- A walk that never reaches the end of `p` does not see what follows. -/
theorem trail_append_none (hp : tableAt next S n r p = none) :
    trail next S n r (p ++ q) = trail next S n r p := by
  induction p generalizing n r with
  | nil => cases hp
  | cons i p ih =>
      cases hnext : next n (S r i) with
      | none => simp [trail, hnext]
      | some g =>
          rw [tableAt, hnext] at hp
          simp [trail, hnext, ih hp]

/-- A walk that reaches a table has read one entry for each digit. -/
theorem trail_length (hp : tableAt next S n r p = some f) :
    (trail next S n r p).length = p.length := by
  induction p generalizing n r with
  | nil => rfl
  | cons i p ih =>
      cases hnext : next n (S r i) with
      | none =>
          rw [tableAt, hnext] at hp
          cases hp
      | some g =>
          rw [tableAt, hnext] at hp
          simp [trail, hnext, ih hp]

theorem trail_length_le : (trail next S n r p).length ≤ p.length := by
  induction p generalizing n r with
  | nil => exact Nat.le_refl 0
  | cons i p ih =>
      cases hnext : next n (S r i) with
      | none => simp [trail, hnext]
      | some g => simp [trail, hnext, ih]

/-- Only the slots a walk reads matter. -/
theorem walk_congr
    (h : ∀ q i f, q ++ [i] <+: p → tableAt next S n r q = some f → T f i = S f i) :
    tableAt next T n r p = tableAt next S n r p
      ∧ trail next T n r p = trail next S n r p := by
  induction p generalizing n r with
  | nil => exact ⟨rfl, rfl⟩
  | cons i p ih =>
      have hslot : T r i = S r i := by
        refine h [] i r ?_ rfl
        exact ⟨p, rfl⟩
      cases hnext : next n (S r i) with
      | none => simp [tableAt, trail, hslot, hnext]
      | some g =>
          have hbelow : ∀ q j f, q ++ [j] <+: p → tableAt next S (n - 1) g q = some f →
              T f j = S f j := by
            intro q j f hq hf
            apply h (i :: q) j f
            · exact List.cons_prefix_cons.mpr ⟨rfl, hq⟩
            · simp [tableAt, hnext, hf]
          obtain ⟨htable, htrail⟩ := ih hbelow
          simp [tableAt, trail, hslot, hnext, htable, htrail]

-- =================================================================== trees

/-- A set of paths that holds the paths above each of its members. -/
def Closed (ok : List I → Prop) : Prop :=
  ∀ p q, p <+: q → ok q → ok p

variable {ok : List I → Prop}

/-- No table is reached by two paths of `ok`. -/
def Tree (next : Nat → E → Option F) (ok : List I → Prop) (S : F → I → E) (n : Nat)
    (r : F) : Prop :=
  ∀ p q f, ok p → ok q → tableAt next S n r p = some f →
    tableAt next S n r q = some f → p = q

/-- A table of the tree. -/
def Owned (next : Nat → E → Option F) (ok : List I → Prop) (S : F → I → E) (n : Nat)
    (r f : F) : Prop :=
  ∃ p, ok p ∧ tableAt next S n r p = some f

/-- `T` differs from `S`, among the slots of the tree's tables, at most
in slot `i` of `f`. -/
def WritesAt (next : Nat → E → Option F) (ok : List I → Prop) (S T : F → I → E)
    (n : Nat) (r f : F) (i : I) : Prop :=
  ∀ g j, Owned next ok S n r g → g ≠ f ∨ j ≠ i → T g j = S g j

/-- A slot written at the end of `p` changes only the walks through it. -/
theorem Tree.write_other (htree : Tree next ok S n r) (hok : Closed ok) (hp : ok p)
    (hf : tableAt next S n r p = some f) (hT : WritesAt next ok S T n r f i)
    (hq : ok q) (hno : ¬ p ++ [i] <+: q) :
    tableAt next T n r q = tableAt next S n r q
      ∧ trail next T n r q = trail next S n r q := by
  apply walk_congr
  intro q' j g hpre hg
  have hq' : ok q' := hok q' q ((List.prefix_append q' [j]).trans hpre) hq
  refine hT g j ⟨q', hq', hg⟩ ?_
  by_contra hboth
  rw [not_or, not_not, not_not] at hboth
  obtain ⟨hgf, hji⟩ := hboth
  have hsame : q' = p := htree q' p f hq' hp (hgf ▸ hg) hf
  exact hno (by rw [← hsame, ← hji]; exact hpre)

/-- The table at the end of `p` itself stays where it is. -/
theorem Tree.write_self (htree : Tree next ok S n r) (hok : Closed ok) (hp : ok p)
    (hf : tableAt next S n r p = some f) (hT : WritesAt next ok S T n r f i) :
    tableAt next T n r p = some f ∧ trail next T n r p = trail next S n r p := by
  have hno : ¬ p ++ [i] <+: p := by
    intro hpre
    have hlen := hpre.length_le
    rw [List.length_append, List.length_singleton] at hlen
    omega
  obtain ⟨htable, htrail⟩ := htree.write_other hok hp hf hT hp hno
  exact ⟨htable.trans hf, htrail⟩

/-- Below the slot the walks do not come back to it. -/
theorem Tree.write_below (htree : Tree next ok S n r) (hok : Closed ok) (hp : ok p)
    (hf : tableAt next S n r p = some f) (hT : WritesAt next ok S T n r f i)
    (hq : ok (p ++ [i] ++ q)) (hnext : next (n - p.length) (S f i) = some g) :
    tableAt next T (n - p.length - 1) g q = tableAt next S (n - p.length - 1) g q
      ∧ trail next T (n - p.length - 1) g q = trail next S (n - p.length - 1) g q := by
  have hlevel : n - (p ++ [i]).length = n - p.length - 1 := by
    rw [List.length_append, List.length_singleton]
    omega
  apply walk_congr
  intro q' j h hpre hh
  have hpath : tableAt next S n r (p ++ [i] ++ q') = some h := by
    rw [tableAt_append (p := p ++ [i]), tableAt_snoc hf, hnext, Option.bind_some, hlevel]
    exact hh
  have hok' : ok (p ++ [i] ++ q') := by
    refine hok _ _ ?_ hq
    exact (List.prefix_append_right_inj _).mpr
      ((List.prefix_append q' [j]).trans hpre)
  refine hT h j ⟨_, hok', hpath⟩ (.inl ?_)
  intro hhf
  have hloop := htree _ p f hok' hp (hhf ▸ hpath) hf
  have hlen := congrArg List.length hloop
  simp at hlen

/-- An entry is rewritten without changing where it leads: every walk
keeps its tables. -/
theorem Tree.rewrite_tableAt (htree : Tree next ok S n r) (hok : Closed ok) (hp : ok p)
    (hf : tableAt next S n r p = some f) (hT : WritesAt next ok S T n r f i)
    (hsame : next (n - p.length) (T f i) = next (n - p.length) (S f i)) (hq : ok q) :
    tableAt next T n r q = tableAt next S n r q := by
  by_cases hpre : p ++ [i] <+: q
  · obtain ⟨q', rfl⟩ := hpre
    obtain ⟨hself, -⟩ := htree.write_self hok hp hf hT
    rw [List.append_assoc, tableAt_append, tableAt_append, hself, hf, Option.bind_some,
      Option.bind_some, List.singleton_append, tableAt, tableAt, hsame]
    cases hnext : next (n - p.length) (S f i) with
    | none => rfl
    | some g => exact (htree.write_below hok hp hf hT hq hnext).1
  · exact (htree.write_other hok hp hf hT hq hpre).1

/-- And a walk through it reads the new entry in place of the old. -/
theorem Tree.rewrite_trail (htree : Tree next ok S n r) (hok : Closed ok) (hp : ok p)
    (hf : tableAt next S n r p = some f) (hT : WritesAt next ok S T n r f i)
    (hsame : next (n - p.length) (T f i) = next (n - p.length) (S f i))
    (hq : ok (p ++ [i] ++ q)) :
    ∃ l, trail next S n r (p ++ [i] ++ q) = trail next S n r p ++ S f i :: l
      ∧ trail next T n r (p ++ [i] ++ q) = trail next S n r p ++ T f i :: l := by
  obtain ⟨hself, htrail⟩ := htree.write_self hok hp hf hT
  rw [List.append_assoc, trail_append hself, trail_append hf, htrail,
    List.singleton_append, trail, trail, hsame]
  cases hnext : next (n - p.length) (S f i) with
  | none => exact ⟨[], rfl, rfl⟩
  | some g =>
      dsimp only
      exact ⟨_, rfl, by rw [(htree.write_below hok hp hf hT hq hnext).2]⟩

/-- So the tree stays a tree, with the same tables. -/
theorem Tree.rewrite (htree : Tree next ok S n r) (hok : Closed ok) (hp : ok p)
    (hf : tableAt next S n r p = some f) (hT : WritesAt next ok S T n r f i)
    (hsame : next (n - p.length) (T f i) = next (n - p.length) (S f i)) :
    Tree next ok T n r ∧ ∀ h, Owned next ok T n r h ↔ Owned next ok S n r h := by
  have hwalk := fun q (hq : ok q) => htree.rewrite_tableAt hok hp hf hT hsame hq
  constructor
  · intro p' q' h hp' hq' hh hh'
    rw [hwalk p' hp'] at hh
    rw [hwalk q' hq'] at hh'
    exact htree p' q' h hp' hq' hh hh'
  · intro h
    constructor
    · intro howned
      obtain ⟨p', hp', hh⟩ := howned
      exact ⟨p', hp', by rw [← hwalk p' hp']; exact hh⟩
    · intro howned
      obtain ⟨p', hp', hh⟩ := howned
      exact ⟨p', hp', by rw [hwalk p' hp']; exact hh⟩

-- ======================================================== linking a table

/-- `T` is `S` with the table `g`, empty and new to the tree, linked into
slot `i` of `f`, which led nowhere. -/
structure Links (next : Nat → E → Option F) (ok : List I → Prop) (S T : F → I → E)
    (n : Nat) (r f : F) (p : List I) (i : I) (g : F) : Prop where
  closed : Closed ok
  path : ok (p ++ [i])
  table : tableAt next S n r p = some f
  before : next (n - p.length) (S f i) = none
  after : next (n - p.length) (T f i) = some g
  writes : WritesAt next ok S T n r f i
  new : ¬ Owned next ok S n r g
  empty : ∀ m j, next m (T g j) = none

/-- The way to a link may be used. -/
theorem Links.okPath (h : Links next ok S T n r f p i g) : ok p :=
  h.closed p _ (List.prefix_append p [i]) h.path

/-- The new table is where it was linked. -/
theorem Links.tableAt_new (h : Links next ok S T n r f p i g)
    (htree : Tree next ok S n r) : tableAt next T n r (p ++ [i]) = some g := by
  obtain ⟨hself, -⟩ := htree.write_self h.closed h.okPath h.table h.writes
  rw [tableAt_snoc hself]
  exact h.after

/-- Walks past the link end in the new table. -/
theorem Links.tableAt_below (h : Links next ok S T n r f p i g)
    (htree : Tree next ok S n r) (hq : q ≠ []) :
    tableAt next T n r (p ++ [i] ++ q) = none
      ∧ tableAt next S n r (p ++ [i] ++ q) = none := by
  cases q with
  | nil => exact absurd rfl hq
  | cons j q =>
      constructor
      · rw [tableAt_append (p := p ++ [i]), h.tableAt_new htree, Option.bind_some,
          tableAt, h.empty]
      · rw [tableAt_append (p := p ++ [i]), tableAt_snoc h.table, h.before]
        rfl

/-- The trail of a walk past the link: the rewritten entry, and at most
one entry of the empty table. -/
theorem Links.trail_below (h : Links next ok S T n r f p i g)
    (htree : Tree next ok S n r) (q : List I) :
    trail next S n r (p ++ [i] ++ q) = trail next S n r p ++ [S f i]
      ∧ trail next T n r (p ++ [i] ++ q)
          = trail next S n r p ++ [T f i] ++ (q.head?.map (T g)).toList := by
  obtain ⟨hself, htrail⟩ := htree.write_self h.closed h.okPath h.table h.writes
  constructor
  · rw [List.append_assoc, trail_append h.table, List.singleton_append, trail, h.before]
  · rw [List.append_assoc, trail_append hself, htrail, List.singleton_append, trail,
      h.after, List.append_assoc]
    cases q with
    | nil => rfl
    | cons j q => simp [trail, h.empty]

variable [DecidableEq I]

/-- Every walk of the tree after the link: one more table. -/
theorem Links.tableAt_eq (h : Links next ok S T n r f p i g)
    (htree : Tree next ok S n r) (hq : ok q) :
    tableAt next T n r q
      = if q = p ++ [i] then some g else tableAt next S n r q := by
  split_ifs with heq
  · rw [heq]
    exact h.tableAt_new htree
  · by_cases hpre : p ++ [i] <+: q
    · obtain ⟨q', rfl⟩ := hpre
      have hne : q' ≠ [] := by
        intro hnil
        exact heq (by rw [hnil, List.append_nil])
      obtain ⟨hT, hS⟩ := h.tableAt_below htree hne
      rw [hT, hS]
    · exact (htree.write_other h.closed h.okPath h.table h.writes hq hpre).1

/-- The tree gains the one table and stays a tree. -/
theorem Links.tree (h : Links next ok S T n r f p i g) (htree : Tree next ok S n r) :
    Tree next ok T n r
      ∧ ∀ f', Owned next ok T n r f' ↔ f' = g ∨ Owned next ok S n r f' := by
  have hbefore : tableAt next S n r (p ++ [i]) = none := by
    rw [tableAt_snoc h.table]
    exact h.before
  constructor
  · intro p' q' f' hp' hq' hf hf'
    rw [h.tableAt_eq htree hp'] at hf
    rw [h.tableAt_eq htree hq'] at hf'
    split_ifs at hf hf' with h₁ h₂ h₂
    · rw [h₁, h₂]
    · exact absurd ⟨q', hq', by rw [hf', Option.some.inj hf]⟩ h.new
    · exact absurd ⟨p', hp', by rw [hf, Option.some.inj hf']⟩ h.new
    · exact htree p' q' f' hp' hq' hf hf'
  · intro f'
    constructor
    · intro howned
      obtain ⟨q', hq', hf'⟩ := howned
      rw [h.tableAt_eq htree hq'] at hf'
      split_ifs at hf' with hlink
      · exact .inl (Option.some.inj hf').symm
      · exact .inr ⟨q', hq', hf'⟩
    · intro hor
      cases hor with
      | inl heq => exact ⟨p ++ [i], h.path, by rw [heq]; exact h.tableAt_new htree⟩
      | inr howned =>
          obtain ⟨q', hq', hf'⟩ := howned
          refine ⟨q', hq', ?_⟩
          rw [h.tableAt_eq htree hq', if_neg ?_]
          · exact hf'
          · intro heq
            rw [heq, hbefore] at hf'
            cases hf'

end ZenithOS.Lib
