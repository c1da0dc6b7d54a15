/-
Trees of named nodes, and the paths in them.

A tree is given by its links: who is whose child, and what each node is
called. `At path n` says that the names of `path` lead from the root to
`n`. Where no node has two parents and no two siblings have one name
(`Proper`) a path leads to one node and a node has one path.

`Represents` ties such a tree, with something at each node, to what it is
for: a partial function from paths. A new child, and a change at one
node, are updates of the function at one path.
-/
import Mathlib.Logic.Function.Basic

namespace ZenithOS.Lib

/-- The links of a tree. -/
@[ext]
structure PathTree (ι ν : Type _) where
  root : ι
  child : ι → ι → Prop
  name : ι → ν

namespace PathTree

variable {ι ν ε : Type _}

/-- Where a path leads. -/
inductive At (T : PathTree ι ν) : List ν → ι → Prop
  | root : At T [] T.root
  | child {path : List ν} {d c : ι} : At T path d → T.child d c → At T (path ++ [T.name c]) c

/-- A tree: the root is no child, and no node has two parents. -/
structure Proper (T : PathTree ι ν) : Prop where
  root : ∀ d, ¬ T.child d T.root
  parent : ∀ d e c, T.child d c → T.child e c → d = e
  sibling : ∀ d b c, T.child d b → T.child d c → T.name b = T.name c → b = c

variable {T : PathTree ι ν} {path path' : List ν} {n m d c new : ι} {x : ν}

/-- The last step of a path. -/
theorem At.last (h : T.At path n) : path = [] ∧ n = T.root
    ∨ ∃ front d, path = front ++ [T.name n] ∧ T.At front d ∧ T.child d n := by
  cases h with
  | root => exact .inl ⟨rfl, rfl⟩
  | child hd hc => exact .inr ⟨_, _, rfl, hd, hc⟩

/-- A path leads to one node. -/
theorem Proper.node_unique (hT : T.Proper) (h : T.At path n) (h' : T.At path m) : n = m := by
  induction h generalizing m with
  | root =>
      rcases h'.last with ⟨-, rfl⟩ | ⟨front, d, heq, -, -⟩
      · rfl
      · exact absurd heq (by simp)
  | @child path d c _ hc ih =>
      rcases h'.last with ⟨heq, -⟩ | ⟨front, e, heq, he, hm⟩
      · exact absurd heq (by simp)
      · obtain ⟨rfl, hname⟩ := List.append_inj' heq rfl
        obtain rfl := ih he
        exact hT.sibling d c m hc hm (List.cons.inj hname).1

/-- A node is met along one path. -/
theorem Proper.path_unique (hT : T.Proper) (h : T.At path n) (h' : T.At path' n) :
    path = path' := by
  induction h generalizing path' with
  | root =>
      rcases h'.last with ⟨heq, -⟩ | ⟨-, d, -, -, hd⟩
      · exact heq.symm
      · exact absurd hd (hT.root d)
  | @child path d c _ hc ih =>
      rcases h'.last with ⟨-, hroot⟩ | ⟨front, e, heq, he, hm⟩
      · rw [hroot] at hc
        exact absurd hc (hT.root d)
      · obtain rfl := hT.parent d e c hc hm
        rw [heq, ih he]

/-- One name further. -/
theorem Proper.at_snoc (hT : T.Proper) (h : T.At path d) :
    T.At (path ++ [x]) c ↔ T.child d c ∧ T.name c = x := by
  constructor
  · intro hc
    rcases hc.last with ⟨heq, -⟩ | ⟨front, e, heq, he, hchild⟩
    · exact absurd heq (by simp)
    · obtain ⟨rfl, hname⟩ := List.append_inj' heq rfl
      obtain rfl := hT.node_unique h he
      exact ⟨hchild, (List.cons.inj hname).1.symm⟩
  · rintro ⟨hc, rfl⟩
    exact .child h hc

-- ============================================================= a new child

variable [DecidableEq ι]

/-- `d` gets the child `new`, of name `x`. -/
def insert (T : PathTree ι ν) (d new : ι) (x : ν) : PathTree ι ν where
  root := T.root
  child e c := T.child e c ∨ e = d ∧ c = new
  name := Function.update T.name new x

/-- The paths there were, and that of the new node. -/
theorem Proper.at_insert (hT : T.Proper) (hd : T.At path d) (hnew : ∀ p, ¬ T.At p new)
    (hleaf : ∀ c, ¬ T.child new c) :
    (T.insert d new x).At path' n ↔ T.At path' n ∨ path' = path ++ [x] ∧ n = new := by
  have hself : (T.insert d new x).name new = x := Function.update_self ..
  have hother : ∀ {p c}, T.At p c → (T.insert d new x).name c = T.name c :=
    fun hc => Function.update_of_ne (fun heq => hnew _ (heq ▸ hc)) ..
  have hold : ∀ {p c}, T.At p c → (T.insert d new x).At p c := by
    intro p c hc
    induction hc with
    | root => exact .root
    | @child p e c he hc ih =>
        rw [← hother (.child he hc)]
        exact .child ih (.inl hc)
  constructor
  · intro h
    induction h with
    | root => exact .inl .root
    | @child p e c he hc ih =>
        rcases hc with hc | ⟨rfl, rfl⟩
        · rcases ih with hp | ⟨-, rfl⟩
          · rw [hother (.child hp hc)]
            exact .inl (.child hp hc)
          · exact absurd hc (hleaf c)
        · rw [hself]
          rcases ih with hp | ⟨-, rfl⟩
          · rw [hT.path_unique hp hd]
            exact .inr ⟨rfl, rfl⟩
          · exact absurd hd (hnew path)
  · rintro (h | ⟨rfl, rfl⟩)
    · exact hold h
    · have hlast := At.child (hold hd) (show (T.insert d n x).child d n from .inr ⟨rfl, rfl⟩)
      rwa [hself] at hlast

-- =========================================================== what it is for

/-- Each path has what is at its node, and other paths nothing. -/
def Represents (T : PathTree ι ν) (entry : ι → ε) (entries : List ν → Option ε) : Prop :=
  ∀ path e, entries path = some e ↔ ∃ n, T.At path n ∧ entry n = e

variable {entry entry' : ι → ε} {entries : List ν → Option ε} {e : ε}

omit [DecidableEq ι] in
/-- An entry is that of the node. -/
theorem Represents.of_at (h : T.Represents entry entries) (hn : T.At path n) :
    entries path = some (entry n) :=
  (h path _).mpr ⟨n, hn, rfl⟩

omit [DecidableEq ι] in
/-- A path without an entry leads nowhere. -/
theorem Represents.eq_none_iff (h : T.Represents entry entries) :
    entries path = none ↔ ∀ n, ¬ T.At path n := by
  constructor
  · intro hnone n hn
    rw [h.of_at hn] at hnone
    cases hnone
  · intro hnot
    cases hentry : entries path with
    | none => rfl
    | some e =>
        obtain ⟨n, hn, -⟩ := (h path e).mp hentry
        exact absurd hn (hnot n)

omit [DecidableEq ι] in
/-- What matters is what is at the nodes that paths lead to. -/
theorem Represents.congr (h : T.Represents entry entries)
    (hsame : ∀ p n, T.At p n → entry' n = entry n) : T.Represents entry' entries := by
  intro p e
  rw [h p e]
  constructor
  · rintro ⟨n, hn, he⟩
    exact ⟨n, hn, (hsame p n hn).trans he⟩
  · rintro ⟨n, hn, he⟩
    exact ⟨n, hn, (hsame p n hn).symm.trans he⟩

variable [DecidableEq ν]

/-- A change at one node is one of its path. -/
theorem Represents.update (h : T.Represents entry entries) (hT : T.Proper) (hn : T.At path n)
    (e : ε) :
    T.Represents (Function.update entry n e) (Function.update entries path (some e)) := by
  intro p e'
  by_cases hp : p = path
  · rw [hp, Function.update_self, Option.some.injEq]
    constructor
    · rintro rfl
      exact ⟨n, hn, Function.update_self ..⟩
    · rintro ⟨m, hm, he⟩
      rw [hT.node_unique hm hn, Function.update_self] at he
      exact he
  · rw [Function.update_of_ne hp, h p e']
    have hother : ∀ m, T.At p m → Function.update entry n e m = entry m :=
      fun m hm => Function.update_of_ne (fun heq => hp (hT.path_unique hm (by rwa [heq]))) ..
    constructor
    · rintro ⟨m, hm, he⟩
      exact ⟨m, hm, (hother m hm).trans he⟩
    · rintro ⟨m, hm, he⟩
      exact ⟨m, hm, (hother m hm).symm.trans he⟩

/-- A new child is a new path. -/
theorem Represents.insert (h : T.Represents entry entries) (hT : T.Proper) (hd : T.At path d)
    (hnew : ∀ p, ¬ T.At p new) (hleaf : ∀ c, ¬ T.child new c)
    (hfree : ∀ n, ¬ T.At (path ++ [x]) n) (e : ε) :
    (T.insert d new x).Represents (Function.update entry new e)
      (Function.update entries (path ++ [x]) (some e)) := by
  intro p e'
  have hat : ∀ n, (T.insert d new x).At p n ↔ T.At p n ∨ p = path ++ [x] ∧ n = new :=
    fun n => hT.at_insert hd hnew hleaf
  by_cases hp : p = path ++ [x]
  · rw [hp, Function.update_self, Option.some.injEq]
    rw [hp] at hat
    constructor
    · rintro rfl
      exact ⟨new, (hat new).mpr (.inr ⟨rfl, rfl⟩), Function.update_self ..⟩
    · rintro ⟨m, hm, he⟩
      rcases (hat m).mp hm with hm | ⟨-, rfl⟩
      · exact absurd hm (hfree m)
      · rw [Function.update_self] at he
        exact he
  · rw [Function.update_of_ne hp, h p e']
    have hother : ∀ m, T.At p m → Function.update entry new e m = entry m :=
      fun m hm => Function.update_of_ne (fun heq => hnew p (by rwa [← heq])) ..
    constructor
    · rintro ⟨m, hm, he⟩
      exact ⟨m, (hat m).mpr (.inl hm), (hother m hm).trans he⟩
    · rintro ⟨m, hm, he⟩
      rcases (hat m).mp hm with hm | ⟨heq, -⟩
      · exact ⟨m, hm, (hother m hm).symm.trans he⟩
      · exact absurd heq hp

end PathTree

end ZenithOS.Lib
