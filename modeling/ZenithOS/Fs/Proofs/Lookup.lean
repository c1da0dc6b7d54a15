/-
Path resolution.

What a path means is said without the tokenizer: its `components` are
what stands between its slashes, and `Resolves` descends from a node one
component at a time. `pathNextComponent_spec` ties one round of the
tokenizer to the components, and `vfsLookupFrom_resolves` the loop of
`vfs_lookup` to the descent.
-/
import ZenithOS.Fs.Vfs
import ZenithOS.Fs.Proofs.Tree
import Mathlib.Data.List.TakeWhile

namespace ZenithOS.Fs

open Lib Klib Mm Vmm

/-- What stands between the slashes of a path. -/
def components (path : List Byte) : List (List Byte) :=
  ((cString path).splitOn slash).filter (· ≠ [])

/-- The descent from a node: the code and the node reached. -/
inductive Resolves (nodes : Nat → RamfsNode) :
    Nat → List (List Byte) → Int → Option Nat → Prop
  | here {n : Nat} : Resolves nodes n [] kernelSuccess (some n)
  | descend {n c : Nat} {name : List Byte} {names : List (List Byte)} {rc : Int}
      {result : Option Nat} : name.length ≤ 63 → IsChild nodes n c → nodeName nodes c = name →
      Resolves nodes c names rc result → Resolves nodes n (name :: names) rc result
  | tooLong {n : Nat} {name : List Byte} {names : List (List Byte)} : 63 < name.length →
      Resolves nodes n (name :: names) kernelEinval none
  | missing {n : Nat} {name : List Byte} {names : List (List Byte)} : name.length ≤ 63 →
      (∀ c, IsChild nodes n c → nodeName nodes c ≠ name) →
      Resolves nodes n (name :: names) kernelEnoent none

variable {nodes : Nat → RamfsNode} {tree : List Nat} {v : Vfs} {n c : Nat}
  {path p w rest : List Byte}

-- ============================================================== components

/-- A leading slash changes no component. -/
theorem components_slash (p : List Byte) : components (slash :: p) = components p := by
  have hne : slash ≠ 0#8 := by decide
  unfold components
  rw [cString_cons hne, List.splitOn_cons_eq_if_modifyHead, if_pos (by rfl),
    List.filter_cons_of_neg (by simp)]

/-- Nor do several. -/
theorem components_skipSlashes (p : List Byte) : components (skipSlashes p) = components p := by
  induction p with
  | nil => rfl
  | cons c p ih =>
      rw [skipSlashes]
      by_cases hc : c = slash
      · rw [if_pos hc, ih, hc, components_slash]
      · rw [if_neg hc]

/-- A character of a component. -/
def isComponentChar (c : Byte) : Bool := c ≠ slash ∧ c ≠ 0#8

/-- A word and where it ends. -/
theorem components_word (hw : w ≠ []) (hchars : ∀ c ∈ w, isComponentChar c = true)
    (hrest : isComponentChar (rest.headD 0#8) = false) :
    components (w ++ rest) = w :: components rest := by
  have hslash : slash ∉ w := fun h => by
    have hc := hchars _ h
    simp [isComponentChar] at hc
  have hword : ∀ tail, cString (w ++ tail) = w ++ cString tail := by
    intro tail
    refine List.takeWhile_append_of_pos fun c hc => ?_
    have hchar := hchars c hc
    simp only [isComponentChar, decide_eq_true_eq] at hchar
    simpa using hchar.2
  have hsingle : (w.splitOn slash).filter (· ≠ []) = [w] := by
    rw [List.splitOn_eq_singleton hslash, List.filter_cons_of_pos (by simpa using hw),
      List.filter_nil]
  have hend : cString rest = [] → components (w ++ rest) = w :: components rest := by
    intro hnil
    rw [components, components, hword, hnil, List.append_nil, hsingle]
    rfl
  cases rest with
  | nil => exact hend rfl
  | cons c rest =>
      by_cases hc : c = 0#8
      · exact hend (by rw [hc, cString_zero])
      · have hsep : c = slash := by
          simpa [isComponentChar, hc] using hrest
        rw [hsep, components_slash, components, hword, cString_cons (by decide),
          List.splitOn_append_cons_self_of_not_mem hslash, components,
          List.filter_cons_of_pos (by simpa using hw)]

-- =============================================================== tokenizer

/-- A component is copied up to the next slash if it fits, and else refused.
-/
theorem copyComponent_eq (p acc : List Byte) (hacc : acc.length ≤ 63) :
    copyComponent p acc
      = if acc.length + (p.takeWhile isComponentChar).length ≤ 63 then
          some (acc ++ p.takeWhile isComponentChar, p.dropWhile isComponentChar)
        else none := by
  induction p generalizing acc with
  | nil => simp [copyComponent, hacc]
  | cons c p ih =>
      rw [copyComponent]
      by_cases hc : c ≠ slash ∧ c ≠ 0#8
      · have hchar : isComponentChar c = true := by simpa [isComponentChar] using hc
        rw [if_pos hc, List.takeWhile_cons_of_pos hchar, List.dropWhile_cons_of_pos hchar,
          List.length_cons]
        by_cases hfull : acc.length ≥ vfsMaxComponentLen - 1
        · have hlen : 63 ≤ acc.length := hfull
          rw [if_pos hfull, if_neg (by omega)]
        · have hlen : acc.length < 63 := Nat.lt_of_not_le hfull
          have hstep : (acc ++ [c]).length = acc.length + 1 := by simp
          rw [if_neg hfull, ih _ (by omega), hstep, List.append_assoc, List.singleton_append]
          congr 1
          exact propext ⟨fun h => by omega, fun h => by omega⟩
      · have hchar : isComponentChar c = false := by
          simpa [isComponentChar] using hc
        rw [if_neg hc, List.takeWhile_cons_of_neg (by simp [hchar]),
          List.dropWhile_cons_of_neg (by simp [hchar]), List.append_nil, List.length_nil,
          if_pos (by omega)]

theorem length_skipSlashes_le (p : List Byte) : (skipSlashes p).length ≤ p.length := by
  induction p with
  | nil => exact Nat.le_refl _
  | cons c p ih =>
      rw [skipSlashes]
      by_cases hc : c = slash
      · rw [if_pos hc, List.length_cons]
        omega
      · rw [if_neg hc]

/-- No slash is left at the front. -/
theorem skipSlashes_head (p : List Byte) : (skipSlashes p).headD 0#8 ≠ slash := by
  induction p with
  | nil => decide
  | cons c p ih =>
      rw [skipSlashes]
      by_cases hc : c = slash
      · rw [if_pos hc]
        exact ih
      · rw [if_neg hc]
        exact hc

/-- One round of the tokenizer. -/
theorem pathNextComponent_spec (path : List Byte) :
    (pathNextComponent path = .finished ∧ components path = [])
      ∨ (∃ name names, pathNextComponent path = .tooLong ∧ components path = name :: names
          ∧ 63 < name.length)
      ∨ ∃ name p, pathNextComponent path = .found name p
          ∧ components path = name :: components p ∧ name.length ≤ 63
          ∧ cString name = name ∧ p.length < path.length := by
  have hlen := length_skipSlashes_le path
  have hhead := skipSlashes_head path
  rw [← components_skipSlashes path]
  unfold pathNextComponent
  generalize skipSlashes path = q at hlen hhead ⊢
  by_cases hnul : q.headD 0#8 = 0#8
  · refine .inl ⟨if_pos hnul, ?_⟩
    have hempty : cString q = [] := by rw [cString_eq, if_pos hnul]
    rw [components, hempty]
    rfl
  · -- the word that starts here
    have hsplit : q.takeWhile isComponentChar ++ q.dropWhile isComponentChar = q :=
      List.takeWhile_append_dropWhile
    have hchars : ∀ c ∈ q.takeWhile isComponentChar, isComponentChar c = true :=
      fun c hc => List.mem_takeWhile_imp hc
    have hword : q.takeWhile isComponentChar ≠ [] := by
      cases q with
      | nil => exact absurd rfl hnul
      | cons c q =>
          have hc : isComponentChar c = true := by
            simpa [isComponentChar] using And.intro hhead hnul
          rw [List.takeWhile_cons_of_pos hc]
          exact List.cons_ne_nil _ _
    have hstop : isComponentChar ((q.dropWhile isComponentChar).headD 0#8) = false := by
      cases hdrop : q.dropWhile isComponentChar with
      | nil => rfl
      | cons c r =>
          have := List.head_dropWhile_not isComponentChar (l := q) (by rw [hdrop]; simp)
          simpa [hdrop] using this
    have hcomp := components_word hword hchars hstop
    rw [hsplit] at hcomp
    rw [if_neg hnul, copyComponent_eq q [] (by simp), List.length_nil, Nat.zero_add]
    by_cases hfits : (q.takeWhile isComponentChar).length ≤ 63
    · rw [if_pos hfits]
      refine .inr (.inr ⟨_, _, rfl, hcomp, hfits, ?_, ?_⟩)
      · refine List.takeWhile_eq_self_iff.mpr fun c hc => ?_
        have hchar := hchars c hc
        simp only [isComponentChar, decide_eq_true_eq] at hchar
        simpa using hchar.2
      · have hlens := congrArg List.length hsplit
        rw [List.length_append] at hlens
        have hpos := List.length_pos_of_ne_nil hword
        omega
    · rw [if_neg hfits]
      exact .inr (.inl ⟨_, _, rfl, hcomp, by omega⟩)

-- ============================================================== resolution

/-- In a tree a descent has one result. -/
theorem Resolves.unique (ht : TreeInv nodes tree) (hn : n ∈ tree)
    {names : List (List Byte)} {rc rc' : Int} {result result' : Option Nat}
    (h : Resolves nodes n names rc result) (h' : Resolves nodes n names rc' result') :
    rc = rc' ∧ result = result' := by
  induction h generalizing rc' result' with
  | here =>
      cases h' with
      | here => exact ⟨rfl, rfl⟩
  | @descend n c name names rc result hlen hc hname _ ih =>
      cases h' with
      | @descend _ c' _ _ _ _ _ hc' hname' hrest =>
          obtain ⟨i, hi, hi'⟩ := hc
          obtain ⟨j, hj, hj'⟩ := hc'
          have hij := ht.siblings n hn i hi j hj (by rw [hi', hj', hname, hname'])
          subst hij
          rw [← hj', hi'] at hrest
          exact ih (ht.mem_of_isChild hn ⟨i, hi, hi'⟩) hrest
      | tooLong hlong => omega
      | missing _ hall => exact absurd hname (hall c hc)
  | tooLong hlong =>
      cases h' with
      | descend hlen => omega
      | tooLong => exact ⟨rfl, rfl⟩
      | missing hlen => omega
  | missing hlen hall =>
      cases h' with
      | descend _ hc hname => exact absurd hname (hall _ hc)
      | tooLong hlong => omega
      | missing => exact ⟨rfl, rfl⟩

/-- A descent that reaches a node succeeds, and stays in the tree. -/
theorem Resolves.reached (ht : TreeInv nodes tree) (hn : n ∈ tree)
    {names : List (List Byte)} {rc : Int} {result : Option Nat}
    (h : Resolves nodes n names rc result) (hresult : result = some c) :
    rc = kernelSuccess ∧ c ∈ tree := by
  induction h with
  | here =>
      cases hresult
      exact ⟨rfl, hn⟩
  | descend _ hc _ _ ih => exact ih (ht.mem_of_isChild hn hc) hresult
  | tooLong => cases hresult
  | missing => cases hresult

/-- A node comes with success and only with it. -/
theorem Resolves.none_iff {names : List (List Byte)} {rc : Int} {result : Option Nat}
    (h : Resolves nodes n names rc result) : result = none ↔ rc ≠ kernelSuccess := by
  induction h with
  | here => simp
  | descend _ _ _ _ ih => exact ih
  | tooLong => exact ⟨fun _ => einval_ne, fun _ => rfl⟩
  | missing => exact ⟨fun _ => enoent_ne, fun _ => rfl⟩

/-- The loop of `vfs_lookup` comes back with the result of the descent. -/
theorem vfsLookupFrom_resolves (ht : TreeInv v.nodes tree) {fuel : Nat} (hn : n ∈ tree)
    (path : List Byte) (hfuel : path.length < fuel) :
    ∃ rc result, vfsLookupFrom v fuel n path = some (rc, result)
      ∧ Resolves v.nodes n (components path) rc result := by
  induction fuel generalizing n path with
  | zero => omega
  | succ fuel ih =>
      have hops := ht.ops n hn
      rcases pathNextComponent_spec path with ⟨hnext, hcomp⟩ | ⟨name, names, hnext, hcomp, hlong⟩ |
        ⟨name, p, hnext, hcomp, hlen, hstring, hshort⟩
      · refine ⟨kernelSuccess, some n, by simp only [vfsLookupFrom, hnext], ?_⟩
        rw [hcomp]
        exact .here
      · refine ⟨kernelEinval, none, by simp only [vfsLookupFrom, hnext], ?_⟩
        rw [hcomp]
        exact .tooLong hlong
      · rw [hcomp]
        rcases ht.lookup hn name with ⟨c, hrun, hc, hname⟩ | ⟨hrun, hall⟩
        · obtain ⟨rc, result, hrest, hres⟩ := ih (ht.mem_of_isChild hn hc) p (by omega)
          refine ⟨rc, result, ?_, .descend hlen hc (hname.trans hstring) hres⟩
          simp only [vfsLookupFrom, hnext, hops, hrun, hrest, ne_eq, not_true_eq_false, if_false]
        · refine ⟨kernelEnoent, none, by simp only [vfsLookupFrom, hnext, hops, hrun],
            .missing hlen ?_⟩
          rw [hstring] at hall
          exact hall

/-- `vfs_lookup` resolves the components of the path from the root. -/
theorem vfsLookup_resolves (ht : TreeInv v.nodes tree) (hroot : vfsGetRoot v = ramfsRoot)
    (path : List Byte) :
    ∃ rc result, vfsLookup v (some path) = some (rc, result)
      ∧ Resolves v.nodes ramfsRoot (components path) rc result := by
  have hne : ramfsRoot ≠ null := ht.ne_null _ ht.root
  by_cases hslash : path.headD 0#8 = slash ∧ path.tail.headD 0#8 = 0#8
  · refine ⟨kernelSuccess, some ramfsRoot, ?_, ?_⟩
    · rw [vfsLookup]
      simp only [hroot, if_neg hne, if_pos hslash]
    · have hempty : components path = [] := by
        cases path with
        | nil => exact absurd hslash.1 (by decide)
        | cons c path =>
            have hc : c = slash := hslash.1
            have htail : cString path = [] := by
              rw [cString_eq]
              exact if_pos hslash.2
            rw [hc, components_slash, components, htail]
            rfl
      rw [hempty]
      exact .here
  · obtain ⟨rc, result, hrun, hres⟩ := vfsLookupFrom_resolves ht ht.root path
      (Nat.lt_succ_self _)
    refine ⟨rc, result, ?_, hres⟩
    rw [vfsLookup]
    simp only [hroot, if_neg hne, if_neg hslash]
    exact hrun

-- =============================================================== any state

/-- A failed `ramfs_lookup` says so. -/
theorem ramfsLookup_none {dir : Nat} {name : Option (List Byte)} {rc : Int}
    (h : ramfsLookup v dir name = (rc, none)) : rc ≠ kernelSuccess := by
  cases name with
  | none =>
      cases h
      exact einval_ne
  | some name =>
      unfold ramfsLookup at h
      dsimp only at h
      split_ifs at h
      · cases h
        exact einval_ne
      · cases h
        exact einval_ne
      · cases hfound : ramfsLookupFrom v (v.nodes (v.nodes dir).vnode.privateData) name
            (v.nodes (v.nodes dir).vnode.privateData).childCount 0 with
        | none =>
            rw [hfound] at h
            cases h
            exact enoent_ne
        | some child =>
            rw [hfound] at h
            cases h

/-- The loop of `vfs_lookup` comes back, whatever the nodes are: each
component moves the cursor. -/
theorem vfsLookupFrom_total (v : Vfs) {fuel : Nat} (current : Nat) (path : List Byte)
    (hfuel : path.length < fuel) :
    ∃ rc node, vfsLookupFrom v fuel current path = some (rc, node)
      ∧ (node = none → rc ≠ kernelSuccess) := by
  induction fuel generalizing current path with
  | zero => exact absurd hfuel (Nat.not_lt_zero _)
  | succ fuel ih =>
      rcases pathNextComponent_spec path with ⟨hnext, -⟩ | ⟨name, names, hnext, -⟩ |
        ⟨name, p, hnext, -, -, -, hshort⟩
      · exact ⟨kernelSuccess, some current, by rw [vfsLookupFrom, hnext],
          fun h => absurd h (Option.some_ne_none _)⟩
      · exact ⟨kernelEinval, none, by rw [vfsLookupFrom, hnext], fun _ => einval_ne⟩
      · rw [vfsLookupFrom, hnext]
        dsimp only
        cases (v.nodes current).vnode.ops with
        | none => exact ⟨kernelEnotsup, none, rfl, fun _ => enotsup_ne⟩
        | some ops =>
            cases ops with
            | ramfsVnodeOps =>
                cases hlook : ramfsLookup v current (some name) with
                | mk rc next =>
                    cases next with
                    | none => exact ⟨rc, none, rfl, fun _ => ramfsLookup_none hlook⟩
                    | some next =>
                        dsimp only
                        by_cases hrc : rc ≠ kernelSuccess
                        · rw [if_pos hrc]
                          exact ⟨rc, none, rfl, fun _ => hrc⟩
                        · rw [if_neg hrc]
                          exact ih next p (by omega)

/-- `vfs_lookup` comes back, and without a node only with an error. -/
theorem vfsLookup_total (v : Vfs) (path : Option (List Byte)) :
    ∃ rc node, vfsLookup v path = some (rc, node) ∧ (node = none → rc ≠ kernelSuccess) := by
  cases path with
  | none => exact ⟨kernelEinval, none, rfl, fun _ => einval_ne⟩
  | some path =>
      unfold vfsLookup
      dsimp only
      split_ifs
      · exact ⟨kernelEnoent, none, rfl, fun _ => enoent_ne⟩
      · exact ⟨kernelSuccess, _, rfl, fun h => absurd h (Option.some_ne_none _)⟩
      · exact vfsLookupFrom_total v _ path (Nat.lt_succ_self _)

end ZenithOS.Fs
