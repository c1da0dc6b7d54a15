/-
The page-table walks in terms of radix tables.

# Reading

A walk that creates nothing is a function of the trail of entries along
the address's indices (`pageTableTranslate_eq`).

# Creating

A walk that creates tables takes at most three steps, each of which
allocates a frame, clears it and links it into an entry that was not
present (`LinkStep`), or gives up with the tables untouched. Everything
later proofs need of such a walk is proved about one step and carried
over by `Relation.ReflTransGen`. In particular a step leaves the mapping
alone: each trail stays as it is, or ended in an entry that was not
present and still does (`SameMap`).
-/
import ZenithOS.Vmm.Proofs.Entries
import Mathlib.Logic.Relation

namespace ZenithOS.Vmm

open Lib Mm

-- ============================================================ the tables

/-- The table at the end of a path from `root`. -/
abbrev Vm.tableAt (v : Vm) (root : Nat) (p : List (Fin 512)) : Option Nat :=
  Lib.tableAt (nextTable v.hhdmOffset) (slots v.mem) 3 root p

/-- The entries along a path from `root`. -/
abbrev Vm.trail (v : Vm) (root : Nat) (p : List (Fin 512)) : List Nat :=
  Lib.trail (nextTable v.hhdmOffset) (slots v.mem) 3 root p

/-- A table reached from `root` along a path of `ok`. -/
abbrev Vm.Owned (v : Vm) (ok : List (Fin 512) → Prop) (root f : Nat) : Prop :=
  Lib.Owned (nextTable v.hhdmOffset) ok (slots v.mem) 3 root f

/-- The tables along `ok` from `root` are a tree, and none of them is a
frame the allocator could hand out. -/
structure TablesOk (v : Vm) (ok : List (Fin 512) → Prop) (root : Nat) : Prop where
  aligned : 4096 ∣ root
  closed : Closed ok
  tree : Tree (nextTable v.hhdmOffset) ok (slots v.mem) 3 root
  pmm : PmmInv v.pmm
  used : ∀ f, v.Owned ok root f → ¬ PmmClear v.pmm f

variable {v v' : Vm} {ok : List (Fin 512) → Prop} {root f g : Nat}
  {p q : List (Fin 512)} {i : Fin 512}

/-- Every table is aligned. -/
theorem tableAt_aligned (hroot : 4096 ∣ root) (hf : v.tableAt root p = some f) :
    4096 ∣ f := by
  cases List.eq_nil_or_concat p with
  | inl hnil =>
      rw [hnil] at hf
      exact Option.some.inj hf ▸ hroot
  | inr hsnoc =>
      obtain ⟨q, i, rfl⟩ := hsnoc
      rw [List.concat_eq_append] at hf
      obtain ⟨g, hg⟩ := tableAt_prefix (List.prefix_append q [i]) hf
      have hf' : Lib.tableAt (nextTable v.hhdmOffset) (slots v.mem) 3 root (q ++ [i])
        = some f := hf
      rw [tableAt_snoc hg] at hf'
      exact (nextTable_aligned hf').1

/-- Every owned table is aligned. -/
theorem TablesOk.owned_aligned (h : TablesOk v ok root) (hf : v.Owned ok root f) :
    4096 ∣ f := by
  obtain ⟨p, -, hp⟩ := hf
  exact tableAt_aligned h.aligned hp

/-- A root without entries along `ok` is a tree by itself. -/
theorem tablesOk_of_empty (halign : 4096 ∣ root) (hclosed : Closed ok)
    (hempty : ∀ i, ok [i] → pageIsPresent (slots v.mem root i) = false)
    (hpmm : PmmInv v.pmm) (hused : ¬ PmmClear v.pmm root) :
    TablesOk v ok root ∧ ∀ f, v.Owned ok root f → f = root := by
  have hnil : ∀ p f, ok p → v.tableAt root p = some f → p = [] ∧ f = root := by
    intro p f hp hf
    cases p with
    | nil => exact ⟨rfl, (Option.some.inj hf).symm⟩
    | cons i p =>
        have hi : ok [i] := hclosed [i] _ (List.prefix_append [i] p) hp
        rw [Vm.tableAt, Lib.tableAt, nextTable_absent (hempty i hi)] at hf
        cases hf
  have howned : ∀ f, v.Owned ok root f → f = root := by
    intro f hf
    obtain ⟨p, hp, hf⟩ := hf
    exact (hnil p f hp hf).2
  refine ⟨⟨halign, hclosed, ?_, hpmm, ?_⟩, howned⟩
  · intro p q f hp hq hf hf'
    rw [(hnil p f hp hf).1, (hnil q f hq hf').1]
  · intro f hf
    rw [howned f hf]
    exact hused

-- ======================================================== what a step does

/-- The frame `g` cleared and linked into slot `i` of `f`. -/
def linkTable (v : Vm) (pmm : Pmm) (f : Nat) (i : Fin 512) (g : Nat) : Vm :=
  { v with
    pmm := pmm
    mem := storeWord (fill v.mem g 0#8 pageSize) (f + 8 * i.val) (tableEntry g) }

/-- One step of a walk that creates tables under `root`: only the
allocator moves, and the same frames are clear, or a clear frame `g` is
linked in. -/
inductive LinkStep (ok : List (Fin 512) → Prop) (root : Nat) (v : Vm) : Vm → Prop
  | pmm (pmm : Pmm) (hinv : PmmInv pmm)
      (hclear : ∀ a, PmmClear pmm a ↔ PmmClear v.pmm a) :
      LinkStep ok root v { v with pmm := pmm }
  | link (pmm : Pmm) (p : List (Fin 512)) (i : Fin 512) (f g : Nat)
      (hpath : ok (p ++ [i])) (hlen : p.length ≤ 2) (hf : v.tableAt root p = some f)
      (habsent : pageIsPresent (slots v.mem f i) = false) (hg : PmmClear v.pmm g)
      (hvirtual : pageTablePhysicalToVirtual v.hhdmOffset g = some g)
      (hinv : PmmInv pmm)
      (hclear : ∀ a, PmmClear pmm a ↔ PmmClear v.pmm a ∧ a ≠ g) :
      LinkStep ok root v (linkTable v pmm f i g)

section Link

variable (pmm : Pmm) (h : TablesOk v ok root) (hpath : ok (p ++ [i]))
  (hlen : p.length ≤ 2) (hf : v.tableAt root p = some f)
  (habsent : pageIsPresent (slots v.mem f i) = false) (hg : PmmClear v.pmm g)

include h hf hpath hg in
/-- The slots after a link. -/
theorem slots_linkTable : slots (linkTable v pmm f i g).mem f i = tableEntry g
    ∧ (∀ j, slots (linkTable v pmm f i g).mem g j = 0)
    ∧ ∀ f' j, 4096 ∣ f' → f' ≠ g → f' ≠ f ∨ j ≠ i →
        slots (linkTable v pmm f i g).mem f' j = slots v.mem f' j := by
  obtain ⟨hgal, -, hglt⟩ := h.pmm.clear_frame hg
  have hokp : ok p := h.closed p _ (List.prefix_append p [i]) hpath
  have hfal : 4096 ∣ f := tableAt_aligned h.aligned hf
  have hfg : f ≠ g := by
    intro heq
    exact h.used f ⟨p, hokp, hf⟩ (heq ▸ hg)
  have hglt' : g < 2 ^ 52 := Nat.lt_trans hglt (by decide)
  refine ⟨?_, ?_, ?_⟩
  · show slots (storeWord _ (f + 8 * i.val) (tableEntry g)) f i = tableEntry g
    rw [slots_store_self, Nat.mod_eq_of_lt (tableEntry_lt hglt')]
  · intro j
    show slots (storeWord _ (f + 8 * i.val) (tableEntry g)) g j = 0
    rw [slots_store_other hfal hgal (.inl hfg.symm), slots_fill_self]
  · intro f' j hal hne hslot
    show slots (storeWord _ (f + 8 * i.val) (tableEntry g)) f' j = slots v.mem f' j
    rw [slots_store_other hfal hal hslot, slots_fill_other hgal hal hne]

include h hpath hlen hf habsent hg in
/-- A link step is a link of radix tables. -/
theorem links_linkTable
    (hvirtual : pageTablePhysicalToVirtual v.hhdmOffset g = some g) :
    Links (nextTable v.hhdmOffset) ok (slots v.mem)
      (slots (linkTable v pmm f i g).mem) 3 root f p i g := by
  obtain ⟨hgal, -, hglt⟩ := h.pmm.clear_frame hg
  have hglt' : g < 2 ^ 52 := Nat.lt_trans hglt (by decide)
  obtain ⟨hself, hempty, hother⟩ := slots_linkTable pmm h hpath hf hg
  have hnew : ¬ v.Owned ok root g := fun howned => h.used g howned hg
  refine ⟨h.closed, hpath, hf, nextTable_absent habsent, ?_, ?_, hnew, ?_⟩
  · obtain ⟨hpresent, -, -, hhuge⟩ := tableEntry_bits hgal
    rw [hself, nextTable, if_pos, tableEntry_address hgal hglt']
    · exact hvirtual
    · exact ⟨by omega, hpresent, .inr (by simp [hhuge])⟩
  · intro f' j howned hslot
    refine hother f' j (h.owned_aligned howned) ?_ hslot
    intro heq
    exact hnew (heq ▸ howned)
  · intro n j
    rw [hempty j]
    exact nextTable_absent rfl

end Link

/-- A step keeps the tables a tree off the free frames. -/
theorem LinkStep.tablesOk (hstep : LinkStep ok root v v') (h : TablesOk v ok root) :
    TablesOk v' ok root := by
  cases hstep with
  | pmm pmm hinv hclear =>
      exact ⟨h.aligned, h.closed, h.tree, hinv,
        fun f hf hfree => h.used f hf ((hclear f).mp hfree)⟩
  | link pmm p i f g hpath hlen hf habsent hg hvirtual hinv hclear =>
      have hlinks := links_linkTable pmm h hpath hlen hf habsent hg hvirtual
      obtain ⟨htree, howned⟩ := hlinks.tree h.tree
      refine ⟨h.aligned, h.closed, htree, hinv, fun f' hf' hfree => ?_⟩
      obtain ⟨hfree', hne⟩ := (hclear f').mp hfree
      cases (howned f').mp hf' with
      | inl heq => exact hne heq
      | inr hold => exact h.used f' hold hfree'

/-- What is left alone by steps: the configuration. -/
theorem LinkStep.config (hstep : LinkStep ok root v v') :
    v' = { v with mem := v'.mem, pmm := v'.pmm } := by
  cases hstep with
  | pmm pmm hinv hclear => rfl
  | link pmm p i f g hpath hlen hf habsent hg hvirtual hinv hclear => rfl

/-- Tables stay tables where they are. -/
theorem LinkStep.tableAt (hstep : LinkStep ok root v v') (h : TablesOk v ok root)
    (hq : ok q) (hf : v.tableAt root q = some f) : v'.tableAt root q = some f := by
  cases hstep with
  | pmm pmm hinv hclear => exact hf
  | link pmm p i f' g hpath hlen hf' habsent hg hvirtual hinv hclear =>
      have hlinks := links_linkTable pmm h hpath hlen hf' habsent hg hvirtual
      show Lib.tableAt (nextTable v.hhdmOffset) _ 3 root q = some f
      rw [hlinks.tableAt_eq h.tree hq, if_neg]
      · exact hf
      · intro heq
        have hnone : v.tableAt root (p ++ [i]) = none := by
          rw [Vm.tableAt, tableAt_snoc hf']
          exact hlinks.before
        rw [heq, hnone] at hf
        cases hf

-- ============================================================ the mapping

/-- The walk ends at an entry that is not present. -/
def DeadEnd (l : List Nat) : Prop :=
  ∃ l' e, l = l' ++ [e] ∧ pageIsPresent e = false

/-- `v'` maps what `v` maps, the same way. -/
def SameMap (ok : List (Fin 512) → Prop) (root : Nat) (v v' : Vm) : Prop :=
  ∀ q, ok q → q.length = 4 →
    v'.trail root q = v.trail root q
      ∨ DeadEnd (v.trail root q) ∧ DeadEnd (v'.trail root q)

theorem SameMap.refl (ok : List (Fin 512) → Prop) (root : Nat) (v : Vm) :
    SameMap ok root v v :=
  fun _ _ _ => .inl rfl

/-- A map that stays twice stays. -/
theorem SameMap.trans {v'' : Vm} (h : SameMap ok root v v')
    (h' : SameMap ok root v' v'') : SameMap ok root v v'' := by
  intro q hq hlen
  cases h q hq hlen with
  | inl heq =>
      cases h' q hq hlen with
      | inl heq' => exact .inl (heq'.trans heq)
      | inr hdead => exact .inr ⟨heq ▸ hdead.1, hdead.2⟩
  | inr hdead =>
      cases h' q hq hlen with
      | inl heq' => exact .inr ⟨hdead.1, heq' ▸ hdead.2⟩
      | inr hdead' => exact .inr ⟨hdead.1, hdead'.2⟩

/-- The trail of a page over a step: the same, or longer by an entry for
a new empty table. -/
theorem LinkStep.trail_cases (hstep : LinkStep ok root v v') (h : TablesOk v ok root)
    (hq : ok q) (hfour : q.length = 4) :
    v'.trail root q = v.trail root q
      ∨ ∃ l e g, v.trail root q = l ++ [e] ∧ pageIsPresent e = false ∧ 4096 ∣ g
        ∧ v'.trail root q = l ++ [tableEntry g] ++ [0] := by
  cases hstep with
  | pmm pmm hinv hclear => exact .inl rfl
  | link pmm p i f g hpath hlen hf habsent hg hvirtual hinv hclear =>
      have hlinks := links_linkTable pmm h hpath hlen hf habsent hg hvirtual
      obtain ⟨hself, hempty, -⟩ := slots_linkTable pmm h hpath hf hg
      by_cases hpre : p ++ [i] <+: q
      · obtain ⟨q', rfl⟩ := hpre
        obtain ⟨hbefore, hafter⟩ := hlinks.trail_below h.tree q'
        have hmore : q' ≠ [] := by
          intro hnil
          rw [hnil] at hfour
          simp at hfour
          omega
        obtain ⟨j, q'', rfl⟩ := List.exists_cons_of_ne_nil hmore
        refine .inr ⟨_, _, g, hbefore, habsent, (h.pmm.clear_frame hg).1, ?_⟩
        rw [hself, List.head?_cons, Option.map_some, hempty] at hafter
        exact hafter
      · have hokp : ok p := h.closed p _ (List.prefix_append p [i]) hpath
        exact .inl (h.tree.write_other h.closed hokp hf hlinks.writes hq hpre).2

/-- A step maps nothing and unmaps nothing. -/
theorem LinkStep.sameMap (hstep : LinkStep ok root v v') (h : TablesOk v ok root) :
    SameMap ok root v v' := by
  intro q hq hfour
  rcases hstep.trail_cases h hq hfour with heq | ⟨l, e, g, hbefore, he, -, hafter⟩
  · exact .inl heq
  · exact .inr ⟨⟨l, e, hbefore, he⟩, ⟨_, 0, hafter, rfl⟩⟩

/-- Steps, one after another. -/
abbrev LinkSteps (ok : List (Fin 512) → Prop) (root : Nat) : Vm → Vm → Prop :=
  Relation.ReflTransGen (LinkStep ok root)

/-- New tables are sound. -/
theorem LinkSteps.tablesOk (hsteps : LinkSteps ok root v v') (h : TablesOk v ok root) :
    TablesOk v' ok root := by
  induction hsteps with
  | refl => exact h
  | tail _ hstep ih => exact hstep.tablesOk ih

/-- New tables map nothing. -/
theorem LinkSteps.sameMap (hsteps : LinkSteps ok root v v') (h : TablesOk v ok root) :
    SameMap ok root v v' := by
  induction hsteps with
  | refl => exact SameMap.refl ok root v
  | tail hsteps hstep ih => exact ih.trans (hstep.sameMap (LinkSteps.tablesOk hsteps h))

theorem LinkSteps.config (hsteps : LinkSteps ok root v v') :
    v' = { v with mem := v'.mem, pmm := v'.pmm } := by
  induction hsteps with
  | refl => rfl
  | tail _ hstep ih =>
      rw [hstep.config, ih]

-- ============================================================== confinement

/-- A slot on a path of `ok`. -/
def OkSlot (v : Vm) (ok : List (Fin 512) → Prop) (root f : Nat) (j : Fin 512) : Prop :=
  ∃ p, ok (p ++ [j]) ∧ v.tableAt root p = some f

/-- From `v` to `v'` only the slots along `ok` and the clear frames
change, and the tables along `ok` grow by clear frames only. -/
structure Confined (ok : List (Fin 512) → Prop) (root : Nat) (v v' : Vm) : Prop where
  slots : ∀ f j, 4096 ∣ f → ¬ PmmClear v.pmm f → ¬ OkSlot v ok root f j →
    slots v'.mem f j = slots v.mem f j
  tables : ∀ q f, ok q → v'.tableAt root q = some f →
    v.tableAt root q = some f ∨ PmmClear v.pmm f
  clear : ∀ f, PmmClear v'.pmm f → PmmClear v.pmm f

theorem Confined.refl (ok : List (Fin 512) → Prop) (root : Nat) (v : Vm) :
    Confined ok root v v :=
  ⟨fun _ _ _ _ _ => rfl, fun _ _ _ hf => .inl hf, fun _ hf => hf⟩

/-- Confined twice is confined. -/
theorem Confined.trans {v'' : Vm} (hok : Closed ok) (h : Confined ok root v v')
    (h' : Confined ok root v' v'') : Confined ok root v v'' := by
  refine ⟨?_, ?_, fun f hf => h.clear f (h'.clear f hf)⟩
  · intro f j hal hclear hslot
    rw [h'.slots f j hal (fun hf => hclear (h.clear f hf)), h.slots f j hal hclear hslot]
    intro hslot'
    obtain ⟨p, hp, hf⟩ := hslot'
    cases h.tables p f (hok p _ (List.prefix_append p [j]) hp) hf with
    | inl hold => exact hslot ⟨p, hp, hold⟩
    | inr hfree => exact hclear hfree
  · intro q f hq hf
    cases h'.tables q f hq hf with
    | inl hold => exact h.tables q f hq hold
    | inr hfree => exact .inr (h.clear f hfree)

/-- A link changes slots it may. -/
theorem LinkStep.confined (hstep : LinkStep ok root v v') (h : TablesOk v ok root) :
    Confined ok root v v' := by
  cases hstep with
  | pmm pmm hinv hclear =>
      exact ⟨fun _ _ _ _ _ => rfl, fun _ _ _ hf => .inl hf, fun a => (hclear a).mp⟩
  | link pmm p i f g hpath hlen hf habsent hg hvirtual hinv hclear =>
      have hlinks := links_linkTable pmm h hpath hlen hf habsent hg hvirtual
      obtain ⟨-, -, hother⟩ := slots_linkTable pmm h hpath hf hg
      refine ⟨?_, ?_, fun a ha => ((hclear a).mp ha).1⟩
      · intro f' j hal hfree hslot
        refine hother f' j hal (fun heq => hfree (heq ▸ hg)) ?_
        by_contra hboth
        rw [not_or, not_not, not_not] at hboth
        exact hslot ⟨p, hboth.2 ▸ hpath, hboth.1 ▸ hf⟩
      · intro q f' hq hf'
        have heq := hlinks.tableAt_eq h.tree hq
        split_ifs at heq with hnew
        · refine .inr ?_
          have hsome : some g = some f' := heq.symm.trans hf'
          exact Option.some.inj hsome ▸ hg
        · exact .inl (heq.symm.trans hf')

/-- So do several. -/
theorem LinkSteps.confined (hsteps : LinkSteps ok root v v') (h : TablesOk v ok root) :
    Confined ok root v v' := by
  induction hsteps with
  | refl => exact Confined.refl ok root v
  | tail hsteps hstep ih =>
      exact ih.trans h.closed (hstep.confined (LinkSteps.tablesOk hsteps h))

/-- A slot of the tree stored without changing where it leads. -/
theorem TablesOk.confined_setPageEntry (h : TablesOk v ok root) (hpath : ok (p ++ [i]))
    (hf : v.tableAt root p = some f) {e : Nat}
    (hrest : ∀ q, ok q → (setPageEntry v f i e).tableAt root q = v.tableAt root q) :
    Confined ok root v (setPageEntry v f i e) := by
  refine ⟨?_, ?_, fun _ ha => ha⟩
  · intro f' j hal _ hslot
    apply slots_store_other (tableAt_aligned h.aligned hf) hal
    by_contra hboth
    rw [not_or, not_not, not_not] at hboth
    exact hslot ⟨p, hboth.2 ▸ hpath, hboth.1 ▸ hf⟩
  · intro q f' hq hf'
    rw [hrest q hq] at hf'
    exact .inl hf'

-- ========================================================= creating walks

/-- `ensure_next_table` that may create, on a table of the tree whose
entry does not map a huge page: steps, and on success the table at the
end of the longer path. -/
theorem TablesOk.ensureNextTable (h : TablesOk v ok root) (hpath : ok (p ++ [i]))
    (hlen : p.length ≤ 2) (hf : v.tableAt root p = some f)
    (hhuge : p = [] ∨ pageIsPresent (slots v.mem f i) = false
      ∨ pageIsHuge (slots v.mem f i) = false) (missing : PageWalkStatus) :
    ∃ r v', ensureNextTable v f i true missing = (r, v') ∧ LinkSteps ok root v v'
      ∧ ∀ g, r = .ok g → v'.tableAt root (p ++ [i]) = some g := by
  have hentry : pageEntry v.mem f i = slots v.mem f i := rfl
  by_cases hpresent : pageIsPresent (slots v.mem f i) = true
  · have hnext : nextTable v.hhdmOffset (3 - p.length) (slots v.mem f i)
        = pageTablePhysicalToVirtual v.hhdmOffset (pageAddress (slots v.mem f i)) := by
      rw [nextTable, if_pos]
      refine ⟨by omega, hpresent, ?_⟩
      cases hhuge with
      | inl hnil => exact .inl (by rw [hnil]; rfl)
      | inr hmid =>
          refine .inr ?_
          cases hmid with
          | inl habsent => rw [hpresent] at habsent; cases habsent
          | inr hsmall => simp [hsmall]
    cases hvirtual : pageTablePhysicalToVirtual v.hhdmOffset
        (pageAddress (slots v.mem f i)) with
    | none =>
        refine ⟨.error .ok, v, ?_, .refl, by simp⟩
        simp [Vmm.ensureNextTable, hentry, hpresent, hvirtual]
    | some g =>
        refine ⟨.ok g, v, ?_, .refl, ?_⟩
        · simp [Vmm.ensureNextTable, hentry, hpresent, hvirtual]
        · intro g' hg'
          rw [Vm.tableAt, tableAt_snoc hf, hnext, hvirtual, Except.ok.inj hg']
  · have habsent : pageIsPresent (slots v.mem f i) = false := by simpa using hpresent
    rcases h.pmm.alloc_cases with hnull | ⟨g, pmm, halloc, hg, hinv, hclear⟩
    · refine ⟨.error .allocationFailed, { v with pmm := v.pmm }, ?_, .refl, by simp⟩
      simp [Vmm.ensureNextTable, hentry, habsent, hnull]
    · obtain ⟨hgal, hgnull, -⟩ := h.pmm.clear_frame hg
      cases hvirtual : pageTablePhysicalToVirtual v.hhdmOffset g with
      | none =>
          refine ⟨.error .hhdmUnconfigured, { v with pmm := pmmFreePage g pmm }, ?_,
            .single (.pmm _ (hinv.markPageFree _) ?_), by simp⟩
          · simp [Vmm.ensureNextTable, hentry, habsent, halloc, hgnull, hvirtual]
          · exact fun a => h.pmm.clear_giveBack hinv halloc hg hclear
      | some g' =>
          obtain rfl : g = g' := by
            unfold pageTablePhysicalToVirtual at hvirtual
            split_ifs at hvirtual
            exact Option.some.inj hvirtual
          refine ⟨.ok g, linkTable v pmm f i g, ?_,
            .single (.link pmm p i f g hpath hlen hf habsent hg hvirtual hinv hclear), ?_⟩
          · simp only [Vmm.ensureNextTable, hentry, habsent, halloc, hgnull, hvirtual,
              Bool.false_eq_true, Bool.not_true, if_false]
            rfl
          · intro g' hg'
            rw [← Except.ok.inj hg']
            exact (links_linkTable pmm h hpath hlen hf habsent hg hvirtual).tableAt_new
              h.tree

/-- `checkMiddleEntry` lets a creating walk pass unless the entry maps a
huge page. -/
theorem checkMiddleEntry_create (v : Vm) (f : Nat) (i : Fin 512) (level : PageWalkLevel)
    (huge missing : PageWalkStatus) :
    checkMiddleEntry v f i true level huge missing = some (.error huge)
    ∨ checkMiddleEntry v f i true level huge missing = none
      ∧ (pageIsPresent (slots v.mem f i) = false ∨ pageIsHuge (slots v.mem f i) = false) := by
  have hentry : pageEntry v.mem f i = slots v.mem f i := rfl
  cases hpresent : pageIsPresent (slots v.mem f i) with
  | false => simp [checkMiddleEntry, hentry, hpresent]
  | true =>
      cases hhuge : pageIsHuge (slots v.mem f i) with
      | false => simp [checkMiddleEntry, hentry, hpresent, hhuge]
      | true => simp [checkMiddleEntry, hentry, hpresent, hhuge]

/-- The path to the page table of an address. -/
def tablePath (va : Nat) : List (Fin 512) := [pml4Digit va, pdptDigit va, pdDigit va]

theorem digits_eq (va : Nat) : digits va = tablePath va ++ [ptDigit va] := rfl

/-- What a creating walk for `va` brings about from `v` on: steps, and on
success the slot of the address in the page table at the end of its
path. -/
def CreatesPath (ok : List (Fin 512) → Prop) (root va : Nat) (v : Vm)
    (walk : PageWalk × Vm) : Prop :=
  LinkSteps ok root v walk.2
    ∧ ∀ s l, walk.1 = .ok (s, l) → l = .pt
      ∧ ∃ table, s = (table, (ptDigit va).val)
        ∧ walk.2.tableAt root (tablePath va) = some table

section Create

variable {va : Nat}

/-- A walk that fails on the way. -/
theorem CreatesPath.error (hsteps : LinkSteps ok root v v') (status : PageWalkStatus) :
    CreatesPath ok root va v (.error status, v') :=
  ⟨hsteps, by simp⟩

/-- A walk that goes on. -/
theorem CreatesPath.after {walk : PageWalk × Vm} (hsteps : LinkSteps ok root v v')
    (hwalk : CreatesPath ok root va v' walk) : CreatesPath ok root va v walk :=
  ⟨hsteps.trans hwalk.1, hwalk.2⟩

/-- The last level of a creating walk. -/
theorem pageWalkPt_creates {pt : Nat} (hpt : v.tableAt root (tablePath va) = some pt) :
    CreatesPath ok root va v (pageWalkPt v pt va true) := by
  refine ⟨.refl, ?_⟩
  intro s l heq
  rw [pageWalkPt] at heq
  simp only [Bool.not_true, Bool.false_and, Bool.false_eq_true, if_false,
    Except.ok.injEq, Prod.mk.injEq] at heq
  exact ⟨heq.2.symm, pt, heq.1.symm, hpt⟩

/-- The last two levels. -/
theorem TablesOk.pageWalkPd_creates (h : TablesOk v ok root) (hva : ok (digits va))
    {pd : Nat} (hpd : v.tableAt root [pml4Digit va, pdptDigit va] = some pd) :
    CreatesPath ok root va v (pageWalkPd v pd va true) := by
  have hpath : ok ([pml4Digit va, pdptDigit va] ++ [pdDigit va]) :=
    h.closed _ _ ⟨[ptDigit va], rfl⟩ hva
  rw [pageWalkPd, pdIndex_eq]
  rcases checkMiddleEntry_create v pd (pdDigit va) .pd .hugePagePd .missingPdEntry
    with hcheck | ⟨hcheck, hhuge⟩
  · rw [hcheck]
    exact .error .refl _
  · rw [hcheck]
    obtain ⟨r, v₁, hens, hsteps, htable⟩ := h.ensureNextTable hpath (by simp) hpd
      (.inr hhuge) .missingPdEntry
    rw [hens]
    cases r with
    | error status => exact .error hsteps _
    | ok pt => exact .after hsteps (pageWalkPt_creates (htable pt rfl))

/-- The last three levels. -/
theorem TablesOk.pageWalkPdpt_creates (h : TablesOk v ok root) (hva : ok (digits va))
    {pdpt : Nat} (hpdpt : v.tableAt root [pml4Digit va] = some pdpt) :
    CreatesPath ok root va v (pageWalkPdpt v pdpt va true) := by
  have hpath : ok ([pml4Digit va] ++ [pdptDigit va]) :=
    h.closed _ _ ⟨[pdDigit va, ptDigit va], rfl⟩ hva
  rw [pageWalkPdpt, pdptIndex_eq]
  rcases checkMiddleEntry_create v pdpt (pdptDigit va) .pdpt .hugePagePdpt
      .missingPdptEntry with hcheck | ⟨hcheck, hhuge⟩
  · rw [hcheck]
    exact .error .refl _
  · rw [hcheck]
    obtain ⟨r, v₁, hens, hsteps, htable⟩ := h.ensureNextTable hpath (by simp) hpdpt
      (.inr hhuge) .missingPdptEntry
    rw [hens]
    cases r with
    | error status => exact .error hsteps _
    | ok pd =>
        have h₁ := LinkSteps.tablesOk hsteps h
        exact .after hsteps (h₁.pageWalkPd_creates hva (htable pd rfl))

/-- `page_walk_internal` with `create`. -/
theorem TablesOk.pageWalkInternal_creates (h : TablesOk v ok root)
    (hva : ok (digits va)) :
    CreatesPath ok root va v (pageWalkInternal v (some root) va true) := by
  have hpath : ok ([] ++ [pml4Digit va]) :=
    h.closed _ _ ⟨[pdptDigit va, pdDigit va, ptDigit va], rfl⟩ hva
  obtain ⟨r, v₁, hens, hsteps, htable⟩ := h.ensureNextTable hpath (by simp) rfl
    (.inl rfl) .missingPml4Entry
  rw [pageWalkInternal, pml4Index_eq]
  rw [hens]
  cases r with
  | error status => exact .error hsteps _
  | ok pdpt =>
      have h₁ := LinkSteps.tablesOk hsteps h
      exact .after hsteps (h₁.pageWalkPdpt_creates hva (htable pdpt rfl))

end Create

-- ========================================================== reading walks

theorem leafAt_cons (n e e' : Nat) (l : List Nat) :
    leafAt (n + 1) (e :: e' :: l) = leafAt n (e' :: l) := by
  cases n with
  | zero => rfl
  | succ n =>
      cases n with
      | zero => rfl
      | succ n => rfl

theorem leafAt_append_absent {e : Nat} (he : pageIsPresent e = false) (l : List Nat)
    (n : Nat) : leafAt n (l ++ [e]) = none := by
  induction l generalizing n with
  | nil =>
      cases n with
      | zero => simp [leafAt, he]
      | succ n =>
          cases n with
          | zero => simp [leafAt, he]
          | succ n =>
              cases n with
              | zero => simp [leafAt, he]
              | succ n => rfl
  | cons e' l ih =>
      cases n with
      | zero =>
          cases l with
          | nil => rfl
          | cons e'' l => rfl
      | succ n =>
          obtain ⟨e'', l', heq⟩ := List.exists_cons_of_ne_nil
            (List.append_ne_nil_of_right_ne_nil l (List.cons_ne_nil e []))
          rw [List.cons_append, heq, leafAt_cons, ← heq]
          exact ih n

/-- The entry that maps `va` under `root`. -/
def Vm.leaf (v : Vm) (root va : Nat) : Option (PageWalkLevel × Nat) :=
  leafAt 3 (v.trail root (digits va))

/-- What a walk that creates nothing reports of a leaf: its slot, which
for a page table is the address's slot. -/
def Reads (v : Vm) (root va : Nat) (leaf : Option (PageWalkLevel × Nat))
    (walk : PageWalk × Vm) : Prop :=
  (∃ status, walk = (.error status, v) ∧ leaf = none)
    ∨ ∃ table i level, walk = (.ok ((table, (i : Fin 512).val), level), v)
      ∧ leaf = some (level, slots v.mem table i)
      ∧ pageIsPresent (slots v.mem table i) = true
      ∧ (level = .pt ∧ i = ptDigit va ∧ v.tableAt root (tablePath va) = some table
        ∨ level = .pd ∨ level = .pdpt)

/-- A directory entry as a reading walk sees it: a huge page, the end of
the walk, or the way to the next table. -/
theorem middleEntry_read (v : Vm) (f : Nat) (i : Fin 512) (level : PageWalkLevel)
    (huge missing : PageWalkStatus) {n : Nat} (hn : n = 1 ∨ n = 2) :
    (pageIsPresent (slots v.mem f i) = true ∧ pageIsHuge (slots v.mem f i) = true
      ∧ nextTable v.hhdmOffset n (slots v.mem f i) = none
      ∧ checkMiddleEntry v f i false level huge missing = some (.ok ((f, i), level)))
    ∨ (¬ (pageIsPresent (slots v.mem f i) ∧ pageIsHuge (slots v.mem f i))
      ∧ nextTable v.hhdmOffset n (slots v.mem f i) = none
      ∧ (checkMiddleEntry v f i false level huge missing = some (.error missing)
        ∨ checkMiddleEntry v f i false level huge missing = none
          ∧ ensureNextTable v f i false missing = (.error .ok, v)))
    ∨ ∃ g, nextTable v.hhdmOffset n (slots v.mem f i) = some g
      ∧ checkMiddleEntry v f i false level huge missing = none
      ∧ ensureNextTable v f i false missing = (.ok g, v) := by
  have hentry : pageEntry v.mem f i = slots v.mem f i := rfl
  have hn' : n ≠ 0 ∧ n ≠ 3 := by omega
  cases hpresent : pageIsPresent (slots v.mem f i) with
  | false =>
      refine .inr (.inl ⟨by simp, nextTable_absent hpresent, .inl ?_⟩)
      simp [checkMiddleEntry, hentry, hpresent]
  | true =>
      cases hhuge : pageIsHuge (slots v.mem f i) with
      | true =>
          refine .inl ⟨rfl, rfl, ?_, ?_⟩
          · simp [nextTable, hhuge, hn'.2]
          · simp [checkMiddleEntry, hentry, hpresent, hhuge]
      | false =>
          have hcheck : checkMiddleEntry v f i false level huge missing = none := by
            simp [checkMiddleEntry, hentry, hpresent, hhuge]
          have hnext : nextTable v.hhdmOffset n (slots v.mem f i)
              = pageTablePhysicalToVirtual v.hhdmOffset (pageAddress (slots v.mem f i)) := by
            simp [nextTable, hn'.1, hpresent, hhuge]
          rw [hnext, hcheck]
          cases hvirtual : pageTablePhysicalToVirtual v.hhdmOffset
              (pageAddress (slots v.mem f i)) with
          | none =>
              refine .inr (.inl ⟨by simp, rfl, .inr ⟨rfl, ?_⟩⟩)
              simp [ensureNextTable, hentry, hpresent, hvirtual]
          | some g =>
              refine .inr (.inr ⟨g, rfl, rfl, ?_⟩)
              simp [ensureNextTable, hentry, hpresent, hvirtual]

section Read

variable {va : Nat}

/-- The last level of a reading walk. -/
theorem pageWalkPt_reads {pt : Nat} (hpt : v.tableAt root (tablePath va) = some pt) :
    Reads v root va (leafAt 0 (trail (nextTable v.hhdmOffset) (slots v.mem) 0 pt
      [ptDigit va])) (pageWalkPt v pt va false) := by
  have htrail : trail (nextTable v.hhdmOffset) (slots v.mem) 0 pt [ptDigit va]
      = [slots v.mem pt (ptDigit va)] := by
    simp [trail, nextTable_leaf]
  have hentry : pageEntry v.mem pt (ptDigit va) = slots v.mem pt (ptDigit va) := rfl
  rw [htrail, pageWalkPt, ptIndex_eq]
  cases hpresent : pageIsPresent (slots v.mem pt (ptDigit va)) with
  | false =>
      refine .inl ⟨.missingPtEntry, ?_, ?_⟩
      · simp [hentry, hpresent]
      · simp [leafAt, hpresent]
  | true =>
      refine .inr ⟨pt, ptDigit va, .pt, ?_, ?_, hpresent, .inl ⟨rfl, rfl, hpt⟩⟩
      · simp [hentry, hpresent]
      · simp [leafAt, hpresent]

/-- The last two levels. -/
theorem pageWalkPd_reads {pd : Nat}
    (hpd : v.tableAt root [pml4Digit va, pdptDigit va] = some pd) :
    Reads v root va (leafAt 1 (trail (nextTable v.hhdmOffset) (slots v.mem) 1 pd
      [pdDigit va, ptDigit va])) (pageWalkPd v pd va false) := by
  rw [pageWalkPd, pdIndex_eq]
  rcases middleEntry_read v pd (pdDigit va) .pd .hugePagePd .missingPdEntry (n := 1)
    (.inl rfl) with ⟨hpresent, hhuge, hnext, hcheck⟩ | ⟨hsmall, hnext, hend⟩ |
    ⟨pt, hnext, hcheck, hens⟩
  · rw [hcheck]
    refine .inr ⟨pd, pdDigit va, .pd, rfl, ?_, hpresent, .inr (.inl rfl)⟩
    simp [trail, hnext, leafAt, hpresent, hhuge]
  · have hleaf : leafAt 1 (trail (nextTable v.hhdmOffset) (slots v.mem) 1 pd
        [pdDigit va, ptDigit va]) = none := by
      simp only [trail, hnext, leafAt, hsmall, if_false]
    rw [hleaf]
    cases hend with
    | inl hcheck => exact .inl ⟨.missingPdEntry, by rw [hcheck], rfl⟩
    | inr hcheck => exact .inl ⟨.ok, by rw [hcheck.1, hcheck.2], rfl⟩
  · rw [hcheck, hens]
    have hpt : v.tableAt root (tablePath va) = some pt := by
      show v.tableAt root ([pml4Digit va, pdptDigit va] ++ [pdDigit va]) = some pt
      rw [Vm.tableAt, tableAt_snoc hpd]
      exact hnext
    have htrail : leafAt 1 (trail (nextTable v.hhdmOffset) (slots v.mem) 1 pd
        [pdDigit va, ptDigit va]) = leafAt 0 (trail (nextTable v.hhdmOffset)
          (slots v.mem) 0 pt [ptDigit va]) := by
      simp [trail, hnext, leafAt]
    rw [htrail]
    exact pageWalkPt_reads hpt

/-- The last three levels. -/
theorem pageWalkPdpt_reads {pdpt : Nat} (hpdpt : v.tableAt root [pml4Digit va] = some pdpt) :
    Reads v root va (leafAt 2 (trail (nextTable v.hhdmOffset) (slots v.mem) 2 pdpt
      [pdptDigit va, pdDigit va, ptDigit va])) (pageWalkPdpt v pdpt va false) := by
  rw [pageWalkPdpt, pdptIndex_eq]
  rcases middleEntry_read v pdpt (pdptDigit va) .pdpt .hugePagePdpt .missingPdptEntry
    (n := 2) (.inr rfl) with ⟨hpresent, hhuge, hnext, hcheck⟩ | ⟨hsmall, hnext, hend⟩ |
    ⟨pd, hnext, hcheck, hens⟩
  · rw [hcheck]
    refine .inr ⟨pdpt, pdptDigit va, .pdpt, rfl, ?_, hpresent, .inr (.inr rfl)⟩
    simp [trail, hnext, leafAt, hpresent, hhuge]
  · have hleaf : leafAt 2 (trail (nextTable v.hhdmOffset) (slots v.mem) 2 pdpt
        [pdptDigit va, pdDigit va, ptDigit va]) = none := by
      simp only [trail, hnext, leafAt, hsmall, if_false]
    rw [hleaf]
    cases hend with
    | inl hcheck => exact .inl ⟨.missingPdptEntry, by rw [hcheck], rfl⟩
    | inr hcheck => exact .inl ⟨.ok, by rw [hcheck.1, hcheck.2], rfl⟩
  · rw [hcheck, hens]
    have hpd : v.tableAt root ([pml4Digit va] ++ [pdptDigit va]) = some pd := by
      rw [Vm.tableAt, tableAt_snoc hpdpt]
      exact hnext
    have htrail : leafAt 2 (trail (nextTable v.hhdmOffset) (slots v.mem) 2 pdpt
        [pdptDigit va, pdDigit va, ptDigit va]) = leafAt 1 (trail
          (nextTable v.hhdmOffset) (slots v.mem) 1 pd [pdDigit va, ptDigit va]) := by
      simp [trail, hnext, leafAt]
    rw [htrail]
    exact pageWalkPd_reads hpd

/-- `page_walk_internal` without `create` finds the leaf. -/
theorem pageWalkInternal_reads (v : Vm) (root va : Nat) :
    Reads v root va (v.leaf root va) (pageWalkInternal v (some root) va false) := by
  have hentry : pageEntry v.mem root (pml4Digit va) = slots v.mem root (pml4Digit va) := rfl
  rw [pageWalkInternal, pml4Index_eq]
  cases hnext : nextTable v.hhdmOffset 3 (slots v.mem root (pml4Digit va)) with
  | none =>
      have hleaf : v.leaf root va = none := by
        simp [Vm.leaf, digits, trail, hnext, leafAt]
      have hens : ∃ status, ensureNextTable v root (pml4Digit va) false .missingPml4Entry
          = (.error status, v) := by
        cases hpresent : pageIsPresent (slots v.mem root (pml4Digit va)) with
        | false => exact ⟨.missingPml4Entry, by simp [ensureNextTable, hentry, hpresent]⟩
        | true =>
            have hvirtual : pageTablePhysicalToVirtual v.hhdmOffset
                (pageAddress (slots v.mem root (pml4Digit va))) = none := by
              simpa [nextTable, hpresent] using hnext
            exact ⟨.ok, by simp [ensureNextTable, hentry, hpresent, hvirtual]⟩
      obtain ⟨status, hens⟩ := hens
      exact .inl ⟨status, by rw [hens], hleaf⟩
  | some pdpt =>
      have hpresent : pageIsPresent (slots v.mem root (pml4Digit va)) = true := by
        by_contra habsent
        rw [nextTable_absent (by simpa using habsent)] at hnext
        cases hnext
      have hvirtual : pageTablePhysicalToVirtual v.hhdmOffset
          (pageAddress (slots v.mem root (pml4Digit va))) = some pdpt := by
        simpa [nextTable, hpresent] using hnext
      have hens : ensureNextTable v root (pml4Digit va) false .missingPml4Entry
          = (.ok pdpt, v) := by
        simp [ensureNextTable, hentry, hpresent, hvirtual]
      have hpdpt : v.tableAt root ([] ++ [pml4Digit va]) = some pdpt := by
        rw [Vm.tableAt, tableAt_snoc (f := root) rfl]
        exact hnext
      have hleaf : v.leaf root va = leafAt 2 (trail (nextTable v.hhdmOffset) (slots v.mem)
          2 pdpt [pdptDigit va, pdDigit va, ptDigit va]) := by
        simp [Vm.leaf, digits, trail, hnext, leafAt]
      rw [hens, hleaf]
      exact pageWalkPdpt_reads hpdpt

end Read

-- ========================================================= writing leaves

/-- Storing an entry is one write to the tree. -/
theorem TablesOk.writesAt (h : TablesOk v ok root) (hf : v.tableAt root p = some f)
    (e : Nat) :
    WritesAt (nextTable v.hhdmOffset) ok (slots v.mem)
      (slots (setPageEntry v f i e).mem) 3 root f i := by
  intro g j howned hslot
  exact slots_store_other (tableAt_aligned h.aligned hf) (h.owned_aligned howned) hslot

/-- A slot of a table at the end of `p` written without changing where it
leads: the tables stay where they are. -/
theorem TablesOk.rewrite (h : TablesOk v ok root) (hp : ok p)
    (hf : v.tableAt root p = some f) {e : Nat} (he : e < 2 ^ 64)
    (hsame : nextTable v.hhdmOffset (3 - p.length) e
      = nextTable v.hhdmOffset (3 - p.length) (slots v.mem f i)) :
    TablesOk (setPageEntry v f i e) ok root
      ∧ ∀ q, ok q → (setPageEntry v f i e).tableAt root q = v.tableAt root q := by
  have hwrites := h.writesAt (i := i) hf e
  have hself : slots (setPageEntry v f i e).mem f i = e :=
    slots_store_self.trans (Nat.mod_eq_of_lt he)
  have hsame' : nextTable v.hhdmOffset (3 - p.length)
      (slots (setPageEntry v f i e).mem f i)
        = nextTable v.hhdmOffset (3 - p.length) (slots v.mem f i) := by
    rw [hself, hsame]
  obtain ⟨htree, howned⟩ := h.tree.rewrite h.closed hp hf hwrites hsame'
  refine ⟨⟨h.aligned, h.closed, htree, h.pmm, ?_⟩, ?_⟩
  · intro g hg
    exact h.used g ((howned g).mp hg)
  · intro q hq
    exact h.tree.rewrite_tableAt h.closed hp hf hwrites hsame' hq

/-- The trails that do not pass the slot stay as they are. -/
theorem TablesOk.trail_setPageEntry_other (h : TablesOk v ok root) (hp : ok p)
    (hf : v.tableAt root p = some f) {e : Nat} (hq : ok q) (hno : ¬ p ++ [i] <+: q) :
    (setPageEntry v f i e).trail root q = v.trail root q := by
  have hwrites := h.writesAt (i := i) hf e
  exact (h.tree.write_other h.closed hp hf hwrites hq hno).2

/-- The trail to the slot itself. -/
theorem TablesOk.trail_setPageEntry_self (h : TablesOk v ok root) (hp : ok p)
    (hf : v.tableAt root p = some f) {e : Nat} (he : e < 2 ^ 64) :
    (setPageEntry v f i e).trail root (p ++ [i]) = v.trail root p ++ [e] := by
  have hwrites := h.writesAt (i := i) hf e
  obtain ⟨hself, htrail⟩ := h.tree.write_self h.closed hp hf hwrites
  have hslot : slots (setPageEntry v f i e).mem f i = e :=
    slots_store_self.trans (Nat.mod_eq_of_lt he)
  have hone : ∀ n, trail (nextTable v.hhdmOffset) (slots (setPageEntry v f i e).mem) n f [i]
      = [e] := by
    intro n
    rw [trail, hslot]
    cases nextTable v.hhdmOffset n e with
    | none => rfl
    | some g => rfl
  show trail (nextTable v.hhdmOffset) _ 3 root (p ++ [i]) = _
  rw [trail_append hself, htrail, hone]

end ZenithOS.Vmm
