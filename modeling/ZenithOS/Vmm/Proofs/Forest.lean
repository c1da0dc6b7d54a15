/-
Several roots at once, as the processor walks them.

# Forests

Roots share tables: a process root starts as a copy of the kernel's, and
from then on what one of them adds below a shared table the other has
too. So the tables under a set of roots are no tree. What survives the
sharing is that a table is always met equally far below a root
(`Forest.levels`), and that no table is a free frame.

A single walk then still passes each table once, so along the prefixes of
any one path the tables are a tree (`Forest.tree`), and what the library
says of trees applies to one walk at a time.

# Growth

`Grown roots v v'`: between `v` and `v'` clear frames became tables or
were given away, and tables were opened to users, but nothing was mapped
or unmapped under any root. Every creating walk is such a growth, and so
is taking a frame.
-/
import ZenithOS.Vmm.Proofs.Frames
import ZenithOS.Vmm.Proofs.UserMap

namespace ZenithOS.Vmm

open Lib Mm

/-- The table the processor comes to from `root` along a path. -/
abbrev hwTable (m : Mem) (root : Nat) (p : List (Fin 512)) : Option Nat :=
  tableAt mmuNext (slots m) 3 root p

/-- The entries the processor reads from `root` along a path. -/
abbrev hwTrail (m : Mem) (root : Nat) (p : List (Fin 512)) : List Nat :=
  trail mmuNext (slots m) 3 root p

/-- `f` is a table `n` entries below one of the roots. -/
def TableBelow (m : Mem) (roots : List Nat) (n f : Nat) : Prop :=
  ∃ r ∈ roots, ∃ p, p.length = n ∧ hwTable m r p = some f

/-- The tables under `roots`: no free frames, and each at one level. -/
structure Forest (v : Vm) (roots : List Nat) : Prop where
  pmm : PmmInv v.pmm
  aligned : ∀ r ∈ roots, 4096 ∣ r
  used : ∀ n f, TableBelow v.mem roots n f → ¬ PmmClear v.pmm f
  levels : ∀ n n' f, TableBelow v.mem roots n f → TableBelow v.mem roots n' f → n = n'

variable {v v' : Vm} {m : Mem} {roots : List Nat} {r r' f g n : Nat} {p q : List (Fin 512)}
  {i : Fin 512}

/-- Tables are at most three steps below a root. -/
theorem hwTable_length (hf : hwTable m r p = some f) : p.length ≤ 3 := by
  by_contra hlong
  rw [← List.take_append_drop 3 p] at hf
  obtain ⟨j, l, hdrop⟩ := List.exists_cons_of_ne_nil
    (l := p.drop 3) (by rw [← List.length_pos_iff_ne_nil, List.length_drop]; omega)
  have htake : (p.take 3).length = 3 := by rw [List.length_take]; omega
  rw [hwTable, tableAt_append, hdrop, htake] at hf
  obtain ⟨h, -, hnext⟩ := Option.bind_eq_some_iff.mp hf
  rw [tableAt, mmuNext_leaf] at hnext
  cases hnext

/-- Every table is aligned. -/
theorem hwTable_aligned (hr : 4096 ∣ r) (hf : hwTable m r p = some f) : 4096 ∣ f := by
  cases List.eq_nil_or_concat p with
  | inl hnil =>
      rw [hnil] at hf
      exact Option.some.inj hf ▸ hr
  | inr hsnoc =>
      obtain ⟨q, i, rfl⟩ := hsnoc
      rw [List.concat_eq_append] at hf
      obtain ⟨g, hg⟩ := tableAt_prefix (List.prefix_append q [i]) hf
      rw [hwTable, tableAt_snoc hg] at hf
      exact mmuNext_aligned hf

/-- What the code's walk comes to the processor comes to. -/
theorem hwTable_of_tableAt (hf : v.tableAt r p = some f) : hwTable v.mem r p = some f :=
  tableAt_mono (fun _ _ _ => mmuNext_of_nextTable) hf

/-- Every table of the forest is aligned. -/
theorem Forest.table_aligned (h : Forest v roots) (hf : TableBelow v.mem roots n f) :
    4096 ∣ f := by
  obtain ⟨r, hr, p, -, hf⟩ := hf
  exact hwTable_aligned (h.aligned r hr) hf

/-- Fewer roots, or the same in another order. -/
theorem Forest.mono {roots' : List Nat} (h : Forest v roots) (hsub : ∀ r ∈ roots', r ∈ roots) :
    Forest v roots' := by
  have hbelow : ∀ n f, TableBelow v.mem roots' n f → TableBelow v.mem roots n f := by
    intro n f hf
    obtain ⟨r, hr, hp⟩ := hf
    exact ⟨r, hsub r hr, hp⟩
  exact ⟨h.pmm, fun r hr => h.aligned r (hsub r hr), fun n f hf => h.used n f (hbelow n f hf),
    fun n n' f hf hf' => h.levels n n' f (hbelow n f hf) (hbelow n' f hf')⟩

theorem closed_ancestors (q : List (Fin 512)) : Closed (· <+: q) :=
  fun _ _ hpre hq => hpre.trans hq

/-- One walk passes each table once. -/
theorem Forest.tree (h : Forest v roots) (hr : r ∈ roots) (q : List (Fin 512)) :
    Tree mmuNext (· <+: q) (slots v.mem) 3 r := by
  intro p p' f hp hp' hf hf'
  have hlen := h.levels _ _ f ⟨r, hr, p, rfl, hf⟩ ⟨r, hr, p', rfl, hf'⟩
  have hpre := List.prefix_of_prefix_length_le hp hp' (Nat.le_of_eq hlen)
  exact hpre.eq_of_length hlen

/-- So the code's walks along it find a tree. -/
theorem Forest.tablesOk (h : Forest v roots) (hr : r ∈ roots) (q : List (Fin 512)) :
    TablesOk v (· <+: q) r := by
  refine ⟨h.aligned r hr, closed_ancestors q, ?_, h.pmm, ?_⟩
  · intro p p' f hp hp' hf hf'
    exact h.tree hr q p p' f hp hp' (hwTable_of_tableAt hf) (hwTable_of_tableAt hf')
  · intro f hf
    obtain ⟨p, -, hf⟩ := hf
    exact h.used _ f ⟨r, hr, p, rfl, hwTable_of_tableAt hf⟩

-- ========================================================= writing one slot

/-- Among the slots of the tables, `m` differs from `v`'s memory at most
in slot `i` of `f`. -/
def WritesSlot (v : Vm) (roots : List Nat) (m : Mem) (f : Nat) (i : Fin 512) : Prop :=
  ∀ n f' j, TableBelow v.mem roots n f' → f' ≠ f ∨ j ≠ i → slots m f' j = slots v.mem f' j

/-- Walks that do not pass the slot. -/
theorem WritesSlot.off (h : WritesSlot v roots m f i) (hr : r ∈ roots)
    (hoff : ∀ p, p ++ [i] <+: q → hwTable v.mem r p ≠ some f) :
    hwTable m r q = hwTable v.mem r q ∧ hwTrail m r q = hwTrail v.mem r q := by
  apply walk_congr
  intro q' j f' hpre hf'
  refine h q'.length f' j ⟨r, hr, q', rfl, hf'⟩ ?_
  by_contra hboth
  rw [not_or, not_not, not_not] at hboth
  rw [hboth.2] at hpre
  rw [hboth.1] at hf'
  exact hoff q' hpre hf'

/-- Walks that do. -/
theorem WritesSlot.writesAt (h : WritesSlot v roots m f i) (hr : r ∈ roots)
    (q : List (Fin 512)) : WritesAt mmuNext (· <+: q) (slots v.mem) (slots m) 3 r f i := by
  intro g j howned hslot
  obtain ⟨p, -, hp⟩ := howned
  exact h p.length g j ⟨r, hr, p, rfl, hp⟩ hslot

/-- A slot rewritten without changing where it leads: the tables stay
where they are. -/
theorem Forest.rewrite_tableAt (h : Forest v roots) (hw : WritesSlot v roots m f i)
    (hf : TableBelow v.mem roots n f)
    (hsame : mmuNext (3 - n) (slots m f i) = mmuNext (3 - n) (slots v.mem f i))
    (hr : r ∈ roots) (q : List (Fin 512)) : hwTable m r q = hwTable v.mem r q := by
  by_cases hon : ∃ p, p ++ [i] <+: q ∧ hwTable v.mem r p = some f
  · obtain ⟨p, hpre, hp⟩ := hon
    have hlen : p.length = n := h.levels _ _ f ⟨r, hr, p, rfl, hp⟩ hf
    exact (h.tree hr q).rewrite_tableAt (closed_ancestors q) ((List.prefix_append p [i]).trans hpre)
      hp (hw.writesAt hr q) (by rw [hlen]; exact hsame) List.prefix_rfl
  · exact (hw.off hr fun p hpre hp => hon ⟨p, hpre, hp⟩).1

/-- The roots keep their forest. -/
theorem Forest.of_tableAt {pmm : Pmm} (h : Forest v roots) (hpmm : PmmInv pmm)
    (hclear : ∀ n f, TableBelow v.mem roots n f → ¬ PmmClear pmm f)
    (hsame : ∀ r ∈ roots, ∀ q, hwTable m r q = hwTable v.mem r q) :
    Forest { v with mem := m, pmm := pmm } roots := by
  have hbelow : ∀ n f, TableBelow m roots n f → TableBelow v.mem roots n f := by
    intro n f hf
    obtain ⟨r, hr, p, hlen, hp⟩ := hf
    exact ⟨r, hr, p, hlen, (hsame r hr p).symm.trans hp⟩
  exact ⟨hpmm, h.aligned, fun n f hf => hclear n f (hbelow n f hf),
    fun n n' f hf hf' => h.levels n n' f (hbelow n f hf) (hbelow n' f hf')⟩

-- ========================================================= linking a table

/-- `m` is `v`'s memory with the clear frame `g`, emptied, linked into
slot `i` of `f`, a table `n` entries below the roots. -/
structure LinksSlot (v : Vm) (roots : List Nat) (m : Mem) (n f : Nat) (i : Fin 512)
    (g : Nat) : Prop where
  table : TableBelow v.mem roots n f
  level : n ≤ 2
  before : pageIsPresent (slots v.mem f i) = false
  clear : PmmClear v.pmm g
  after : mmuNext (3 - n) (slots m f i) = some g
  writable : pageIsWritable (slots m f i) = true
  empty : ∀ j, slots m g j = 0
  writes : WritesSlot v roots m f i

section Link

variable (h : LinksSlot v roots m n f i g) (hv : Forest v roots)

include h hv

/-- A walk through the slot sees a link of radix tables. -/
theorem LinksSlot.links (hr : r ∈ roots) (hpre : p ++ [i] <+: q)
    (hp : hwTable v.mem r p = some f) :
    p.length = n ∧ Links mmuNext (· <+: q) (slots v.mem) (slots m) 3 r f p i g := by
  have hlen : p.length = n := hv.levels _ _ f ⟨r, hr, p, rfl, hp⟩ h.table
  refine ⟨hlen, closed_ancestors q, hpre, hp, mmuNext_absent h.before, ?_,
    h.writes.writesAt hr q, ?_, ?_⟩
  · rw [hlen]
    exact h.after
  · intro howned
    obtain ⟨p', -, hp'⟩ := howned
    exact hv.used _ g ⟨r, hr, p', rfl, hp'⟩ h.clear
  · intro n' j
    rw [h.empty j]
    exact mmuNext_absent rfl

/-- The tables after the link. -/
theorem LinksSlot.tableAt_iff (hr : r ∈ roots) (q : List (Fin 512)) (f' : Nat) :
    hwTable m r q = some f'
      ↔ hwTable v.mem r q = some f' ∨ f' = g ∧ ∃ p, q = p ++ [i] ∧ hwTable v.mem r p = some f := by
  by_cases hon : ∃ p, p ++ [i] <+: q ∧ hwTable v.mem r p = some f
  · obtain ⟨p, hpre, hp⟩ := hon
    obtain ⟨-, hlinks⟩ := h.links hv hr hpre hp
    have heq := hlinks.tableAt_eq (hv.tree hr q) (List.prefix_rfl (l := q))
    rw [hwTable, heq]
    split_ifs with hend
    · have hnone : hwTable v.mem r q = none := by
        rw [hend, hwTable, tableAt_snoc hp]
        exact mmuNext_absent h.before
      rw [hnone, Option.some.injEq]
      constructor
      · intro hg
        exact .inr ⟨hg.symm, p, hend, hp⟩
      · intro hor
        cases hor with
        | inl hbad => cases hbad
        | inr hnew => exact hnew.1.symm
    · refine (or_iff_left ?_).symm
      rintro ⟨-, p', hq, hp'⟩
      -- both end at `f`, so they are the same prefix of the walk
      have hpre' : p' <+: q := hq ▸ List.prefix_append p' [i]
      have hsame := hv.tree hr q p' p f hpre' ((List.prefix_append p [i]).trans hpre) hp' hp
      exact hend (hsame ▸ hq)
  · rw [(h.writes.off hr fun p hpre hp => hon ⟨p, hpre, hp⟩).1]
    refine (or_iff_left ?_).symm
    rintro ⟨-, p, hq, hp⟩
    exact hon ⟨p, hq ▸ List.prefix_rfl, hp⟩

/-- A walk of four entries that passes the slot ends there, and after the
link one entry further, in neither case at a page. -/
theorem LinksSlot.leafAt_eq (hr : r ∈ roots) (hfour : q.length = 4) :
    leafAt 3 (hwTrail m r q) = leafAt 3 (hwTrail v.mem r q) := by
  by_cases hon : ∃ p, p ++ [i] <+: q ∧ hwTable v.mem r p = some f
  · obtain ⟨p, hpre, hp⟩ := hon
    obtain ⟨hlen, hlinks⟩ := h.links hv hr hpre hp
    obtain ⟨q', rfl⟩ := hpre
    obtain ⟨hbefore, hafter⟩ := hlinks.trail_below (hv.tree hr _) q'
    have hmore : q' ≠ [] := by
      intro hnil
      have hlevel := h.level
      rw [hnil, List.append_nil, List.length_append, List.length_singleton] at hfour
      omega
    obtain ⟨j, q'', rfl⟩ := List.exists_cons_of_ne_nil hmore
    rw [List.head?_cons, Option.map_some, h.empty] at hafter
    rw [hwTrail, hwTrail, hbefore, hafter, leafAt_append_absent h.before]
    exact leafAt_append_absent rfl _ _
  · rw [(h.writes.off hr fun p hpre hp => hon ⟨p, hpre, hp⟩).2]

/-- A table after the link is the new one or an old one. -/
theorem LinksSlot.below {n' f' : Nat} (hf : TableBelow m roots n' f') :
    TableBelow v.mem roots n' f' ∨ f' = g ∧ n' = n + 1 := by
  obtain ⟨r, hr, p, rfl, hp⟩ := hf
  rcases (h.tableAt_iff hv hr p f').mp hp with hold | ⟨hg, p', rfl, hp'⟩
  · exact .inl ⟨r, hr, p, rfl, hold⟩
  · refine .inr ⟨hg, ?_⟩
    rw [List.length_append, hv.levels _ _ f ⟨r, hr, p', rfl, hp'⟩ h.table]
    rfl

/-- A slot linked to a new table leaves a forest. -/
theorem LinksSlot.forest {pmm : Pmm} (hpmm : PmmInv pmm)
    (hclear : ∀ a, PmmClear pmm a → PmmClear v.pmm a ∧ a ≠ g) :
    Forest { v with mem := m, pmm := pmm } roots := by
  have hnew : ∀ n', ¬ TableBelow v.mem roots n' g := fun n' hg => hv.used n' g hg h.clear
  refine ⟨hpmm, hv.aligned, ?_, ?_⟩
  · intro n' f' hf hfree
    obtain ⟨hold, hne⟩ := hclear f' hfree
    cases h.below hv hf with
    | inl hf => exact hv.used n' f' hf hold
    | inr hg => exact hne hg.1
  · intro n₁ n₂ f' hf₁ hf₂
    cases h.below hv hf₁ with
    | inl hold₁ =>
        cases h.below hv hf₂ with
        | inl hold₂ => exact hv.levels n₁ n₂ f' hold₁ hold₂
        | inr hg => exact absurd (hg.1 ▸ hold₁) (hnew n₁)
    | inr hg =>
        cases h.below hv hf₂ with
        | inl hold₂ => exact absurd (hg.1 ▸ hold₂) (hnew n₂)
        | inr hg' => rw [hg.2, hg'.2]

end Link

-- ================================================================== growth

theorem mmuNext_marked (n e : Nat) : mmuNext n (e ||| pageUser) = mmuNext n e := by
  obtain ⟨hpresent, -, hhuge, -, haddress⟩ := markedEntry e
  rw [mmuNext, mmuNext, hpresent, hhuge, haddress]

/-- The entry that maps `w` under `root`, for the processor. -/
def mmuLeaf (m : Mem) (root w : Nat) : Option (PageWalkLevel × Nat) :=
  leafAt 3 (mmuTrail m root w)

/-- A translation depends on the leaf. -/
theorem mmuTranslate_congr {m' : Mem} {w : Nat} (h : mmuLeaf m' r' w = mmuLeaf m r w) :
    mmuTranslate m' r' w = mmuTranslate m r w := by
  have h' : leafAt 3 (mmuTrail m' r' w) = leafAt 3 (mmuTrail m r w) := h
  rw [mmuTranslate, mmuTranslate, h']

/-- From `v` to `v'` tables were added or opened to users and frames
taken, with no effect on what any root maps. -/
structure Grown (roots : List Nat) (v v' : Vm) : Prop where
  forest : Forest v' roots
  config : v' = { v with mem := v'.mem, pmm := v'.pmm }
  clear : ∀ a, PmmClear v'.pmm a → PmmClear v.pmm a
  tables : ∀ r ∈ roots, ∀ p f, hwTable v.mem r p = some f → hwTable v'.mem r p = some f
  fresh : ∀ n f, TableBelow v'.mem roots n f → TableBelow v.mem roots n f ∨ PmmClear v.pmm f
  leaf : ∀ r ∈ roots, ∀ w, mmuLeaf v'.mem r w = mmuLeaf v.mem r w
  /-- What is present leads to a table or was there before. -/
  entries : ∀ n f i, TableBelow v'.mem roots n f → pageIsPresent (slots v'.mem f i) = true →
    mmuNext (3 - n) (slots v'.mem f i) ≠ none
      ∨ TableBelow v.mem roots n f ∧ slots v'.mem f i = slots v.mem f i
  pages : ∀ f i, TableBelow v.mem roots 3 f → slots v'.mem f i = slots v.mem f i
  /-- An entry that leads to a table is at most opened to users. -/
  kept : ∀ n f i g, TableBelow v.mem roots n f → mmuNext (3 - n) (slots v.mem f i) = some g →
    slots v'.mem f i = slots v.mem f i ∨ slots v'.mem f i = slots v.mem f i ||| pageUser
  /-- A new one is writable. -/
  linked : ∀ n f i g, TableBelow v'.mem roots n f → mmuNext (3 - n) (slots v'.mem f i) = some g →
    TableBelow v.mem roots n f ∧ mmuNext (3 - n) (slots v.mem f i) = some g
      ∨ pageIsWritable (slots v'.mem f i) = true
  bytes : ∀ g, 4096 ∣ g → ¬ PmmClear v.pmm g → (∀ n, ¬ TableBelow v.mem roots n g) →
    ∀ x < 4096, v'.mem (g + x) = v.mem (g + x)
  /-- Where two roots come to the same table, they did so before, there
  or further up. -/
  meet : ∀ r ∈ roots, ∀ r' ∈ roots, ∀ p f, hwTable v'.mem r p = some f →
    hwTable v'.mem r' p = some f →
      ∃ q g, q <+: p ∧ hwTable v.mem r q = some g ∧ hwTable v.mem r' q = some g

/-- A step that leaves the tables where they are. -/
theorem Grown.of_tableAt {pmm : Pmm} (h : Forest v roots) (hpmm : PmmInv pmm)
    (hclear : ∀ a, PmmClear pmm a → PmmClear v.pmm a)
    (hsame : ∀ r ∈ roots, ∀ q, hwTable m r q = hwTable v.mem r q)
    (hleaf : ∀ r ∈ roots, ∀ w, mmuLeaf m r w = mmuLeaf v.mem r w)
    (hslot : ∀ n f i, TableBelow v.mem roots n f →
      slots m f i = slots v.mem f i
        ∨ slots m f i = slots v.mem f i ||| pageUser
          ∧ ∃ g, mmuNext (3 - n) (slots v.mem f i) = some g)
    (hbytes : ∀ g, 4096 ∣ g → ¬ PmmClear v.pmm g → (∀ n, ¬ TableBelow v.mem roots n g) →
      ∀ x < 4096, m (g + x) = v.mem (g + x)) :
    Grown roots v { v with mem := m, pmm := pmm } := by
  have hbelow : ∀ n f, TableBelow m roots n f → TableBelow v.mem roots n f := by
    intro n f hf
    obtain ⟨r, hr, p, hlen, hp⟩ := hf
    exact ⟨r, hr, p, hlen, (hsame r hr p).symm.trans hp⟩
  refine ⟨h.of_tableAt hpmm (fun n f hf hfree => h.used n f hf (hclear f hfree)) hsame, rfl,
    hclear, ?_, ?_, hleaf, ?_, ?_, ?_, ?_, hbytes, ?_⟩
  · intro r hr p f hf
    exact (hsame r hr p).trans hf
  · intro n f hf
    exact .inl (hbelow n f hf)
  · intro n f i hf _
    rcases hslot n f i (hbelow n f hf) with heq | ⟨heq, g, hnext⟩
    · exact .inr ⟨hbelow n f hf, heq⟩
    · refine .inl ?_
      rw [heq, mmuNext_marked, hnext]
      exact Option.some_ne_none g
  · intro f i hf
    rcases hslot 3 f i hf with heq | ⟨-, g, hnext⟩
    · exact heq
    · rw [mmuNext_leaf] at hnext
      cases hnext
  · intro n f i g hf _
    exact (hslot n f i hf).imp_right And.left
  · intro n f i g hf hnext
    refine .inl ⟨hbelow n f hf, ?_⟩
    rcases hslot n f i (hbelow n f hf) with heq | ⟨heq, -⟩
    · rw [← heq]
      exact hnext
    · rw [← mmuNext_marked, ← heq]
      exact hnext
  · intro r hr r' hr' p f hf hf'
    exact ⟨p, f, List.prefix_rfl, (hsame r hr p).symm.trans hf, (hsame r' hr' p).symm.trans hf'⟩

theorem Grown.refl (h : Forest v roots) : Grown roots v v :=
  Grown.of_tableAt (m := v.mem) h h.pmm (fun _ ha => ha) (fun _ _ _ => rfl) (fun _ _ _ => rfl)
    (fun _ _ _ _ => .inl rfl) (fun _ _ _ _ _ _ => rfl)

/-- Tables stay tables. -/
theorem Grown.below (h : Grown roots v v') (hf : TableBelow v.mem roots n f) :
    TableBelow v'.mem roots n f := by
  obtain ⟨r, hr, p, hlen, hp⟩ := hf
  exact ⟨r, hr, p, hlen, h.tables r hr p f hp⟩

/-- A frame that is neither free nor a table becomes no table. -/
theorem Grown.data (h : Grown roots v v') (hg : ¬ PmmClear v.pmm g)
    (hdata : ∀ n, ¬ TableBelow v.mem roots n g) (n : Nat) : ¬ TableBelow v'.mem roots n g := by
  intro hf
  cases h.fresh n g hf with
  | inl hold => exact hdata n hold
  | inr hfree => exact hg hfree

/-- Growing twice is growing. -/
theorem Grown.trans {v'' : Vm} (h : Grown roots v v') (h' : Grown roots v' v'') :
    Grown roots v v'' := by
  refine ⟨h'.forest, ?_, fun a ha => h.clear a (h'.clear a ha), ?_, ?_, ?_, ?_, ?_, ?_, ?_, ?_, ?_⟩
  · rw [h'.config, h.config]
  · intro r hr p f hf
    exact h'.tables r hr p f (h.tables r hr p f hf)
  · intro n f hf
    cases h'.fresh n f hf with
    | inl hold => exact h.fresh n f hold
    | inr hfree => exact .inr (h.clear f hfree)
  · intro r hr w
    rw [h'.leaf r hr w, h.leaf r hr w]
  · intro n f i hf hpresent
    cases h'.entries n f i hf hpresent with
    | inl hnext => exact .inl hnext
    | inr hold =>
        rw [hold.2] at hpresent ⊢
        exact h.entries n f i hold.1 hpresent
  · intro f i hf
    rw [h'.pages f i (h.below hf), h.pages f i hf]
  · intro n f i g hf hnext
    rcases h.kept n f i g hf hnext with heq | heq
    · rw [← heq] at hnext ⊢
      exact h'.kept n f i g (h.below hf) hnext
    · rw [← mmuNext_marked, ← heq] at hnext
      rcases h'.kept n f i g (h.below hf) hnext with heq' | heq'
      · exact .inr (heq'.trans heq)
      · refine .inr ?_
        rw [heq', heq, Nat.or_assoc, Nat.or_self]
  · intro n f i g hf hnext
    rcases h'.linked n f i g hf hnext with ⟨hf', hnext'⟩ | hwritable
    · refine (h.linked n f i g hf' hnext').imp_right fun hwritable => ?_
      rcases h'.kept n f i g hf' hnext' with heq | heq
      · rw [heq]
        exact hwritable
      · rw [heq, (markedEntry _).2.1]
        exact hwritable
    · exact .inr hwritable
  · intro g hal hg hdata x hx
    rw [h'.bytes g hal (fun hfree => hg (h.clear g hfree)) (h.data hg hdata) x hx,
      h.bytes g hal hg hdata x hx]
  · intro r hr r' hr' p f hf hf'
    obtain ⟨q, g, hpre, hg, hg'⟩ := h'.meet r hr r' hr' p f hf hf'
    obtain ⟨q', g', hpre', hg⟩ := h.meet r hr r' hr' q g hg hg'
    exact ⟨q', g', hpre'.trans hpre, hg⟩

/-- Bytes written into a frame that is no table: no slot changes. -/
theorem Forest.slots_frame (h : Forest v roots) (hgal : 4096 ∣ g)
    (hdata : ∀ n, ¬ TableBelow v.mem roots n g)
    (hm : ∀ a, a < g ∨ g + 4096 ≤ a → m a = v.mem a) (hf : TableBelow v.mem roots n f)
    (i : Fin 512) : slots m f i = slots v.mem f i := by
  have hi := i.isLt
  have hne : f ≠ g := fun heq => hdata n (heq ▸ hf)
  obtain ⟨a, rfl⟩ := h.table_aligned hf
  obtain ⟨b, rfl⟩ := hgal
  apply loadWord_congr
  intro x hlo hhi
  exact hm x (by omega)

/-- So no walk changes. -/
theorem Forest.walk_frame (h : Forest v roots) (hgal : 4096 ∣ g)
    (hdata : ∀ n, ¬ TableBelow v.mem roots n g)
    (hm : ∀ a, a < g ∨ g + 4096 ≤ a → m a = v.mem a) (hr : r ∈ roots) (q : List (Fin 512)) :
    hwTable m r q = hwTable v.mem r q ∧ hwTrail m r q = hwTrail v.mem r q := by
  apply walk_congr
  intro p j f _ hf
  exact h.slots_frame hgal hdata hm ⟨r, hr, p, rfl, hf⟩ j

/-- A clear frame is no table. -/
theorem Forest.clear_data (h : Forest v roots) (hg : PmmClear v.pmm g) (n : Nat) :
    ¬ TableBelow v.mem roots n g :=
  fun hf => h.used n g hf hg

/-- A clear frame is taken, and nothing but its bytes changes. -/
theorem Grown.take {pmm : Pmm} (h : Forest v roots) (hg : PmmClear v.pmm g)
    (hpmm : PmmInv pmm) (hclear : ∀ a, PmmClear pmm a → PmmClear v.pmm a)
    (hm : ∀ a, a < g ∨ g + 4096 ≤ a → m a = v.mem a) :
    Grown roots v { v with mem := m, pmm := pmm } := by
  have hgal : 4096 ∣ g := (h.pmm.clear_frame hg).1
  have hwalk := fun r hr q => h.walk_frame (r := r) hgal (h.clear_data hg) hm hr q
  refine Grown.of_tableAt h hpmm hclear (fun r hr q => (hwalk r hr q).1) ?_
    (fun n f i hf => .inl (h.slots_frame hgal (h.clear_data hg) hm hf i)) ?_
  · intro r hr w
    show leafAt 3 (hwTrail m r (digits w)) = leafAt 3 (hwTrail v.mem r (digits w))
    rw [(hwalk r hr (digits w)).2]
  · intro f hal hfree _ x hx
    have hne : f ≠ g := fun heq => hfree (heq ▸ hg)
    obtain ⟨a, rfl⟩ := hal
    obtain ⟨b, rfl⟩ := hgal
    exact hm _ (by omega)

/-- Such a frame is still no table. -/
theorem Forest.take_data (h : Forest v roots) (hg : PmmClear v.pmm g)
    (hm : ∀ a, a < g ∨ g + 4096 ≤ a → m a = v.mem a) (n : Nat) : ¬ TableBelow m roots n g := by
  intro hf
  obtain ⟨r, hr, p, hlen, hp⟩ := hf
  rw [(h.walk_frame (h.pmm.clear_frame hg).1 (h.clear_data hg) hm hr p).1] at hp
  exact h.used n g ⟨r, hr, p, hlen, hp⟩ hg

/-- A frame taken on the way and given back. -/
theorem Grown.giveBack (h : Grown roots v v') (hv : Forest v roots) (hg : PmmClear v.pmm g)
    (hdata : ∀ n, ¬ TableBelow v'.mem roots n g) :
    Grown roots v { v' with pmm := pmmFreePage g v'.pmm } := by
  have hgal := (hv.pmm.clear_frame hg).1
  have hfreed : ∀ a, PmmClear (pmmFreePage g v'.pmm) a → PmmClear v'.pmm a ∨ a = g :=
    fun a ha => h.forest.pmm.clear_of_freePage hgal ha
  refine ⟨⟨h.forest.pmm.markPageFree _, h.forest.aligned, ?_, h.forest.levels⟩, ?_, ?_, h.tables,
    h.fresh, h.leaf, h.entries, h.pages, h.kept, h.linked, h.bytes, h.meet⟩
  · intro n f hf hfree
    cases hfreed f hfree with
    | inl hold => exact h.forest.used n f hf hold
    | inr heq => exact hdata n (heq ▸ hf)
  · rw [h.config]
  · intro a ha
    cases hfreed a ha with
    | inl hold => exact h.clear a hold
    | inr heq => exact heq ▸ hg

end ZenithOS.Vmm
