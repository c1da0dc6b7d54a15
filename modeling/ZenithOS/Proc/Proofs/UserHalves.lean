/-
The user halves of the address spaces.

# The invariant

Process roots have the kernel half in common, and nothing else: a root is
made with an empty user half, and `page_table_map_user` adds to the half
of one root only. `UserHalves v roots` says so, and what is then mapped
there: ordinary pages for users, behind entries for users, in frames that
are neither free nor tables. So in a user half the leaf of an address
alone decides what user mode may do there (`UserHalves.access`).

# Steps

`Keeps roots k v v'` is what every call does, whether or not it succeeds;
`NewPage` what a page that is mapped adds.
-/
import ZenithOS.Mm.Proofs.HeapShared
import ZenithOS.Proc.Proofs.Exec
import ZenithOS.Proc.Proofs.FrameLoss

namespace ZenithOS.Proc

open Lib Mm Vmm Klib

variable {v v' v'' : Vm} {m : Mem} {roots : List Nat} {r k g f va w e : Nat}
  {p q : List (Fin 512)} {i : Fin 512} {l : PageWalkLevel} {wr : Bool}

/-- `e` maps `w` under `r`: a page for users, in a frame of its own, behind
entries for users. -/
structure UserPage (v : Vm) (roots : List Nat) (r w : Nat) (l : PageWalkLevel) (e : Nat) :
    Prop where
  level : l = .pt
  user : pageIsUser e = true
  data : DataFrame v roots (pageAddress e)
  way : ∃ table, hwTable v.mem r (tablePath w) = some table
    ∧ ∀ a ∈ hwTrail v.mem r (tablePath w), pageIsUser a = true

/-- The user halves of the roots: apart from one another, and every page of
them its root's alone. -/
structure UserHalves (v : Vm) (roots : List Nat) : Prop where
  forest : Forest v roots
  paths : PathsAlike v.mem roots
  apart : ∀ r ∈ roots, ∀ r' ∈ roots, ∀ i p f, i.val < 256 → hwTable v.mem r (i :: p) = some f →
    hwTable v.mem r' (i :: p) = some f → r = r'
  writable : ∀ r ∈ roots, ∀ p i f g, userHalf (p ++ [i]) → hwTable v.mem r p = some f →
    mmuNext (3 - p.length) (slots v.mem f i) = some g → pageIsWritable (slots v.mem f i) = true
  pages : ∀ r ∈ roots, ∀ w, userHalf (digits w) → ∀ l e, mmuLeaf v.mem r w = some (l, e) →
    UserPage v roots r w l e

-- ======================================================== what may be done

/-- The entries on the way to a table of the user half. -/
theorem UserHalves.trail_writable (h : UserHalves v roots) (hr : r ∈ roots) (hp : userHalf p)
    (hf : hwTable v.mem r p = some f) : ∀ a ∈ hwTrail v.mem r p, pageIsWritable a = true := by
  induction p using List.reverseRecOn generalizing f with
  | nil => exact fun a ha => absurd ha List.not_mem_nil
  | append_singleton p i ih =>
      have hpre : p <+: p ++ [i] := List.prefix_append p [i]
      obtain ⟨f', hf'⟩ := tableAt_prefix hpre hf
      rw [hwTrail_snoc hf', List.forall_mem_append, List.forall_mem_singleton]
      refine ⟨ih (userHalf_closed p _ hpre hp) hf', ?_⟩
      rw [hwTable, tableAt_snoc hf'] at hf
      exact h.writable r hr p i f' f hp hf' hf

/-- What user mode reaches. -/
theorem UserHalves.access (h : UserHalves v roots) (hr : r ∈ roots) (hw : userHalf (digits w)) :
    userAccess v.mem r w = (mmuLeaf v.mem r w).map fun leaf =>
      (.pt, pageAddress leaf.2, pageIsWritable leaf.2) := by
  cases hleaf : mmuLeaf v.mem r w with
  | none =>
      have hnone : leafAt 3 (mmuTrail v.mem r w) = none := hleaf
      rw [userAccess, hnone]
      rfl
  | some leaf =>
      obtain ⟨l, e⟩ := leaf
      obtain ⟨rfl, huser, -, table, htable, hway⟩ := h.pages r hr w hw l e hleaf
      have hsome : leafAt 3 (mmuTrail v.mem r w) = some (.pt, e) := hleaf
      have hslot : slots v.mem table (ptDigit w) = e := by
        rw [mmuLeaf_of_table htable] at hleaf
        split_ifs at hleaf
        exact (Prod.mk.inj (Option.some.inj hleaf)).2
      have htrail : mmuTrail v.mem r w = hwTrail v.mem r (tablePath w) ++ [e] := by
        show hwTrail v.mem r (digits w) = _
        rw [digits_eq, hwTrail_snoc htable, hslot]
      have hpath : userHalf (tablePath w) :=
        userHalf_closed _ _ (List.prefix_append (tablePath w) [ptDigit w]) hw
      have hwritable := h.trail_writable hr hpath htable
      have husers : (mmuTrail v.mem r w).all pageIsUser = true := by
        rw [htrail, List.all_eq_true]
        intro a ha
        rcases List.mem_append.mp ha with ha | ha
        · exact hway a ha
        · rw [List.mem_singleton.mp ha]
          exact huser
      have hall : (mmuTrail v.mem r w).all pageIsWritable = pageIsWritable e := by
        rw [htrail, List.all_append, List.all_eq_true.mpr hwritable, Bool.true_and]
        simp
      simp only [userAccess, hsome, husers, hall, if_true, mmuFrame_pt, Option.map_some]

-- ================================================================== growth

/-- Growth leaves a user page as it is. -/
theorem UserPage.grow (h : UserPage v roots r w l e) (hr : r ∈ roots) (hgrown : Grown roots v v') :
    UserPage v' roots r w l e := by
  obtain ⟨table, htable, hway⟩ := h.way
  exact ⟨h.level, h.user, h.data.grow hgrown, table, hgrown.tables r hr _ table htable,
    hgrown.trail_user hr htable hway⟩

/-- Growth leaves the user halves as they are. -/
theorem UserHalves.grow (h : UserHalves v roots) (hgrown : Grown roots v v')
    (hpaths : PathsAlike v'.mem roots) : UserHalves v' roots := by
  refine ⟨hgrown.forest, hpaths, ?_, ?_, ?_⟩
  · intro r hr r' hr' i p f hi hf hf'
    obtain ⟨q, g, hpre, hg, hg'⟩ := hgrown.meet r hr r' hr' (i :: p) f hf hf'
    cases q with
    | nil => exact (Option.some.inj hg).trans (Option.some.inj hg').symm
    | cons j q =>
        obtain ⟨t, ht⟩ := hpre
        obtain rfl : j = i := (List.cons.inj ht).1
        exact h.apart r hr r' hr' j q g hi hg hg'
  · intro r hr p i f g hp hf hnext
    rcases hgrown.linked p.length f i g ⟨r, hr, p, rfl, hf⟩ hnext with
      ⟨⟨r', hr', p', -, hf'⟩, hnext'⟩ | hwritable
    · -- the link was there, perhaps under another root
      obtain rfl : p' = p := hpaths r' hr' r hr p' p f (hgrown.tables r' hr' p' f hf') hf
      have hold := h.writable r' hr' p' i f g hp hf' hnext'
      rcases hgrown.kept p'.length f i g ⟨r', hr', p', rfl, hf'⟩ hnext' with heq | heq
      · rw [heq]
        exact hold
      · rw [heq, (markedEntry _).2.1]
        exact hold
    · exact hwritable
  · intro r hr w hw l e hleaf
    rw [hgrown.leaf r hr w] at hleaf
    exact (h.pages r hr w hw l e hleaf).grow hr hgrown

-- =============================================================== single steps

theorem userHalf_cons {i : Fin 512} (hi : i.val < 256) (p : List (Fin 512)) :
    userHalf (i :: p) := by
  intro j hj
  obtain rfl : i = j := Option.some.inj hj
  exact hi

/-- The table of a user address is one of the user half. -/
theorem userHalf_tablePath (hw : userHalf (digits w)) : userHalf (tablePath w) :=
  userHalf_closed _ _ (List.prefix_append (tablePath w) [ptDigit w]) hw

/-- A step that no walk of the user halves sees. -/
theorem UserHalves.congr (h : UserHalves v roots) (hforest : Forest v' roots)
    (hpaths : PathsAlike v'.mem roots)
    (hwalk : ∀ r ∈ roots, ∀ q, userHalf q → hwTable v'.mem r q = hwTable v.mem r q
      ∧ hwTrail v'.mem r q = hwTrail v.mem r q)
    (hdata : ∀ a, DataFrame v roots a → DataFrame v' roots a) : UserHalves v' roots := by
  refine ⟨hforest, hpaths, ?_, ?_, ?_⟩
  · intro r hr r' hr' i p f hi hf hf'
    have hhalf := userHalf_cons hi p
    rw [(hwalk r hr _ hhalf).1] at hf
    rw [(hwalk r' hr' _ hhalf).1] at hf'
    exact h.apart r hr r' hr' i p f hi hf hf'
  · intro r hr p i f g hp hf hnext
    have hhalf := userHalf_closed p _ (List.prefix_append p [i]) hp
    have hf' := hf
    rw [(hwalk r hr p hhalf).1] at hf'
    have hslot : slots v'.mem f i = slots v.mem f i := by
      have htrail := (hwalk r hr (p ++ [i]) hp).2
      rw [hwTrail_snoc hf, hwTrail_snoc hf', (hwalk r hr p hhalf).2] at htrail
      exact (List.cons.inj (List.append_cancel_left htrail)).1
    rw [hslot] at hnext ⊢
    exact h.writable r hr p i f g hp hf' hnext
  · intro r hr w hw l e hleaf
    have hleaf' : mmuLeaf v.mem r w = some (l, e) := by
      rw [← hleaf]
      show leafAt 3 (hwTrail v.mem r (digits w)) = leafAt 3 (hwTrail v'.mem r (digits w))
      rw [(hwalk r hr _ hw).2]
    obtain ⟨hlevel, huser, hframe, hway⟩ := h.pages r hr w hw l e hleaf'
    have hpath := hwalk r hr _ (userHalf_tablePath hw)
    refine ⟨hlevel, huser, hdata _ hframe, ?_⟩
    rw [hpath.1, hpath.2]
    exact hway

/-- Bytes are written into a frame that is no table. -/
theorem UserHalves.bytes (h : UserHalves v roots) (hgal : 4096 ∣ g)
    (hdata : ∀ n, ¬ TableBelow v.mem roots n g)
    (hm : ∀ a, a < g ∨ g + 4096 ≤ a → m a = v.mem a) :
    UserHalves { v with mem := m } roots := by
  have hwalk := fun r hr q => h.forest.walk_frame (r := r) hgal hdata hm hr q
  have htables : ∀ r ∈ roots, ∀ q, hwTable m r q = hwTable v.mem r q :=
    fun r hr q => (hwalk r hr q).1
  refine h.congr (h.forest.of_tableAt h.forest.pmm h.forest.used htables)
    (h.paths.congr htables) (fun r hr q _ => hwalk r hr q) ?_
  intro a ha
  exact ⟨ha.1, fun n hf => ha.2 n ((tableBelow_congr htables).mp hf)⟩

/-- A walk of the kernel half is written. -/
theorem UserHalves.elsewhere (h : UserHalves v roots) (hforest : Forest v' roots)
    (hpaths : PathsAlike v'.mem roots) (hk : k ∈ roots) (hlocal : Local roots k va v v')
    (hva : ¬ userHalf (digits va)) (hdata : ∀ a, DataFrame v roots a → DataFrame v' roots a) :
    UserHalves v' roots := by
  refine h.congr hforest hpaths ?_ hdata
  intro r hr q hq
  apply hlocal.off h.paths hk hr
  intro hhead
  exact hva fun i hi => hq i (hhead.trans hi)

section Write

variable {table : Nat} (hforest : Forest v roots) (hr : r ∈ roots)
  (htable : hwTable v.mem r (tablePath va) = some table)

include hforest hr htable

/-- The slot of a page is written: the way there stays. -/
theorem trail_write (e : Nat) (hk : k ∈ roots) (w : Nat) :
    hwTrail (setPageEntry v table (ptDigit va) e).mem k (tablePath w)
      = hwTrail v.mem k (tablePath w) := by
  have hbelow : TableBelow v.mem roots 3 table := ⟨r, hr, tablePath va, rfl, htable⟩
  refine ((hforest.writesSlot (i := ptDigit va) hbelow e).off hk ?_).2
  rintro p hpre hp
  have hlen := hforest.levels p.length 3 table ⟨k, hk, p, rfl, hp⟩ hbelow
  have hle : (p ++ [ptDigit va]).length ≤ 3 := hpre.length_le
  rw [List.length_append, hlen, List.length_singleton] at hle
  omega

/-- And the leaf is that of the addresses of the page, under this root. -/
theorem mmuLeaf_write (hpaths : PathsAlike v.mem roots) (he : e < 2 ^ 64)
    (hpresent : pageIsPresent e = true) (w : Nat) :
    mmuLeaf (setPageEntry v table (ptDigit va) e).mem r w
      = if digits w = digits va then some (.pt, e) else mmuLeaf v.mem r w := by
  have hbelow : TableBelow v.mem roots 3 table := ⟨r, hr, tablePath va, rfl, htable⟩
  have hself : slots (setPageEntry v table (ptDigit va) e).mem table (ptDigit va) = e :=
    slots_store_self.trans (Nat.mod_eq_of_lt he)
  obtain ⟨-, -, hleaf⟩ := hforest.write_page (hforest.writesSlot (i := ptDigit va) hbelow e) hbelow
  rw [hleaf r hr w, hself, if_pos hpresent]
  refine if_congr ?_ rfl rfl
  rw [digits_eq, digits_eq]
  constructor
  · rintro ⟨hw, hdigit⟩
    rw [hpaths r hr r hr _ _ table hw htable, hdigit]
  · intro heq
    obtain ⟨hpath, hlast⟩ := List.append_inj' heq rfl
    rw [hpath]
    exact ⟨htable, (List.cons.inj hlast).1⟩

end Write

/-- A page is mapped for users. -/
theorem UserHalves.write {table : Nat} (h : UserHalves v roots) (hr : r ∈ roots)
    (htable : hwTable v.mem r (tablePath va) = some table) (he : e < 2 ^ 64)
    (huser : pageIsUser e = true) (hdata : DataFrame v roots (pageAddress e))
    (hway : ∀ a ∈ hwTrail v.mem r (tablePath va), pageIsUser a = true) :
    UserHalves (setPageEntry v table (ptDigit va) e) roots := by
  have hbelow : TableBelow v.mem roots 3 table := ⟨r, hr, tablePath va, rfl, htable⟩
  have hwrites := h.forest.writesSlot (i := ptDigit va) hbelow e
  obtain ⟨hforest, hwalk, hleaf⟩ := h.forest.write_page hwrites hbelow
  have hself : slots (setPageEntry v table (ptDigit va) e).mem table (ptDigit va) = e :=
    slots_store_self.trans (Nat.mod_eq_of_lt he)
  have hdata' : ∀ a, DataFrame v roots a →
      DataFrame (setPageEntry v table (ptDigit va) e) roots a :=
    fun a ha => ⟨ha.1, fun n hf => ha.2 n ((tableBelow_congr hwalk).mp hf)⟩
  refine ⟨hforest, h.paths.congr hwalk, ?_, ?_, ?_⟩
  · intro r₁ hr₁ r₂ hr₂ i p f hi hf hf'
    rw [hwalk r₁ hr₁] at hf
    rw [hwalk r₂ hr₂] at hf'
    exact h.apart r₁ hr₁ r₂ hr₂ i p f hi hf hf'
  · intro r' hr' p i f g hp hf hnext
    rw [hwalk r' hr'] at hf
    -- the slot is in a page table, which no entry leads on from
    have hslot : slots (setPageEntry v table (ptDigit va) e).mem f i = slots v.mem f i := by
      refine hwrites p.length f i ⟨r', hr', p, rfl, hf⟩ (.inl ?_)
      rintro rfl
      have hlen := h.forest.levels p.length 3 f ⟨r', hr', p, rfl, hf⟩ hbelow
      rw [hlen, mmuNext_leaf] at hnext
      cases hnext
    rw [hslot] at hnext ⊢
    exact h.writable r' hr' p i f g hp hf hnext
  · intro r' hr' w hw l e' hleaf'
    rw [hleaf r' hr' w, hself] at hleaf'
    split_ifs at hleaf' with hon hpresent
    · obtain ⟨rfl, rfl⟩ := Prod.mk.inj (Option.some.inj hleaf')
      have hpath := h.paths r' hr' r hr _ _ table hon.1 htable
      have htable' := htable
      rw [← hpath] at htable'
      obtain rfl : r' = r :=
        h.apart r' hr' r hr _ _ table (hw (pml4Digit w) rfl) hon.1 htable'
      refine ⟨rfl, huser, hdata' _ hdata, table, (hwalk r' hr' _).trans hon.1, ?_⟩
      rw [trail_write h.forest hr' htable e hr', hpath]
      exact hway
    · obtain ⟨hlevel, huser', hframe, table', htable', hway'⟩ := h.pages r' hr' w hw l e' hleaf'
      refine ⟨hlevel, huser', hdata' _ hframe, table', (hwalk r' hr' _).trans htable', ?_⟩
      rw [trail_write h.forest hr htable e hr']
      exact hway'

section EmptyHalf

variable (hempty : ∀ i, i.val < 256 → pageIsPresent (slots m g i) = false)

include hempty

/-- Below an empty half there is nothing. -/
theorem emptyHalf_table (hi : i.val < 256) (p : List (Fin 512)) : hwTable m g (i :: p) = none := by
  rw [hwTable, tableAt, mmuNext_absent (hempty i hi)]

/-- An empty half leads to no table. -/
theorem emptyHalf_next (hp : userHalf (p ++ [i])) (hf : hwTable m g p = some f) :
    mmuNext (3 - p.length) (slots m f i) = none := by
  cases p with
  | nil =>
      obtain rfl : g = f := Option.some.inj hf
      exact mmuNext_absent (hempty i (hp i rfl))
  | cons j p =>
      rw [emptyHalf_table hempty (hp j rfl)] at hf
      cases hf

/-- An empty half maps nothing. -/
theorem emptyHalf_leaf (hw : userHalf (digits w)) : mmuLeaf m g w = none := by
  have habsent := hempty (pml4Digit w) (hw _ rfl)
  have htrail : hwTrail m g (digits w) = [slots m g (pml4Digit w)] := by
    rw [hwTrail, digits, trail, mmuNext_absent habsent]
  show leafAt 3 (hwTrail m g (digits w)) = none
  rw [htrail]
  rfl

end EmptyHalf

/-- A root without a user half joins. -/
theorem UserHalves.newRoot (h : UserHalves v roots) (hgrown : Grown roots v v')
    (hg : PmmClear v.pmm g) (hcopy : CopiesRoots v'.mem roots g) (hforest : Forest v' (g :: roots))
    (hpaths : PathsAlike v'.mem (g :: roots))
    (hempty : ∀ i, i.val < 256 → pageIsPresent (slots v'.mem g i) = false) :
    UserHalves v' (g :: roots) := by
  have h' := h.grow hgrown (hpaths.mono fun r hr => List.mem_cons_of_mem g hr)
  refine ⟨hforest, hpaths, ?_, ?_, ?_⟩
  · intro r hr r' hr' i p f hi hf hf'
    cases List.mem_cons.mp hr with
    | inl hnew =>
        rw [hnew, emptyHalf_table hempty hi p] at hf
        cases hf
    | inr hold =>
        cases List.mem_cons.mp hr' with
        | inl hnew' =>
            rw [hnew', emptyHalf_table hempty hi p] at hf'
            cases hf'
        | inr hold' => exact h'.apart r hold r' hold' i p f hi hf hf'
  · intro r hr p i f f' hp hf hnext
    cases List.mem_cons.mp hr with
    | inr hold => exact h'.writable r hold p i f f' hp hf hnext
    | inl hnew =>
        rw [hnew] at hf
        rw [emptyHalf_next hempty hp hf] at hnext
        cases hnext
  · intro r hr w hw l e hleaf
    cases List.mem_cons.mp hr with
    | inl hnew =>
        rw [hnew, emptyHalf_leaf hempty hw] at hleaf
        cases hleaf
    | inr hold =>
        have hold' := hleaf
        rw [hgrown.leaf r hold w] at hold'
        obtain ⟨hlevel, huser, hdata, hway⟩ := h'.pages r hold w hw l e hleaf
        refine ⟨hlevel, huser, hdata.addRoot hcopy ?_, hway⟩
        rintro rfl
        exact (h.pages r hold w hw l e hold').data.1 hg

-- =============================================================== open pages

/-- Addresses of one page have one leaf. -/
theorem mmuLeaf_digits {w' : Nat} (heq : digits w = digits w') :
    mmuLeaf m r w = mmuLeaf m r w' := by
  show leafAt 3 (hwTrail m r (digits w)) = leafAt 3 (hwTrail m r (digits w'))
  rw [heq]

/-- The page of `w` is present under `r`, and all the entries that lead to
it are for users. -/
def OpenPage (m : Mem) (r w : Nat) : Prop :=
  ∃ table, hwTable m r (tablePath w) = some table
    ∧ (∀ a ∈ hwTrail m r (tablePath w), pageIsUser a = true)
    ∧ pageIsPresent (slots m table (ptDigit w)) = true
    ∧ pageIsUser (slots m table (ptDigit w)) = true

/-- The user gets to such a page. -/
theorem OpenPage.access (h : OpenPage m r w) : ∃ page, userAccess m r w = some page := by
  obtain ⟨table, htable, hway, hpresent, huser⟩ := h
  have hleaf : leafAt 3 (mmuTrail m r w) = some (.pt, slots m table (ptDigit w)) := by
    have hleaf := mmuLeaf_of_table htable
    rw [if_pos hpresent] at hleaf
    exact hleaf
  have husers : (mmuTrail m r w).all pageIsUser = true := by
    have htrail : mmuTrail m r w = hwTrail m r (tablePath w) ++ [slots m table (ptDigit w)] := by
      show hwTrail m r (digits w) = _
      rw [digits_eq, hwTrail_snoc htable]
    rw [htrail, List.all_eq_true]
    intro a ha
    rcases List.mem_append.mp ha with ha | ha
    · exact hway a ha
    · rw [List.mem_singleton.mp ha]
      exact huser
  refine ⟨(.pt, mmuFrame .pt (slots m table (ptDigit w)), (mmuTrail m r w).all pageIsWritable), ?_⟩
  simp only [userAccess, hleaf, husers, if_true]

/-- Growth keeps the page open. -/
theorem OpenPage.grow (h : OpenPage v.mem r w) (hr : r ∈ roots) (hgrown : Grown roots v v') :
    OpenPage v'.mem r w := by
  obtain ⟨table, htable, hway, hslot⟩ := h
  refine ⟨table, hgrown.tables r hr _ table htable, hgrown.trail_user hr htable hway, ?_⟩
  rw [hgrown.pages table (ptDigit w) ⟨r, hr, tablePath w, rfl, htable⟩]
  exact hslot

/-- What is written to a page of data closes nothing. -/
theorem OpenPage.bytes (h : OpenPage v.mem r w) (hforest : Forest v roots) (hr : r ∈ roots)
    (hgal : 4096 ∣ g) (hdata : ∀ n, ¬ TableBelow v.mem roots n g)
    (hm : ∀ a, a < g ∨ g + 4096 ≤ a → m a = v.mem a) : OpenPage m r w := by
  obtain ⟨table, htable, hway, hslot⟩ := h
  obtain ⟨hwalk, htrail⟩ := hforest.walk_frame hgal hdata hm hr (tablePath w)
  refine ⟨table, hwalk.trans htable, ?_, ?_⟩
  · rw [htrail]
    exact hway
  · rw [hforest.slots_frame hgal hdata hm ⟨r, hr, tablePath w, rfl, htable⟩]
    exact hslot

/-- A page that is mapped for users is open, and those that were stay so. -/
theorem openPage_write {table : Nat} (hforest : Forest v roots) (hr : r ∈ roots)
    (htable : hwTable v.mem r (tablePath va) = some table) (he : e < 2 ^ 64)
    (hpresent : pageIsPresent e = true) (huser : pageIsUser e = true)
    (hway : ∀ a ∈ hwTrail v.mem r (tablePath va), pageIsUser a = true) :
    OpenPage (setPageEntry v table (ptDigit va) e).mem r va
      ∧ ∀ w, OpenPage v.mem r w → OpenPage (setPageEntry v table (ptDigit va) e).mem r w := by
  have hbelow : TableBelow v.mem roots 3 table := ⟨r, hr, tablePath va, rfl, htable⟩
  have hwrites := hforest.writesSlot (i := ptDigit va) hbelow e
  obtain ⟨-, hwalk, -⟩ := hforest.write_page hwrites hbelow
  have hself : slots (setPageEntry v table (ptDigit va) e).mem table (ptDigit va) = e :=
    slots_store_self.trans (Nat.mod_eq_of_lt he)
  constructor
  · refine ⟨table, (hwalk r hr _).trans htable, ?_, ?_⟩
    · rw [trail_write hforest hr htable e hr]
      exact hway
    · rw [hself]
      exact ⟨hpresent, huser⟩
  · rintro w ⟨table', htable', hway', hslot⟩
    refine ⟨table', (hwalk r hr _).trans htable', ?_, ?_⟩
    · rw [trail_write hforest hr htable e hr]
      exact hway'
    · by_cases hsame : table' = table ∧ ptDigit w = ptDigit va
      · rw [hsame.1, hsame.2, hself]
        exact ⟨hpresent, huser⟩
      · rw [hwrites 3 table' (ptDigit w) ⟨r, hr, tablePath w, rfl, htable'⟩ (not_and_or.mp hsame)]
        exact hslot

-- ================================================================ the calls

/-- What every call keeps, whether or not it succeeds; `k` is the kernel's
root. -/
structure Keeps (roots : List Nat) (k : Nat) (v v' : Vm) : Prop where
  halves : UserHalves v' roots
  config : v' = { v with mem := v'.mem, pmm := v'.pmm }
  clear : ∀ a, PmmClear v'.pmm a → PmmClear v.pmm a
  kernel : ∀ i, i.val < 256 → slots v'.mem k i = slots v.mem k i

theorem Keeps.refl (h : UserHalves v roots) (k : Nat) : Keeps roots k v v :=
  ⟨h, rfl, fun _ ha => ha, fun _ _ => rfl⟩

/-- What is kept twice is kept. -/
theorem Keeps.trans (h : Keeps roots k v v') (h' : Keeps roots k v' v'') :
    Keeps roots k v v'' := by
  refine ⟨h'.halves, ?_, fun a ha => h.clear a (h'.clear a ha), ?_⟩
  · rw [h'.config, h.config]
  · intro i hi
    rw [h'.kernel i hi, h.kernel i hi]

/-- No frame is given back. -/
theorem Keeps.few (h : Keeps roots k v v') (hv : UserHalves v roots) :
    v'.pmm.freePages ≤ v.pmm.freePages :=
  freePages_le hv.forest.pmm h.halves.forest.pmm h.clear

/-- The frame `g` has been mapped at `va` under `r`. -/
structure NewPage (roots : List Nat) (r va g : Nat) (wr : Bool) (v v' : Vm) : Prop where
  clear : PmmClear v.pmm g
  data : DataFrame v' roots g
  leaf : ∀ w, mmuLeaf v'.mem r w
    = if digits w = digits va then some (.pt, userEntry g wr) else mmuLeaf v.mem r w
  opened : OpenPage v'.mem r va
  kept : ∀ w, OpenPage v.mem r w → OpenPage v'.mem r w
  bytes : ∀ a, 4096 ∣ a → DataFrame v [r] a → ∀ x < 4096, v'.mem (a + x) = v.mem (a + x)

/-- Frames that are neither free nor tables of the root keep their
bytes. -/
theorem mapNewPage_bytes (hv : Forest v [r]) (refusal : Refusal) (va : Nat) (wr : Bool) {a x : Nat}
    (hal : 4096 ∣ a) (ha : DataFrame v [r] a) (hx : x < 4096) :
    (mapNewPage refusal (some r) va wr v).2.mem (a + x) = v.mem (a + x) := by
  have hr : r ∈ [r] := List.mem_cons_self
  rcases mapNewPage_opens hv hr refusal va wr with
    ⟨v', hnone, hext⟩ | ⟨g, v₁, table, htaken, htable, -, hsome⟩
  · rw [hnone]
    exact hext.grown.bytes a hal ha.1 ha.2 x hx
  · have hbelow : TableBelow v₁.mem [r] 3 table := ⟨r, hr, tablePath va, rfl, htable⟩
    have hne : a ≠ table := fun heq => (ha.grow htaken.grown).2 3 (heq ▸ hbelow)
    have hi := (ptDigit va).isLt
    rw [hsome, ← htaken.grown.bytes a hal ha.1 ha.2 x hx]
    obtain ⟨b, rfl⟩ := hal
    obtain ⟨c, rfl⟩ := htaken.grown.forest.table_aligned hbelow
    exact storeWord_outside (by omega)

/-- A page mapped for users under `r`, or not. -/
theorem UserHalves.mapNewPage (h : UserHalves v roots) (hk : k ∈ roots) (hr : r ∈ roots)
    (refusal : Refusal) (va : Nat) (hspare : r = k → ¬ userHalf (digits va)) (wr : Bool) :
    (∃ v', mapNewPage refusal (some r) va wr v = (none, v') ∧ Keeps roots k v v'
        ∧ Extended roots v v')
      ∨ ∃ g v', mapNewPage refusal (some r) va wr v = (some g, v') ∧ Keeps roots k v v'
        ∧ NewPage roots r va g wr v v' := by
  have hlocal := mapNewPage_local h.forest h.paths hr refusal va wr
  have hkernel := fun i hi => hlocal.kernel h.paths hk hr hspare (i := i) hi
  rcases mapNewPage_opens h.forest hr refusal va wr with
    ⟨v', hnone, hext⟩ | ⟨g, v₁, table, htaken, htable, hway, hsome⟩
  · rw [hnone] at hkernel
    exact .inl ⟨v', hnone, ⟨h.grow hext.grown (hext.paths h.paths), hext.grown.config,
      hext.grown.clear, hkernel⟩, hext⟩
  · have hbytes : ∀ a, 4096 ∣ a → DataFrame v [r] a → ∀ x < 4096, _ := fun a hal ha x hx =>
      mapNewPage_bytes (h.forest.mono (List.forall_mem_singleton.mpr hr)) refusal va wr hal ha hx
    rw [hsome] at hkernel hbytes
    obtain ⟨hgal, -, hglt⟩ := h.forest.pmm.clear_frame htaken.clear
    have hlt : g < 2 ^ 52 := Nat.lt_trans hglt (by decide)
    obtain ⟨hpresent, huser, -⟩ := userEntry_bits hgal wr
    have he := userEntry_lt hlt wr
    have h₁ := h.grow htaken.grown (htaken.paths h.paths)
    have hbelow : TableBelow v₁.mem roots 3 table := ⟨r, hr, tablePath va, rfl, htable⟩
    have hg : DataFrame v₁ roots (pageAddress (userEntry g wr)) := by
      rw [userEntry_address hgal hlt wr]
      exact ⟨htaken.used, htaken.data⟩
    obtain ⟨-, hwalk, -⟩ := h₁.forest.write_page
      (h₁.forest.writesSlot (i := ptDigit va) hbelow (userEntry g wr)) hbelow
    obtain ⟨hopened, hkept⟩ := openPage_write h₁.forest hr htable he hpresent huser hway
    refine .inr ⟨g, _, hsome, ⟨h₁.write hr htable he huser hg hway, ?_, htaken.grown.clear,
      hkernel⟩, htaken.clear, ⟨htaken.used, ?_⟩, ?_, hopened, ?_, hbytes⟩
    · rw [htaken.grown.config]
      rfl
    · intro n hf
      exact htaken.data n ((tableBelow_congr hwalk).mp hf)
    · intro w
      rw [mmuLeaf_write h₁.forest hr htable h₁.paths he hpresent w, htaken.grown.leaf r hr w]
    · intro w hw
      exact hkept w (hw.grow hr htaken.grown)

/-- The page's bytes may be set then. -/
theorem NewPage.bytes_set (h : NewPage roots r va g wr v v') (hkeeps : Keeps roots k v v')
    (hv : UserHalves v roots) (hr : r ∈ roots) (hk : k ∈ roots)
    (hm : ∀ a, a < g ∨ g + 4096 ≤ a → m a = v'.mem a) :
    Keeps roots k v { v' with mem := m } ∧ NewPage roots r va g wr v { v' with mem := m } := by
  have hgal : 4096 ∣ g := (hv.forest.pmm.clear_frame h.clear).1
  have hdata := h.data.2
  have hforest := hkeeps.halves.forest
  have hwalk := fun r hr q => hforest.walk_frame (r := r) hgal hdata hm hr q
  have hbelow : ∀ n f, TableBelow m roots n f ↔ TableBelow v'.mem roots n f :=
    fun n f => tableBelow_congr fun r hr q => (hwalk r hr q).1
  refine ⟨⟨hkeeps.halves.bytes hgal hdata hm, ?_, hkeeps.clear, ?_⟩, h.clear,
    ⟨h.data.1, fun n hf => hdata n ((hbelow n g).mp hf)⟩, ?_,
    h.opened.bytes hforest hr hgal hdata hm,
    fun w hw => (h.kept w hw).bytes hforest hr hgal hdata hm, ?_⟩
  · rw [hkeeps.config]
  · intro i hi
    rw [← hkeeps.kernel i hi]
    exact hforest.slots_frame hgal hdata hm ⟨k, hk, [], rfl, rfl⟩ i
  · intro w
    rw [← h.leaf w]
    show leafAt 3 (hwTrail m r (digits w)) = leafAt 3 (hwTrail v'.mem r (digits w))
    rw [(hwalk r hr _).2]
  · intro a hal ha x hx
    have hne : a ≠ g := fun heq => ha.1 (heq ▸ h.clear)
    rw [← h.bytes a hal ha x hx]
    obtain ⟨b, rfl⟩ := hal
    obtain ⟨c, rfl⟩ := hgal
    exact hm _ (by omega)

/-- Without a root nothing is mapped, and nothing written. -/
theorem mapNewPage_rootless (refusal : Refusal) (va : Nat) (wr : Bool) (v : Vm) :
    (mapNewPage refusal none va wr v).1 = none
      ∧ (mapNewPage refusal none va wr v).2.mem = v.mem := by
  unfold mapNewPage
  dsimp only
  split_ifs with hpage hnull hmap hmapped hmapped
  · exact ⟨rfl, rfl⟩
  · exact ⟨rfl, rfl⟩
  · exact hmapped.elim
  · exact ⟨rfl, rfl⟩
  · exact absurd hmapped Bool.false_ne_true
  · exact ⟨rfl, rfl⟩

/-- The same whether or not there is a root. -/
theorem UserHalves.mapNewPage_keeps (h : UserHalves v roots) (hk : k ∈ roots)
    (root : Option Nat) (hroot : ∀ r, root = some r → r ∈ roots ∧ r ≠ k) (refusal : Refusal)
    (va : Nat) (wr : Bool) :
    ∃ page v', Proc.mapNewPage refusal root va wr v = (page, v') ∧ Keeps roots k v v'
      ∧ ∀ g, page = some g → ∃ r, root = some r ∧ NewPage roots r va g wr v v' := by
  cases root with
  | some r =>
      obtain ⟨hr, hne⟩ := hroot r rfl
      rcases h.mapNewPage hk hr refusal va (fun heq => absurd heq hne) wr with
        ⟨v', hnone, hkeeps, -⟩ | ⟨g, v', hsome, hkeeps, hpage⟩
      · exact ⟨none, v', hnone, hkeeps, fun g hg => (nomatch hg)⟩
      · exact ⟨some g, v', hsome, hkeeps, fun g' hg => ⟨r, rfl, Option.some.inj hg ▸ hpage⟩⟩
  | none =>
      obtain ⟨hnone, hmem⟩ := mapNewPage_rootless refusal va wr v
      have hnever : ∀ r, (none : Option Nat) = some r → r ∈ roots := by
        intro r hr
        cases hr
      rcases mapNewPage_maps h.forest hnever refusal va wr with
        ⟨v', hrun, hext⟩ | ⟨r, g, v', table, hbad, -⟩
      · rw [hrun] at hmem
        refine ⟨none, v', hrun, ⟨h.grow hext.grown (hext.paths h.paths), hext.grown.config,
          hext.grown.clear, ?_⟩, fun g hg => (nomatch hg)⟩
        intro i _
        rw [hmem]
      · cases hbad

/-- Pages have been mapped for users at `vas`, under `r`, in frames that
were free. -/
structure Loads (r : Nat) (vas : List Nat) (v v' : Vm) : Prop where
  opened : ∀ va ∈ vas, OpenPage v'.mem r va
  kept : ∀ w, OpenPage v.mem r w → OpenPage v'.mem r w
  leaf : ∀ w, (∀ va ∈ vas, digits w ≠ digits va) → mmuLeaf v'.mem r w = mmuLeaf v.mem r w
  fresh : ∀ va ∈ vas, ∃ g wr, PmmClear v.pmm g ∧ mmuLeaf v'.mem r va = some (.pt, userEntry g wr)

theorem Loads.refl (r : Nat) (v : Vm) : Loads r [] v v :=
  ⟨fun _ hva => absurd hva List.not_mem_nil, fun _ hw => hw, fun _ _ => rfl,
    fun _ hva => absurd hva List.not_mem_nil⟩

/-- Pages that are loaded one after the other. -/
theorem Loads.append {vas vas' : List Nat} (h : Loads r vas v v') (h' : Loads r vas' v' v'')
    (hclear : ∀ a, PmmClear v'.pmm a → PmmClear v.pmm a) : Loads r (vas ++ vas') v v'' := by
  refine ⟨?_, fun w hw => h'.kept w (h.kept w hw), ?_, ?_⟩
  · intro va hva
    cases List.mem_append.mp hva with
    | inl hold => exact h'.kept va (h.opened va hold)
    | inr hnew => exact h'.opened va hnew
  · intro w hw
    rw [List.forall_mem_append] at hw
    rw [h'.leaf w hw.2, h.leaf w hw.1]
  · intro va hva
    by_cases hlast : ∃ va' ∈ vas', digits va = digits va'
    · -- the later page is the one that is left
      obtain ⟨va', hva', heq⟩ := hlast
      obtain ⟨g, wr, hg, hleaf⟩ := h'.fresh va' hva'
      exact ⟨g, wr, hclear g hg, (mmuLeaf_digits heq).trans hleaf⟩
    · push Not at hlast
      rw [h'.leaf va hlast]
      cases List.mem_append.mp hva with
      | inl hold => exact h.fresh va hold
      | inr hnew => exact absurd rfl (hlast va hnew)

/-- One page. -/
theorem NewPage.loads (h : NewPage roots r va g wr v v') : Loads r [va] v v' := by
  refine ⟨List.forall_mem_singleton.mpr h.opened, h.kept, ?_,
    List.forall_mem_singleton.mpr ⟨g, wr, h.clear, ?_⟩⟩
  · intro w hw
    rw [h.leaf w, if_neg (hw va (List.mem_singleton.mpr rfl))]
  · rw [h.leaf va, if_pos rfl]

/-- The pages that `process_map_segment` maps. -/
def segmentPages (ph : ElfProgramHeader) : List Nat :=
  (List.range (segmentPageCount ph)).map (segmentPage ph)

/-- The loop of `process_map_segment`. -/
theorem UserHalves.segmentFrom (hk : k ∈ roots) {root : Option Nat}
    (hroot : ∀ r, root = some r → r ∈ roots ∧ r ≠ k) (refusals : Nat → Refusal)
    (ph : ElfProgramHeader) (elf : Nat → Byte) (rounds i : Nat) (h : UserHalves v roots) :
    ∃ rc mapped v', processMapSegmentFrom refusals root ph elf rounds i v = (rc, mapped, v')
      ∧ Keeps roots k v v'
      ∧ ∀ r, root = some r → rc = kernelSuccess →
        Loads r ((List.range' i rounds).map (segmentPage ph)) v v' := by
  induction rounds generalizing i v with
  | zero => exact ⟨kernelSuccess, i, v, rfl, Keeps.refl h k, fun r _ _ => Loads.refl r v⟩
  | succ rounds ih =>
      obtain ⟨page, v₁, hmap, hkeeps, hpage⟩ :=
        h.mapNewPage_keeps hk root hroot (refusals i) (segmentPage ph i) (ph.flags &&& pfW != 0)
      cases page with
      | none =>
          refine ⟨kernelEnomem, i, v₁, ?_, hkeeps, fun r _ hok => absurd hok enomem_ne⟩
          rw [processMapSegmentFrom, hmap]
      | some g =>
          obtain ⟨r, hr, hnew⟩ := hpage g rfl
          -- the loader writes the page's bytes, and goes on
          obtain ⟨hkeeps₁, hnew₁⟩ := hnew.bytes_set hkeeps h (hroot r hr).1 hk
            fun a ha => loadSegmentPage_outside ph elf (i * pageSize) ha
          obtain ⟨rc, mapped, v', hrest, hkeeps', hloads⟩ := ih (i + 1) hkeeps₁.halves
          refine ⟨rc, mapped, v', ?_, hkeeps₁.trans hkeeps', ?_⟩
          · rw [processMapSegmentFrom, hmap]
            exact hrest
          · intro r' hr' hok
            obtain rfl : r = r' := Option.some.inj (hr.symm.trans hr')
            rw [List.range'_succ, List.map_cons]
            exact hnew₁.loads.append (hloads r hr hok) hkeeps₁.clear

/-- Mapping the segments keeps the user halves, and when it succeeds every
page of theirs is loaded. -/
theorem UserHalves.segments (hk : k ∈ roots) (processes : Nat → Process) (process base : Nat)
    (hroot : ∀ r, pageTablePointer (processes process).pageTable = some r → r ∈ roots ∧ r ≠ k)
    (refusals : Nat → Nat → Refusal) (elf : Nat → Byte) (i : Nat)
    (segments : List ElfProgramHeader) (h : UserHalves v roots) :
    ∃ rc v', processMapSegments refusals processes process base elf i segments v = (rc, v')
      ∧ Keeps roots k v v'
      ∧ ∀ r, pageTablePointer (processes process).pageTable = some r → rc = kernelSuccess →
        Loads r (segments.flatMap segmentPages) v v' := by
  induction segments generalizing i v with
  | nil => exact ⟨kernelSuccess, v, rfl, Keeps.refl h k, fun r _ _ => Loads.refl r v⟩
  | cons ph segments ih =>
      have hsegment : ∃ rc mapped v₁,
          processMapSegment (refusals i) processes process (some ph) base elf v = (rc, mapped, v₁)
            ∧ Keeps roots k v v₁
            ∧ ∀ r, pageTablePointer (processes process).pageTable = some r →
              rc = kernelSuccess → Loads r (segmentPages ph) v v₁ := by
        unfold processMapSegment
        dsimp only
        split_ifs
        · exact ⟨_, _, v, rfl, Keeps.refl h k, fun r _ hok => absurd hok einval_ne⟩
        · exact ⟨_, _, v, rfl, Keeps.refl h k, fun r _ hok => absurd hok einval_ne⟩
        · have hloop := h.segmentFrom hk hroot (refusals i) ph elf (segmentPageCount ph) 0
          rw [← List.range_eq_range'] at hloop
          exact hloop
      obtain ⟨rc, mapped, v₁, hrun, hkeeps, hloads⟩ := hsegment
      rw [processMapSegments, hrun]
      dsimp only
      split_ifs with hfailed
      · exact ⟨rc, v₁, rfl, hkeeps, fun r _ hok => absurd hok hfailed⟩
      · obtain ⟨rc', v', hrest, hkeeps', hloads'⟩ := ih (i + 1) hkeeps.halves
        refine ⟨rc', v', hrest, hkeeps.trans hkeeps', ?_⟩
        intro r hr hok
        rw [List.flatMap_cons]
        exact (hloads r hr (not_not.mp hfailed)).append (hloads' r hr hok) hkeeps.clear

end ZenithOS.Proc
