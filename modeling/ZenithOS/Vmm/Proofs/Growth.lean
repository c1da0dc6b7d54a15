/-
What the page-table calls do to a forest.

A creating walk grows the forest (`Forest.walk_extended`), by one link at a
time. `page_table_map` and `page_table_map_user` are such a growth, and on
success one more entry in a page table (`MapsPage`); what that entry does
to the mappings of every root is said once (`Forest.mapped_leaf`).
-/
import ZenithOS.Vmm.Proofs.Forest
import ZenithOS.Vmm.Proofs.Translate

namespace ZenithOS.Vmm

open Lib Mm

variable {v v' : Vm} {m : Mem} {roots : List Nat} {r r' k f g n va w : Nat}
  {p q : List (Fin 512)} {i : Fin 512}

-- ========================================================== creating walks

/-- Each table is at one path, the same under every root. -/
def PathsAlike (m : Mem) (roots : List Nat) : Prop :=
  ∀ r ∈ roots, ∀ r' ∈ roots, ∀ p p' f, hwTable m r p = some f → hwTable m r' p' = some f → p = p'

/-- A growth in which only tables were taken, each at one path. -/
structure Extended (roots : List Nat) (v v' : Vm) : Prop where
  grown : Grown roots v v'
  taken : ∀ a, PmmClear v.pmm a → PmmClear v'.pmm a ∨ ∃ n, TableBelow v'.mem roots n a
  paths : PathsAlike v.mem roots → PathsAlike v'.mem roots

theorem Extended.refl (h : Forest v roots) : Extended roots v v :=
  ⟨Grown.refl h, fun _ ha => .inl ha, id⟩

/-- Extended twice is extended. -/
theorem Extended.trans {v'' : Vm} (h : Extended roots v v') (h' : Extended roots v' v'') :
    Extended roots v v'' := by
  refine ⟨h.grown.trans h'.grown, ?_, fun hpaths => h'.paths (h.paths hpaths)⟩
  intro a ha
  rcases h.taken a ha with hfree | ⟨n, hf⟩
  · exact h'.taken a hfree
  · exact .inr ⟨n, h'.grown.below hf⟩

/-- The tables stay where they are. -/
theorem PathsAlike.congr (h : PathsAlike v.mem roots)
    (hsame : ∀ r ∈ roots, ∀ q, hwTable m r q = hwTable v.mem r q) : PathsAlike m roots := by
  intro r hr r' hr' p p' f hp hp'
  rw [hsame r hr] at hp
  rw [hsame r' hr'] at hp'
  exact h r hr r' hr' p p' f hp hp'

/-- A link is a growth. -/
theorem LinksSlot.grown {pmm : Pmm} (h : LinksSlot v roots m n f i g) (hv : Forest v roots)
    (hpmm : PmmInv pmm) (hclear : ∀ a, PmmClear pmm a → PmmClear v.pmm a ∧ a ≠ g)
    (hm : ∀ a, (a < g ∨ g + 4096 ≤ a) → (a < f + 8 * i.val ∨ f + 8 * i.val + 8 ≤ a) →
      m a = v.mem a) :
    Grown roots v { v with mem := m, pmm := pmm } := by
  have hgal := (hv.pmm.clear_frame h.clear).1
  have hlevel := h.level
  refine ⟨h.forest hv hpmm hclear, rfl, fun a ha => (hclear a ha).1, ?_, ?_, ?_, ?_, ?_, ?_, ?_, ?_,
    ?_⟩
  · intro r hr p f' hf
    exact (h.tableAt_iff hv hr p f').mpr (.inl hf)
  · intro n' f' hf
    cases h.below hv hf with
    | inl hold => exact .inl hold
    | inr hg => exact .inr (hg.1 ▸ h.clear)
  · intro r hr w
    exact h.leafAt_eq hv hr rfl
  · intro n' f' j hf hpresent
    dsimp only at hf hpresent ⊢
    cases h.below hv hf with
    | inl hold =>
        by_cases hslot : f' = f ∧ j = i
        · rw [hslot.1, hslot.2, hv.levels n' n f (hslot.1 ▸ hold) h.table, h.after]
          exact .inl (by simp)
        · refine .inr ⟨hold, h.writes n' f' j hold ?_⟩
          rw [← not_and_or]
          exact hslot
    | inr hg =>
        rw [hg.1, h.empty j] at hpresent
        cases hpresent
  · intro f' j hf
    refine h.writes 3 f' j hf (.inl ?_)
    intro heq
    have hsame := hv.levels 3 n f' hf (heq ▸ h.table)
    omega
  · -- the slot led nowhere before
    intro n' f' j g' hf hnext
    refine .inl (h.writes n' f' j hf ?_)
    rw [← not_and_or]
    rintro ⟨rfl, rfl⟩
    rw [mmuNext_absent h.before] at hnext
    cases hnext
  · intro n' f' j g' hf hnext
    dsimp only at hf hnext ⊢
    cases h.below hv hf with
    | inl hold =>
        by_cases hslot : f' = f ∧ j = i
        · rw [hslot.1, hslot.2]
          exact .inr h.writable
        · refine .inl ⟨hold, ?_⟩
          rw [← h.writes n' f' j hold (not_and_or.mp hslot)]
          exact hnext
    | inr hg =>
        rw [hg.1, h.empty j, mmuNext_absent rfl] at hnext
        cases hnext
  · intro g' hal hfree hdata x hx
    have hne : g' ≠ g := fun heq => hfree (heq ▸ h.clear)
    have hnf : g' ≠ f := fun heq => hdata n (heq ▸ h.table)
    have hfal := hv.table_aligned h.table
    have hi := i.isLt
    obtain ⟨a, rfl⟩ := hal
    obtain ⟨b, hb⟩ := hgal
    obtain ⟨c, rfl⟩ := hfal
    have hb' : g = 4096 * b := hb
    exact hm _ (by omega) (by omega)
  · intro r hr r' hr' p f' hf hf'
    dsimp only at hf hf'
    rcases (h.tableAt_iff hv hr p f').mp hf with hold | ⟨heq, q, rfl, hq⟩
    · rcases (h.tableAt_iff hv hr' p f').mp hf' with hold' | ⟨heq, -⟩
      · exact ⟨p, f', List.prefix_rfl, hold, hold'⟩
      · exact absurd h.clear (hv.used _ g ⟨r, hr, p, rfl, heq ▸ hold⟩)
    · rcases (h.tableAt_iff hv hr' _ f').mp hf' with hold' | ⟨-, q', hq', hq''⟩
      · exact absurd h.clear (hv.used _ g ⟨r', hr', _, rfl, heq ▸ hold'⟩)
      · obtain rfl : q = q' := List.append_cancel_right hq'
        exact ⟨q, f, List.prefix_append q [i], hq, hq''⟩

/-- The new table, alone, is taken, and it is at one path. -/
theorem LinksSlot.extended {pmm : Pmm} (h : LinksSlot v roots m n f i g) (hv : Forest v roots)
    (hclear : ∀ a, PmmClear pmm a ↔ PmmClear v.pmm a ∧ a ≠ g)
    (hgrown : Grown roots v { v with mem := m, pmm := pmm }) :
    Extended roots v { v with mem := m, pmm := pmm } := by
  have hnew : ∀ r ∈ roots, ∀ p, hwTable v.mem r p ≠ some g :=
    fun r hr p hp => hv.used _ g ⟨r, hr, p, rfl, hp⟩ h.clear
  refine ⟨hgrown, ?_, ?_⟩
  · intro a ha
    by_cases heq : a = g
    · obtain ⟨r, hr, p, hlen, hp⟩ := h.table
      refine .inr ⟨(p ++ [i]).length, r, hr, p ++ [i], rfl, ?_⟩
      exact (h.tableAt_iff hv hr _ a).mpr (.inr ⟨heq, p, rfl, hp⟩)
    · exact .inl ((hclear a).mpr ⟨ha, heq⟩)
  · intro hpaths r hr r' hr' p p' f' hp hp'
    rcases (h.tableAt_iff hv hr p f').mp hp with hold | ⟨heq, q, rfl, hq⟩
    · rcases (h.tableAt_iff hv hr' p' f').mp hp' with hold' | ⟨heq, -⟩
      · exact hpaths r hr r' hr' p p' f' hold hold'
      · exact absurd (heq ▸ hold) (hnew r hr p)
    · rcases (h.tableAt_iff hv hr' p' f').mp hp' with hold' | ⟨-, q', rfl, hq'⟩
      · exact absurd (heq ▸ hold') (hnew r' hr' p')
      · rw [hpaths r hr r' hr' q q' f hq hq']

/-- One new table. -/
theorem LinkStep.extended (hstep : LinkStep (· <+: q) k v v') (hv : Forest v roots)
    (hk : k ∈ roots) : Extended roots v v' := by
  cases hstep with
  | pmm pmm hinv hclear =>
      refine ⟨?_, fun a ha => .inl ((hclear a).mpr ha), id⟩
      exact Grown.of_tableAt (m := v.mem) hv hinv (fun a => (hclear a).mp) (fun _ _ _ => rfl)
        (fun _ _ _ => rfl) (fun _ _ _ _ => .inl rfl) (fun _ _ _ _ _ _ => rfl)
  | link pmm p i f g hpath hlen hf habsent hg hvirtual hinv hclear =>
      obtain ⟨hgal, -, hglt⟩ := hv.pmm.clear_frame hg
      have hglt' : g < 2 ^ 52 := Nat.lt_trans hglt (by decide)
      obtain ⟨hself, hempty, hother⟩ :=
        slots_linkTable pmm (hv.tablesOk hk q) hpath hf hg
      have hlinks : LinksSlot v roots (linkTable v pmm f i g).mem p.length f i g := by
        refine ⟨⟨k, hk, p, rfl, hwTable_of_tableAt hf⟩, hlen, habsent, hg, ?_, ?_, hempty, ?_⟩
        · obtain ⟨hpresent, -, -, hhuge⟩ := tableEntry_bits hgal
          rw [hself, mmuNext, if_pos, tableEntry_address hgal hglt']
          exact ⟨by omega, hpresent, .inr (by simp [hhuge])⟩
        · rw [hself]
          exact (tableEntry_bits hgal).2.1
        · intro n' f' j hf' hslot
          exact hother f' j (hv.table_aligned hf') (fun heq => hv.used n' f' hf' (heq ▸ hg)) hslot
      refine hlinks.extended hv hclear (hlinks.grown hv hinv (fun a => (hclear a).mp) ?_)
      intro a hout hout'
      show storeWord (fill v.mem g 0#8 pageSize) (f + 8 * i.val) (tableEntry g) a = v.mem a
      rw [storeWord_outside hout']
      exact fill_outside hout

/-- Several of them. -/
theorem LinkSteps.extended (hsteps : LinkSteps (· <+: q) k v v') (hv : Forest v roots)
    (hk : k ∈ roots) : Extended roots v v' := by
  induction hsteps with
  | refl => exact Extended.refl hv
  | tail _ hstep ih => exact ih.trans (hstep.extended ih.grown.forest hk)

/-- A creating walk grows the forest, and on success comes to the slot of
the address. -/
theorem Forest.walk_extended (hv : Forest v roots) (hk : k ∈ roots) (va : Nat) :
    ∃ result v', pageWalkInternal v (some k) va true = (result, v') ∧ Extended roots v v'
      ∧ ∀ s l, result = .ok (s, l) → l = .pt
        ∧ ∃ table, s = (table, (ptDigit va).val) ∧ v'.tableAt k (tablePath va) = some table := by
  have hcreates := (hv.tablesOk hk (digits va)).pageWalkInternal_creates List.prefix_rfl
  cases hwalk : pageWalkInternal v (some k) va true with
  | mk result v' =>
      rw [hwalk] at hcreates
      exact ⟨result, v', rfl, hcreates.1.extended hv hk, hcreates.2⟩

-- ================================================================ one walk

/-- From `v` to `v'` the slots of the tables stay, but for those that the
walk of `va` from `k` reads. -/
def Local (roots : List Nat) (k va : Nat) (v v' : Vm) : Prop :=
  ∀ n f i, TableBelow v.mem roots n f →
    (∀ p, p ++ [i] <+: digits va → hwTable v.mem k p ≠ some f) →
      slots v'.mem f i = slots v.mem f i

theorem Local.refl (roots : List Nat) (k va : Nat) (v : Vm) : Local roots k va v v :=
  fun _ _ _ _ _ => rfl

/-- A walk that comes to a table after the growth came to it before. -/
theorem Grown.table_back (h : Grown roots v v') (hr : r ∈ roots) (hr' : r' ∈ roots)
    (hf : hwTable v.mem r p = some f) (hf' : hwTable v'.mem r' p = some f) :
    hwTable v.mem r' p = some f := by
  obtain ⟨q, g, ⟨t, rfl⟩, hg, hg'⟩ := h.meet r hr r' hr' p f (h.tables r hr p f hf) hf'
  unfold hwTable at hg hg' hf ⊢
  rw [tableAt_append, hg, Option.bind_some] at hf
  rw [tableAt_append, hg', Option.bind_some]
  exact hf

/-- One walk after the other. -/
theorem Local.trans {v'' : Vm} (h : Local roots k va v v') (hgrown : Grown roots v v')
    (hpaths : PathsAlike v'.mem roots) (hk : k ∈ roots) (h' : Local roots k va v' v'') :
    Local roots k va v v'' := by
  intro n f i hf hoff
  rw [h' n f i (hgrown.below hf), h n f i hf hoff]
  intro p hpre hp
  obtain ⟨r, hr, q, -, hq⟩ := hf
  obtain rfl : q = p := hpaths r hr k hk q p f (hgrown.tables r hr q f hq) hp
  exact hoff q hpre (hgrown.table_back hr hk hq hp)

/-- A slot on the way is stored. -/
theorem Forest.setPageEntry_local (hv : Forest v roots) (hk : k ∈ roots)
    (hpre : p ++ [i] <+: digits va) (hp : hwTable v.mem k p = some f) (e : Nat) :
    Local roots k va v (setPageEntry v f i e) := by
  intro n f' j hf' hoff
  apply slots_store_other (hwTable_aligned (hv.aligned k hk) hp) (hv.table_aligned hf')
  by_contra hboth
  rw [not_or, not_not, not_not] at hboth
  obtain ⟨rfl, rfl⟩ := hboth
  exact hoff p hpre hp

/-- Marking a slot of the walk. -/
theorem Forest.markUser_local (hv : Forest v roots) (hk : k ∈ roots)
    (hpre : p ++ [i] <+: digits va) (hp : hwTable v.mem k p = some f)
    (hmark : markUser v f i = (g, v')) : Local roots k va v v' := by
  obtain rfl : (markUser v f i).2 = v' := congrArg Prod.snd hmark
  exact hv.setPageEntry_local hk hpre hp _

/-- A table linked on the walk. -/
theorem LinkStep.local (hstep : LinkStep (· <+: digits va) k v v') (hv : Forest v roots)
    (hk : k ∈ roots) : Local roots k va v v' := by
  cases hstep with
  | pmm pmm hinv hclear => exact fun _ _ _ _ _ => rfl
  | link pmm p i f g hpath hlen hf habsent hg hvirtual hinv hclear =>
      obtain ⟨-, -, hother⟩ := slots_linkTable pmm (hv.tablesOk hk (digits va)) hpath hf hg
      intro n f' j hf' hoff
      refine hother f' j (hv.table_aligned hf') (fun heq => hv.used n f' hf' (heq ▸ hg)) ?_
      by_contra hboth
      rw [not_or, not_not, not_not] at hboth
      obtain ⟨rfl, rfl⟩ := hboth
      exact hoff p hpath (hwTable_of_tableAt hf)

/-- Several of them. -/
theorem LinkSteps.local (hsteps : LinkSteps (· <+: digits va) k v v') (hv : Forest v roots)
    (hpaths : PathsAlike v.mem roots) (hk : k ∈ roots) : Local roots k va v v' := by
  induction hsteps with
  | refl => exact Local.refl roots k va v
  | tail hsteps hstep ih =>
      have hext := LinkSteps.extended hsteps hv hk
      exact ih.trans hext.grown (hext.paths hpaths) hk (hstep.local hext.grown.forest hk)

/-- A walk changes slots of its own way. -/
theorem Forest.walk_local (hv : Forest v roots) (hpaths : PathsAlike v.mem roots) (hk : k ∈ roots)
    (va : Nat) : Local roots k va v (pageWalkInternal v (some k) va true).2 :=
  ((hv.tablesOk hk (digits va)).pageWalkInternal_creates List.prefix_rfl).1.local hv hpaths hk

/-- Walks that part from it at the root. -/
theorem Local.off (h : Local roots k va v v') (hpaths : PathsAlike v.mem roots) (hk : k ∈ roots)
    (hr : r ∈ roots) (hne : q.head? ≠ some (pml4Digit va)) :
    hwTable v'.mem r q = hwTable v.mem r q ∧ hwTrail v'.mem r q = hwTrail v.mem r q := by
  apply walk_congr
  intro p j f hpre hf
  refine h p.length f j ⟨r, hr, p, rfl, hf⟩ ?_
  intro p' hpre' hf'
  obtain rfl : p = p' := hpaths r hr k hk p p' f hf hf'
  apply hne
  have hhead : ∀ l : List (Fin 512), p ++ [j] <+: l → l.head? = (p ++ [j]).head? := by
    rintro l ⟨t, rfl⟩
    cases p with
    | nil => rfl
    | cons i p => rfl
  rw [hhead q hpre, ← hhead (digits va) hpre']
  rfl

/-- A walk writes into the kernel's own table only where it goes through
it. -/
theorem Local.kernel (h : Local roots r va v v') (hpaths : PathsAlike v.mem roots)
    (hk : k ∈ roots) (hr : r ∈ roots) (hspare : r = k → ¬ userHalf (digits va)) (hi : i.val < 256) :
    slots v'.mem k i = slots v.mem k i := by
  refine h 0 k i ⟨k, hk, [], rfl, rfl⟩ ?_
  intro p hpre hp
  obtain rfl : p = [] := hpaths r hr k hk p [] k hp rfl
  apply hspare (Option.some.inj hp)
  intro j hj
  obtain ⟨t, ht⟩ := hpre
  rw [← ht] at hj
  obtain rfl : i = j := Option.some.inj hj
  exact hi

-- ============================================================= open tables

/-- A present entry leads to its address. -/
theorem mmuNext_eq_some {e : Nat} (h : mmuNext n e = some g) :
    g = pageAddress e ∧ pageIsPresent e = true := by
  unfold mmuNext at h
  split_ifs at h with hcond
  exact ⟨(Option.some.inj h).symm, hcond.2.1⟩

/-- An entry on the way decides nothing about the leaf. -/
theorem leafAt_middle (l l' : List Nat) (e e' e'' n : Nat) :
    leafAt n (l ++ e :: e'' :: l') = leafAt n (l ++ e' :: e'' :: l') := by
  induction l generalizing n with
  | nil =>
      cases n with
      | zero => rfl
      | succ n => rw [List.nil_append, List.nil_append, leafAt_cons, leafAt_cons]
  | cons a l ih =>
      obtain ⟨b, l₁, heq⟩ := List.exists_cons_of_ne_nil
        (List.append_ne_nil_of_right_ne_nil l (List.cons_ne_nil e (e'' :: l')))
      obtain ⟨c, l₂, heq'⟩ := List.exists_cons_of_ne_nil
        (List.append_ne_nil_of_right_ne_nil l (List.cons_ne_nil e' (e'' :: l')))
      rw [List.cons_append, List.cons_append, heq, heq']
      cases n with
      | zero => rfl
      | succ n =>
          rw [leafAt_cons, leafAt_cons, ← heq, ← heq']
          exact ih n

/-- A slot that leads to a table and still leads there: every page keeps
its leaf. -/
theorem Forest.rewrite_leafAt (hv : Forest v roots) (hw : WritesSlot v roots m f i)
    (hf : TableBelow v.mem roots n f) (hn : n ≤ 2)
    (hnext : mmuNext (3 - n) (slots v.mem f i) = some g)
    (hsame : mmuNext (3 - n) (slots m f i) = some g) (hr : r ∈ roots) (hfour : q.length = 4) :
    leafAt 3 (hwTrail m r q) = leafAt 3 (hwTrail v.mem r q) := by
  by_cases hon : ∃ p, p ++ [i] <+: q ∧ hwTable v.mem r p = some f
  · obtain ⟨p, hpre, hp⟩ := hon
    have hlen : p.length = n := hv.levels _ _ f ⟨r, hr, p, rfl, hp⟩ hf
    obtain ⟨q', rfl⟩ := hpre
    have hmore : q' ≠ [] := by
      intro hnil
      rw [hnil, List.append_nil, List.length_append, List.length_singleton] at hfour
      omega
    obtain ⟨j, q'', rfl⟩ := List.exists_cons_of_ne_nil hmore
    have hpre : p <+: p ++ [i] ++ j :: q'' := by
      rw [List.append_assoc]
      exact List.prefix_append p _
    obtain ⟨l, hbefore, hafter⟩ := (hv.tree hr _).rewrite_trail (closed_ancestors _) hpre hp
      (hw.writesAt hr _) (by rw [hlen, hsame, hnext]) List.prefix_rfl
    -- the walk goes on below the slot
    have hbelow : hwTrail v.mem r (p ++ [i] ++ j :: q'') = hwTrail v.mem r p
        ++ slots v.mem f i :: trail mmuNext (slots v.mem) (3 - n - 1) g (j :: q'') := by
      rw [List.append_assoc, hwTrail, trail_append hp, List.singleton_append, trail, hlen, hnext]
    rw [hwTrail, hbefore] at hbelow
    have hl : l = trail mmuNext (slots v.mem) (3 - n - 1) g (j :: q'') :=
      List.tail_eq_of_cons_eq (List.append_cancel_left hbelow)
    rw [hwTrail, hwTrail, hbefore, hafter, hl, trail]
    exact leafAt_middle _ _ _ _ _ _
  · rw [(hw.off hr fun p hpre hp => hon ⟨p, hpre, hp⟩).2]

/-- An entry that leads to a table is opened to users. -/
theorem Forest.markUser_extended (hv : Forest v roots) (hr : r ∈ roots)
    (hf : hwTable v.mem r p = some f) (hg : hwTable v.mem r (p ++ [i]) = some g) :
    ∃ v', markUser v f i = (g, v') ∧ Extended roots v v' := by
  have hbelow : TableBelow v.mem roots p.length f := ⟨r, hr, p, rfl, hf⟩
  have hfal := hv.table_aligned hbelow
  have hlen := hwTable_length hg
  rw [List.length_append, List.length_singleton] at hlen
  rw [hwTable, tableAt_snoc hf] at hg
  have hslots : ∀ f' j, 4096 ∣ f' → slots (markUser v f i).2.mem f' j
      = if f' = f ∧ j = i then slots v.mem f i ||| pageUser else slots v.mem f' j :=
    fun f' j hal => slots_markUser hfal hal j
  have hself : slots (markUser v f i).2.mem f i = slots v.mem f i ||| pageUser := by
    rw [hslots f i hfal, if_pos ⟨rfl, rfl⟩]
  have hwrites : WritesSlot v roots (markUser v f i).2.mem f i := by
    intro n' f' j hf' hslot
    rw [hslots f' j (hv.table_aligned hf'), if_neg]
    rw [not_and_or]
    exact hslot
  have hsame : mmuNext (3 - p.length) (slots (markUser v f i).2.mem f i) = some g := by
    rw [hself, mmuNext_marked]
    exact hg
  refine ⟨(markUser v f i).2, ?_, ?_⟩
  · exact Prod.ext (mmuNext_eq_some hg).1.symm rfl
  · have htables : ∀ r' ∈ roots, ∀ q,
        hwTable (markUser v f i).2.mem r' q = hwTable v.mem r' q :=
      fun r' hr' q => hv.rewrite_tableAt hwrites hbelow (hsame.trans hg.symm) hr' q
    refine ⟨?_, fun a ha => .inl ha, fun hpaths => hpaths.congr htables⟩
    refine Grown.of_tableAt hv hv.pmm (fun _ ha => ha) htables ?_ ?_ ?_
    · intro r' hr' w
      exact hv.rewrite_leafAt hwrites hbelow (by omega) hg hsame hr' rfl
    · intro n' f' j hf'
      by_cases hslot : f' = f ∧ j = i
      · rw [hslot.1, hslot.2, hv.levels n' p.length f (hslot.1 ▸ hf') hbelow]
        exact .inr ⟨hself, g, hg⟩
      · refine .inl (hwrites n' f' j hf' ?_)
        rw [← not_and_or]
        exact hslot
    · intro g' hal _ hdata x hx
      have hne : g' ≠ f := fun heq => hdata _ (heq ▸ hbelow)
      have hi := i.isLt
      obtain ⟨a, rfl⟩ := hal
      obtain ⟨b, rfl⟩ := hfal
      exact storeWord_outside (by omega)

-- ============================================================ mapping calls

/-- A mapping call for `va` under `root`: a growth, and on success then
the entry `e` in the slot of the address. -/
def MapsPage (roots : List Nat) (root : Option Nat) (va e : Nat) (v : Vm)
    (result : Bool × Vm) : Prop :=
  (∃ v', result = (false, v') ∧ Extended roots v v')
    ∨ ∃ k v' table, root = some k ∧ k ∈ roots ∧ Extended roots v v'
      ∧ hwTable v'.mem k (tablePath va) = some table
      ∧ result = (true, setPageEntry v' table (ptDigit va) e)

/-- `page_table_map` maps one page, or fails with the translations as they
were. -/
theorem Forest.pageTableMap_maps (hv : Forest v roots)
    (hactive : ∀ k, pageTableActiveRoot v = some k → k ∈ roots) (va pa flags : Nat) :
    MapsPage roots (pageTableActiveRoot v) va (mapEntry pa flags) v
      (pageTableMap v va pa flags) := by
  cases hroot : pageTableActiveRoot v with
  | none =>
      refine .inl ⟨v, ?_, Extended.refl hv⟩
      rw [pageTableMap, hroot, pageWalkInternal]
  | some k =>
      have hk := hactive k hroot
      obtain ⟨v', hsteps, hcases⟩ := (hv.tablesOk hk (digits va)).pageTableMap_cases hroot
        List.prefix_rfl pa flags
      have hgrown := hsteps.extended hv hk
      cases hcases with
      | inl hfalse => exact .inl ⟨v', hfalse, hgrown⟩
      | inr htrue =>
          obtain ⟨table, htable, htrue⟩ := htrue
          exact .inr ⟨k, v', table, rfl, hk, hgrown, hwTable_of_tableAt htable, htrue⟩

/-- The page's own slot is on the walk, too. -/
theorem Local.store_page {table : Nat} (h : Local roots k va v v') (hgrown : Grown roots v v')
    (hpaths : PathsAlike v'.mem roots) (hk : k ∈ roots)
    (htable : hwTable v'.mem k (tablePath va) = some table) (e : Nat) :
    Local roots k va v (setPageEntry v' table (ptDigit va) e) :=
  h.trans hgrown hpaths hk
    (hgrown.forest.setPageEntry_local hk (p := tablePath va) List.prefix_rfl htable e)

/-- `page_table_map` changes slots of its own way. -/
theorem Forest.pageTableMap_local (hv : Forest v roots) (hpaths : PathsAlike v.mem roots)
    (hroot : pageTableActiveRoot v = some k) (hk : k ∈ roots) (va pa flags : Nat) :
    Local roots k va v (pageTableMap v va pa flags).2 := by
  obtain ⟨v', hsteps, hcases⟩ := (hv.tablesOk hk (digits va)).pageTableMap_cases hroot
    List.prefix_rfl pa flags
  have hext := hsteps.extended hv hk
  have hlocal := hsteps.local hv hpaths hk
  rcases hcases with hfalse | ⟨table, htable, htrue⟩
  · rw [hfalse]
    exact hlocal
  · rw [htrue]
    exact hlocal.store_page hext.grown (hext.paths hpaths) hk (hwTable_of_tableAt htable) _

theorem hwTrail_snoc (hf : hwTable m r p = some f) :
    hwTrail m r (p ++ [i]) = hwTrail m r p ++ [slots m f i] := by
  rw [hwTrail, trail_append hf]
  show _ ++ trail mmuNext (slots m) _ f [i] = _
  rw [trail]
  cases mmuNext (3 - p.length) (slots m f i) with
  | none => rfl
  | some g => rfl

/-- What holds of the entries on the way to a table, and of such an entry
when it is opened to users, holds after a growth. -/
theorem Grown.trail (h : Grown roots v v') (hr : r ∈ roots) {B : Nat → Prop}
    (hB : ∀ e, B e → B (e ||| pageUser)) (hf : hwTable v.mem r p = some f)
    (hall : ∀ a ∈ hwTrail v.mem r p, B a) : ∀ a ∈ hwTrail v'.mem r p, B a := by
  induction p using List.reverseRecOn generalizing f with
  | nil => exact fun a ha => absurd ha List.not_mem_nil
  | append_singleton p i ih =>
      obtain ⟨f', hf'⟩ := tableAt_prefix (List.prefix_append p [i]) hf
      rw [hwTrail_snoc hf', List.forall_mem_append, List.forall_mem_singleton] at hall
      rw [hwTrail_snoc (h.tables r hr p f' hf'), List.forall_mem_append, List.forall_mem_singleton]
      refine ⟨ih hf' hall.1, ?_⟩
      rw [hwTable, tableAt_snoc hf'] at hf
      rcases h.kept p.length f' i f ⟨r, hr, p, rfl, hf'⟩ hf with heq | heq
      · rw [heq]
        exact hall.2
      · rw [heq]
        exact hB _ hall.2

/-- The entries on the way to a table that are open to users stay so. -/
theorem Grown.trail_user (h : Grown roots v v') (hr : r ∈ roots) (hf : hwTable v.mem r p = some f)
    (huser : ∀ a ∈ hwTrail v.mem r p, pageIsUser a = true) :
    ∀ a ∈ hwTrail v'.mem r p, pageIsUser a = true :=
  h.trail hr (fun e _ => (markedEntry e).2.2.2.1) hf huser

/-- The way to the next table is open to users, too. -/
theorem Forest.markUser_trail (hv : Forest v roots) (hr : r ∈ roots)
    (hf : hwTable v.mem r p = some f) (hmark : markUser v f i = (g, v'))
    (hgrown : Grown roots v v') (huser : ∀ a ∈ hwTrail v.mem r p, pageIsUser a = true) :
    ∀ a ∈ hwTrail v'.mem r (p ++ [i]), pageIsUser a = true := by
  have hself := slots_markUser_self (v := v) (i := i) (hwTable_aligned (hv.aligned r hr) hf)
  rw [hmark] at hself
  rw [hwTrail_snoc (hgrown.tables r hr p f hf), List.forall_mem_append, List.forall_mem_singleton]
  exact ⟨hgrown.trail_user hr hf huser, hself⟩

/-- The three entries on the way to a page table, opened to users one
after the other. -/
theorem Forest.openPath (hv : Forest v roots) (hk : k ∈ roots) {table : Nat}
    (htable : v.tableAt k (tablePath va) = some table) :
    ∃ pdpt pd v₁ v₂ v₃, markUser v k (pml4Digit va) = (pdpt, v₁)
      ∧ markUser v₁ pdpt (pdptDigit va) = (pd, v₂)
      ∧ markUser v₂ pd (pdDigit va) = (table, v₃)
      ∧ Extended roots v v₃ ∧ hwTable v₃.mem k (tablePath va) = some table
      ∧ (∀ a ∈ hwTrail v₃.mem k (tablePath va), pageIsUser a = true)
      ∧ (PathsAlike v.mem roots → Local roots k va v v₃) := by
  obtain ⟨pdpt, pd, hpdpt, hpd, -⟩ := tablePath_tables htable
  have h₀ : hwTable v.mem k [] = some k := rfl
  have h₁ := hwTable_of_tableAt hpdpt
  have h₂ := hwTable_of_tableAt hpd
  have h₃ := hwTable_of_tableAt htable
  -- each of the three tables is still there when its entry is opened
  obtain ⟨v₁, hmark₁, hg₁⟩ := hv.markUser_extended hk h₀ (i := pml4Digit va) h₁
  obtain ⟨v₂, hmark₂, hg₂⟩ := hg₁.grown.forest.markUser_extended hk (hg₁.grown.tables k hk _ _ h₁)
    (i := pdptDigit va) (hg₁.grown.tables k hk _ _ h₂)
  have hg₁₂ := hg₁.trans hg₂
  obtain ⟨v₃, hmark₃, hg₃⟩ := hg₂.grown.forest.markUser_extended hk (hg₁₂.grown.tables k hk _ _ h₂)
    (i := pdDigit va) (hg₁₂.grown.tables k hk _ _ h₃)
  have hg₁₃ := hg₁₂.trans hg₃
  have hpdpt₁ := hg₁.grown.tables k hk _ _ h₁
  have hpd₂ := hg₁₂.grown.tables k hk _ _ h₂
  have huser₁ := hv.markUser_trail hk h₀ hmark₁ hg₁.grown fun a ha => absurd ha List.not_mem_nil
  have huser₂ := hg₁.grown.forest.markUser_trail hk hpdpt₁ hmark₂ hg₂.grown huser₁
  have huser₃ := hg₂.grown.forest.markUser_trail hk hpd₂ hmark₃ hg₃.grown huser₂
  refine ⟨pdpt, pd, v₁, v₂, v₃, hmark₁, hmark₂, hmark₃, hg₁₃, hg₁₃.grown.tables k hk _ _ h₃, huser₃,
    ?_⟩
  intro hpaths
  -- each mark is a store into the slot that the walk reads
  have hpre₁ : [] ++ [pml4Digit va] <+: digits va := ⟨_, rfl⟩
  have hpre₂ : [pml4Digit va] ++ [pdptDigit va] <+: digits va := ⟨_, rfl⟩
  have hpre₃ : [pml4Digit va, pdptDigit va] ++ [pdDigit va] <+: digits va := ⟨_, rfl⟩
  have hlocal₁ := hv.markUser_local hk hpre₁ h₀ hmark₁
  have hlocal₂ := hg₁.grown.forest.markUser_local hk hpre₂ hpdpt₁ hmark₂
  have hlocal₃ := hg₂.grown.forest.markUser_local hk hpre₃ hpd₂ hmark₃
  exact (hlocal₁.trans hg₁.grown (hg₁.paths hpaths) hk hlocal₂).trans hg₁₂.grown
    (hg₁₂.paths hpaths) hk hlocal₃

/-- `page_table_map_user`: a growth along the walk, and on success then the
page's entry, behind entries that are open to users. -/
theorem Forest.pageTableMapUser_opens (hv : Forest v roots) (hk : k ∈ roots) (va pa : Nat)
    (wr : Bool) :
    ∃ v', Extended roots v v' ∧ (PathsAlike v.mem roots → Local roots k va v v')
      ∧ (pageTableMapUser v (some k) va pa wr = (false, v')
        ∨ ∃ table, hwTable v'.mem k (tablePath va) = some table
          ∧ (∀ a ∈ hwTrail v'.mem k (tablePath va), pageIsUser a = true)
          ∧ pageTableMapUser v (some k) va pa wr
            = (true, setPageEntry v' table (ptDigit va) (userEntry pa wr))) := by
  have hlocal := fun hpaths => hv.walk_local hpaths hk va
  obtain ⟨result, v₁, hwalk, hgrown, hok⟩ := hv.walk_extended hk va
  rw [hwalk] at hlocal
  cases result with
  | error status =>
      refine ⟨v₁, hgrown, hlocal, .inl ?_⟩
      simp only [pageTableMapUser, hwalk]
  | ok found =>
      obtain ⟨slot, level⟩ := found
      obtain ⟨-, table, rfl, htable⟩ := hok slot level rfl
      obtain ⟨pdpt, pd, v₂, v₃, v₄, hmark₁, hmark₂, hmark₃, hopen, htable₄, huser, hmarks⟩ :=
        hgrown.grown.forest.openPath hk htable
      refine ⟨v₄, hgrown.trans hopen, ?_, .inr ⟨table, htable₄, huser, ?_⟩⟩
      · intro hpaths
        exact (hlocal hpaths).trans hgrown.grown (hgrown.paths hpaths) hk
          (hmarks (hgrown.paths hpaths))
      · simp only [pageTableMapUser, hwalk, pml4Index_eq, pdptIndex_eq, pdIndex_eq, hmark₁,
          hmark₂, hmark₃]
        rfl

/-- `page_table_map_user` maps one page, or fails with the translations as
they were. -/
theorem Forest.pageTableMapUser_maps (hv : Forest v roots) {root : Option Nat}
    (hroot : ∀ k, root = some k → k ∈ roots) (va pa : Nat) (wr : Bool) :
    MapsPage roots root va (userEntry pa wr) v (pageTableMapUser v root va pa wr) := by
  cases root with
  | none => exact .inl ⟨v, rfl, Extended.refl hv⟩
  | some k =>
      have hk := hroot k rfl
      obtain ⟨v', hext, -, hfalse | ⟨table, htable, -, htrue⟩⟩ :=
        hv.pageTableMapUser_opens hk va pa wr
      · exact .inl ⟨v', hfalse, hext⟩
      · exact .inr ⟨k, v', table, rfl, hk, hext, htable, htrue⟩

-- =============================================================== data frames

/-- From `v` to `v'` the clear frame `g` was taken for data, and holds
what `m` has there; what else was taken are tables. -/
structure Taken (roots : List Nat) (v v' : Vm) (g : Nat) (m : Mem) : Prop where
  grown : Grown roots v v'
  clear : PmmClear v.pmm g
  used : ¬ PmmClear v'.pmm g
  data : ∀ n, ¬ TableBelow v'.mem roots n g
  bytes : ∀ x < 4096, v'.mem (g + x) = m (g + x)
  rest : ∀ a, PmmClear v.pmm a →
    PmmClear v'.pmm a ∨ a = g ∨ ∃ n, TableBelow v'.mem roots n a
  paths : PathsAlike v.mem roots → PathsAlike v'.mem roots

/-- The frame comes from `pmm_alloc_page`, and its bytes may be set. -/
theorem Forest.taken {pmm : Pmm} (hv : Forest v roots) (hg : PmmClear v.pmm g)
    (hpmm : PmmInv pmm) (hclear : ∀ a, PmmClear pmm a ↔ PmmClear v.pmm a ∧ a ≠ g)
    (hm : ∀ a, a < g ∨ g + 4096 ≤ a → m a = v.mem a) :
    Taken roots v { v with mem := m, pmm := pmm } g m := by
  refine ⟨Grown.take hv hg hpmm (fun a ha => ((hclear a).mp ha).1) hm, hg,
    fun hfree => ((hclear g).mp hfree).2 rfl, hv.take_data hg hm, fun _ _ => rfl, ?_, ?_⟩
  · intro a ha
    by_cases heq : a = g
    · exact .inr (.inl heq)
    · exact .inl ((hclear a).mpr ⟨ha, heq⟩)
  · intro hpaths
    apply hpaths.congr
    intro r hr q
    exact (hv.walk_frame (hv.pmm.clear_frame hg).1 (hv.clear_data hg) hm hr q).1

/-- Its bytes may be whatever they were. -/
theorem Forest.taken_frame {pmm : Pmm} (hv : Forest v roots) (hg : PmmClear v.pmm g)
    (hpmm : PmmInv pmm) (hclear : ∀ a, PmmClear pmm a ↔ PmmClear v.pmm a ∧ a ≠ g) :
    Taken roots v { v with pmm := pmm } g v.mem :=
  hv.taken hg hpmm hclear fun _ _ => rfl

/-- Growth keeps it. -/
theorem Taken.grow {v'' : Vm} (h : Taken roots v v' g m) (hv : Forest v roots)
    (hext : Extended roots v' v'') : Taken roots v v'' g m := by
  have hgrown := hext.grown
  refine ⟨h.grown.trans hgrown, h.clear, fun hfree => h.used (hgrown.clear g hfree),
    hgrown.data h.used h.data, ?_, ?_, fun hpaths => hext.paths (h.paths hpaths)⟩
  · intro x hx
    rw [hgrown.bytes g (hv.pmm.clear_frame h.clear).1 h.used h.data x hx, h.bytes x hx]
  · intro a ha
    rcases h.rest a ha with hfree | heq | ⟨n, hf⟩
    · exact (hext.taken a hfree).imp_right .inr
    · exact .inr (.inl heq)
    · exact .inr (.inr ⟨n, hgrown.below hf⟩)

/-- A frame that was taken for nothing goes back, and only tables were
taken. -/
theorem Taken.giveBack (h : Taken roots v v' g m) (hv : Forest v roots)
    (htotal : v'.pmm.totalPages = v.pmm.totalPages) :
    Extended roots v { v' with pmm := pmmFreePage g v'.pmm }
      ∧ PmmClear (pmmFreePage g v'.pmm) g := by
  have hself := h.grown.forest.pmm.freePage_self hv.pmm h.clear htotal
  refine ⟨⟨h.grown.giveBack hv h.clear h.data, ?_, h.paths⟩, hself⟩
  intro a ha
  rcases h.rest a ha with hfree | heq | htable
  · exact .inl (h.grown.forest.pmm.freePage_mono g hfree)
  · exact .inl (heq ▸ hself)
  · exact .inr htable

-- ============================================================ leaf entries

theorem leafAt_append (l : List Nat) (e n : Nat) :
    leafAt (l.length + n) (l ++ [e]) = leafAt n [e] := by
  induction l with
  | nil => rw [List.length_nil, Nat.zero_add, List.nil_append]
  | cons a l ih =>
      obtain ⟨b, l', heq⟩ := List.exists_cons_of_ne_nil
        (List.append_ne_nil_of_right_ne_nil l (List.cons_ne_nil e []))
      rw [List.length_cons, List.cons_append, heq, Nat.add_right_comm, leafAt_cons, ← heq]
      exact ih

/-- The leaf that the slot of an address gives. -/
theorem mmuLeaf_of_table {table : Nat} (htable : hwTable m r (tablePath w) = some table) :
    mmuLeaf m r w = if pageIsPresent (slots m table (ptDigit w)) then
      some (.pt, slots m table (ptDigit w)) else none := by
  have hlen := trail_length htable
  have htrail : hwTrail m r (digits w)
      = hwTrail m r (tablePath w) ++ [slots m table (ptDigit w)] := by
    rw [digits_eq, hwTrail, trail_append htable]
    show _ ++ trail mmuNext (slots m) 0 table [ptDigit w] = _
    rw [trail, mmuNext_leaf]
  show leafAt 3 (hwTrail m r (digits w)) = _
  have hthree : 3 = (hwTrail m r (tablePath w)).length + 0 := hlen.symm
  rw [htrail, hthree, leafAt_append, leafAt]

/-- A slot of a page table is rewritten: the tables stay, and the pages
that the slot maps are those that change. -/
theorem Forest.write_page (hv : Forest v roots) (hw : WritesSlot v roots m f i)
    (hf : TableBelow v.mem roots 3 f) :
    Forest { v with mem := m } roots
      ∧ (∀ r ∈ roots, ∀ q, hwTable m r q = hwTable v.mem r q)
      ∧ ∀ r ∈ roots, ∀ w, mmuLeaf m r w
        = if hwTable v.mem r (tablePath w) = some f ∧ ptDigit w = i then
            if pageIsPresent (slots m f i) then some (.pt, slots m f i) else none
          else mmuLeaf v.mem r w := by
  have htables : ∀ r ∈ roots, ∀ q, hwTable m r q = hwTable v.mem r q := by
    intro r hr q
    refine hv.rewrite_tableAt hw hf ?_ hr q
    rw [mmuNext_leaf, mmuNext_leaf]
  refine ⟨hv.of_tableAt hv.pmm hv.used htables, htables, ?_⟩
  intro r hr w
  split_ifs with hon hpresent
  · rw [mmuLeaf_of_table ((htables r hr _).trans hon.1), hon.2, if_pos hpresent]
  · rw [mmuLeaf_of_table ((htables r hr _).trans hon.1), hon.2, if_neg hpresent]
  · have hoff : ∀ p, p ++ [i] <+: digits w → hwTable v.mem r p ≠ some f := by
      intro p hpre hp
      have hlen : p.length = 3 := hv.levels _ _ f ⟨r, hr, p, rfl, hp⟩ hf
      have heq : p ++ [i] = tablePath w ++ [ptDigit w] :=
        hpre.eq_of_length (by rw [List.length_append, hlen]; rfl)
      obtain ⟨rfl, hi⟩ := List.append_inj' heq rfl
      exact hon ⟨hp, (List.cons.inj hi).1.symm⟩
    show leafAt 3 (hwTrail m r (digits w)) = leafAt 3 (hwTrail v.mem r (digits w))
    rw [(hw.off hr hoff).2]

/-- Storing an entry writes one slot. -/
theorem Forest.writesSlot (hv : Forest v roots) (hf : TableBelow v.mem roots n f) (e : Nat) :
    WritesSlot v roots (setPageEntry v f i e).mem f i := by
  intro n' f' j hf' hslot
  exact slots_store_other (hv.table_aligned hf) (hv.table_aligned hf') hslot

/-- Mapping a page keeps a forest, whether or not it succeeds. -/
theorem MapsPage.forest {root : Option Nat} {e : Nat} {result : Bool × Vm}
    (h : MapsPage roots root va e v result) : Forest result.2 roots := by
  rcases h with ⟨v', rfl, hgrown⟩ | ⟨k, v', table, -, hk, hgrown, htable, rfl⟩
  · exact hgrown.grown.forest
  · have hbelow : TableBelow v'.mem roots 3 table := ⟨k, hk, tablePath va, rfl, htable⟩
    exact (hgrown.grown.forest.write_page (hgrown.grown.forest.writesSlot hbelow e) hbelow).1

/-- Tables are still met along one path. -/
theorem MapsPage.paths {root : Option Nat} {e : Nat} {result : Bool × Vm}
    (h : MapsPage roots root va e v result) (hpaths : PathsAlike v.mem roots) :
    PathsAlike result.2.mem roots := by
  rcases h with ⟨v', rfl, hext⟩ | ⟨k, v', table, -, hk, hext, htable, rfl⟩
  · exact hext.paths hpaths
  · have hbelow : TableBelow v'.mem roots 3 table := ⟨k, hk, tablePath va, rfl, htable⟩
    have hforest := hext.grown.forest
    exact (hext.paths hpaths).congr (hforest.write_page (hforest.writesSlot hbelow e) hbelow).2.1

end ZenithOS.Vmm
