/-
New roots: `page_table_create` and `page_table_init` in a forest.

A new root is a frame that was clear, filled with a copy of another
root's entries or with zeros. So it adds itself to the tables and nothing
else: below it are the tables of the root it was copied from, as far down
as they were.
-/
import ZenithOS.Vmm.Proofs.Growth

namespace ZenithOS.Vmm

open Lib Mm

variable {v v' : Vm} {m : Mem} {roots : List Nat} {r k f g n : Nat} {i : Fin 512}

/-- Each entry of `g` is absent, or one of a root. -/
def CopiesRoots (m : Mem) (roots : List Nat) (g : Nat) : Prop :=
  ∀ j, pageIsPresent (slots m g j) = false ∨ ∃ k ∈ roots, slots m g j = slots m k j

/-- Below a copied root are the tables of the roots. -/
theorem CopiesRoots.below (h : CopiesRoots m roots g) (hf : TableBelow m (g :: roots) n f) :
    n = 0 ∧ f = g ∨ TableBelow m roots n f := by
  obtain ⟨r, hr, p, hlen, hp⟩ := hf
  cases List.mem_cons.mp hr with
  | inr hold => exact .inr ⟨r, hold, p, hlen, hp⟩
  | inl hg =>
      rw [hg] at hp
      cases p with
      | nil => exact .inl ⟨hlen.symm, (Option.some.inj hp).symm⟩
      | cons j p =>
          refine .inr ?_
          rw [hwTable, tableAt] at hp
          cases h j with
          | inl habsent =>
              rw [mmuNext_absent habsent] at hp
              cases hp
          | inr hcopy =>
              obtain ⟨k, hk, heq⟩ := hcopy
              refine ⟨k, hk, j :: p, hlen, ?_⟩
              rw [hwTable, tableAt, ← heq]
              exact hp

/-- More roots have no fewer tables. -/
theorem tableBelow_cons (hf : TableBelow m roots n f) : TableBelow m (g :: roots) n f := by
  obtain ⟨r, hr, p, hlen, hp⟩ := hf
  exact ⟨r, List.mem_cons_of_mem g hr, p, hlen, hp⟩

/-- A frame that is neither free nor a table becomes a root. -/
theorem Forest.addRoot (hv : Forest v roots) (hgal : 4096 ∣ g) (hused : ¬ PmmClear v.pmm g)
    (hnew : ∀ n, ¬ TableBelow v.mem roots n g) (hcopy : CopiesRoots v.mem roots g) :
    Forest v (g :: roots) := by
  refine ⟨hv.pmm, List.forall_mem_cons.mpr ⟨hgal, hv.aligned⟩, ?_, ?_⟩
  · intro n f hf
    cases hcopy.below hf with
    | inl hg => exact hg.2 ▸ hused
    | inr hold => exact hv.used n f hold
  · intro n n' f hf hf'
    cases hcopy.below hf with
    | inl hg =>
        cases hcopy.below hf' with
        | inl hg' => rw [hg.1, hg'.1]
        | inr hold' => exact absurd (hg.2 ▸ hold') (hnew n')
    | inr hold =>
        cases hcopy.below hf' with
        | inl hg' => exact absurd (hg'.2 ▸ hold) (hnew n)
        | inr hold' => exact hv.levels n n' f hold hold'

/-- A copied root leads to each table along the same path. -/
theorem PathsAlike.addRoot (h : PathsAlike m roots) (hnew : ∀ n, ¬ TableBelow m roots n g)
    (hcopy : CopiesRoots m roots g) : PathsAlike m (g :: roots) := by
  -- from the copy to the root that it has the entry of
  have hold : ∀ r ∈ g :: roots, ∀ p f, hwTable m r p = some f →
      p = [] ∧ f = g ∨ ∃ k ∈ roots, hwTable m k p = some f := by
    intro r hr p f hp
    cases List.mem_cons.mp hr with
    | inr hold => exact .inr ⟨r, hold, hp⟩
    | inl hg =>
        rw [hg] at hp
        cases p with
        | nil => exact .inl ⟨rfl, (Option.some.inj hp).symm⟩
        | cons j p =>
            refine .inr ?_
            rw [hwTable, tableAt] at hp
            cases hcopy j with
            | inl habsent =>
                rw [mmuNext_absent habsent] at hp
                cases hp
            | inr hslot =>
                obtain ⟨k, hk, heq⟩ := hslot
                refine ⟨k, hk, ?_⟩
                rw [hwTable, tableAt, ← heq]
                exact hp
  intro r hr r' hr' p p' f hp hp'
  rcases hold r hr p f hp with ⟨rfl, rfl⟩ | ⟨k, hk, hkp⟩
  · rcases hold r' hr' p' f hp' with ⟨rfl, -⟩ | ⟨k', hk', hkp'⟩
    · rfl
    · exact absurd ⟨k', hk', p', rfl, hkp'⟩ (hnew p'.length)
  · rcases hold r' hr' p' f hp' with ⟨-, rfl⟩ | ⟨k', hk', hkp'⟩
    · exact absurd ⟨k, hk, p, rfl, hkp⟩ (hnew p.length)
    · exact h k hk k' hk' p p' f hkp hkp'

/-- Fewer roots are alike too. -/
theorem PathsAlike.mono {roots' : List Nat} (h : PathsAlike m roots)
    (hsub : ∀ r ∈ roots', r ∈ roots) : PathsAlike m roots' :=
  fun r hr r' hr' => h r (hsub r hr) r' (hsub r' hr')

/-- No root is a forest. -/
theorem forest_nil (hpmm : PmmInv v.pmm) : Forest v [] := by
  have hnone : ∀ n f, ¬ TableBelow v.mem [] n f := by
    intro n f hf
    obtain ⟨r, hr, -⟩ := hf
    cases hr
  exact ⟨hpmm, fun r hr => (nomatch hr), fun n f hf => absurd hf (hnone n f),
    fun n _ f hf => absurd hf (hnone n f)⟩

/-- A root without entries. -/
theorem forest_of_empty (hpmm : PmmInv v.pmm) (hgal : 4096 ∣ g) (hused : ¬ PmmClear v.pmm g)
    (hempty : ∀ j, pageIsPresent (slots v.mem g j) = false) : Forest v [g] := by
  refine (forest_nil hpmm).addRoot hgal hused ?_ (fun j => .inl (hempty j))
  intro n hf
  obtain ⟨r, hr, -⟩ := hf
  cases hr

/-- A clear frame is taken and made a root. -/
theorem Forest.takeRoot {pmm : Pmm} (hv : Forest v roots) (hg : PmmClear v.pmm g)
    (hpmm : PmmInv pmm) (hclear : ∀ a, PmmClear pmm a ↔ PmmClear v.pmm a ∧ a ≠ g)
    (hm : ∀ a, a < g ∨ g + 4096 ≤ a → m a = v.mem a) (hcopy : CopiesRoots m roots g) :
    Grown roots v { v with mem := m, pmm := pmm }
      ∧ Forest { v with mem := m, pmm := pmm } (g :: roots)
      ∧ (PathsAlike v.mem roots → PathsAlike m (g :: roots)) := by
  have htaken := hv.taken hg hpmm hclear hm
  refine ⟨htaken.grown, htaken.grown.forest.addRoot (hv.pmm.clear_frame hg).1 htaken.used
    htaken.data hcopy, ?_⟩
  intro hpaths
  exact (htaken.paths hpaths).addRoot htaken.data hcopy

/-- What `page_table_create` writes into the frame it took: the kernel's
root, or zeros. -/
theorem Forest.create_memory {pmm : Pmm} (hv : Forest v roots)
    (hk : ∀ k, v.kernelPml4 = some k → k ∈ roots) (hg : PmmClear v.pmm g)
    (halloc : pmmAllocPage v.pmm = (g, pmm))
    (hvirtual : pageTablePhysicalToVirtual v.hhdmOffset g = some g) :
    ∃ m, pageTableCreate v = (some g, { v with pmm := pmm, mem := m })
      ∧ (∀ a, a < g ∨ g + 4096 ≤ a → m a = v.mem a) ∧ CopiesRoots m roots g
      ∧ (∀ k, v.kernelPml4 = some k → ∀ j, slots m g j = slots m k j)
      ∧ (v.kernelPml4 = none → ∀ j, pageIsPresent (slots m g j) = false) := by
  obtain ⟨hgal, hgnull, -⟩ := hv.pmm.clear_frame hg
  cases hkernel : v.kernelPml4 with
  | none =>
      have hempty : ∀ j, pageIsPresent (slots (fill v.mem g 0#8 pageSize) g j) = false := by
        intro j
        rw [slots_fill_self]
        rfl
      refine ⟨fill v.mem g 0#8 pageSize, ?_, fun a ha => fill_outside ha,
        fun j => .inl (hempty j), ?_, fun _ => hempty⟩
      · simp only [pageTableCreate, halloc, hgnull, hvirtual, hkernel, if_false]
      · intro k hk
        cases hk
  | some k =>
      have hkr := hk k hkernel
      have hne : k ≠ g := fun heq => hv.used 0 k ⟨k, hkr, [], rfl, rfl⟩ (heq ▸ hg)
      obtain ⟨hself, hother⟩ := slots_create (m := v.mem) hgal (hv.aligned k hkr) hne
      have hcopy : ∀ j, slots (blit (fill v.mem g 0#8 pageSize) g
          (fun i => fill v.mem g 0#8 pageSize (k + i)) pageSize) g j
          = slots (blit (fill v.mem g 0#8 pageSize) g
            (fun i => fill v.mem g 0#8 pageSize (k + i)) pageSize) k j := by
        intro j
        rw [hself j, hother k j (hv.aligned k hkr) hne]
      refine ⟨blit (fill v.mem g 0#8 pageSize) g (fun i => fill v.mem g 0#8 pageSize (k + i))
        pageSize, ?_, ?_, fun j => .inr ⟨k, hkr, hcopy j⟩, ?_, ?_⟩
      · simp only [pageTableCreate, halloc, hgnull, hvirtual, hkernel, if_false]
      · intro a ha
        exact (blit_outside ha).trans (fill_outside ha)
      · intro k' hk'
        exact Option.some.inj hk' ▸ hcopy
      · intro hnone
        cases hnone

/-- `page_table_create`: no root and a growth, or a new root, with the
other roots grown. -/
theorem Forest.create (hv : Forest v roots) (hk : ∀ k, v.kernelPml4 = some k → k ∈ roots) :
    (∃ v', pageTableCreate v = (none, v') ∧ Extended roots v v')
      ∨ ∃ g v', pageTableCreate v = (some g, v') ∧ PmmClear v.pmm g ∧ Grown roots v v'
        ∧ ¬ PmmClear v'.pmm g ∧ (∀ n, ¬ TableBelow v'.mem roots n g)
        ∧ CopiesRoots v'.mem roots g ∧ Forest v' (g :: roots)
        ∧ (PathsAlike v.mem roots → PathsAlike v'.mem (g :: roots))
        ∧ ∀ k, v.kernelPml4 = some k → ∀ j, slots v'.mem g j = slots v'.mem k j := by
  rcases hv.pmm.alloc_cases with hnull | ⟨g, pmm, halloc, hg, hinv, hclear⟩
  · refine .inl ⟨v, ?_, Extended.refl hv⟩
    simp [pageTableCreate, hnull]
  · obtain ⟨-, hgnull, -⟩ := hv.pmm.clear_frame hg
    cases hvirtual : pageTablePhysicalToVirtual v.hhdmOffset g with
    | none =>
        refine .inl ⟨{ v with pmm := pmmFreePage g pmm }, ?_, ?_⟩
        · simp [pageTableCreate, halloc, hgnull, hvirtual]
        · have htotal : pmm.totalPages = v.pmm.totalPages := by
            have hkept := pmmAllocPage_totalPages v.pmm
            rw [halloc] at hkept
            exact hkept
          exact ((hv.taken_frame hg hinv hclear).giveBack hv htotal).1
    | some g' =>
        obtain rfl : g = g' := by
          unfold pageTablePhysicalToVirtual at hvirtual
          split_ifs at hvirtual
          exact Option.some.inj hvirtual
        obtain ⟨m, hm, hout, hcopy, hslots, -⟩ := hv.create_memory hk hg halloc hvirtual
        obtain ⟨hgrown, hforest, hpaths⟩ := hv.takeRoot hg hinv hclear hout hcopy
        exact .inr ⟨g, _, hm, hg, hgrown, fun hfree => ((hclear g).mp hfree).2 rfl,
          hv.take_data hg hout, hcopy, hforest, hpaths, hslots⟩

/-- `page_table_init` on the boot loader's tables: the kernel's root is a
copy of the boot loader's, or was not made. -/
theorem Forest.init (hv : Forest v [r]) (hkernel : v.kernelPml4 = none)
    (hcurrent : pageTableCurrentRoot v = some r) :
    Forest (pageTableInit v) ((pageTableInit v).kernelPml4.toList ++ [r])
      ∧ (∀ k, pageTableActiveRoot (pageTableInit v) = some k →
        k ∈ (pageTableInit v).kernelPml4.toList ++ [r])
      ∧ (PathsAlike v.mem [r] →
        PathsAlike (pageTableInit v).mem ((pageTableInit v).kernelPml4.toList ++ [r]))
      ∧ ∀ k, pageTableActiveRoot (pageTableInit v) = some k →
        ∀ j, slots (pageTableInit v).mem k j = slots v.mem r j := by
  have hactive : pageTableActiveRoot v = some r := by
    rw [pageTableActiveRoot, hkernel]
    exact hcurrent
  -- without a kernel root the boot loader's stays the active one
  have hnone : ∀ v', Forest v' [r] → v'.kernelPml4 = none → v'.mem = v.mem →
      pageTableActiveRoot v' = some r → Forest v' (v'.kernelPml4.toList ++ [r])
        ∧ (∀ k, pageTableActiveRoot v' = some k → k ∈ v'.kernelPml4.toList ++ [r])
        ∧ (PathsAlike v.mem [r] → PathsAlike v'.mem (v'.kernelPml4.toList ++ [r]))
        ∧ ∀ k, pageTableActiveRoot v' = some k → ∀ j, slots v'.mem k j = slots v.mem r j := by
    intro v' hv' hkernel' hmem hactive'
    rw [hkernel', hactive', hmem]
    exact ⟨hv', fun k hk => Option.some.inj hk ▸ List.mem_cons_self, id,
      fun k hk j => by rw [Option.some.inj hk]⟩
  rcases hv.pmm.alloc_cases with hnull | ⟨g, pmm, halloc, hg, hinv, hclear⟩
  · have hinit : pageTableInit v = v := by
      simp only [pageTableInit, hkernel, hnull, if_true]
      rw [← hkernel]
    rw [hinit]
    exact hnone v hv hkernel rfl hactive
  · obtain ⟨hgal, hgnull, -⟩ := hv.pmm.clear_frame hg
    cases hvirtual : pageTablePhysicalToVirtual v.hhdmOffset g with
    | none =>
        have hinit : pageTableInit v
            = { v with pmm := pmmFreePage g pmm, kernelPml4Physical := 0 } := by
          simp only [pageTableInit, hkernel, halloc, if_neg hgnull, hvirtual]
        have htaken : Grown [r] v { v with mem := v.mem, pmm := pmm } :=
          Grown.take hv hg hinv (fun a ha => ((hclear a).mp ha).1) (fun _ _ => rfl)
        have hback := htaken.giveBack hv hg (hv.take_data hg fun _ _ => rfl)
        rw [hinit]
        exact hnone _ ⟨hback.forest.pmm, hback.forest.aligned, hback.forest.used,
          hback.forest.levels⟩ hkernel rfl hactive
    | some g' =>
        obtain rfl : g = g' := by
          unfold pageTablePhysicalToVirtual at hvirtual
          split_ifs at hvirtual
          exact Option.some.inj hvirtual
        have hral := hv.aligned r List.mem_cons_self
        have hne : r ≠ g := fun heq =>
          hv.used 0 r ⟨r, List.mem_cons_self, [], rfl, rfl⟩ (heq ▸ hg)
        have hinit : pageTableInit v = { v with
            pmm := pmm
            kernelPml4 := some g
            kernelPml4Physical := g
            mem := blit v.mem g (fun i => v.mem (r + i)) pageSize } := by
          simp only [pageTableInit, hkernel, halloc, if_neg hgnull, hvirtual, hcurrent]
        have hcopy : CopiesRoots (blit v.mem g (fun i => v.mem (r + i)) pageSize) [r] g := by
          intro j
          refine .inr ⟨r, List.mem_cons_self, ?_⟩
          rw [slots_copy_self, slots_copy_other hgal hral hne]
        obtain ⟨-, hforest, hpaths⟩ :=
          hv.takeRoot hg hinv hclear (fun a ha => blit_outside ha) hcopy
        rw [hinit]
        refine ⟨⟨hforest.pmm, hforest.aligned, hforest.used, hforest.levels⟩, ?_, hpaths, ?_⟩
        · intro k hk
          exact Option.some.inj hk ▸ List.mem_cons_self
        · intro k hk j
          obtain rfl : g = k := Option.some.inj hk
          exact slots_copy_self

/-- Without a direct map there is no boot root, and `page_table_init`
makes none. -/
theorem pageTableInit_unconfigured (hpmm : PmmInv v.pmm) (hkernel : v.kernelPml4 = none)
    (hcurrent : pageTableCurrentRoot v = none) :
    PmmInv (pageTableInit v).pmm ∧ (pageTableInit v).kernelPml4 = none
      ∧ pageTableActiveRoot (pageTableInit v) = none := by
  have hactive : ∀ pmm n, pageTableActiveRoot
      { v with pmm := pmm, kernelPml4 := none, kernelPml4Physical := n } = none := by
    intro pmm n
    exact hcurrent
  rcases hpmm.alloc_cases with hnull | ⟨g, pmm, halloc, -, hinv, -⟩
  · simp only [pageTableInit, hkernel, hnull, if_true]
    exact ⟨hpmm, trivial, hactive v.pmm v.kernelPml4Physical⟩
  · by_cases hgnull : g = null
    · simp only [pageTableInit, hkernel, halloc, if_pos hgnull]
      exact ⟨hinv, trivial, hactive pmm v.kernelPml4Physical⟩
    · cases hvirtual : pageTablePhysicalToVirtual v.hhdmOffset g with
      | none =>
          simp only [pageTableInit, hkernel, halloc, if_neg hgnull, hvirtual]
          exact ⟨hinv.markPageFree _, trivial, hactive _ 0⟩
      | some kernel =>
          simp only [pageTableInit, hkernel, halloc, if_neg hgnull, hvirtual, hcurrent]
          exact ⟨hinv.markPageFree _, trivial, hactive _ 0⟩

/-- After `page_table_init`, on whatever the boot loader left. -/
theorem pageTableInit_forest (hpmm : PmmInv v.pmm) (hkernel : v.kernelPml4 = none)
    (hboot : ∀ r, pageTableCurrentRoot v = some r → Forest v [r]) :
    Forest (pageTableInit v)
        ((pageTableInit v).kernelPml4.toList ++ (pageTableCurrentRoot v).toList)
      ∧ (∀ k, pageTableActiveRoot (pageTableInit v) = some k →
        k ∈ (pageTableInit v).kernelPml4.toList ++ (pageTableCurrentRoot v).toList)
      ∧ ((∀ r, pageTableCurrentRoot v = some r → PathsAlike v.mem [r]) →
        PathsAlike (pageTableInit v).mem
          ((pageTableInit v).kernelPml4.toList ++ (pageTableCurrentRoot v).toList)) := by
  cases hcurrent : pageTableCurrentRoot v with
  | none =>
      obtain ⟨hinv, hnone, hactive⟩ := pageTableInit_unconfigured hpmm hkernel hcurrent
      rw [hnone, hactive]
      exact ⟨forest_nil hinv, fun k hk => (nomatch hk), fun _ r hr => (nomatch hr)⟩
  | some r =>
      obtain ⟨hforest, hactive, hpaths, -⟩ := (hboot r hcurrent).init hkernel hcurrent
      exact ⟨hforest, hactive, fun h => hpaths (h r rfl)⟩

end ZenithOS.Vmm
