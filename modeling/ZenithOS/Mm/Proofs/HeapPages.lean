/-
The pages of the kernel heap, in a forest of page tables.

A commit either comes to nothing, or it takes a frame. The frame is then
mapped under the active root, or `page_table_map_page` fails and it stays
taken: nothing gives it back (`CommitsPage`).
-/
import ZenithOS.Mm.Proofs.HeapArea
import ZenithOS.Vmm.Proofs.DemandPaging

namespace ZenithOS.Mm

open Lib Vmm

variable {h h' : Heap} {roots : List Nat} {va : Nat} {done : Bool}

/-- No page is committed: nothing happened to the page tables and the
frames, or a frame was taken. -/
def CommitRefused (roots : List Nat) (h h' : Heap) : Prop :=
  h'.committedEnd = h.committedEnd
    ∧ ((h.refusals.headD .granted = .noPage ∨ (pmmAllocPage h.vm.pmm).1 = null) ∧ h'.vm = h.vm
      ∨ h.refusals.headD .granted ≠ .noPage ∧ (pmmAllocPage h.vm.pmm).1 ≠ null
        ∧ ∃ g, Taken roots h.vm h'.vm g h.vm.mem)

/-- A frame was taken and mapped at `va` under the active root. -/
def MapsFrame (roots : List Nat) (va : Nat) (v v' : Vm) : Prop :=
  ∃ g k v₁ table, pageTableActiveRoot v = some k ∧ k ∈ roots ∧ Taken roots v v₁ g v.mem
    ∧ hwTable v₁.mem k (tablePath va) = some table
    ∧ v' = setPageEntry v₁ table (ptDigit va) (mapEntry g pageWritable)

/-- The page at `va` is committed. -/
def CommitsPage (roots : List Nat) (va : Nat) (h h' : Heap) : Prop :=
  h'.committedEnd = wordAdd h.committedEnd pageSize ∧ MapsFrame roots va h.vm h'.vm

/-- A commit maps one page, or fails with the tables as they were. -/
theorem heapCommitPage_maps (hv : Forest h.vm roots)
    (hactive : ∀ k, pageTableActiveRoot h.vm = some k → k ∈ roots) (va : Nat) :
    (∃ h', heapCommitPage va h = (false, h') ∧ CommitRefused roots h h')
      ∨ ∃ h', heapCommitPage va h = (true, h') ∧ CommitsPage roots va h h' := by
  by_cases hpage : h.refusals.headD .granted = .noPage
  · refine .inl ⟨{ h with refusals := h.refusals.tail }, ?_, rfl, .inl ⟨.inl hpage, rfl⟩⟩
    simp only [heapCommitPage, if_pos hpage]
  rcases hv.pmm.alloc_cases with hnull | ⟨g, pmm, halloc, hg, hinv, hclear⟩
  · refine .inl ⟨{ h with refusals := h.refusals.tail }, ?_, rfl, .inl ⟨.inr ?_, rfl⟩⟩
    · simp only [heapCommitPage, if_neg hpage, hnull, true_or, if_true]
    · rw [hnull]
  obtain ⟨hgal, hgnull, hglt⟩ := hv.pmm.clear_frame hg
  have hne : (pmmAllocPage h.vm.pmm).1 ≠ null := by
    rw [halloc]
    exact hgnull
  have htaken := hv.taken_frame hg hinv hclear
  by_cases hmap : h.refusals.headD .granted = .noMap
  · refine .inl ⟨{ h with refusals := h.refusals.tail, vm := { h.vm with pmm := pmm } }, ?_,
      rfl, .inr ⟨hpage, hne, g, htaken⟩⟩
    have hstop : g = null ∨ h.refusals.headD .granted = .noMap := .inr hmap
    simp only [heapCommitPage, if_neg hpage, halloc, if_pos hstop]
  have hgo : ¬ (g = null ∨ h.refusals.headD .granted = .noMap) := not_or.mpr ⟨hgnull, hmap⟩
  rcases htaken.grown.forest.pageTableMap_maps hactive va g pageWritable with
    ⟨v', hfalse, hext⟩ | ⟨k, v', table, hk, hkr, hext, htable, htrue⟩
  · refine .inl ⟨{ h with refusals := h.refusals.tail, vm := v' }, ?_, rfl,
      .inr ⟨hpage, hne, g, htaken.grow hv hext⟩⟩
    simp only [heapCommitPage, if_neg hpage, halloc, if_neg hgo, pageTableMapPage, if_true,
      hfalse]
  · refine .inr ⟨{ h with
      refusals := h.refusals.tail
      vm := setPageEntry v' table (ptDigit va) (mapEntry g pageWritable)
      mem := blit h.mem va (fun i => (setPageEntry v' table (ptDigit va)
        (mapEntry g pageWritable)).mem (g + i)) pageSize
      committedEnd := wordAdd h.committedEnd pageSize }, ?_, rfl,
      g, k, v', table, hk, hkr, htaken.grow hv hext, htable, rfl⟩
    simp only [heapCommitPage, if_neg hpage, halloc, if_neg hgo, pageTableMapPage, if_true,
      htrue]

/-- Only the walk of the page is written. -/
theorem heapCommitPage_local {k : Nat} (hv : Forest h.vm roots) (hpaths : PathsAlike h.vm.mem roots)
    (hroot : pageTableActiveRoot h.vm = some k) (hk : k ∈ roots) (va : Nat) :
    Local roots k va h.vm (heapCommitPage va h).2.vm := by
  unfold heapCommitPage
  dsimp only
  split_ifs with hpage hstop
  · exact Local.refl roots k va h.vm
  · exact fun _ _ _ _ _ => rfl
  · rcases hv.pmm.alloc_cases with hnull | ⟨g, pmm, halloc, hg, hinv, hclear⟩
    · exact absurd (.inl (congrArg Prod.fst hnull)) hstop
    · have hforest := (hv.taken_frame hg hinv hclear).grown.forest
      have hlocal := hforest.pageTableMap_local hpaths hroot hk va g pageWritable
      rw [halloc, pageTableMapPage, if_pos rfl]
      cases hmap : pageTableMap { h.vm with pmm := pmm } va g pageWritable with
      | mk done v' =>
          rw [hmap] at hlocal
          cases done with
          | false => exact hlocal
          | true => exact hlocal

/-- Growth changes only slots on the walk of the old end. -/
theorem heapExpand_local {k : Nat} (hv : Forest h.vm roots) (hpaths : PathsAlike h.vm.mem roots)
    (hroot : pageTableActiveRoot h.vm = some k) (hk : k ∈ roots)
    (hrun : heapExpand h = some (done, h')) : Local roots k h.committedEnd h.vm h'.vm := by
  have hlocal := heapCommitPage_local hv hpaths hroot hk h.committedEnd
  unfold heapExpand at hrun
  cases hvma : h.heapVma with
  | none =>
      simp only [hvma] at hrun
      cases hrun
      exact Local.refl roots k _ h.vm
  | some vma =>
      cases hcommit : heapCommitPage h.committedEnd h with
      | mk ok h₁ =>
          rw [hcommit] at hlocal
          simp only [hvma, hcommit] at hrun
          cases ok with
          | false =>
              cases hrun
              exact hlocal
          | true =>
              obtain ⟨last, -, hrun⟩ := Option.bind_eq_some_iff.mp hrun
              cases hrun
              exact hlocal

/-- `heap_expand` does what its commit does, when it comes back. -/
theorem heapExpand_maps (hv : Forest h.vm roots)
    (hactive : ∀ k, pageTableActiveRoot h.vm = some k → k ∈ roots)
    (hrun : heapExpand h = some (done, h')) :
    done = false ∧ (h.heapVma = none ∧ h' = h ∨ h.heapVma ≠ none ∧ CommitRefused roots h h')
      ∨ done = true ∧ CommitsPage roots h.committedEnd h h' := by
  cases hvma : h.heapVma with
  | none =>
      simp only [heapExpand, hvma, Option.some.injEq, Prod.mk.injEq] at hrun
      exact .inl ⟨hrun.1.symm, .inl ⟨rfl, hrun.2.symm⟩⟩
  | some vma =>
      rcases heapCommitPage_maps hv hactive h.committedEnd with
        ⟨h₁, hcommit, hrefused⟩ | ⟨h₁, hcommit, hmapped⟩
      · simp only [heapExpand, hvma, hcommit, Option.some.injEq, Prod.mk.injEq] at hrun
        refine .inl ⟨hrun.1.symm, .inr ⟨Option.some_ne_none vma, ?_⟩⟩
        rw [← hrun.2]
        exact hrefused
      · simp only [heapExpand, hvma, hcommit, Option.bind_eq_bind] at hrun
        obtain ⟨last, -, hrun⟩ := Option.bind_eq_some_iff.mp hrun
        obtain ⟨hdone, hheap⟩ := Prod.mk.inj (Option.some.inj hrun)
        refine .inr ⟨hdone.symm, ?_⟩
        rw [← hheap]
        exact hmapped

/-- `heap_init` maps the first page. -/
theorem heapInit_maps (hv : Forest h.vm roots)
    (hactive : ∀ k, pageTableActiveRoot h.vm = some k → k ∈ roots)
    (hinit : heapInit h = (true, h')) :
    h'.committedEnd = heapStartAddress + pageSize
      ∧ MapsFrame roots heapStartAddress h.vm h'.vm := by
  rw [heapInit] at hinit
  rcases hv.pmm.alloc_cases with hnull | ⟨g, pmm, halloc, hg, hinv, hclear⟩
  · simp only [hnull, if_true] at hinit
    cases hinit
  · obtain ⟨-, hgnull, -⟩ := hv.pmm.clear_frame hg
    have htaken := hv.taken_frame hg hinv hclear
    simp only [halloc, if_neg hgnull, pageTableMapPage, if_true] at hinit
    rcases htaken.grown.forest.pageTableMap_maps hactive heapStartAddress g pageWritable with
      ⟨v', hfalse, -⟩ | ⟨k, v', table, hk, hkr, hext, htable, htrue⟩
    · simp only [hfalse] at hinit
      cases hinit
    · simp only [htrue] at hinit
      cases hfind : vmaFind h.vma heapStartAddress with
      | none =>
          simp only [hfind] at hinit
          cases hinit
      | some area =>
          simp only [hfind] at hinit
          cases hinit
          exact ⟨rfl, g, k, v', table, hk, hkr, htaken.grow hv hext, htable, rfl⟩

end ZenithOS.Mm
