/-
Page tables only take frames.

# What walks do to the page allocator

Whatever the tables look like, a walk does nothing to the page allocator
but take pages and give back what it just took. A property of the
allocator that these two keep (`TakesOnly`) is kept by every walk and by
the mapping calls: that it is sound, that the frames free after it were
free before, and that it covers the same pages.
-/
import ZenithOS.Vmm.PageTable
import ZenithOS.Mm.Proofs.Pmm

namespace ZenithOS.Vmm

open Lib Mm

/-- `P` survives taking a page, and giving back the page just taken. -/
structure TakesOnly (P : Pmm → Prop) : Prop where
  alloc : ∀ p, P p → P (pmmAllocPage p).2
  back : ∀ p, P p → P (pmmFreePage (pmmAllocPage p).1 (pmmAllocPage p).2)

section Keeps

variable {P : Pmm → Prop} (hP : TakesOnly P) {v : Vm} (h : P v.pmm)

include hP h

theorem ensureNextTable_keeps (table index : Nat) (create : Bool) (missing : PageWalkStatus) :
    P (ensureNextTable v table index create missing).2.pmm := by
  rw [ensureNextTable]
  dsimp only
  split_ifs
  · cases pageTablePhysicalToVirtual v.hhdmOffset (pageAddress (pageEntry v.mem table index)) with
    | none => exact h
    | some next => exact h
  · exact h
  · exact hP.alloc v.pmm h
  · cases pageTablePhysicalToVirtual v.hhdmOffset (pmmAllocPage v.pmm).1 with
    | none => exact hP.back v.pmm h
    | some newTable => exact hP.alloc v.pmm h

omit hP in
theorem pageWalkPt_keeps (pt va : Nat) (create : Bool) :
    P (pageWalkPt v pt va create).2.pmm := by
  rw [pageWalkPt]
  split_ifs
  · exact h
  · exact h

theorem pageWalkPd_keeps (pd va : Nat) (create : Bool) :
    P (pageWalkPd v pd va create).2.pmm := by
  have hens := ensureNextTable_keeps hP h pd (pdIndex va) create .missingPdEntry
  rw [pageWalkPd]
  cases checkMiddleEntry v pd (pdIndex va) create .pd .hugePagePd .missingPdEntry with
  | some outcome => exact h
  | none =>
      cases hr : ensureNextTable v pd (pdIndex va) create .missingPdEntry with
      | mk r v₁ =>
          rw [hr] at hens
          cases r with
          | error status => exact hens
          | ok pt => exact pageWalkPt_keeps hens pt va create

theorem pageWalkPdpt_keeps (pdpt va : Nat) (create : Bool) :
    P (pageWalkPdpt v pdpt va create).2.pmm := by
  have hens := ensureNextTable_keeps hP h pdpt (pdptIndex va) create .missingPdptEntry
  rw [pageWalkPdpt]
  cases checkMiddleEntry v pdpt (pdptIndex va) create .pdpt .hugePagePdpt
      .missingPdptEntry with
  | some outcome => exact h
  | none =>
      cases hr : ensureNextTable v pdpt (pdptIndex va) create .missingPdptEntry with
      | mk r v₁ =>
          rw [hr] at hens
          cases r with
          | error status => exact hens
          | ok pd => exact pageWalkPd_keeps hP hens pd va create

/-- A walk keeps what taking pages keeps. -/
theorem pageWalkInternal_keeps (pml4 : Option Nat) (va : Nat) (create : Bool) :
    P (pageWalkInternal v pml4 va create).2.pmm := by
  cases pml4 with
  | none => exact h
  | some root =>
      have hens := ensureNextTable_keeps hP h root (pml4Index va) create .missingPml4Entry
      rw [pageWalkInternal]
      cases hr : ensureNextTable v root (pml4Index va) create .missingPml4Entry with
      | mk r v₁ =>
          rw [hr] at hens
          cases r with
          | error status => exact hens
          | ok pdpt => exact pageWalkPdpt_keeps hP hens pdpt va create

/-- `page_table_map` keeps what taking pages keeps. -/
theorem pageTableMap_keeps (va pa flags : Nat) : P (pageTableMap v va pa flags).2.pmm := by
  have hwalk := pageWalkInternal_keeps hP h (pageTableActiveRoot v) va true
  rw [pageTableMap]
  cases hr : pageWalkInternal v (pageTableActiveRoot v) va true with
  | mk r v₁ =>
      rw [hr] at hwalk
      cases r with
      | error status => exact hwalk
      | ok found =>
          obtain ⟨⟨table, index⟩, level⟩ := found
          dsimp only
          split_ifs
          · exact hwalk
          · exact hwalk

/-- `page_table_map_user` keeps what taking pages keeps. -/
theorem pageTableMapUser_keeps (pml4 : Option Nat) (va pa : Nat) (writable : Bool) :
    P (pageTableMapUser v pml4 va pa writable).2.pmm := by
  cases pml4 with
  | none => exact h
  | some root =>
      have hwalk := pageWalkInternal_keeps hP h (some root) va true
      rw [pageTableMapUser]
      cases hr : pageWalkInternal v (some root) va true with
      | mk r v₁ =>
          rw [hr] at hwalk
          cases r with
          | error status => exact hwalk
          | ok found => exact hwalk

/-- `page_table_create` takes a page at most. -/
theorem pageTableCreate_keeps : P (pageTableCreate v).2.pmm := by
  rw [pageTableCreate]
  dsimp only
  split_ifs
  · exact hP.alloc v.pmm h
  · cases pageTablePhysicalToVirtual v.hhdmOffset (pmmAllocPage v.pmm).1 with
    | none => exact hP.back v.pmm h
    | some newPml4 => exact hP.alloc v.pmm h

end Keeps

-- ========================================================= what they keep

/-- The page allocator is sound and has no free frame that `q` had not. -/
def PmmWithin (q p : Pmm) : Prop := PmmInv p ∧ ∀ a, PmmClear p a → PmmClear q a

/-- From `v` to `v'` the page allocator stays sound and only gives away
pages. -/
def PmmShrinks (v v' : Vm) : Prop := PmmWithin v.pmm v'.pmm

theorem PmmShrinks.trans {v v' v'' : Vm} (h : PmmShrinks v v') (h' : PmmShrinks v' v'') :
    PmmShrinks v v'' :=
  ⟨h'.1, fun a ha => h.2 a (h'.2 a ha)⟩

theorem PmmWithin.refl {q : Pmm} (hq : PmmInv q) : PmmWithin q q := ⟨hq, fun _ ha => ha⟩

/-- Taking pages adds no free page. -/
theorem takesOnly_within (q : Pmm) : TakesOnly (PmmWithin q) := by
  constructor
  · intro p hp
    rcases hp.1.alloc_cases with hnull | ⟨g, p', halloc, -, hinv, hclear⟩
    · rw [hnull]
      exact hp
    · rw [halloc]
      exact ⟨hinv, fun a ha => hp.2 a ((hclear a).mp ha).1⟩
  · intro p hp
    rcases hp.1.alloc_cases with hnull | ⟨g, p', halloc, hg, hinv, hclear⟩
    · rw [hnull, pmmFreePage_null]
      exact hp
    · rw [halloc]
      refine ⟨hinv.markPageFree _, ?_⟩
      intro a ha
      cases hinv.clear_of_freePage (hp.1.clear_frame hg).1 ha with
      | inl hold => exact hp.2 a ((hclear a).mp hold).1
      | inr heq => exact heq ▸ hp.2 g hg

/-- Taking pages does not change how many there are. -/
theorem takesOnly_total (n : Nat) : TakesOnly fun p => p.totalPages = n := by
  constructor
  · intro p hp
    rw [pmmAllocPage_totalPages]
    exact hp
  · intro p hp
    rw [pmmFreePage_totalPages, pmmAllocPage_totalPages]
    exact hp

variable {v : Vm}

/-- Mapping a page takes pages for tables. -/
theorem pageTableMap_shrinks (hp : PmmInv v.pmm) (va pa flags : Nat) :
    PmmShrinks v (pageTableMap v va pa flags).2 :=
  pageTableMap_keeps (takesOnly_within v.pmm) ⟨hp, fun _ ha => ha⟩ va pa flags

/-- `page_table_map_user` frees no page. -/
theorem pageTableMapUser_shrinks (hp : PmmInv v.pmm) (pml4 : Option Nat) (va pa : Nat)
    (writable : Bool) : PmmShrinks v (pageTableMapUser v pml4 va pa writable).2 :=
  pageTableMapUser_keeps (takesOnly_within v.pmm) ⟨hp, fun _ ha => ha⟩ pml4 va pa writable

/-- What is clear later was clear before. -/
theorem pmmClearPages_subset {p p' : Pmm} (hp : PmmInv p)
    (hclear : ∀ a, PmmClear p' a → PmmClear p a) : pmmClearPages p' ⊆ pmmClearPages p := by
  intro page hpage
  rw [mem_pmmClearPages] at hpage ⊢
  obtain ⟨page', heq, hclear'⟩ := hclear (page * pmmPageSize) ⟨page, rfl, hpage.2⟩
  obtain rfl : page = page' := by
    have heq' : page * 4096 = page' * 4096 := heq
    omega
  exact ⟨hp.lt_total hclear', hclear'⟩

/-- Fewer clear pages are counted as fewer. -/
theorem freePages_le {p p' : Pmm} (hp : PmmInv p) (hp' : PmmInv p')
    (hclear : ∀ a, PmmClear p' a → PmmClear p a) : p'.freePages ≤ p.freePages := by
  rw [hp.free_eq, hp'.free_eq]
  exact Finset.card_le_card (pmmClearPages_subset hp hclear)

/-- A page given away is one page fewer. -/
theorem freePages_lt {p p' : Pmm} (hp : PmmInv p) (hp' : PmmInv p')
    (hclear : ∀ a, PmmClear p' a → PmmClear p a) {a : Nat} (ha : PmmClear p a)
    (ha' : ¬ PmmClear p' a) : p'.freePages < p.freePages := by
  rw [hp.free_eq, hp'.free_eq]
  apply Finset.card_lt_card
  rw [Finset.ssubset_iff_of_subset (pmmClearPages_subset hp hclear)]
  obtain ⟨page, rfl, hpage⟩ := ha
  refine ⟨page, mem_pmmClearPages.mpr ⟨hp.lt_total hpage, hpage⟩, ?_⟩
  intro hmem
  exact ha' ⟨page, rfl, (mem_pmmClearPages.mp hmem).2⟩

end ZenithOS.Vmm
