/-
Mapping, unmapping and translating agree.

`page_table_translate` is a function of the leaf of its address
(`pageTableTranslate_eq`), so what a call does to the translations is
what it does to the leaves: the tables it creates change none of them
(`SameMap.leaf_eq`), and the one slot it writes changes the leaf of one
page (`TablesOk.leaf_write`).
-/
import ZenithOS.Vmm.Proofs.Walk

namespace ZenithOS.Vmm

open Lib Mm

variable {v v' : Vm} {ok : List (Fin 512) → Prop} {root va w : Nat}

-- ================================================================== leaves

/-- The address a leaf gives an address of its page. -/
def translateLeaf (va : Nat) : Option (PageWalkLevel × Nat) → Nat
  | none => 0
  | some (level, e) => pageAddress e ||| (va &&& (pageSizeForLevel level - 1))

/-- `page_table_translate` goes by the leaf. -/
theorem pageTableTranslate_eq (hroot : pageTableActiveRoot v = some root) (va : Nat) :
    pageTableTranslate v va = translateLeaf va (v.leaf root va) := by
  rw [pageTableTranslate, hroot]
  rcases pageWalkInternal_reads v root va with ⟨status, hwalk, hleaf⟩ |
    ⟨table, i, level, hwalk, hleaf, hpresent, hlevel⟩
  · rw [hwalk, hleaf]
    rfl
  · have hentry : pageEntry v.mem table i = slots v.mem table i := rfl
    have hsize : pageSizeForLevel level ≠ 0 := by
      rcases hlevel with ⟨rfl, -⟩ | rfl | rfl
      · decide
      · decide
      · decide
    rw [hwalk, hleaf]
    simp [hentry, hpresent, hsize, translateLeaf]

/-- `page_table_is_mapped` says whether there is a leaf. -/
theorem pageTableIsMapped_eq (hroot : pageTableActiveRoot v = some root) (va : Nat) :
    pageTableIsMapped v va = (v.leaf root va).isSome := by
  rw [pageTableIsMapped, hroot]
  rcases pageWalkInternal_reads v root va with ⟨status, hwalk, hleaf⟩ |
    ⟨table, i, level, hwalk, hleaf, hpresent, -⟩
  · rw [hwalk, hleaf]
    rfl
  · rw [hwalk, hleaf]
    exact hpresent

/-- What keeps the map keeps the leaves. -/
theorem SameMap.leaf_eq (h : SameMap ok root v v') (hw : ok (digits w)) :
    v'.leaf root w = v.leaf root w := by
  rcases h (digits w) hw rfl with heq | ⟨⟨l, e, hbefore, he⟩, ⟨l', e', hafter, he'⟩⟩
  · rw [Vm.leaf, heq]
    rfl
  · rw [Vm.leaf, Vm.leaf, hbefore, hafter, leafAt_append_absent he,
      leafAt_append_absent he']

/-- Entry `e` written to the slot of `va`: the leaf of the one page. -/
theorem TablesOk.leaf_write (h : TablesOk v ok root) (hva : ok (digits va))
    {table e : Nat} (htable : v.tableAt root (tablePath va) = some table)
    (he : e < 2 ^ 64) (hw : ok (digits w)) :
    (setPageEntry v table (ptDigit va) e).leaf root w
      = if digits w = digits va then
          if pageIsPresent e then some (.pt, e) else none
        else v.leaf root w := by
  have hp : ok (tablePath va) := h.closed _ _ ⟨[ptDigit va], rfl⟩ hva
  split_ifs with hsame hpresent
  · rw [Vm.leaf, hsame, digits_eq, h.trail_setPageEntry_self hp htable he]
    obtain ⟨a, b, c, habc⟩ := List.length_eq_three.mp (trail_length htable)
    rw [Vm.trail, habc]
    simp [leafAt, hpresent]
  · rw [Vm.leaf, hsame, digits_eq, h.trail_setPageEntry_self hp htable he]
    exact leafAt_append_absent (by simpa using hpresent) _ _
  · have hno : ¬ tablePath va ++ [ptDigit va] <+: digits w := by
      intro hpre
      exact hsame (hpre.eq_of_length rfl).symm
    rw [Vm.leaf, h.trail_setPageEntry_other hp htable hw hno]
    rfl

/-- Writing the slot of `va` leaves the tables as they are. -/
theorem TablesOk.write (h : TablesOk v ok root) (hva : ok (digits va))
    {table e : Nat} (htable : v.tableAt root (tablePath va) = some table)
    (he : e < 2 ^ 64) : TablesOk (setPageEntry v table (ptDigit va) e) ok root := by
  have hp : ok (tablePath va) := h.closed _ _ ⟨[ptDigit va], rfl⟩ hva
  refine (h.rewrite hp htable he ?_).1
  show nextTable v.hhdmOffset 0 e = nextTable v.hhdmOffset 0 _
  rw [nextTable_leaf, nextTable_leaf]

-- =================================================================== calls

/-- The entry `page_table_map` writes. -/
def mapEntry (physicalAddress flags : Nat) : Nat :=
  (physicalAddress &&& pageTableAddressMask) ||| (flags &&& mapFlagsMask) ||| pagePresent

theorem mapEntry_lt (pa flags : Nat) : mapEntry pa flags < 2 ^ 64 := by
  have haddress : pa &&& pageTableAddressMask < 2 ^ 64 := Nat.and_lt_two_pow _ (by decide)
  have hflags : flags &&& mapFlagsMask < 2 ^ 64 := Nat.and_lt_two_pow _ (by decide)
  exact Nat.or_lt_two_pow (Nat.or_lt_two_pow haddress hflags) (by decide)

theorem mapEntry_present (pa flags : Nat) : pageIsPresent (mapEntry pa flags) = true := by
  rw [pageIsPresent_eq, mapEntry, Nat.testBit_or, show pagePresent.testBit 0 = true by decide,
    Bool.or_true]

/-- Flags outside the address bits do not move the frame. -/
theorem mapEntry_address (pa : Nat) {flags : Nat}
    (hflags : flags &&& pageTableAddressMask = 0) :
    pageAddress (mapEntry pa flags) = pa &&& pageTableAddressMask := by
  have hidem : pageAddress (pa &&& pageTableAddressMask) = pa &&& pageTableAddressMask := by
    rw [pageAddress, Nat.and_assoc, Nat.and_self]
  have hzero : pageAddress (flags &&& mapFlagsMask) = 0 := by
    rw [pageAddress, Nat.and_assoc, Nat.and_comm mapFlagsMask, ← Nat.and_assoc, hflags,
      Nat.zero_and]
  rw [mapEntry, pageAddress_or, pageAddress_or, hidem, hzero,
    show pageAddress pagePresent = 0 by decide, Nat.or_zero, Nat.or_zero]

/-- The active root is part of the configuration. -/
theorem LinkSteps.activeRoot (hsteps : LinkSteps ok root v v') :
    pageTableActiveRoot v' = pageTableActiveRoot v := by
  rw [LinkSteps.config hsteps]
  rfl

/-- `page_table_map`: steps, and on success one slot. -/
theorem TablesOk.pageTableMap_cases (h : TablesOk v ok root)
    (hroot : pageTableActiveRoot v = some root) (hva : ok (digits va)) (pa flags : Nat) :
    ∃ v₁, LinkSteps ok root v v₁
      ∧ (pageTableMap v va pa flags = (false, v₁)
        ∨ ∃ table, v₁.tableAt root (tablePath va) = some table
          ∧ pageTableMap v va pa flags
            = (true, setPageEntry v₁ table (ptDigit va) (mapEntry pa flags))) := by
  have hcreates := h.pageWalkInternal_creates hva
  rw [pageTableMap, hroot]
  cases hwalk : pageWalkInternal v (some root) va true with
  | mk r v₁ =>
      rw [hwalk] at hcreates
      obtain ⟨hsteps, hok⟩ := hcreates
      refine ⟨v₁, hsteps, ?_⟩
      cases r with
      | error status => exact .inl rfl
      | ok found =>
          obtain ⟨slot, level⟩ := found
          obtain ⟨rfl, table, rfl, htable⟩ := hok slot level rfl
          exact .inr ⟨table, htable, rfl⟩

/-- `page_table_unmap`: one slot of a mapped page, or nothing. -/
theorem pageTableUnmap_cases (hroot : pageTableActiveRoot v = some root) (va : Nat) :
    (pageTableUnmap v va = (false, v) ∧ ∀ e, v.leaf root va ≠ some (.pt, e))
      ∨ ∃ table e, v.leaf root va = some (.pt, e)
        ∧ v.tableAt root (tablePath va) = some table
        ∧ pageTableUnmap v va = (true, setPageEntry v table (ptDigit va) 0) := by
  rw [pageTableUnmap, hroot]
  rcases pageWalkInternal_reads v root va with ⟨status, hwalk, hleaf⟩ |
    ⟨table, i, level, hwalk, hleaf, hpresent, hlevel⟩
  · rw [hwalk, hleaf]
    exact .inl ⟨rfl, by simp⟩
  · have hentry : pageEntry v.mem table i = slots v.mem table i := rfl
    rw [hwalk, hleaf]
    rcases hlevel with ⟨rfl, rfl, htable⟩ | rfl | rfl
    · refine .inr ⟨table, _, rfl, htable, ?_⟩
      simp [hentry, hpresent]
    · exact .inl ⟨by simp, by simp⟩
    · exact .inl ⟨by simp, by simp⟩

/-- All the leaves of the active root after `page_table_map`. -/
theorem TablesOk.leaf_map (h : TablesOk v (fun _ => True) root)
    (hroot : pageTableActiveRoot v = some root) (va pa flags : Nat) :
    TablesOk (pageTableMap v va pa flags).2 (fun _ => True) root
      ∧ pageTableActiveRoot (pageTableMap v va pa flags).2 = some root
      ∧ ∀ w, (pageTableMap v va pa flags).2.leaf root w
        = if (pageTableMap v va pa flags).1 = true ∧ digits w = digits va then
            some (.pt, mapEntry pa flags)
          else v.leaf root w := by
  obtain ⟨v₁, hsteps, hcases⟩ := h.pageTableMap_cases hroot trivial pa flags
  have h₁ := LinkSteps.tablesOk hsteps h
  have hleaf : ∀ w, v₁.leaf root w = v.leaf root w := fun w =>
    (LinkSteps.sameMap hsteps h).leaf_eq trivial
  cases hcases with
  | inl hfalse =>
      rw [hfalse]
      exact ⟨h₁, (LinkSteps.activeRoot hsteps).trans hroot, fun w => by simp [hleaf]⟩
  | inr htrue =>
      obtain ⟨table, htable, htrue⟩ := htrue
      rw [htrue]
      refine ⟨h₁.write trivial htable (mapEntry_lt pa flags),
        (LinkSteps.activeRoot hsteps).trans hroot, fun w => ?_⟩
      rw [h₁.leaf_write trivial htable (mapEntry_lt pa flags) trivial,
        if_pos (mapEntry_present pa flags), hleaf]
      simp only [true_and]

/-- All the leaves of the active root after `page_table_unmap`. -/
theorem TablesOk.leaf_unmap (h : TablesOk v (fun _ => True) root)
    (hroot : pageTableActiveRoot v = some root) (va : Nat) :
    TablesOk (pageTableUnmap v va).2 (fun _ => True) root
      ∧ pageTableActiveRoot (pageTableUnmap v va).2 = some root
      ∧ ((pageTableUnmap v va).1 = true ↔ ∃ e, v.leaf root va = some (.pt, e))
      ∧ ((pageTableUnmap v va).1 = false → (pageTableUnmap v va).2 = v)
      ∧ ∀ w, (pageTableUnmap v va).2.leaf root w
        = if (pageTableUnmap v va).1 = true ∧ digits w = digits va then none
          else v.leaf root w := by
  rcases pageTableUnmap_cases hroot va with ⟨hfalse, hleaf⟩ |
    ⟨table, e, hleaf, htable, htrue⟩
  · rw [hfalse]
    exact ⟨h, hroot, by simp [hleaf], fun _ => rfl, by simp⟩
  · have hlt : (0 : Nat) < 2 ^ 64 := by decide
    rw [htrue]
    refine ⟨h.write trivial htable hlt, hroot, by simp [hleaf], by simp, fun w => ?_⟩
    rw [h.leaf_write trivial htable hlt trivial]
    simp only [true_and, show pageIsPresent 0 = false from rfl, Bool.false_eq_true, if_false]

/-- Mapping, unmapping and translating agree, in every state in which the
tables of the active root are a tree off the frames `pmm_alloc_page` may
return. -/
theorem map_unmap_translate (hroot : pageTableActiveRoot v = some root)
    (h : TablesOk v (fun _ => True) root) (va pa flags : Nat)
    (hflags : flags &&& pageTableAddressMask = 0) :
    ((pageTableMap v va pa flags).1 = true →
      (∀ w, SamePage va w → pageTableTranslate (pageTableMap v va pa flags).2 w
        = (pa &&& pageTableAddressMask) ||| (w &&& 0xFFF))
      ∧ ∀ w, ¬ SamePage va w → pageTableTranslate (pageTableMap v va pa flags).2 w
        = pageTableTranslate v w)
    ∧ ((pageTableMap v va pa flags).1 = false →
      ∀ w, pageTableTranslate (pageTableMap v va pa flags).2 w = pageTableTranslate v w)
    ∧ ((pageTableUnmap v va).1 = true ↔ ∃ e, v.leaf root va = some (.pt, e))
    ∧ ((pageTableUnmap v va).1 = true →
      (∀ w, SamePage va w → pageTableTranslate (pageTableUnmap v va).2 w = 0)
      ∧ ∀ w, ¬ SamePage va w →
        pageTableTranslate (pageTableUnmap v va).2 w = pageTableTranslate v w)
    ∧ ((pageTableUnmap v va).1 = false → (pageTableUnmap v va).2 = v)
    ∧ (pageTableIsMapped v va = false → ∀ w,
      pageTableTranslate (pageTableUnmap (pageTableMap v va pa flags).2 va).2 w
        = pageTableTranslate v w)
    ∧ (TablesOk (pageTableMap v va pa flags).2 (fun _ => True) root
      ∧ pageTableActiveRoot (pageTableMap v va pa flags).2 = some root)
    ∧ TablesOk (pageTableUnmap v va).2 (fun _ => True) root
      ∧ pageTableActiveRoot (pageTableUnmap v va).2 = some root := by
  obtain ⟨hmap, hmapRoot, hmapLeaf⟩ := h.leaf_map hroot va pa flags
  obtain ⟨hun, hunRoot, huniff, hunsame, hunLeaf⟩ := h.leaf_unmap hroot va
  refine ⟨?_, ?_, huniff, ?_, hunsame, ?_, ⟨hmap, hmapRoot⟩, hun, hunRoot⟩
  · intro htrue
    refine ⟨fun w hw => ?_, fun w hw => ?_⟩
    · rw [samePage_iff_digits] at hw
      rw [pageTableTranslate_eq hmapRoot, hmapLeaf, if_pos ⟨htrue, hw.symm⟩]
      show pageAddress (mapEntry pa flags) ||| (w &&& 0xFFF) = _
      rw [mapEntry_address pa hflags]
    · rw [samePage_iff_digits] at hw
      rw [pageTableTranslate_eq hmapRoot, pageTableTranslate_eq hroot, hmapLeaf,
        if_neg (fun hboth => hw hboth.2.symm)]
  · intro hfalse w
    rw [pageTableTranslate_eq hmapRoot, pageTableTranslate_eq hroot, hmapLeaf, hfalse,
      if_neg (by simp)]
  · intro htrue
    refine ⟨fun w hw => ?_, fun w hw => ?_⟩
    · rw [samePage_iff_digits] at hw
      rw [pageTableTranslate_eq hunRoot, hunLeaf, if_pos ⟨htrue, hw.symm⟩]
      rfl
    · rw [samePage_iff_digits] at hw
      rw [pageTableTranslate_eq hunRoot, pageTableTranslate_eq hroot, hunLeaf,
        if_neg (fun hboth => hw hboth.2.symm)]
  · intro hunmapped w
    have hnone : v.leaf root va = none := by
      rw [pageTableIsMapped_eq hroot] at hunmapped
      simpa using hunmapped
    obtain ⟨-, hboth, hbothiff, -, hbothLeaf⟩ := hmap.leaf_unmap hmapRoot va
    rw [pageTableTranslate_eq hboth, pageTableTranslate_eq hroot, hbothLeaf, hmapLeaf]
    -- the page is unmapped in the end whether or not the map succeeded
    by_cases hw : digits w = digits va
    · have hwnone : v.leaf root w = none := by
        rw [Vm.leaf, hw]
        exact hnone
      cases htrue : (pageTableMap v va pa flags).1 with
      | false => simp [hwnone]
      | true =>
          have hundone : (pageTableUnmap (pageTableMap v va pa flags).2 va).1 = true := by
            rw [hbothiff, hmapLeaf, if_pos ⟨htrue, rfl⟩]
            exact ⟨_, rfl⟩
          simp [hw, hundone, hwnone]
    · simp [hw]

/-- A root in page 1 of eight, with six pages to make tables of: a page
is mapped and found. -/
theorem map_unmap_translate_empty_root :
    let pmm := (pmmInit ⟨⟨fun _ => 0#8, 0⟩, 0, 0, 0, 0⟩ [⟨0x2000, 0x6000, .usable⟩] none).2
    let v : Vm := ⟨fun _ => 0#8, pmm, 0xFFFF800000000000, true, some 0x1000, 0x1000,
      0x1000, 0x1000⟩
    pageTableTranslate (pageTableMap v 0x400000 0x7000 pageWritable).2 0x400123 = 0x7123
      := by
  intro pmm v
  have hinit : pmmInit ⟨⟨fun _ => 0#8, 0⟩, 0, 0, 0, 0⟩ [⟨0x2000, 0x6000, .usable⟩] none
      = (true, pmm) := Prod.ext (by decide) rfl
  have hused : ¬ PmmClear pmm 0x1000 := by
    intro hclear
    obtain ⟨page, hpage, hbit⟩ := hclear
    obtain rfl : page = 1 := by
      have hpage' : 0x1000 = page * 4096 := hpage
      omega
    revert hbit
    decide
  have hzero : ∀ i, slots v.mem 0x1000 i = 0 := by
    intro i
    simp [v, slots, pageEntry, loadWord]
  have htables : TablesOk v (fun _ => True) 0x1000 :=
    (tablesOk_of_empty (by decide) (fun _ _ _ _ => trivial) (fun i _ => by rw [hzero]; rfl)
      (pmmInit_inv hinit) hused).1
  refine ((map_unmap_translate rfl htables 0x400000 0x7000 pageWritable rfl).1 ?_).1
    0x400123 ?_
  · decide
  · exact (samePage_iff_digits _ _).mpr (by decide)

end ZenithOS.Vmm
