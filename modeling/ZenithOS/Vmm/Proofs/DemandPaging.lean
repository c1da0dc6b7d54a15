/-
Demand faults.

The handler maps the page under the kernel's root, while the fault was
taken under the active one. So it helps the faulting access exactly if
the two walks for the address share a table (`SharesTable`): from there
on they are one walk, and the page, which the active root did not map,
was not mapped by the kernel's either. A process root whose entry for the
address is older than the kernel's shares nothing.
-/
import ZenithOS.Vmm.DemandPaging
import ZenithOS.Mm.Proofs.Pmm
import ZenithOS.Vmm.Proofs.Roots

namespace ZenithOS.Vmm

open Lib Mm

variable {v v' : Vm} {m : Mem} {roots : List Nat} {r k a f g n addr w : Nat} {vma : VmaTable}

/-- The walks for an address from `a` and from `k` come to a common table
on the way to its page table. -/
def SharesTable (m : Mem) (a k addr : Nat) : Prop :=
  ∃ p f, p <+: tablePath addr ∧ hwTable m a p = some f ∧ hwTable m k p = some f

/-- The fault is fixed: the active root maps the address to a frame of
zeros, and what any root mapped it still maps. -/
structure FaultFixed (roots : List Nat) (addr : Nat) (v v' : Vm) : Prop where
  mapped : ∃ e, mmuLeaf v'.mem v.activePml4Physical addr = some (.pt, e)
    ∧ ∀ x < pageSize, v'.mem (pageAddress e + x) = 0#8
  kept : ∀ r ∈ roots, ∀ w pa, mmuTranslate v.mem r w = some pa →
    mmuTranslate v'.mem r w = some pa

/-- The fault is turned down: every root maps what it mapped, and the
frame `pmm_alloc_page` would give is free. -/
structure FaultRefused (roots : List Nat) (v v' : Vm) : Prop where
  same : ∀ r ∈ roots, ∀ w, mmuTranslate v'.mem r w = mmuTranslate v.mem r w
  free : (pmmAllocPage v.pmm).1 ≠ null → PmmClear v'.pmm (pmmAllocPage v.pmm).1

theorem testBit_pageBaseMask (i : Nat) :
    pageBaseMask.testBit i = decide (12 ≤ i ∧ i < 64) := by
  have hmask : pageBaseMask = (2 ^ 52 - 1) <<< 12 := by decide
  rw [hmask, Nat.testBit_shiftLeft, Nat.testBit_two_pow_sub_one]
  by_cases hlo : 12 ≤ i
  · have hshift : i - 12 < 52 ↔ i < 64 := by omega
    simp [hlo, hshift]
  · simp [hlo]

/-- The page base has the indices of the address. -/
theorem digits_pageBase (addr : Nat) : digits (addr &&& pageBaseMask) = digits addr := by
  rw [← samePage_iff_digits]
  intro i hlo hhi
  rw [Nat.testBit_and, testBit_pageBaseMask]
  simp [hlo, show i < 64 by omega]

/-- Leaf by leaf: an address without translation has no leaf. -/
theorem mmuLeaf_eq_none : mmuTranslate m r w = none ↔ mmuLeaf m r w = none := by
  rw [mmuTranslate]
  exact Option.map_eq_none_iff

/-- Two roots that share a table go on from there together. -/
theorem SharesTable.table_eq (h : SharesTable m a k addr) :
    hwTable m a (tablePath addr) = hwTable m k (tablePath addr) := by
  obtain ⟨p, f, ⟨q, hq⟩, ha, hk⟩ := h
  rw [hwTable] at ha hk
  rw [← hq, hwTable, hwTable, tableAt_append, tableAt_append, ha, hk]

theorem pageWritable_address : pageWritable &&& pageTableAddressMask = 0 := by decide

/-- What the handler does: it refuses, with the tables grown and the
frame free, or enters a frame of zeros into the page table for the
address under `root`. -/
def FaultOutcome (roots : List Nat) (root : Option Nat) (addr : Nat) (v : Vm)
    (result : Bool × Vm) : Prop :=
  (∃ v', result = (false, v') ∧ Extended roots v v'
      ∧ ((pmmAllocPage v.pmm).1 ≠ null → PmmClear v'.pmm (pmmAllocPage v.pmm).1))
    ∨ ∃ g k v' table, root = some k ∧ k ∈ roots
      ∧ Taken roots v v' g (fill v.mem g 0#8 pageSize)
      ∧ hwTable v'.mem k (tablePath addr) = some table
      ∧ result = (true, setPageEntry v' table (ptDigit addr) (mapEntry g pageWritable))

/-- A refusal that touched nothing. -/
theorem Forest.fault_refused (hv : Forest v roots) (root : Option Nat) :
    FaultOutcome roots root addr v (false, v) := by
  refine .inl ⟨v, rfl, Extended.refl hv, ?_⟩
  intro hne
  rcases hv.pmm.alloc_cases with hnull | ⟨g, pmm, halloc, hg, -⟩
  · rw [hnull] at hne
    exact absurd rfl hne
  · rw [halloc]
    exact hg

/-- With a frame in hand, by the outcome of `page_table_map`. -/
theorem Forest.fault_mapped {pmm : Pmm} (hv : Forest v roots)
    (hactive : ∀ k, pageTableActiveRoot v = some k → k ∈ roots)
    (halloc : pmmAllocPage v.pmm = (g, pmm))
    (hg : PmmClear v.pmm g) (hinv : PmmInv pmm)
    (hclear : ∀ a, PmmClear pmm a ↔ PmmClear v.pmm a ∧ a ≠ g) (addr : Nat) :
    ∃ done v', pageTableMap { v with pmm := pmm, mem := fill v.mem g 0#8 pageSize }
        (addr &&& pageBaseMask) g pageWritable = (done, v')
      ∧ FaultOutcome roots (pageTableActiveRoot v) addr v
        (done, if done then v' else { v' with pmm := pmmFreePage g v'.pmm }) := by
  have htaken := hv.taken hg hinv hclear (m := fill v.mem g 0#8 pageSize)
    (fun a ha => fill_outside ha)
  have hmaps := htaken.grown.forest.pageTableMap_maps hactive (addr &&& pageBaseMask) g
    pageWritable
  rcases hmaps with ⟨v', hfalse, hgrown⟩ | ⟨k, v', table, hroot, hkr, hgrown, htable, htrue⟩
  · have hpages : pmm.totalPages = v.pmm.totalPages := by
      have hkept := pmmAllocPage_totalPages v.pmm
      rw [halloc] at hkept
      exact hkept
    have htotal := pageTableMap_keeps (takesOnly_total v.pmm.totalPages)
      (v := { v with pmm := pmm, mem := fill v.mem g 0#8 pageSize }) hpages
      (addr &&& pageBaseMask) g pageWritable
    rw [hfalse] at htotal
    obtain ⟨hback, hfree⟩ := (htaken.grow hv hgrown).giveBack hv htotal
    refine ⟨false, v', hfalse, .inl ⟨_, rfl, hback, ?_⟩⟩
    intro _
    rw [halloc]
    exact hfree
  · have hsplit : tablePath (addr &&& pageBaseMask) ++ [ptDigit (addr &&& pageBaseMask)]
        = tablePath addr ++ [ptDigit addr] := digits_pageBase addr
    obtain ⟨hpath, hlast⟩ := List.append_inj' hsplit rfl
    rw [(List.cons.inj hlast).1] at htrue
    exact ⟨true, _, htrue, .inr ⟨g, k, v', table, hroot, hkr, htaken.grow hv hgrown,
      hpath ▸ htable, rfl⟩⟩

/-- A fault maps a page of its own, or is refused. -/
theorem Forest.fault_cases (hv : Forest v roots)
    (hactive : ∀ k, pageTableActiveRoot v = some k → k ∈ roots) (vma : VmaTable)
    (addr err : Nat) :
    FaultOutcome roots (pageTableActiveRoot v) addr v (vmmHandlePageFault vma addr err v) := by
  by_cases herr : err &&& (1 <<< 0) ≠ 0
  · rw [vmmHandlePageFault, if_pos herr]
    exact hv.fault_refused _
  cases hfind : vmaFind vma addr with
  | none =>
      rw [vmmHandlePageFault, if_neg herr, hfind]
      exact hv.fault_refused _
  | some area =>
      by_cases hflag : (vma.entry area).flags &&& vmaDemandPaged = 0
      · simp only [vmmHandlePageFault, if_neg herr, hfind, if_pos hflag]
        exact hv.fault_refused _
      rcases hv.pmm.alloc_cases with hnull | ⟨g, pmm, halloc, hg, hinv, hclear⟩
      · simp only [vmmHandlePageFault, if_neg herr, hfind, if_neg hflag, hnull, if_true]
        exact hv.fault_refused _
      obtain ⟨-, hgnull, -⟩ := hv.pmm.clear_frame hg
      obtain ⟨done, v', hmap, houtcome⟩ := hv.fault_mapped hactive halloc hg hinv hclear addr
      cases done with
      | false =>
          simp only [vmmHandlePageFault, if_neg herr, hfind, if_neg hflag, halloc, if_neg hgnull,
            hmap]
          exact houtcome
      | true =>
          simp only [vmmHandlePageFault, if_neg herr, hfind, if_neg hflag, halloc, if_neg hgnull,
            hmap]
          exact houtcome

-- ============================================================ the two ends

/-- A refusal changes no mapping. -/
theorem Grown.faultRefused (h : Grown roots v v')
    (hfree : (pmmAllocPage v.pmm).1 ≠ null → PmmClear v'.pmm (pmmAllocPage v.pmm).1) :
    FaultRefused roots v v' :=
  ⟨fun r hr w => mmuTranslate_congr (h.leaf r hr w), hfree⟩

section Fixed

variable {table : Nat} (hv : Forest v roots) (hkr : k ∈ roots) (har : v.activePml4Physical ∈ roots)
  (hfault : mmuTranslate v.mem v.activePml4Physical addr = none)
  (htaken : Taken roots v v' g (fill v.mem g 0#8 pageSize))
  (htable : hwTable v'.mem k (tablePath addr) = some table)

include hkr htaken htable

/-- The new entry, for every root and page. -/
theorem Taken.leaf_fault (hr : r ∈ roots) (w : Nat) :
    mmuLeaf (setPageEntry v' table (ptDigit addr) (mapEntry g pageWritable)).mem r w
      = if hwTable v'.mem r (tablePath w) = some table ∧ ptDigit w = ptDigit addr then
          some (.pt, mapEntry g pageWritable)
        else mmuLeaf v'.mem r w := by
  have hbelow : TableBelow v'.mem roots 3 table := ⟨k, hkr, _, rfl, htable⟩
  have hself : slots (setPageEntry v' table (ptDigit addr) (mapEntry g pageWritable)).mem table
      (ptDigit addr) = mapEntry g pageWritable :=
    slots_store_self.trans (Nat.mod_eq_of_lt (mapEntry_lt _ _))
  have hwrite := htaken.grown.forest.write_page
    (htaken.grown.forest.writesSlot (i := ptDigit addr) hbelow (mapEntry g pageWritable)) hbelow
  rw [hwrite.2.2 r hr w, hself, if_pos (mapEntry_present g pageWritable)]

include hv har hfault in
/-- If the walks share a table, the fault is fixed. -/
theorem Taken.fixed (hshares : SharesTable v.mem v.activePml4Physical k addr) :
    FaultFixed roots addr v
      (setPageEntry v' table (ptDigit addr) (mapEntry g pageWritable)) := by
  obtain ⟨hgal, -, hglt⟩ := hv.pmm.clear_frame htaken.clear
  have hgrown := htaken.grown
  -- the shared table is still there, so the active root reaches the slot
  have hactive : hwTable v'.mem v.activePml4Physical (tablePath addr) = some table := by
    obtain ⟨p, f, hpre, ha, hk⟩ := hshares
    have hshares' : SharesTable v'.mem v.activePml4Physical k addr :=
      ⟨p, f, hpre, hgrown.tables _ har p f ha, hgrown.tables k hkr p f hk⟩
    rw [hshares'.table_eq]
    exact htable
  have habsent : pageIsPresent (slots v'.mem table (ptDigit addr)) = false := by
    have hnone := mmuLeaf_eq_none.mp hfault
    rw [← hgrown.leaf _ har, mmuLeaf_of_table hactive] at hnone
    by_contra hpresent
    rw [if_pos (by simpa using hpresent)] at hnone
    cases hnone
  constructor
  · refine ⟨mapEntry g pageWritable, ?_, ?_⟩
    · rw [htaken.leaf_fault hkr htable har, if_pos ⟨hactive, rfl⟩]
    · intro x hx
      have hne : g ≠ table := fun heq =>
        htaken.data 3 (heq ▸ ⟨k, hkr, _, rfl, htable⟩)
      have hal := hgrown.forest.table_aligned ⟨k, hkr, _, rfl, htable⟩
      have hi := (ptDigit addr).isLt
      have haddress : pageAddress (mapEntry g pageWritable) = g := by
        rw [mapEntry_address g pageWritable_address]
        exact pageAddress_of_aligned hgal (Nat.lt_trans hglt (by decide))
      have hout : g + x < table + 8 * (ptDigit addr).val
          ∨ table + 8 * (ptDigit addr).val + 8 ≤ g + x := by
        have hx' : x < 4096 := hx
        obtain ⟨a, ha⟩ := hgal
        obtain ⟨b, hb⟩ := hal
        have ha' : g = 4096 * a := ha
        omega
      rw [haddress, setPageEntry]
      show storeWord v'.mem (table + 8 * (ptDigit addr).val) _ (g + x) = 0#8
      rw [storeWord_outside hout, htaken.bytes x hx]
      exact fill_inside (Nat.le_add_right g x) (Nat.add_lt_add_left hx g)
  · intro r hr w pa hpa
    rw [← hpa]
    apply mmuTranslate_congr
    rw [htaken.leaf_fault hkr htable hr, ← hgrown.leaf r hr w, if_neg]
    intro hslot
    -- no root mapped anything through the slot
    have hleaf := mmuLeaf_of_table hslot.1
    rw [hslot.2, habsent, hgrown.leaf r hr w] at hleaf
    rw [mmuLeaf_eq_none.mpr hleaf] at hpa
    cases hpa

include har hfault in
/-- And only then. -/
theorem Taken.shares
    (hfixed : FaultFixed roots addr v
      (setPageEntry v' table (ptDigit addr) (mapEntry g pageWritable))) :
    SharesTable v.mem v.activePml4Physical k addr := by
  obtain ⟨e, hleaf, -⟩ := hfixed.mapped
  rw [htaken.leaf_fault hkr htable har] at hleaf
  split_ifs at hleaf with hslot
  · obtain ⟨q, f, hpre, ha, hk⟩ := htaken.grown.meet _ har k hkr _ table hslot.1 htable
    exact ⟨q, f, hpre, ha, hk⟩
  · rw [htaken.grown.leaf _ har, mmuLeaf_eq_none.mp hfault] at hleaf
    cases hleaf

end Fixed

/-- What the handler owes for a fault: the fault fixed when it says so,
nothing changed otherwise. -/
def FaultContract (roots : List Nat) (vma : VmaTable) (addr err : Nat) (v : Vm) : Prop :=
  ((vmmHandlePageFault vma addr err v).1 = true →
      FaultFixed roots addr v (vmmHandlePageFault vma addr err v).2)
    ∧ ((vmmHandlePageFault vma addr err v).1 = false →
      FaultRefused roots v (vmmHandlePageFault vma addr err v).2)

theorem FaultContract.mapped {err : Nat} (h : FaultContract roots vma addr err v)
    (htrue : (vmmHandlePageFault vma addr err v).1 = true) :
    mmuLeaf (vmmHandlePageFault vma addr err v).2.mem v.activePml4Physical addr ≠ none := by
  obtain ⟨e, hleaf, -⟩ := (h.1 htrue).mapped
  rw [hleaf]
  exact Option.some_ne_none _

theorem activeRoot_kernel (hk : v.kernelPml4 = some k) : pageTableActiveRoot v = some k := by
  rw [pageTableActiveRoot, hk]

theorem activeRoot_mem (hk : v.kernelPml4 = some k) (hkr : k ∈ roots) :
    ∀ k', pageTableActiveRoot v = some k' → k' ∈ roots := by
  intro k' hk'
  rw [activeRoot_kernel hk] at hk'
  exact Option.some.inj hk' ▸ hkr

section Contract

variable (hv : Forest v roots) (hk : v.kernelPml4 = some k) (hkr : k ∈ roots) (vma : VmaTable)
  (err : Nat)

include hv hk hkr

theorem Forest.contract_of_refused (hfalse : (vmmHandlePageFault vma addr err v).1 = false) :
    FaultContract roots vma addr err v := by
  rcases hv.fault_cases (activeRoot_mem hk hkr) vma addr err with
    ⟨v', hresult, hgrown, hfree⟩ | ⟨g, k', v', table, -, -, -, -, hresult⟩
  · unfold FaultContract
    rw [hresult]
    exact ⟨fun htrue => (nomatch htrue), fun _ => hgrown.grown.faultRefused hfree⟩
  · rw [hresult] at hfalse
    cases hfalse

theorem Forest.contract_iff_shares (har : v.activePml4Physical ∈ roots)
    (hfault : mmuTranslate v.mem v.activePml4Physical addr = none)
    (htrue : (vmmHandlePageFault vma addr err v).1 = true) :
    FaultContract roots vma addr err v ↔ SharesTable v.mem v.activePml4Physical k addr := by
  rcases hv.fault_cases (activeRoot_mem hk hkr) vma addr err with
    ⟨v', hresult, -⟩ | ⟨g, k', v', table, hroot, -, htaken, htable, hresult⟩
  · rw [hresult] at htrue
    cases htrue
  · rw [activeRoot_kernel hk] at hroot
    obtain rfl : k = k' := Option.some.inj hroot
    unfold FaultContract
    rw [hresult]
    constructor
    · intro hcontract
      exact htaken.shares hkr har hfault htable (hcontract.1 rfl)
    · intro hshares
      exact ⟨fun _ => htaken.fixed hv hkr har hfault htable hshares,
        fun hfalse => (nomatch hfalse)⟩

end Contract

/-- A fault on an address that the active root does not map, over any
forest of roots with the kernel's among them: turned down, it leaves
everything as it was; handled, it is fixed if and only if the active
root's walk shares a table with the kernel's. -/
theorem demand_fault_fixed_iff (hv : Forest v roots) (hk : v.kernelPml4 = some k)
    (hkr : k ∈ roots) (har : v.activePml4Physical ∈ roots)
    (hfault : mmuTranslate v.mem v.activePml4Physical addr = none) (vma : VmaTable) (err : Nat) :
    ((vmmHandlePageFault vma addr err v).1 = false → FaultContract roots vma addr err v)
      ∧ ((vmmHandlePageFault vma addr err v).1 = true →
        (FaultContract roots vma addr err v
          ↔ SharesTable v.mem v.activePml4Physical k addr)) :=
  ⟨hv.contract_of_refused hk hkr vma err, hv.contract_iff_shares hk hkr vma err har hfault⟩

/-- A kernel root in page 1 of sixteen, without entries. -/
def emptyKernel : Vm :=
  { mem := fun _ => 0#8
    pmm := (pmmInit ⟨⟨fun _ => 0#8, 0⟩, 0, 0, 0, 0⟩ [⟨0x2000, 0xE000, .usable⟩] none).2
    hhdmOffset := 0xFFFF800000000000
    hhdmReady := true
    kernelPml4 := some 0x1000
    kernelPml4Physical := 0x1000
    activePml4Physical := 0x1000
    cr3 := 0x1000 }

theorem emptyKernel_slots (j : Fin 512) :
    pageIsPresent (slots emptyKernel.mem 0x1000 j) = false := by
  have hzero : slots emptyKernel.mem 0x1000 j = 0 := by
    simp [emptyKernel, slots, pageEntry, loadWord]
  rw [hzero]
  rfl

theorem emptyKernel_paths : PathsAlike emptyKernel.mem [0x1000] := by
  have hnil : PathsAlike emptyKernel.mem [] := fun _ hr => (nomatch hr)
  refine hnil.addRoot ?_ fun j => .inl (emptyKernel_slots j)
  rintro n ⟨r, hr, -⟩
  cases hr

theorem emptyKernel_forest : Forest emptyKernel [0x1000] := by
  have hinit : pmmInit ⟨⟨fun _ => 0#8, 0⟩, 0, 0, 0, 0⟩ [⟨0x2000, 0xE000, .usable⟩] none
      = (true, emptyKernel.pmm) := Prod.ext (by decide) rfl
  refine forest_of_empty (pmmInit_inv hinit) (by decide) ?_ emptyKernel_slots
  intro hclear
  obtain ⟨page, hpage, hbit⟩ := hclear
  obtain rfl : page = 1 := by
    have hpage' : 0x1000 = page * 4096 := hpage
    omega
  revert hbit
  decide

/-- Under the kernel's own root a fault is fixed. -/
theorem demand_fault_fixed_kernel_root :
    (vmmHandlePageFault [⟨0x400000, 0x800000, 8⟩] 0x400123 0 emptyKernel).1 = true
      ∧ FaultContract [0x1000] [⟨0x400000, 0x800000, 8⟩] 0x400123 0 emptyKernel := by
  have hfault : mmuTranslate emptyKernel.mem emptyKernel.activePml4Physical 0x400123 = none := by
    decide +kernel
  have htrue : (vmmHandlePageFault [⟨0x400000, 0x800000, 8⟩] 0x400123 0 emptyKernel).1 = true := by
    decide +kernel
  refine ⟨htrue, ?_⟩
  refine ((demand_fault_fixed_iff emptyKernel_forest rfl List.mem_cons_self List.mem_cons_self
    hfault [⟨0x400000, 0x800000, 8⟩] 0).2 htrue).mpr ?_
  exact ⟨[], 0x1000, List.nil_prefix, rfl, rfl⟩

/-- The kernel with a process root made before anything was mapped, and
loaded. -/
def oldProcessRoot : Vm :=
  { (pageTableCreate emptyKernel).2 with activePml4Physical := 0x2000, cr3 := 0x2000 }

theorem oldProcessRoot_forest : Forest oldProcessRoot [0x2000, 0x1000] := by
  have hnew : (pageTableCreate emptyKernel).1 = some 0x2000 := by decide +kernel
  have hkernel : ∀ k, emptyKernel.kernelPml4 = some k → k ∈ [0x1000] := by
    intro k hk
    rw [← Option.some.inj hk]
    exact List.mem_cons_self
  rcases emptyKernel_forest.create hkernel with ⟨v', heq, -⟩ | ⟨g, v', heq, -, -, -, -, -, hv, -, -⟩
  · rw [heq] at hnew
    cases hnew
  · rw [heq] at hnew
    obtain rfl : g = 0x2000 := Option.some.inj hnew
    rw [oldProcessRoot, heq]
    exact ⟨hv.pmm, hv.aligned, hv.used, hv.levels⟩

/-- The handler says that the fault is fixed, and the process root still
does not map the address. -/
theorem demand_fault_missed :
    Forest oldProcessRoot [0x2000, 0x1000]
      ∧ mmuTranslate oldProcessRoot.mem oldProcessRoot.activePml4Physical 0x400123 = none
      ∧ (vmmHandlePageFault [⟨0x400000, 0x800000, 8⟩] 0x400123 0 oldProcessRoot).1 = true
      ∧ ¬ FaultContract [0x2000, 0x1000] [⟨0x400000, 0x800000, 8⟩] 0x400123 0 oldProcessRoot := by
  have hfault : mmuTranslate oldProcessRoot.mem oldProcessRoot.activePml4Physical 0x400123
      = none := by
    decide +kernel
  have htrue : (vmmHandlePageFault [⟨0x400000, 0x800000, 8⟩] 0x400123 0 oldProcessRoot).1
      = true := by
    decide +kernel
  refine ⟨oldProcessRoot_forest, hfault, htrue, ?_⟩
  intro hcontract
  have hnone : mmuLeaf (vmmHandlePageFault [⟨0x400000, 0x800000, 8⟩] 0x400123 0
      oldProcessRoot).2.mem oldProcessRoot.activePml4Physical 0x400123 = none := by
    decide +kernel
  exact hcontract.mapped htrue hnone

end ZenithOS.Vmm
