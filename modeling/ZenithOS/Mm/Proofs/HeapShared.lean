/-
The kernel heap in every address space.

# Why it is shared

A process root is a copy of the kernel's, made once. What the kernel maps
later is seen through it only below a table that both have. `heap_init`
makes such a table: all of the heap lies below one entry of the root
(`pml4Digit_heap`), and that entry is there before the first process root
is made, so every copy has it.

# The invariant

`SharedHeap v k roots stop`: the entry leads to one table from all of the
roots, and the kernel's root `k` maps every address from the heap's start
up to `stop`. Nothing that is called afterwards replaces a table or
unmaps a page.
-/
import ZenithOS.Mm.Proofs.HeapFrames
import ZenithOS.Mm.Proofs.HeapPages

namespace ZenithOS.Mm

open Lib Vmm

variable {h h₀ : Heap} {v v' : Vm} {m : Mem} {roots : List Nat} {r k g f stop w va : Nat}
  {i : Fin 512}

-- ============================================================ what is done

/-- The heap, and the roots that `page_table_create` returned. -/
structure SpaceSys where
  heap : Heap
  roots : List Nat

/-- Growth of the heap, new roots, and mappings of user pages. -/
inductive SpaceOp
  | heapExpand
  | pageTableCreate
  | pageTableMapUser (root va pa : Nat) (writable : Bool)
  deriving DecidableEq, Repr

/-- Pages are mapped for users under a root there is. -/
def SpaceOp.Allowed (y : SpaceSys) : SpaceOp → Prop
  | .pageTableMapUser root va _ _ =>
      (y.heap.vm.kernelPml4 = some root ∨ root ∈ y.roots) ∧ va < 2 ^ 47
  | .heapExpand | .pageTableCreate => True

instance SpaceOp.decidableAllowed (y : SpaceSys) : ∀ op : SpaceOp, Decidable (op.Allowed y)
  | .pageTableMapUser .. => inferInstanceAs (Decidable ((_ ∨ _) ∧ _))
  | .heapExpand | .pageTableCreate => isTrue trivial

/-- The page tables and the page allocator move on. -/
def SpaceSys.withVm (y : SpaceSys) (v : Vm) : SpaceSys :=
  { y with heap := { y.heap with vm := v } }

/-- One call; `none` when the code does not come back. -/
def spaceStep (y : SpaceSys) : SpaceOp → Option SpaceSys
  | .heapExpand => (heapExpand y.heap).map fun r => { y with heap := r.2 }
  | .pageTableCreate =>
      match pageTableCreate y.heap.vm with
      | (root, v) => some { y.withVm v with roots := root.toList ++ y.roots }
  | .pageTableMapUser root va pa writable =>
      some (y.withVm (pageTableMapUser y.heap.vm (some root) va pa writable).2)

-- ============================================================ heap addresses

/-- The root's entry for the heap. -/
def heapDigit : Fin 512 := pml4Digit heapStartAddress

/-- The heap's range is one entry of the root. -/
theorem pml4Digit_heap (hlo : heapStartAddress ≤ w) (hhi : w < heapStartAddress + 2 ^ 39) :
    pml4Digit w = heapDigit := by
  apply Fin.ext
  show (w >>> 39) &&& 0x1FF = (0xFFFF900000000000 >>> 39) &&& 0x1FF
  have hdiv : w / 2 ^ 39 = 0xFFFF900000000000 / 2 ^ 39 := by
    have hlo' : 0xFFFF900000000000 ≤ w := hlo
    have hhi' : w < 0xFFFF900000000000 + 2 ^ 39 := hhi
    omega
  rw [Nat.shiftRight_eq_div_pow, Nat.shiftRight_eq_div_pow, hdiv]

/-- Addresses of one page have the same indices. -/
theorem digits_of_page (heq : w / 4096 = va / 4096) : digits w = digits va := by
  rw [← samePage_iff_digits]
  intro i hi _
  have hdiv : w / 2 ^ 12 = va / 2 ^ 12 := heq
  have hi' : i = i - 12 + 12 := by omega
  rw [hi', ← Nat.testBit_div_two_pow, ← Nat.testBit_div_two_pow, hdiv]

/-- An address in the page at `va`. -/
theorem digits_page (hal : 4096 ∣ va) (hlo : va ≤ w) (hhi : w < va + 4096) :
    digits w = digits va := by
  apply digits_of_page
  obtain ⟨a, rfl⟩ := hal
  omega

/-- Below a common table two roots map the same. -/
theorem mmuLeaf_below (hr : hwTable m r [pml4Digit w] = some g)
    (hk : hwTable m k [pml4Digit w] = some g) : mmuLeaf m r w = mmuLeaf m k w := by
  have hbelow : ∀ r, hwTable m r [pml4Digit w] = some g → mmuLeaf m r w
      = leafAt 2 (trail mmuNext (slots m) 2 g [pdptDigit w, pdDigit w, ptDigit w]) := by
    intro r hr
    have htrail : hwTrail m r (digits w) = hwTrail m r [pml4Digit w]
        ++ trail mmuNext (slots m) 2 g [pdptDigit w, pdDigit w, ptDigit w] :=
      trail_append (q := [pdptDigit w, pdDigit w, ptDigit w]) hr
    show leafAt 3 (hwTrail m r (digits w)) = _
    rw [htrail]
    have hone : hwTrail m r [pml4Digit w] = [slots m r (pml4Digit w)] := by
      rw [hwTrail, trail]
      cases mmuNext 3 (slots m r (pml4Digit w)) with
      | none => rfl
      | some g => rfl
    rw [hone, trail, List.singleton_append, leafAt_cons]
  rw [hbelow r hr, hbelow k hk]

-- ========================================================= nothing unmapped

/-- From `v` to `v'` tables stay where they are and what was mapped is
mapped, if not to the same page. -/
structure Widened (roots : List Nat) (v v' : Vm) : Prop where
  forest : Forest v' roots
  config : v' = { v with mem := v'.mem, pmm := v'.pmm }
  tables : ∀ r ∈ roots, ∀ p f, hwTable v.mem r p = some f → hwTable v'.mem r p = some f
  leaf : ∀ r ∈ roots, ∀ w, mmuLeaf v.mem r w ≠ none → mmuLeaf v'.mem r w ≠ none

/-- Growth widens. -/
theorem widened_of_grown (h : Grown roots v v') : Widened roots v v' :=
  ⟨h.forest, h.config, h.tables, fun r hr w hw => by rw [h.leaf r hr w]; exact hw⟩

/-- Widening twice widens. -/
theorem Widened.trans {v'' : Vm} (h : Widened roots v v') (h' : Widened roots v' v'') :
    Widened roots v v'' := by
  refine ⟨h'.forest, ?_, fun r hr p f hf => h'.tables r hr p f (h.tables r hr p f hf),
    fun r hr w hw => h'.leaf r hr w (h.leaf r hr w hw)⟩
  rw [h'.config, h.config]

/-- A present entry is written into the page table of an address. -/
theorem widened_write (hv : Forest v roots) (hr : r ∈ roots) {table e : Nat}
    (htable : hwTable v.mem r (tablePath va) = some table)
    (he : pageIsPresent (e % 2 ^ 64) = true) :
    Widened roots v (setPageEntry v table (ptDigit va) e)
      ∧ ∀ w, digits w = digits va →
        mmuLeaf (setPageEntry v table (ptDigit va) e).mem r w ≠ none := by
  have hbelow : TableBelow v.mem roots 3 table := ⟨r, hr, tablePath va, rfl, htable⟩
  obtain ⟨hforest, htables, hleaf⟩ :=
    hv.write_page (hv.writesSlot (i := ptDigit va) hbelow e) hbelow
  have hself : slots (setPageEntry v table (ptDigit va) e).mem table (ptDigit va) = e % 2 ^ 64 :=
    slots_store_self
  refine ⟨⟨hforest, rfl, ?_, ?_⟩, ?_⟩
  · intro r' hr' p f hf
    exact (htables r' hr' p).trans hf
  · intro r' hr' w hw
    rw [hleaf r' hr' w, hself, if_pos he]
    split_ifs
    · exact Option.some_ne_none _
    · exact hw
  · intro w hw
    have hsplit : tablePath w ++ [ptDigit w] = tablePath va ++ [ptDigit va] := hw
    obtain ⟨hpath, hlast⟩ := List.append_inj' hsplit rfl
    rw [hleaf r hr w, hself, if_pos he, hpath, if_pos ⟨htable, (List.cons.inj hlast).1⟩]
    exact Option.some_ne_none _

/-- A page is mapped for users, or is not. -/
theorem widened_mapUser (hv : Forest v roots) (hr : r ∈ roots) (va pa : Nat) (wr : Bool) :
    Widened roots v (pageTableMapUser v (some r) va pa wr).2 := by
  have hroot : ∀ r', some r = some r' → r' ∈ roots := fun r' heq => Option.some.inj heq ▸ hr
  rcases hv.pageTableMapUser_maps hroot va pa wr with
    ⟨v', hfalse, hext⟩ | ⟨r', v', table, -, hr', hext, htable, htrue⟩
  · rw [hfalse]
    exact widened_of_grown hext.grown
  · have hpresent : pageIsPresent (userEntry pa wr % 2 ^ 64) = true := by
      rw [pageIsPresent_eq, Nat.testBit_mod_two_pow, ← pageIsPresent_eq, userEntry_present]
      rfl
    rw [htrue]
    exact (widened_of_grown hext.grown).trans
      (widened_write hext.grown.forest hr' htable hpresent).1

/-- A heap page is mapped. -/
theorem MapsFrame.widened (hmaps : MapsFrame roots va v v')
    (hactive : pageTableActiveRoot v = some k) :
    Widened roots v v' ∧ (∃ table, hwTable v'.mem k (tablePath va) = some table)
      ∧ ∀ w, digits w = digits va → mmuLeaf v'.mem k w ≠ none := by
  obtain ⟨g, k', v₁, table, hk, hkr, htaken, htable, rfl⟩ := hmaps
  obtain rfl : k = k' := Option.some.inj (hactive.symm.trans hk)
  have hpresent : pageIsPresent (mapEntry g pageWritable % 2 ^ 64) = true := by
    rw [Nat.mod_eq_of_lt (mapEntry_lt _ _)]
    exact mapEntry_present g pageWritable
  obtain ⟨hwide, hpage⟩ := widened_write htaken.grown.forest hkr htable hpresent
  exact ⟨(widened_of_grown htaken.grown).trans hwide,
    ⟨table, hwide.tables k hkr _ table htable⟩, hpage⟩

-- ============================================================ the invariant

/-- The active root `k` maps the heap up to `stop`; and if it is the
kernel's, the other roots have its table for the heap. -/
structure SharedHeap (v : Vm) (k : Nat) (roots : List Nat) (stop : Nat) : Prop where
  forest : Forest v (k :: roots)
  active : pageTableActiveRoot v = some k
  table : ∃ g, ∀ r ∈ k :: roots, (r = k ∨ v.kernelPml4 = some k) →
    hwTable v.mem r [heapDigit] = some g
  aligned : 4096 ∣ stop
  mapped : ∀ w, heapStartAddress ≤ w → w < stop → mmuLeaf v.mem k w ≠ none

/-- The kernel's root is the active one. -/
theorem SharedHeap.kernel (hs : SharedHeap v k roots stop) (hr : v.kernelPml4 = some r) :
    r = k := by
  have hactive := hs.active
  rw [activeRoot_kernel hr] at hactive
  exact Option.some.inj hactive

/-- All roots map the heap as the kernel's does. -/
theorem SharedHeap.same (hs : SharedHeap v k roots stop) (hk : v.kernelPml4 = some k)
    (hstop : stop ≤ heapStartAddress + 2 ^ 39) (hr : r ∈ roots) (hlo : heapStartAddress ≤ w)
    (hhi : w < stop) :
    mmuTranslate v.mem r w = mmuTranslate v.mem k w ∧ mmuTranslate v.mem k w ≠ none := by
  obtain ⟨g, hg⟩ := hs.table
  have hdigit := pml4Digit_heap hlo (by omega)
  constructor
  · refine mmuTranslate_congr (mmuLeaf_below (g := g) ?_ ?_)
    · rw [hdigit]
      exact hg r (List.mem_cons_of_mem k hr) (.inr hk)
    · rw [hdigit]
      exact hg k List.mem_cons_self (.inl rfl)
  · intro hnone
    exact hs.mapped w hlo hhi (mmuLeaf_eq_none.mp hnone)

/-- A widened heap is still shared. -/
theorem SharedHeap.widen (hs : SharedHeap v k roots stop) (hwide : Widened (k :: roots) v v') :
    SharedHeap v' k roots stop := by
  obtain ⟨g, hg⟩ := hs.table
  refine ⟨hwide.forest, ?_, ⟨g, ?_⟩, hs.aligned, ?_⟩
  · rw [hwide.config]
    exact hs.active
  · intro r hr hshares
    rw [hwide.config] at hshares
    exact hwide.tables r hr _ g (hg r hr hshares)
  · intro w hlo hhi
    exact hwide.leaf k List.mem_cons_self w (hs.mapped w hlo hhi)

/-- The first page of the heap is mapped. -/
theorem sharedHeap_first (hactive : pageTableActiveRoot v = some k)
    (hmaps : MapsFrame [k] heapStartAddress v v') :
    SharedHeap v' k [] (heapStartAddress + 4096) := by
  obtain ⟨hwide, ⟨table, htable⟩, hpage⟩ := hmaps.widened hactive
  obtain ⟨g, hg⟩ := tableAt_prefix (p := [heapDigit]) ⟨_, rfl⟩ htable
  refine ⟨hwide.forest, ?_, ⟨g, ?_⟩, by decide, ?_⟩
  · rw [hwide.config]
    exact hactive
  · intro r hr _
    rw [List.mem_singleton.mp hr]
    exact hg
  · intro w hlo hhi
    exact hpage w (digits_page (by decide) hlo hhi)

/-- The next page is mapped. -/
theorem SharedHeap.map (hs : SharedHeap v k roots stop)
    (hmaps : MapsFrame (k :: roots) stop v v') : SharedHeap v' k roots (stop + 4096) := by
  obtain ⟨hwide, -, hpage⟩ := hmaps.widened hs.active
  have hs' := hs.widen hwide
  refine ⟨hs'.forest, hs'.active, hs'.table, Nat.dvd_add hs.aligned (Nat.dvd_refl 4096), ?_⟩
  intro w hlo hhi
  rcases Nat.lt_or_ge w stop with hlt | hge
  · exact hs'.mapped w hlo hlt
  · exact hpage w (digits_page hs.aligned hge hhi)

/-- A new root joins, with the entries of the kernel's. -/
theorem SharedHeap.newRoot (hs : SharedHeap v k roots stop) (hforest : Forest v (g :: k :: roots))
    (hslots : ∀ k, v.kernelPml4 = some k → ∀ j, slots v.mem g j = slots v.mem k j)
    (hne : g ≠ k) : SharedHeap v k (g :: roots) stop := by
  obtain ⟨t, ht⟩ := hs.table
  refine ⟨hforest.mono ?_, hs.active, ⟨t, ?_⟩, hs.aligned, hs.mapped⟩
  · intro r hr
    exact (List.Perm.swap g k roots).mem_iff.mp hr
  · intro r hr hshares
    have hr' : r ∈ g :: k :: roots := (List.Perm.swap g k roots).mem_iff.mp hr
    cases List.mem_cons.mp hr' with
    | inr hold => exact ht r hold hshares
    | inl hnew =>
        have hk := ht k List.mem_cons_self (.inl rfl)
        have hkernel := hshares.resolve_left fun heq => hne (hnew ▸ heq)
        rw [hnew]
        rw [hwTable, tableAt] at hk ⊢
        rw [hslots k hkernel heapDigit]
        exact hk

-- ==================================================================== runs

/-- The heap is sound and shared. -/
structure SpaceInv (y : SpaceSys) : Prop where
  blocks : HasBlocks y.heap []
  shared : ∃ k, SharedHeap y.heap.vm k y.roots y.heap.committedEnd

variable {y y' : SpaceSys}

/-- Growth keeps the invariant. -/
theorem SpaceInv.expand (hy : SpaceInv y) :
    ∃ y', spaceStep y .heapExpand = some y' ∧ SpaceInv y' := by
  obtain ⟨ts, hi, -⟩ := hy.blocks
  obtain ⟨k, hs⟩ := hy.shared
  obtain ⟨done, h', ts', hrun, hi', -⟩ := hi.expand
  refine ⟨{ y with heap := h' }, ?_, ⟨ts', hi', fun p hp => (nomatch hp)⟩, k, ?_⟩
  · unfold spaceStep
    rw [hrun]
    rfl
  · have hactive : ∀ k', pageTableActiveRoot y.heap.vm = some k' → k' ∈ k :: y.roots := by
      intro k' hk'
      rw [hs.active] at hk'
      exact Option.some.inj hk' ▸ List.mem_cons_self
    rcases heapExpand_maps hs.forest hactive hrun with ⟨-, hrefused⟩ | ⟨-, hend, hmaps⟩
    · rcases hrefused with ⟨-, rfl⟩ | ⟨-, hend, hvm⟩
      · exact hs
      · show SharedHeap h'.vm k y.roots h'.committedEnd
        rw [hend]
        rcases hvm with ⟨-, hvm⟩ | ⟨-, -, g, htaken⟩
        · rw [hvm]
          exact hs
        · exact hs.widen (widened_of_grown htaken.grown)
    · have hlt := hi.end_lt
      have hstop := hi.stop
      have hadd : wordAdd y.heap.committedEnd pageSize = y.heap.committedEnd + 4096 :=
        wordAdd_eq (by show _ + 4096 < 2 ^ 64; omega)
      show SharedHeap h'.vm k y.roots h'.committedEnd
      rw [hend, hadd]
      exact hs.map hmaps

/-- A new root keeps it. -/
theorem SpaceInv.create (hy : SpaceInv y) :
    ∃ y', spaceStep y .pageTableCreate = some y' ∧ SpaceInv y' := by
  obtain ⟨k, hs⟩ := hy.shared
  have hinv := hs.forest.pmm
  have hblocks := hy.blocks.withVm
    (pageTableCreate_keeps (takesOnly_within y.heap.vm.pmm) (PmmWithin.refl hinv))
  have hkernel : ∀ k', y.heap.vm.kernelPml4 = some k' → k' ∈ k :: y.roots := by
    intro k' hk'
    exact hs.kernel hk' ▸ List.mem_cons_self
  rcases hs.forest.create hkernel with ⟨v', hnone, hext⟩ |
    ⟨g, v', hsome, hg, hgrown, hused, hnew, -, hforest, -, hslots⟩
  · rw [hnone] at hblocks
    refine ⟨y.withVm v', ?_, hblocks, k, hs.widen (widened_of_grown hext.grown)⟩
    simp only [spaceStep, hnone]
    rfl
  · rw [hsome] at hblocks
    refine ⟨{ y.withVm v' with roots := g :: y.roots }, ?_, hblocks, k, ?_⟩
    · simp only [spaceStep, hsome]
      rfl
    · apply (hs.widen (widened_of_grown hgrown)).newRoot hforest
      · rw [hgrown.config]
        exact hslots
      · intro heq
        exact hnew 0 ⟨k, List.mem_cons_self, [], rfl, by rw [heq]; rfl⟩

/-- A user mapping keeps it. -/
theorem SpaceInv.mapUser (hy : SpaceInv y) {root va pa : Nat} {wr : Bool}
    (hop : (SpaceOp.pageTableMapUser root va pa wr).Allowed y) :
    ∃ y', spaceStep y (.pageTableMapUser root va pa wr) = some y' ∧ SpaceInv y' := by
  obtain ⟨k, hs⟩ := hy.shared
  have hr : root ∈ k :: y.roots := by
    cases hop.1 with
    | inl hkernel => exact hs.kernel hkernel ▸ List.mem_cons_self
    | inr hold => exact List.mem_cons_of_mem k hold
  exact ⟨_, rfl, hy.blocks.withVm (pageTableMapUser_shrinks hs.forest.pmm (some root) va pa wr),
    k, hs.widen (widened_mapUser hs.forest hr va pa wr)⟩

/-- Every step keeps it. -/
theorem SpaceInv.step (hy : SpaceInv y) {op : SpaceOp} (hop : op.Allowed y) :
    ∃ y', spaceStep y op = some y' ∧ SpaceInv y' := by
  cases op with
  | heapExpand => exact hy.expand
  | pageTableCreate => exact hy.create
  | pageTableMapUser root va pa writable => exact hy.mapUser hop

/-- `heap_init` on the page tables after the boot. -/
theorem heapInit_space {boot : Heap} (hpmm : PmmInv boot.vm.pmm)
    (hkernel : boot.vm.kernelPml4 = none)
    (hboot : ∀ r, pageTableCurrentRoot boot.vm = some r → Forest boot.vm [r])
    (hinit : heapInit { boot with vm := pageTableInit boot.vm } = (true, h)) :
    SpaceInv ⟨h, []⟩ := by
  obtain ⟨hforest, hactive, -⟩ := pageTableInit_forest hpmm hkernel hboot
  obtain ⟨-, hmaps⟩ := heapInit_maps hforest hactive hinit
  obtain ⟨g, k, -, -, hk, hkr, -⟩ := hmaps
  have hone : Forest (pageTableInit boot.vm) [k] := by
    apply hforest.mono
    intro r hr
    exact List.mem_singleton.mp hr ▸ hkr
  have hactive' : ∀ k', pageTableActiveRoot (pageTableInit boot.vm) = some k' → k' ∈ [k] := by
    intro k' hk'
    rw [hk] at hk'
    exact Option.some.inj hk' ▸ List.mem_cons_self
  obtain ⟨hend, hmaps⟩ := heapInit_maps hone hactive' hinit
  refine ⟨⟨_, heapInit_inv hone.pmm hinit, fun p hp => (nomatch hp)⟩, k, ?_⟩
  show SharedHeap h.vm k [] h.committedEnd
  rw [hend]
  exact sharedHeap_first hk hmaps

/-- If `heap_init` succeeded before the first process root is made, then
whatever is called afterwards, every address of the committed heap is
translated under every process root as under the kernel's. -/
theorem heap_same_under_every_root {boot : Heap} {old : Pmm} {response : List MemmapEntry}
    {executable : Option (Nat × Nat)}
    (hpmm : pmmInit old response executable = (true, boot.vm.pmm))
    (hkernel : boot.vm.kernelPml4 = none)
    (hboot : ∀ r, pageTableCurrentRoot boot.vm = some r → Forest boot.vm [r])
    (hinit : heapInit { boot with vm := pageTableInit boot.vm } = (true, h)) (ops : List SpaceOp)
    (hops : AllowedRun spaceStep SpaceOp.Allowed ⟨h, []⟩ ops) :
    ∃ y, runOps spaceStep ⟨h, []⟩ ops = some y
      ∧ ∀ k, y.heap.vm.kernelPml4 = some k → ∀ r ∈ y.roots, ∀ w, heapStartAddress ≤ w →
        w < y.heap.committedEnd →
          mmuTranslate y.heap.vm.mem r w = mmuTranslate y.heap.vm.mem k w
            ∧ mmuTranslate y.heap.vm.mem k w ≠ none := by
  obtain ⟨y, hrun, hy⟩ := run_total (fun y op hy hop => SpaceInv.step hy hop)
    (heapInit_space (pmmInit_inv hpmm) hkernel hboot hinit) hops
  refine ⟨y, hrun, ?_⟩
  intro k hk r hr w hlo hhi
  obtain ⟨k', hs⟩ := hy.shared
  obtain rfl : k = k' := hs.kernel hk
  obtain ⟨ts, hi, -⟩ := hy.blocks
  have hroom := hi.room
  have hstop := hi.stop
  exact hs.same hk (by omega) hr hlo hhi

/-- The page tables without entries, before `page_table_init`. -/
def bootSpace : Heap :=
  { bootHeap with
    vm := { emptyKernel with kernelPml4 := none, kernelPml4Physical := 0 }
    refusals := [] }

/-- The boot loader's tables of the examples. -/
theorem bootSpace_boot :
    ∀ r, pageTableCurrentRoot bootSpace.vm = some r → Forest bootSpace.vm [r] := by
  intro r hr
  have hcr3 : pageTableCurrentRoot bootSpace.vm = some 0x1000 := by decide +kernel
  rw [hcr3] at hr
  rw [← Option.some.inj hr]
  exact ⟨emptyKernel_forest.pmm, emptyKernel_forest.aligned, emptyKernel_forest.used,
    emptyKernel_forest.levels⟩

/-- A process root is made, the heap grows, and a page is mapped for the
process. -/
def growBehindRoot : List SpaceOp :=
  [.pageTableCreate, .heapExpand, .pageTableMapUser 0x7000 0x400000 0xF000 true]

/-- A root made before a growth. -/
theorem heap_same_under_every_root_grown :
    ∃ y, runOps spaceStep ⟨(heapInit { bootSpace with vm := pageTableInit bootSpace.vm }).2, []⟩
        growBehindRoot = some y
      ∧ y.roots = [0x7000] ∧ y.heap.committedEnd = heapStartAddress + 8192
      ∧ mmuTranslate y.heap.vm.mem 0x7000 (heapStartAddress + 4096)
        = mmuTranslate y.heap.vm.mem 0x2000 (heapStartAddress + 4096)
      ∧ mmuTranslate y.heap.vm.mem 0x2000 (heapStartAddress + 4096) ≠ none := by
  have hpmm : pmmInit ⟨⟨fun _ => 0#8, 0⟩, 0, 0, 0, 0⟩ [⟨0x2000, 0xE000, .usable⟩] none
      = (true, bootSpace.vm.pmm) := Prod.ext (by decide) rfl
  have hinit : heapInit { bootSpace with vm := pageTableInit bootSpace.vm }
      = (true, (heapInit { bootSpace with vm := pageTableInit bootSpace.vm }).2) :=
    Prod.ext (by decide +kernel) rfl
  have hops : AllowedRun spaceStep SpaceOp.Allowed
      ⟨(heapInit { bootSpace with vm := pageTableInit bootSpace.vm }).2, []⟩ growBehindRoot := by
    decide +kernel
  have hvalues : (runOps spaceStep
        ⟨(heapInit { bootSpace with vm := pageTableInit bootSpace.vm }).2, []⟩
        growBehindRoot).map (fun y => (y.roots, y.heap.committedEnd, y.heap.vm.kernelPml4))
      = some ([0x7000], heapStartAddress + 8192, some 0x2000) := by
    decide +kernel
  obtain ⟨y, hrun, hsame⟩ := heap_same_under_every_root hpmm rfl bootSpace_boot hinit
    growBehindRoot hops
  rw [hrun] at hvalues
  obtain ⟨hroots, hend, hkernel⟩ : y.roots = [0x7000]
      ∧ y.heap.committedEnd = heapStartAddress + 8192
      ∧ y.heap.vm.kernelPml4 = some 0x2000 := by
    simpa using hvalues
  refine ⟨y, hrun, hroots, hend, hsame 0x2000 hkernel 0x7000 ?_ _ ?_ ?_⟩
  · rw [hroots]
    exact List.mem_cons_self
  · exact Nat.le_add_right heapStartAddress 4096
  · rw [hend]
    omega

end ZenithOS.Mm
