/-
Frame ownership over whole runs.

Each operation keeps the ownership of frames (`FrameInv.step`), so every
run from the boot does. What cannot be said of the boot loader's own
entries is that they spare the free frames: its direct map covers them
all (`boot_entry_references_free_frame`).
-/
import ZenithOS.Mm.Proofs.HeapPages
import ZenithOS.Proc.Proofs.Frames

namespace ZenithOS.Proc

open Lib Mm Vmm Klib

variable {v₀ v v' : Vm} {roots₀ roots : List Nat} {filled : List Slot} {held : List Nat}
  {m : Mem} {f g k n va : Nat} {i : Fin 512} {y y' : FrameSys} {root : Option Nat}

-- ================================================================ user pages

/-- A new page for users is taken and mapped under `root`, or only tables
are taken. -/
def MapsNewPage (roots : List Nat) (root : Option Nat) (va : Nat) (wr : Bool) (v : Vm)
    (result : Option Nat × Vm) : Prop :=
  (∃ v', result = (none, v') ∧ Extended roots v v')
    ∨ ∃ k g v' table, root = some k ∧ k ∈ roots ∧ Taken roots v v' g v.mem
      ∧ hwTable v'.mem k (tablePath va) = some table
      ∧ result = (some g, setPageEntry v' table (ptDigit va) (userEntry g wr))

/-- What `page_table_map_user` does with the frame just taken decides. -/
theorem mapNewPage_cases (hv : Forest v roots) (refusal : Refusal) (root : Option Nat) (va : Nat)
    (wr : Bool) {R : Nat → Vm → Vm → Prop}
    (hmap : ∀ v₁ g, Taken roots v v₁ g v.mem →
      (∃ v', pageTableMapUser v₁ root va g wr = (false, v') ∧ Extended roots v₁ v')
        ∨ ∃ v', pageTableMapUser v₁ root va g wr = (true, v') ∧ R g v₁ v') :
    (∃ v', mapNewPage refusal root va wr v = (none, v') ∧ Extended roots v v')
      ∨ ∃ g v₁ v', Taken roots v v₁ g v.mem ∧ R g v₁ v'
        ∧ mapNewPage refusal root va wr v = (some g, v') := by
  by_cases hpage : refusal = .noPage
  · exact .inl ⟨v, by rw [mapNewPage, if_pos hpage], Extended.refl hv⟩
  rcases hv.pmm.alloc_cases with hnull | ⟨g, pmm, halloc, hg, hinv, hclear⟩
  · refine .inl ⟨v, ?_, Extended.refl hv⟩
    simp only [mapNewPage, if_neg hpage, hnull, if_true]
  obtain ⟨hgal, hgnull, hglt⟩ := hv.pmm.clear_frame hg
  have htaken := hv.taken_frame hg hinv hclear
  have hpages : pmm.totalPages = v.pmm.totalPages := by
    have hkept := pmmAllocPage_totalPages v.pmm
    rw [halloc] at hkept
    exact hkept
  by_cases hrefused : refusal = .noMap
  · refine .inl ⟨{ v with pmm := pmmFreePage g pmm }, ?_, (htaken.giveBack hv hpages).1⟩
    simp only [mapNewPage, if_neg hpage, halloc, if_neg hgnull, if_pos hrefused,
      Bool.false_eq_true, if_false]
  · have htotal := pageTableMapUser_keeps (takesOnly_total v.pmm.totalPages)
      (v := { v with pmm := pmm }) hpages root va g wr
    rcases hmap { v with pmm := pmm } g htaken with ⟨v', hfalse, hext⟩ | ⟨v', htrue, hdone⟩
    · rw [hfalse] at htotal
      refine .inl ⟨{ v' with pmm := pmmFreePage g v'.pmm }, ?_,
        ((htaken.grow hv hext).giveBack hv htotal).1⟩
      simp only [mapNewPage, if_neg hpage, halloc, if_neg hgnull, if_neg hrefused, hfalse,
        Bool.false_eq_true, if_false]
    · refine .inr ⟨g, { v with pmm := pmm }, v', htaken, hdone, ?_⟩
      simp only [mapNewPage, if_neg hpage, halloc, if_neg hgnull, if_neg hrefused, htrue, if_true]

/-- A page of its own is mapped, or nothing is. -/
theorem mapNewPage_maps (hv : Forest v roots) (hroot : ∀ k, root = some k → k ∈ roots)
    (refusal : Refusal) (va : Nat) (wr : Bool) :
    MapsNewPage roots root va wr v (mapNewPage refusal root va wr v) := by
  have hcases := mapNewPage_cases hv refusal root va wr
    (R := fun g v₁ v' => ∃ k v₂ table, root = some k ∧ k ∈ roots ∧ Extended roots v₁ v₂
      ∧ hwTable v₂.mem k (tablePath va) = some table
      ∧ v' = setPageEntry v₂ table (ptDigit va) (userEntry g wr)) ?_
  · rcases hcases with hnone | ⟨g, v₁, v', htaken, ⟨k, v₂, table, hk, hkr, hext, htable, rfl⟩,
      hsome⟩
    · exact .inl hnone
    · exact .inr ⟨k, g, v₂, table, hk, hkr, htaken.grow hv hext, htable, hsome⟩
  · intro v₁ g htaken
    rcases htaken.grown.forest.pageTableMapUser_maps hroot va g wr with
      hfalse | ⟨k, v₂, table, hk, hkr, hext, htable, htrue⟩
    · exact .inl hfalse
    · exact .inr ⟨_, htrue, k, v₂, table, hk, hkr, hext, htable, rfl⟩

/-- The page is behind entries that are open to users. -/
theorem mapNewPage_opens (hv : Forest v roots) (hk : k ∈ roots) (refusal : Refusal) (va : Nat)
    (wr : Bool) :
    (∃ v', mapNewPage refusal (some k) va wr v = (none, v') ∧ Extended roots v v')
      ∨ ∃ g v₁ table, Taken roots v v₁ g v.mem
        ∧ hwTable v₁.mem k (tablePath va) = some table
        ∧ (∀ a ∈ hwTrail v₁.mem k (tablePath va), pageIsUser a = true)
        ∧ mapNewPage refusal (some k) va wr v
          = (some g, setPageEntry v₁ table (ptDigit va) (userEntry g wr)) := by
  have hcases := mapNewPage_cases hv refusal (some k) va wr
    (R := fun g v₁ v' => ∃ v₂ table, Extended roots v₁ v₂
      ∧ hwTable v₂.mem k (tablePath va) = some table
      ∧ (∀ a ∈ hwTrail v₂.mem k (tablePath va), pageIsUser a = true)
      ∧ v' = setPageEntry v₂ table (ptDigit va) (userEntry g wr)) ?_
  · rcases hcases with hnone | ⟨g, v₁, v', htaken, ⟨v₂, table, hext, htable, huser, rfl⟩, hsome⟩
    · exact .inl hnone
    · exact .inr ⟨g, v₂, table, htaken.grow hv hext, htable, huser, hsome⟩
  · intro v₁ g htaken
    obtain ⟨v₂, hext, -, hfalse | ⟨table, htable, huser, htrue⟩⟩ :=
      htaken.grown.forest.pageTableMapUser_opens hk va g wr
    · exact .inl ⟨v₂, hfalse, hext⟩
    · exact .inr ⟨_, htrue, v₂, table, hext, htable, huser, rfl⟩

/-- Only the walk of the page is written. -/
theorem mapNewPage_local (hv : Forest v roots) (hpaths : PathsAlike v.mem roots) (hk : k ∈ roots)
    (refusal : Refusal) (va : Nat) (wr : Bool) :
    Local roots k va v (mapNewPage refusal (some k) va wr v).2 := by
  by_cases hpage : refusal = .noPage
  · rw [mapNewPage, if_pos hpage]
    exact Local.refl roots k va v
  rcases hv.pmm.alloc_cases with hnull | ⟨g, pmm, halloc, hg, hinv, hclear⟩
  · simp only [mapNewPage, if_neg hpage, hnull, if_true]
    exact Local.refl roots k va v
  obtain ⟨-, hgnull, -⟩ := hv.pmm.clear_frame hg
  by_cases hmap : refusal = .noMap
  · simp only [mapNewPage, if_neg hpage, halloc, if_neg hgnull, if_pos hmap, Bool.false_eq_true,
      if_false]
    exact Local.refl roots k va v
  have hforest := (hv.taken_frame hg hinv hclear).grown.forest
  obtain ⟨v', hext, hlocal, hfalse | ⟨table, htable, -, htrue⟩⟩ :=
    hforest.pageTableMapUser_opens hk va g wr
  · simp only [mapNewPage, if_neg hpage, halloc, if_neg hgnull, if_neg hmap, hfalse,
      Bool.false_eq_true, if_false]
    exact hlocal hpaths
  · simp only [mapNewPage, if_neg hpage, halloc, if_neg hgnull, if_neg hmap, htrue, if_true]
    exact (hlocal hpaths).store_page hext.grown (hext.paths hpaths) hk htable _

/-- The page mapped fills a slot. -/
theorem FramesOk.mapNewPage (h : FramesOk v₀ roots₀ v roots filled held)
    (hroot : ∀ k, root = some k → k ∈ roots) (refusal : Refusal) (va : Nat) (wr : Bool) :
    (∃ v', mapNewPage refusal root va wr v = (none, v') ∧ Extended roots v v')
      ∨ ∃ k g v', root = some k ∧ mapNewPage refusal root va wr v = (some g, v')
        ∧ Fills v₀ roots₀ v roots filled held k va g v' := by
  rcases mapNewPage_maps h.forest hroot refusal va wr with
    ⟨v', hnone, hext⟩ | ⟨k, g, v', table, hk, hkr, htaken, htable, hsome⟩
  · exact .inl ⟨v', hnone, hext⟩
  · obtain ⟨hgal, -, hglt⟩ := h.forest.pmm.clear_frame htaken.clear
    have hlt : g < 2 ^ 52 := Nat.lt_trans hglt (by decide)
    exact .inr ⟨k, g, _, hk, hsome,
      h.fill htaken hkr htable (userEntry_lt hlt wr) (userEntry_address hgal hlt wr)⟩

/-- The slot of the page is filled. -/
theorem fillAt_eq {slot : Slot} (hroot : root = some k) (hslot : slotOf m k va = some slot)
    (filled : List Slot) : fillAt m root filled va = filled.insert slot := by
  simp only [fillAt, hroot, Option.bind_some, hslot]

/-- The slot of an address is where its table is. -/
theorem slotOf_mono {m' : Mem} {slot : Slot}
    (htables : ∀ p f, hwTable m k p = some f → hwTable m' k p = some f)
    (hslot : slotOf m k va = some slot) : slotOf m' k va = some slot := by
  obtain ⟨table, htable, hslot⟩ := Option.map_eq_some_iff.mp hslot
  exact Option.map_eq_some_iff.mpr ⟨table, htables _ table htable, hslot⟩

/-- The one page mapped is filled in. -/
theorem Fills.frames_fillAt (h : Fills v₀ roots₀ v roots filled held k va g v')
    (hroot : root = some k) :
    FramesOk v₀ roots₀ v' roots (fillAt v'.mem root filled va) held := by
  obtain ⟨slot, hslot, hframes⟩ := h.frames
  rw [fillAt_eq hroot hslot]
  exact hframes

-- ================================================================== segments

theorem bytesInPage_le (size pageOffset : Nat) : bytesInPage size pageOffset ≤ 4096 := by
  have hpage : pageSize = 4096 := rfl
  unfold bytesInPage
  split_ifs
  · exact Nat.le_of_eq hpage
  · omega
  · exact Nat.zero_le _

/-- The loader writes into the page it got. -/
theorem loadSegmentPage_outside (ph : ElfProgramHeader) (elf : Nat → Byte) (pageOffset : Nat)
    {a : Nat} (ha : a < g ∨ g + 4096 ≤ a) : loadSegmentPage ph elf g pageOffset m a = m a := by
  have hcopy := bytesInPage_le ph.filesz pageOffset
  have hzero := bytesInPage_le ph.memsz pageOffset
  have hblit : ∀ src, blit m g src (bytesInPage ph.filesz pageOffset) a = m a :=
    fun src => blit_outside (by omega)
  unfold loadSegmentPage
  split_ifs with hmore hfile hfile
  · rw [fill_outside (by omega)]
    exact hblit _
  · exact fill_outside (by omega)
  · exact hblit _
  · rfl

/-- The loop of `process_map_segment`: the pages of the rounds it
finished are filled in. -/
theorem FramesOk.segmentFrom (hroot : ∀ k, root = some k → k ∈ roots)
    (refusals : Nat → Refusal) (ph : ElfProgramHeader) (elf : Nat → Byte) (rounds i : Nat)
    (h : FramesOk v₀ roots₀ v roots filled held) :
    ∃ rc mapped v', processMapSegmentFrom refusals root ph elf rounds i v = (rc, mapped, v')
      ∧ i ≤ mapped
      ∧ (∀ r ∈ roots, ∀ p f, hwTable v.mem r p = some f → hwTable v'.mem r p = some f)
      ∧ FramesOk v₀ roots₀ v' roots
        (((List.range' i (mapped - i)).map (segmentPage ph)).foldl (fillAt v'.mem root) filled)
        held := by
  induction rounds generalizing i v filled with
  | zero =>
      refine ⟨kernelSuccess, i, v, rfl, Nat.le_refl i, fun _ _ _ _ hf => hf, ?_⟩
      rw [Nat.sub_self]
      exact h
  | succ rounds ih =>
      rcases h.mapNewPage hroot (refusals i) (segmentPage ph i) (ph.flags &&& pfW != 0) with
        ⟨v₁, hnone, hext⟩ | ⟨k, g, v₁, hk, hsome, hfills⟩
      · refine ⟨kernelEnomem, i, v₁, ?_, Nat.le_refl i, hext.grown.tables, ?_⟩
        · rw [processMapSegmentFrom, hnone]
        · rw [Nat.sub_self]
          exact h.extend hext
      · obtain ⟨slot, hslot, hframes⟩ := hfills.frames
        have hout : ∀ a, a < g ∨ g + 4096 ≤ a →
            loadSegmentPage ph elf g (i * pageSize) v₁.mem a = v₁.mem a :=
          fun a ha => loadSegmentPage_outside ph elf (i * pageSize) ha
        have hwalk := fun r hr p =>
          (hframes.forest.walk_frame (r := r) hfills.aligned hfills.data hout hr p).1
        obtain ⟨rc, mapped, v', hrest, hle, htables, hframes'⟩ :=
          ih (i + 1) (hframes.bytes hfills.aligned hfills.data hout)
        -- the slot of this round's page is still where it was
        have hslot' : slotOf v'.mem k (segmentPage ph i) = some slot := by
          refine slotOf_mono ?_ hslot
          intro p f hf
          exact htables k hfills.root p f ((hwalk k hfills.root p).trans hf)
        refine ⟨rc, mapped, v', ?_, by omega, ?_, ?_⟩
        · rw [processMapSegmentFrom, hsome]
          exact hrest
        · intro r hr p f hf
          exact htables r hr p f ((hwalk r hr p).trans (hfills.tables r hr p f hf))
        · have hcount : mapped - i = mapped - (i + 1) + 1 := by omega
          rw [hcount, List.range'_succ, List.map_cons, List.foldl_cons, fillAt_eq hk hslot']
          exact hframes'

-- =============================================================== kernel pages

/-- The frames while a heap page is committed. -/
theorem FramesOk.commitsPage {h h' : Heap} (hok : FramesOk v₀ roots₀ h.vm roots filled held)
    (hcommits : CommitsPage roots va h h') :
    ∃ k g, pageTableActiveRoot h.vm = some k
      ∧ Fills v₀ roots₀ h.vm roots filled held k va g h'.vm := by
  obtain ⟨-, g, k, v', table, hk, hkr, htaken, htable, hvm⟩ := hcommits
  obtain ⟨hgal, -, hglt⟩ := hok.forest.pmm.clear_frame htaken.clear
  have haddress : pageAddress (mapEntry g pageWritable) = g := by
    rw [mapEntry_address g pageWritable_address]
    exact pageAddress_of_aligned hgal (Nat.lt_trans hglt (by decide))
  refine ⟨k, g, hk, ?_⟩
  rw [hvm]
  exact hok.fill htaken hkr htable (mapEntry_lt _ _) haddress

/-- `heap_expand`: one page more, or at most some frames fewer. -/
theorem FramesOk.heapExpand {h h' : Heap} {done : Bool}
    (hok : FramesOk v₀ roots₀ h.vm roots filled held)
    (hrun : heapExpand h = some (done, h')) :
    FramesOk v₀ roots₀ h'.vm roots
      (if done then fillAt h'.vm.mem (pageTableActiveRoot h'.vm) filled h.committedEnd
        else filled) held := by
  rcases heapExpand_maps hok.forest hok.active hrun with ⟨rfl, hrefused⟩ | ⟨rfl, hcommits⟩
  · rcases hrefused with ⟨-, rfl⟩ | ⟨-, -, ⟨-, hvm⟩ | ⟨-, -, g, htaken⟩⟩
    · exact hok
    · rw [hvm]
      exact hok
    · exact hok.take htaken
  · obtain ⟨k, g, hk, hfills⟩ := hok.commitsPage hcommits
    apply hfills.frames_fillAt
    exact (activeRoot_config hfills.config).trans hk

-- ==================================================================== steps

/-- The frames are owned, and processes have roots of ours. -/
structure FrameInv (v₀ : Vm) (roots₀ : List Nat) (y : FrameSys) : Prop where
  frames : FramesOk v₀ roots₀ y.vm y.roots y.filled y.held
  roots : ∀ p, (y.processes p).pageTable = null ∨ (y.processes p).pageTable ∈ y.roots

/-- The root of a process is one of the roots. -/
theorem FrameInv.processRoot (h : FrameInv v₀ roots₀ y) (process : Nat) :
    ∀ k, y.processRoot process = some k → k ∈ y.roots := by
  intro k hk
  unfold FrameSys.processRoot pageTablePointer at hk
  split_ifs at hk with hnull
  rw [← Option.some.inj hk]
  exact (h.roots process).resolve_left hnull

/-- `page_table_create`. -/
theorem FrameInv.create (h : FrameInv v₀ roots₀ y)
    (hstep : frameStep y .pageTableCreate = some y') :
    FrameInv v₀ roots₀ y' := by
  have hkernel : ∀ k, y.vm.kernelPml4 = some k → k ∈ y.roots :=
    fun k hk => h.frames.active k (activeRoot_kernel hk)
  rcases h.frames.forest.create hkernel with ⟨v', hnone, hext⟩ |
    ⟨g, v', hsome, hg, hgrown, -, -, hcopy, hforest, hpaths, -⟩
  · simp only [frameStep, hnone, Option.toList_none, List.nil_append] at hstep
    rw [← Option.some.inj hstep]
    exact ⟨h.frames.extend hext, h.roots⟩
  · simp only [frameStep, hsome, Option.toList_some, List.singleton_append] at hstep
    rw [← Option.some.inj hstep]
    exact ⟨h.frames.newRoot hgrown hg hcopy hforest hpaths,
      fun p => (h.roots p).imp_right (List.mem_cons_of_mem g)⟩

/-- `page_table_unmap`. -/
theorem FrameInv.unmap (h : FrameInv v₀ roots₀ y) (va : Nat)
    (hstep : frameStep y (.pageTableUnmap va) = some y') : FrameInv v₀ roots₀ y' := by
  cases hroot : pageTableActiveRoot y.vm with
  | none =>
      have hfalse : pageTableUnmap y.vm va = (false, y.vm) := by
        rw [pageTableUnmap, hroot, pageWalkInternal]
      simp only [frameStep, hfalse] at hstep
      rw [← Option.some.inj hstep]
      exact ⟨h.frames, h.roots⟩
  | some k =>
      rcases pageTableUnmap_cases hroot va with ⟨hfalse, -⟩ | ⟨table, e, -, htable, htrue⟩
      · simp only [frameStep, hfalse] at hstep
        rw [← Option.some.inj hstep]
        exact ⟨h.frames, h.roots⟩
      · have hk := h.frames.active k hroot
        have htable' := hwTable_of_tableAt htable
        have hbelow : TableBelow y.vm.mem y.roots 3 table := ⟨k, hk, _, rfl, htable'⟩
        obtain ⟨-, hwalk, -⟩ := h.frames.forest.write_page
          (h.frames.forest.writesSlot (i := ptDigit va) hbelow 0) hbelow
        have hslot : slotOf (setPageEntry y.vm table (ptDigit va) 0).mem k va
            = some (table, ptDigit va) :=
          Option.map_eq_some_iff.mpr ⟨table, (hwalk k hk (tablePath va)).trans htable', rfl⟩
        have hactive : pageTableActiveRoot (setPageEntry y.vm table (ptDigit va) 0) = some k :=
          hroot
        simp only [frameStep, htrue, hactive, clearAt, Option.bind_some, hslot] at hstep
        rw [← Option.some.inj hstep]
        refine ⟨h.frames.write hbelow (by decide) ?_ ?_ ?_, h.roots⟩
        · intro s hne
          simp [hne]
        · intro hmem
          simp at hmem
        · intro hpresent
          cases hpresent

/-- `vmm_handle_page_fault`. -/
theorem FrameInv.fault (h : FrameInv v₀ roots₀ y) (addr err : Nat)
    (hstep : frameStep y (.vmmHandlePageFault addr err) = some y') : FrameInv v₀ roots₀ y' := by
  rcases h.frames.forest.fault_cases h.frames.active y.heap.vma addr err with
    ⟨v', hresult, hext, -⟩ | ⟨g, k, v', table, hroot, hk, htaken, htable, hresult⟩
  · simp only [frameStep, hresult] at hstep
    rw [← Option.some.inj hstep]
    exact ⟨h.frames.extend hext, h.roots⟩
  · obtain ⟨hgal, -, hglt⟩ := h.frames.forest.pmm.clear_frame htaken.clear
    have haddress : pageAddress (mapEntry g pageWritable) = g := by
      rw [mapEntry_address g pageWritable_address]
      exact pageAddress_of_aligned hgal (Nat.lt_trans hglt (by decide))
    have hfills := h.frames.fill htaken hk htable (mapEntry_lt _ _) haddress
    simp only [frameStep, hresult] at hstep
    rw [← Option.some.inj hstep]
    refine ⟨hfills.frames_fillAt ?_, h.roots⟩
    exact (activeRoot_config hfills.config).trans hroot

/-- `process_map_initial_stack`. -/
theorem FrameInv.stack (h : FrameInv v₀ roots₀ y) (refusal : Refusal) (process : Nat)
    (hstep : frameStep y (.processMapInitialStack refusal process) = some y') :
    FrameInv v₀ roots₀ y' := by
  by_cases hnull : process = null
  · simp only [frameStep, processMapInitialStack, if_pos hnull, if_neg einval_ne] at hstep
    rw [← Option.some.inj hstep]
    exact ⟨h.frames, h.roots⟩
  rcases h.frames.mapNewPage (h.processRoot process) refusal
      (wordSub (y.processes process).userStackTop pageSize) true with
    ⟨v', hnone, hext⟩ | ⟨k, g, v', hroot, hsome, hfills⟩
  · rw [FrameSys.processRoot] at hnone
    simp only [frameStep, processMapInitialStack, if_neg hnull, hnone, if_neg enomem_ne] at hstep
    rw [← Option.some.inj hstep]
    exact ⟨h.frames.extend hext, h.roots⟩
  · rw [FrameSys.processRoot] at hsome
    simp only [frameStep, processMapInitialStack, if_neg hnull, hsome, if_true] at hstep
    rw [← Option.some.inj hstep]
    exact ⟨hfills.frames_fillAt hroot, h.roots⟩

/-- `process_heap_expand`. -/
theorem FrameInv.heap (h : FrameInv v₀ roots₀ y) (refusal : Refusal) (process : Nat)
    (hstep : frameStep y (.processHeapExpand refusal process) = some y') :
    FrameInv v₀ roots₀ y' := by
  by_cases hnull : process = null
  · simp only [frameStep, processHeapExpand, if_pos hnull, if_neg einval_ne] at hstep
    rw [← Option.some.inj hstep]
    exact ⟨h.frames, h.roots⟩
  rcases h.frames.mapNewPage (h.processRoot process) refusal (y.processes process).userHeapEnd
      true with ⟨v', hnone, hext⟩ | ⟨k, g, v', hroot, hsome, hfills⟩
  · rw [FrameSys.processRoot] at hnone
    simp only [frameStep, processHeapExpand, if_neg hnull, hnone, if_neg enomem_ne] at hstep
    rw [← Option.some.inj hstep]
    exact ⟨h.frames.extend hext, h.roots⟩
  · rw [FrameSys.processRoot] at hsome
    simp only [frameStep, processHeapExpand, if_neg hnull, hsome, if_true] at hstep
    rw [← Option.some.inj hstep]
    refine ⟨hfills.frames_fillAt hroot, ?_⟩
    intro p
    show (Function.update y.processes process _ p).pageTable = null
      ∨ (Function.update y.processes process _ p).pageTable ∈ y.roots
    by_cases hp : p = process
    · rw [hp, Function.update_self]
      exact h.roots process
    · rw [Function.update_of_ne hp]
      exact h.roots p

/-- `process_map_segment` does nothing or is its loop. -/
theorem processMapSegment_cases (refusals : Nat → Refusal) (processes : Nat → Process)
    (process : Nat) (ph : Option ElfProgramHeader) (elfBase : Nat) (elf : Nat → Byte) (v : Vm) :
    processMapSegment refusals processes process ph elfBase elf v = (kernelEinval, 0, v)
      ∨ ∃ ph', ph = some ph' ∧ processMapSegment refusals processes process ph elfBase elf v
        = processMapSegmentFrom refusals (pageTablePointer (processes process).pageTable) ph' elf
          (segmentPageCount ph') 0 v := by
  unfold processMapSegment
  by_cases hnull : process = null
  · exact .inl (if_pos hnull)
  rw [if_neg hnull]
  cases ph with
  | none => exact .inl rfl
  | some ph =>
      by_cases hbase : elfBase = null
      · exact .inl (if_pos hbase)
      · exact .inr ⟨ph, rfl, if_neg hbase⟩

/-- `process_map_segment`. -/
theorem FrameInv.segment (h : FrameInv v₀ roots₀ y) (refusals : Nat → Refusal) (process : Nat)
    (ph : Option ElfProgramHeader) (elfBase : Nat) (elf : Nat → Byte)
    (hstep : frameStep y (.processMapSegment refusals process ph elfBase elf) = some y') :
    FrameInv v₀ roots₀ y' := by
  rcases processMapSegment_cases refusals y.processes process ph elfBase elf y.vm with
    hnothing | ⟨ph, rfl, hmaps⟩
  · simp only [frameStep, hnothing, List.range_zero, List.map_nil] at hstep
    rw [← Option.some.inj hstep]
    cases ph with
    | none => exact ⟨h.frames, h.roots⟩
    | some ph => exact ⟨h.frames, h.roots⟩
  · obtain ⟨rc, mapped, v', hrun, -, -, hframes⟩ := FramesOk.segmentFrom
      (h.processRoot process) refusals ph elf (segmentPageCount ph) 0 h.frames
    rw [FrameSys.processRoot] at hrun
    simp only [frameStep, hmaps, hrun] at hstep
    rw [← Option.some.inj hstep]
    rw [Nat.sub_zero, ← List.range_eq_range'] at hframes
    exact ⟨hframes, h.roots⟩

/-- Somebody else takes a frame. -/
theorem FrameInv.take (h : FrameInv v₀ roots₀ y) (hstep : frameStep y .takeFrame = some y') :
    FrameInv v₀ roots₀ y' := by
  rcases h.frames.forest.pmm.alloc_cases with hnull | ⟨g, pmm, halloc, hg, hinv, hclear⟩
  · simp only [frameStep, hnull, if_true] at hstep
    rw [← Option.some.inj hstep]
    exact ⟨h.frames, h.roots⟩
  · obtain ⟨hgal, hgnull, -⟩ := h.frames.forest.pmm.clear_frame hg
    have htaken := h.frames.forest.taken_frame hg hinv hclear
    simp only [frameStep, halloc, if_neg hgnull] at hstep
    rw [← Option.some.inj hstep]
    exact ⟨(h.frames.take htaken).hold (h.frames.unclaimed htaken) hgal, h.roots⟩

/-- Every operation keeps the ownership of frames. -/
theorem FrameInv.step (h : FrameInv v₀ roots₀ y) (op : FrameOp) (hop : op.Allowed y)
    (hstep : frameStep y op = some y') : FrameInv v₀ roots₀ y' := by
  cases op with
  | pageTableCreate => exact h.create hstep
  | pageTableUnmap va => exact h.unmap va hstep
  | heapExpand =>
      cases hrun : Mm.heapExpand y.heap with
      | none =>
          simp only [frameStep, hrun] at hstep
          cases hstep
      | some r =>
          obtain ⟨done, h'⟩ := r
          have hframes := h.frames.heapExpand hrun
          cases done with
          | false =>
              simp only [frameStep, hrun] at hstep
              rw [← Option.some.inj hstep]
              exact ⟨hframes, h.roots⟩
          | true =>
              simp only [frameStep, hrun] at hstep
              rw [← Option.some.inj hstep]
              exact ⟨hframes, h.roots⟩
  | vmmHandlePageFault addr err => exact h.fault addr err hstep
  | processMapInitialStack refusal process => exact h.stack refusal process hstep
  | processHeapExpand refusal process => exact h.heap refusal process hstep
  | processMapSegment refusals process ph elfBase elf =>
      exact h.segment refusals process ph elfBase elf hstep
  | setProcess process fields =>
      rw [← Option.some.inj hstep]
      refine ⟨h.frames, ?_⟩
      intro p
      show (Function.update y.processes process fields p).pageTable = null
        ∨ (Function.update y.processes process fields p).pageTable ∈ y.roots
      by_cases hp : p = process
      · rw [hp, Function.update_self]
        exact hop
      · rw [Function.update_of_ne hp]
        exact h.roots p
  | takeFrame => exact h.take hstep
  | giveFrame frame =>
      rw [← Option.some.inj hstep]
      exact ⟨h.frames.giveFrame hop, h.roots⟩

-- ===================================================================== runs

/-- Nothing filled and nothing held yet. -/
theorem framesOk_start (hv : Forest v roots)
    (hactive : ∀ k, pageTableActiveRoot v = some k → k ∈ roots) :
    FramesOk v roots v roots [] [] :=
  ⟨hv, hactive, fun _ hs => (nomatch hs), fun _ hs => (nomatch hs), fun _ hs => (nomatch hs),
    fun _ ha => (nomatch ha), fun _ ha => (nomatch ha), List.nodup_nil,
    fun _ _ _ hf _ => .inr (.inr ⟨hf, rfl⟩), id⟩

/-- After `page_table_init` the frames are owned. -/
theorem frameBoot_inv {h : Heap} (hpmm : PmmInv h.vm.pmm) (hkernel : h.vm.kernelPml4 = none)
    (hboot : ∀ r, pageTableCurrentRoot h.vm = some r → Forest h.vm [r]) :
    FrameInv (pageTableInit h.vm) (bootRoots h.vm) (frameBoot h) := by
  obtain ⟨hforest, hactive, -⟩ := pageTableInit_forest hpmm hkernel hboot
  exact ⟨framesOk_start hforest hactive, fun _ => .inl rfl⟩

/-- The invariant holds after every run from the boot. -/
theorem frameRun_inv {h : Heap} (hpmm : PmmInv h.vm.pmm) (hkernel : h.vm.kernelPml4 = none)
    (hboot : ∀ r, pageTableCurrentRoot h.vm = some r → Forest h.vm [r]) {ops : List FrameOp}
    (hops : AllowedRun frameStep FrameOp.Allowed (frameBoot h) ops)
    (hrun : runOps frameStep (frameBoot h) ops = some y) :
    FrameInv (pageTableInit h.vm) (bootRoots h.vm) y :=
  run_preserves (fun _ op _ hinv hop hstep => hinv.step op hop hstep)
    (frameBoot_inv hpmm hkernel hboot) hops hrun

/-- A present entry that references a free frame is one that was there at
the start. -/
theorem FramesOk.stale (h : FramesOk v₀ roots₀ v roots filled held)
    (hf : TableBelow v.mem roots n f) (hpresent : pageIsPresent (slots v.mem f i) = true)
    (hfree : PmmClear v.pmm (pageAddress (slots v.mem f i))) :
    (f, i) ∉ filled ∧ TableBelow v₀.mem roots₀ n f ∧ slots v.mem f i = slots v₀.mem f i := by
  have hslot : (f, i) ∉ filled := fun hs => (h.data (f, i) hs).1 hfree
  rcases h.left n f i hf hpresent with hnext | hs | hold
  · obtain ⟨g, hg⟩ := Option.ne_none_iff_exists'.mp hnext
    obtain ⟨r, hr, p, rfl, hp⟩ := hf
    have hbelow : TableBelow v.mem roots (p ++ [i]).length g :=
      ⟨r, hr, p ++ [i], rfl, (tableAt_snoc hp).trans hg⟩
    rw [← (mmuNext_eq_some hg).1] at hfree
    exact absurd hfree (h.forest.used _ g hbelow)
  · exact absurd hs hslot
  · exact ⟨hslot, hold⟩

/-- Whatever happens after the boot, and wherever an allocation fails: no
table is a free frame, and a present entry references a free frame only
where the boot loader left it; the frames that were mapped are neither
free nor tables, and no two slots hold the same. -/
theorem frames_owned {h : Heap} {old : Pmm} {response : List MemmapEntry}
    {executable : Option (Nat × Nat)}
    (hinit : pmmInit old response executable = (true, h.vm.pmm))
    (hkernel : h.vm.kernelPml4 = none)
    (hboot : ∀ r, pageTableCurrentRoot h.vm = some r → Forest h.vm [r]) (ops : List FrameOp)
    (hops : AllowedRun frameStep FrameOp.Allowed (frameBoot h) ops)
    (hrun : runOps frameStep (frameBoot h) ops = some y) :
    (∀ n f, TableBelow y.vm.mem y.roots n f → ¬ PmmClear y.vm.pmm f)
      ∧ (∀ n f i, TableBelow y.vm.mem y.roots n f →
        pageIsPresent (slots y.vm.mem f i) = true →
        PmmClear y.vm.pmm (pageAddress (slots y.vm.mem f i)) →
          (f, i) ∉ y.filled ∧ TableBelow (pageTableInit h.vm).mem (bootRoots h.vm) n f
            ∧ slots y.vm.mem f i = slots (pageTableInit h.vm).mem f i)
      ∧ (∀ s ∈ y.filled, ¬ PmmClear y.vm.pmm (slotFrame y.vm.mem s)
        ∧ ∀ n, ¬ TableBelow y.vm.mem y.roots n (slotFrame y.vm.mem s))
      ∧ ∀ s ∈ y.filled, ∀ s' ∈ y.filled, s ≠ s' →
        slotFrame y.vm.mem s ≠ slotFrame y.vm.mem s' := by
  have hinv := (frameRun_inv (pmmInit_inv hinit) hkernel hboot hops hrun).frames
  refine ⟨hinv.forest.used, ?_, hinv.data, ?_⟩
  · intro n f i hf hpresent hfree
    exact hinv.stale hf hpresent hfree
  · intro s hs s' hs' hne heq
    exact hne (hinv.distinct s hs s' hs' heq)

/-- What the boot loader leaves: tables in pages 1 to 4 of sixteen, the
pages above usable, and page 9 of these in the direct map. -/
def bootDirectMap : Heap :=
  { mem := fun _ => 0#8
    vm := { (pageTableMap emptyKernel 0xFFFF800000009000 0x9000 pageWritable).2 with
      pmm := (pmmInit ⟨⟨fun _ => 0#8, 0⟩, 0, 0, 0, 0⟩
        [⟨0x1000, 0x4000, .bootloaderReclaimable⟩, ⟨0x5000, 0xB000, .usable⟩] none).2
      kernelPml4 := none
      kernelPml4Physical := 0 }
    vma := []
    refusals := []
    head := null
    size := 0
    virtualStart := 0
    committedEnd := 0
    heapVma := none }

/-- The page allocator of the examples. -/
theorem bootDirectMap_pmmInit :
    pmmInit ⟨⟨fun _ => 0#8, 0⟩, 0, 0, 0, 0⟩
        [⟨0x1000, 0x4000, .bootloaderReclaimable⟩, ⟨0x5000, 0xB000, .usable⟩] none
      = (true, bootDirectMap.vm.pmm) :=
  Prod.ext (by decide) rfl

/-- The page allocator starts over, sparing the tables, and there is no
kernel root yet. -/
theorem Forest.restart {pmm : Pmm} (hv : Forest v roots) (hpmm : PmmInv pmm)
    (hclear : ∀ page, bitmapTest pmm.bitmap page = false →
      bitmapTest v.pmm.bitmap page = false) :
    Forest { v with pmm := pmm, kernelPml4 := none, kernelPml4Physical := 0 } roots := by
  refine ⟨hpmm, hv.aligned, ?_, hv.levels⟩
  intro n f hf hfree
  obtain ⟨page, rfl, hbit⟩ := hfree
  exact hv.used n _ hf ⟨page, rfl, hclear page hbit⟩

/-- The boot loader's tables of the examples. -/
theorem bootDirectMap_forest : Forest bootDirectMap.vm [0x1000] := by
  have hactive : ∀ k, pageTableActiveRoot emptyKernel = some k → k ∈ [0x1000] := by
    intro k hk
    rw [← Option.some.inj hk]
    exact List.mem_cons_self
  have hmapped := (emptyKernel_forest.pageTableMap_maps hactive 0xFFFF800000009000 0x9000
    pageWritable).forest
  have hbits : ∀ page < 16, bitmapTest bootDirectMap.vm.pmm.bitmap page = false →
      bitmapTest (pageTableMap emptyKernel 0xFFFF800000009000 0x9000
        pageWritable).2.pmm.bitmap page = false := by
    decide +kernel
  have htotal : bootDirectMap.vm.pmm.totalPages = 16 := by decide +kernel
  have hinv := pmmInit_inv bootDirectMap_pmmInit
  apply Forest.restart hmapped hinv
  intro page hbit
  have hlt := hinv.lt_total hbit
  rw [htotal] at hlt
  exact hbits page hlt hbit

theorem bootDirectMap_boot :
    ∀ r, pageTableCurrentRoot bootDirectMap.vm = some r → Forest bootDirectMap.vm [r] := by
  intro r hr
  have hcr3 : pageTableCurrentRoot bootDirectMap.vm = some 0x1000 := by decide +kernel
  rw [hcr3] at hr
  rw [← Option.some.inj hr]
  exact bootDirectMap_forest

theorem bootDirectMap_paths :
    ∀ r, pageTableCurrentRoot bootDirectMap.vm = some r → PathsAlike bootDirectMap.vm.mem [r] := by
  intro r hr
  have hcr3 : pageTableCurrentRoot bootDirectMap.vm = some 0x1000 := by decide +kernel
  rw [hcr3] at hr
  rw [← Option.some.inj hr]
  have hactive : ∀ k, pageTableActiveRoot emptyKernel = some k → k ∈ [0x1000] := by
    intro k hk
    rw [← Option.some.inj hk]
    exact List.mem_cons_self
  have hmapped := (emptyKernel_forest.pageTableMap_maps hactive 0xFFFF800000009000 0x9000
    pageWritable).paths emptyKernel_paths
  simp only [bootDirectMap]
  exact hmapped

/-- A process gets a root and its stack. -/
def stackRun : List FrameOp :=
  [.pageTableCreate,
    .setProcess 1 { pageTable := 0x6000, userStackTop := userStackTop },
    .processMapInitialStack .granted 1]

/-- A process with its stack. -/
theorem frames_owned_stack :
    ∃ y, runOps frameStep (frameBoot bootDirectMap) stackRun = some y
      ∧ y.filled ≠ []
      ∧ ∀ s ∈ y.filled, ¬ PmmClear y.vm.pmm (slotFrame y.vm.mem s)
        ∧ ∀ n, ¬ TableBelow y.vm.mem y.roots n (slotFrame y.vm.mem s) := by
  have hops : AllowedRun frameStep FrameOp.Allowed (frameBoot bootDirectMap) stackRun := by
    decide +kernel
  have hfilled : ((runOps frameStep (frameBoot bootDirectMap) stackRun).map
      fun y => y.filled.length) = some 1 := by
    decide +kernel
  obtain ⟨y, hrun, hlen⟩ := Option.map_eq_some_iff.mp hfilled
  refine ⟨y, hrun, ?_, ?_⟩
  · exact List.ne_nil_of_length_eq_add_one hlen
  · exact (frames_owned bootDirectMap_pmmInit rfl bootDirectMap_boot stackRun hops hrun).2.2.1

/-- Right after the boot an entry of a table under the kernel's root
references a free frame. -/
theorem boot_entry_references_free_frame :
    Forest bootDirectMap.vm [0x1000]
      ∧ (frameBoot bootDirectMap).vm.kernelPml4 = some 0x5000
      ∧ hwTable (frameBoot bootDirectMap).vm.mem 0x5000 [256, 0, 0] = some 0x4000
      ∧ pageIsPresent (slots (frameBoot bootDirectMap).vm.mem 0x4000 9) = true
      ∧ PmmClear (frameBoot bootDirectMap).vm.pmm
        (pageAddress (slots (frameBoot bootDirectMap).vm.mem 0x4000 9)) := by
  have haddress : pageAddress (slots (frameBoot bootDirectMap).vm.mem 0x4000 9) = 0x9000 := by
    decide +kernel
  refine ⟨bootDirectMap_forest, by decide +kernel, by decide +kernel, by decide +kernel, ?_⟩
  rw [haddress]
  exact ⟨9, rfl, by decide +kernel⟩

end ZenithOS.Proc
