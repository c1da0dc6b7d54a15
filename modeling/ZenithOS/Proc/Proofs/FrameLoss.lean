/-
Frames of calls that fail.

Five operations allocate a frame and then map it, and a table on the way
may fail to be made at any depth. A frame that such a call took is not
lost if a present entry references it (`Referenced`): as a table, as the
tables linked before the failure are, or as a page that was mapped, as
the earlier pages of a segment are.

# The pages of a segment

They keep their frames only because no later page of the segment comes
to the same slot. Two pages have different indices, there being fewer
frames than addresses, and different indices lead to different slots
where each table is met along one path only (`PathsAlike`).

# Who loses one

`heap_expand` has no `pmm_free_page`, so it keeps the frame of a page it
could not map. The other four give it back.
-/
import ZenithOS.Proc.Proofs.FrameRun

namespace ZenithOS.Proc

open Lib Mm Vmm Klib

variable {v₀ v v' v'' : Vm} {roots₀ roots : List Nat} {filled : List Slot} {held : List Nat}
  {m : Mem} {f g k n i j mapped va a : Nat} {s : Slot} {y y' : FrameSys} {root : Option Nat}
  {ph : ElfProgramHeader}

-- ============================================================== lost frames

/-- A present entry references `a`: it leads to `a` as a table, or a page
was mapped through it. -/
def Referenced (y : FrameSys) (a : Nat) : Prop :=
  ∃ n s, TableBelow y.vm.mem y.roots n s.1 ∧ pageIsPresent (slots y.vm.mem s.1 s.2) = true
    ∧ slotFrame y.vm.mem s = a
    ∧ (mmuNext (3 - n) (slots y.vm.mem s.1 s.2) = some a ∨ s ∈ y.filled)

/-- Every frame that came into use from `y` to `y'` is referenced. -/
def NoFrameLost (y y' : FrameSys) : Prop :=
  ∀ a, PmmClear y.vm.pmm a → ¬ PmmClear y'.vm.pmm a → Referenced y' a

/-- The operation, in this state, reports failure. -/
def FrameOp.Fails (y : FrameSys) : FrameOp → Prop
  | .heapExpand => ∃ h, Mm.heapExpand y.heap = some (false, h)
  | .vmmHandlePageFault addr err => (Vmm.vmmHandlePageFault y.heap.vma addr err y.vm).1 = false
  | .processMapInitialStack refusal process =>
      (Proc.processMapInitialStack refusal y.processes process y.vm).1 ≠ kernelSuccess
  | .processHeapExpand refusal process =>
      (Proc.processHeapExpand refusal y.processes process y.vm).1 ≠ kernelSuccess
  | .processMapSegment refusals process ph elfBase elf =>
      (Proc.processMapSegment refusals y.processes process ph elfBase elf y.vm).1 ≠ kernelSuccess
  | .pageTableCreate | .pageTableUnmap _ | .setProcess .. | .takeFrame | .giveFrame _ => False

/-- A table that is no root is referenced. -/
theorem referenced_table (hf : TableBelow y.vm.mem y.roots n a) (hroot : a ∉ y.roots) :
    Referenced y a := by
  obtain ⟨r, hr, p, -, hp⟩ := hf
  cases List.eq_nil_or_concat p with
  | inl hnil =>
      rw [hnil] at hp
      exact absurd (Option.some.inj hp ▸ hr) hroot
  | inr hsnoc =>
      obtain ⟨q, i, rfl⟩ := hsnoc
      rw [List.concat_eq_append] at hp
      obtain ⟨f, hf⟩ := tableAt_prefix (List.prefix_append q [i]) hp
      rw [hwTable, tableAt_snoc hf] at hp
      obtain ⟨haddress, hpresent⟩ := mmuNext_eq_some hp
      exact ⟨q.length, (f, i), ⟨r, hr, q, rfl, hf⟩, hpresent, haddress.symm, .inl hp⟩

/-- Where only tables were taken nothing is lost. -/
theorem noFrameLost_of_extended (hv : Forest y.vm y.roots) (hext : Extended y.roots y.vm y'.vm)
    (hroots : y'.roots = y.roots) : NoFrameLost y y' := by
  intro a ha hused
  rcases hext.taken a ha with hfree | ⟨n, hf⟩
  · exact absurd hfree hused
  · rw [← hroots] at hf
    apply referenced_table hf
    rw [hroots]
    intro hr
    exact hv.used 0 a ⟨a, hr, [], rfl, rfl⟩ ha

-- ================================================================= segments

/-- The slots of two addresses are the same for the same page only. -/
theorem slotOf_inj {b : Nat} (hpaths : PathsAlike m roots) (hk : k ∈ roots)
    (ha : slotOf m k a = some s) (hb : slotOf m k b = some s) : digits a = digits b := by
  obtain ⟨t, ht, rfl⟩ := Option.map_eq_some_iff.mp ha
  obtain ⟨t', ht', heq⟩ := Option.map_eq_some_iff.mp hb
  obtain ⟨rfl, hdigit⟩ := Prod.mk.inj heq
  have hpath : tablePath a = tablePath b := hpaths k hk k hk _ _ t' ht ht'
  rw [digits_eq, digits_eq, hpath, hdigit]

/-- Addresses with the same indices are in the same page. -/
theorem page_of_digits {a b : Nat} (h : digits a = digits b) :
    a / 4096 % 2 ^ 36 = b / 4096 % 2 ^ 36 := by
  have hindex : ∀ x c, (x >>> c) &&& 0x1FF = x / 2 ^ c % 512 := by
    intro x c
    rw [Nat.shiftRight_eq_div_pow]
    exact Nat.and_two_pow_sub_one_eq_mod _ 9
  simp only [digits, pml4Digit, pdptDigit, pdDigit, ptDigit, List.cons.injEq, Fin.mk.injEq,
    pml4Index, pdptIndex, pdIndex, ptIndex, hindex, and_true] at h
  omega

/-- The pages of a segment are different, fewer than `2 ^ 36` of them. -/
theorem segmentPage_digits (hlt : i < j) (hfew : j < i + 2 ^ 36) :
    digits (segmentPage ph i) ≠ digits (segmentPage ph j) := by
  intro heq
  have hpage := page_of_digits heq
  have hi : segmentPage ph i = (ph.vaddr + i * 4096) % 2 ^ 64 := rfl
  have hj : segmentPage ph j = (ph.vaddr + j * 4096) % 2 ^ 64 := rfl
  rw [hi, hj] at hpage
  omega

/-- A round of the loader: `g` is mapped at `va`, and no other slot of a
page table that was there is written. -/
structure Round (roots : List Nat) (k va g : Nat) (v v' : Vm) : Prop where
  forest : Forest v' roots
  tables : ∀ r ∈ roots, ∀ p f, hwTable v.mem r p = some f → hwTable v'.mem r p = some f
  rest : ∀ a, PmmClear v.pmm a →
    PmmClear v'.pmm a ∨ a = g ∨ ∃ n, TableBelow v'.mem roots n a
  fewer : v'.pmm.freePages < v.pmm.freePages
  paths : PathsAlike v.mem roots → PathsAlike v'.mem roots
  slot : ∃ s, slotOf v'.mem k va = some s ∧ pageIsPresent (slots v'.mem s.1 s.2) = true
    ∧ slotFrame v'.mem s = g
    ∧ ∀ f i, TableBelow v.mem roots 3 f → (f, i) ≠ s → slots v'.mem f i = slots v.mem f i

/-- A page that is mapped and filled is a round. -/
theorem round_of_maps (hv : Forest v roots) (hk : k ∈ roots) (htaken : Taken roots v v' g v.mem)
    {table : Nat} (htable : hwTable v'.mem k (tablePath va) = some table) (wr : Bool)
    (hm : ∀ a, a < g ∨ g + 4096 ≤ a →
      m a = (setPageEntry v' table (ptDigit va) (userEntry g wr)).mem a) :
    Round roots k va g v
      { setPageEntry v' table (ptDigit va) (userEntry g wr) with mem := m } := by
  obtain ⟨hgal, -, hglt⟩ := hv.pmm.clear_frame htaken.clear
  have hlt : g < 2 ^ 52 := Nat.lt_trans hglt (by decide)
  have hbelow : TableBelow v'.mem roots 3 table := ⟨k, hk, tablePath va, rfl, htable⟩
  have hforest := htaken.grown.forest
  have hwrites := hforest.writesSlot (i := ptDigit va) hbelow (userEntry g wr)
  obtain ⟨hforest', hwalk, -⟩ := hforest.write_page hwrites hbelow
  have hself : slots (setPageEntry v' table (ptDigit va) (userEntry g wr)).mem table (ptDigit va)
      = userEntry g wr :=
    slots_store_self.trans (Nat.mod_eq_of_lt (userEntry_lt hlt wr))
  -- the bytes of the page are in no table
  have hdata : ∀ n, ¬ TableBelow (setPageEntry v' table (ptDigit va) (userEntry g wr)).mem
      roots n g := fun n hf => htaken.data n ((tableBelow_congr hwalk).mp hf)
  have hbytes := fun r hr q => (hforest'.walk_frame (r := r) hgal hdata hm hr q).1
  have hslots := fun n f i hf => hforest'.slots_frame (n := n) (f := f) hgal hdata hm hf i
  have hsame : ∀ r ∈ roots, ∀ q, hwTable m r q = hwTable v'.mem r q :=
    fun r hr q => (hbytes r hr q).trans (hwalk r hr q)
  have htable' : TableBelow (setPageEntry v' table (ptDigit va) (userEntry g wr)).mem roots 3
      table := (tableBelow_congr hwalk).mpr hbelow
  refine ⟨hforest'.of_tableAt hforest'.pmm hforest'.used hbytes, ?_, ?_, ?_, ?_, ?_⟩
  · intro r hr p f hf
    exact (hsame r hr p).trans (htaken.grown.tables r hr p f hf)
  · intro a ha
    refine (htaken.rest a ha).imp_right (Or.imp_right ?_)
    rintro ⟨n, hf⟩
    exact ⟨n, (tableBelow_congr hsame).mpr hf⟩
  · exact freePages_lt hv.pmm hforest.pmm htaken.grown.clear htaken.clear htaken.used
  · intro hpaths
    exact (htaken.paths hpaths).congr hsame
  · refine ⟨(table, ptDigit va), ?_, ?_, ?_, ?_⟩
    · exact Option.map_eq_some_iff.mpr ⟨table, (hsame k hk (tablePath va)).trans htable, rfl⟩
    · show pageIsPresent (slots m table (ptDigit va)) = true
      rw [hslots 3 table (ptDigit va) htable', hself]
      exact userEntry_present g wr
    · show pageAddress (slots m table (ptDigit va)) = g
      rw [hslots 3 table (ptDigit va) htable', hself]
      exact userEntry_address hgal hlt wr
    · intro f i hf hne
      have hf' := htaken.grown.below hf
      show slots m f i = slots v.mem f i
      rw [hslots 3 f i ((tableBelow_congr hwalk).mpr hf'), ← htaken.grown.pages f i hf]
      apply hwrites 3 f i hf'
      by_contra hboth
      rw [not_or, not_not, not_not] at hboth
      exact hne (Prod.ext hboth.1 hboth.2)

/-- The rounds `i` to `mapped`: a slot of a page table keeps its entry
unless a page of these rounds is mapped through it, and what came into
use are tables and the frames of these pages. -/
structure Rounds (roots : List Nat) (k : Nat) (ph : ElfProgramHeader) (i mapped : Nat)
    (v v' : Vm) : Prop where
  tables : ∀ r ∈ roots, ∀ p f, hwTable v.mem r p = some f → hwTable v'.mem r p = some f
  kept : ∀ f d, TableBelow v.mem roots 3 f →
    (∀ j, i ≤ j → j < mapped → slotOf v'.mem k (segmentPage ph j) ≠ some (f, d)) →
      slots v'.mem f d = slots v.mem f d
  frames : ∀ a, PmmClear v.pmm a → PmmClear v'.pmm a ∨ (∃ n, TableBelow v'.mem roots n a)
    ∨ ∃ j s, i ≤ j ∧ j < mapped ∧ slotOf v'.mem k (segmentPage ph j) = some s
      ∧ pageIsPresent (slots v'.mem s.1 s.2) = true ∧ slotFrame v'.mem s = a
  few : mapped ≤ i + v.pmm.freePages
  paths : PathsAlike v.mem roots → PathsAlike v'.mem roots

/-- No round at all. -/
theorem rounds_none (hext : Extended roots v v') (k : Nat) (ph : ElfProgramHeader) (i : Nat) :
    Rounds roots k ph i i v v' :=
  ⟨hext.grown.tables, fun f d hf _ => hext.grown.pages f d hf,
    fun a ha => (hext.taken a ha).imp_right .inl, Nat.le_add_right i _, hext.paths⟩

/-- One more round in front. -/
theorem Round.cons (h : Round roots k (segmentPage ph i) g v v') (hv : Forest v roots)
    (hk : k ∈ roots) (hpaths : PathsAlike v.mem roots)
    (hrest : Rounds roots k ph (i + 1) mapped v' v'') (hle : i < mapped) :
    Rounds roots k ph i mapped v v'' := by
  obtain ⟨s, hs, hpresent, hframe, hother⟩ := h.slot
  have hs' : slotOf v''.mem k (segmentPage ph i) = some s :=
    slotOf_mono (hrest.tables k hk) hs
  have hbelow : TableBelow v'.mem roots 3 s.1 := by
    obtain ⟨t, ht, rfl⟩ := Option.map_eq_some_iff.mp hs
    exact ⟨k, hk, tablePath (segmentPage ph i), rfl, ht⟩
  have hfew : mapped < i + 2 ^ 36 := by
    have hbound : v.pmm.freePages ≤ 131072 * 8 := hv.pmm.freePages_le
    have hfewer := h.fewer
    have hrounds := hrest.few
    omega
  -- the later pages go through other slots
  have hapart : ∀ j, i + 1 ≤ j → j < mapped → slotOf v''.mem k (segmentPage ph j) ≠ some s := by
    intro j hlo hhi hj
    have hdigits := slotOf_inj (hrest.paths (h.paths hpaths)) hk hs' hj
    exact segmentPage_digits (Nat.lt_of_succ_le hlo) (by omega) hdigits
  have hentry : slots v''.mem s.1 s.2 = slots v'.mem s.1 s.2 :=
    hrest.kept s.1 s.2 hbelow hapart
  refine ⟨fun r hr p f hf => hrest.tables r hr p f (h.tables r hr p f hf), ?_, ?_, ?_,
    fun h₀ => hrest.paths (h.paths h₀)⟩
  · intro f d hf hunmapped
    have hf' : TableBelow v'.mem roots 3 f := by
      obtain ⟨r, hr, p, hlen, hp⟩ := hf
      exact ⟨r, hr, p, hlen, h.tables r hr p f hp⟩
    rw [hrest.kept f d hf' fun j hlo hhi => hunmapped j (Nat.le_of_succ_le hlo) hhi]
    apply hother f d hf
    intro heq
    exact hunmapped i (Nat.le_refl i) hle (heq ▸ hs')
  · intro a ha
    rcases h.rest a ha with hfree | rfl | ⟨n, r, hr, p, hlen, hp⟩
    · rcases hrest.frames a hfree with hfree' | htable | ⟨j, s', hlo, hhi, hj⟩
      · exact .inl hfree'
      · exact .inr (.inl htable)
      · exact .inr (.inr ⟨j, s', Nat.le_of_succ_le hlo, hhi, hj⟩)
    · refine .inr (.inr ⟨i, s, Nat.le_refl i, hle, hs', ?_, ?_⟩)
      · rw [hentry]
        exact hpresent
      · rw [slotFrame, hentry]
        exact hframe
    · exact .inr (.inl ⟨n, r, hr, p, hlen, hrest.tables r hr p a hp⟩)
  · have hfewer := h.fewer
    have hrounds := hrest.few
    omega

/-- The loop of `process_map_segment`. -/
theorem segment_rounds (hk : k ∈ roots) (refusals : Nat → Refusal) (ph : ElfProgramHeader)
    (elf : Nat → Byte) (rounds i : Nat) (hv : Forest v roots) (hpaths : PathsAlike v.mem roots) :
    ∃ rc mapped v', processMapSegmentFrom refusals (some k) ph elf rounds i v = (rc, mapped, v')
      ∧ i ≤ mapped ∧ Rounds roots k ph i mapped v v' := by
  induction rounds generalizing i v with
  | zero =>
      exact ⟨kernelSuccess, i, v, rfl, Nat.le_refl i, rounds_none (Extended.refl hv) k ph i⟩
  | succ rounds ih =>
      have hroot : ∀ r, some k = some r → r ∈ roots := fun r heq => Option.some.inj heq ▸ hk
      rcases mapNewPage_maps hv hroot (refusals i) (segmentPage ph i) (ph.flags &&& pfW != 0) with
        ⟨v₁, hnone, hext⟩ | ⟨k', g, v₁, table, hk', -, htaken, htable, hsome⟩
      · refine ⟨kernelEnomem, i, v₁, ?_, Nat.le_refl i, rounds_none hext k ph i⟩
        rw [processMapSegmentFrom, hnone]
      · obtain rfl : k = k' := Option.some.inj hk'
        have hround := round_of_maps hv hk htaken htable (ph.flags &&& pfW != 0)
          (fun a ha => loadSegmentPage_outside ph elf (i * pageSize) ha)
        obtain ⟨rc, mapped, v', hrest, hle, hrounds⟩ :=
          ih (i + 1) hround.forest (hround.paths hpaths)
        refine ⟨rc, mapped, v', ?_, by omega, hround.cons hv hk hpaths hrounds (by omega)⟩
        rw [processMapSegmentFrom, hsome]
        exact hrest

/-- A slot that is filled stays so. -/
theorem mem_fillAt (hs : s ∈ filled) (va : Nat) : s ∈ fillAt m root filled va := by
  unfold fillAt
  cases root.bind fun root => slotOf m root va with
  | none => exact hs
  | some slot => exact List.mem_insert_of_mem hs

theorem mem_fillAt_self (hroot : root = some k) (hs : slotOf m k va = some s) :
    s ∈ fillAt m root filled va := by
  rw [fillAt_eq hroot hs]
  exact List.mem_insert_self

/-- The slots of the pages mapped are filled slots. -/
theorem mem_foldl_fillAt (hroot : root = some k) {vas : List Nat} (hva : va ∈ vas)
    (hs : slotOf m k va = some s) : s ∈ vas.foldl (fillAt m root) filled := by
  have hkept : ∀ (vas : List Nat) filled, s ∈ filled → s ∈ vas.foldl (fillAt m root) filled := by
    intro vas
    induction vas with
    | nil => exact fun _ hmem => hmem
    | cons va vas ih => exact fun filled hmem => ih _ (mem_fillAt hmem va)
  induction vas generalizing filled with
  | nil => cases hva
  | cons w vas ih =>
      rw [List.foldl_cons]
      cases List.mem_cons.mp hva with
      | inl heq => exact hkept vas _ (mem_fillAt_self hroot (heq ▸ hs))
      | inr hrest => exact ih hrest

-- ================================================================ operations

/-- `process_map_segment` loses nothing, whether it fails or not. -/
theorem FrameInv.segment_noFrameLost (h : FrameInv v₀ roots₀ y)
    (hpaths : PathsAlike y.vm.mem y.roots) (refusals : Nat → Refusal) (process : Nat)
    (ph : Option ElfProgramHeader) (elfBase : Nat) (elf : Nat → Byte)
    (hstep : frameStep y (.processMapSegment refusals process ph elfBase elf) = some y') :
    NoFrameLost y y' := by
  rcases processMapSegment_cases refusals y.processes process ph elfBase elf y.vm with
    hnothing | ⟨ph, rfl, hmaps⟩
  · intro a ha hused
    simp only [frameStep, hnothing] at hstep
    rw [← Option.some.inj hstep] at hused
    exact absurd ha hused
  cases hroot : y.processRoot process with
  | none =>
      -- without a root nothing is mapped
      have hext : ∀ rounds i v, Forest v y.roots → ∃ rc v',
          processMapSegmentFrom refusals none ph elf rounds i v = (rc, i, v')
            ∧ Extended y.roots v v' := by
        intro rounds i v hv
        cases rounds with
        | zero => exact ⟨kernelSuccess, v, rfl, Extended.refl hv⟩
        | succ rounds =>
            have hroot : ∀ k, (none : Option Nat) = some k → k ∈ y.roots := by
              intro k hk
              cases hk
            rcases mapNewPage_maps hv hroot (refusals i)
              (segmentPage ph i) (ph.flags &&& pfW != 0) with
              ⟨v₁, hnone, hext⟩ | ⟨k, g, v₁, table, hk, -⟩
            · exact ⟨kernelEnomem, v₁, by rw [processMapSegmentFrom, hnone], hext⟩
            · cases hk
      obtain ⟨rc, v', hrun, hext⟩ := hext (segmentPageCount ph) 0 y.vm h.frames.forest
      rw [FrameSys.processRoot] at hroot
      simp only [frameStep, hmaps, hroot, hrun, List.range_zero, List.map_nil,
        Option.elim_some] at hstep
      rw [← Option.some.inj hstep]
      exact noFrameLost_of_extended h.frames.forest hext rfl
  | some k =>
      have hk := h.processRoot process k hroot
      obtain ⟨rc, mapped, v', hrun, -, hrounds⟩ := segment_rounds hk refusals ph elf
        (segmentPageCount ph) 0 h.frames.forest hpaths
      rw [FrameSys.processRoot] at hroot
      simp only [frameStep, FrameSys.processRoot, hmaps, hroot, hrun, Option.elim_some] at hstep
      rw [← Option.some.inj hstep]
      intro a ha hused
      rcases hrounds.frames a ha with hfree | ⟨n, hf⟩ | ⟨j, s, -, hhi, hs, hpresent, hframe⟩
      · exact absurd hfree hused
      · apply referenced_table hf
        intro hr
        exact h.frames.forest.used 0 a ⟨a, hr, [], rfl, rfl⟩ ha
      · obtain ⟨t, ht, hslot⟩ := Option.map_eq_some_iff.mp hs
        refine ⟨3, s, ?_, hpresent, hframe, .inr ?_⟩
        · rw [← hslot]
          exact ⟨k, hk, tablePath (segmentPage ph j), rfl, ht⟩
        · exact mem_foldl_fillAt rfl
            (List.mem_map.mpr ⟨j, List.mem_range.mpr hhi, rfl⟩) hs

/-- A failing `vmm_handle_page_fault` loses none. -/
theorem FrameInv.fault_noFrameLost (h : FrameInv v₀ roots₀ y) (addr err : Nat)
    (hfails : (FrameOp.vmmHandlePageFault addr err).Fails y)
    (hstep : frameStep y (.vmmHandlePageFault addr err) = some y') : NoFrameLost y y' := by
  have hfalse : (vmmHandlePageFault y.heap.vma addr err y.vm).1 = false := hfails
  rcases h.frames.forest.fault_cases h.frames.active y.heap.vma addr err with
    ⟨v', hresult, hext, -⟩ | ⟨g, k, v', table, -, -, -, -, hresult⟩
  · simp only [frameStep, hresult] at hstep
    rw [← Option.some.inj hstep]
    exact noFrameLost_of_extended h.frames.forest hext rfl
  · rw [hresult] at hfalse
    cases hfalse

/-- A user page that is not mapped is given back. -/
theorem FrameInv.newPage_noFrameLost (h : FrameInv v₀ roots₀ y) {process : Nat}
    {refusal : Refusal} (hnone : mapNewPage refusal (y.processRoot process) va true y.vm
      = (none, v')) (hvm : y'.vm = v') (hroots : y'.roots = y.roots) : NoFrameLost y y' := by
  rcases mapNewPage_maps h.frames.forest (h.processRoot process) refusal va true with
    ⟨v₁, hnone', hext⟩ | ⟨k, g, v₁, table, -, -, -, -, hsome⟩
  · rw [hnone] at hnone'
    obtain rfl : v' = v₁ := (Prod.mk.inj hnone').2
    exact noFrameLost_of_extended h.frames.forest (hvm ▸ hext) hroots
  · rw [hnone] at hsome
    cases hsome

/-- A failing `process_map_initial_stack` loses none. -/
theorem FrameInv.stack_noFrameLost (h : FrameInv v₀ roots₀ y) (refusal : Refusal) (process : Nat)
    (hfails : (FrameOp.processMapInitialStack refusal process).Fails y)
    (hstep : frameStep y (.processMapInitialStack refusal process) = some y') :
    NoFrameLost y y' := by
  have hrc : (processMapInitialStack refusal y.processes process y.vm).1 ≠ kernelSuccess := hfails
  simp only [frameStep, if_neg hrc] at hstep
  rw [← Option.some.inj hstep]
  by_cases hnull : process = null
  · intro a ha hused
    simp only [processMapInitialStack, if_pos hnull] at hused
    exact absurd ha hused
  · cases hr : mapNewPage refusal (y.processRoot process)
        (wordSub (y.processes process).userStackTop pageSize) true y.vm with
    | mk page v₁ =>
        have hr' := hr
        rw [FrameSys.processRoot] at hr'
        cases page with
        | none =>
            refine h.newPage_noFrameLost hr ?_ rfl
            simp only [processMapInitialStack, if_neg hnull, hr']
            rfl
        | some page =>
            simp only [processMapInitialStack, if_neg hnull, hr'] at hrc
            exact absurd rfl hrc

/-- A failing `process_heap_expand` loses none. -/
theorem FrameInv.heap_noFrameLost (h : FrameInv v₀ roots₀ y) (refusal : Refusal) (process : Nat)
    (hfails : (FrameOp.processHeapExpand refusal process).Fails y)
    (hstep : frameStep y (.processHeapExpand refusal process) = some y') :
    NoFrameLost y y' := by
  have hrc : (processHeapExpand refusal y.processes process y.vm).1 ≠ kernelSuccess := hfails
  simp only [frameStep, if_neg hrc] at hstep
  rw [← Option.some.inj hstep]
  by_cases hnull : process = null
  · intro a ha hused
    simp only [processHeapExpand, if_pos hnull] at hused
    exact absurd ha hused
  · cases hr : mapNewPage refusal (y.processRoot process) (y.processes process).userHeapEnd true
        y.vm with
    | mk page v₁ =>
        have hr' := hr
        rw [FrameSys.processRoot] at hr'
        cases page with
        | none =>
            refine h.newPage_noFrameLost hr ?_ rfl
            simp only [processHeapExpand, if_neg hnull, hr']
            rfl
        | some page =>
            simp only [processHeapExpand, if_neg hnull, hr'] at hrc
            exact absurd rfl hrc

/-- `heap_expand` fails without a loss if it gets no frame, and otherwise
loses the frame it got. -/
theorem FrameInv.expand_noFrameLost_iff (h : FrameInv v₀ roots₀ y)
    (hfails : FrameOp.heapExpand.Fails y) (hstep : frameStep y .heapExpand = some y') :
    NoFrameLost y y' ↔ y.heap.heapVma = none ∨ y.heap.refusals.headD .granted = .noPage
      ∨ ∀ a, ¬ PmmClear y.vm.pmm a := by
  obtain ⟨h', hrun⟩ := hfails
  simp only [frameStep, hrun] at hstep
  rw [← Option.some.inj hstep]
  have hsame : h'.vm = y.vm → NoFrameLost y { y with heap := h' } := by
    intro hvm a ha hused
    rw [← hvm] at ha
    exact absurd ha hused
  have hnull := h.frames.forest.pmm.alloc_null_iff
  rcases heapExpand_maps h.frames.forest h.frames.active hrun with
    ⟨-, ⟨hvma, heq⟩ | ⟨hvma, -, hcommit⟩⟩ | ⟨hdone, -⟩
  · exact iff_of_true (hsame (by rw [heq])) (.inl hvma)
  · rcases hcommit with ⟨hnone, hvm⟩ | ⟨hpage, hne, g, htaken⟩
    · refine iff_of_true (hsame hvm) (.inr (hnone.imp_right hnull.mp))
    · apply iff_of_false
      · intro hlost
        obtain ⟨n, s, ⟨r, hr, p, hlen, hp⟩, -, hframe, hnext | hs⟩ :=
          hlost g htaken.clear htaken.used
        · rw [← hlen] at hnext
          exact htaken.data _ ⟨r, hr, p ++ [s.2], rfl, (tableAt_snoc hp).trans hnext⟩
        · exact (h.frames.unclaimed htaken).slot s hs hframe
      · intro hcase
        rcases hcase with hbad | hbad | hbad
        · exact hvma hbad
        · exact hpage hbad
        · exact hne (hnull.mpr hbad)
  · cases hdone

/-- Of the five operations, in any state and wherever it fails: every
frame that came into use is referenced, except that `heap_expand` must
not have got a frame. -/
theorem no_frame_lost_iff {h : Heap} {old : Pmm} {response : List MemmapEntry}
    {executable : Option (Nat × Nat)}
    (hinit : pmmInit old response executable = (true, h.vm.pmm))
    (hkernel : h.vm.kernelPml4 = none)
    (hboot : ∀ r, pageTableCurrentRoot h.vm = some r → Forest h.vm [r])
    (hpaths : ∀ r, pageTableCurrentRoot h.vm = some r → PathsAlike h.vm.mem [r])
    (ops : List FrameOp) (hops : AllowedRun frameStep FrameOp.Allowed (frameBoot h) ops)
    (hrun : runOps frameStep (frameBoot h) ops = some y) (op : FrameOp) (_ : op.Allowed y)
    (hfails : op.Fails y) (hstep : frameStep y op = some y') :
    NoFrameLost y y' ↔ (op = .heapExpand → y.heap.heapVma = none
      ∨ y.heap.refusals.headD .granted = .noPage ∨ ∀ a, ¬ PmmClear y.vm.pmm a) := by
  have hpmm := pmmInit_inv hinit
  have hinv := frameRun_inv hpmm hkernel hboot hops hrun
  have halike := hinv.frames.paths ((pageTableInit_forest hpmm hkernel hboot).2.2 hpaths)
  cases op with
  | heapExpand =>
      rw [hinv.expand_noFrameLost_iff hfails hstep]
      exact ⟨fun hcase _ => hcase, fun hcase => hcase rfl⟩
  | vmmHandlePageFault addr err =>
      exact iff_of_true (hinv.fault_noFrameLost addr err hfails hstep) fun heq => (nomatch heq)
  | processMapInitialStack refusal process =>
      exact iff_of_true (hinv.stack_noFrameLost refusal process hfails hstep)
        fun heq => (nomatch heq)
  | processHeapExpand refusal process =>
      exact iff_of_true (hinv.heap_noFrameLost refusal process hfails hstep)
        fun heq => (nomatch heq)
  | processMapSegment refusals process ph elfBase elf =>
      exact iff_of_true (hinv.segment_noFrameLost halike refusals process ph elfBase elf hstep)
        fun heq => (nomatch heq)
  | pageTableCreate => exact absurd hfails id
  | pageTableUnmap va => exact absurd hfails id
  | setProcess process fields => exact absurd hfails id
  | takeFrame => exact absurd hfails id
  | giveFrame frame => exact absurd hfails id

/-- A process gets a root, and others take all frames but two. -/
def twoFramesLeft : List FrameOp :=
  [.pageTableCreate, .setProcess 1 { pageTable := 0x6000, userStackTop := userStackTop }]
    ++ List.replicate 7 .takeFrame

/-- The stack gets its page and one of three tables, and gives the page
back. -/
theorem no_frame_lost_two_frames :
    ∃ y y', runOps frameStep (frameBoot bootDirectMap) twoFramesLeft = some y
      ∧ frameStep y (.processMapInitialStack .granted 1) = some y'
      ∧ y.vm.pmm.freePages = 2 ∧ y'.vm.pmm.freePages = 1 ∧ NoFrameLost y y' := by
  have hops : AllowedRun frameStep FrameOp.Allowed (frameBoot bootDirectMap) twoFramesLeft := by
    decide +kernel
  have hvalues : ((runOps frameStep (frameBoot bootDirectMap) twoFramesLeft).bind fun y =>
      (frameStep y (.processMapInitialStack .granted 1)).map fun y' =>
        ((processMapInitialStack .granted y.processes 1 y.vm).1, y.vm.pmm.freePages,
          y'.vm.pmm.freePages)) = some (kernelEnomem, 2, 1) := by
    decide +kernel
  obtain ⟨y, hrun, hrest⟩ := Option.bind_eq_some_iff.mp hvalues
  obtain ⟨y', hstep, heq⟩ := Option.map_eq_some_iff.mp hrest
  obtain ⟨hrc, hbefore, hafter⟩ : (processMapInitialStack .granted y.processes 1 y.vm).1
        = kernelEnomem ∧ y.vm.pmm.freePages = 2 ∧ y'.vm.pmm.freePages = 1 := by
    simpa using heq
  have hfails : (FrameOp.processMapInitialStack .granted 1).Fails y := by
    show (processMapInitialStack .granted y.processes 1 y.vm).1 ≠ kernelSuccess
    rw [hrc]
    exact enomem_ne
  exact ⟨y, y', hrun, hstep, hbefore, hafter,
    (no_frame_lost_iff bootDirectMap_pmmInit rfl bootDirectMap_boot bootDirectMap_paths
      twoFramesLeft hops hrun (.processMapInitialStack .granted 1) trivial hfails hstep).mpr
      fun heq => (nomatch heq)⟩

/-- The heap in 512 pages, which fill a page table. -/
def heapTableFull : Heap :=
  { bootDirectMap with
    mem := heapCreateBlock heapStartAddress 0x200000 fun _ => 0#8
    vma := [⟨heapStartAddress, heapStartAddress + 0x200000, 11⟩]
    head := heapStartAddress
    size := 0x200000
    virtualStart := heapStartAddress
    committedEnd := heapStartAddress + 0x200000
    heapVma := some 0 }

/-- The heap's first page table is made, and others take all frames but
one. -/
def oneFrameLeft : List FrameOp :=
  .vmmHandlePageFault heapStartAddress 0 :: List.replicate 5 .takeFrame

/-- `heap_expand` takes the last frame, finds none for the page table,
and fails; the frame is not referenced. -/
theorem heap_expand_loses_frame :
    ∃ y y', runOps frameStep (frameBoot heapTableFull) oneFrameLeft = some y
      ∧ FrameOp.heapExpand.Fails y ∧ frameStep y .heapExpand = some y'
      ∧ y.heap.refusals = [] ∧ y.vm.pmm.freePages = 1 ∧ y'.vm.pmm.freePages = 0
      ∧ ¬ NoFrameLost y y' := by
  have hops : AllowedRun frameStep FrameOp.Allowed (frameBoot heapTableFull) oneFrameLeft := by
    decide +kernel
  have hvalues : ((runOps frameStep (frameBoot heapTableFull) oneFrameLeft).bind fun y =>
      (heapExpand y.heap).bind fun r => (frameStep y .heapExpand).map fun y' =>
        (r.1, y.heap.heapVma, y.heap.refusals, bitmapTest y.vm.pmm.bitmap 15,
          y.vm.pmm.freePages, y'.vm.pmm.freePages))
      = some (false, some 0, [], false, 1, 0) := by
    decide +kernel
  obtain ⟨y, hrun, hrest⟩ := Option.bind_eq_some_iff.mp hvalues
  obtain ⟨⟨done, h'⟩, hexpand, hrest⟩ := Option.bind_eq_some_iff.mp hrest
  obtain ⟨y', hstep, heq⟩ := Option.map_eq_some_iff.mp hrest
  obtain ⟨rfl, hvma, hrefusals, hbit, hbefore, hafter⟩ : done = false ∧ y.heap.heapVma = some 0
      ∧ y.heap.refusals = [] ∧ bitmapTest y.vm.pmm.bitmap 15 = false
      ∧ y.vm.pmm.freePages = 1 ∧ y'.vm.pmm.freePages = 0 := by
    simpa using heq
  have hfails : FrameOp.heapExpand.Fails y := ⟨h', hexpand⟩
  have hpmm : PmmInv heapTableFull.vm.pmm := pmmInit_inv bootDirectMap_pmmInit
  have hinv := frameRun_inv hpmm rfl bootDirectMap_boot hops hrun
  refine ⟨y, y', hrun, hfails, hstep, hrefusals, hbefore, hafter, ?_⟩
  rw [hinv.expand_noFrameLost_iff hfails hstep, hvma, hrefusals]
  intro hcase
  rcases hcase with hbad | hbad | hbad
  · cases hbad
  · cases hbad
  · exact hbad (15 * pmmPageSize) ⟨15, rfl, hbit⟩

end ZenithOS.Proc
