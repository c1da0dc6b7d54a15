/-
What `process_exec` does to the heap.
-/
import ZenithOS.Proc.KernelRun
import ZenithOS.Proc.Proofs.Create

namespace ZenithOS.Proc

open Lib Mm Vmm Klib Scheduler

variable {k k' : Kernel} {v : Vm} {ps : List Nat} {process : Nat}

/-- The scheduler is the same but for the fields of processes. -/
def OnlyProcesses (s s' : Sched) : Prop := s' = { s with processes := s'.processes }

-- ================================================================ the image

section Image

variable {segments : List ElfProgramHeader} {ph : ElfProgramHeader} {elf : Nat → Byte}
  {base block lowest n x i : Nat} {m : Mem}

/-- Only headers below `e_phnum` are read. -/
theorem elfProgramHeader_lt (h : elfProgramHeader base elf i = some ph) :
    i < (elfHeader elf).phnum := by
  by_contra hindex
  unfold elfProgramHeader at h
  rw [if_pos (Nat.not_lt.mp hindex)] at h
  cases h

/-- The segments are the `PT_LOAD` headers. -/
theorem mem_loadSegments :
    ph ∈ loadSegments base elf ↔ ∃ i, elfProgramHeader base elf i = some ph ∧ ph.type = ptLoad := by
  unfold loadSegments
  rw [List.mem_filter, List.mem_filterMap]
  constructor
  · rintro ⟨⟨i, -, hentry⟩, hload⟩
    exact ⟨i, hentry, of_decide_eq_true hload⟩
  · rintro ⟨i, hentry, hload⟩
    exact ⟨⟨i, List.mem_range.mpr (elfProgramHeader_lt hentry), hentry⟩, decide_eq_true hload⟩

/-- The bounds hold the segments and are no wider than need be. -/
theorem widenBounds_foldl (segments : List ElfProgramHeader) (bounds : Nat × Nat) :
    (segments.foldl widenBounds bounds).1 ≤ bounds.1
      ∧ bounds.2 ≤ (segments.foldl widenBounds bounds).2
      ∧ (∀ ph ∈ segments, (segments.foldl widenBounds bounds).1 ≤ ph.vaddr
        ∧ wordAdd ph.vaddr ph.memsz ≤ (segments.foldl widenBounds bounds).2)
      ∧ ∀ b, bounds.2 ≤ b → (∀ ph ∈ segments, wordAdd ph.vaddr ph.memsz ≤ b) →
        (segments.foldl widenBounds bounds).2 ≤ b := by
  induction segments generalizing bounds with
  | nil => exact ⟨Nat.le_refl _, Nat.le_refl _, fun _ hph => (nomatch hph), fun _ hb _ => hb⟩
  | cons ph segments ih =>
      rw [List.foldl_cons]
      obtain ⟨hlow, hhigh, hall, hleast⟩ := ih (widenBounds bounds ph)
      have hlow' : (widenBounds bounds ph).1 ≤ bounds.1
          ∧ (widenBounds bounds ph).1 ≤ ph.vaddr := by
        show (if _ then _ else _) ≤ _ ∧ (if _ then _ else _) ≤ _
        split_ifs
        · omega
        · omega
      have hhigh' : bounds.2 ≤ (widenBounds bounds ph).2
          ∧ wordAdd ph.vaddr ph.memsz ≤ (widenBounds bounds ph).2 := by
        show _ ≤ (if _ then _ else _) ∧ _ ≤ (if _ then _ else _)
        split_ifs
        · omega
        · omega
      refine ⟨by omega, by omega, ?_, ?_⟩
      · intro ph' hph'
        cases List.mem_cons.mp hph' with
        | inl heq =>
            rw [heq]
            omega
        | inr hmem => exact hall ph' hmem
      · intro b hb hsegments
        refine hleast b ?_ fun ph' hph' => hsegments ph' (List.mem_cons_of_mem _ hph')
        show (if _ then _ else _) ≤ b
        split_ifs
        · exact hsegments ph List.mem_cons_self
        · exact hb

/-- The bounds of segments that fit. -/
theorem imageBounds_fit (hfits : ∀ ph ∈ segments, SegmentFits ph) :
    (∀ ph ∈ segments, (imageBounds segments).1 ≤ ph.vaddr
      ∧ ph.vaddr + ph.memsz ≤ (imageBounds segments).2)
      ∧ (imageBounds segments).2 + 15 < 2 ^ 64 := by
  obtain ⟨-, -, hall, hleast⟩ := widenBounds_foldl segments (2 ^ 64 - 1, 0)
  have hstop : ∀ ph ∈ segments, wordAdd ph.vaddr ph.memsz = ph.vaddr + ph.memsz := by
    intro ph hph
    have hspace := (hfits ph hph).2
    exact wordAdd_eq (by omega)
  constructor
  · intro ph hph
    have hbounds := hall ph hph
    rw [hstop ph hph] at hbounds
    exact hbounds
  · have hhigh : (imageBounds segments).2 ≤ 2 ^ 64 - 16 := by
      apply hleast (2 ^ 64 - 16) (Nat.zero_le _)
      intro ph hph
      have hspace := (hfits ph hph).2
      rw [hstop ph hph]
      omega
    omega

/-- A segment of the user half fits. -/
theorem UserSegment.fits (h : UserSegment ph) : SegmentFits ph := by
  obtain ⟨hsize, hlow⟩ := h
  exact ⟨hsize, by omega⟩

/-- The bytes of a segment that is inside the block do not wrap around. -/
theorem SegmentFits.words (hfits : SegmentFits ph) (hlow : lowest ≤ ph.vaddr)
    (hblock : ph.vaddr + ph.memsz - lowest ≤ n) (hend : block + n < 2 ^ 64) :
    wordSub ph.vaddr lowest = ph.vaddr - lowest
      ∧ wordAdd block (ph.vaddr - lowest) = block + (ph.vaddr - lowest)
      ∧ wordAdd (block + (ph.vaddr - lowest)) ph.filesz
        = block + (ph.vaddr - lowest) + ph.filesz := by
  obtain ⟨hfile, hspace⟩ := hfits
  exact ⟨wordSub_eq hlow (by omega), wordAdd_eq (by omega), wordAdd_eq (by omega)⟩

/-- A segment that is inside the block is copied inside the block. -/
theorem copySegment_outside (hfits : SegmentFits ph) (hlow : lowest ≤ ph.vaddr)
    (hblock : ph.vaddr + ph.memsz - lowest ≤ n) (hend : block + n < 2 ^ 64)
    (hx : x < block ∨ block + n ≤ x) : copySegment elf block lowest m ph x = m x := by
  obtain ⟨hoffset, hdest, hrest⟩ := hfits.words hlow hblock hend
  obtain ⟨hfile, hspace⟩ := hfits
  unfold copySegment
  rw [hoffset, hdest, hrest, wrapBlit_eq (by omega), wrapBlit_eq (by omega)]
  split_ifs
  · rw [blit_outside (by omega), blit_outside (by omega)]
  · rw [blit_outside (by omega)]

/-- Segments that fit write inside the block. -/
theorem copySegments_outside
    (hall : ∀ ph ∈ segments, SegmentFits ph ∧ lowest ≤ ph.vaddr
      ∧ ph.vaddr + ph.memsz - lowest ≤ n)
    (hend : block + n < 2 ^ 64) (hx : x < block ∨ block + n ≤ x) :
    segments.foldl (copySegment elf block lowest) m x = m x := by
  induction segments generalizing m with
  | nil => rfl
  | cons ph segments ih =>
      obtain ⟨hfits, hlow, hblock⟩ := hall ph List.mem_cons_self
      rw [List.foldl_cons, ih fun ph' hph' => hall ph' (List.mem_cons_of_mem _ hph')]
      exact copySegment_outside hfits hlow hblock hend hx

/-- The size of the block for an image. -/
def imageSize (base : Nat) (elf : Nat → Byte) : Nat :=
  wordSub (imageBounds (loadSegments base elf)).2 (imageBounds (loadSegments base elf)).1

/-- Segments that fit do not all start at the last address. -/
theorem loadSegments_nil (hfits : ∀ ph ∈ loadSegments base elf, SegmentFits ph)
    (hnone : (imageBounds (loadSegments base elf)).1 = 2 ^ 64 - 1) :
    loadSegments base elf = [] := by
  rw [List.eq_nil_iff_forall_not_mem]
  intro ph hph
  have hlow := ((imageBounds_fit hfits).1 ph hph).1
  have hspace := (hfits ph hph).2
  omega

/-- The heap with the segments copied to `block`. -/
def Heap.withImage (h : Heap) (base : Nat) (elf : Nat → Byte) (block : Nat) : Heap :=
  { h with
    mem := (loadSegments base elf).foldl
      (copySegment elf block (imageBounds (loadSegments base elf)).1) h.mem }

/-- What `elf_load_image` does: it turns the image down, allocates nothing
for it, or allocates its block, which may fail. -/
theorem elfLoadImage_cases {h h' : Heap} {refuse : Bool} {rc : Int} {image : ElfImage}
    (hrun : elfLoadImage refuse base elf h = some (rc, image, h')) :
    ((base = null ∨ elfValidate (elfHeader elf) ≠ kernelSuccess) ∧ rc = kernelEinval ∧ h' = h)
      ∨ (base ≠ null ∧ elfValidate (elfHeader elf) = kernelSuccess
        ∧ ((imageBounds (loadSegments base elf)).1 = 2 ^ 64 - 1 ∧ rc = kernelSuccess
            ∧ image = { entry := (elfHeader elf).entry } ∧ h' = Heap.withImage h base elf null
          ∨ (imageBounds (loadSegments base elf)).1 ≠ 2 ^ 64 - 1
            ∧ ∃ block h₁, kmallocUnless refuse (imageSize base elf) h = some (block, h₁)
              ∧ image = { base := block, size := imageSize base elf,
                          entry := (elfHeader elf).entry
                          imageBase := (imageBounds (loadSegments base elf)).1 }
              ∧ (block = null ∧ rc = kernelEnomem ∧ h' = h₁
                ∨ block ≠ null ∧ rc = kernelSuccess ∧ h' = Heap.withImage h₁ base elf block))) := by
  unfold elfLoadImage at hrun
  by_cases hbase : base = null
  · rw [if_pos hbase] at hrun
    cases hrun
    exact .inl ⟨.inl hbase, rfl, rfl⟩
  rw [if_neg hbase] at hrun
  by_cases hvalid : elfValidate (elfHeader elf) ≠ kernelSuccess
  · rw [if_pos hvalid] at hrun
    cases hrun
    exact .inl ⟨.inr hvalid, rfl, rfl⟩
  rw [if_neg hvalid] at hrun
  refine .inr ⟨hbase, not_not.mp hvalid, ?_⟩
  dsimp only at hrun
  by_cases hnone : (imageBounds (loadSegments base elf)).1 = 2 ^ 64 - 1
  · rw [if_pos hnone] at hrun
    cases hrun
    exact .inl ⟨hnone, rfl, rfl, rfl⟩
  rw [if_neg hnone] at hrun
  obtain ⟨⟨block, h₁⟩, halloc, hrun⟩ := Option.bind_eq_some_iff.mp hrun
  refine .inr ⟨hnone, block, h₁, halloc, ?_⟩
  dsimp only at hrun
  by_cases hnull : block = null
  · rw [if_pos hnull] at hrun
    cases hrun
    exact ⟨rfl, .inl ⟨hnull, rfl, rfl⟩⟩
  · rw [if_neg hnull] at hrun
    cases hrun
    exact ⟨rfl, .inr ⟨hnull, rfl, rfl⟩⟩

/-- The block for an image has room for each segment. -/
theorem imageSize_fits {size : Nat} (hfits : ∀ ph ∈ loadSegments base elf, SegmentFits ph)
    (hs : alignSize (imageSize base elf) ≤ size) :
    ∀ ph ∈ loadSegments base elf,
      SegmentFits ph ∧ (imageBounds (loadSegments base elf)).1 ≤ ph.vaddr
        ∧ ph.vaddr + ph.memsz - (imageBounds (loadSegments base elf)).1 ≤ size := by
  obtain ⟨hall, hhigh⟩ := imageBounds_fit hfits
  intro ph hph
  obtain ⟨hlow, hstop⟩ := hall ph hph
  have hdiff : imageSize base elf = (imageBounds (loadSegments base elf)).2
      - (imageBounds (loadSegments base elf)).1 := wordSub_eq (by omega) (by omega)
  have halign := le_alignSize (n := (imageBounds (loadSegments base elf)).2
    - (imageBounds (loadSegments base elf)).1) (by omega)
  rw [hdiff] at hs
  exact ⟨hfits ph hph, hlow, by omega⟩

/-- An image whose segments fit is copied into its own block. -/
theorem HasBlocks.withImage {h h₁ : Heap} {refuse : Bool} (hb : HasBlocks h ps)
    (hfits : ∀ ph ∈ loadSegments base elf, SegmentFits ph) (hnull : block ≠ null)
    (halloc : kmallocUnless refuse (imageSize base elf) h = some (block, h₁)) :
    block ∉ ps ∧ HasBlocks (Heap.withImage h₁ base elf block) (block :: ps) := by
  have hfresh : block ∉ ps := by
    rcases Mm.HasBlocks.kmalloc hb halloc with ⟨hbad, -⟩ | ⟨-, hfresh, -⟩
    · exact absurd hbad hnull
    · exact hfresh
  obtain ⟨ts, hi, hlive⟩ := hb
  obtain ⟨p, h₂, ts', hspec, hi', hallocates, -⟩ := kmallocUnless_spec hi refuse
    (imageSize base elf)
  rw [halloc] at hspec
  cases hspec
  obtain ⟨s, hs, hmem⟩ := hallocates.new hnull
  have hsize := imageSize_fits hfits hs
  refine ⟨hfresh, ts', hi'.storeBlock hmem ?_, ?_⟩
  · intro x hx
    have hbounds := used_bounds hmem
    have hend := hi'.end_lt
    exact copySegments_outside hsize (by omega) hx
  · intro p hp
    cases List.mem_cons.mp hp with
    | inl heq => exact ⟨s, heq ▸ hmem⟩
    | inr hold =>
        obtain ⟨n, hn⟩ := hlive p hold
        exact ⟨n, hallocates.mono hn⟩

/-- `elf_load_image` leaves the blocks that are held alone. -/
theorem elfLoadImage_blocks {h h' : Heap} {refuse : Bool} {rc : Int} {image : ElfImage}
    (hb : HasBlocks h ps) (hfits : ∀ ph ∈ loadSegments base elf, SegmentFits ph)
    (hrun : elfLoadImage refuse base elf h = some (rc, image, h')) : HasBlocks h' ps := by
  rcases elfLoadImage_cases hrun with ⟨-, -, rfl⟩ | ⟨-, -, ⟨hnone, -, -, rfl⟩ |
    ⟨-, block, h₁, halloc, -, ⟨hnull, -, rfl⟩ | ⟨hnull, -, rfl⟩⟩⟩
  · exact hb
  · unfold Heap.withImage
    rw [loadSegments_nil hfits hnone]
    exact hb
  · rcases Mm.HasBlocks.kmalloc hb halloc with ⟨-, hblocks⟩ | ⟨hne, -⟩
    · exact hblocks
    · exact absurd hnull hne
  · exact (HasBlocks.withImage hb hfits hnull halloc).2.mono fun p hp => List.mem_cons_of_mem _ hp

/-- Mapping segments only takes pages. -/
theorem processMapSegmentFrom_within {q : Pmm} (h : PmmWithin q v.pmm)
    (refusals : Nat → Refusal) (pml4 : Option Nat) (ph : ElfProgramHeader) (elf : Nat → Byte)
    (rounds i : Nat) :
    PmmWithin q (processMapSegmentFrom refusals pml4 ph elf rounds i v).2.2.pmm := by
  induction rounds generalizing i v with
  | zero => exact h
  | succ rounds ih =>
      have hpage := mapNewPage_within h (refusals i) pml4 (segmentPage ph i)
        (ph.flags &&& pfW != 0)
      rw [processMapSegmentFrom]
      cases hr : mapNewPage (refusals i) pml4 (segmentPage ph i) (ph.flags &&& pfW != 0) v with
      | mk page v' =>
          rw [hr] at hpage
          cases page with
          | none => exact hpage
          | some page =>
              exact ih (v := { v' with mem := loadSegmentPage ph elf page (i * pageSize) v'.mem })
                hpage (i + 1)

/-- Mapping segments only takes pages. -/
theorem processMapSegments_within {q : Pmm} (h : PmmWithin q v.pmm)
    (refusals : Nat → Nat → Refusal) (processes : Nat → Process) (process base : Nat)
    (elf : Nat → Byte) (i : Nat) (segments : List ElfProgramHeader) :
    PmmWithin q (processMapSegments refusals processes process base elf i segments v).2.pmm := by
  induction segments generalizing i v with
  | nil => exact h
  | cons ph segments ih =>
      have hsegment : PmmWithin q
          (processMapSegment (refusals i) processes process (some ph) base elf v).2.2.pmm := by
        unfold processMapSegment
        dsimp only
        split_ifs
        · exact h
        · exact h
        · exact processMapSegmentFrom_within h ..
      rw [processMapSegments]
      cases hr : processMapSegment (refusals i) processes process (some ph) base elf v with
      | mk rc rest =>
          obtain ⟨pages, v'⟩ := rest
          rw [hr] at hsegment
          dsimp only
          split_ifs
          · exact hsegment
          · exact ih hsegment (i + 1)

/-- The fields that are set before the last check, and after it. -/
def execLoaded (process : Nat) (image : ElfImage) (k : Kernel) : Kernel :=
  k.setProcess process { k.process process with image := image, userRip := image.entry }

/-- The fields that are set after the last check. -/
def execStarted (process : Nat) (k : Kernel) : Kernel :=
  k.setProcess process { k.process process with
    userRsp := wordSub (k.process process).userStackTop 8
    userRflags := userRflags
    isUserProcess := true }

/-- The fields set before the last check. -/
theorem execLoaded_process (process : Nat) (image : ElfImage) (k : Kernel) :
    (execLoaded process image k).process process
      = { k.process process with image := image, userRip := image.entry } :=
  Function.update_self ..

/-- The fields set after it. -/
theorem execStarted_process (process : Nat) (k : Kernel) :
    (execStarted process k).process process = { k.process process with
      userRsp := wordSub (k.process process).userStackTop 8
      userRflags := userRflags
      isUserProcess := true } :=
  Function.update_self ..

/-- How a call ends that went as far as the segments, which left `k` with
the code `mapped`. -/
inductive ExecEnd (process : Nat) (image : ElfImage) (mapped : Int) (k : Kernel) :
    Int → Kernel → Prop
  | stopped : mapped ≠ kernelSuccess → ExecEnd process image mapped k mapped k
  | noEntry : mapped = kernelSuccess →
      ExecEnd process image mapped k kernelEinval (execLoaded process image k)
  | started : mapped = kernelSuccess → pageTablePointer (k.process process).pageTable ≠ none →
      ExecEnd process image mapped k kernelSuccess
        (execStarted process (execLoaded process image k))

/-- What `process_exec` does: it stops at the image, or maps segments
behind a loaded one, and if that goes well sets two fields before it looks
for the entry. -/
theorem processExec_cases {failures : ExecFailures} {rc : Int}
    (hrun : processExec failures process base elf k = some (rc, k')) :
    ((process = null ∨ base = null) ∧ k' = k ∧ rc = kernelEinval)
      ∨ (process ≠ null ∧ base ≠ null
        ∧ ∃ status image heap, elfLoadImage failures.image base elf k.heap
            = some (status, image, heap)
          ∧ (status ≠ kernelSuccess ∧ k' = { k with heap := heap } ∧ rc = status
            ∨ status = kernelSuccess
              ∧ ∃ rc' v, processMapSegments failures.pages k.sched.processes process base elf 0
                  (loadSegments base elf) heap.vm = (rc', v)
                ∧ k'.heap = { heap with vm := v } ∧ OnlyProcesses k.sched k'.sched
                ∧ (rc' = kernelSuccess → rc ≠ kernelSuccess →
                  k'.process process = { k.process process with
                    image := image
                    userRip := image.entry })
                ∧ ExecEnd process image rc' (({ k with heap := heap } : Kernel).withVm v)
                  rc k')) := by
  unfold processExec at hrun
  by_cases hargs : process = null ∨ base = null
  · rw [if_pos hargs] at hrun
    cases hrun
    exact .inl ⟨hargs, rfl, rfl⟩
  rw [if_neg hargs] at hrun
  obtain ⟨hprocess, hbase⟩ := not_or.mp hargs
  obtain ⟨⟨status, image, heap⟩, hload, hrun⟩ := Option.bind_eq_some_iff.mp hrun
  refine .inr ⟨hprocess, hbase, status, image, heap, hload, ?_⟩
  dsimp only at hrun
  by_cases hstatus : status ≠ kernelSuccess
  · rw [if_pos hstatus] at hrun
    cases hrun
    exact .inl ⟨hstatus, rfl, rfl⟩
  rw [if_neg hstatus] at hrun
  refine .inr ⟨not_not.mp hstatus, ?_⟩
  cases hr : processMapSegments failures.pages k.sched.processes process base elf 0
      (loadSegments base elf) heap.vm with
  | mk rc' v =>
      simp only [Kernel.vm, hr] at hrun
      refine ⟨rc', v, rfl, ?_⟩
      by_cases hmapped : rc' ≠ kernelSuccess
      · rw [if_pos hmapped] at hrun
        cases hrun
        exact ⟨rfl, rfl, fun hok => absurd hok hmapped, .stopped hmapped⟩
      · rw [if_neg hmapped] at hrun
        have hdone := not_not.mp hmapped
        split at hrun
        · cases hrun
          exact ⟨rfl, rfl, fun _ _ => Function.update_self .., .noEntry hdone⟩
        · rename_i found v' hwalk
          cases hrun
          refine ⟨rfl, rfl, fun _ hrc => absurd rfl hrc, .started hdone ?_⟩
          intro hnone
          -- without a root the walk finds nothing
          have hsame := congrArg Process.pageTable
            (execLoaded_process process image (({ k with heap := heap } : Kernel).withVm v))
          have hroot : pageTablePointer ((execLoaded process image
              (({ k with heap := heap } : Kernel).withVm v)).process process).pageTable = none := by
            rw [hsame]
            exact hnone
          have hwalk' := (congrArg (pageWalkInternal _ · image.entry false) hroot).symm.trans hwalk
          cases hwalk'

/-- A program whose segments fit is run without touching other blocks, and
without the scheduler. -/
theorem processExec_blocks {failures : ExecFailures} {rc : Int} (hb : HasBlocks k.heap ps)
    (hfits : ∀ ph ∈ loadSegments base elf, SegmentFits ph)
    (hrun : processExec failures process base elf k = some (rc, k')) :
    HasBlocks k'.heap ps ∧ OnlyProcesses k.sched k'.sched := by
  rcases processExec_cases hrun with ⟨-, rfl, -⟩ | ⟨-, -, status, image, heap, hload,
    ⟨-, rfl, -⟩ | ⟨-, rc', v, hmap, hheap, hsched, -⟩⟩
  · exact ⟨hb, rfl⟩
  · exact ⟨elfLoadImage_blocks hb hfits hload, rfl⟩
  · have hblocks := elfLoadImage_blocks hb hfits hload
    have hinv : PmmInv heap.vm.pmm := by
      obtain ⟨ts, hi, -⟩ := hblocks
      exact hi.pmm
    have hwithin := processMapSegments_within (PmmWithin.refl hinv) failures.pages
      k.sched.processes process base elf 0 (loadSegments base elf)
    rw [hmap] at hwithin
    rw [hheap]
    exact ⟨hblocks.withVm hwithin, hsched⟩

end Image

end ZenithOS.Proc
