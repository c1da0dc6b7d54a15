/-
What a failed `process_exec` leaves behind.

# What is undone

`process_exec` has no error path that takes anything back. A call that
fails before it has allocated anything leaves no trace. After that it
keeps the block of the image, in which nobody will look for it; and if
all segments are mapped, the check of the entry comes after the fields
that it is a check of.

# Images that do not fit

The copy in the heap is made without a look at the sizes, and an image
whose segments do not fit is written over the headers of blocks. What is
left then depends on what the image holds, and nothing is said of it but
that a call which stops early leaves no trace.
-/
import ZenithOS.Proc.Proofs.KernelRun
import ZenithOS.Vmm.Mmu

namespace ZenithOS.Proc

open Lib Mm Vmm Klib Scheduler

variable {k k' : Kernel} {process base block : Nat} {elf : Nat → Byte} {image : ElfImage}
  {failures : ExecFailures} {rc : Int} {h h' h₁ : Heap} {refuse : Bool} {ts : List Tile}

-- ============================================================ failed calls

/-- A failed call has left no trace: between `k` and `k'` the process, its
address space, the live allocations and the frames are the same. -/
structure ExecUndone (k k' : Kernel) (process : Nat) : Prop where
  image : (k'.process process).image = (k.process process).image
  rip : (k'.process process).userRip = (k.process process).userRip
  rsp : (k'.process process).userRsp = (k.process process).userRsp
  rflags : (k'.process process).userRflags = (k.process process).userRflags
  user : (k'.process process).isUserProcess = (k.process process).isUserProcess
  pages : ∀ root, pageTablePointer (k.process process).pageTable = some root → ∀ w,
    mmuTranslate k'.vm.mem root w = mmuTranslate k.vm.mem root w
      ∧ ∀ pa, mmuTranslate k.vm.mem root w = some pa → k'.vm.mem pa = k.vm.mem pa
  live : ∀ p, p ∈ liveAllocations k'.heap ↔ p ∈ liveAllocations k.heap
  frames : ∀ a, PmmClear k.vm.pmm a → PmmClear k'.vm.pmm a

/-- The block for the image is refused at no cost: the call is made to
fail, or it is for no bytes, or there is neither a free block of that size
nor a page for the heap. -/
def ImageRefused (refuse : Bool) (base : Nat) (elf : Nat → Byte) (h : Heap) : Prop :=
  refuse = true ∨ imageSize base elf = 0 ∨ NoBlock (imageSize base elf) h ∧ NoPage h

/-- The call fails before it has changed anything: it gets no process or
no image, or one that is turned down, or the block for the image is
refused at no cost; or there are no segments, and the process has the
entry of the image already. -/
def ExecStops (failures : ExecFailures) (process base : Nat) (elf : Nat → Byte) (k : Kernel) :
    Prop :=
  process = null ∨ base = null ∨ elfValidate (elfHeader elf) ≠ kernelSuccess
    ∨ ((imageBounds (loadSegments base elf)).1 ≠ 2 ^ 64 - 1
      ∧ ImageRefused failures.image base elf k.heap)
    ∨ (loadSegments base elf = [] ∧ (k.process process).image = { entry := (elfHeader elf).entry }
      ∧ (k.process process).userRip = (elfHeader elf).entry)

/-- Nothing but the heap's own bookkeeping has changed. -/
theorem execUndone_heap {h : Heap} (hvm : h.vm = k.vm)
    (hlive : ∀ p, p ∈ liveAllocations h ↔ p ∈ liveAllocations k.heap) :
    ExecUndone k { k with heap := h } process := by
  refine ⟨rfl, rfl, rfl, rfl, rfl, ?_, hlive, ?_⟩
  · intro root _ w
    rw [Kernel.vm, hvm]
    exact ⟨rfl, fun _ _ => rfl⟩
  · show ∀ a, PmmClear k.heap.vm.pmm a → PmmClear h.vm.pmm a
    rw [show k.heap.vm = h.vm from hvm.symm]
    exact fun _ ha => ha

/-- A call that does nothing is undone. -/
theorem execUndone_refl (k : Kernel) (process : Nat) : ExecUndone k k process :=
  execUndone_heap rfl fun _ => Iff.rfl

/-- The allocation of the image, when it fails: with no change if and only
if it was refused at no cost. -/
theorem imageRefused_iff (hi : HeapInv h ts)
    (halloc : kmallocUnless refuse (imageSize base elf) h = some (null, h₁)) :
    (ImageRefused refuse base elf h → h₁.vm = h.vm)
      ∧ ((∀ a, PmmClear h.vm.pmm a → PmmClear h₁.vm.pmm a) → ImageRefused refuse base elf h) := by
  unfold kmallocUnless at halloc
  cases refuse with
  | true =>
      cases halloc
      exact ⟨fun _ => rfl, fun _ => .inl rfl⟩
  | false =>
      rw [if_neg Bool.false_ne_true] at halloc
      by_cases hsize : imageSize base elf = 0
      · rw [kmalloc, if_pos hsize] at halloc
        cases halloc
        exact ⟨fun _ => rfl, fun _ => .inr (.inl hsize)⟩
      · obtain ⟨hblock, ⟨hpage, hvm⟩ | ⟨hpage, a, ha, hused⟩⟩ := hi.kmalloc_null hsize halloc
        · exact ⟨fun _ => hvm, fun _ => .inr (.inr ⟨hblock, hpage⟩)⟩
        · constructor
          · rintro (hbad | hbad | ⟨-, hbad⟩)
            · cases hbad
            · exact absurd hbad hsize
            · exact absurd hbad hpage
          · intro hkept
            exact absurd (hkept a ha) hused

/-- An allocation that succeeds was not refused. -/
theorem not_imageRefused (hi : HeapInv h ts)
    (halloc : kmallocUnless refuse (imageSize base elf) h = some (block, h₁))
    (hnull : block ≠ null) : ¬ ImageRefused refuse base elf h := by
  unfold kmallocUnless at halloc
  rintro (hrefuse | hsize | ⟨hblock, hpage⟩)
  · rw [if_pos hrefuse] at halloc
    cases halloc
    exact hnull rfl
  · split_ifs at halloc
    · cases halloc
      exact hnull rfl
    · rw [kmalloc, if_pos hsize] at halloc
      cases halloc
      exact hnull rfl
  · split_ifs at halloc
    · cases halloc
      exact hnull rfl
    · by_cases hsize : imageSize base elf = 0
      · rw [kmalloc, if_pos hsize] at halloc
        cases halloc
        exact hnull rfl
      · obtain ⟨h', hnone⟩ := hi.kmalloc_of_none hsize hblock hpage
        rw [halloc] at hnone
        cases hnone
        exact hnull rfl

/-- Without segments the image gets no block, and nothing is mapped. -/
theorem elfLoadImage_nil (hnil : loadSegments base elf = [])
    (hrun : elfLoadImage refuse base elf h = some (rc, image, h')) :
    h' = h ∧ (rc = kernelSuccess → image = { entry := (elfHeader elf).entry }) := by
  have hlowest : (imageBounds (loadSegments base elf)).1 = 2 ^ 64 - 1 := by
    rw [hnil]
    rfl
  rcases elfLoadImage_cases hrun with ⟨-, hrc, rfl⟩ | ⟨-, -, ⟨-, -, himage, rfl⟩ | ⟨hsome, -⟩⟩
  · exact ⟨rfl, fun hok => absurd (hok.symm.trans hrc) einval_ne.symm⟩
  · unfold Heap.withImage
    rw [hnil]
    exact ⟨rfl, fun _ => himage⟩
  · exact absurd hlowest hsome

/-- A call that stops early leaves no trace. -/
theorem execUndone_of_stops (hi : HeapInv k.heap ts)
    (hstops : ExecStops failures process base elf k)
    (hrun : processExec failures process base elf k = some (rc, k')) (hfails : rc ≠ kernelSuccess) :
    ExecUndone k k' process := by
  rcases processExec_cases hrun with ⟨-, rfl, -⟩ | ⟨hprocess, hbase, status, image, heap, hload,
    hrest⟩
  · exact execUndone_refl k' process
  rcases hstops with hnull | hnull | hinvalid | ⟨hsome, hrefused⟩ | ⟨hnil, himage, hrip⟩
  · exact absurd hnull hprocess
  · exact absurd hnull hbase
  · rcases elfLoadImage_cases hload with ⟨-, rfl, rfl⟩ | ⟨-, hvalid, -⟩
    · rcases hrest with ⟨-, rfl, -⟩ | ⟨hok, -⟩
      · exact execUndone_refl k process
      · exact absurd hok einval_ne
    · exact absurd hvalid hinvalid
  · rcases elfLoadImage_cases hload with ⟨-, rfl, rfl⟩ | ⟨-, -, ⟨hnone, -⟩ |
      ⟨-, block, h₁, halloc, -, hblock⟩⟩
    · rcases hrest with ⟨-, rfl, -⟩ | ⟨hok, -⟩
      · exact execUndone_refl k process
      · exact absurd hok einval_ne
    · exact absurd hnone hsome
    · rcases hblock with ⟨rfl, rfl, rfl⟩ | ⟨hne, -⟩
      · rcases hrest with ⟨-, rfl, -⟩ | ⟨hok, -⟩
        · obtain ⟨p, h₂, ts', hspec, hi', hallocates, -⟩ :=
            kmallocUnless_spec hi failures.image (imageSize base elf)
          rw [halloc] at hspec
          cases hspec
          have hlive := hi.live_of_null hi' hallocates
          exact execUndone_heap ((imageRefused_iff hi halloc).1 hrefused)
            fun p => by rw [hlive]
        · exact absurd hok enomem_ne
      · exact absurd hrefused (not_imageRefused hi halloc hne)
  · obtain ⟨rfl, hloaded⟩ := elfLoadImage_nil hnil hload
    rcases hrest with ⟨-, rfl, -⟩ | ⟨hok, rc', v, hmap, hheap, -, hfields, -⟩
    · exact execUndone_refl k process
    · rw [hnil] at hmap
      cases hmap
      have hsame := hfields rfl hfails
      rw [hloaded hok] at hsame
      refine ⟨?_, ?_, ?_, ?_, ?_, ?_, ?_, ?_⟩
      · rw [hsame, himage]
      · rw [hsame, hrip]
      · rw [hsame]
      · rw [hsame]
      · rw [hsame]
      · intro root _ w
        unfold Kernel.vm
        rw [hheap]
        exact ⟨rfl, fun _ _ => rfl⟩
      · intro p
        rw [hheap]
      · intro a ha
        unfold Kernel.vm
        rw [hheap]
        exact ha

/-- A failed call that has left no trace has stopped early: past that it
keeps the block of the image, or the fields of the process. -/
theorem execStops_of_undone (hi : HeapInv k.heap ts)
    (hfits : ∀ ph ∈ loadSegments base elf, SegmentFits ph)
    (hrun : processExec failures process base elf k = some (rc, k')) (hfails : rc ≠ kernelSuccess)
    (hundone : ExecUndone k k' process) : ExecStops failures process base elf k := by
  have hb : HasBlocks k.heap (liveAllocations k.heap) := by
    refine ⟨ts, hi, ?_⟩
    intro p hp
    rw [hi.liveAllocations_eq] at hp
    obtain ⟨u, hu, rfl⟩ := List.mem_map.mp hp
    exact ⟨u.2, hu⟩
  rcases processExec_cases hrun with ⟨hargs, -⟩ | ⟨-, -, status, image, heap, hload, hrest⟩
  · cases hargs with
    | inl hprocess => exact .inl hprocess
    | inr hbase => exact .inr (.inl hbase)
  rcases elfLoadImage_cases hload with ⟨hbase | hinvalid, -, -⟩ | ⟨-, -, ⟨hnone, hok, himage, -⟩ |
    ⟨hsome, block, h₁, halloc, -, ⟨rfl, rfl, rfl⟩ | ⟨hne, hok, rfl⟩⟩⟩
  · exact .inr (.inl hbase)
  · exact .inr (.inr (.inl hinvalid))
  · -- without segments the last check is what fails
    have hnil := loadSegments_nil hfits hnone
    rcases hrest with ⟨hbad, -⟩ | ⟨-, rc', v, hmap, -, -, hfields, -⟩
    · exact absurd hok hbad
    · rw [hnil] at hmap
      cases hmap
      have hsame := hfields rfl hfails
      refine .inr (.inr (.inr (.inr ⟨hnil, ?_, ?_⟩)))
      · rw [← hundone.image, hsame, himage]
      · rw [← hundone.rip, hsame, himage]
  · rcases hrest with ⟨-, rfl, -⟩ | ⟨hbad, -⟩
    · exact .inr (.inr (.inr (.inl ⟨hsome, (imageRefused_iff hi halloc).2 hundone.frames⟩)))
    · exact absurd hbad enomem_ne
  · -- the block is live, and it was not
    obtain ⟨hfresh, hnew⟩ := HasBlocks.withImage hb hfits hne halloc
    rcases hrest with ⟨hbad, -⟩ | ⟨-, rc', v, hmap, hheap, -⟩
    · exact absurd hok hbad
    · have hinv : PmmInv (Heap.withImage h₁ base elf block).vm.pmm := by
        obtain ⟨ts', hi', -⟩ := hnew
        exact hi'.pmm
      have hwithin := processMapSegments_within (PmmWithin.refl hinv) failures.pages
        k.sched.processes process base elf 0 (loadSegments base elf)
      rw [hmap] at hwithin
      have hafter := (hnew.withVm hwithin).live (List.mem_cons_self)
      rw [← hheap] at hafter
      exact absurd ((hundone.live block).mp hafter) hfresh

/-- `process_exec` returns. -/
theorem processExec_total (hi : HeapInv k.heap ts) (failures : ExecFailures)
    (process base : Nat) (elf : Nat → Byte) :
    ∃ rc k', processExec failures process base elf k = some (rc, k') := by
  have hload : ∃ r, elfLoadImage failures.image base elf k.heap = some r := by
    obtain ⟨p, h₁, ts', hspec, -⟩ := kmallocUnless_spec hi failures.image (imageSize base elf)
    unfold imageSize at hspec
    unfold elfLoadImage
    split_ifs
    · exact ⟨_, rfl⟩
    · exact ⟨_, rfl⟩
    · dsimp only
      split_ifs
      · exact ⟨_, rfl⟩
      · rw [hspec]
        dsimp only [Option.bind_eq_bind, Option.bind_some]
        split_ifs
        · exact ⟨_, rfl⟩
        · exact ⟨_, rfl⟩
  obtain ⟨⟨status, image, heap⟩, hload⟩ := hload
  unfold processExec
  rw [hload]
  split_ifs
  · exact ⟨_, _, rfl⟩
  · dsimp only [Option.bind_eq_bind, Option.bind_some]
    split_ifs
    · exact ⟨_, _, rfl⟩
    · exact ⟨_, _, rfl⟩
    · split
      · exact ⟨_, _, rfl⟩
      · exact ⟨_, _, rfl⟩

/-- A failed `process_exec` leaves no trace if it stops early, and of
images whose segments fit only then. -/
theorem process_exec_undone_iff (hi : HeapInv k.heap ts)
    (failures : ExecFailures) (process base : Nat) (elf : Nat → Byte) :
    ∃ rc k', processExec failures process base elf k = some (rc, k')
      ∧ (rc ≠ kernelSuccess →
        (ExecStops failures process base elf k → ExecUndone k k' process)
          ∧ ((∀ ph ∈ loadSegments base elf, SegmentFits ph) →
            ExecUndone k k' process → ExecStops failures process base elf k)) := by
  obtain ⟨rc, k', hrun⟩ := processExec_total hi failures process base elf
  refine ⟨rc, k', hrun, ?_⟩
  intro hfails
  exact ⟨fun hstops => execUndone_of_stops hi hstops hrun hfails,
    fun hfits => execStops_of_undone hi hfits hrun hfails⟩

/-- The words of an executable image with one segment, eight bytes of code
at `0x400000`. -/
def oneSegmentWords (entry : Nat) : List (Nat × Nat) :=
  [(0, 0x00010102464C457F), (16, 0x00000001003E0002), (24, entry), (32, 64),
    (48, 0x0038000000000000), (56, 1), (64, 0x0000000500000001), (72, 0x78), (80, 0x400000),
    (96, 8), (104, 8)]

/-- An image with one segment at `0x400000`. -/
def oneSegment (entry : Nat) : Nat → Byte :=
  (oneSegmentWords entry).foldl (fun m w => storeWord m w.1 w.2) fun _ => 0#8

/-- A process is made, and there is no block for its image. -/
theorem process_exec_undone_no_block :
    ∃ process frames k rc k', processCreate {} [0x70#8] 0x100 processBoot
        = some (process, frames, k)
      ∧ processExec { image := true } process 0x10000 (oneSegment 0x400000) k = some (rc, k')
      ∧ rc = kernelEnomem ∧ ExecUndone k k' process := by
  have hvalues : ((processCreate {} [0x70#8] 0x100 processBoot).bind fun r =>
      (processExec { image := true } r.1 0x10000 (oneSegment 0x400000) r.2.2).map Prod.fst)
      = some kernelEnomem := by
    decide +kernel
  obtain ⟨⟨process, frames, k⟩, hcreate, hvalues⟩ := Option.bind_eq_some_iff.mp hvalues
  obtain ⟨⟨rc, k'⟩, hexec, rfl⟩ := Option.map_eq_some_iff.mp hvalues
  have hsegments : (imageBounds (loadSegments 0x10000 (oneSegment 0x400000))).1 ≠ 2 ^ 64 - 1 := by
    decide +kernel
  have hboot : HasBlocks processBoot.heap [] := ⟨_, processBoot_heap, fun _ hp => absurd hp
    List.not_mem_nil⟩
  obtain ⟨ts, hi⟩ : ∃ ts, HeapInv k.heap ts := by
    rcases processCreate_creates hboot hcreate with ⟨-, ⟨ts, hi, -⟩, -⟩ | ⟨-, ⟨ts, hi, -⟩, -⟩
    · exact ⟨ts, hi⟩
    · exact ⟨ts, hi⟩
  obtain ⟨rc', k'', hspec, hundone⟩ := process_exec_undone_iff hi { image := true } process 0x10000
    (oneSegment 0x400000)
  rw [hexec] at hspec
  cases hspec
  exact ⟨process, frames, k, kernelEnomem, k', hcreate, hexec, rfl,
    (hundone enomem_ne).1 (.inr (.inr (.inr (.inl ⟨hsegments, .inl rfl⟩))))⟩

/-- The entry of the image is in none of its segments: the call fails and
has set `user_rip`, and the block of the image is never freed. -/
theorem process_exec_keeps_rip :
    ∃ process frames k k', processCreate {} [0x70#8] 0x100 processBoot
        = some (process, frames, k)
      ∧ processExec {} process 0x10000 (oneSegment 0x500000) k = some (kernelEinval, k')
      ∧ (k.process process).userRip = 0 ∧ (k'.process process).userRip = 0x500000
      ∧ liveAllocations k'.heap ≠ liveAllocations k.heap ∧ ¬ ExecUndone k k' process := by
  have hvalues : ((processCreate {} [0x70#8] 0x100 processBoot).bind fun r =>
      (processExec {} r.1 0x10000 (oneSegment 0x500000) r.2.2).map fun e =>
        (e.1, (r.2.2.process r.1).userRip, (e.2.process r.1).userRip,
          decide (liveAllocations e.2.heap = liveAllocations r.2.2.heap)))
      = some (kernelEinval, 0, 0x500000, false) := by
    decide +kernel
  obtain ⟨⟨process, frames, k⟩, hcreate, hvalues⟩ := Option.bind_eq_some_iff.mp hvalues
  obtain ⟨⟨rc, k'⟩, hexec, hvalues⟩ := Option.map_eq_some_iff.mp hvalues
  injection hvalues with hrc hvalues
  injection hvalues with hbefore hvalues
  injection hvalues with hafter hlive
  dsimp only at hrc hbefore hafter hlive
  rw [hrc] at hexec
  refine ⟨process, frames, k, k', hcreate, hexec, hbefore, hafter, of_decide_eq_false hlive, ?_⟩
  intro hundone
  have hsame := hundone.rip
  rw [hbefore, hafter] at hsame
  exact absurd hsame (by decide)

end ZenithOS.Proc
