/-
What a failed `process_create` leaves behind.

`Undone k k' frames` is what a caller may expect when it gets `NULL`: the
process list, the live allocations and the frames are as they were. The
code keeps to it only before it has allocated anything
(`process_create_undone_iff`). After that every failure leaves something:
without a root table the `process_t` itself stays allocated, and with one
the frame of the root table stays taken, whatever fails later, because
nothing after `page_table_create` ever gives a frame back but the one it
has just taken (`PmmWithin`).
-/
import ZenithOS.Mm.Proofs.HeapFrames
import ZenithOS.Mm.Proofs.HeapRun
import ZenithOS.Proc.Process
import ZenithOS.Scheduler.Proofs.Partition

namespace ZenithOS.Proc

open Lib Mm Vmm Klib Scheduler

variable {k k' : Kernel} {v : Vm} {q : Pmm} {ts : List Tile} {process root entry result : Nat}
  {frames : List Nat} {failures : CreateFailures} {name : List Byte}

/-- A call that took `frames` has been undone: between `k` and `k'` the
process list and the live allocations are the same, and the frames are
free. -/
structure Undone (k k' : Kernel) (frames : List Nat) : Prop where
  head : k'.processList = k.processList
  list : ∀ l, Linked (processLinks k') (pageTablePointer k'.processList) l
    ↔ Linked (processLinks k) (pageTablePointer k.processList) l
  live : ∀ p, p ∈ liveAllocations k'.heap ↔ p ∈ liveAllocations k.heap
  frames : ∀ f ∈ frames, PmmClear k'.vm.pmm f

-- =================================================== frames that stay taken

/-- A new page is taken and mapped, or given back. -/
theorem mapNewPage_within (h : PmmWithin q v.pmm) (refusal : Refusal) (pml4 : Option Nat)
    (va : Nat) (wr : Bool) : PmmWithin q (mapNewPage refusal pml4 va wr v).2.pmm := by
  by_cases hpage : refusal = .noPage
  · rw [mapNewPage, if_pos hpage]
    exact h
  rcases h.1.alloc_cases with hnull | ⟨g, pmm, halloc, hg, hinv, hclear⟩
  · simp only [mapNewPage, if_neg hpage, hnull, if_true]
    exact h
  obtain ⟨hgal, hgnull, -⟩ := h.1.clear_frame hg
  have htaken : PmmWithin q pmm := ⟨hinv, fun a ha => h.2 a ((hclear a).mp ha).1⟩
  have hback : ∀ p, PmmWithin q p → PmmWithin q (pmmFreePage g p) := by
    intro p hp
    refine ⟨hp.1.markPageFree _, ?_⟩
    intro a ha
    cases hp.1.clear_of_freePage hgal ha with
    | inl hold => exact hp.2 a hold
    | inr heq => exact heq ▸ h.2 g hg
  by_cases hmap : refusal = .noMap
  · simp only [mapNewPage, if_neg hpage, halloc, if_neg hgnull, if_pos hmap, Bool.false_eq_true,
      if_false]
    exact hback pmm htaken
  · have hmapped := pageTableMapUser_keeps (takesOnly_within q) (v := { v with pmm := pmm })
      htaken pml4 va g wr
    cases hr : pageTableMapUser { v with pmm := pmm } pml4 va g wr with
    | mk done v' =>
        rw [hr] at hmapped
        simp only [mapNewPage, if_neg hpage, halloc, if_neg hgnull, if_neg hmap, hr]
        cases done with
        | true => exact hmapped
        | false => exact hback v'.pmm hmapped

/-- `process_map_initial_stack` only takes pages. -/
theorem processMapInitialStack_within (h : PmmWithin q v.pmm) (refusal : Refusal)
    (processes : Nat → Process) (process : Nat) :
    PmmWithin q (processMapInitialStack refusal processes process v).2.pmm := by
  rw [processMapInitialStack]
  split_ifs
  · exact h
  · have hpage := mapNewPage_within h refusal (pageTablePointer (processes process).pageTable)
      (wordSub (processes process).userStackTop pageSize) true
    cases hr : mapNewPage refusal (pageTablePointer (processes process).pageTable)
        (wordSub (processes process).userStackTop pageSize) true v with
    | mk page v' =>
        rw [hr] at hpage
        simp only [hr]
        cases page with
        | none => exact hpage
        | some page => exact hpage

/-- `process_heap_expand` only takes pages. -/
theorem processHeapExpand_within (h : PmmWithin q v.pmm) (refusal : Refusal)
    (processes : Nat → Process) (process : Nat) :
    PmmWithin q (processHeapExpand refusal processes process v).2.2.pmm := by
  rw [processHeapExpand]
  split_ifs
  · exact h
  · have hpage := mapNewPage_within h refusal (pageTablePointer (processes process).pageTable)
      (processes process).userHeapEnd true
    cases hr : mapNewPage refusal (pageTablePointer (processes process).pageTable)
        (processes process).userHeapEnd true v with
    | mk page v' =>
        rw [hr] at hpage
        simp only [hr]
        cases page with
        | none => exact hpage
        | some page => exact hpage

@[simp] theorem Kernel.kfree_vm (k : Kernel) (p : Nat) : (k.kfree p).vm = k.vm :=
  Mm.kfree_vm p k.heap

/-- `task_create` only takes pages. -/
theorem taskCreate_within (h : PmmWithin q k.vm.pmm) {refuseTask refuseStack : Bool}
    {task : Option (Nat × TaskPtr)}
    (hrun : taskCreate refuseTask refuseStack entry k = some (task, k')) :
    PmmWithin q k'.vm.pmm := by
  rw [taskCreate] at hrun
  split_ifs at hrun
  · cases hrun
    exact h
  · obtain ⟨⟨address, heap⟩, halloc, hrun⟩ := Option.bind_eq_some_iff.mp hrun
    have htask := kmallocUnless_keeps (takesOnly_within q) h halloc
    dsimp only at hrun
    split_ifs at hrun
    · cases hrun
      exact htask
    · obtain ⟨⟨stack, heap'⟩, halloc', hrun⟩ := Option.bind_eq_some_iff.mp hrun
      have hstack := kmallocUnless_keeps (takesOnly_within q) htask halloc'
      dsimp only at hrun
      split_ifs at hrun
      · cases hrun
        rw [Kernel.kfree_vm]
        exact hstack
      · cases hrun
        exact hstack

/-- The last part of `process_create` only takes pages. -/
theorem processStart_within (h : PmmWithin q k.vm.pmm)
    (hrun : processStart failures name entry process k = some (result, k')) :
    PmmWithin q k'.vm.pmm := by
  obtain ⟨⟨task, k₁⟩, htask, hrun⟩ := Option.bind_eq_some_iff.mp hrun
  have hpmm := taskCreate_within (k := processLink name process k) h htask
  cases task with
  | none =>
      cases hrun
      rw [Kernel.kfree_vm]
      exact hpmm
  | some task =>
      obtain ⟨address, t⟩ := task
      obtain ⟨sched, -, hrun⟩ := Option.bind_eq_some_iff.mp hrun
      cases hrun
      exact hpmm

/-- Pages are mapped for a process with a root table: not all, and the
process is freed; or all, and it starts. -/
theorem processMapPages_cases (h : PmmWithin q k.vm.pmm)
    (hrun : processMapPages failures name entry process root k = some (result, frames, k')) :
    ∃ processes v, PmmWithin q v.pmm
      ∧ ((result = null ∧ k' = ((k.withProcesses processes).withVm v).kfree process)
        ∨ processStart failures name entry process ((k.withProcesses processes).withVm v)
          = some (result, k')) := by
  have hstack := processMapInitialStack_within h failures.stack
    (processRooted process root k).sched.processes process
  rw [processMapPages] at hrun
  cases hr : processMapInitialStack failures.stack (processRooted process root k).sched.processes
      process k.vm with
  | mk rc v =>
      have hr' : processMapInitialStack failures.stack
          (processRooted process root k).sched.processes process
          (processRooted process root k).vm = (rc, v) := hr
      rw [hr] at hstack
      simp only [hr'] at hrun
      by_cases hrc : rc ≠ kernelSuccess
      · rw [if_pos hrc] at hrun
        cases hrun
        exact ⟨(processRooted process root k).sched.processes, v, hstack, .inl ⟨rfl, rfl⟩⟩
      · rw [if_neg hrc] at hrun
        have hheap := processHeapExpand_within hstack failures.heap
          (processHeaped process ((processRooted process root k).withVm v)).sched.processes process
        cases hr₂ : processHeapExpand failures.heap
            (processHeaped process ((processRooted process root k).withVm v)).sched.processes
            process v with
        | mk rc₂ rest =>
            obtain ⟨processes, v₂⟩ := rest
            have hr₂' : processHeapExpand failures.heap
                (processHeaped process ((processRooted process root k).withVm v)).sched.processes
                process (processHeaped process ((processRooted process root k).withVm v)).vm
                = (rc₂, processes, v₂) := hr₂
            rw [hr₂] at hheap
            simp only [hr₂'] at hrun
            split_ifs at hrun with hrc₂
            · cases hrun
              exact ⟨processes, v₂, hheap, .inl ⟨rfl, rfl⟩⟩
            · obtain ⟨⟨result', k₁⟩, hstart, heq⟩ := Option.map_eq_some_iff.mp hrun
              cases heq
              exact ⟨processes, v₂, hheap, .inr hstart⟩

/-- The middle part of `process_create` only takes pages. -/
theorem processMapPages_within (h : PmmWithin q k.vm.pmm)
    (hrun : processMapPages failures name entry process root k = some (result, frames, k')) :
    PmmWithin q k'.vm.pmm := by
  obtain ⟨processes, v, hv, hcases⟩ := processMapPages_cases h hrun
  rcases hcases with ⟨-, rfl⟩ | hstart
  · rw [Kernel.kfree_vm]
    exact hv
  · exact processStart_within (k := (k.withProcesses processes).withVm v) hv hstart

-- ====================================================== all or nothing

/-- The frame of a new root table is the frame taken, and no longer
free. -/
theorem pageTableCreate_taken (hp : PmmInv v.pmm) {refuse : Bool} {v' : Vm}
    (hrun : pageTableCreateUnless refuse v = (some root, v')) :
    root ∈ frameTaken refuse v.pmm ∧ PmmInv v'.pmm ∧ ¬ PmmClear v'.pmm root := by
  cases refuse with
  | true => cases hrun
  | false =>
      rw [pageTableCreateUnless, if_neg Bool.false_ne_true] at hrun
      rcases hp.alloc_cases with hnull | ⟨g, pmm, halloc, hg, hinv, hclear⟩
      · simp only [pageTableCreate, hnull, if_true] at hrun
        cases hrun
      · have hgnull := (hp.clear_frame hg).2.1
        cases hvirtual : pageTablePhysicalToVirtual v.hhdmOffset g with
        | none =>
            simp only [pageTableCreate, halloc, if_neg hgnull, hvirtual] at hrun
            cases hrun
        | some newPml4 =>
            have hsame : newPml4 = g := by
              unfold pageTablePhysicalToVirtual at hvirtual
              split_ifs at hvirtual
              exact (Option.some.inj hvirtual).symm
            simp only [pageTableCreate, halloc, if_neg hgnull, hvirtual] at hrun
            cases hrun
            rw [hsame, frameTaken, halloc, if_neg (by simp [hgnull])]
            exact ⟨List.mem_cons_self, hinv, fun hfree => ((hclear g).mp hfree).2 rfl⟩

/-- How far a `process_create` that has its `process_t` gets: to the root
table, or past it. -/
theorem processCreate_allocated {heap : Heap} (hentry : entry ≠ null) (hprocess : process ≠ null)
    (halloc : kmallocUnless failures.process processBytes k.heap = some (process, heap))
    (hrun : processCreate failures name entry k = some (result, frames, k')) :
    (∃ v, result = null ∧ pageTableCreateUnless failures.root heap.vm = (none, v)
        ∧ k' = (processZeroed process { k with heap := heap }).withVm v)
      ∨ ∃ root v pages, pageTableCreateUnless failures.root heap.vm = (some root, v)
        ∧ frames = pages ++ frameTaken failures.root heap.vm.pmm
        ∧ processMapPages failures name entry process root
            ((processZeroed process { k with heap := heap }).withVm v)
          = some (result, pages, k') := by
  simp only [processCreate, if_neg hentry, halloc, Option.bind_eq_bind, Option.bind_some,
    if_neg hprocess] at hrun
  cases hr : pageTableCreateUnless failures.root heap.vm with
  | mk root v =>
      have hr' : pageTableCreateUnless failures.root
          (processZeroed process { k with heap := heap }).vm = (root, v) := hr
      simp only [hr'] at hrun
      cases root with
      | none =>
          cases hrun
          exact .inl ⟨v, rfl, rfl, rfl⟩
      | some root =>
          obtain ⟨⟨result', pages, k₁⟩, hpages, heq⟩ := Option.map_eq_some_iff.mp hrun
          cases heq
          exact .inr ⟨root, v, pages, rfl, rfl, hpages⟩

/-- With its `process_t` allocated, a `process_create` that fails leaves
something behind. -/
theorem processCreate_leaves {heap : Heap} (hk : HeapInv k.heap ts) (hentry : entry ≠ null)
    (hprocess : process ≠ null)
    (halloc : kmallocUnless failures.process processBytes k.heap = some (process, heap))
    (hrun : processCreate failures name entry k = some (null, frames, k')) :
    ¬ Undone k k' frames := by
  intro hundone
  obtain ⟨p, heap', ts', hspec, hheap, hallocates, -⟩ :=
    kmallocUnless_spec hk failures.process processBytes
  rw [halloc] at hspec
  cases hspec
  rcases processCreate_allocated hentry hprocess halloc hrun with
    ⟨v, -, -, rfl⟩ | ⟨root, v, pages, hroot, rfl, hpages⟩
  · -- the `process_t` is still allocated
    obtain ⟨hperm, hfresh⟩ := hk.live_of_new hheap hallocates hprocess
    have hlive : process ∈ liveAllocations heap := hperm.mem_iff.mpr List.mem_cons_self
    exact hfresh ((hundone.live process).mp hlive)
  · -- the root table's frame is still taken
    obtain ⟨hmem, hinv, hused⟩ := pageTableCreate_taken hheap.pmm hroot
    have hwithin : PmmWithin v.pmm k'.vm.pmm :=
      processMapPages_within (k := (processZeroed process { k with heap := heap }).withVm v)
        ⟨hinv, fun _ ha => ha⟩ hpages
    have hfree := hundone.frames root (List.mem_append_right pages hmem)
    exact hused (hwithin.2 root hfree)

/-- A `process_create` that allocated nothing changed nothing. -/
theorem processCreate_undone {heap : Heap} (hk : HeapInv k.heap ts) (hentry : entry ≠ null)
    (halloc : kmallocUnless failures.process processBytes k.heap = some (null, heap))
    (hrun : processCreate failures name entry k = some (null, frames, k')) :
    Undone k k' frames := by
  obtain ⟨p, heap', ts', hspec, hheap, hallocates, -⟩ :=
    kmallocUnless_spec hk failures.process processBytes
  rw [halloc] at hspec
  cases hspec
  simp only [processCreate, if_neg hentry, halloc, Option.bind_eq_bind, Option.bind_some,
    if_true] at hrun
  cases hrun
  have hlive := hk.live_of_null hheap hallocates
  refine ⟨rfl, fun _ => Iff.rfl, ?_, fun _ hf => (nomatch hf)⟩
  intro p
  rw [hlive]

/-- Over a heap that is sound, whatever fails inside it: a
`process_create` that returns `NULL` has undone all it did if and only if
it had no entry to run or could not allocate its `process_t`. -/
theorem process_create_undone_iff (hk : HeapInv k.heap ts) (failures : CreateFailures)
    (name : List Byte) (entry : Nat)
    (hrun : processCreate failures name entry k = some (null, frames, k')) :
    Undone k k' frames
      ↔ entry = null
        ∨ (kmallocUnless failures.process processBytes k.heap).map Prod.fst = some null := by
  by_cases hentry : entry = null
  · refine iff_of_true ?_ (.inl hentry)
    rw [processCreate, if_pos hentry] at hrun
    cases hrun
    exact ⟨rfl, fun _ => Iff.rfl, fun _ => Iff.rfl, fun _ hf => (nomatch hf)⟩
  obtain ⟨process, heap, ts', halloc, -⟩ := kmallocUnless_spec hk failures.process processBytes
  by_cases hprocess : process = null
  · rw [hprocess] at halloc
    refine iff_of_true (processCreate_undone hk hentry halloc hrun) (.inr ?_)
    rw [halloc]
    rfl
  · apply iff_of_false (processCreate_leaves hk hentry hprocess halloc hrun)
    rw [halloc]
    intro hcondition
    cases hcondition with
    | inl hnull => exact hentry hnull
    | inr hnull => exact hprocess (Option.some.inj hnull)

/-- A heap in the first page of its range, with a kernel root in page 1 of
sixty-four. -/
def processBootHeap : Heap :=
  { mem := fun _ => 0#8
    vm :=
      { mem := fun _ => 0#8
        pmm := (pmmInit ⟨⟨fun _ => 0#8, 0⟩, 0, 0, 0, 0⟩ [⟨0x2000, 0x3E000, .usable⟩] none).2
        hhdmOffset := 0xFFFF800000000000
        hhdmReady := true
        kernelPml4 := some 0x1000
        kernelPml4Physical := 0x1000
        activePml4Physical := 0x1000
        cr3 := 0x1000 }
    vma := [⟨heapStartAddress, heapStartAddress + 0x100000, 0⟩]
    refusals := []
    head := null, size := 0, virtualStart := 0, committedEnd := 0, heapVma := none }

/-- A kernel before its first process. -/
def processBoot : Kernel :=
  { heap := (heapInit processBootHeap).2
    sched := schedulerInit bootSched 1 0x50 0x4000
    processList := null
    nextPid := 1
    nextTaskId := 2 }

/-- The heap of the examples. -/
theorem processBootHeap_inv : HeapInv (heapInit processBootHeap).2 [⟨4064, true⟩] := by
  have hpmm : PmmInv processBootHeap.vm.pmm := pmmInit_inv (Prod.ext (by decide +kernel) rfl)
  have hdone : (heapInit processBootHeap).1 = true := by decide +kernel
  have hpair : ∀ r : Bool × Heap, r.1 = true → r = (true, r.2) := fun _ hr => Prod.ext hr rfl
  exact heapInit_inv (h := processBootHeap) hpmm (hpair (heapInit processBootHeap) hdone)

/-- The kernel of the examples. -/
theorem processBoot_heap : HeapInv processBoot.heap [⟨4064, true⟩] := by
  unfold processBoot
  dsimp only
  exact processBootHeap_inv

/-- Without a `process_t` nothing has happened. -/
theorem process_create_undone_unallocated :
    ∃ frames k', processCreate { process := true } [0x70#8] 0x100 processBoot
        = some (null, frames, k')
      ∧ Undone processBoot k' frames := by
  have hrun : ∀ k, processCreate { process := true } [0x70#8] 0x100 k = some (null, [], k) :=
    fun _ => rfl
  refine ⟨[], processBoot, hrun processBoot, ?_⟩
  exact (process_create_undone_iff processBoot_heap _ _ _ (hrun processBoot)).mpr (.inr rfl)

/-- Without a `task_t` the process has been freed and is the head of the
list. -/
theorem process_create_links_freed_process :
    ∃ frames k', processCreate { task := true } [0x70#8] 0x100 processBoot
        = some (null, frames, k')
      ∧ k'.processList = 0xFFFF900000000020
      ∧ k'.processList ∉ liveAllocations k'.heap
      ∧ ¬ Undone processBoot k' frames := by
  have hfinal : (processCreate { task := true } [0x70#8] 0x100 processBoot).map
      (fun r => (r.1, r.2.2.processList, liveAllocations r.2.2.heap))
      = some (null, 0xFFFF900000000020, []) := by
    decide +kernel
  obtain ⟨⟨result, frames, k'⟩, hrun, hvalues⟩ := Option.map_eq_some_iff.mp hfinal
  obtain ⟨rfl, hhead, hlive⟩ : result = null ∧ k'.processList = 0xFFFF900000000020
      ∧ liveAllocations k'.heap = [] := by
    injection hvalues with h₁ h₂
    injection h₂ with h₂ h₃
    exact ⟨h₁, h₂, h₃⟩
  refine ⟨frames, k', hrun, hhead, ?_, ?_⟩
  · rw [hlive]
    exact List.not_mem_nil
  · intro hundone
    have hsame := hundone.head
    rw [hhead] at hsame
    exact absurd hsame (by decide)

end ZenithOS.Proc
