/-
User memory over whole runs.

# The invariant

`UserInv roots root k`: the user halves are in order, that of the
kernel's `root` is empty, so that new roots start with an empty one, and
each process has no root or one of its own, with a heap whose end is far
from the end of the user half. Heap ends move only when a frame is taken,
and so does the end of the kernel's heap: neither gets anywhere near the
other half (`HasSpace`, `HeapRoom`).
-/
import ZenithOS.Proc.Proofs.UserHalves
import ZenithOS.Proc.UserRun
import ZenithOS.Scheduler.Proofs.AddressSpace

namespace ZenithOS.Proc

open Lib Mm Vmm Klib Scheduler

variable {v v' : Vm} {roots : List Nat} {root r va w : Nat} {h h' : Heap} {k k' : Kernel}

-- ================================================================== new roots

/-- `page_table_create` makes a root with an empty user half. -/
theorem UserHalves.create (hv : UserHalves v roots) (hroot : root ∈ roots)
    (hactive : pageTableActiveRoot v = some root)
    (hempty : ∀ i, i.val < 256 → pageIsPresent (slots v.mem root i) = false) :
    (∃ v', pageTableCreate v = (none, v') ∧ Keeps roots root v v')
      ∨ ∃ g v', pageTableCreate v = (some g, v') ∧ g ≠ root ∧ Keeps (g :: roots) root v v' := by
  have hkernel : ∀ r, v.kernelPml4 = some r → r = root := by
    intro r hr
    rw [activeRoot_kernel hr] at hactive
    exact Option.some.inj hactive
  rcases hv.forest.pmm.alloc_cases with hnull | ⟨g, pmm, halloc, hg, hinv, hclear⟩
  · refine .inl ⟨v, ?_, Keeps.refl hv root⟩
    simp [pageTableCreate, hnull]
  obtain ⟨hgal, hgnull, -⟩ := hv.forest.pmm.clear_frame hg
  cases hvirtual : pageTablePhysicalToVirtual v.hhdmOffset g with
  | none =>
      have htotal : pmm.totalPages = v.pmm.totalPages := by
        have hkept := pmmAllocPage_totalPages v.pmm
        rw [halloc] at hkept
        exact hkept
      obtain ⟨hext, -⟩ := (hv.forest.taken_frame hg hinv hclear).giveBack hv.forest htotal
      refine .inl ⟨{ v with pmm := pmmFreePage g pmm }, ?_,
        hv.grow hext.grown (hext.paths hv.paths), rfl, hext.grown.clear, fun _ _ => rfl⟩
      simp [pageTableCreate, halloc, hgnull, hvirtual]
  | some g' =>
      obtain rfl : g = g' := by
        unfold pageTablePhysicalToVirtual at hvirtual
        split_ifs at hvirtual
        exact Option.some.inj hvirtual
      obtain ⟨m, hm, hout, hcopy, hslots, hnone⟩ :=
        hv.forest.create_memory (fun r hr => hkernel r hr ▸ hroot) hg halloc hvirtual
      obtain ⟨hgrown, hforest, hpaths⟩ := hv.forest.takeRoot hg hinv hclear hout hcopy
      have hsame : ∀ i, slots m root i = slots v.mem root i := fun i =>
        hv.forest.slots_frame hgal (hv.forest.clear_data hg) hout ⟨root, hroot, [], rfl, rfl⟩ i
      have hne : g ≠ root := by
        intro heq
        exact hv.forest.clear_data hg 0 ⟨root, hroot, [], rfl, congrArg some heq.symm⟩
      refine .inr ⟨g, _, hm, hne, ?_, rfl, fun a ha => ((hclear a).mp ha).1,
        fun i _ => hsame i⟩
      apply hv.newRoot hgrown hg hcopy hforest (hpaths hv.paths)
      intro i hi
      cases hk : v.kernelPml4 with
      | none => exact hnone hk i
      | some r =>
          show pageIsPresent (slots m g i) = false
          rw [hslots r hk i, hkernel r hk, hsame i]
          exact hempty i hi

/-- A new root has a user half of its own, or there is none. -/
theorem UserHalves.createUnless (hv : UserHalves v roots) (hroot : root ∈ roots)
    (hactive : pageTableActiveRoot v = some root)
    (hempty : ∀ i, i.val < 256 → pageIsPresent (slots v.mem root i) = false) (refuse : Bool) :
    (∃ v', pageTableCreateUnless refuse v = (none, v') ∧ Keeps roots root v v')
      ∨ ∃ g v', pageTableCreateUnless refuse v = (some g, v') ∧ g ≠ root
        ∧ Keeps (g :: roots) root v v' := by
  cases refuse with
  | true => exact .inl ⟨v, rfl, Keeps.refl hv root⟩
  | false => exact hv.create hroot hactive hempty

-- ============================================================ the kernel heap

/-- The kernel's heap stays where it is. -/
structure HeapRoom (v : Vm) (stop : Nat) : Prop where
  low : heapStartAddress ≤ stop
  high : stop + 4096 * v.pmm.freePages ≤ heapStartAddress + 4096 + 4096 * pmmBitmapMaxBits

/-- The heap lies in the kernel's half. -/
theorem HeapRoom.kernelHalf {stop : Nat} (hroom : HeapRoom v stop) : ¬ userHalf (digits stop) := by
  have hbits : pmmBitmapMaxBits = 131072 * 8 := rfl
  have hhigh := hroom.high
  intro huser
  have hdigit := huser (pml4Digit stop) rfl
  rw [pml4Digit_heap hroom.low (by omega)] at hdigit
  exact absurd hdigit (by decide)

/-- Fewer free frames leave the heap as much room. -/
theorem HeapRoom.fewer {stop : Nat} (hroom : HeapRoom v stop)
    (hfew : v'.pmm.freePages ≤ v.pmm.freePages) : HeapRoom v' stop := by
  have hhigh := hroom.high
  exact ⟨hroom.low, by omega⟩

/-- What is mapped in the kernel half, a user half does not see. -/
theorem mmuLeaf_elsewhere (hlocal : Local roots root va v v') (hpaths : PathsAlike v.mem roots)
    (hroot : root ∈ roots) (hr : r ∈ roots) (hva : ¬ userHalf (digits va))
    (hw : userHalf (digits w)) : mmuLeaf v'.mem r w = mmuLeaf v.mem r w := by
  have hoff : (digits w).head? ≠ some (pml4Digit va) := by
    intro hhead
    exact hva fun i hi => hw i (hhead.trans hi)
  show leafAt 3 (hwTrail v'.mem r (digits w)) = leafAt 3 (hwTrail v.mem r (digits w))
  rw [(hlocal.off hpaths hroot hr hoff).2]

/-- A heap page is mapped. -/
theorem UserHalves.mapsFrame (hv : UserHalves v roots) (hroot : root ∈ roots)
    (hmaps : MapsFrame roots va v v') (hlocal : Local roots root va v v')
    (hva : ¬ userHalf (digits va)) :
    Keeps roots root v v' ∧ v'.pmm.freePages < v.pmm.freePages := by
  obtain ⟨g, r, v₁, table, hr, hrr, htaken, htable, rfl⟩ := hmaps
  have hbelow : TableBelow v₁.mem roots 3 table := ⟨r, hrr, tablePath va, rfl, htable⟩
  have hforest₁ := htaken.grown.forest
  obtain ⟨hforest, hwalk, -⟩ := hforest₁.write_page
    (hforest₁.writesSlot (i := ptDigit va) hbelow (mapEntry g pageWritable)) hbelow
  have hdata : ∀ a, DataFrame v roots a →
      DataFrame (setPageEntry v₁ table (ptDigit va) (mapEntry g pageWritable)) roots a := by
    intro a ha
    have ha' := ha.grow htaken.grown
    exact ⟨ha'.1, fun n hf => ha'.2 n ((tableBelow_congr hwalk).mp hf)⟩
  refine ⟨⟨hv.elsewhere hforest ((htaken.paths hv.paths).congr hwalk) hroot hlocal hva hdata, ?_,
    htaken.grown.clear, ?_⟩, ?_⟩
  · rw [htaken.grown.config]
    rfl
  · exact fun i hi => hlocal.kernel hv.paths hroot hroot (fun _ => hva) hi
  · exact freePages_lt hv.forest.pmm hforest₁.pmm htaken.grown.clear htaken.clear htaken.used

/-- What a use of the kernel's heap keeps. -/
structure HeapKeeps (roots : List Nat) (root : Nat) (v₀ v : Vm) (stop : Nat) : Prop where
  keeps : Keeps roots root v₀ v
  leaf : ∀ r ∈ roots, ∀ w, userHalf (digits w) → mmuLeaf v.mem r w = mmuLeaf v₀.mem r w
  room : HeapRoom v stop

/-- Growth of the heap keeps the user halves. -/
theorem HeapKeeps.expand {v₀ : Vm} {done : Bool} (hroot : root ∈ roots)
    (hactive : pageTableActiveRoot v₀ = some root)
    (hkeeps : HeapKeeps roots root v₀ h.vm h.committedEnd)
    (hrun : heapExpand h = some (done, h')) :
    HeapKeeps roots root v₀ h'.vm h'.committedEnd := by
  have hv := hkeeps.keeps.halves
  have hva := hkeeps.room.kernelHalf
  have hactive' : pageTableActiveRoot h.vm = some root :=
    (activeRoot_config hkeeps.keeps.config).trans hactive
  have hlocal := heapExpand_local hv.forest hv.paths hactive' hroot hrun
  have hleaf : ∀ r ∈ roots, ∀ w, userHalf (digits w) →
      mmuLeaf h'.vm.mem r w = mmuLeaf v₀.mem r w := by
    intro r hr w hw
    rw [mmuLeaf_elsewhere hlocal hv.paths hroot hr hva hw]
    exact hkeeps.leaf r hr w hw
  have hroots : ∀ r, pageTableActiveRoot h.vm = some r → r ∈ roots := by
    intro r hr
    exact Option.some.inj (hactive'.symm.trans hr) ▸ hroot
  rcases heapExpand_maps hv.forest hroots hrun with ⟨-, hrefused⟩ | ⟨-, hend, hmaps⟩
  · rcases hrefused with ⟨-, rfl⟩ | ⟨-, hend, ⟨-, hvm⟩ | ⟨-, -, g, htaken⟩⟩
    · exact hkeeps
    · rw [hend, hvm]
      exact hkeeps
    · have hkeeps' : Keeps roots root h.vm h'.vm :=
        ⟨hv.grow htaken.grown (htaken.paths hv.paths), htaken.grown.config, htaken.grown.clear,
          fun i hi => hlocal.kernel hv.paths hroot hroot (fun _ => hva) hi⟩
      rw [hend]
      exact ⟨hkeeps.keeps.trans hkeeps', hleaf, hkeeps.room.fewer (hkeeps'.few hv)⟩
  · obtain ⟨hkeeps', hfewer⟩ := hv.mapsFrame hroot hmaps hlocal hva
    have hlow := hkeeps.room.low
    have hhigh := hkeeps.room.high
    have hstart : heapStartAddress = 0xFFFF900000000000 := rfl
    have hbits : pmmBitmapMaxBits = 131072 * 8 := rfl
    have hadd : wordAdd h.committedEnd pageSize = h.committedEnd + 4096 :=
      wordAdd_eq (by show h.committedEnd + 4096 < 2 ^ 64; omega)
    refine ⟨hkeeps.keeps.trans hkeeps', hleaf, ?_⟩
    rw [hend, hadd]
    exact ⟨by omega, by omega⟩

/-- `kmalloc`, on whatever is in the heap. -/
theorem UserHalves.kmalloc (hv : UserHalves h.vm roots) (hroot : root ∈ roots)
    (hactive : pageTableActiveRoot h.vm = some root) (hroom : HeapRoom h.vm h.committedEnd)
    {refuse : Bool} {size p : Nat} (hrun : kmallocUnless refuse size h = some (p, h')) :
    HeapKeeps roots root h.vm h'.vm h'.committedEnd := by
  refine kmallocUnless_carries (Q := HeapKeeps roots root h.vm) ?_
    ⟨Keeps.refl hv root, fun _ _ _ _ => rfl, hroom⟩ hrun
  intro h₁ h₂ done hkeeps hexpand
  exact hkeeps.expand hroot hactive hexpand

-- ============================================================ the invariant

/-- A process without a root, or with one of its own. With `free` pages
its heap ends below `userHeapBase + 2 ^ 32`. -/
def HasSpace (roots : List Nat) (root free : Nat) (process : Process) : Prop :=
  process.pageTable = null
    ∨ process.pageTable ∈ roots ∧ process.pageTable ≠ root
      ∧ process.userStackTop = Proc.userStackTop
      ∧ process.userHeapCurrent = process.userHeapEnd
      ∧ process.userHeapEnd + 4096 * free ≤ userHeapBase + 4096 * pmmBitmapMaxBits

/-- What `HasSpace` reads. -/
def spaceFields (process : Process) : Nat × Nat × Nat × Nat :=
  (process.pageTable, process.userStackTop, process.userHeapEnd, process.userHeapCurrent)

/-- Only the fields of the address space matter. -/
theorem HasSpace.congr {free : Nat} {process process' : Process}
    (hp : HasSpace roots root free process)
    (hfields : spaceFields process' = spaceFields process) : HasSpace roots root free process' := by
  simp only [spaceFields, Prod.mk.injEq] at hfields
  obtain ⟨htable, hstack, hend, hcurrent⟩ := hfields
  unfold HasSpace
  rw [htable, hstack, hend, hcurrent]
  exact hp

/-- Fewer free frames leave a process as much room. -/
theorem HasSpace.fewer {free free' : Nat} {process : Process}
    (hp : HasSpace roots root free process)
    (hfew : free' ≤ free) : HasSpace roots root free' process := by
  rcases hp with hnull | ⟨hmem, hne, hstack, hcurrent, hend⟩
  · exact .inl hnull
  · exact .inr ⟨hmem, hne, hstack, hcurrent, by omega⟩

/-- A process keeps its root when there are more. -/
theorem HasSpace.moreRoots {free g : Nat} {process : Process}
    (hp : HasSpace roots root free process) : HasSpace (g :: roots) root free process := by
  rcases hp with hnull | ⟨hmem, hrest⟩
  · exact .inl hnull
  · exact .inr ⟨List.mem_cons_of_mem g hmem, hrest⟩

/-- What every run of the calls on processes keeps. -/
structure UserInv (roots : List Nat) (root : Nat) (k : Kernel) : Prop where
  halves : UserHalves k.heap.vm roots
  kernel : root ∈ roots
  active : pageTableActiveRoot k.heap.vm = some root
  empty : ∀ i, i.val < 256 → pageIsPresent (slots k.heap.vm.mem root i) = false
  room : HeapRoom k.heap.vm k.heap.committedEnd
  spaces : ∀ p, HasSpace roots root k.heap.vm.pmm.freePages (k.process p)

/-- Where a process has a root, it is its own. -/
theorem UserInv.processRoot (hk : UserInv roots root k) {p : Nat}
    (hr : pageTablePointer (k.process p).pageTable = some r) :
    r ∈ roots ∧ r ≠ root ∧ (k.process p).pageTable = r
      ∧ (k.process p).userStackTop = Proc.userStackTop
      ∧ (k.process p).userHeapCurrent = (k.process p).userHeapEnd
      ∧ (k.process p).userHeapEnd + 4096 * k.vm.pmm.freePages
        ≤ userHeapBase + 4096 * pmmBitmapMaxBits := by
  unfold pageTablePointer at hr
  split_ifs at hr with hnull
  obtain rfl : (k.process p).pageTable = r := Option.some.inj hr
  rcases hk.spaces p with hbad | ⟨hmem, hne, hstack, hcurrent, hend⟩
  · exact absurd hbad hnull
  · exact ⟨hmem, hne, rfl, hstack, hcurrent, hend⟩

/-- The heap and the page tables move on. -/
theorem UserInv.step_heap (hk : UserInv roots root k) (hkeeps : Keeps roots root k.heap.vm h.vm)
    (hroom : HeapRoom h.vm h.committedEnd) : UserInv roots root { k with heap := h } := by
  refine ⟨hkeeps.halves, hk.kernel, (activeRoot_config hkeeps.config).trans hk.active, ?_, hroom,
    fun p => (hk.spaces p).fewer (hkeeps.few hk.halves)⟩
  intro i hi
  show pageIsPresent (slots h.vm.mem root i) = false
  rw [hkeeps.kernel i hi]
  exact hk.empty i hi

/-- The page tables move on. -/
theorem UserInv.withVm (hk : UserInv roots root k) (hkeeps : Keeps roots root k.vm v) :
    UserInv roots root (k.withVm v) :=
  hk.step_heap hkeeps (hk.room.fewer (hkeeps.few hk.halves))

/-- Nothing the invariant reads differs. -/
theorem UserInv.congr (hk : UserInv roots root k) (hvm : k'.heap.vm = k.heap.vm)
    (hend : k'.heap.committedEnd = k.heap.committedEnd)
    (hfields : ∀ p, spaceFields (k'.process p) = spaceFields (k.process p)) :
    UserInv roots root k' := by
  refine ⟨?_, hk.kernel, ?_, ?_, ?_, ?_⟩
  · rw [hvm]
    exact hk.halves
  · rw [hvm]
    exact hk.active
  · rw [hvm]
    exact hk.empty
  · rw [hvm, hend]
    exact hk.room
  · intro p
    rw [hvm]
    exact (hk.spaces p).congr (hfields p)

/-- `kfree` keeps the invariant. -/
theorem UserInv.kfree (hk : UserInv roots root k) (p : Nat) : UserInv roots root (k.kfree p) := by
  refine hk.congr (Mm.kfree_vm p k.heap) ?_ fun _ => rfl
  show (Mm.kfree p k.heap).committedEnd = k.heap.committedEnd
  unfold Mm.kfree
  split_ifs
  · rfl
  · rfl

/-- A process gets an address space of its own. -/
theorem UserInv.setProcess (hk : UserInv roots root k) {p : Nat} {process : Process}
    (hp : HasSpace roots root k.vm.pmm.freePages process) :
    UserInv roots root (k.setProcess p process) := by
  refine ⟨hk.halves, hk.kernel, hk.active, hk.empty, hk.room, ?_⟩
  intro q
  show HasSpace roots root k.vm.pmm.freePages (Function.update k.sched.processes p process q)
  by_cases heq : q = p
  · rw [heq, Function.update_self]
    exact hp
  · rw [Function.update_of_ne heq]
    exact hk.spaces q

/-- Fields of a process that have nothing to do with its memory. -/
theorem UserInv.setFields (hk : UserInv roots root k) {p : Nat} {process : Process}
    (hfields : spaceFields process = spaceFields (k.process p)) :
    UserInv roots root (k.setProcess p process) :=
  hk.setProcess ((hk.spaces p).congr hfields)

/-- `kmalloc` keeps the invariant. -/
theorem UserInv.kmalloc (hk : UserInv roots root k) {refuse : Bool} {size p : Nat}
    (hrun : kmallocUnless refuse size k.heap = some (p, h)) :
    UserInv roots root { k with heap := h } := by
  have hkeeps := hk.halves.kmalloc hk.kernel hk.active hk.room hrun
  exact hk.step_heap hkeeps.keeps hkeeps.room

-- ================================================================ the calls

/-- The process has one page more on its heap. -/
def heapGrown (process : Process) : Process :=
  { process with
    userHeapEnd := wordAdd process.userHeapEnd pageSize
    userHeapCurrent := wordAdd process.userHeapEnd pageSize }

/-- `process_heap_expand`: no page, and the fields as they were; or a new
page at the end of the heap. -/
theorem UserInv.heapExpanded_cases (hk : UserInv roots root k) (refusal : Refusal) (p : Nat) :
    (∃ rc v', k.heapExpanded refusal p = (rc, k.withVm v') ∧ rc ≠ kernelSuccess
        ∧ Keeps roots root k.vm v'
        ∧ ∀ r, pageTablePointer (k.process p).pageTable = some r →
          Extended roots k.vm v' ∧ Local roots r (k.process p).userHeapEnd k.vm v')
      ∨ ∃ r g v', pageTablePointer (k.process p).pageTable = some r
        ∧ k.heapExpanded refusal p
          = (kernelSuccess, (k.setProcess p (heapGrown (k.process p))).withVm v')
        ∧ Keeps roots root k.vm v' ∧ NewPage roots r (k.process p).userHeapEnd g true k.vm v'
        ∧ Local roots r (k.process p).userHeapEnd k.vm v' := by
  unfold Kernel.heapExpanded processHeapExpand
  by_cases hnull : p = null
  · rw [if_pos hnull]
    refine .inl ⟨kernelEinval, k.vm, rfl, einval_ne, Keeps.refl hk.halves root, ?_⟩
    exact fun r _ => ⟨Extended.refl hk.halves.forest, Local.refl roots r _ k.vm⟩
  rw [if_neg hnull]
  dsimp only
  cases hroot : pageTablePointer (k.process p).pageTable with
  | none =>
      obtain ⟨page, v', hrun, hkeeps, hpage⟩ := hk.halves.mapNewPage_keeps hk.kernel
        none (fun r hr => (nomatch hr)) refusal (k.process p).userHeapEnd true
      cases page with
      | none =>
          rw [hrun]
          exact .inl ⟨kernelEnomem, v', rfl, enomem_ne, hkeeps, fun r hr => (nomatch hr)⟩
      | some g =>
          obtain ⟨r, hbad, -⟩ := hpage g rfl
          cases hbad
  | some r =>
      obtain ⟨hr, hne, -⟩ := hk.processRoot hroot
      have hlocal := mapNewPage_local hk.halves.forest hk.halves.paths hr refusal
        (k.process p).userHeapEnd true
      rcases hk.halves.mapNewPage hk.kernel hr refusal (k.process p).userHeapEnd
          (fun heq => absurd heq hne) true with
        ⟨v', hnone, hkeeps, hext⟩ | ⟨g, v', hsome, hkeeps, hpage⟩
      · rw [hnone] at hlocal
        have hnone' : mapNewPage refusal (some r) (k.sched.processes p).userHeapEnd true k.vm
            = (none, v') := hnone
        rw [hnone']
        refine .inl ⟨kernelEnomem, v', rfl, enomem_ne, hkeeps, ?_⟩
        intro r' hr'
        obtain rfl : r = r' := Option.some.inj hr'
        exact ⟨hext, hlocal⟩
      · rw [hsome] at hlocal
        have hsome' : mapNewPage refusal (some r) (k.sched.processes p).userHeapEnd true k.vm
            = (some g, v') := hsome
        rw [hsome']
        exact .inr ⟨r, g, v', rfl, rfl, hkeeps, hpage, hlocal⟩

/-- With a page fewer the heap may end a page later. -/
theorem HasSpace.grow {free free' : Nat} {process : Process}
    (hp : HasSpace roots root free process) (hfew : free' < free) :
    HasSpace roots root free' (heapGrown process) := by
  unfold HasSpace heapGrown
  dsimp only
  rcases hp with hnull | ⟨hmem, hne, hstack, hcurrent, hend⟩
  · exact .inl hnull
  · have hbase : userHeapBase = 0x800000 := rfl
    have hbits : pmmBitmapMaxBits = 131072 * 8 := rfl
    have hadd : wordAdd process.userHeapEnd pageSize = process.userHeapEnd + 4096 :=
      wordAdd_eq (by show process.userHeapEnd + 4096 < 2 ^ 64; omega)
    rw [hadd]
    exact .inr ⟨hmem, hne, hstack, rfl, by omega⟩

/-- A new page takes a frame. -/
theorem NewPage.fewer {g : Nat} {wr : Bool} (hpage : NewPage roots r va g wr v v')
    (hkeeps : Keeps roots root v v') (hv : UserHalves v roots) :
    v'.pmm.freePages < v.pmm.freePages :=
  freePages_lt hv.forest.pmm hkeeps.halves.forest.pmm hkeeps.clear hpage.clear hpage.data.1

/-- `process_heap_expand` keeps the invariant. -/
theorem UserInv.heapExpanded (hk : UserInv roots root k) (refusal : Refusal) (p : Nat) :
    UserInv roots root (k.heapExpanded refusal p).2 := by
  rcases hk.heapExpanded_cases refusal p with
    ⟨rc, v', hrun, -, hkeeps, -⟩ | ⟨r, g, v', -, hrun, hkeeps, hpage, -⟩
  · rw [hrun]
    exact hk.withVm hkeeps
  · rw [hrun]
    have hfewer := hpage.fewer hkeeps hk.halves
    exact (hk.withVm hkeeps).setProcess ((hk.spaces p).grow hfewer)

section Create

variable {failures : CreateFailures} {name : List Byte} {entry process result : Nat}
  {frames : List Nat}

/-- `task_create` keeps the invariant. -/
theorem UserInv.taskCreate (hk : UserInv roots root k) {refuseTask refuseStack : Bool}
    {task : Option (Nat × TaskPtr)}
    (hrun : Proc.taskCreate refuseTask refuseStack entry k = some (task, k')) :
    UserInv roots root k' := by
  rw [Proc.taskCreate] at hrun
  split_ifs at hrun
  · cases hrun
    exact hk
  obtain ⟨⟨address, heap⟩, halloc, hrun⟩ := Option.bind_eq_some_iff.mp hrun
  have hk₁ := hk.kmalloc halloc
  dsimp only at hrun
  split_ifs at hrun
  · cases hrun
    exact hk₁
  obtain ⟨⟨stack, heap'⟩, halloc', hrun⟩ := Option.bind_eq_some_iff.mp hrun
  have hk₂ := hk₁.kmalloc halloc'
  dsimp only at hrun
  split_ifs at hrun
  · cases hrun
    exact hk₂.kfree address
  · cases hrun
    exact hk₂.congr rfl rfl fun _ => rfl

/-- The last part of `process_create` keeps the invariant. -/
theorem UserInv.start (hk : UserInv roots root k)
    (hrun : processStart failures name entry process k = some (result, k')) :
    UserInv roots root k' := by
  obtain ⟨⟨task, k₁⟩, htask, hrun⟩ := Option.bind_eq_some_iff.mp hrun
  have hlink : UserInv roots root (processLink name process k) := by
    have hfields : UserInv roots root (k.setProcess process { k.process process with
        next := k.processList
        name := kStrcpy (List.replicate 64 0#8) name }) := hk.setFields rfl
    exact hfields.congr rfl rfl fun _ => rfl
  have hk₁ := hlink.taskCreate htask
  cases task with
  | none =>
      cases hrun
      exact hk₁.kfree process
  | some task =>
      obtain ⟨address, t⟩ := task
      obtain ⟨sched, hadd, hrun⟩ := Option.bind_eq_some_iff.mp hrun
      cases hrun
      have hattach : UserInv roots root (processAttach process address t k₁) := by
        have hfields : UserInv roots root (k₁.setProcess process { k₁.process process with
            mainThread := address, threadList := address }) := hk₁.setFields rfl
        exact hfields.congr rfl rfl fun _ => rfl
      have hsame : sched.processes = (processAttach process address t k₁).sched.processes :=
        (congrArg Sched.processes (setState_kept.trans (readyPush_kept hadd)) :)
      refine hattach.congr rfl rfl ?_
      intro p
      exact congrArg (fun processes => spaceFields (processes p)) hsame

/-- `process_map_initial_stack` keeps the user halves. -/
theorem UserInv.initialStack (hk : UserInv roots root k) (refusal : Refusal) (p : Nat) :
    ∃ rc v, processMapInitialStack refusal k.sched.processes p k.vm = (rc, v)
      ∧ Keeps roots root k.vm v := by
  unfold processMapInitialStack
  split_ifs
  · exact ⟨kernelEinval, k.vm, rfl, Keeps.refl hk.halves root⟩
  · obtain ⟨page, v, hrun, hkeeps, -⟩ := hk.halves.mapNewPage_keeps hk.kernel
      (pageTablePointer (k.sched.processes p).pageTable)
      (fun r hr => ⟨(hk.processRoot hr).1, (hk.processRoot hr).2.1⟩) refusal
      (wordSub (k.sched.processes p).userStackTop pageSize) true
    dsimp only
    rw [hrun]
    cases page with
    | none => exact ⟨kernelEnomem, v, rfl, hkeeps⟩
    | some g => exact ⟨kernelSuccess, v, rfl, hkeeps⟩

/-- A process with a root of its own, and nothing else yet, gets its
pages. -/
theorem UserInv.mapPages (hk : UserInv roots root k) {g : Nat} (hg : g ∈ roots) (hne : g ≠ root)
    (hfresh : (k.process process).userHeapEnd = 0 ∧ (k.process process).userHeapCurrent = 0)
    (hrun : processMapPages failures name entry process g k = some (result, frames, k')) :
    UserInv roots root k' := by
  have hbound : k.vm.pmm.freePages ≤ pmmBitmapMaxBits := hk.halves.forest.pmm.freePages_le
  have hrooted : UserInv roots root (processRooted process g k) := by
    refine hk.setProcess (.inr ⟨hg, hne, rfl, ?_, ?_⟩)
    · exact hfresh.2.trans hfresh.1.symm
    · show (k.process process).userHeapEnd + _ ≤ _
      rw [hfresh.1]
      omega
  obtain ⟨rc, v, hstack, hkeeps⟩ := hrooted.initialStack failures.stack process
  have hk₁ := hrooted.withVm hkeeps
  rw [processMapPages] at hrun
  simp only [hstack] at hrun
  by_cases hrc : rc ≠ kernelSuccess
  · rw [if_pos hrc] at hrun
    cases hrun
    exact hk₁.kfree process
  rw [if_neg hrc] at hrun
  have hheaped : UserInv roots root
      (processHeaped process ((processRooted process g k).withVm v)) := by
    have hfields : ((processRooted process g k).withVm v).process process
        = (processRooted process g k).process process := rfl
    have hself : (processRooted process g k).process process = { k.process process with
        pageTable := g
        pageTablePhysical := g
        userStackTop := userStackTop
        userStackBottom := userStackTop - userStackSize } := Function.update_self ..
    have hbound' := hk₁.halves.forest.pmm.freePages_le
    apply hk₁.setProcess
    rw [hfields, hself]
    refine .inr ⟨hg, hne, rfl, rfl, ?_⟩
    exact Nat.add_le_add_left (Nat.mul_le_mul_left 4096 hbound') userHeapBase
  have hk₂ := hheaped.heapExpanded failures.heap process
  unfold Kernel.heapExpanded at hk₂
  cases hexpand : processHeapExpand failures.heap
      (processHeaped process ((processRooted process g k).withVm v)).sched.processes process
      (processHeaped process ((processRooted process g k).withVm v)).vm with
  | mk rc₂ rest =>
      obtain ⟨processes, v₂⟩ := rest
      rw [hexpand] at hk₂
      simp only [hexpand] at hrun
      split_ifs at hrun
      · cases hrun
        exact hk₂.kfree process
      · obtain ⟨⟨result', k₁⟩, hstart, heq⟩ := Option.map_eq_some_iff.mp hrun
        cases heq
        exact hk₂.start hstart

/-- `process_create` may add a root. -/
theorem UserInv.create (hk : UserInv roots root k)
    (hrun : processCreate failures name entry k = some (result, frames, k')) :
    ∃ roots', UserInv roots' root k' := by
  by_cases hentry : entry = null
  · rw [processCreate, if_pos hentry] at hrun
    cases hrun
    exact ⟨roots, hk⟩
  have hrun' := hrun
  rw [processCreate, if_neg hentry] at hrun'
  obtain ⟨⟨process, heap⟩, halloc, hrun'⟩ := Option.bind_eq_some_iff.mp hrun'
  have hk₁ := hk.kmalloc halloc
  by_cases hnull : process = null
  · dsimp only at hrun'
    rw [if_pos hnull] at hrun'
    cases hrun'
    exact ⟨roots, hk₁⟩
  have hk₂ : UserInv roots root (processZeroed process { k with heap := heap }) := by
    have hzeroed : UserInv roots root (({ k with heap := heap } : Kernel).setProcess process
        { pid := k.nextPid }) := hk₁.setProcess (.inl rfl)
    exact hzeroed.congr rfl rfl fun _ => rfl
  rcases hk₁.halves.createUnless hk₁.kernel hk₁.active hk₁.empty failures.root with
    ⟨v, hnone, hkeeps⟩ | ⟨g, v, hsome, hne, hkeeps⟩
  · rcases processCreate_allocated hentry hnull halloc hrun with
      ⟨v', -, hroot, rfl⟩ | ⟨g, v', pages, hroot, -⟩
    · obtain rfl : v = v' := congrArg Prod.snd (hnone.symm.trans hroot)
      exact ⟨roots, hk₂.withVm hkeeps⟩
    · cases hnone.symm.trans hroot
  · rcases processCreate_allocated hentry hnull halloc hrun with
      ⟨v', -, hroot, -⟩ | ⟨g', v', pages, hroot, -, hpages⟩
    · cases hsome.symm.trans hroot
    · cases hsome.symm.trans hroot
      have hmore : UserInv (g :: roots) root
          ((processZeroed process { k with heap := heap }).withVm v) := by
        have hfew := freePages_le hk₁.halves.forest.pmm hkeeps.halves.forest.pmm hkeeps.clear
        refine ⟨hkeeps.halves, List.mem_cons_of_mem g hk.kernel,
          (activeRoot_config hkeeps.config).trans hk₁.active, ?_, hk₁.room.fewer hfew,
          fun p => ((hk₂.spaces p).fewer hfew).moreRoots⟩
        intro i hi
        show pageIsPresent (slots v.mem root i) = false
        rw [hkeeps.kernel i hi]
        exact hk₁.empty i hi
      have hself : ((processZeroed process { k with heap := heap }).withVm v).process process
          = { pid := k.nextPid } := Function.update_self ..
      refine ⟨g :: roots, hmore.mapPages List.mem_cons_self hne ?_ hpages⟩
      rw [hself]
      exact ⟨rfl, rfl⟩

end Create

section Exec

variable {failures : ExecFailures} {process base : Nat} {elf : Nat → Byte} {rc : Int}

/-- Loading an image is one use of the kernel's heap. -/
theorem UserInv.loadImage (hk : UserInv roots root k) {refuse : Bool} {image : ElfImage}
    (hrun : elfLoadImage refuse base elf k.heap = some (rc, image, h)) :
    HeapKeeps roots root k.vm h.vm h.committedEnd
      ∧ (rc = kernelSuccess → image.entry = (elfHeader elf).entry) := by
  have hsame : HeapKeeps roots root k.vm k.vm k.heap.committedEnd :=
    ⟨Keeps.refl hk.halves root, fun _ _ _ _ => rfl, hk.room⟩
  rcases elfLoadImage_cases hrun with ⟨-, rfl, rfl⟩ | ⟨-, -, ⟨-, -, rfl, rfl⟩ |
    ⟨-, block, h₁, halloc, rfl, hblock⟩⟩
  · exact ⟨hsame, fun hok => absurd hok einval_ne⟩
  · exact ⟨hsame, fun _ => rfl⟩
  · have hkeeps := hk.halves.kmalloc hk.kernel hk.active hk.room halloc
    rcases hblock with ⟨-, -, rfl⟩ | ⟨-, -, rfl⟩
    · exact ⟨hkeeps, fun _ => rfl⟩
    · exact ⟨hkeeps, fun _ => rfl⟩

/-- A program has been loaded: after a use of the kernel's heap all pages
of its segments have been mapped, and the process is to start at its
entry. -/
def ExecLoads (roots : List Nat) (root process base : Nat) (elf : Nat → Byte) (k k' : Kernel) :
    Prop :=
  ∃ r v stop, pageTablePointer (k.process process).pageTable = some r
    ∧ HeapKeeps roots root k.vm v stop
    ∧ Loads r ((loadSegments base elf).flatMap segmentPages) v k'.vm
    ∧ (k'.process process).userRip = (elfHeader elf).entry
    ∧ (k'.process process).userRsp = wordSub (k.process process).userStackTop 8
    ∧ (k'.process process).pageTable = (k.process process).pageTable

/-- `process_exec` keeps the invariant, and after a success the image is
loaded. -/
theorem UserInv.exec (hk : UserInv roots root k)
    (hrun : processExec failures process base elf k = some (rc, k')) :
    UserInv roots root k'
      ∧ (rc = kernelSuccess → ExecLoads roots root process base elf k k') := by
  rcases processExec_cases hrun with ⟨-, rfl, rfl⟩ | ⟨-, -, status, image, heap, hload, hrest⟩
  · exact ⟨hk, fun hok => absurd hok einval_ne⟩
  obtain ⟨hheap, hentry⟩ := hk.loadImage hload
  have hk₁ := hk.step_heap hheap.keeps hheap.room
  rcases hrest with ⟨hstatus, rfl, rfl⟩ | ⟨hstatus, rc', v, hmap, -, -, -, hend⟩
  · exact ⟨hk₁, fun hok => absurd hok hstatus⟩
  obtain ⟨rc'', v', hmap', hkeeps, hloads⟩ := hk₁.halves.segments hk₁.kernel
    k.sched.processes process base
    (fun r hr => ⟨(hk.processRoot hr).1, (hk.processRoot hr).2.1⟩) failures.pages elf 0
    (loadSegments base elf)
  obtain ⟨rfl, rfl⟩ : rc' = rc'' ∧ v = v' := Prod.mk.inj (hmap.symm.trans hmap')
  have hk₂ := hk₁.withVm hkeeps
  have hk₃ : UserInv roots root
      (execLoaded process image (({ k with heap := heap } : Kernel).withVm v)) :=
    hk₂.setFields (by simp only [spaceFields])
  cases hend with
  | stopped hmapped => exact ⟨hk₂, fun hok => absurd hok hmapped⟩
  | noEntry => exact ⟨hk₃, fun hok => absurd hok einval_ne⟩
  | started hmapped hsome =>
      refine ⟨hk₃.setFields (by simp only [spaceFields]), fun _ => ?_⟩
      obtain ⟨r, hroot⟩ := Option.ne_none_iff_exists'.mp hsome
      have hloaded := execLoaded_process process image (({ k with heap := heap } : Kernel).withVm v)
      have hstarted := execStarted_process process
        (execLoaded process image (({ k with heap := heap } : Kernel).withVm v))
      refine ⟨r, heap.vm, heap.committedEnd, hroot, hheap, hloads r hroot hmapped, ?_, ?_, ?_⟩
      · rw [hstarted, hloaded]
        exact hentry hstatus
      · rw [hstarted, hloaded]
        rfl
      · rw [hstarted, hloaded]
        rfl

end Exec

-- ==================================================================== runs

variable {y y' : UserSys}

/-- Every call keeps the invariant, perhaps with a root more. -/
theorem UserInv.step (hk : UserInv roots root y.kernel) {op : UserOp}
    (hstep : userStep y op = some y') : ∃ roots', UserInv roots' root y'.kernel := by
  cases op with
  | processCreate failures name entry =>
      obtain ⟨⟨result, frames, k₁⟩, hrun, rfl⟩ := Option.map_eq_some_iff.mp hstep
      exact hk.create hrun
  | processExec failures process base elf =>
      obtain ⟨⟨rc, k₁⟩, hrun, rfl⟩ := Option.map_eq_some_iff.mp hstep
      exact ⟨roots, (hk.exec hrun).1⟩
  | processHeapExpand refusal process =>
      cases hstep
      exact ⟨roots, hk.heapExpanded refusal process⟩
  | kmalloc refuse size =>
      obtain ⟨⟨p, heap⟩, hrun, rfl⟩ := Option.map_eq_some_iff.mp hstep
      exact ⟨roots, hk.kmalloc hrun⟩
  | kfree pointer =>
      cases hstep
      exact ⟨roots, hk.kfree pointer⟩

end ZenithOS.Proc
