/-
Runs of everything that takes page frames: the page tables, the kernel
heap, demand faults and the user pages of processes, in any order.

Besides the code's state a run records what the properties are about:
`roots`, the root tables there are; `filled`, the slots of page tables
that an operation mapped a page through and none unmapped since; and
`held`, the frames that other users of the page allocator have, who may
take any frame and give back what they took. So an allocation fails
wherever they hold all the frames. Segments are mapped below the kernel:
one over its pages would replace what it works with.
-/
import ZenithOS.Lib.Run
import ZenithOS.Proc.Memory
import ZenithOS.Vmm.DemandPaging
import ZenithOS.Vmm.Mmu

namespace ZenithOS.Proc

open Lib Mm Vmm Klib

/-- A slot of a page table. -/
abbrev Slot := Nat × Fin 512

/-- The slot for an address in the tables under `root`, as the processor
finds it. -/
def slotOf (m : Mem) (root va : Nat) : Option Slot :=
  (tableAt mmuNext (slots m) 3 root [pml4Digit va, pdptDigit va, pdDigit va]).map fun table =>
    (table, ptDigit va)

/-- The frame in a slot. -/
def slotFrame (m : Mem) (s : Slot) : Nat := pageAddress (slots m s.1 s.2)

/-- The kernel, with the roots it made, the slots it filled and the frames
others hold. -/
structure FrameSys where
  heap : Heap
  processes : Nat → Process
  roots : List Nat
  filled : List Slot
  held : List Nat

/-- The operations that take and give frames. -/
inductive FrameOp
  | pageTableCreate
  | pageTableUnmap (va : Nat)
  | heapExpand
  | vmmHandlePageFault (faultAddress errorCode : Nat)
  | processMapInitialStack (refusal : Refusal) (process : Nat)
  | processHeapExpand (refusal : Refusal) (process : Nat)
  | processMapSegment (refusals : Nat → Refusal) (process : Nat) (ph : Option ElfProgramHeader)
      (elfBase : Nat) (elf : Nat → Byte)
  /-- The fields of a process are set, `page_table` to `NULL` or to what
  `page_table_create` returned. -/
  | setProcess (process : Nat) (fields : Process)
  /-- Somebody else calls `pmm_alloc_page`, or `pmm_free_page`. -/
  | takeFrame
  | giveFrame (frame : Nat)

/-- A process gets a root there is, only held frames are given back, and
segments lie below the kernel. -/
def FrameOp.Allowed (y : FrameSys) : FrameOp → Prop
  | .setProcess _ fields => fields.pageTable = null ∨ fields.pageTable ∈ y.roots
  | .giveFrame frame => frame ∈ y.held
  | .processMapSegment _ _ ph _ _ => ∀ p ∈ ph, p.vaddr + p.memsz ≤ 2 ^ 47
  | _ => True

instance (y : FrameSys) : ∀ op : FrameOp, Decidable (op.Allowed y)
  | .setProcess .. => inferInstanceAs (Decidable (_ ∨ _))
  | .giveFrame _ => inferInstanceAs (Decidable (_ ∈ _))
  | .processMapSegment .. => inferInstanceAs (Decidable (∀ _ ∈ _, _))
  | .pageTableCreate | .pageTableUnmap _ | .heapExpand | .vmmHandlePageFault ..
  | .processMapInitialStack .. | .processHeapExpand .. | .takeFrame => isTrue trivial

/-- The page tables and the page allocator. -/
abbrev FrameSys.vm (y : FrameSys) : Vm := y.heap.vm

/-- The page tables and the page allocator move on. -/
def FrameSys.withVm (y : FrameSys) (v : Vm) : FrameSys :=
  { y with heap := { y.heap with vm := v } }

/-- The filled slots when `va` has been mapped under `root`. -/
def fillAt (m : Mem) (root : Option Nat) (filled : List Slot) (va : Nat) : List Slot :=
  match root.bind fun root => slotOf m root va with
  | none => filled
  | some slot => filled.insert slot

/-- The filled slots when the slot of `va` under `root` has been
cleared. -/
def clearAt (m : Mem) (root : Option Nat) (filled : List Slot) (va : Nat) : List Slot :=
  match root.bind fun root => slotOf m root va with
  | none => filled
  | some slot => filled.filter (· ≠ slot)

/-- The page tables and the page allocator move on, and `vas` have been
mapped under `root`. -/
def FrameSys.mapped (y : FrameSys) (v : Vm) (root : Option Nat) (vas : List Nat) : FrameSys :=
  { y.withVm v with filled := vas.foldl (fillAt v.mem root) y.filled }

/-- The root table of a process. -/
def FrameSys.processRoot (y : FrameSys) (process : Nat) : Option Nat :=
  pageTablePointer (y.processes process).pageTable

/-- One operation; `none` when the code does not come back. -/
def frameStep (y : FrameSys) : FrameOp → Option FrameSys
  | .pageTableCreate =>
      match pageTableCreate y.vm with
      | (root, v) => some { y.withVm v with roots := root.toList ++ y.roots }
  | .pageTableUnmap va =>
      match pageTableUnmap y.vm va with
      | (false, v) => some (y.withVm v)
      | (true, v) =>
          some { y.withVm v with filled := clearAt v.mem (pageTableActiveRoot v) y.filled va }
  | .heapExpand =>
      match heapExpand y.heap with
      | none => none
      | some (false, h) => some { y with heap := h }
      | some (true, h) =>
          some { y with
            heap := h
            filled := fillAt h.vm.mem (pageTableActiveRoot h.vm) y.filled y.heap.committedEnd }
  | .vmmHandlePageFault faultAddress errorCode =>
      match vmmHandlePageFault y.heap.vma faultAddress errorCode y.vm with
      | (false, v) => some (y.withVm v)
      | (true, v) => some (y.mapped v (pageTableActiveRoot v) [faultAddress])
  | .processMapInitialStack refusal process =>
      match processMapInitialStack refusal y.processes process y.vm with
      | (rc, v) =>
          if rc = kernelSuccess then
            some (y.mapped v (y.processRoot process)
              [wordSub (y.processes process).userStackTop pageSize])
          else some (y.withVm v)
  | .processHeapExpand refusal process =>
      match processHeapExpand refusal y.processes process y.vm with
      | (rc, processes, v) =>
          if rc = kernelSuccess then
            some { y.mapped v (y.processRoot process) [(y.processes process).userHeapEnd] with
              processes := processes }
          else some { y.withVm v with processes := processes }
  | .processMapSegment refusals process ph elfBase elf =>
      match processMapSegment refusals y.processes process ph elfBase elf y.vm with
      | (_, mapped, v) =>
          some (y.mapped v (y.processRoot process)
            (ph.elim [] fun ph => (List.range mapped).map (segmentPage ph)))
  | .setProcess process fields =>
      some { y with processes := Function.update y.processes process fields }
  | .takeFrame =>
      match pmmAllocPage y.vm.pmm with
      | (frame, pmm) =>
          some { y.withVm { y.vm with pmm := pmm } with
            held := if frame = null then y.held else frame :: y.held }
  | .giveFrame frame =>
      some { y.withVm { y.vm with pmm := pmmFreePage frame y.vm.pmm } with
        held := y.held.erase frame }

/-- The roots after `page_table_init`: the kernel's, when it was made, and
the boot loader's. -/
def bootRoots (v : Vm) : List Nat :=
  (pageTableInit v).kernelPml4.toList ++ (pageTableCurrentRoot v).toList

/-- The start: right after `page_table_init`, whatever the kernel heap and
the areas are. -/
def frameBoot (h : Heap) : FrameSys :=
  { heap := { h with vm := pageTableInit h.vm }
    processes := fun _ => {}
    roots := bootRoots h.vm
    filled := []
    held := [] }

end ZenithOS.Proc
