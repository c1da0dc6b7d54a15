/-
Runs of what decides over user memory: processes are made, run programs
and get larger heaps, while the rest of the kernel uses its own heap. Any
call may fail.

Beside the kernel a run records `live`, the `process_t` objects that
`process_create` returned, and `owned`, the blocks that somebody else has
from `kmalloc`. Each caller uses what is its own.

A `process_t` is a block of the kernel's heap, and the code copies names
and images without looking at their sizes: one that is too large may end
in a process, as may a segment that is mapped over the kernel's pages.
`UserOp.Allowed` leaves these out.
-/
import ZenithOS.Lib.Run
import ZenithOS.Proc.Exec

namespace ZenithOS.Proc

open Lib Mm Vmm Klib

/-- `process_heap_expand` in the kernel's state. -/
def Kernel.heapExpanded (refusal : Refusal) (process : Nat) (k : Kernel) : Int × Kernel :=
  match processHeapExpand refusal k.sched.processes process k.vm with
  | (rc, processes, v) => (rc, (k.withProcesses processes).withVm v)

/-- The kernel, with the live processes and the heap blocks that others own.
-/
structure UserSys where
  kernel : Kernel
  live : List Nat
  owned : List Nat

/-- The calls on processes, and other uses of the heap. -/
inductive UserOp
  | processCreate (failures : CreateFailures) (name : List Byte) (entry : Nat)
  | processExec (failures : ExecFailures) (process base : Nat) (elf : Nat → Byte)
  | processHeapExpand (refusal : Refusal) (process : Nat)
  /-- Somebody else in the kernel. -/
  | kmalloc (refuse : Bool) (size : Nat)
  | kfree (pointer : Nat)

/-- Names and images fit, images lie below the kernel, and callers name live
processes and free what they own. -/
def UserOp.Allowed (y : UserSys) : UserOp → Prop
  | .processCreate _ name _ => (cString name).length ≤ 63
  | .processExec _ process base elf =>
      (process = null ∨ process ∈ y.live) ∧ ∀ ph ∈ loadSegments base elf, UserSegment ph
  | .processHeapExpand _ process => process = null ∨ process ∈ y.live
  | .kmalloc .. => True
  | .kfree pointer => pointer = null ∨ pointer ∈ y.owned

instance UserOp.decidableAllowed (y : UserSys) : ∀ op : UserOp, Decidable (op.Allowed y)
  | .processCreate .. => inferInstanceAs (Decidable (_ ≤ _))
  | .processExec .. => inferInstanceAs (Decidable ((_ ∨ _) ∧ ∀ _ ∈ _, _))
  | .processHeapExpand .. | .kfree _ => inferInstanceAs (Decidable (_ ∨ _))
  | .kmalloc .. => isTrue trivial

/-- One call; `none` when the code does not come back. -/
def userStep (y : UserSys) : UserOp → Option UserSys
  | .processCreate failures name entry =>
      (processCreate failures name entry y.kernel).map fun (process, _, k) =>
        { y with
          kernel := k
          live := if process = null then y.live else process :: y.live }
  | .processExec failures process base elf =>
      (processExec failures process base elf y.kernel).map fun (_, k) => { y with kernel := k }
  | .processHeapExpand refusal process =>
      some { y with kernel := (y.kernel.heapExpanded refusal process).2 }
  | .kmalloc refuse size =>
      (kmallocUnless refuse size y.kernel.heap).map fun (block, heap) =>
        { y with
          kernel := { y.kernel with heap := heap }
          owned := if block = null then y.owned else block :: y.owned }
  | .kfree pointer =>
      some { y with kernel := y.kernel.kfree pointer, owned := y.owned.filter (· ≠ pointer) }

end ZenithOS.Proc
