/-
Runs of the kernel heap: its calls in any order, and the stores its
clients make into what they were given.

A client may free or resize `NULL` and the pointers it holds, and store
into the block behind a pointer it holds. `live` is the record of the
pointers held. Which expansions fail is in the heap (`refusals`).
-/
import ZenithOS.Lib.Run
import ZenithOS.Mm.Heap

namespace ZenithOS.Mm

open Lib

/-- The calls of the heap. -/
inductive HeapOp
  | kmalloc (size : Nat)
  | krealloc (ptr size : Nat)
  | kfree (ptr : Nat)
  | store (ptr offset : Nat) (byte : Byte)
  deriving DecidableEq, Repr

/-- The heap and the pointers its clients hold. -/
structure HeapSys where
  heap : Heap
  live : List Nat

/-- The size of the block behind a pointer. -/
def liveSize (h : Heap) (ptr : Nat) : Nat := blockSize h.mem (payloadBlock ptr)

/-- The payloads in use along the block list from `current` on. -/
def liveFrom (m : Mem) : Nat → Nat → List Nat
  | 0, _ => []
  | fuel + 1, current =>
      if current = null then []
      else if blockFree m current then liveFrom m fuel (blockNext m current)
      else blockPayload current :: liveFrom m fuel (blockNext m current)

/-- The live allocations, as the heap's own list has them. -/
def liveAllocations (h : Heap) : List Nat := liveFrom h.mem (walkFuel h) h.head

/-- What the caller of an operation promises. -/
def HeapOp.Allowed (y : HeapSys) : HeapOp → Prop
  | .kmalloc _ => True
  | .krealloc ptr _ | .kfree ptr => ptr = null ∨ ptr ∈ y.live
  | .store ptr offset _ => ptr ∈ y.live ∧ offset < liveSize y.heap ptr

instance (y : HeapSys) : ∀ op : HeapOp, Decidable (op.Allowed y)
  | .kmalloc _ => isTrue trivial
  | .krealloc .. | .kfree _ => inferInstanceAs (Decidable (_ ∨ _))
  | .store .. => inferInstanceAs (Decidable (_ ∧ _))

/-- The pointer an operation is given. -/
def HeapOp.argument : HeapOp → Option Nat
  | .kmalloc _ => none
  | .krealloc ptr _ | .kfree ptr | .store ptr .. => some ptr

/-- The pointers held after an allocation that returned `ptr`. -/
def hold (ptr : Nat) (live : List Nat) : List Nat :=
  if ptr = null then live else ptr :: live

/-- One operation; `none` when the code does not come back. -/
def heapStep (y : HeapSys) : HeapOp → Option HeapSys
  | .kmalloc size =>
      (kmalloc size y.heap).map fun r => { heap := r.2, live := hold r.1 y.live }
  | .krealloc ptr size =>
      (krealloc ptr size y.heap).map fun r =>
        { heap := r.2
          live :=
            if ptr = null then hold r.1 y.live
            else if size = 0 then y.live.erase ptr
            else if r.1 = null then y.live
            else r.1 :: y.live.erase ptr }
  | .kfree ptr => some { heap := kfree ptr y.heap, live := y.live.erase ptr }
  | .store ptr offset byte =>
      some { y with heap := { y.heap with mem := storeByte y.heap.mem (ptr + offset) byte } }

/-- A call of the heap or a store, `kcalloc` among them. -/
inductive HeapCall
  | op (op : HeapOp)
  | kcalloc (count size : Nat)
  deriving DecidableEq, Repr

/-- One call; `none` when the code does not come back. -/
def callStep (y : HeapSys) : HeapCall → Option HeapSys
  | .op op => heapStep y op
  | .kcalloc count size =>
      (kcalloc count size y.heap).map fun r => { heap := r.2, live := hold r.1 y.live }

/-- The size a call asks `kmalloc` for, if it does. -/
def HeapCall.request (y : HeapSys) : HeapCall → Option Nat
  | .op (.kmalloc size) => some size
  | .op (.krealloc ptr size) =>
      if ptr = null then some size
      else if size = 0 ∨ liveSize y.heap ptr ≥ alignSize size then none
      else some (alignSize size)
  | .op (.kfree _) | .op (.store ..) => none
  | .kcalloc count size =>
      if count = 0 ∨ size = 0 ∨ count > (2 ^ 64 - 1) / size then none
      else some (count * size)

end ZenithOS.Mm
