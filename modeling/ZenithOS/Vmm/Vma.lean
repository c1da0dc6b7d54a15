/-
Virtual memory areas: `vmm/vma/vma.c`.

`vma_table` up to `vma_count` is a list; the entries above are all zero,
since `vma_init` and `vma_destroy` clear what they give up. A `vma_t *`
into the table is an index.

The end of an area is the 64-bit sum of its start and its size. Nothing
keeps it above the start: an area may be empty, or wrapped.
-/
import Mathlib.Data.List.Basic
import Mathlib.Tactic.NormNum

namespace ZenithOS.Vmm

/-- `VMA_MAX_COUNT`. -/
def vmaMaxCount : Nat := 32

/-- `vma_t`; `stop` is the field `end`. -/
structure Vma where
  start : Nat
  stop : Nat
  flags : Nat
  deriving DecidableEq, Repr

/-- `vma_table` up to `vma_count`. -/
abbrev VmaTable := List Vma

/-- `vma_table[i]`. -/
def VmaTable.entry (t : VmaTable) (i : Nat) : Vma := t.getD i ⟨0, 0, 0⟩

/-- `vma_init`. -/
def vmaInit : VmaTable := []

/-- `vma_create`. -/
def vmaCreate (t : VmaTable) (start size flags : Nat) : Bool × VmaTable :=
  if t.length ≥ vmaMaxCount then (false, t)
  else
    let newStop := (start + size) % 2 ^ 64
    if t.any fun v => start < v.stop ∧ newStop > v.start then (false, t)
    else (true, t ++ [⟨start, newStop, flags⟩])

/-- `vma_find`: the index of the area, or `NULL`. -/
def vmaFind (t : VmaTable) (address : Nat) : Option Nat :=
  t.findIdx? fun v => v.start ≤ address ∧ address < v.stop

/-- `vma_destroy`. -/
def vmaDestroy (t : VmaTable) (start : Nat) : Bool × VmaTable :=
  match t.findIdx? fun v => v.start = start with
  | none => (false, t)
  | some i => (true, t.eraseIdx i)

/-- `vma_resize`. -/
def vmaResize (t : VmaTable) (start newSize : Nat) : Bool × VmaTable :=
  match t.findIdx? fun v => v.start = start with
  | none => (false, t)
  | some target =>
      let newStop := (start + newSize) % 2 ^ 64
      if (t.zipIdx.filter fun entry => entry.2 ≠ target).any fun entry =>
          start < entry.1.stop ∧ newStop > entry.1.start then
        (false, t)
      else (true, t.modify target fun v => { v with stop := newStop })

-- ==================================================================== calls

/-- A call that may change the table. -/
inductive VmaOp
  | init
  | create (start size flags : Nat)
  | destroy (start : Nat)
  | resize (start newSize : Nat)
  deriving DecidableEq, Repr

/-- A call and what it returned. -/
def vmaCall (t : VmaTable) : VmaOp → Bool × VmaTable
  | .init => (true, vmaInit)
  | .create start size flags => vmaCreate t start size flags
  | .destroy start => vmaDestroy t start
  | .resize start newSize => vmaResize t start newSize

/-- One call. -/
def vmaStep (t : VmaTable) (op : VmaOp) : Option VmaTable := some (vmaCall t op).2

end ZenithOS.Vmm
