/-
Page tables as the processor walks them.

Memory is a radix tree of 512-entry tables, indexed by bits 12..47 of an
address, nine bits a level, the root being at level 3. The processor goes
from a present entry to the frame in its address bits, unless the entry
maps a huge page. What an access may do is the conjunction of the
permission bits along the way.
-/
import ZenithOS.Lib.Radix
import ZenithOS.Vmm.PageTable

namespace ZenithOS.Vmm

open Lib

/-- Memory as page tables. -/
def slots (m : Mem) (table : Nat) (index : Fin 512) : Nat :=
  pageEntry m table index

private theorem index_lt (a : Nat) : a &&& 0x1FF < 512 :=
  Nat.and_lt_two_pow a (n := 9) (by decide)

/-- The index of an address at level 4. -/
def pml4Digit (va : Nat) : Fin 512 := ⟨pml4Index va, index_lt _⟩

/-- The index at level 3. -/
def pdptDigit (va : Nat) : Fin 512 := ⟨pdptIndex va, index_lt _⟩

/-- The index at level 2. -/
def pdDigit (va : Nat) : Fin 512 := ⟨pdIndex va, index_lt _⟩

/-- The index at level 1. -/
def ptDigit (va : Nat) : Fin 512 := ⟨ptIndex va, index_lt _⟩

/-- The indices of an address, root first. -/
def digits (va : Nat) : List (Fin 512) :=
  [pml4Digit va, pdptDigit va, pdDigit va, ptDigit va]

/-- The entry that maps an address, with its level, by the trail of the
address from level `n` on: a present entry of a page table, or a present
huge entry of a directory. -/
def leafAt : Nat → List Nat → Option (PageWalkLevel × Nat)
  | 0, [e] => if pageIsPresent e then some (.pt, e) else none
  | 1, [e] => if pageIsPresent e ∧ pageIsHuge e then some (.pd, e) else none
  | 2, [e] => if pageIsPresent e ∧ pageIsHuge e then some (.pdpt, e) else none
  | n + 1, _ :: e :: l => leafAt n (e :: l)
  | _, _ => none

/-- The frame the processor goes on to from an entry of a level-`n`
table. -/
def mmuNext (n entry : Nat) : Option Nat :=
  if n ≠ 0 ∧ pageIsPresent entry ∧ (n = 3 ∨ ¬ pageIsHuge entry) then
    some (pageAddress entry)
  else none

/-- The entries the processor reads for `va` under `root`. -/
def mmuTrail (m : Mem) (root va : Nat) : List Nat :=
  trail mmuNext (slots m) 3 root (digits va)

/-- The frame a leaf maps: its bits 51:12, 51:21 or 51:30. The bits of a
huge entry below them are attributes or reserved. -/
def mmuFrame (level : PageWalkLevel) (e : Nat) : Nat :=
  e % 2 ^ 52 / pageSizeForLevel level * pageSizeForLevel level

/-- The physical address of `va` under `root`. -/
def mmuTranslate (m : Mem) (root va : Nat) : Option Nat :=
  (leafAt 3 (mmuTrail m root va)).map fun leaf =>
    mmuFrame leaf.1 leaf.2 + va % pageSizeForLevel leaf.1

/-- What user mode reaches at `va` under `root`: the level and the frame
of the page and whether it may write, if every entry on the way is
present and for users. -/
def userAccess (m : Mem) (root va : Nat) : Option (PageWalkLevel × Nat × Bool) :=
  match leafAt 3 (mmuTrail m root va) with
  | none => none
  | some (level, e) =>
      if (mmuTrail m root va).all pageIsUser then
        some (level, mmuFrame level e, (mmuTrail m root va).all pageIsWritable)
      else none

end ZenithOS.Vmm
