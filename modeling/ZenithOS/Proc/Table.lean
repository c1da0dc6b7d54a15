/-
Runs of the process table: processes are created and destroyed in any
order.

Beside the kernel a run records what the table is for: how many processes
were `created`, and `entries`, the processes that are not destroyed with
their numbers, the latest first. The n-th process created has the number
n.

`TableOp.Allowed` holds what the callers promise: a name is a short
literal, and a process is destroyed once.
-/
import ZenithOS.Lib.Run
import ZenithOS.Proc.Process

namespace ZenithOS.Proc

open Lib Mm Vmm Klib Scheduler

/-- Successful creations, and destructions. -/
inductive TableOp
  | create (failures : CreateFailures) (name : List Byte) (entry : Nat)
  | destroy (process : Nat)

/-- The kernel, with the processes that there should be and their pids, the
newest first. -/
structure TableSys where
  kernel : Kernel
  created : Nat
  entries : List (Nat × Nat)

/-- The processes that are not destroyed. -/
abbrev TableSys.live (y : TableSys) : List Nat := y.entries.map Prod.snd

/-- Before the first process. -/
def tableBoot (k : Kernel) : TableSys := ⟨k, 0, []⟩

/-- `process_create` does not return `NULL`. -/
def CreateSucceeds (failures : CreateFailures) (name : List Byte) (entry : Nat) (k : Kernel) :
    Prop :=
  ∃ r, processCreate failures name entry k = some r ∧ r.1 ≠ null

instance (failures : CreateFailures) (name : List Byte) (entry : Nat) (k : Kernel) :
    Decidable (CreateSucceeds failures name entry k) :=
  decidable_of_iff ((processCreate failures name entry k).any (fun r => r.1 ≠ null))
    (by simp [CreateSucceeds, Option.any_eq_true])

/-- Creations succeed, with names that fit, and only live processes are
destroyed. -/
def TableOp.Allowed (y : TableSys) : TableOp → Prop
  | .create failures name entry =>
      y.created + 1 < 2 ^ 64 ∧ (cString name).length ≤ 63
        ∧ CreateSucceeds failures name entry y.kernel
  | .destroy process => process ∈ y.live

instance TableOp.decidableAllowed (y : TableSys) : ∀ op : TableOp, Decidable (op.Allowed y)
  | .create .. => inferInstanceAs (Decidable (_ ∧ _ ∧ _))
  | .destroy _ => inferInstanceAs (Decidable (_ ∈ _))

/-- One call; `none` when the code does not come back. -/
def tableStep (y : TableSys) : TableOp → Option TableSys
  | .create failures name entry =>
      (processCreate failures name entry y.kernel).map fun (process, _, k) =>
        ⟨k, y.created + 1, (y.created + 1, process) :: y.entries⟩
  | .destroy process =>
      (processDestroy process y.kernel).map fun k =>
        ⟨k, y.created, y.entries.filter fun e => decide (e.2 ≠ process)⟩

end ZenithOS.Proc
