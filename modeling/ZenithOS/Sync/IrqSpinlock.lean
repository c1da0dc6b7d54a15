/-
The interrupt-safe spinlock, statement by statement:
`sync/irq_spinlock.c` over `sync/spinlock.c`.

# Contexts

Any number of contexts use one lock. Each belongs to a processor and has
an interrupt flag of its own: the processor's while the context runs, and
the saved one while another runs there. A processor leaves a context for
another only by a timer interrupt, so only while the flag is set. With a
processor for each context there is no such interrupt to wait for, and any
interleaving is a run.

# Statements

`at` says which statement of `irq_spin_lock` or `irq_spin_unlock` a
context executes next. The code does not keep `entryFlag`, the flag at the
context's last entry to `irq_spin_lock`.
-/
import ZenithOS.Lib.Run
import Mathlib.Logic.Function.Basic
import Mathlib.Data.Fintype.Basic

namespace ZenithOS.Sync

open Lib

/-- `irq_spinlock_t`. -/
structure IrqSpinlock where
  locked : Nat
  irqWasEnabled : Bool
  deriving DecidableEq, Repr

/-- `irq_spinlock_init`. -/
def irqSpinlockInit : IrqSpinlock := { locked := 0, irqWasEnabled := false }

/-- The statement a context is at. -/
inductive Statement
  | outside
  | disable
  | exchange
  | spin
  | holding
  | barrier
  | release
  | test
  | enable
  deriving DecidableEq, Repr

/-- The context has stored its flag in the lock and not read it back. -/
def Statement.inside : Statement → Bool
  | .outside | .enable => false
  | _ => true

/-- A stream of execution: where it is, its interrupt flag, and the flag it
entered with. -/
structure Context where
  statement : Statement
  interruptsEnabled : Bool
  entryFlag : Bool
  deriving DecidableEq, Repr

variable {κ χ : Type} [DecidableEq κ] [DecidableEq χ]

/-- One lock, and the streams on the processors. -/
structure IrqSys (κ χ : Type) where
  lock : IrqSpinlock
  contexts : κ → Context
  running : χ → κ

/-- One stream moves on. -/
def IrqSys.setContext (y : IrqSys κ χ) (c : κ) (context : Context) : IrqSys κ χ :=
  { y with contexts := Function.update y.contexts c context }

/-- The statements of the streams, and timer interrupts. -/
inductive IrqOp (κ χ : Type)
  /-- The first statement of `irq_spin_lock`. -/
  | lock (c : κ)
  /-- `irq_spin_unlock` is called. -/
  | unlock (c : κ)
  /-- The next statement of the call. -/
  | next (c : κ)
  /-- Outside, the context sets or clears its flag. -/
  | setFlag (c : κ) (enabled : Bool)
  /-- A timer interrupt. -/
  | preempt (processor : χ) (c : κ)

/-- The next statement of the call that a context is in. -/
def nextStatement (c : κ) (y : IrqSys κ χ) : Option (IrqSys κ χ) :=
  let context := y.contexts c
  match context.statement with
  | .outside | .holding => none
  -- cpu_cli()
  | .disable =>
      some (y.setContext c { context with statement := .exchange, interruptsEnabled := false })
  -- atomic_xchg_u64(&lock->locked, 1)
  | .exchange =>
      let statement := if y.lock.locked ≠ 0 then Statement.spin else .holding
      some { y.setContext c { context with statement := statement } with
        lock := { y.lock with locked := 1 } }
  -- while (lock->locked)
  | .spin =>
      let statement := if y.lock.locked ≠ 0 then Statement.spin else .exchange
      some (y.setContext c { context with statement := statement })
  -- memory_barrier()
  | .barrier => some (y.setContext c { context with statement := .release })
  -- lock->locked = 0
  | .release =>
      some { y.setContext c { context with statement := .test } with
        lock := { y.lock with locked := 0 } }
  -- if (lock->irq_was_enabled)
  | .test =>
      let statement := if y.lock.irqWasEnabled then Statement.enable else .outside
      some (y.setContext c { context with statement := statement })
  -- cpu_sti()
  | .enable =>
      some (y.setContext c { context with statement := .outside, interruptsEnabled := true })

/-- One step; `none` when it cannot happen. -/
def irqStep (processor : κ → χ) (y : IrqSys κ χ) : IrqOp κ χ → Option (IrqSys κ χ)
  | .lock c =>
      let context := y.contexts c
      if y.running (processor c) = c ∧ context.statement = .outside then
        some { y.setContext c { context with
            statement := .disable, entryFlag := context.interruptsEnabled } with
          lock := { y.lock with irqWasEnabled := context.interruptsEnabled } }
      else none
  | .unlock c =>
      let context := y.contexts c
      if y.running (processor c) = c ∧ context.statement = .holding then
        some (y.setContext c { context with statement := .barrier })
      else none
  | .next c => if y.running (processor c) = c then nextStatement c y else none
  | .setFlag c enabled =>
      let context := y.contexts c
      if y.running (processor c) = c ∧ context.statement = .outside then
        some (y.setContext c { context with interruptsEnabled := enabled })
      else none
  | .preempt p c =>
      if processor c = p ∧ (y.contexts (y.running p)).interruptsEnabled = true then
        some { y with running := Function.update y.running p c }
      else none

/-- The lock is initialised and all contexts are outside. -/
def irqInit (flags : κ → Bool) (running : χ → κ) : IrqSys κ χ :=
  { lock := irqSpinlockInit
    contexts := fun c =>
      { statement := .outside, interruptsEnabled := flags c, entryFlag := flags c }
    running := running }

/-- Entering `irq_spin_lock` stores no other flag than those that the
contexts inside have stored. -/
def IrqOp.Keeps (y : IrqSys κ χ) : IrqOp κ χ → Prop
  | .lock c => ∀ d, (y.contexts d).statement.inside = true →
      (y.contexts d).entryFlag = (y.contexts c).interruptsEnabled
  | _ => True

instance IrqOp.decidableKeeps [Fintype κ] (y : IrqSys κ χ) :
    ∀ op : IrqOp κ χ, Decidable (op.Keeps y)
  | .lock _ => inferInstanceAs (Decidable (∀ _, _))
  | .unlock _ | .next _ | .setFlag .. | .preempt .. => isTrue trivial

end ZenithOS.Sync
