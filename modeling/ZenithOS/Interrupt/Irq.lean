/-
Hardware interrupts: the handler table and `irq_dispatch` of `cpu/irq.c`.

A handler is what it does to a state `σ`, which is whatever part of the
kernel is looked at; `none` is a handler that does not come back. The
end of interrupt is a parameter of `irqDispatch`.
-/
import Mathlib.Logic.Function.Basic

namespace ZenithOS.Interrupt

/-- The vector of line 0, as `pic_remap` sets it. -/
def irqBaseVector : Nat := 32

/-- The number of lines. -/
def irqCount : Nat := 16

/-- The line of the timer. -/
def irqTimerLine : Nat := 0

/-- The line of the keyboard. -/
def irqKeyboardLine : Nat := 1

/-- The line of the mouse. -/
def irqMouseLine : Nat := 12

variable {σ : Type}

/-- `irq_handlers`. -/
abbrev IrqHandlers (σ : Type) := Nat → Option (σ → Option σ)

/-- `irq_init`. -/
def irqInit : IrqHandlers σ := fun _ => none

/-- `irq_register_handler`. -/
def irqRegisterHandler (handlers : IrqHandlers σ) (irqLine : Nat) (handler : σ → Option σ) :
    Bool × IrqHandlers σ :=
  if irqLine ≥ irqCount then (false, handlers)
  else (true, Function.update handlers irqLine (some handler))

/-- `irq_dispatch`, on the `interrupt_number` of the context. -/
def irqDispatch (handlers : IrqHandlers σ) (picSendEoi : Nat → σ → σ) (interruptNumber : Nat)
    (s : σ) : Option σ :=
  if interruptNumber < irqBaseVector ∨ irqBaseVector + irqCount ≤ interruptNumber then some s
  else
    let irqLine := interruptNumber - irqBaseVector
    let handled :=
      match handlers irqLine with
      | some handler => handler s
      | none => some s
    handled.map (picSendEoi irqLine)

end ZenithOS.Interrupt
