/-
The interrupt controller's driver (`hal/pic.c`), and the kernel's part
of a device's interrupt, from the request to the end of interrupt.

A port write acts on `Lib.Pic8259.Pair`; `io_wait` only takes time. In
`IrqSys` the handlers work on a state `τ` of their own, and two ghost
counters say how often each line's request was latched and how often its
handler was called. Interrupts are off from the acknowledge cycle to the
`iretq`, so `take` is one step; devices go on to ask meanwhile.
-/
import ZenithOS.Interrupt.Irq
import ZenithOS.Lib.Pic8259

namespace ZenithOS.Interrupt

open Lib.Pic8259

-- ================================================================ pic.c

/-- `PIC1_COMMAND`. -/
def pic1Command : Nat := 0x20

/-- `PIC1_DATA`. -/
def pic1Data : Nat := 0x21

/-- `PIC2_COMMAND`. -/
def pic2Command : Nat := 0xA0

/-- `PIC2_DATA`. -/
def pic2Data : Nat := 0xA1

/-- `PIC_PRIMARY_VECTOR`. -/
def picPrimaryVector : BitVec 8 := 32

/-- `PIC_SECONDARY_VECTOR`. -/
def picSecondaryVector : BitVec 8 := 40

/-- `PIC_ICW1_ICW4`: a fourth word follows. -/
def picIcw1Icw4 : BitVec 8 := 0x01

/-- `PIC_ICW1_INIT`: the initialization begins. -/
def picIcw1Init : BitVec 8 := 0x10

/-- `PIC_ICW4_8086`. -/
def picIcw4_8086 : BitVec 8 := 0x01

/-- `PIC_EOI`. -/
def picEoi : BitVec 8 := 0x20

/-- `pic_set_irq_mask`, for the lines there are. -/
def picSetIrqMask (p : Pair) (irqLine : Nat) (masked : Bool) : Pair :=
  let dataPort := if irqLine < 8 then pic1Data else pic2Data
  let irqBit := if irqLine < 8 then irqLine else irqLine - 8
  let mask := p.inb dataPort
  let mask := if masked then mask ||| 1#8 <<< irqBit else mask &&& ~~~(1#8 <<< irqBit)
  p.outb dataPort mask

/-- `pic_remap`. -/
def picRemap (p : Pair) (masterOffset slaveOffset : BitVec 8) : Pair :=
  let masterMask := p.inb pic1Data
  let slaveMask := p.inb pic2Data
  let p := p.outb pic1Command (picIcw1Init ||| picIcw1Icw4)
  let p := p.outb pic2Command (picIcw1Init ||| picIcw1Icw4)
  let p := p.outb pic1Data masterOffset
  let p := p.outb pic2Data slaveOffset
  let p := p.outb pic1Data 0x04
  let p := p.outb pic2Data 0x02
  let p := p.outb pic1Data picIcw4_8086
  let p := p.outb pic2Data picIcw4_8086
  let p := p.outb pic1Data masterMask
  p.outb pic2Data slaveMask

/-- `pic_mask_all`. -/
def picMaskAll (p : Pair) : Pair :=
  let p := p.outb pic1Data 0xFF
  p.outb pic2Data 0xFF

/-- `pic_mask_irq`. -/
def picMaskIrq (p : Pair) (irqLine : Nat) : Pair := picSetIrqMask p irqLine true

/-- `pic_unmask_irq`. -/
def picUnmaskIrq (p : Pair) (irqLine : Nat) : Pair := picSetIrqMask p irqLine false

/-- `pic_send_eoi`. -/
def picSendEoi (p : Pair) (irqLine : Nat) : Pair :=
  let p := if irqLine ≥ 8 then p.outb pic2Command picEoi else p
  p.outb pic1Command picEoi

/-- `pic_init`. -/
def picInit (p : Pair) : Pair :=
  picMaskAll (picRemap p picPrimaryVector picSecondaryVector)

-- ============================================================= the runs

/-- The controllers, and the kernel as far as interrupts go. -/
structure IrqSys (τ : Type) where
  pics : Pair
  handlers : IrqHandlers τ
  state : τ
  latched : Nat → Nat
  calls : Nat → Nat

/-- What drivers, devices and the processor do. -/
inductive IrqOp (τ : Type)
  | register (line : Nat) (handler : τ → Option τ)
  | mask (line : Nat)
  | unmask (line : Nat)
  | request (line : Nat)
  /-- An interrupt, and the requests that come up before its end. -/
  | take (during : List Nat)

variable {τ : Type}

/-- After `irq_init` and `pic_init`. -/
def irqBoot (p : Pair) (s : τ) : IrqSys τ where
  pics := picInit p
  handlers := irqInit
  state := s
  latched _ := 0
  calls _ := 0

/-- One more for a line. -/
def bump (count : Nat → Nat) (line : Nat) : Nat → Nat :=
  Function.update count line (count line + 1)

/-- The request of a line that has asked already is the same request. -/
def requestStep (y : IrqSys τ) (line : Nat) : IrqSys τ :=
  { y with
    pics := y.pics.request line
    latched := if y.pics.requested line then y.latched else bump y.latched line }

/-- A handler of `irq_handlers`, in the whole system. -/
def callHandler (handlers : IrqHandlers τ) (line : Nat) :
    Option (IrqSys τ → Option (IrqSys τ)) :=
  (handlers line).map fun handler y =>
    (handler y.state).map fun s => { y with state := s, calls := bump y.calls line }

/-- One step; `none` where a handler does not come back. -/
def irqSysStep (y : IrqSys τ) : IrqOp τ → Option (IrqSys τ)
  | .register line handler =>
      some { y with handlers := (irqRegisterHandler y.handlers line handler).2 }
  | .mask line => some { y with pics := picMaskIrq y.pics line }
  | .unmask line => some { y with pics := picUnmaskIrq y.pics line }
  | .request line => some (requestStep y line)
  | .take during =>
      match y.pics.accept with
      | none => none
      | some (v, pics) =>
          irqDispatch (callHandler y.handlers)
            (fun line y => { y with pics := picSendEoi y.pics line }) v.toNat
            (during.foldl requestStep { y with pics := pics })

/-- What the drivers and the hardware promise. Handlers keep `P` and
come back; a driver registers its handler before it unmasks its line,
which is one of the sixteen; and an interrupt is taken when the
controllers ask for one. -/
def IrqOp.Allowed (P : τ → Prop) (y : IrqSys τ) : IrqOp τ → Prop
  | .register _ handler => ∀ s, P s → ∃ s', handler s = some s' ∧ P s'
  | .mask line => line < 16
  | .unmask line => line < 16 ∧ (Device line → y.handlers line ≠ none)
  | .request line => Device line
  | .take during => y.pics.accept.isSome = true ∧ ∀ line ∈ during, Device line

end ZenithOS.Interrupt
