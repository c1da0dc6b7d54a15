/-
The descriptor tables of x86-64, as the processor reads them: gates of
the IDT, segment and TSS descriptors of the GDT, and the stack pointer
in the TSS.

`deliverThrough` is the delivery of an interrupt with every table looked
up in memory. `Lib.Interrupt` delivers through a `Gate` and a stack
pointer that are given; `deliverThrough_eq` says when these are the same.
Task gates, the interrupt stack table and privilege checks of software
interrupts are not modelled: they end in `none`, as the faults do.
-/
import ZenithOS.Lib.Field
import ZenithOS.Lib.Interrupt

namespace ZenithOS.Lib.X86

/-- What `lidt` and `lgdt` load. -/
structure TableRegister where
  base : Nat
  limit : Nat

/-- The bits of `w` from `i` on, `n` of them. -/
def bitField (w i n : Nat) : Nat := w / 2 ^ i % 2 ^ n

/-- A 16-byte gate. -/
structure IdtGate where
  offset : Nat
  selector : Nat
  ist : Nat
  kind : Nat
  dpl : Nat
  present : Bool
deriving DecidableEq

/-- The gate of two words. -/
def gateOf (low high : Nat) : IdtGate where
  offset := bitField low 0 16 + 2 ^ 16 * bitField low 48 16 + 2 ^ 32 * bitField high 0 32
  selector := bitField low 16 16
  ist := bitField low 32 3
  kind := bitField low 40 5
  dpl := bitField low 45 2
  present := bitField low 47 1 == 1

/-- The gate of a vector, if the table reaches that far. -/
def readGate (m : Mem) (idtr : TableRegister) (vector : Nat) : Option IdtGate :=
  if 16 * vector + 15 ≤ idtr.limit then
    some (gateOf (loadField m (idtr.base + 16 * vector) 8)
      (loadField m (idtr.base + 16 * vector + 8) 8))
  else none

/-- A segment descriptor: 8 bytes, 16 for one of the system. -/
structure Segment where
  base : Nat
  limit : Nat
  /-- Type, and whether it is a code or data segment. -/
  kind : Nat
  dpl : Nat
  present : Bool
  /-- The upper four bits of the sixth byte. -/
  flags : Nat
deriving DecidableEq

/-- The segment that the two words of a descriptor describe. -/
def segmentOf (low high : Nat) : Segment where
  base := bitField low 16 24 + 2 ^ 24 * bitField low 56 8 + 2 ^ 32 * bitField high 0 32
  limit := bitField low 0 16 + 2 ^ 16 * bitField low 48 4
  kind := bitField low 40 5
  dpl := bitField low 45 2
  present := bitField low 47 1 == 1
  flags := bitField low 52 4

/-- The descriptor of a code or data segment. -/
def readSegment (m : Mem) (gdtr : TableRegister) (selector : Nat) : Option Segment :=
  if 8 * (selector / 8) + 7 ≤ gdtr.limit then
    some (segmentOf (loadField m (gdtr.base + 8 * (selector / 8)) 8) 0)
  else none

/-- The descriptor of a system segment. -/
def readSystemSegment (m : Mem) (gdtr : TableRegister) (selector : Nat) : Option Segment :=
  if 8 * (selector / 8) + 15 ≤ gdtr.limit then
    some (segmentOf (loadField m (gdtr.base + 8 * (selector / 8)) 8)
      (loadField m (gdtr.base + 8 * (selector / 8) + 8) 8))
  else none

/-- An interrupt gate: interrupts are off from then on. -/
def interruptGateKind : Nat := 0b01110

/-- A TSS that is not in use, before `ltr`, and one that is. -/
def availableTssKind : Nat := 0b01001

/-- A segment that ring 0 is entered through in 64-bit mode: present,
nonconforming code, and long. -/
def Segment.Enterable (d : Segment) : Prop :=
  d.present ∧ bitField d.kind 2 3 = 0b110 ∧ d.dpl = 0 ∧ bitField d.flags 1 1 = 1

instance (d : Segment) : Decidable d.Enterable := inferInstanceAs (Decidable (_ ∧ _ ∧ _ ∧ _))

/-- `ltr`: the TSS is loaded, and its descriptor marked busy. -/
def loadTaskRegister (m : Mem) (gdtr : TableRegister) (selector : Nat) : Option (Segment × Mem) :=
  let type := gdtr.base + 8 * (selector / 8) + 5
  match readSystemSegment m gdtr selector with
  | some tss =>
      if tss.present ∧ tss.kind = availableTssKind then
        some (tss, storeField m type 1 (loadField m type 1 ||| 0b10))
      else none
  | none => none

/-- `RSP0` of the TSS a descriptor is of. -/
def readRsp0 (m : Mem) (tss : Segment) : Option Nat :=
  if 11 ≤ tss.limit then some (loadField m (tss.base + 4) 8) else none

/-- The processor's tables. `tr` is the TSS descriptor `ltr` has loaded. -/
structure Tables where
  idtr : TableRegister
  gdtr : TableRegister
  tr : Segment

/-- The delivery of an interrupt or exception to ring 0, everything read
from memory. -/
def deliverThrough (t : Tables) (vector : Nat) (error : Option Nat) (k : Context) (m : Mem) :
    Option Cpu := do
  let gate ← readGate m t.idtr vector
  let code ← readSegment m t.gdtr gate.selector
  let rsp0 ← readRsp0 m t.tr
  if gate.present ∧ gate.kind = interruptGateKind ∧ gate.ist = 0 ∧ code.Enterable then
    some (deliver rsp0 ⟨gate.offset, gate.selector⟩ error k m)
  else none

variable {t : Tables} {m : Mem} {vector rsp0 : Nat} {gate : IdtGate} {code : Segment}

/-- The tables in memory and what they are read as. -/
theorem deliverThrough_eq (hgate : readGate m t.idtr vector = some gate)
    (hcode : readSegment m t.gdtr gate.selector = some code)
    (hrsp0 : readRsp0 m t.tr = some rsp0) (hpresent : gate.present = true)
    (hkind : gate.kind = interruptGateKind) (hist : gate.ist = 0) (henter : code.Enterable)
    (error : Option Nat) (k : Context) :
    deliverThrough t vector error k m
      = some (deliver rsp0 ⟨gate.offset, gate.selector⟩ error k m) := by
  simp only [deliverThrough, hgate, hcode, hrsp0, Option.bind_eq_bind, Option.bind_some]
  rw [if_pos ⟨hpresent, hkind, hist, henter⟩]

/-- An absent gate delivers nothing. -/
theorem deliverThrough_absent (hgate : readGate m t.idtr vector = some gate)
    (habsent : gate.present = false) (error : Option Nat) (k : Context) :
    deliverThrough t vector error k m = none := by
  simp only [deliverThrough, hgate, Option.bind_eq_bind, Option.bind_some]
  cases readSegment m t.gdtr gate.selector with
  | none => rfl
  | some code =>
      cases readRsp0 m t.tr with
      | none => rfl
      | some rsp0 =>
          simp only [Option.bind_some]
          rw [if_neg fun h => Bool.noConfusion (habsent.symm.trans h.1)]

end ZenithOS.Lib.X86
