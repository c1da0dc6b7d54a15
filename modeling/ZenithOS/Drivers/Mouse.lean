/-
The PS/2 mouse: `drivers/mouse.c`.

# Interrupts

The handler is run with the two bytes it reads from the controller, the
status first. The size of the screen is `framebuffer_width` and
`framebuffer_height`.

# Integers

`x` and `y` are `int`s. Sums wrap around in 32 bits (`toIntC`; in C they
must not overflow), and a comparison with a `size_t` is one of 64-bit
unsigned numbers (`toSize`).
-/
import ZenithOS.Lib.Mem

namespace ZenithOS.Drivers

open Lib

/-- `MouseState`. -/
structure MouseState where
  x : Int
  y : Int
  left : Bool
  right : Bool
  middle : Bool
  deriving DecidableEq, Repr

/-- The variables of the file, the `skip` of the handler and
`gui_needs_redraw`. -/
structure Mouse where
  mouseState : MouseState
  mousePacket : Nat → Byte
  packetIndex : Nat
  skip : Nat
  guiNeedsRedraw : Bool

/-- As the kernel starts. -/
def mouseBoot : Mouse := ⟨⟨0, 0, false, false, false⟩, fun _ => 0#8, 0, 0, true⟩

/-- A sum stored in an `int`. -/
def toIntC (v : Int) : Int := v.bmod (2 ^ 32)

/-- An `int` passed as a `size_t`. -/
def toSize (v : Int) : Nat := (v % 2 ^ 64).toNat

/-- A coordinate after its two comparisons. -/
def clampTo (size : Nat) (v : Int) : Int :=
  let v := if v < 0 then 0 else v
  if size ≤ toSize v then toIntC (wordSub size 1) else v

/-- `b & mask` is true. -/
def hasBit (b mask : Byte) : Bool := decide (b &&& mask ≠ 0#8)

variable (width height : Nat)

/-- From `static uint8_t skip` on. -/
def skipRedraw (m : Mouse) : Mouse :=
  if 3 ≤ (m.skip + 1) % 2 ^ 8 then { m with skip := 0, guiNeedsRedraw := true }
  else { m with skip := (m.skip + 1) % 2 ^ 8 }

/-- The third byte of a packet is in. -/
def mousePacketDone (m : Mouse) : Mouse :=
  let byte := m.mousePacket
  let m := { m with
    packetIndex := 0
    mouseState := { m.mouseState with
      left := hasBit (byte 0) 0x01#8
      right := hasBit (byte 0) 0x02#8
      middle := hasBit (byte 0) 0x04#8 } }
  if !hasBit (byte 0) 0x08#8 then m
  else
    let dx := (byte 1).toInt
    let dy := (byte 2).toInt
    skipRedraw { m with
      mouseState := { m.mouseState with
        x := clampTo width (toIntC (m.mouseState.x + dx))
        y := clampTo height (toIntC (m.mouseState.y - dy)) } }

/-- `mouse_handler` with the bytes the status and data ports give. -/
def mouseHandler (status data : Byte) (m : Mouse) : Mouse :=
  if status &&& 0x21#8 ≠ 0x21#8 then m
  else
    let m := { m with
      mousePacket := Function.update m.mousePacket m.packetIndex data
      packetIndex := m.packetIndex + 1 }
    if m.packetIndex < 3 then m else mousePacketDone width height m

/-- An interrupt for every pair of a status and a data byte. -/
def mouseRun (m : Mouse) : List (Byte × Byte) → Mouse
  | [] => m
  | b :: bytes => mouseRun (mouseHandler width height b.1 b.2 m) bytes

end ZenithOS.Drivers
