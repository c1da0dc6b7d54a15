/-
What the mouse handler makes of a stream of bytes.

# The reference

A packet is three bytes: the buttons and the ninth bit of each movement,
and the low eight bits of the two movements. `Decodes` is what a decoder
does with one, and leaves packets with an overflow bit open.

# The code

The handler sets the buttons before it looks at bit 3, and takes the
eighth bit of a movement for its sign. `Agrees` says when that makes no
difference; for a movement that is a question about one coordinate
(`clampTo_right`, `clampTo_down`). Packet by packet the handler does what
a decoder does exactly where `Agrees` holds.
-/
import ZenithOS.Drivers.Mouse

namespace ZenithOS.Drivers

open Lib

variable {width height size : Nat} {m : Mouse} {s s' : MouseState} {pos : Int} {b : Byte}
  {sign : Bool} {bytes : List (Byte × Byte)}

-- ============================================================ packets

/-- The three bytes of a movement packet. -/
structure Packet where
  flags : Byte
  dx : Byte
  dy : Byte
  deriving DecidableEq, Repr

/-- Bit 3 is set in every packet. -/
def Packet.valid (p : Packet) : Bool := p.flags.getLsbD 3

/-- One of the two overflow bits is set. -/
def Packet.overflow (p : Packet) : Bool := p.flags.getLsbD 6 || p.flags.getLsbD 7

/-- A movement of nine bits in two's complement. -/
def movement (sign : Bool) (b : Byte) : Int := b.toNat - if sign then 256 else 0

/-- The place on a screen of `size` pixels that is nearest to `v`. -/
def nearest (size : Nat) (v : Int) : Int := max 0 (min v (size - 1))

/-- What a packet says about the mouse. -/
def Packet.decode (width height : Nat) (p : Packet) (s : MouseState) : MouseState where
  x := nearest width (s.x + movement (p.flags.getLsbD 4) p.dx)
  y := nearest height (s.y - movement (p.flags.getLsbD 5) p.dy)
  left := p.flags.getLsbD 0
  right := p.flags.getLsbD 1
  middle := p.flags.getLsbD 2

/-- The pointer is on the screen. -/
structure InRange (width height : Nat) (s : MouseState) : Prop where
  x_nonneg : 0 ≤ s.x
  x_lt : s.x < width
  y_nonneg : 0 ≤ s.y
  y_lt : s.y < height

/-- A decoder may go from `s` to `s'` with the packet. -/
structure Decodes (width height : Nat) (p : Packet) (s s' : MouseState) : Prop where
  invalid : p.valid = false → s' = s
  valid : p.valid = true → p.overflow = false → s' = p.decode width height s
  onScreen : InRange width height s'

-- =========================================================== agreement

/-- To the right: the ninth bit repeats the eighth and the sum is an
`int`, or there is nowhere to go. -/
def AgreesX (size : Nat) (sign : Bool) (b : Byte) (pos : Int) : Prop :=
  size = 1 ∨ (sign = b.msb ∧ pos + b.toInt < 2 ^ 31) ∨ (sign = true ∧ b = 0#8 ∧ pos = 0)

/-- Downwards, against the sign. -/
def AgreesY (size : Nat) (sign : Bool) (b : Byte) (pos : Int) : Prop :=
  size = 1 ∨ (sign = b.msb ∧ pos - b.toInt < 2 ^ 31)
    ∨ (sign = true ∧ b = 0#8 ∧ pos = size - 1)

/-- A packet without bit 3 repeats the buttons, and another one without
overflow has movements that are read rightly. -/
structure Agrees (width height : Nat) (p : Packet) (s : MouseState) : Prop where
  buttons : p.valid = false →
    p.flags.getLsbD 0 = s.left ∧ p.flags.getLsbD 1 = s.right ∧ p.flags.getLsbD 2 = s.middle
  x : p.valid = true → p.overflow = false → AgreesX width (p.flags.getLsbD 4) p.dx s.x
  y : p.valid = true → p.overflow = false → AgreesY height (p.flags.getLsbD 5) p.dy s.y

-- ============================================================ movement

/-- What fits an `int` is kept. -/
theorem toIntC_eq {v : Int} (hlo : -2 ^ 31 ≤ v) (hhi : v < 2 ^ 31) : toIntC v = v := by
  unfold toIntC
  apply Int.bmod_eq_of_le <;> omega

theorem toIntC_range (v : Int) : -2 ^ 31 ≤ toIntC v ∧ toIntC v < 2 ^ 31 := by
  unfold toIntC
  have hlo := Int.le_bmod (x := v) (m := 2 ^ 32) (by decide)
  have hhi := Int.bmod_lt (x := v) (m := 2 ^ 32) (by decide)
  omega

/-- One turn above the range of an `int`. -/
theorem toIntC_wrap {v : Int} (hlo : 2 ^ 31 ≤ v) (hhi : v < 2 ^ 32) : toIntC v = v - 2 ^ 32 := by
  unfold toIntC
  rw [← Int.sub_bmod_right]
  apply Int.bmod_eq_of_le <;> omega

/-- The comparisons leave the nearest place on the screen. -/
theorem clampTo_eq {v : Int} (hpos : 0 < size) (hsize : size < 2 ^ 31) (hv : v < 2 ^ 31) :
    clampTo size v = nearest size v := by
  have hlast : toIntC (wordSub size 1) = size - 1 := by
    rw [wordSub_eq (by omega) (by omega), toIntC_eq] <;> omega
  have hsmall : ∀ u : Int, 0 ≤ u → u < 2 ^ 31 → (toSize u : Int) = u := by
    intro u hlo hhi
    unfold toSize
    omega
  unfold clampTo nearest
  dsimp only
  rw [hlast]
  by_cases hneg : v < 0
  · rw [if_pos hneg, if_neg (by have := hsmall 0 (by decide) (by decide); omega)]
    omega
  · have hsame := hsmall v (by omega) hv
    rw [if_neg hneg]
    split_ifs <;> omega

/-- A byte as an `int8_t`. -/
theorem toInt_byte (b : Byte) :
    b.toInt = if b.msb then (b.toNat : Int) - 256 else b.toNat := by
  rw [BitVec.toInt_eq_msb_cond]
  rfl

theorem msb_byte (b : Byte) : b.msb = true ↔ 128 ≤ b.toNat := by
  rw [BitVec.msb_eq_decide]
  simp

/-- The sum of a coordinate and a movement, as it is clamped. -/
theorem clampTo_toIntC {v : Int} (hpos : 0 < size) (hsize : size < 2 ^ 31) (hlo : -2 ^ 31 ≤ v)
    (hhi : v < 2 ^ 32) :
    clampTo size (toIntC v) = if v < 2 ^ 31 then nearest size v else 0 := by
  by_cases hv : v < 2 ^ 31
  · rw [if_pos hv, toIntC_eq hlo hv, clampTo_eq hpos hsize hv]
  · rw [if_neg hv, toIntC_wrap (by omega) hhi, clampTo_eq hpos hsize (by omega)]
    unfold nearest
    omega

/-- The sign that the code takes against the one in the packet. -/
inductive Signs (d8 d9 : Int) : Prop
  | same (h : d9 = d8) (hlo : -128 ≤ d8) (hhi : d8 < 128)
  | lost (h : d9 = d8 + 256) (hlo : -128 ≤ d8) (hneg : d8 < 0)
  | missed (h : d9 = d8 - 256) (hpos : 0 ≤ d8) (hhi : d8 < 128)

/-- The sign bit of a packet and the top bit of a byte tell all there is to
tell. -/
theorem signs_movement (sign : Bool) (b : Byte) : Signs b.toInt (movement sign b) := by
  have hmsb := msb_byte b
  have hbyte := b.isLt
  rw [toInt_byte]
  unfold movement
  cases hb : b.msb <;> cases sign <;>
    simp only [hb, if_true, if_false, Bool.false_eq_true, false_iff, true_iff, Nat.not_le] at hmsb ⊢
  · exact .same (by omega) (by omega) (by omega)
  · exact .missed (by omega) (by omega) (by omega)
  · exact .lost (by omega) (by omega) (by omega)
  · exact .same (by omega) (by omega) (by omega)

/-- The handler reads a movement rightly exactly when the sign bit is the
byte's own. -/
theorem movement_eq_iff (sign : Bool) (b : Byte) : sign = b.msb ↔ movement sign b = b.toInt := by
  rw [toInt_byte]
  unfold movement
  cases b.msb <;> cases sign
  · simp
  · simp only [Bool.true_eq_false, if_true, if_false, Bool.false_eq_true, false_iff]
    omega
  · simp only [Bool.false_eq_true, if_true, if_false, false_iff]
    omega
  · simp

/-- The lowest movement is the one of 256 to the left. -/
theorem movement_lowest_iff (sign : Bool) (b : Byte) :
    sign = true ∧ b = 0#8 ↔ movement sign b = -256 := by
  have hzero : b = 0#8 ↔ b.toNat = 0 := BitVec.toNat_inj.symm
  have hbyte := b.isLt
  rw [hzero]
  unfold movement
  cases sign
  · simp only [Bool.false_eq_true, false_and, if_false, false_iff]
    omega
  · simp only [true_and, if_true]
    omega

/-- A step to the right is read rightly. -/
theorem clampTo_right (sign : Bool) (b : Byte) (hpos : 0 ≤ pos) (hlt : pos < size)
    (hsize : size < 2 ^ 31) :
    clampTo size (toIntC (pos + b.toInt)) = nearest size (pos + movement sign b)
      ↔ AgreesX size sign b pos := by
  unfold AgreesX
  rw [movement_eq_iff, ← and_assoc, movement_lowest_iff]
  have hsigns := signs_movement sign b
  generalize movement sign b = d9 at *
  generalize b.toInt = d8 at *
  rw [clampTo_toIntC (by omega) hsize (by cases hsigns <;> omega) (by cases hsigns <;> omega)]
  unfold nearest
  rcases hsigns with ⟨h, hlo, hhi⟩ | ⟨h, hlo, hneg⟩ | ⟨h, hpos, hhi⟩ <;> subst h <;>
    split_ifs <;> omega

/-- So is a step upwards. -/
theorem clampTo_down (sign : Bool) (b : Byte) (hpos : 0 ≤ pos) (hlt : pos < size)
    (hsize : size < 2 ^ 31) :
    clampTo size (toIntC (pos - b.toInt)) = nearest size (pos - movement sign b)
      ↔ AgreesY size sign b pos := by
  unfold AgreesY
  rw [movement_eq_iff, ← and_assoc, movement_lowest_iff]
  have hsigns := signs_movement sign b
  generalize movement sign b = d9 at *
  generalize b.toInt = d8 at *
  rw [clampTo_toIntC (by omega) hsize (by cases hsigns <;> omega) (by cases hsigns <;> omega)]
  unfold nearest
  rcases hsigns with ⟨h, hlo, hhi⟩ | ⟨h, hlo, hneg⟩ | ⟨h, hpos, hhi⟩ <;> subst h <;>
    split_ifs <;> omega

-- ============================================================ handler

/-- The masks of the handler, as bits. -/
theorem hasBit_eq (b : Byte) :
    hasBit b 0x01#8 = b.getLsbD 0 ∧ hasBit b 0x02#8 = b.getLsbD 1 ∧
      hasBit b 0x04#8 = b.getLsbD 2 ∧ hasBit b 0x08#8 = b.getLsbD 3 := by
  revert b
  decide

/-- The packet in the buffer. -/
def Mouse.packet (m : Mouse) : Packet := ⟨m.mousePacket 0, m.mousePacket 1, m.mousePacket 2⟩

theorem skipRedraw_mouseState (m : Mouse) : (skipRedraw m).mouseState = m.mouseState := by
  unfold skipRedraw
  split_ifs <;> rfl

theorem skipRedraw_packetIndex (m : Mouse) : (skipRedraw m).packetIndex = m.packetIndex := by
  unfold skipRedraw
  split_ifs <;> rfl

/-- What `mouse_handler` does with a packet. -/
def handled (width height : Nat) (p : Packet) (s : MouseState) : MouseState where
  x := if p.valid then clampTo width (toIntC (s.x + p.dx.toInt)) else s.x
  y := if p.valid then clampTo height (toIntC (s.y - p.dy.toInt)) else s.y
  left := p.flags.getLsbD 0
  right := p.flags.getLsbD 1
  middle := p.flags.getLsbD 2

/-- The third byte moves the mouse as its packet says. -/
theorem mousePacketDone_mouseState (m : Mouse) :
    (mousePacketDone width height m).mouseState = handled width height m.packet m.mouseState := by
  obtain ⟨hleft, hright, hmiddle, hvalid⟩ := hasBit_eq (m.mousePacket 0)
  unfold mousePacketDone handled
  dsimp only
  rw [hleft, hright, hmiddle, hvalid]
  cases hv : m.packet.valid with
  | false =>
      rw [if_pos (by simpa [Packet.valid, Mouse.packet] using hv)]
      rfl
  | true =>
      rw [if_neg (by simpa [Packet.valid, Mouse.packet] using hv), skipRedraw_mouseState]
      rfl

theorem mousePacketDone_packetIndex (m : Mouse) :
    (mousePacketDone width height m).packetIndex = 0 := by
  unfold mousePacketDone
  dsimp only
  split_ifs
  · rfl
  · rw [skipRedraw_packetIndex]

/-- The status register says that there is a byte of the mouse. -/
def Ready (b : Byte × Byte) : Prop := b.1 &&& 0x21#8 = 0x21#8

/-- A byte that does not finish its packet. -/
theorem mouseHandler_start {b : Byte × Byte} (hb : Ready b) (hm : m.packetIndex < 2) :
    mouseHandler width height b.1 b.2 m
      = { m with
          mousePacket := Function.update m.mousePacket m.packetIndex b.2
          packetIndex := m.packetIndex + 1 } := by
  have hready : ¬ b.1 &&& 0x21#8 ≠ 0x21#8 := not_not.mpr hb
  unfold mouseHandler
  rw [if_neg hready]
  dsimp only
  rw [if_pos (by omega)]

variable {a c : Byte × Byte} {d : Byte × Byte}

/-- The first two bytes of a packet move nothing. -/
theorem mouseRun_start (ha : Ready a) (hd : Ready d) (hm : m.packetIndex = 0) :
    (mouseRun width height m [a]).mouseState = m.mouseState ∧
      (mouseRun width height m [a, d]).mouseState = m.mouseState := by
  constructor
  · simp [mouseRun, mouseHandler_start ha (show m.packetIndex < 2 by omega)]
  · simp [mouseRun, mouseHandler_start ha (show m.packetIndex < 2 by omega),
      mouseHandler_start, hd, hm]

/-- Three bytes are a packet. -/
theorem mouseRun_packet (width height : Nat) (ha : Ready a) (hd : Ready d) (hc : Ready c)
    (hm : m.packetIndex = 0) :
    (mouseRun width height m [a, d, c]).mouseState
        = handled width height ⟨a.2, d.2, c.2⟩ m.mouseState ∧
      (mouseRun width height m [a, d, c]).packetIndex = 0 := by
  have hrun : mouseRun width height m [a, d, c]
      = mousePacketDone width height { m with
          mousePacket := Function.update (Function.update
            (Function.update m.mousePacket 0 a.2) 1 d.2) 2 c.2
          packetIndex := 3 } := by
    have hready : ¬ c.1 &&& 0x21#8 ≠ 0x21#8 := not_not.mpr hc
    unfold mouseRun mouseRun
    rw [mouseHandler_start ha (by omega), mouseHandler_start hd (by dsimp only; omega)]
    unfold mouseRun mouseRun mouseHandler
    rw [if_neg hready, hm]
    rfl
  rw [hrun]
  refine ⟨?_, mousePacketDone_packetIndex _⟩
  rw [mousePacketDone_mouseState]
  rfl

-- ========================================================= one packet

/-- The pointer stays on the screen. -/
theorem inRange_handled (hw : width < 2 ^ 31) (hh : height < 2 ^ 31) (p : Packet)
    (h : InRange width height s) : InRange width height (handled width height p s) := by
  have hx := h.x_nonneg
  have hxlt := h.x_lt
  have hy := h.y_nonneg
  have hylt := h.y_lt
  have hclamp : ∀ {size : Nat} (v : Int), 0 < size → size < 2 ^ 31 →
      0 ≤ clampTo size (toIntC v) ∧ clampTo size (toIntC v) < size := by
    intro size v hpos hsize
    rw [clampTo_eq hpos hsize (toIntC_range v).2]
    unfold nearest
    omega
  unfold handled
  cases p.valid with
  | false => exact ⟨hx, hxlt, hy, hylt⟩
  | true =>
      obtain ⟨hx0, hx1⟩ := hclamp (s.x + p.dx.toInt) (by omega) hw
      obtain ⟨hy0, hy1⟩ := hclamp (s.y - p.dy.toInt) (by omega) hh
      exact ⟨hx0, hx1, hy0, hy1⟩

/-- The handler does with a packet what a decoder does where they agree. -/
theorem decodes_handled_iff (hw : width < 2 ^ 31) (hh : height < 2 ^ 31) (p : Packet)
    (h : InRange width height s) :
    Decodes width height p s (handled width height p s) ↔ Agrees width height p s := by
  have hon := inRange_handled hw hh p h
  have hx := clampTo_right (p.flags.getLsbD 4) p.dx h.x_nonneg h.x_lt hw
  have hy := clampTo_down (p.flags.getLsbD 5) p.dy h.y_nonneg h.y_lt hh
  cases hv : p.valid with
  | false =>
      have hstate : handled width height p s = s ↔
          p.flags.getLsbD 0 = s.left ∧ p.flags.getLsbD 1 = s.right
            ∧ p.flags.getLsbD 2 = s.middle := by
        obtain ⟨x, y, left, right, middle⟩ := s
        simp [handled, hv]
      have hno : p.valid ≠ true := by simp [hv]
      constructor
      · intro hdec
        exact ⟨fun _ => hstate.mp (hdec.invalid hv), fun hv' => absurd hv' hno,
          fun hv' => absurd hv' hno⟩
      · intro hag
        exact ⟨fun _ => hstate.mpr (hag.buttons hv), fun hv' => absurd hv' hno, hon⟩
  | true =>
      have hstate : handled width height p s = p.decode width height s ↔
          AgreesX width (p.flags.getLsbD 4) p.dx s.x ∧
            AgreesY height (p.flags.getLsbD 5) p.dy s.y := by
        rw [← hx, ← hy]
        simp [handled, Packet.decode, hv]
      have hno : p.valid ≠ false := by simp [hv]
      constructor
      · intro hdec
        exact ⟨fun hv' => absurd hv' hno,
          fun _ hover => (hstate.mp (hdec.valid hv hover)).1,
          fun _ hover => (hstate.mp (hdec.valid hv hover)).2⟩
      · intro hag
        exact ⟨fun hv' => absurd hv' hno,
          fun _ hover => hstate.mpr ⟨hag.x hv hover, hag.y hv hover⟩, hon⟩

-- ============================================================= streams

/-- `R` holds of every packet of the stream, with the states before and
after it. -/
def EachPacket (width height : Nat) (R : Packet → MouseState → MouseState → Prop) :
    Mouse → List (Byte × Byte) → Prop
  | m, a :: b :: c :: bytes =>
      R ⟨a.2, b.2, c.2⟩ m.mouseState (mouseRun width height m [a, b, c]).mouseState ∧
        EachPacket width height R (mouseRun width height m [a, b, c]) bytes
  | _, _ => True

/-- The packets of a stream; the last one may still be coming in. -/
def packets : List (Byte × Byte) → List Packet
  | a :: b :: c :: bytes => ⟨a.2, b.2, c.2⟩ :: packets bytes
  | _ => []

/-- A decoder of packets without overflow bits. -/
def Packet.reference (width height : Nat) (p : Packet) (s : MouseState) : MouseState :=
  if p.valid then p.decode width height s else s

variable {R R' : Packet → MouseState → MouseState → Prop}

/-- Two relations that agree on what the handler does are the same along
a stream. -/
theorem EachPacket.congr (hw : width < 2 ^ 31) (hh : height < 2 ^ 31)
    (hbytes : ∀ b ∈ bytes, Ready b) (hm : m.packetIndex = 0)
    (hon : InRange width height m.mouseState)
    (hR : ∀ p ∈ packets bytes, ∀ s, InRange width height s →
      (R p s (handled width height p s) ↔ R' p s (handled width height p s))) :
    EachPacket width height R m bytes ↔ EachPacket width height R' m bytes := by
  induction bytes using packets.induct generalizing m with
  | case1 a b c bytes ih =>
      obtain ⟨ha, hb, hc, hrest⟩ : Ready a ∧ Ready b ∧ Ready c ∧ ∀ b ∈ bytes, Ready b := by
        simpa using hbytes
      obtain ⟨hstate, hindex⟩ := mouseRun_packet width height ha hb hc hm
      obtain ⟨hp, hps⟩ := List.forall_mem_cons.mp hR
      have hhead := hp m.mouseState hon
      have htail := ih hrest hindex (hstate ▸ inRange_handled hw hh _ hon) hps
      unfold EachPacket
      rw [hstate, hhead, htail]
  | case2 bytes hshort =>
      rcases bytes with _ | ⟨a, _ | ⟨b, _ | ⟨c, rest⟩⟩⟩
      · exact Iff.rfl
      · exact Iff.rfl
      · exact Iff.rfl
      · exact absurd rfl (hshort a b c rest)

theorem length_of_short (h : ∀ a b c rest, bytes = a :: b :: c :: rest → False) :
    bytes.length < 3 := by
  rcases bytes with _ | ⟨a, _ | ⟨b, _ | ⟨c, rest⟩⟩⟩
  · simp
  · simp
  · simp
  · exact absurd rfl (h a b c rest)

/-- The beginning of a packet changes nothing. -/
theorem mouseRun_of_short (width height : Nat) (hbytes : ∀ b ∈ bytes, Ready b)
    (hm : m.packetIndex = 0)
    (hshort : bytes.length < 3) :
    (mouseRun width height m bytes).mouseState = m.mouseState ∧ packets bytes = [] := by
  rcases bytes with _ | ⟨a, _ | ⟨b, _ | ⟨c, rest⟩⟩⟩
  · exact ⟨rfl, rfl⟩
  · obtain ⟨ha, -⟩ := List.forall_mem_cons.mp hbytes
    exact ⟨(mouseRun_start ha ha hm).1, rfl⟩
  · obtain ⟨ha, hrest⟩ := List.forall_mem_cons.mp hbytes
    exact ⟨(mouseRun_start ha (hrest b List.mem_cons_self) hm).2, rfl⟩
  · simp only [List.length_cons] at hshort
    omega

/-- The pointer never leaves the screen. -/
theorem onScreen_mouseRun (hw : width < 2 ^ 31) (hh : height < 2 ^ 31)
    (hbytes : ∀ b ∈ bytes, Ready b) (hm : m.packetIndex = 0)
    (hon : InRange width height m.mouseState) :
    InRange width height (mouseRun width height m bytes).mouseState := by
  induction bytes using packets.induct generalizing m with
  | case1 a b c bytes ih =>
      obtain ⟨ha, hb, hc, hrest⟩ : Ready a ∧ Ready b ∧ Ready c ∧ ∀ b ∈ bytes, Ready b := by
        simpa using hbytes
      obtain ⟨hstate, hindex⟩ := mouseRun_packet width height ha hb hc hm
      exact ih hrest hindex (hstate ▸ inRange_handled hw hh _ hon)
  | case2 bytes hshort =>
      rw [(mouseRun_of_short width height hbytes hm (length_of_short hshort)).1]
      exact hon

/-- A decoder that is followed from packet to packet is followed by every
beginning of the stream, and the other way round. -/
theorem fold_iff_eachPacket (hbytes : ∀ b ∈ bytes, Ready b) (hm : m.packetIndex = 0)
    (ref : Packet → MouseState → MouseState) :
    (∀ n, (mouseRun width height m (bytes.take n)).mouseState
        = (packets (bytes.take n)).foldl (fun s p => ref p s) m.mouseState)
      ↔ EachPacket width height (fun p s s' => s' = ref p s) m bytes := by
  induction bytes using packets.induct generalizing m with
  | case1 a b c bytes ih =>
      obtain ⟨ha, hb, hc, hrest⟩ : Ready a ∧ Ready b ∧ Ready c ∧ ∀ b ∈ bytes, Ready b := by
        simpa using hbytes
      obtain ⟨hstate, hindex⟩ := mouseRun_packet width height ha hb hc hm
      have htail := ih hrest hindex
      unfold EachPacket
      constructor
      · intro h
        have hhead : (mouseRun width height m [a, b, c]).mouseState = _ := h 3
        refine ⟨hhead, htail.mp fun n => ?_⟩
        rw [hhead]
        exact h (n + 3)
      · rintro ⟨hhead, hps⟩ n
        rcases Nat.lt_or_ge n 3 with hn | hn
        · obtain ⟨hsame, hnone⟩ := mouseRun_of_short width height
            (fun x (hx : x ∈ (a :: b :: c :: bytes).take n) => hbytes x (List.mem_of_mem_take hx))
            hm (by rw [List.length_take]; omega)
          rw [hsame, hnone]
          rfl
        · obtain ⟨k, rfl⟩ := Nat.exists_eq_add_of_le' hn
          have hk := htail.mpr hps k
          rw [hhead] at hk
          exact hk
  | case2 bytes hshort =>
      refine ⟨fun _ => ?_, fun _ n => ?_⟩
      · rcases bytes with _ | ⟨a, _ | ⟨b, _ | ⟨c, rest⟩⟩⟩
        · trivial
        · trivial
        · trivial
        · exact absurd rfl (hshort a b c rest)
      · obtain ⟨hsame, hnone⟩ := mouseRun_of_short width height
          (fun x (hx : x ∈ bytes.take n) => hbytes x (List.mem_of_mem_take hx)) hm
          (by
            have hlen := length_of_short hshort
            rw [List.length_take]
            omega)
        rw [hsame, hnone]
        rfl

/-- `mouse_handler` decodes a stream of bytes, packet by packet and so as
a whole, exactly when no packet without bit 3 changes the buttons and
every other one without overflow has movements that the code reads
rightly. The pointer is always on the screen. -/
theorem mouse_decodes_iff (hw : 0 < width) (hw' : width < 2 ^ 31) (hh : 0 < height)
    (hh' : height < 2 ^ 31) (hbytes : ∀ b ∈ bytes, Ready b) :
    (EachPacket width height (Decodes width height) mouseBoot bytes
        ↔ EachPacket width height (fun p s _ => Agrees width height p s) mouseBoot bytes) ∧
      ((∀ p ∈ packets bytes, p.overflow = false) →
        ((∀ n, (mouseRun width height mouseBoot (bytes.take n)).mouseState
            = (packets (bytes.take n)).foldl (fun s p => p.reference width height s)
                mouseBoot.mouseState)
          ↔ EachPacket width height (fun p s _ => Agrees width height p s) mouseBoot bytes)) ∧
      ∀ n, InRange width height
        (mouseRun width height mouseBoot (bytes.take n)).mouseState := by
  have hboot : InRange width height mouseBoot.mouseState :=
    ⟨Int.le_refl 0, Int.natCast_pos.mpr hw, Int.le_refl 0, Int.natCast_pos.mpr hh⟩
  have hiff : EachPacket width height (Decodes width height) mouseBoot bytes
      ↔ EachPacket width height (fun p s _ => Agrees width height p s) mouseBoot bytes :=
    EachPacket.congr hw' hh' hbytes rfl hboot fun p _ s hs => decodes_handled_iff hw' hh' p hs
  refine ⟨hiff, fun hover => ?_, fun n => ?_⟩
  · rw [fold_iff_eachPacket hbytes rfl, ← hiff]
    apply EachPacket.congr hw' hh' hbytes rfl hboot
    intro p hp s hs
    have hnone := hover p hp
    have hon := inRange_handled hw' hh' p hs
    unfold Packet.reference
    cases hv : p.valid with
    | false =>
        exact ⟨fun h => ⟨fun _ => h, fun h' => by simp [hv] at h', hon⟩, fun h => h.invalid hv⟩
    | true =>
        exact ⟨fun h => ⟨fun h' => by simp [hv] at h', fun _ _ => h, hon⟩,
          fun h => h.valid hv hnone⟩
  · exact onScreen_mouseRun hw' hh' (fun b hb => hbytes b (List.mem_of_mem_take hb)) rfl hboot

/-- The left button and two movements, five pixels to the right and two
down; three pixels back with the button up; and a packet without bit 3. -/
def threePackets : List (Byte × Byte) :=
  [0x29#8, 5#8, 0xFE#8, 0x18#8, 0xFD#8, 0#8, 0#8, 7#8, 7#8].map fun b => (0x21#8, b)

/-- All three are decoded. -/
theorem mouse_decodes_iff_packet :
    EachPacket 1024 768 (Decodes 1024 768) mouseBoot threePackets := by
  have hready : ∀ b ∈ threePackets, Ready b := by simp [threePackets, Ready]
  refine (mouse_decodes_iff (by decide) (by decide) (by decide) (by decide) hready).1.mpr ?_
  refine ⟨⟨by decide, ?_, ?_⟩, ⟨by decide, ?_, ?_⟩, ⟨by decide, ?_, ?_⟩, trivial⟩
  · exact fun _ _ => .inr (.inl (by decide))
  · exact fun _ _ => .inr (.inl (by decide))
  · exact fun _ _ => .inr (.inl (by decide))
  · exact fun _ _ => .inr (.inl (by decide))
  · exact fun hvalid => absurd hvalid (by decide)
  · exact fun hvalid => absurd hvalid (by decide)

/-- Two streams of one packet: the left button without bit 3, and 200
pixels to the right, where the pointer stays where it is. -/
theorem mouse_misreads :
    ¬ EachPacket 1024 768 (Decodes 1024 768) mouseBoot
        [(0x21#8, 1#8), (0x21#8, 0#8), (0x21#8, 0#8)] ∧
      ¬ EachPacket 1024 768 (Decodes 1024 768) mouseBoot
        [(0x21#8, 8#8), (0x21#8, 200#8), (0x21#8, 0#8)] := by
  constructor
  · intro h
    exact absurd (h.1.invalid (by decide)) (by decide)
  · intro h
    exact absurd (h.1.valid (by decide) (by decide)) (by decide)

end ZenithOS.Drivers
