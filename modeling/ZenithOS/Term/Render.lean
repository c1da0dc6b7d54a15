/-
The terminal on the framebuffer: `terminal_render` and
`terminal_set_origin` of `terminal/terminal.c`, and the calls that render.

A `Display` is the terminal with where it is drawn and the memory it is
drawn in. For the runs it also keeps the text that was written and typed
so far, and as much of it as there was when the screen was last rendered.
-/
import ZenithOS.Term.Terminal
import ZenithOS.Font.Font

namespace ZenithOS.Term

open Lib Klib Graphics Font

/-- The pixels of a character cell. -/
def cellSize : Nat := 16

/-- The terminal, where it lies on the screen, and the screen's memory. -/
structure Display where
  terminal : Terminal
  originX : Int
  originY : Int
  fontScale : Nat
  mem : Mem

/-- `terminal_set_origin`. -/
def terminalSetOrigin (x y : Int) (d : Display) : Display := { d with originX := x, originY := y }

variable (f : Framebuffer)

/-- One round of the inner loop of `terminal_render`. -/
def renderCell (d : Display) (row col : Nat) (m : Mem) : Mem :=
  let cell := d.terminal.buffer row col
  if cell.character = space then m
  else
    drawChar f d.fontScale
      (intOfUnsigned (wordAdd (sizeOfInt d.originX) (col * cellSize)))
      (intOfUnsigned (wordAdd (sizeOfInt d.originY) (row * cellSize)))
      cell.character cell.foreground m

/-- `terminal_render`. -/
def terminalRender (d : Display) : Display :=
  let m := fillRect f (sizeOfInt d.originX) (sizeOfInt d.originY) (termCols * cellSize)
    (termRows * cellSize) 0x000000#32 d.mem
  { d with
    mem := forUp (fun row => forUp (fun col => renderCell f d row col) 0 termCols) 0 termRows m }

-- =============================================================== the calls

/-- The terminal has moved on. -/
def Display.after (d : Display) (t : Terminal) : Display := { d with terminal := t }

/-- A call with its rendering. `terminal_putchar` does not render, and a
key that finds the input line full does nothing. -/
def displayCall (d : Display) : TermOp → Option Display
  | .putchar c => (terminalPutchar c d.terminal).map d.after
  | .backspace =>
      if d.terminal.cursorRow = 0 ∧ d.terminal.cursorCol = 0 then some d
      else (terminalBackspace d.terminal).map fun t => terminalRender f (d.after t)
  | .write str => (terminalWrite str d.terminal).map fun t => terminalRender f (d.after t)
  | .setColor color => some (d.after (terminalSetColor color d.terminal))
  | .handleKey c =>
      if inputBufferSize - 1 ≤ d.terminal.inputLength then some d
      else (terminalHandleKey c d.terminal).map fun t => terminalRender f (d.after t)

/-- The characters that a call prints. -/
def TermOp.text (t : Terminal) : TermOp → List Byte
  | .putchar c => [c]
  | .write str => cString str
  | .handleKey c => if inputBufferSize - 1 ≤ t.inputLength then [] else [c]
  | .backspace | .setColor _ => []

/-- The call ends with `terminal_render`. -/
def TermOp.renders (t : Terminal) : TermOp → Bool
  | .putchar _ | .setColor _ => false
  | .write _ => true
  | .backspace => !(t.cursorRow = 0 ∧ t.cursorCol = 0)
  | .handleKey _ => !(inputBufferSize - 1 ≤ t.inputLength)

/-- The display, the text so far, and the text when it was last rendered. -/
structure TermSession where
  display : Display
  text : List Byte
  rendered : Option (List Byte)

/-- One call, recorded. -/
def termSessionStep (s : TermSession) (op : TermOp) : Option TermSession :=
  (displayCall f s.display op).map fun d =>
    let text := s.text ++ op.text s.display.terminal
    { display := d
      text := text
      rendered := if op.renders s.display.terminal then some text else s.rendered }

/-- The call is none that erases or colours. -/
def TermOp.Plain : TermOp → Prop
  | .backspace | .setColor _ => False
  | _ => True

instance : ∀ op : TermOp, Decidable op.Plain
  | .backspace | .setColor _ => isFalse id
  | .putchar _ | .write _ | .handleKey _ => isTrue trivial

end ZenithOS.Term
