/-
The text terminal: `terminal/terminal.c` with `terminal_buffer.h`.

# Screen

The screen buffer is a function of row and column. The loops over it
have constant bounds; a store at the cursor is checked, and has no result
outside the array (`storeCell`), so that a call that comes back has
stayed inside.

# Drawing

`terminal_render` reads the screen and draws it on the framebuffer. It
changes none of the state here and is left out, with the origin it draws
at.
-/
import ZenithOS.Klib.String
import ZenithOS.Lib.Loop
import ZenithOS.Lib.Run

namespace ZenithOS.Term

open Lib Klib

/-- `TERM_COLS`. -/
def termCols : Nat := 80

/-- `TERM_ROWS`. -/
def termRows : Nat := 50

/-- `INPUT_BUFFER_SIZE`. -/
def inputBufferSize : Nat := 256

/-- `'\n'`. -/
def newline : Byte := 10#8

/-- `' '`. -/
def space : Byte := 32#8

/-- `terminal_cell_t`. -/
structure TerminalCell where
  character : Byte
  foreground : BitVec 32
  background : BitVec 32
  deriving DecidableEq, Repr

/-- `terminal_buffer`, row by row. -/
abbrev Screen := Nat → Nat → TerminalCell

/-- The variables of the file. -/
structure Terminal where
  cursorRow : Nat
  cursorCol : Nat
  inputBuffer : Nat → Byte
  inputLength : Nat
  buffer : Screen
  color : BitVec 32

/-- As the kernel starts. -/
def terminalBoot : Terminal :=
  ⟨0, 0, fun _ => 0#8, 0, fun _ _ => ⟨0#8, 0#32, 0#32⟩, 0xFFFFFF#32⟩

/-- A cell with nothing in it. -/
def blankCell : TerminalCell := ⟨space, 0xFFFFFF#32, 0x000000#32⟩

/-- Stores a cell. -/
def setCell (row col : Nat) (cell : TerminalCell) (b : Screen) : Screen :=
  Function.update b row (Function.update (b row) col cell)

-- ============================================================== rows

/-- One round of the outer loop of `terminal_scroll`. -/
def copyRowUp (row : Nat) (b : Screen) : Screen :=
  forUp (fun col b => setCell (row - 1) col (b row col) b) 0 termCols b

/-- The last loop of `terminal_scroll`, for one row. -/
def clearRow (row : Nat) (b : Screen) : Screen :=
  forUp (fun col b => setCell row col blankCell b) 0 termCols b

/-- `terminal_scroll`. -/
def terminalScroll (t : Terminal) : Terminal :=
  { t with
    buffer := clearRow (termRows - 1) (forUp copyRowUp 1 (termRows - 1) t.buffer)
    cursorRow := termRows - 1
    cursorCol := 0 }

/-- `terminal_init`. -/
def terminalInit (t : Terminal) : Terminal :=
  { t with
    cursorRow := 0
    cursorCol := 0
    color := 0xFFFFFF#32
    buffer := forUp clearRow 0 termRows t.buffer }

-- ======================================================== characters

/-- What `terminal_putchar` does after a newline and after column 79. -/
def nextRow (t : Terminal) : Terminal :=
  let t := { t with cursorCol := 0, cursorRow := t.cursorRow + 1 }
  if termRows ≤ t.cursorRow then terminalScroll t else t

/-- `terminal_buffer[cursor_row][cursor_col] = cell`. -/
def storeCell (cell : TerminalCell) (t : Terminal) : Option Terminal :=
  if t.cursorRow < termRows ∧ t.cursorCol < termCols then
    some { t with buffer := setCell t.cursorRow t.cursorCol cell t.buffer }
  else none

/-- The cursor has written its cell. -/
def nextCol (t : Terminal) : Terminal :=
  let t := { t with cursorCol := t.cursorCol + 1 }
  if termCols ≤ t.cursorCol then nextRow t else t

/-- `terminal_putchar`. -/
def terminalPutchar (c : Byte) (t : Terminal) : Option Terminal :=
  if c = newline then some (nextRow t)
  else if termRows ≤ t.cursorRow then some (terminalScroll t)
  else (storeCell ⟨c, t.color, 0x000000#32⟩ t).map nextCol

/-- `terminal_backspace`. -/
def terminalBackspace (t : Terminal) : Option Terminal :=
  if t.cursorRow = 0 ∧ t.cursorCol = 0 then some t
  else
    let t :=
      if t.cursorCol = 0 then { t with cursorRow := t.cursorRow - 1, cursorCol := termCols }
      else t
    storeCell blankCell { t with cursorCol := t.cursorCol - 1 }

/-- One `terminal_putchar` after the other. -/
def terminalPuts : List Byte → Terminal → Option Terminal
  | [], t => some t
  | c :: s, t => (terminalPutchar c t).bind (terminalPuts s)

/-- `terminal_write`. -/
def terminalWrite (str : List Byte) (t : Terminal) : Option Terminal :=
  terminalPuts (cString str) t

/-- `terminal_set_color`. -/
def terminalSetColor (color : BitVec 32) (t : Terminal) : Terminal :=
  { t with color := color }

-- ============================================================= input

/-- `input_buffer[input_length++] = c` and the NUL behind it. -/
def appendInput (c : Byte) (t : Terminal) : Terminal :=
  { t with
    inputBuffer :=
      Function.update (Function.update t.inputBuffer t.inputLength c) (t.inputLength + 1) 0#8
    inputLength := t.inputLength + 1 }

/-- `terminal_handle_key`. -/
def terminalHandleKey (c : Byte) (t : Terminal) : Option Terminal :=
  if inputBufferSize - 1 ≤ t.inputLength then some t
  else terminalPutchar c (appendInput c t)

/-- The array `terminal_get_input` points to. -/
def terminalGetInput (t : Terminal) : List Byte :=
  (List.range inputBufferSize).map t.inputBuffer

-- ============================================================== runs

/-- The calls of the terminal. -/
inductive TermOp
  | putchar (c : Byte)
  | backspace
  | write (str : List Byte)
  | setColor (color : BitVec 32)
  | handleKey (c : Byte)
  deriving DecidableEq, Repr

/-- One call; `none` when it stores outside the screen. -/
def termStep (t : Terminal) : TermOp → Option Terminal
  | .putchar c => terminalPutchar c t
  | .backspace => terminalBackspace t
  | .write str => terminalWrite str t
  | .setColor color => some (terminalSetColor color t)
  | .handleKey c => terminalHandleKey c t

end ZenithOS.Term
