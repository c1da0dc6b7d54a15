/-
The keyboard: `drivers/keyboard.c` with `drivers/scancode.c`.

The handler is run with the byte it reads from the controller. The keys
go to the terminal; there is no result where the terminal has none.
-/
import ZenithOS.Term.Terminal

namespace ZenithOS.Drivers

open Lib Klib Term

/-- `'\b'`. -/
def backspaceChar : Byte := 8#8

/-- The entries of `scancode_table`; the others are 0. -/
def scancodeTable : List (Nat × Byte) :=
  [(0x02, 49#8), (0x03, 50#8), (0x04, 51#8), (0x05, 52#8), (0x06, 53#8), (0x07, 54#8),
   (0x08, 55#8), (0x09, 56#8), (0x0A, 57#8), (0x0B, 48#8),
   (0x10, 113#8), (0x11, 119#8), (0x12, 101#8), (0x13, 114#8), (0x14, 116#8), (0x15, 121#8),
   (0x16, 117#8), (0x17, 105#8), (0x18, 111#8), (0x19, 112#8),
   (0x1E, 97#8), (0x1F, 115#8), (0x20, 100#8), (0x21, 102#8), (0x22, 103#8), (0x23, 104#8),
   (0x24, 106#8), (0x25, 107#8), (0x26, 108#8),
   (0x2C, 122#8), (0x2D, 120#8), (0x2E, 99#8), (0x2F, 118#8), (0x30, 98#8), (0x31, 110#8),
   (0x32, 109#8),
   (0x39, 32#8), (0x1C, 10#8), (0x0E, 8#8)]

/-- `scancode_to_ascii[scancode]`, 0 where the table of 128 has no entry. -/
def scancodeToAscii (scancode : Byte) : Byte :=
  if 128 ≤ scancode.toNat then 0#8 else (scancodeTable.lookup scancode.toNat).getD 0#8

/-- `keyboard_handler`: key releases and keys without a character are
dropped. -/
def keyboardHandler (scancode : Byte) (t : Terminal) : Option Terminal :=
  if scancode &&& 0x80#8 ≠ 0#8 then some t
  else
    let c := scancodeToAscii scancode
    if c = backspaceChar then terminalBackspace t
    else if c ≠ 0#8 then terminalHandleKey c t
    else some t

/-- The character of a key that is pressed, 0 for a key that is released
or has none. -/
def keyPressed (scancode : Byte) : Byte :=
  if scancode &&& 0x80#8 ≠ 0#8 then 0#8 else scancodeToAscii scancode

end ZenithOS.Drivers
