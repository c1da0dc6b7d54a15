/-
Formatted output: `stdio/printf.c`.

# State

`fmt` is what is left of the array the format stands in, from the
character it points to on; reading behind the array has no result. The
arguments are the words of the `va_list`, always enough of them; an
`int` or a `uint32_t` is the low half of its word. The pointers that
`%s` is given point to `strAt`. For the most negative `int`, which
`int_to_string` cannot negate, `%d` prints the string in `overflowed`,
whatever it is.

# Output

`out` collects the characters of `kprintf_putc`, which hands each of them
to `terminal_putchar` and to the debug port.
-/
import ZenithOS.Klib.Convert

namespace ZenithOS.Stdio

open Lib Klib

/-- The format from `fmt` on, the arguments taken, and the characters
printed. -/
structure Printf where
  fmt : List Byte
  argc : Nat
  out : List Byte
  deriving DecidableEq, Repr

/-- The arguments of a call. -/
structure VaList where
  word : Nat → BitVec 64
  strAt : BitVec 64 → List Byte
  overflowed : Buffer

/-- A buffer on the stack, with whatever it holds. -/
def stackBuffer : Buffer := fun _ => 0#8

-- ========================================================== characters

/-- `'%'`. -/
def percent : Byte := 37#8

/-- `'c'`. -/
def charC : Byte := 99#8

/-- `'d'`. -/
def charD : Byte := 100#8

/-- `'l'`. -/
def charL : Byte := 108#8

/-- `'p'`. -/
def charP : Byte := 112#8

/-- `'s'`. -/
def charS : Byte := 115#8

/-- `'u'`. -/
def charU : Byte := 117#8

/-- `'x'`. -/
def charX : Byte := 120#8

/-- `kprintf_putc`. -/
def kprintfPutc (ch : Byte) (s : Printf) : Printf := { s with out := s.out ++ [ch] }

/-- `kprintf_puts`. -/
def kprintfPuts (str : List Byte) (s : Printf) : Printf := { s with out := s.out ++ str }

/-- `va_arg`. -/
def vaArg (args : VaList) (s : Printf) : BitVec 64 := args.word s.argc

/-- A directive has printed `str` for its argument; `rest` comes next. -/
def took (str rest : List Byte) (s : Printf) : Printf :=
  { kprintfPuts str s with fmt := rest, argc := s.argc + 1 }

/-- `kprintf_putc(*fmt); fmt++;` with `c` under `fmt`. -/
def literal (c : Byte) (rest : List Byte) (s : Printf) : Printf :=
  { kprintfPutc c s with fmt := rest }

-- ========================================================== directives

variable (args : VaList)

/-- The tests for `x`, `u` and `p` and what follows them; `c` is under
`fmt`. -/
def shortDirective (c : Byte) (rest : List Byte) (s : Printf) : Printf :=
  let value := vaArg args s
  if c = charX then
    took (bufferString 17 (uint64ToHex ((value.setWidth 32).setWidth 64) stackBuffer)) rest s
  else if c = charU then
    took (bufferString 16 (uintToString (value.setWidth 32) stackBuffer)) rest s
  else if c = charP then
    took ([48#8, charX] ++ bufferString 17 (uint64ToHex value stackBuffer)) rest s
  else literal c rest s

/-- Behind `%l`, with the second `l` skipped. -/
def longTail (fmt : List Byte) (s : Printf) : Option Printf :=
  match fmt with
  | [] => none
  | c :: rest =>
      if c = charX then
        some (took (bufferString 17 (uint64ToHex (vaArg args s) stackBuffer)) rest s)
      else some (shortDirective args c rest s)

/-- Behind `%l`. -/
def longDirective (fmt : List Byte) (s : Printf) : Option Printf :=
  match fmt with
  | [] => none
  | c :: rest => if c = charL then longTail args rest s else longTail args (c :: rest) s

/-- Behind `%`. -/
def directive (fmt : List Byte) (s : Printf) : Option Printf :=
  match fmt with
  | [] => none
  | c :: rest =>
      let value := vaArg args s
      if c = charC then some (took [value.setWidth 8] rest s)
      else if c = charD then
        some (took (bufferString 16
          (intToString args.overflowed (value.setWidth 32) stackBuffer)) rest s)
      else if c = charS then some (took (cString (args.strAt value)) rest s)
      else if c = charL then longDirective args rest s
      else some (shortDirective args c rest s)

/-- The body of the loop, with `c` under `fmt`. -/
def kprintfBody (c : Byte) (rest : List Byte) (s : Printf) : Option Printf :=
  if c = percent then directive args rest s else some (literal c rest s)

/-- The loop, for a number of rounds. -/
def kprintfLoop : Nat → Printf → Option Printf
  | 0, _ => none
  | rounds + 1, s =>
      match s.fmt with
      | [] => none
      | c :: rest =>
          if c = 0#8 then some s else (kprintfBody args c rest s).bind (kprintfLoop rounds)

/-- `kprintf` of the string `fmt`. -/
def kprintf (fmt : List Byte) (rounds : Nat) : Option Printf :=
  kprintfLoop args rounds ⟨fmt ++ [0#8], 0, []⟩

end ZenithOS.Stdio
