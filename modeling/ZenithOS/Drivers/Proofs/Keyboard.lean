/-
The input line and the screen under the keys.

# The reference

An edit line is the text typed so far and, for each character of it, the
cell of the screen where it stands, if any. `Follows` says of a sequence
of keys that the input buffer holds the text of the edit line at every
moment, and that a backspace erases no cell but one of the line's.

# The code

The handler gives a backspace to the screen and not to the input buffer.
So the two come apart at the first backspace behind a typed character,
and a backspace in front of all of them takes what stands on the screen
before the line. What is left are the runs in which a backspace has
nothing to do (`Idle`).
-/
import ZenithOS.Drivers.Keyboard
import ZenithOS.Term.Proofs.Contents

namespace ZenithOS.Drivers

open Lib Klib Term

variable {t t' : Terminal} {c sc : Byte} {text : List Byte} {keys : List Byte} {r k : Nat}

-- ========================================================= the edit line

/-- A line being edited: its text, and where each character was put. -/
structure EditLine where
  text : List Byte
  places : List (Option (Nat × Nat))

/-- The screen moves up by one row. -/
def moveUp : Option (Nat × Nat) → Option (Nat × Nat)
  | some (r + 1, k) => some (r, k)
  | _ => none

/-- A character that is put at the cursor scrolls the screen. -/
def Scrolls (c : Byte) (t : Terminal) : Prop :=
  t.cursorRow = termRows - 1 ∧ (c = newline ∨ t.cursorCol = termCols - 1)

instance (c : Byte) (t : Terminal) : Decidable (Scrolls c t) :=
  inferInstanceAs (Decidable (_ ∧ _))

/-- The cell of a character that is put at the cursor. -/
def placeOf (c : Byte) (t : Terminal) : Option (Nat × Nat) :=
  if c = newline then none else some (t.cursorRow, t.cursorCol)

/-- A character is typed while there is room for it. -/
def EditLine.type (c : Byte) (t : Terminal) (line : EditLine) : EditLine :=
  if inputBufferSize - 1 ≤ line.text.length then line
  else
    ⟨line.text ++ [c],
      if Scrolls c t then (line.places ++ [placeOf c t]).map moveUp
      else line.places ++ [placeOf c t]⟩

/-- The last character is taken back. -/
def EditLine.erase (line : EditLine) : EditLine := ⟨line.text.dropLast, line.places.dropLast⟩

/-- The edit line after a key, with the terminal before it. -/
def EditLine.key (sc : Byte) (t : Terminal) (line : EditLine) : EditLine :=
  if keyPressed sc = backspaceChar then line.erase
  else if keyPressed sc = 0#8 then line
  else line.type (keyPressed sc) t

/-- The input buffer holds a text and a NUL behind it. -/
def Reads (t : Terminal) (text : List Byte) : Prop := text ++ [0#8] <+: terminalGetInput t

/-- Only cells of the line change. -/
def ErasesOnly (line : EditLine) (t t' : Terminal) : Prop :=
  ∀ r < termRows, ∀ k < termCols, t'.buffer r k ≠ t.buffer r k → some (r, k) ∈ line.places

/-- The input follows the keys, at every moment. -/
def Follows : Terminal → EditLine → List Byte → Prop
  | t, line, [] => Reads t line.text
  | t, line, sc :: keys =>
      Reads t line.text ∧ ∃ t', keyboardHandler sc t = some t' ∧
        (keyPressed sc = backspaceChar → ErasesOnly line t t') ∧ Follows t' (line.key sc t) keys

-- ================================================================== idle

/-- There is nothing on the screen for a backspace. -/
def BlankBefore (t : Terminal) : Prop :=
  (t.cursorRow = 0 ∧ t.cursorCol = 0)
    ∨ t.buffer (cellBefore t).1 (cellBefore t).2 = blankCell

/-- Every backspace comes before the first character and has nothing on
the screen to erase. -/
def Idle : Terminal → List Byte → Prop
  | _, [] => True
  | t, sc :: keys =>
      (keyPressed sc = backspaceChar → t.inputLength = 0 ∧ BlankBefore t) ∧
        ∀ t', keyboardHandler sc t = some t' → Idle t' keys

/-- What a followed line has as its text is read from the buffer. -/
theorem Follows.reads {line : EditLine} (h : Follows t line keys) : Reads t line.text := by
  cases keys with
  | nil => exact h
  | cons sc keys => exact h.1

/-- Typing keeps a place for each character. -/
theorem EditLine.type_length (c : Byte) (t : Terminal) {line : EditLine}
    (h : line.places.length = line.text.length) :
    (line.type c t).places.length = (line.type c t).text.length := by
  unfold EditLine.type
  split_ifs <;> simp [h]

-- ========================================================== the terminal

/-- The input buffer is not touched. -/
def SameInput (t t' : Terminal) : Prop :=
  t'.inputBuffer = t.inputBuffer ∧ t'.inputLength = t.inputLength

theorem sameInput_nextRow (t : Terminal) : SameInput t (nextRow t) := by
  unfold nextRow
  dsimp only
  split_ifs <;> exact ⟨rfl, rfl⟩

theorem sameInput_nextCol (t : Terminal) : SameInput t (nextCol t) := by
  unfold nextCol
  dsimp only
  split_ifs
  · exact sameInput_nextRow _
  · exact ⟨rfl, rfl⟩

theorem sameInput_storeCell {cell : TerminalCell} (h : storeCell cell t = some t') :
    SameInput t t' := by
  unfold storeCell at h
  split_ifs at h
  cases h
  exact ⟨rfl, rfl⟩

/-- Putting a character on the screen leaves the input alone. -/
theorem sameInput_putchar (h : terminalPutchar c t = some t') : SameInput t t' := by
  unfold terminalPutchar at h
  split_ifs at h
  · cases h
    exact sameInput_nextRow t
  · cases h
    exact ⟨rfl, rfl⟩
  · obtain ⟨u, hu, rfl⟩ := Option.map_eq_some_iff.mp h
    obtain ⟨hbuf, hlen⟩ := sameInput_storeCell hu
    obtain ⟨hbuf', hlen'⟩ := sameInput_nextCol u
    exact ⟨hbuf'.trans hbuf, hlen'.trans hlen⟩

/-- `terminal_backspace` leaves the input alone. -/
theorem sameInput_backspace (hon : OnScreen t) (h : terminalBackspace t = some t') :
    SameInput t t' := by
  rw [hon.backspace_eq] at h
  cases h
  split_ifs <;> exact ⟨rfl, rfl⟩

/-- Where the line has no cells, a backspace must leave the screen alone,
and does so where there is nothing to erase. -/
theorem erasesOnly_nil_iff (hon : OnScreen t) (h : terminalBackspace t = some t') {line : EditLine}
    (hline : line.places = []) : ErasesOnly line t t' ↔ BlankBefore t := by
  have hrange := hon.cellBefore_lt
  rw [hon.backspace_eq] at h
  obtain rfl := Option.some.inj h
  unfold ErasesOnly BlankBefore
  simp only [hline, List.not_mem_nil, imp_false, not_not]
  by_cases horigin : t.cursorRow = 0 ∧ t.cursorCol = 0
  · rw [if_pos horigin]
    exact ⟨fun _ => .inl horigin, fun _ _ _ _ _ => rfl⟩
  · rw [if_neg horigin]
    dsimp only
    constructor
    · intro h
      have hcell := h _ hrange.1 _ hrange.2
      rw [setCell_apply, if_pos ⟨rfl, rfl⟩] at hcell
      exact .inr hcell.symm
    · intro h r hr k hk
      rw [setCell_apply]
      by_cases hcell : r = (cellBefore t).1 ∧ k = (cellBefore t).2
      · rw [if_pos hcell, hcell.1, hcell.2]
        exact (h.resolve_left horigin).symm
      · rw [if_neg hcell]

-- ============================================================= the buffer

/-- The buffer holds the text, with room for the NUL. -/
structure Holds (t : Terminal) (text : List Byte) : Prop where
  length : t.inputLength = text.length
  room : text.length < inputBufferSize
  chars : ∀ i (h : i < text.length), t.inputBuffer i = text[i]
  nul : t.inputBuffer text.length = 0#8
  nonzero : ∀ c ∈ text, c ≠ 0#8

/-- Only the input matters for what is held. -/
theorem Holds.sameInput (h : Holds t text) (hsame : SameInput t t') : Holds t' text := by
  obtain ⟨hbuf, hlen⟩ := hsame
  exact ⟨hlen.trans h.length, h.room, fun i hi => by rw [hbuf, h.chars i hi],
    by rw [hbuf, h.nul], h.nonzero⟩

/-- A character more in the buffer. -/
theorem Holds.append (h : Holds t text) (hroom : text.length + 1 < inputBufferSize) (hc : c ≠ 0#8) :
    Holds (appendInput c t) (text ++ [c]) where
  length := by simp [appendInput, h.length]
  room := by simpa using hroom
  chars i hi := by
    unfold appendInput
    dsimp only
    rw [List.length_append, List.length_singleton] at hi
    rw [Function.update_of_ne (by rw [h.length]; omega), h.length]
    by_cases hlast : i = text.length
    · subst hlast
      simp
    · rw [Function.update_of_ne hlast, h.chars i (by omega), List.getElem_append_left (by omega)]
  nul := by simp [appendInput, h.length]
  nonzero x hx := by
    rcases List.mem_append.mp hx with hx | hx
    · exact h.nonzero x hx
    · rw [List.mem_singleton.mp hx]
      exact hc

/-- The array begins with the text and a NUL. -/
theorem Holds.reads (h : Holds t text) : Reads t text := by
  have hroom := h.room
  unfold Reads terminalGetInput
  have hfront : text ++ [0#8] = (List.range (text.length + 1)).map t.inputBuffer := by
    apply List.ext_getElem
    · simp
    · intro i hi hi'
      rw [List.getElem_map, List.getElem_range]
      by_cases hlast : i < text.length
      · rw [List.getElem_append_left hlast, h.chars i hlast]
      · obtain rfl : i = text.length := by
          rw [List.length_append, List.length_singleton] at hi
          omega
        simp [h.nul]
  obtain ⟨n, hn⟩ := Nat.exists_eq_add_of_le (Nat.succ_le_of_lt hroom)
  rw [hfront, hn, List.range_add (n := text.length.succ), List.map_append]
  exact List.prefix_append _ _

/-- No shorter text does. -/
theorem Holds.not_reads {text' : List Byte} (h : Holds t text) (hlen : text'.length < text.length) :
    ¬ Reads t text' := by
  intro hreads
  have hroom := h.room
  obtain ⟨rest, hrest⟩ := hreads
  have hat := congrArg (fun l => l[text'.length]?) hrest
  unfold terminalGetInput at hat
  rw [List.getElem?_append_left (by simp), List.getElem?_concat_length, List.getElem?_map,
    List.getElem?_range (by omega), Option.map_some, h.chars _ hlen] at hat
  exact h.nonzero _ (List.getElem_mem hlen) (Option.some.inj hat).symm

-- ================================================================= keys

/-- A key is a backspace, no character, or a character. -/
theorem keyboardHandler_eq (sc : Byte) (t : Terminal) :
    keyboardHandler sc t
      = if keyPressed sc = backspaceChar then terminalBackspace t
        else if keyPressed sc = 0#8 then some t
        else terminalHandleKey (keyPressed sc) t := by
  unfold keyboardHandler keyPressed
  by_cases hreleased : sc &&& 0x80#8 ≠ 0#8
  · rw [if_pos hreleased, if_pos hreleased, if_neg (by decide), if_pos rfl]
  · rw [if_neg hreleased, if_neg hreleased]
    dsimp only
    by_cases hchar : scancodeToAscii sc = 0#8
    · rw [if_neg (not_not.mpr hchar), if_pos hchar]
    · rw [if_pos hchar, if_neg hchar]

/-- A key that is not a backspace is typed into the buffer as into the
edit line. -/
theorem Holds.typed (h : Holds t text) (hon : OnScreen t) (hc : c ≠ 0#8) :
    ∃ t', terminalHandleKey c t = some t' ∧ OnScreen t' ∧
      ∀ places, Holds t' (EditLine.type c t ⟨text, places⟩).text := by
  unfold terminalHandleKey EditLine.type
  rw [h.length]
  by_cases hfull : inputBufferSize - 1 ≤ text.length
  · rw [if_pos hfull]
    refine ⟨t, rfl, hon, fun places => ?_⟩
    rw [if_pos hfull]
    exact h
  · rw [if_neg hfull]
    obtain ⟨t', ht', hon'⟩ := OnScreen.putchar (t := appendInput c t) ⟨hon.row, hon.col⟩ c
    refine ⟨t', ht', hon', fun places => ?_⟩
    rw [if_neg hfull]
    exact (h.append (by omega) hc).sameInput (sameInput_putchar ht')

/-- Two ways of saying that a run of keys goes well. -/
theorem Holds.follows_iff {line : EditLine} (h : Holds t line.text) (hon : OnScreen t)
    (hline : line.places.length = line.text.length) : Follows t line keys ↔ Idle t keys := by
  induction keys generalizing t line with
  | nil => exact ⟨fun _ => trivial, fun _ => h.reads⟩
  | cons sc keys ih =>
      unfold Follows Idle
      rw [keyboardHandler_eq]
      by_cases hback : keyPressed sc = backspaceChar
      · obtain ⟨t', ht', hon'⟩ := hon.backspace
        have hsame := h.sameInput (sameInput_backspace hon ht')
        have hkey : line.key sc t = line.erase := if_pos hback
        simp only [hback, if_true, hkey, ht', Option.some.injEq, exists_eq_left', forall_eq',
          true_implies]
        by_cases htext : line.text = []
        · have hplaces : line.places = [] := by
            apply List.eq_nil_of_length_eq_zero
            rw [hline, htext]
            rfl
          have herase : line.erase = line := by
            obtain ⟨text, places⟩ := line
            obtain rfl : text = [] := htext
            obtain rfl : places = [] := hplaces
            rfl
          have hlength : t.inputLength = 0 := by
            rw [h.length, htext]
            rfl
          rw [herase, ih hsame hon' hline, erasesOnly_nil_iff hon ht' hplaces]
          simp [h.reads, hlength]
        · -- The buffer keeps a character that the line has lost.
          have hpos := List.length_pos_iff.mpr htext
          have hshort : line.erase.text.length < line.text.length := by
            rw [EditLine.erase, List.length_dropLast]
            omega
          constructor
          · rintro ⟨-, -, hrest⟩
            exact absurd hrest.reads (hsame.not_reads hshort)
          · rintro ⟨⟨hzero, -⟩, -⟩
            rw [h.length] at hzero
            omega
      · have hno : keyPressed sc = backspaceChar → False := hback
        simp only [hback, if_false, false_implies, true_and]
        by_cases hnone : keyPressed sc = 0#8
        · have hkey : line.key sc t = line := by
            unfold EditLine.key
            rw [if_neg hback, if_pos hnone]
          simp only [hnone, if_true, hkey, Option.some.injEq, exists_eq_left', forall_eq', h.reads,
            true_and]
          exact ih h hon hline
        · obtain ⟨t', ht', hon', htyped⟩ := h.typed hon hnone
          have hkey : line.key sc t = line.type (keyPressed sc) t := by
            unfold EditLine.key
            rw [if_neg hback, if_neg hnone]
          simp only [hnone, if_false, hkey, ht', Option.some.injEq, exists_eq_left', forall_eq',
            h.reads, true_and]
          exact ih (htyped line.places) hon' (EditLine.type_length _ t hline)

/-- An empty input holds the empty line. -/
theorem holds_nil (hlen : t.inputLength = 0) (hnul : t.inputBuffer 0 = 0#8) : Holds t [] where
  length := hlen
  room := by decide
  chars i hi := absurd hi (by simp)
  nul := hnul
  nonzero c hc := absurd hc (by simp)

/-- From an empty input buffer on, the input and the screen follow the
keys exactly in the runs in which every backspace comes before the first
character and has nothing on the screen to erase. -/
theorem keyboard_follows_iff (hon : OnScreen t) (hlen : t.inputLength = 0)
    (hnul : t.inputBuffer 0 = 0#8) (keys : List Byte) :
    Follows t ⟨[], []⟩ keys ↔ Idle t keys :=
  (holds_nil hlen hnul).follows_iff hon rfl

/-- A backspace behind a prompt takes its blank, and `a` and `b` come in
its place. -/
theorem keyboard_follows_iff_prompt :
    ∃ t, terminalWrite [62#8, space] (terminalInit terminalBoot) = some t
      ∧ Follows t ⟨[], []⟩ [0x0E#8, 0x1E#8, 0x30#8] := by
  have hvalues : (terminalWrite [62#8, space] (terminalInit terminalBoot)).map
      (fun t => (t.inputLength, t.inputBuffer 0, t.buffer (cellBefore t).1 (cellBefore t).2))
      = some (0, 0#8, blankCell) := by
    decide +kernel
  obtain ⟨t, ht, hon⟩ := (onScreen_init terminalBoot).puts (cString [62#8, space])
  have hwrite : terminalWrite [62#8, space] (terminalInit terminalBoot) = some t := ht
  rw [hwrite, Option.map_some] at hvalues
  injection hvalues with hvalues
  injection hvalues with hlen hvalues
  injection hvalues with hnul hblank
  refine ⟨t, hwrite, (keyboard_follows_iff hon hlen hnul _).mpr ⟨?_, fun t₁ _ => ⟨?_, ?_⟩⟩⟩
  · exact fun _ => ⟨hlen, .inr hblank⟩
  · exact fun hkey => absurd hkey (by decide)
  · exact fun t₂ _ => ⟨fun hkey => absurd hkey (by decide), fun _ _ => trivial⟩

/-- The key `a` and a backspace: the `a` stays in the input buffer. -/
theorem keyboard_keeps_erased :
    ¬ ∀ t : Terminal, OnScreen t → t.inputLength = 0 → t.inputBuffer 0 = 0#8 →
      ∀ keys, Follows t ⟨[], []⟩ keys := by
  intro h
  have hon := onScreen_init terminalBoot
  have hholds : Holds (terminalInit terminalBoot) [] := holds_nil rfl rfl
  obtain ⟨-, hidle⟩ := (hholds.follows_iff hon rfl).mp (h _ hon rfl rfl [0x1E#8, 0x0E#8])
  obtain ⟨t', ht', -, htyped⟩ := hholds.typed hon (c := 97#8) (by decide)
  have hlen := (htyped []).length
  rw [((hidle t' ht').1 rfl).1] at hlen
  exact absurd hlen (by decide)

end ZenithOS.Drivers
