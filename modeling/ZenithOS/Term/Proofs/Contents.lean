/-
The screen shows the last lines of the text.

# Lines

`breakLines` cuts a text into lines, by the text alone. `Shows ls cur t`
says that the terminal shows the finished lines `ls` and then the
unfinished line `cur`: where the cursor stands, and every cell of the
window on the last rows.

# Two endings of a line

A newline and a full column end a line by the same code (`nextRow`), and
`shows_nextRow` is the one lemma about it: below the last row the window
stays and above it the window moves down with the scroll. Between two
line ends a character changes one cell (`Shows.char`). The contents of
the terminal follow by induction on the text.

# Backspace

A backspace can leave the window anywhere, so runs with backspaces keep
only that the cursor is on the screen (`OnScreen`), which is what makes
every store one into the array.
-/
import ZenithOS.Term.Terminal
import Mathlib.Data.List.GetD

namespace ZenithOS.Term

open Lib Klib

variable {t t' : Terminal} {b : Screen} {c : Byte} {s cur : List Byte} {ls : List (List Byte)}
  {row col r k : Nat} {cell : TerminalCell}

-- ============================================================== loops

theorem setCell_apply (row col : Nat) (cell : TerminalCell) (b : Screen) (r k : Nat) :
    setCell row col cell b r k = if r = row ∧ k = col then cell else b r k := by
  unfold setCell
  by_cases hr : r = row
  · subst hr
    by_cases hk : k = col <;> simp [hk]
  · simp [hr]

theorem storeCell_of_lt (hrow : t.cursorRow < termRows) (hcol : t.cursorCol < termCols)
    (cell : TerminalCell) :
    storeCell cell t
      = some { t with buffer := setCell t.cursorRow t.cursorCol cell t.buffer } :=
  if_pos ⟨hrow, hcol⟩

theorem clearRow_apply (row : Nat) (b : Screen) (r k : Nat) :
    clearRow row b r k = if r = row ∧ k < termCols then blankCell else b r k := by
  have hloop := forUp_rule (f := fun col b => setCell row col blankCell b) (a := 0) (n := termCols)
    (s := b) (P := fun n b' => ∀ r k, b' r k = if r = row ∧ k < n then blankCell else b r k)
    (fun r k => by simp)
    (fun n b' _ _ hP r k => by
      rw [setCell_apply, hP]
      by_cases hn : r = row ∧ k = n
      · simp [hn]
      · rw [if_neg hn]
        congr 1
        simp only [eq_iff_iff]
        omega)
  rw [Nat.zero_add] at hloop
  exact hloop r k

theorem copyRowUp_apply (hrow : 0 < row) (b : Screen) (r k : Nat) :
    copyRowUp row b r k = if r = row - 1 ∧ k < termCols then b row k else b r k := by
  have hloop := forUp_rule (f := fun col b => setCell (row - 1) col (b row col) b) (a := 0)
    (n := termCols) (s := b)
    (P := fun n b' => ∀ r k, b' r k = if r = row - 1 ∧ k < n then b row k else b r k)
    (fun r k => by simp)
    (fun n b' _ _ hP r k => by
      have hsource : b' row n = b row n := by
        rw [hP, if_neg (by omega)]
      rw [setCell_apply, hsource, hP]
      by_cases hn : r = row - 1 ∧ k = n
      · simp [hn]
      · rw [if_neg hn]
        congr 1
        simp only [eq_iff_iff]
        omega)
  rw [Nat.zero_add] at hloop
  exact hloop r k

/-- The copying loop moves every row but the first up by one. -/
theorem copyRowsUp_apply (b : Screen) (r k : Nat) :
    forUp copyRowUp 1 (termRows - 1) b r k
      = if r + 1 < termRows ∧ k < termCols then b (r + 1) k else b r k := by
  have hloop := forUp_rule (f := copyRowUp) (a := 1) (n := termRows - 1) (s := b)
    (P := fun n b' => ∀ r k, b' r k = if r + 1 < n ∧ k < termCols then b (r + 1) k else b r k)
    (fun r k => by simp)
    (fun n b' hlo _ hP r k => by
      rw [copyRowUp_apply (by omega), hP, hP]
      by_cases hn : r = n - 1 ∧ k < termCols
      · rw [if_pos hn, if_neg (by omega), if_pos (by omega), show r + 1 = n by omega]
      · rw [if_neg hn]
        congr 1
        simp only [eq_iff_iff]
        omega)
  exact hloop r k

theorem clearRows_apply (b : Screen) (r k : Nat) :
    forUp clearRow 0 termRows b r k
      = if r < termRows ∧ k < termCols then blankCell else b r k := by
  have hloop := forUp_rule (f := clearRow) (a := 0) (n := termRows) (s := b)
    (P := fun n b' => ∀ r k, b' r k = if r < n ∧ k < termCols then blankCell else b r k)
    (fun r k => by simp)
    (fun n b' _ _ hP r k => by
      rw [clearRow_apply, hP]
      by_cases hn : r = n ∧ k < termCols
      · rw [if_pos hn, if_pos (by omega)]
      · rw [if_neg hn]
        congr 1
        simp only [eq_iff_iff]
        omega)
  rw [Nat.zero_add] at hloop
  exact hloop r k

/-- What `terminal_scroll` leaves on the screen. -/
theorem terminalScroll_buffer (t : Terminal) (hr : r < termRows) (hk : k < termCols) :
    (terminalScroll t).buffer r k
      = if r + 1 < termRows then t.buffer (r + 1) k else blankCell := by
  have hrows : r < 50 := hr
  unfold terminalScroll
  dsimp only
  rw [clearRow_apply, copyRowsUp_apply]
  by_cases hlast : r + 1 < termRows
  · rw [if_neg (by unfold termRows at *; omega), if_pos ⟨hlast, hk⟩, if_pos hlast]
  · rw [if_pos ⟨by unfold termRows at *; omega, hk⟩, if_neg hlast]

theorem terminalInit_buffer (t : Terminal) (hr : r < termRows) (hk : k < termCols) :
    (terminalInit t).buffer r k = blankCell := by
  unfold terminalInit
  dsimp only
  rw [clearRows_apply, if_pos ⟨hr, hk⟩]

-- ============================================================== lines

/-- The lines of a text behind the unfinished line `cur`: a line ends at
a newline and when it is as wide as the screen. The last line is the
unfinished one. -/
def breakLines : List Byte → List Byte → List (List Byte)
  | cur, [] => [cur]
  | cur, c :: s =>
      if c = newline then cur :: breakLines [] s
      else if cur.length + 1 < termCols then breakLines (cur ++ [c]) s
      else (cur ++ [c]) :: breakLines [] s

/-- The lines there is room for on the screen. -/
def lastLines (ls : List (List Byte)) : List (List Byte) := ls.drop (ls.length - termRows)

/-- Character `k` of line `r`; blanks follow every line and the last line. -/
def charAt (ls : List (List Byte)) (r k : Nat) : Byte := (ls.getD r []).getD k space

/-- A character on black, in the colour `terminal_init` selects. -/
def textCell (c : Byte) : TerminalCell := ⟨c, 0xFFFFFF#32, 0x000000#32⟩

theorem blankCell_eq : blankCell = textCell space := rfl

theorem charAt_of_length_le (h : ls.length ≤ r) (k : Nat) : charAt ls r k = space := by
  unfold charAt
  rw [List.getD_eq_default ls [] h]
  rfl

theorem charAt_append (h : r < ls.length) (l : List Byte) (k : Nat) :
    charAt (ls ++ [l]) r k = charAt ls r k := by
  unfold charAt
  rw [List.getD_append _ _ _ _ h]

theorem charAt_last (ls : List (List Byte)) (l : List Byte) (k : Nat) :
    charAt (ls ++ [l]) ls.length k = l.getD k space := by
  simp [charAt]

@[simp] theorem charAt_append_nil (ls : List (List Byte)) (r k : Nat) :
    charAt (ls ++ [[]]) r k = charAt ls r k := by
  rcases Nat.lt_trichotomy r ls.length with hr | hr | hr
  · exact charAt_append hr [] k
  · rw [hr, charAt_last, charAt_of_length_le (Nat.le_refl _)]
    rfl
  · rw [charAt_of_length_le (by simpa using Nat.succ_le_of_lt hr), charAt_of_length_le (by omega)]

/-- One more character on the last line changes one place. -/
theorem charAt_append_char (ls : List (List Byte)) (cur : List Byte) (c : Byte) (r k : Nat) :
    charAt (ls ++ [cur ++ [c]]) r k
      = if r = ls.length ∧ k = cur.length then c else charAt (ls ++ [cur]) r k := by
  rcases Nat.lt_trichotomy r ls.length with hr | hr | hr
  · rw [charAt_append hr, charAt_append hr, if_neg (by omega)]
  · rw [hr, charAt_last, charAt_last]
    rcases Nat.lt_trichotomy k cur.length with hk | hk | hk
    · rw [List.getD_append _ _ _ _ hk, if_neg (by omega)]
    · simp [hk]
    · rw [List.getD_eq_default _ _ (by simpa using Nat.succ_le_of_lt hk),
        List.getD_eq_default _ _ (by omega),
        if_neg (by omega)]
  · rw [charAt_of_length_le (by simpa using Nat.succ_le_of_lt hr),
      charAt_of_length_le (by simpa using Nat.succ_le_of_lt hr),
      if_neg (by omega)]

theorem charAt_lastLines (ls : List (List Byte)) (r k : Nat) :
    charAt (lastLines ls) r k = charAt ls (ls.length - termRows + r) k := by
  unfold charAt lastLines
  simp [List.getD_eq_getElem?_getD, List.getElem?_drop]

-- ============================================================== shows

/-- The terminal shows the finished lines `ls` and the unfinished `cur`. -/
structure Shows (ls : List (List Byte)) (cur : List Byte) (t : Terminal) : Prop where
  width : cur.length < termCols
  row : t.cursorRow = min ls.length (termRows - 1)
  col : t.cursorCol = cur.length
  color : t.color = 0xFFFFFF#32
  cells : ∀ r < termRows, ∀ k < termCols,
    t.buffer r k = textCell (charAt (ls ++ [cur]) (ls.length - (termRows - 1) + r) k)

theorem Shows.init (t : Terminal) : Shows [] [] (terminalInit t) where
  width := by decide
  row := rfl
  col := rfl
  color := rfl
  cells r hr k hk := by
    rw [terminalInit_buffer t hr hk, charAt_append_nil]
    rfl

/-- The line ends here; the next one is empty. -/
theorem shows_nextRow (hrow : t.cursorRow = min ls.length (termRows - 1))
    (hcolor : t.color = 0xFFFFFF#32)
    (hcells : ∀ r < termRows, ∀ k < termCols,
      t.buffer r k = textCell (charAt (ls ++ [cur]) (ls.length - (termRows - 1) + r) k)) :
    Shows (ls ++ [cur]) [] (nextRow t) := by
  unfold Term.nextRow
  dsimp only
  by_cases hfull : termRows ≤ t.cursorRow + 1
  · rw [if_pos hfull]
    have hlong : termRows - 1 ≤ ls.length := by
      unfold termRows at *
      omega
    refine ⟨by decide, ?_, rfl, hcolor, fun r hr k hk => ?_⟩
    · rw [List.length_append, List.length_singleton]
      exact (Nat.min_eq_right (Nat.le_succ_of_le hlong)).symm
    · rw [terminalScroll_buffer _ hr hk, charAt_append_nil, List.length_append,
        List.length_singleton]
      by_cases hlast : r + 1 < termRows
      · rw [if_pos hlast]
        dsimp only
        rw [hcells (r + 1) hlast k hk]
        congr 2
        omega
      · rw [if_neg hlast, blankCell_eq, charAt_of_length_le]
        rw [List.length_append, List.length_singleton]
        unfold termRows at *
        omega
  · rw [if_neg hfull]
    have hshort : ls.length + 1 ≤ termRows - 1 := by
      unfold termRows at *
      omega
    refine ⟨by decide, ?_, rfl, hcolor, fun r hr k hk => ?_⟩
    · dsimp only
      rw [hrow, List.length_append, List.length_singleton]
      omega
    · dsimp only
      rw [hcells r hr k hk, charAt_append_nil, List.length_append, List.length_singleton]
      congr 2
      omega

/-- The cell of a printed character. -/
theorem Shows.cells_char (h : Shows ls cur t) (c : Byte) : ∀ r < termRows, ∀ k < termCols,
    setCell t.cursorRow t.cursorCol (textCell c) t.buffer r k
      = textCell (charAt (ls ++ [cur ++ [c]]) (ls.length - (termRows - 1) + r) k) := by
  intro r hr k hk
  have hrow := h.row
  rw [setCell_apply, charAt_append_char, h.col, h.cells r hr k hk]
  by_cases hat : r = t.cursorRow ∧ k = cur.length
  · rw [if_pos hat, if_pos ⟨by omega, hat.2⟩]
  · rw [if_neg hat, if_neg]
    intro hplace
    exact hat ⟨by unfold termRows at *; omega, hplace.2⟩

/-- A printed character that does not fill its line. -/
theorem Shows.char (h : Shows ls cur t) (hwidth : cur.length + 1 < termCols) :
    Shows ls (cur ++ [c])
      { t with
        buffer := setCell t.cursorRow t.cursorCol (textCell c) t.buffer
        cursorCol := t.cursorCol + 1 } where
  width := by simpa using hwidth
  row := h.row
  col := by simp [h.col]
  color := h.color
  cells := h.cells_char c

/-- What one character does to the lines shown. -/
theorem Shows.putchar (h : Shows ls cur t) (c : Byte) :
    ∃ t', terminalPutchar c t = some t' ∧
      if c = newline then Shows (ls ++ [cur]) [] t'
      else if cur.length + 1 < termCols then Shows ls (cur ++ [c]) t'
      else Shows (ls ++ [cur ++ [c]]) [] t' := by
  have hrow := h.row
  have hcol := h.col
  unfold terminalPutchar
  by_cases hnl : c = newline
  · rw [if_pos hnl]
    refine ⟨_, rfl, ?_⟩
    rw [if_pos hnl]
    exact shows_nextRow h.row h.color h.cells
  · have hrange : t.cursorRow < termRows := by
      unfold termRows at *
      omega
    have hcell : (⟨c, t.color, 0x000000#32⟩ : TerminalCell) = textCell c := by
      rw [h.color]
      rfl
    rw [if_neg hnl, if_neg (Nat.not_le.mpr hrange), hcell, storeCell_of_lt hrange (hcol ▸ h.width),
      Option.map_some]
    refine ⟨_, rfl, ?_⟩
    rw [if_neg hnl]
    unfold nextCol
    by_cases hwidth : cur.length + 1 < termCols
    · rw [if_pos hwidth, if_neg (by dsimp only; omega)]
      exact h.char hwidth
    · rw [if_neg hwidth, if_pos (by dsimp only; omega)]
      exact shows_nextRow h.row h.color (h.cells_char c)

/-- A terminal that shows some lines has printed the text behind them. -/
theorem Shows.puts (h : Shows ls cur t) (s : List Byte) :
    ∃ t' ls' cur', terminalPuts s t = some t' ∧ ls ++ breakLines cur s = ls' ++ [cur'] ∧
      Shows ls' cur' t' := by
  induction s generalizing ls cur t with
  | nil => exact ⟨t, ls, cur, rfl, rfl, h⟩
  | cons c s ih =>
      obtain ⟨u, hu, hshows⟩ := h.putchar c
      unfold terminalPuts breakLines
      rw [hu, Option.bind_some]
      by_cases hnl : c = newline
      · rw [if_pos hnl] at hshows ⊢
        obtain ⟨t', ls', cur', ht', hlines, hshows'⟩ := ih hshows
        exact ⟨t', ls', cur', ht', by simpa using hlines, hshows'⟩
      · rw [if_neg hnl] at hshows ⊢
        by_cases hwidth : cur.length + 1 < termCols
        · rw [if_pos hwidth] at hshows ⊢
          exact ih hshows
        · rw [if_neg hwidth] at hshows ⊢
          obtain ⟨t', ls', cur', ht', hlines, hshows'⟩ := ih hshows
          exact ⟨t', ls', cur', ht', by simpa using hlines, hshows'⟩

-- ============================================================= cursor

/-- The cursor is on the screen. -/
structure OnScreen (t : Terminal) : Prop where
  row : t.cursorRow < termRows
  col : t.cursorCol < termCols

theorem onScreen_init (t : Terminal) : OnScreen (terminalInit t) where
  row := by simp [terminalInit, termRows]
  col := by simp [terminalInit, termCols]

theorem onScreen_nextRow (t : Terminal) : OnScreen (nextRow t) := by
  unfold nextRow terminalScroll
  dsimp only
  by_cases hfull : termRows ≤ t.cursorRow + 1
  · rw [if_pos hfull]
    exact ⟨by simp [termRows], by simp [termCols]⟩
  · rw [if_neg hfull]
    exact ⟨Nat.not_le.mp hfull, by simp [termCols]⟩

theorem onScreen_nextCol (hrow : t.cursorRow < termRows) : OnScreen (nextCol t) := by
  unfold nextCol
  dsimp only
  by_cases hfull : termCols ≤ t.cursorCol + 1
  · rw [if_pos hfull]
    exact onScreen_nextRow _
  · rw [if_neg hfull]
    exact ⟨hrow, Nat.not_le.mp hfull⟩

theorem OnScreen.putchar (h : OnScreen t) (c : Byte) :
    ∃ t', terminalPutchar c t = some t' ∧ OnScreen t' := by
  unfold terminalPutchar
  by_cases hnl : c = newline
  · rw [if_pos hnl]
    exact ⟨_, rfl, onScreen_nextRow t⟩
  · rw [if_neg hnl, if_neg (Nat.not_le.mpr h.row), storeCell_of_lt h.row h.col, Option.map_some]
    exact ⟨_, rfl, onScreen_nextCol h.row⟩

theorem OnScreen.puts (h : OnScreen t) (s : List Byte) :
    ∃ t', terminalPuts s t = some t' ∧ OnScreen t' := by
  induction s generalizing t with
  | nil => exact ⟨t, rfl, h⟩
  | cons c s ih =>
      obtain ⟨u, hu, hon⟩ := h.putchar c
      unfold terminalPuts
      rw [hu]
      exact ih hon

/-- The cell in front of the cursor. -/
def cellBefore (t : Terminal) : Nat × Nat :=
  if t.cursorCol = 0 then (t.cursorRow - 1, termCols - 1) else (t.cursorRow, t.cursorCol - 1)

theorem OnScreen.cellBefore_lt (h : OnScreen t) :
    (cellBefore t).1 < termRows ∧ (cellBefore t).2 < termCols := by
  have hrow := h.row
  have hcol := h.col
  unfold cellBefore
  split_ifs
  · exact ⟨by dsimp only; omega, by simp [termCols]⟩
  · exact ⟨hrow, by dsimp only; omega⟩

/-- A backspace takes the cursor back to the cell in front of it. -/
theorem OnScreen.backspace_eq (h : OnScreen t) :
    terminalBackspace t = some (
      if t.cursorRow = 0 ∧ t.cursorCol = 0 then t
      else { t with
        cursorRow := (cellBefore t).1
        cursorCol := (cellBefore t).2
        buffer := setCell (cellBefore t).1 (cellBefore t).2 blankCell t.buffer }) := by
  have hrange := h.cellBefore_lt
  unfold terminalBackspace
  by_cases horigin : t.cursorRow = 0 ∧ t.cursorCol = 0
  · rw [if_pos horigin, if_pos horigin]
  · rw [if_neg horigin, if_neg horigin]
    by_cases hleft : t.cursorCol = 0
    · have hcell : cellBefore t = (t.cursorRow - 1, termCols - 1) := if_pos hleft
      rw [hcell] at hrange ⊢
      rw [if_pos hleft]
      exact storeCell_of_lt
        (t := { t with cursorRow := t.cursorRow - 1, cursorCol := termCols - 1 })
        hrange.1 hrange.2 blankCell
    · have hcell : cellBefore t = (t.cursorRow, t.cursorCol - 1) := if_neg hleft
      rw [hcell] at hrange ⊢
      rw [if_neg hleft]
      exact storeCell_of_lt (t := { t with cursorCol := t.cursorCol - 1 }) hrange.1 hrange.2
        blankCell

theorem OnScreen.backspace (h : OnScreen t) :
    ∃ t', terminalBackspace t = some t' ∧ OnScreen t' := by
  refine ⟨_, h.backspace_eq, ?_⟩
  split_ifs
  · exact h
  · exact ⟨h.cellBefore_lt.1, h.cellBefore_lt.2⟩

/-- The cursor stays on the screen. -/
theorem OnScreen.step (h : OnScreen t) (op : TermOp) :
    ∃ t', termStep t op = some t' ∧ OnScreen t' := by
  cases op with
  | putchar c => exact h.putchar c
  | backspace => exact h.backspace
  | write str => exact h.puts (cString str)
  | setColor color => exact ⟨_, rfl, h.row, h.col⟩
  | handleKey c =>
      change ∃ t', terminalHandleKey c t = some t' ∧ OnScreen t'
      unfold terminalHandleKey
      by_cases hfull : inputBufferSize - 1 ≤ t.inputLength
      · rw [if_pos hfull]
        exact ⟨t, rfl, h⟩
      · rw [if_neg hfull]
        exact OnScreen.putchar (t := appendInput c t) ⟨h.row, h.col⟩ c

-- =========================================================== contents

/-- Behind `terminal_init` a text leaves its last lines on the screen and
the cursor behind its last character, and no call in any order stores
outside the screen. -/
theorem terminal_shows_last_lines (t : Terminal) :
    (∀ s, ∃ t', terminalPuts s (terminalInit t) = some t' ∧
      (∀ r < termRows, ∀ k < termCols,
        t'.buffer r k = textCell (charAt (lastLines (breakLines [] s)) r k)) ∧
      t'.cursorRow + 1 = (lastLines (breakLines [] s)).length ∧
      t'.cursorCol = ((breakLines [] s).getLastD []).length) ∧
    ∀ ops, ∃ t', runOps termStep (terminalInit t) ops = some t' ∧
      t'.cursorRow < termRows ∧ t'.cursorCol < termCols := by
  refine ⟨fun s => ?_, fun ops => ?_⟩
  · obtain ⟨t', ls, cur, ht', hlines, hshows⟩ := (Shows.init t).puts s
    have hrow := hshows.row
    rw [List.nil_append] at hlines
    rw [hlines]
    refine ⟨t', ht', fun r hr k hk => ?_, ?_, ?_⟩
    · have htop : ls.length + 1 - termRows = ls.length - (termRows - 1) := by
        unfold termRows
        omega
      rw [hshows.cells r hr k hk, charAt_lastLines, List.length_append, List.length_singleton, htop]
    · unfold lastLines termRows at *
      rw [List.length_drop, List.length_append, List.length_singleton]
      omega
    · rw [List.getLastD_concat]
      exact hshows.col
  · have hops : AllowedRun termStep (fun _ _ => True) (terminalInit t) ops :=
      allowedRun_trivial _ ops
    obtain ⟨t', ht', hon⟩ := run_total (P := OnScreen) (fun _ op hs _ => hs.step op)
      (onScreen_init t) hops
    exact ⟨t', ht', hon.row, hon.col⟩

end ZenithOS.Term
