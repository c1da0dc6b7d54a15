/-
What is on the screen is what was written.

`draws_terminalRender` says which picture `terminal_render` paints: the
characters of the buffer, each in its cell, on black. With `Shows`, which
ties the buffer to the text, a run of calls keeps the screen the picture
of the text there was when it was last rendered.
-/
import ZenithOS.Term.Render
import ZenithOS.Term.Proofs.Contents
import ZenithOS.Font.Proofs.Glyph

namespace ZenithOS.Term

open Lib Klib Graphics Font

variable {f : Framebuffer} {d d' : Display} {b : Screen} {ox oy : Int} {scale row col : Nat}

-- =============================================================== the picture

/-- The character of a cell, where the cell is. -/
def cellGlyph (b : Screen) (ox oy : Int) (scale row col : Nat) : Picture f :=
  if (b row col).character = space then .clear
  else glyph (ox + (col * cellSize : Nat)) (oy + (row * cellSize : Nat)) (b row col).character
    (b row col).foreground scale

/-- The characters of the buffer on black. -/
def screenPicture (b : Screen) (ox oy : Int) (scale : Nat) : Picture f :=
  fun p =>
    let col := (p.x - ox) / cellSize
    let row := (p.y - oy) / cellSize
    if (0 ≤ col ∧ col < termCols) ∧ 0 ≤ row ∧ row < termRows then
      some ((cellGlyph b ox oy scale row.toNat col.toNat p).getD 0x000000#32)
    else none

/-- The origin and the font leave room for the cells. -/
structure Display.Fits (d : Display) : Prop where
  x : 0 ≤ d.originX ∧ d.originX + 1280 ≤ 2 ^ 31
  y : 0 ≤ d.originY ∧ d.originY + 800 ≤ 2 ^ 31
  scale : 0 < d.fontScale ∧ d.fontScale ≤ 2

instance (d : Display) : Decidable d.Fits :=
  decidable_of_iff ((0 ≤ d.originX ∧ d.originX + 1280 ≤ 2 ^ 31)
      ∧ (0 ≤ d.originY ∧ d.originY + 800 ≤ 2 ^ 31) ∧ 0 < d.fontScale ∧ d.fontScale ≤ 2)
    ⟨fun h => ⟨h.1, h.2.1, h.2.2⟩, fun h => ⟨h.x, h.y, h.scale⟩⟩

/-- A coordinate of a cell is what it seems to be. -/
theorem cell_coordinate {v : Int} {n : Nat} (hpos : 0 ≤ v) (hlt : v + n < 2 ^ 31) :
    intOfUnsigned (wordAdd (sizeOfInt v) n) = v + n := by
  have hv : sizeOfInt v = v.toNat := by
    unfold sizeOfInt
    omega
  unfold intOfUnsigned
  rw [hv, wordAdd_eq (by omega), BitVec.toInt_eq_toNat_cond, BitVec.toNat_ofNat]
  split_ifs <;> omega

/-- A glyph stays in its cell. -/
theorem cellGlyph_outside (hscale : scale ≤ 2) (hpos : 0 < scale) (p : Pixel f)
    (hne : (p.x - ox) / cellSize ≠ col ∨ (p.y - oy) / cellSize ≠ row) :
    cellGlyph b ox oy scale row col p = none := by
  have hs : (0 : Int) < scale := by omega
  unfold cellGlyph
  by_cases hspace : (b row col).character = space
  · rw [if_pos hspace]
    rfl
  · rw [if_neg hspace]
    refine if_neg fun hlit => ?_
    obtain ⟨⟨hc0, hc8⟩, ⟨hr0, hr8⟩, -⟩ := hlit
    have hcell : ∀ {v o : Int} {n : Nat}, 0 ≤ (v - (o + (n * cellSize : Nat))) / scale →
        (v - (o + (n * cellSize : Nat))) / scale < 8 → (v - o) / cellSize = n := by
      intro v o n h0 h8
      have hlow := (Int.le_ediv_iff_mul_le hs).mp h0
      have hhigh := (Int.ediv_lt_iff_lt_mul hs).mp h8
      rw [ediv_eq_iff (by decide)]
      unfold cellSize at *
      omega
    rcases hne with hne | hne
    · exact hne (hcell hc0 hc8)
    · exact hne (hcell hr0 hr8)

-- ================================================================ rendering

theorem draws_renderCell (hvis : Visible f) (hfits : d.Fits) (hrow : row < termRows)
    (hcol : col < termCols) :
    Draws f (cellGlyph d.terminal.buffer d.originX d.originY d.fontScale row col)
      (renderCell f d row col) := by
  obtain ⟨⟨hx, hx'⟩, ⟨hy, hy'⟩, hpos, hscale⟩ := hfits
  have hrow' : row < 50 := hrow
  have hcol' : col < 80 := hcol
  unfold renderCell cellGlyph
  by_cases hspace : (d.terminal.buffer row col).character = space
  · simp only [if_pos hspace]
    exact .nothing
  · simp only [if_neg hspace]
    rw [cell_coordinate hx (by unfold cellSize; omega),
      cell_coordinate hy (by unfold cellSize; omega)]
    unfold drawChar
    apply draws_drawCharScaled hvis hpos <;>
    · unfold cellSize
      omega

/-- One row of cells. -/
theorem draws_renderRow (hvis : Visible f) (hfits : d.Fits) (hrow : row < termRows) :
    Draws f (fun p => if 0 ≤ (p.x - d.originX) / cellSize ∧ (p.x - d.originX) / cellSize < termCols
        then cellGlyph d.terminal.buffer d.originX d.originY d.fontScale row
          ((p.x - d.originX) / cellSize).toNat p
        else none)
      (forUp (fun col => renderCell f d row col) 0 termCols) := by
  have hscale := hfits.scale
  refine (Draws.loop_at (fun p => ((p.x - d.originX) / cellSize).toNat)
    (fun col _ hcol => draws_renderCell hvis hfits hrow (by omega)) ?_).congr ?_
  · intro col p hne
    refine cellGlyph_outside hscale.2 hscale.1 p (.inl fun heq => hne ?_)
    rw [heq, Int.toNat_natCast]
  · intro p
    by_cases hneg : (p.x - d.originX) / cellSize < 0
    · rw [Int.toNat_of_nonpos (by omega),
        cellGlyph_outside hscale.2 hscale.1 p (.inl (by omega)), ite_self, ite_self]
    · exact if_congr (by omega) rfl rfl

theorem draws_renderCells (hvis : Visible f) (hfits : d.Fits) :
    Draws f (fun p => if (0 ≤ (p.x - d.originX) / cellSize
          ∧ (p.x - d.originX) / cellSize < termCols)
          ∧ 0 ≤ (p.y - d.originY) / cellSize ∧ (p.y - d.originY) / cellSize < termRows
        then cellGlyph d.terminal.buffer d.originX d.originY d.fontScale
          ((p.y - d.originY) / cellSize).toNat ((p.x - d.originX) / cellSize).toNat p
        else none)
      (forUp (fun row => forUp (fun col => renderCell f d row col) 0 termCols) 0 termRows) := by
  have hscale := hfits.scale
  refine (Draws.loop_at (fun p => ((p.y - d.originY) / cellSize).toNat)
    (fun row _ hrow => draws_renderRow hvis hfits (by omega)) ?_).congr ?_
  · intro row p hne
    rw [cellGlyph_outside hscale.2 hscale.1 p (.inr fun heq => hne ?_), ite_self]
    rw [heq, Int.toNat_natCast]
  · intro p
    by_cases hneg : (p.y - d.originY) / cellSize < 0
    · rw [Int.toNat_of_nonpos (by omega),
        cellGlyph_outside hscale.2 hscale.1 p (.inr (by omega)), ite_self, ite_self, ite_self]
    · by_cases hrow : (p.y - d.originY) / cellSize < termRows
      · rw [if_pos (by omega)]
        exact if_congr (by omega) rfl rfl
      · rw [if_neg (by omega), if_neg (by omega)]

/-- `terminal_render`. -/
theorem draws_terminalRender (hvis : Visible f) (hfits : d.Fits) :
    Draws f (screenPicture d.terminal.buffer d.originX d.originY d.fontScale)
      (fun m => (terminalRender f { d with mem := m }).mem) := by
  have hx := hfits.x
  have hy := hfits.y
  have hwidth : sizeOfInt 1280 = termCols * cellSize := rfl
  have hheight : sizeOfInt 800 = termRows * cellSize := rfl
  have hground : Draws f (rectangle d.originX d.originY 1280 800 0x000000#32)
      (fillRect f (sizeOfInt d.originX) (sizeOfInt d.originY) (termCols * cellSize)
        (termRows * cellSize) 0x000000#32) := by
    rw [← hwidth, ← hheight]
    exact draws_fillRect ⟨by omega, by omega⟩ ⟨by omega, by omega⟩ ⟨by omega, by omega⟩
      ⟨by omega, by omega⟩ (by omega) (by omega) _
  have hrender : (fun m => (terminalRender f { d with mem := m }).mem) = fun m =>
      forUp (fun row => forUp (fun col => renderCell f d row col) 0 termCols) 0 termRows
        (fillRect f (sizeOfInt d.originX) (sizeOfInt d.originY) (termCols * cellSize)
          (termRows * cellSize) 0x000000#32 m) := by
    funext m
    have hcell : renderCell f { d with mem := m } = renderCell f d := rfl
    unfold terminalRender
    simp only [hcell]
  rw [hrender]
  refine (hground.comp (draws_renderCells hvis hfits)).congr fun p => ?_
  have hcovers : Covers d.originX d.originY 1280 800 p.x p.y
      ↔ (0 ≤ (p.x - d.originX) / cellSize ∧ (p.x - d.originX) / cellSize < termCols)
        ∧ 0 ≤ (p.y - d.originY) / cellSize ∧ (p.y - d.originY) / cellSize < termRows := by
    unfold Covers cellSize termCols termRows
    omega
  have hrectangle : rectangle d.originX d.originY 1280 800 0x000000#32
      = block (f := f) d.originX d.originY 1280 800 0x000000#32 := if_pos ⟨hx.1, hy.1⟩
  rw [Layer.onto, hrectangle, block, screenPicture]
  by_cases hin : Covers d.originX d.originY 1280 800 p.x p.y
  · rw [if_pos hin, if_pos (hcovers.mp hin), if_pos (hcovers.mp hin)]
    cases cellGlyph d.terminal.buffer d.originX d.originY d.fontScale
      ((p.y - d.originY) / cellSize).toNat ((p.x - d.originX) / cellSize).toNat p with
    | none => rfl
    | some v => rfl
  · rw [if_neg hin, if_neg (mt hcovers.mpr hin), if_neg (mt hcovers.mpr hin)]
    rfl

/-- The screen once it is rendered, and what rendering leaves alone. -/
theorem terminalRender_look (hvis : Visible f) (hfits : d.Fits) :
    (∀ p : Pixel f, look f (terminalRender f d).mem p
      = (screenPicture d.terminal.buffer d.originX d.originY d.fontScale p).getD
          (look f d.mem p)) ∧
    ∀ a, OffScreen f a → (terminalRender f d).mem a = d.mem a :=
  ⟨(draws_terminalRender hvis hfits).paints d.mem, (draws_terminalRender hvis hfits).inside d.mem⟩

-- ================================================================ the text

/-- Where a text is broken does not depend on what follows. -/
theorem breakLines_append (cur s : List Byte) :
    ∃ ls cur', ∀ s', breakLines cur (s ++ s') = ls ++ breakLines cur' s' := by
  induction s generalizing cur with
  | nil => exact ⟨[], cur, fun _ => rfl⟩
  | cons c s ih =>
      by_cases hnl : c = newline
      · obtain ⟨ls, cur', hls⟩ := ih []
        refine ⟨cur :: ls, cur', fun s' => ?_⟩
        rw [List.cons_append, breakLines, if_pos hnl, hls, List.cons_append]
      · by_cases hwidth : cur.length + 1 < termCols
        · obtain ⟨ls, cur', hls⟩ := ih (cur ++ [c])
          refine ⟨ls, cur', fun s' => ?_⟩
          rw [List.cons_append, breakLines, if_neg hnl, if_pos hwidth, hls]
        · obtain ⟨ls, cur', hls⟩ := ih []
          refine ⟨(cur ++ [c]) :: ls, cur', fun s' => ?_⟩
          rw [List.cons_append, breakLines, if_neg hnl, if_neg hwidth, hls, List.cons_append]

/-- The terminal shows the end of the text. -/
def Shown (text : List Byte) (t : Terminal) : Prop :=
  ∃ ls cur, (∀ s, breakLines [] (text ++ s) = ls ++ breakLines cur s) ∧ Shows ls cur t

theorem Shown.puts {text : List Byte} (h : Shown text t) (s : List Byte) :
    ∃ t', terminalPuts s t = some t' ∧ Shown (text ++ s) t' := by
  obtain ⟨ls, cur, hlines, hshows⟩ := h
  obtain ⟨t', ls', cur', ht', hend, hshows'⟩ := hshows.puts s
  obtain ⟨more, last, hmore⟩ := breakLines_append cur s
  have hsame : (ls ++ more) ++ [last] = ls' ++ [cur'] := by
    have hnil := hmore []
    rw [List.append_nil] at hnil
    rw [← hend, hnil, List.append_assoc]
    rfl
  obtain ⟨rfl, hlast⟩ := List.append_inj' hsame rfl
  obtain rfl : last = cur' := List.head_eq_of_cons_eq hlast
  refine ⟨t', ht', _, _, fun s' => ?_, hshows'⟩
  rw [List.append_assoc, hlines, hmore, List.append_assoc]

/-- The last lines of a text as the cells of a screen. -/
def textScreen (text : List Byte) : Screen :=
  fun r k => textCell (charAt (lastLines (breakLines [] text)) r k)

theorem Shown.cells {text : List Byte} (h : Shown text t) (hr : r < termRows)
    (hk : k < termCols) : t.buffer r k = textScreen text r k := by
  obtain ⟨ls, cur, hlines, hshows⟩ := h
  have htext : breakLines [] text = ls ++ [cur] := by
    have hnil := hlines []
    rwa [List.append_nil] at hnil
  have htop : ls.length + 1 - termRows = ls.length - (termRows - 1) := by
    unfold termRows
    omega
  rw [textScreen, htext, charAt_lastLines, List.length_append, List.length_singleton, htop]
  exact hshows.cells r hr k hk

/-- The picture takes nothing but the cells of the screen. -/
theorem screenPicture_congr {b' : Screen}
    (h : ∀ r < termRows, ∀ k < termCols, b r k = b' r k) :
    screenPicture (f := f) b ox oy scale = screenPicture b' ox oy scale := by
  funext p
  unfold screenPicture
  dsimp only
  by_cases hin : (0 ≤ (p.x - ox) / cellSize ∧ (p.x - ox) / cellSize < termCols)
      ∧ 0 ≤ (p.y - oy) / cellSize ∧ (p.y - oy) / cellSize < termRows
  · rw [if_pos hin, if_pos hin, cellGlyph, cellGlyph, h _ (by omega) _ (by omega)]
  · rw [if_neg hin, if_neg hin]

/-- What lies off its rectangle does not depend on the cells. -/
theorem screenPicture_none (b' : Screen) {p : Pixel f}
    (h : screenPicture b ox oy scale p = none) : screenPicture b' ox oy scale p = none := by
  unfold screenPicture at *
  dsimp only at *
  by_cases hin : (0 ≤ (p.x - ox) / cellSize ∧ (p.x - ox) / cellSize < termCols)
      ∧ 0 ≤ (p.y - oy) / cellSize ∧ (p.y - oy) / cellSize < termRows
  · rw [if_pos hin] at h
    exact nomatch h
  · exact if_neg hin

-- =============================================================== the calls

/-- The terminal with the key in its input line. -/
def TermOp.stored (t : Terminal) : TermOp → Terminal
  | .handleKey c => if inputBufferSize - 1 ≤ t.inputLength then t else appendInput c t
  | _ => t

theorem terminalPuts_one (c : Byte) (t : Terminal) : terminalPuts [c] t = terminalPutchar c t :=
  Option.bind_fun_some _

/-- What a call that neither erases nor colours does. -/
theorem displayCall_eq {op : TermOp} (hplain : op.Plain) (d : Display) :
    displayCall f d op = (terminalPuts (op.text d.terminal) (op.stored d.terminal)).map fun t =>
      if op.renders d.terminal then terminalRender f (d.after t) else d.after t := by
  cases op with
  | backspace => exact hplain.elim
  | setColor color => exact hplain.elim
  | write str => rfl
  | putchar c =>
      show (terminalPutchar c d.terminal).map d.after = (terminalPuts [c] d.terminal).map d.after
      rw [terminalPuts_one]
  | handleKey c =>
      unfold displayCall TermOp.text TermOp.stored TermOp.renders terminalHandleKey
      by_cases hfull : inputBufferSize - 1 ≤ d.terminal.inputLength
      · simp only [if_pos hfull, decide_eq_true hfull, Bool.not_true, Bool.false_eq_true, if_false]
        rfl
      · simp only [if_neg hfull, decide_eq_false hfull, Bool.not_false, if_true, terminalPuts_one]

theorem Shown.stored {text : List Byte} (h : Shown text t) (op : TermOp) :
    Shown text (op.stored t) := by
  unfold TermOp.stored
  split
  · split_ifs
    · exact h
    · obtain ⟨ls, cur, hlines, hwidth, hrow, hcol, hcolor, hcells⟩ := h
      exact ⟨ls, cur, hlines, hwidth, hrow, hcol, hcolor, hcells⟩
  · exact h

/-- The terminal shows the text, and the screen the text it last rendered. -/
structure Showing (f : Framebuffer) (d : Display) (s : TermSession) : Prop where
  shown : Shown s.text s.display.terminal
  place : s.display.originX = d.originX ∧ s.display.originY = d.originY
    ∧ s.display.fontScale = d.fontScale
  screen : ∀ p : Pixel f, look f s.display.mem p
    = (s.rendered.bind fun text =>
        screenPicture (textScreen text) d.originX d.originY d.fontScale p).getD (look f d.mem p)
  inside : ∀ a, OffScreen f a → s.display.mem a = d.mem a

/-- Every call keeps what the screen shows. -/
theorem Showing.step {s : TermSession} (hvis : Visible f) (hfits : d.Fits) (h : Showing f d s)
    {op : TermOp} (hplain : op.Plain) :
    ∃ s', termSessionStep f s op = some s' ∧ Showing f d s' := by
  obtain ⟨hshown, ⟨hx, hy, hscale⟩, hscreen, hinside⟩ := h
  obtain ⟨t, ht, hshown'⟩ := (hshown.stored op).puts (op.text s.display.terminal)
  have hcall := displayCall_eq (f := f) hplain s.display
  rw [ht, Option.map_some] at hcall
  have hstep : termSessionStep f s op = some
      ⟨if op.renders s.display.terminal then terminalRender f (s.display.after t)
        else s.display.after t, s.text ++ op.text s.display.terminal,
        if op.renders s.display.terminal then some (s.text ++ op.text s.display.terminal)
        else s.rendered⟩ := by
    rw [termSessionStep, hcall, Option.map_some]
  refine ⟨_, hstep, ?_⟩
  by_cases hrender : op.renders s.display.terminal = true
  · simp only [if_pos hrender]
    have hfits' : (s.display.after t).Fits := ⟨hx ▸ hfits.x, hy ▸ hfits.y, hscale ▸ hfits.scale⟩
    obtain ⟨hlook, hout⟩ := terminalRender_look hvis hfits'
    refine ⟨hshown', ⟨hx, hy, hscale⟩, fun p => ?_, fun a ha => (hout a ha).trans (hinside a ha)⟩
    have hpicture : screenPicture (f := f) t.buffer s.display.originX s.display.originY
        s.display.fontScale = screenPicture (textScreen (s.text ++ op.text s.display.terminal))
          d.originX d.originY d.fontScale := by
      rw [hx, hy, hscale]
      exact screenPicture_congr fun r hr k hk => hshown'.cells hr hk
    refine (hlook p).trans ?_
    show (screenPicture (f := f) t.buffer s.display.originX s.display.originY
      s.display.fontScale p).getD (look f s.display.mem p) = _
    rw [hpicture, hscreen p, Option.bind_some]
    -- Off the rectangle no rendering has painted anything.
    cases hat : screenPicture (textScreen (s.text ++ op.text s.display.terminal)) d.originX
      d.originY d.fontScale p with
    | some v => rfl
    | none =>
        cases s.rendered with
        | none => rfl
        | some text =>
            have hoff := screenPicture_none (textScreen text) hat
            rw [Option.bind_some, hoff]
            rfl
  · simp only [if_neg hrender]
    exact ⟨hshown', ⟨hx, hy, hscale⟩, hscreen, hinside⟩

/-- However text is written, printed and typed, the screen shows the last
lines of the text as it was when it was last rendered, and no byte off the
screen changes. -/
theorem terminal_screen_shows_text (hvis : Visible f) (hfits : d.Fits) {ops : List TermOp}
    (hops : ∀ op ∈ ops, op.Plain) :
    ∃ s, runOps (termSessionStep f) ⟨{ d with terminal := terminalInit d.terminal }, [], none⟩ ops
        = some s ∧
      (∀ p : Pixel f, look f s.display.mem p
        = (s.rendered.bind fun text =>
            screenPicture (textScreen text) d.originX d.originY d.fontScale p).getD
              (look f d.mem p)) ∧
      ∀ a, OffScreen f a → s.display.mem a = d.mem a := by
  have hstart : Showing f d ⟨{ d with terminal := terminalInit d.terminal }, [], none⟩ :=
    ⟨⟨[], [], fun _ => rfl, Shows.init d.terminal⟩, ⟨rfl, rfl, rfl⟩, fun _ => rfl, fun _ _ => rfl⟩
  have hplain : AllowedRun (termSessionStep f) (fun _ op => True ∧ op.Plain)
      ⟨{ d with terminal := terminalInit d.terminal }, [], none⟩ ops :=
    (allowedRun_trivial _ ops).and_forall hops
  obtain ⟨s, hrun, hshowing⟩ := run_total (P := Showing f d)
    (fun _ _ hs hop => hs.step hvis hfits hop.2) hstart hplain
  exact ⟨s, hrun, hshowing.screen, hshowing.inside⟩

/-- A screen that the terminal just fills. -/
def bootScreen : Framebuffer := ⟨0x1000, 1280, 800, 1280, by decide, by decide⟩

/-- Text is written and a line typed. -/
theorem terminal_screen_shows_text_typed :
    ∃ s, runOps (termSessionStep bootScreen)
        ⟨⟨terminalInit terminalBoot, 0, 0, fontScaleBoot, fun _ => 0#8⟩, [], none⟩
        [.write [72#8, 105#8, newline], .handleKey 36#8, .putchar 33#8] = some s ∧
      (∀ p : Pixel bootScreen, look bootScreen s.display.mem p
        = (s.rendered.bind fun text =>
            screenPicture (textScreen text) 0 0 fontScaleBoot p).getD
              (look bootScreen (fun _ => 0#8) p)) ∧
      ∀ a, OffScreen bootScreen a → s.display.mem a = 0#8 := by
  apply terminal_screen_shows_text (d := ⟨terminalBoot, 0, 0, fontScaleBoot, fun _ => 0#8⟩)
  · decide
  · decide
  · decide

end ZenithOS.Term
