/-
What is seen is what the mouse finds.

# Layers

`window_manager_draw` paints one window after the other, so the screen
shows a stack of pictures, the window added last uppermost
(`draws_windowManager`). The hit test goes through the same windows from
the last to the first.

# Overhang

The picture of a window is larger than the window: its shadow lies right
of it and below, a long title or the terminal can reach beyond its edge,
and the mouse finds none of this. Where no picture overhangs, the window
that is found is the one that is seen (`windows_seen_as_found`).
-/
import ZenithOS.Gui.Draw
import ZenithOS.Gui.Proofs.Dragging
import ZenithOS.Term.Proofs.Render

namespace ZenithOS.Gui

open Lib Klib Graphics Font Term

variable {f : Framebuffer} {t : Terminal} {fontScale : Nat} {w : Window} {title : List Byte}
  {d : Desktop} {face : WindowPtr → Face} {c : Canvas} {m : Mem} {i n : Nat}

-- ============================================================= one window

/-- The window begins on the screen, and neither it nor its title reaches
the last `int`s. -/
structure Roomy (fontScale : Nat) (w : Window) (title : List Byte) : Prop where
  x : 0 ≤ w.x ∧ w.x < 2 ^ 29
  y : 0 ≤ w.y ∧ w.y < 2 ^ 29
  width : 0 ≤ w.width ∧ w.width < 2 ^ 29
  height : 0 ≤ w.height ∧ w.height < 2 ^ 29
  scale : 0 < fontScale ∧ fontScale ≤ 2
  title : (cString title).length < 64

/-- The picture of a window's frame and title. -/
def windowPicture (fontScale : Nat) (w : Window) (title : List Byte) : Picture f :=
  .stack [
    textPicture (w.y + 12) 0xFFFFFF#32 fontScale letterSpacing (cString title) (w.x + 80),
    rectangle (w.x + 42) (w.y + 10) 10 10 0x22C55E#32,
    rectangle (w.x + 26) (w.y + 10) 10 10 0xFACC15#32,
    rectangle (w.x + 10) (w.y + 10) 10 10 0xEF4444#32,
    rectangle (w.x + w.width - 1) w.y 1 w.height 0x64748B#32,
    rectangle w.x w.y 1 w.height 0x64748B#32,
    rectangle w.x (w.y + w.height - 1) w.width 1 0x64748B#32,
    rectangle w.x w.y w.width 1 0x64748B#32,
    rectangle w.x w.y w.width 32 0x334155#32,
    rectangle w.x w.y w.width w.height 0x1E293B#32,
    rectangle (w.x + 4) (w.y + 4) w.width w.height 0x111827#32]

/-- A rectangle of `int` coordinates. -/
theorem draws_fillRectInt (x y width height : Int) (color : BitVec 32)
    (hx : -2 ^ 31 ≤ x ∧ x < 2 ^ 31) (hy : -2 ^ 31 ≤ y ∧ y < 2 ^ 31)
    (hwidth : 0 ≤ width ∧ width < 2 ^ 31) (hheight : 0 ≤ height ∧ height < 2 ^ 31) :
    Draws f (rectangle x y width height color) (fillRectInt f x y width height color) :=
  draws_fillRect hx hy ⟨by omega, hwidth.2⟩ ⟨by omega, hheight.2⟩ hwidth.1 hheight.1 color

/-- The title. -/
theorem draws_title (hvis : Visible f) (h : Roomy fontScale w title) :
    Draws f (textPicture (w.y + 12) 0xFFFFFF#32 fontScale letterSpacing (cString title) (w.x + 80))
      (drawString f fontScale (w.x + 80) (w.y + 12) title 0xFFFFFF#32) := by
  obtain ⟨hx, hy, -, -, hscale, htitle⟩ := h
  have hlength : (cString title).length * (8 * fontScale + letterSpacing) ≤ 64 * 18 :=
    Nat.mul_le_mul (Nat.le_of_lt htitle) (by unfold letterSpacing; omega)
  exact draws_drawTextLoop hvis hscale.1 (by omega) (by omega) (by omega) (by omega)

/-- `window_draw`. -/
theorem draws_windowDraw (hvis : Visible f) (h : Roomy fontScale w title) :
    Draws f (windowPicture fontScale w title) (windowDraw f fontScale w title) := by
  have htext := draws_title hvis h
  obtain ⟨⟨hx, hx'⟩, ⟨hy, hy'⟩, ⟨hw, hw'⟩, ⟨hh, hh'⟩, -, -⟩ := h
  have hx₀ : -2 ^ 31 ≤ w.x ∧ w.x < 2 ^ 31 := by omega
  have hy₀ : -2 ^ 31 ≤ w.y ∧ w.y < 2 ^ 31 := by omega
  have hw₀ : 0 ≤ w.width ∧ w.width < 2 ^ 31 := by omega
  have hh₀ : 0 ≤ w.height ∧ w.height < 2 ^ 31 := by omega
  have hone : (0 : Int) ≤ 1 ∧ (1 : Int) < 2 ^ 31 := by omega
  have hten : (0 : Int) ≤ 10 ∧ (10 : Int) < 2 ^ 31 := by omega
  have hshadow := draws_fillRectInt (f := f) (w.x + 4) (w.y + 4) w.width w.height 0x111827#32
    (by omega) (by omega) hw₀ hh₀
  have hbody := draws_fillRectInt (f := f) w.x w.y w.width w.height 0x1E293B#32 hx₀ hy₀ hw₀ hh₀
  have hbar := draws_fillRectInt (f := f) w.x w.y w.width 32 0x334155#32 hx₀ hy₀ hw₀ (by omega)
  have htop := draws_fillRectInt (f := f) w.x w.y w.width 1 0x64748B#32 hx₀ hy₀ hw₀ hone
  have hbottom := draws_fillRectInt (f := f) w.x (w.y + w.height - 1) w.width 1 0x64748B#32 hx₀
    (by omega) hw₀ hone
  have hleft := draws_fillRectInt (f := f) w.x w.y 1 w.height 0x64748B#32 hx₀ hy₀ hone hh₀
  have hright := draws_fillRectInt (f := f) (w.x + w.width - 1) w.y 1 w.height 0x64748B#32
    (by omega) hy₀ hone hh₀
  have hred := draws_fillRectInt (f := f) (w.x + 10) (w.y + 10) 10 10 0xEF4444#32 (by omega)
    (by omega) hten hten
  have hyellow := draws_fillRectInt (f := f) (w.x + 26) (w.y + 10) 10 10 0xFACC15#32 (by omega)
    (by omega) hten hten
  have hgreen := draws_fillRectInt (f := f) (w.x + 42) (w.y + 10) 10 10 0x22C55E#32 (by omega)
    (by omega) hten hten
  have hedges := ((((hshadow.comp hbody).comp hbar).comp htop).comp hbottom).comp hleft
  have hall := ((((hedges.comp hright).comp hred).comp hyellow).comp hgreen).comp htext
  refine hall.congr fun p => ?_
  simp only [windowPicture, Layer.stack, List.foldr_cons, List.foldr_nil, Layer.onto_clear]

-- ============================================================ all windows

/-- The window numbered `i`, with its content. -/
def windowLayer (t : Terminal) (fontScale : Nat) (d : Desktop) (face : WindowPtr → Face)
    (i : Nat) : Picture f :=
  let w := d.objects (d.windows i)
  if w.visible then
    let frame := windowPicture fontScale w (face (d.windows i)).title
    if (face (d.windows i)).drawsTerminal then
      (screenPicture t.buffer (w.x + 20) (w.y + 40) fontScale).onto frame
    else frame
  else .clear

/-- `terminal_app_draw`. -/
theorem draws_terminalAppDraw (hvis : Visible f) (h : Roomy fontScale w title) :
    Draws f (screenPicture t.buffer (w.x + 20) (w.y + 40) fontScale)
      (fun m => (terminalAppDraw f t fontScale w ⟨0, 0, m⟩).mem) := by
  obtain ⟨hx, hy, -, -, hscale, -⟩ := h
  have hfits : (Display.mk t (w.x + 20) (w.y + 40) fontScale (fun _ => 0#8)).Fits :=
    ⟨by dsimp only; omega, by dsimp only; omega, hscale⟩
  have happ : (fun m => (terminalAppDraw f t fontScale w ⟨0, 0, m⟩).mem)
      = fun m => (terminalRender f ⟨t, w.x + 20, w.y + 40, fontScale, m⟩).mem := by
    funext m
    simp only [terminalAppDraw, terminalSetOrigin]
  rw [happ]
  exact draws_terminalRender hvis hfits

/-- One round of the loop, on the memory. -/
def paintWindow (f : Framebuffer) (t : Terminal) (fontScale : Nat) (d : Desktop)
    (face : WindowPtr → Face) (i : Nat) (m : Mem) : Mem :=
  (drawWindow f t fontScale d face i ⟨0, 0, m⟩).mem

/-- The origin that was set before makes no difference. -/
theorem drawWindow_mem (i : Nat) (c : Canvas) :
    (drawWindow f t fontScale d face i c).mem = paintWindow f t fontScale d face i c.mem := by
  unfold paintWindow drawWindow
  dsimp only
  split_ifs <;> rfl

/-- One window. -/
theorem draws_paintWindow (hvis : Visible f)
    (h : Roomy fontScale (d.objects (d.windows i)) (face (d.windows i)).title) :
    Draws f (windowLayer t fontScale d face i) (paintWindow f t fontScale d face i) := by
  have hframe := draws_windowDraw hvis h
  have hcontent := hframe.comp (draws_terminalAppDraw (t := t) hvis h)
  unfold windowLayer
  dsimp only
  cases hvisible : (d.objects (d.windows i)).visible with
  | false =>
      have hpaint : paintWindow f t fontScale d face i = fun m => m := by
        funext m
        simp only [paintWindow, drawWindow, hvisible, Bool.false_eq_true, if_false]
      rw [hpaint, if_neg Bool.false_ne_true]
      exact .nothing
  | true =>
      rw [if_pos rfl]
      cases hterminal : (face (d.windows i)).drawsTerminal with
      | false =>
          have hpaint : paintWindow f t fontScale d face i = windowDraw f fontScale
              (d.objects (d.windows i)) (face (d.windows i)).title := by
            funext m
            simp only [paintWindow, drawWindow, hvisible, hterminal, Bool.false_eq_true, if_false,
              if_true]
          rw [hpaint, if_neg Bool.false_ne_true]
          exact hframe
      | true =>
          have hpaint : paintWindow f t fontScale d face i = fun m => (terminalAppDraw f t fontScale
              (d.objects (d.windows i)) ⟨0, 0, windowDraw f fontScale (d.objects (d.windows i))
                (face (d.windows i)).title m⟩).mem := by
            funext m
            simp only [paintWindow, drawWindow, hvisible, hterminal, if_true]
          rw [hpaint, if_pos rfl]
          exact hcontent

/-- The memory goes through the rounds by itself. -/
theorem drawWindows_mem (a n : Nat) (c : Canvas) :
    (forUp (drawWindow f t fontScale d face) a n c).mem
      = forUp (paintWindow f t fontScale d face) a n c.mem := by
  induction n generalizing a c with
  | zero => rfl
  | succ n ih =>
      unfold forUp
      rw [ih, drawWindow_mem]

/-- The pictures of the first `n` windows, the last uppermost. -/
def windowsPicture (t : Terminal) (fontScale : Nat) (d : Desktop) (face : WindowPtr → Face)
    (n : Nat) : Picture f :=
  .stack ((List.range' 0 n).reverse.map (windowLayer t fontScale d face))

theorem windowsPicture_succ (n : Nat) :
    windowsPicture (f := f) t fontScale d face (n + 1)
      = (windowLayer t fontScale d face n).onto (windowsPicture t fontScale d face n) := by
  unfold windowsPicture
  rw [List.range'_1_concat, List.reverse_append, Nat.zero_add]
  rfl

/-- `window_manager_draw`. -/
theorem draws_windowManager (hvis : Visible f) (h : ∀ i < d.windowCount,
      Roomy fontScale (d.objects (d.windows i)) (face (d.windows i)).title) (c : Canvas) :
    (∀ p : Pixel f, look f (windowManagerDraw f t fontScale d face c).mem p
      = (windowsPicture t fontScale d face d.windowCount p).getD (look f c.mem p)) ∧
    ∀ a, OffScreen f a → (windowManagerDraw f t fontScale d face c).mem a = c.mem a := by
  have hdraws : Draws f (windowsPicture t fontScale d face d.windowCount)
      (forUp (paintWindow f t fontScale d face) 0 d.windowCount) :=
    .loop fun i _ hi => draws_paintWindow hvis (h i (by omega))
  unfold windowManagerDraw
  rw [drawWindows_mem]
  exact ⟨hdraws.paints c.mem, hdraws.inside c.mem⟩

-- =========================================================== hit testing

/-- Where a window is found it has painted something. -/
theorem windowLayer_isSome (h : Roomy fontScale (d.objects (d.windows i)) title) (p : Pixel f)
    (hshows : (d.objects (d.windows i)).shows p.x p.y = true) :
    (windowLayer t fontScale d face i p).isSome = true := by
  unfold Window.shows at hshows
  rw [Bool.and_eq_true, decide_eq_true_eq] at hshows
  obtain ⟨hvisible, hin⟩ := hshows
  generalize hw : d.objects (d.windows i) = w at h hvisible hin
  have hframe : (windowPicture fontScale w (face (d.windows i)).title p).isSome = true := by
    have hbody : (rectangle w.x w.y w.width w.height 0x1E293B#32 p).isSome = true := by
      rw [rectangle, if_pos ⟨h.x.1, h.y.1⟩, block, if_pos ⟨⟨hin.1, hin.2.1⟩, hin.2.2⟩]
      rfl
    rw [windowPicture, Layer.stack_apply, List.isSome_findSome?, List.any_eq_true]
    exact ⟨_, by simp, hbody⟩
  unfold windowLayer
  rw [hw]
  dsimp only
  rw [if_pos hvisible]
  by_cases hterminal : (face (d.windows i)).drawsTerminal = true
  · rw [if_pos hterminal, Layer.onto, Option.isSome_or, hframe, Bool.or_true]
  · rw [if_neg hterminal]
    exact hframe

/-- The hit test and the stack, window by window. -/
theorem found_and_seen (n : Nat) (p : Pixel f)
    (h : ∀ i < n, Roomy fontScale (d.objects (d.windows i)) (face (d.windows i)).title)
    (hover : ∀ i < n, (d.objects (d.windows i)).shows p.x p.y = false →
      windowLayer t fontScale d face i p = none) :
    getWindowBelow d p.x p.y n = .string ∧ windowsPicture t fontScale d face n p = none ∨
      ∃ i < n, getWindowBelow d p.x p.y n = d.windows i
        ∧ (windowLayer t fontScale d face i p).isSome = true
        ∧ windowsPicture t fontScale d face n p = windowLayer t fontScale d face i p := by
  induction n with
  | zero => exact .inl ⟨rfl, rfl⟩
  | succ n ih =>
      rw [getWindowBelow_succ, windowsPicture_succ, Layer.onto]
      cases hshows : (d.objects (d.windows n)).shows p.x p.y with
      | true =>
          have hsome : (windowLayer t fontScale d face n p).isSome = true :=
            windowLayer_isSome (h n (Nat.lt_succ_self n)) p hshows
          refine .inr ⟨n, Nat.lt_succ_self n, if_pos rfl, hsome, ?_⟩
          obtain ⟨color, hcolor⟩ := Option.isSome_iff_exists.mp hsome
          rw [hcolor]
          rfl
      | false =>
          rw [if_neg Bool.false_ne_true, hover n (Nat.lt_succ_self n) hshows, Option.none_or]
          rcases ih (fun i hi => h i (Nat.lt_succ_of_lt hi))
            (fun i hi => hover i (Nat.lt_succ_of_lt hi)) with hnone | ⟨i, hi, hfound⟩
          · exact .inl hnone
          · exact .inr ⟨i, Nat.lt_succ_of_lt hi, hfound⟩

/-- `window_manager_draw` paints the windows over one another, the last
uppermost, and nothing else; and where no window paints outside itself,
the window the mouse finds is the one that is seen there. -/
theorem windows_seen_as_found (hvis : Visible f) (t : Terminal) (c : Canvas)
    (h : ∀ i < d.windowCount,
      Roomy fontScale (d.objects (d.windows i)) (face (d.windows i)).title) :
    (∀ p : Pixel f, look f (windowManagerDraw f t fontScale d face c).mem p
      = (windowsPicture t fontScale d face d.windowCount p).getD (look f c.mem p)) ∧
    (∀ a, OffScreen f a → (windowManagerDraw f t fontScale d face c).mem a = c.mem a) ∧
    ∀ p : Pixel f,
      (∀ i < d.windowCount, (d.objects (d.windows i)).shows p.x p.y = false →
        windowLayer t fontScale d face i p = none) →
      windowManagerGetWindowAt d p.x p.y = .string
          ∧ look f (windowManagerDraw f t fontScale d face c).mem p = look f c.mem p ∨
        ∃ i < d.windowCount, windowManagerGetWindowAt d p.x p.y = d.windows i
          ∧ windowLayer t fontScale d face i p
            = some (look f (windowManagerDraw f t fontScale d face c).mem p) := by
  obtain ⟨hlook, hinside⟩ := draws_windowManager (t := t) hvis h c
  refine ⟨hlook, hinside, fun p hover => ?_⟩
  rw [hlook p]
  rcases found_and_seen d.windowCount p h hover with ⟨hfound, hnone⟩ | ⟨i, hi, hfound, hsome, hsame⟩
  · rw [hnone]
    exact .inl ⟨hfound, rfl⟩
  · obtain ⟨color, hcolor⟩ := Option.isSome_iff_exists.mp hsome
    rw [hsame, hcolor]
    exact .inr ⟨i, hi, hfound, hcolor⟩

/-- Two windows, the second over the first. -/
def overlapping : Desktop :=
  ⟨fun i => .window i, 2, .null, fun p =>
    if p = .window 0 then ⟨150, 80, 900, 600, true, false, 0, 0⟩
    else ⟨300, 200, 400, 300, true, false, 0, 0⟩⟩

/-- The window of the terminal, and one without content. -/
def overlappingFace (p : WindowPtr) : Face :=
  if p = .window 0 then ⟨[84#8, 84#8, 89#8], true⟩ else ⟨[65#8], false⟩

theorem overlapping_roomy : ∀ i < overlapping.windowCount, Roomy fontScaleBoot
    (overlapping.objects (overlapping.windows i)) (overlappingFace (overlapping.windows i)).title
  | 0, _ => by constructor <;> decide
  | 1, _ => by constructor <;> decide

/-- A place in both of them. -/
def inBoth : Pixel bootScreen := ⟨350, 300, by decide, by decide⟩

/-- Two windows that overlap. -/
theorem windows_seen_as_found_two :
    ∃ i < 2, windowManagerGetWindowAt overlapping inBoth.x inBoth.y = overlapping.windows i
      ∧ windowLayer terminalBoot fontScaleBoot overlapping overlappingFace i inBoth
        = some (look bootScreen (windowManagerDraw bootScreen terminalBoot fontScaleBoot
          overlapping overlappingFace ⟨0, 0, fun _ => 0#8⟩).mem inBoth) := by
  have hall := windows_seen_as_found (d := overlapping) (show Visible bootScreen by decide)
    terminalBoot ⟨0, 0, fun _ => 0#8⟩ overlapping_roomy
  have hboth : ∀ i < 2, (overlapping.objects (overlapping.windows i)).shows inBoth.x inBoth.y
      = true := by decide
  have hfound : windowManagerGetWindowAt overlapping inBoth.x inBoth.y ≠ .string := by decide
  have hseen := hall.2.2 inBoth fun i hi hnot => by
    rw [hboth i hi] at hnot
    cases hnot
  exact hseen.resolve_left fun hnone => hfound hnone.1

end ZenithOS.Gui
