/-
Hit testing and dragging.

# The reference

`topmost` is the last added visible window at a point. A `Grab` records
where the pointer and the window were at the last press on a title bar;
`grabAfter` keeps it beside the desktop, the code does not have it.

# The defects

Where there is no window, `window_manager_get_window_at` answers the
string and not null. A press there then asks the string for its title
bar (`string_titlebar`: it has none left of `stringX`). And a press on
another window while one is dragged leaves `dragging` set in the first.
`GuiEvent.Safe` is the absence of both.
-/
import ZenithOS.Gui.WindowManager
import ZenithOS.Lib.Run
import Mathlib.Tactic.SplitIfs

namespace ZenithOS.Gui

open Lib

variable {d : Desktop} {x y : Int} {e : GuiEvent} {p : WindowPtr}

-- ========================================================= hit testing

/-- The window is visible at the point. -/
def Window.shows (w : Window) (x y : Int) : Bool :=
  w.visible && decide (w.x ≤ x ∧ x < w.x + w.width ∧ w.y ≤ y ∧ y < w.y + w.height)

/-- The windows added, in order. -/
def Desktop.added (d : Desktop) : List WindowPtr := (List.range d.windowCount).map d.windows

/-- The last window added of those that show the point. -/
def Desktop.topmost (d : Desktop) (x y : Int) : Option WindowPtr :=
  d.added.reverse.find? fun p => (d.objects p).shows x y

/-- The last window is asked first. -/
theorem getWindowBelow_succ (d : Desktop) (x y : Int) (n : Nat) :
    getWindowBelow d x y (n + 1)
      = if (d.objects (d.windows n)).shows x y then d.windows n else getWindowBelow d x y n := by
  rw [getWindowBelow]
  generalize d.objects (d.windows n) = w
  cases hvisible : w.visible with
  | false => simp [Window.shows, hvisible]
  | true => simp [Window.shows, hvisible]

/-- The search finds the last window that shows the point. -/
theorem getWindowBelow_eq (d : Desktop) (x y : Int) (n : Nat) :
    getWindowBelow d x y n
      = ((((List.range n).map d.windows).reverse.find?
        fun p => (d.objects p).shows x y)).getD .string := by
  induction n with
  | zero => rfl
  | succ n ih =>
      rw [getWindowBelow_succ, List.range_succ, List.map_append, List.reverse_append, ih]
      cases hshows : (d.objects (d.windows n)).shows x y with
      | true => simp [hshows]
      | false => simp [hshows]

/-- `window_manager_get_window_at` finds the topmost window, and the string
for none. -/
theorem windowAt_eq (d : Desktop) (x y : Int) :
    windowManagerGetWindowAt d x y = (d.topmost x y).getD .string :=
  getWindowBelow_eq d x y d.windowCount

/-- Some visible window is at the point. -/
def Desktop.Covered (d : Desktop) (x y : Int) : Prop :=
  ∃ p ∈ d.added, (d.objects p).shows x y = true

/-- A window is on top exactly where one covers the point. -/
theorem topmost_isSome : (d.topmost x y).isSome ↔ d.Covered x y := by
  unfold Desktop.topmost Desktop.Covered
  simp

/-- The answer is right where there is a window. -/
theorem windowAt_right_iff (d : Desktop) (x y : Int) :
    windowManagerGetWindowAt d x y = (d.topmost x y).getD .null ↔ d.Covered x y := by
  rw [windowAt_eq, ← topmost_isSome]
  cases d.topmost x y with
  | none => simp
  | some p => simp

/-- A pointer of any screen is left of the string. -/
theorem string_titlebar (hstring : (d.objects .string).x = stringX) (hx : x < stringX) :
    windowInTitlebar (d.objects .string) x y = false := by
  unfold windowInTitlebar
  have hleft : ¬ (d.objects .string).x ≤ x := by omega
  simp [hleft]

-- =============================================================== grabs

/-- The last press on a title bar: the window, the pointer, and the place
of the window. -/
structure Grab where
  window : WindowPtr
  pointerX : Int
  pointerY : Int
  windowX : Int
  windowY : Int
  deriving DecidableEq

/-- The press takes hold of the window. -/
def Desktop.Takes (d : Desktop) (x y : Int) (p : WindowPtr) : Prop :=
  d.topmost x y = some p ∧ windowInTitlebar (d.objects p) x y = true

/-- What the user holds after an event. -/
def grabAfter (d : Desktop) (g : Option Grab) : GuiEvent → Option Grab
  | .mouseDown x y =>
      match d.topmost x y with
      | none => g
      | some p =>
          if windowInTitlebar (d.objects p) x y then
            some ⟨p, x, y, (d.objects p).x, (d.objects p).y⟩
          else g
  | .mouseUp => none
  | _ => g

/-- The window is taken along with the pointer. -/
def Desktop.takenTo (d : Desktop) (x y : Int) : Option Grab → Desktop
  | none => d
  | some g => d.setWindow g.window { d.objects g.window with
      x := g.windowX + (x - g.pointerX)
      y := g.windowY + (y - g.pointerY) }

/-- A press does not hit the string, and takes hold of no window while
another one is dragged. -/
def GuiEvent.Safe (d : Desktop) : GuiEvent → Prop
  | .mouseDown x y =>
      (d.topmost x y = none → windowInTitlebar (d.objects .string) x y = false)
        ∧ ∀ p ∈ d.topmost x y, windowInTitlebar (d.objects p) x y = true →
          d.dragWindow = .null ∨ d.dragWindow = p
  | _ => True

instance : Decidable (e.Safe d) :=
  match e with
  | .mouseDown .. => inferInstanceAs (Decidable (_ ∧ _))
  | .init | .add _ | .mouseMove .. | .mouseUp => isTrue trivial

/-- A desktop beside the grab, as one machine. -/
structure Session where
  desktop : Desktop
  grab : Option Grab

/-- One event, seen by the window manager and by the user. -/
def sessionStep (s : Session) (e : GuiEvent) : Option Session :=
  some ⟨guiStep s.desktop e, grabAfter s.desktop s.grab e⟩

-- ============================================================ one press

theorem mem_added_topmost (h : d.topmost x y = some p) : p ∈ d.added :=
  List.mem_reverse.mp (List.mem_of_find?_eq_some h)

/-- A press on a title bar. -/
theorem mouseDown_takes (hp : p ≠ .null) (h : d.Takes x y p) :
    windowManagerMouseDown d x y
      = { d with dragWindow := p }.setWindow p { d.objects p with
        dragging := true
        dragOffsetX := x - (d.objects p).x
        dragOffsetY := y - (d.objects p).y } := by
  obtain ⟨htop, htitle⟩ := h
  simp [windowManagerMouseDown, windowAt_eq, htop, hp, htitle]

/-- Another press. -/
theorem mouseDown_ignored (hsafe : (GuiEvent.mouseDown x y).Safe d)
    (h : ∀ p, ¬ d.Takes x y p) : windowManagerMouseDown d x y = d := by
  unfold windowManagerMouseDown
  rw [windowAt_eq]
  cases htop : d.topmost x y with
  | none =>
      have hstring := hsafe.1 htop
      simp [hstring]
  | some p =>
      have htitle : windowInTitlebar (d.objects p) x y = false := by
        have hnot := h p
        unfold Desktop.Takes at hnot
        simpa [htop] using hnot
      simp [htitle]

/-- A press on a title bar takes its window. -/
theorem grabAfter_takes (g : Option Grab) (h : d.Takes x y p) :
    grabAfter d g (.mouseDown x y) = some ⟨p, x, y, (d.objects p).x, (d.objects p).y⟩ := by
  simp [grabAfter, h.1, h.2]

/-- Any other press takes nothing. -/
theorem grabAfter_ignored (g : Option Grab) (h : ∀ p, ¬ d.Takes x y p) :
    grabAfter d g (.mouseDown x y) = g := by
  cases htop : d.topmost x y with
  | none => simp [grabAfter, htop]
  | some p =>
      have hnot := h p
      unfold Desktop.Takes at hnot
      simp only [htop, true_and] at hnot
      simp [grabAfter, htop, hnot]

-- ======================================================= the invariant

/-- `dragging` is set in the drag window and in no other one. -/
def Desktop.OneDragged (d : Desktop) : Prop :=
  ∀ k, (d.objects (.window k)).dragging = true ↔ d.dragWindow = .window k

/-- What every session keeps: at most one window is dragged, the one the
user holds. -/
structure Session.Ok (s : Session) : Prop where
  windows : ∀ p ∈ s.desktop.added, ∃ k, p = .window k
  dragging : s.desktop.OneDragged
  free : s.grab = none → s.desktop.dragWindow = .null
  held : ∀ g, s.grab = some g → (∃ k, g.window = .window k)
    ∧ s.desktop.dragWindow = g.window
    ∧ (s.desktop.objects g.window).dragOffsetX = g.pointerX - g.windowX
    ∧ (s.desktop.objects g.window).dragOffsetY = g.pointerY - g.windowY

variable {s : Session}

/-- A window is added while there is room. -/
theorem added_windowManagerAdd (d : Desktop) (p : WindowPtr) :
    (windowManagerAdd d p).added = if maxWindows ≤ d.windowCount then d.added
      else d.added ++ [p] := by
  unfold windowManagerAdd
  by_cases hfull : maxWindows ≤ d.windowCount
  · simp [hfull]
  · have hbelow : ∀ i ∈ List.range d.windowCount,
        Function.update d.windows d.windowCount p i = d.windows i := by
      intro i hi
      rw [Function.update_of_ne (by have := List.mem_range.mp hi; omega)]
    simp [hfull, Desktop.added, List.range_succ, List.map_congr_left hbelow]

@[simp] theorem windowManagerAdd_objects (d : Desktop) (p : WindowPtr) :
    (windowManagerAdd d p).objects = d.objects := by
  unfold windowManagerAdd
  by_cases hfull : maxWindows ≤ d.windowCount
  · simp [hfull]
  · simp [hfull]

@[simp] theorem windowManagerAdd_dragWindow (d : Desktop) (p : WindowPtr) :
    (windowManagerAdd d p).dragWindow = d.dragWindow := by
  unfold windowManagerAdd
  by_cases hfull : maxWindows ≤ d.windowCount
  · simp [hfull]
  · simp [hfull]

/-- A press. -/
theorem Session.Ok.mouseDown (hok : s.Ok) (hsafe : (GuiEvent.mouseDown x y).Safe s.desktop) :
    Session.Ok ⟨windowManagerMouseDown s.desktop x y,
      grabAfter s.desktop s.grab (.mouseDown x y)⟩ := by
  by_cases htakes : ∃ p, s.desktop.Takes x y p
  · obtain ⟨p, hp⟩ := htakes
    obtain ⟨k, rfl⟩ := hok.windows p (mem_added_topmost hp.1)
    have hdrag := hsafe.2 _ hp.1 hp.2
    rw [mouseDown_takes (by simp) hp, grabAfter_takes _ hp]
    refine ⟨hok.windows, ?_, by simp, ?_⟩
    · intro j
      by_cases hj : j = k
      · simp [Desktop.setWindow, hj]
      · have hother := hok.dragging j
        have hne : s.desktop.dragWindow ≠ .window j := by
          rcases hdrag with hnull | hsame
          · simp [hnull]
          · simp [hsame, Ne.symm hj]
        simp [Desktop.setWindow, hj, hother, hne, Ne.symm hj]
    · rintro g ⟨rfl⟩
      simp [Desktop.setWindow]
  · rw [mouseDown_ignored hsafe (by simpa using htakes),
      grabAfter_ignored _ (by simpa using htakes)]
    exact hok

/-- A move takes the window to where the user drags it. -/
theorem Session.Ok.mouseMove (hok : s.Ok) (x y : Int) :
    windowManagerMouseMove s.desktop x y = s.desktop.takenTo x y s.grab := by
  unfold windowManagerMouseMove
  cases hg : s.grab with
  | none => simp [Desktop.takenTo, hok.free hg]
  | some g =>
      obtain ⟨⟨k, hk⟩, hdrag, hx, hy⟩ := hok.held g hg
      have hne : g.window ≠ .null := by simp [hk]
      have hleft : x - (g.pointerX - g.windowX) = g.windowX + (x - g.pointerX) := by omega
      have htop : y - (g.pointerY - g.windowY) = g.windowY + (y - g.pointerY) := by omega
      simp [Desktop.takenTo, hdrag, hx, hy, hne, hleft, htop]

/-- A move. -/
theorem Session.Ok.move (hok : s.Ok) (x y : Int) :
    Session.Ok ⟨windowManagerMouseMove s.desktop x y, s.grab⟩ := by
  rw [hok.mouseMove]
  cases hg : s.grab with
  | none =>
      rw [Desktop.takenTo, ← hg]
      exact hok
  | some g =>
      unfold Desktop.takenTo
      obtain ⟨⟨k, hk⟩, hdrag, hx, hy⟩ := hok.held g hg
      refine ⟨hok.windows, ?_, by simp, ?_⟩
      · intro j
        have hold := hok.dragging j
        by_cases hj : .window j = g.window
        · rw [hj] at hold ⊢
          simpa [Desktop.setWindow] using hold
        · simpa [Desktop.setWindow, hj] using hold
      · rintro g' ⟨rfl⟩
        exact ⟨⟨k, hk⟩, hdrag, by simpa [Desktop.setWindow] using hx,
          by simpa [Desktop.setWindow] using hy⟩

/-- A release. -/
theorem Session.Ok.mouseUp (hok : s.Ok) :
    Session.Ok ⟨windowManagerMouseUp s.desktop, none⟩ := by
  by_cases hnull : s.desktop.dragWindow = .null
  · simp only [windowManagerMouseUp, hnull, if_true]
    exact ⟨hok.windows, hok.dragging, fun _ => hnull, by simp⟩
  · simp only [windowManagerMouseUp, hnull, if_false]
    refine ⟨hok.windows, ?_, by simp, by simp⟩
    intro k
    by_cases hk : .window k = s.desktop.dragWindow
    · simp [Desktop.setWindow, hk, Ne.symm hnull]
    · have hold := hok.dragging k
      simp [Desktop.setWindow, hk, hold, Ne.symm hk]

@[simp] theorem grabAfter_add (g : Option Grab) (i : Nat) : grabAfter d g (.add i) = g := rfl

/-- Every event keeps what sessions keep. -/
theorem Session.Ok.step {e : GuiEvent} (hok : s.Ok) (hsafe : e.Safe s.desktop) :
    Session.Ok ⟨guiStep s.desktop e, grabAfter s.desktop s.grab e⟩ := by
  cases e with
  | init => exact ⟨by simp [guiStep, windowManagerInit, Desktop.added], hok.dragging, hok.free,
      hok.held⟩
  | add i =>
      refine ⟨?_, by simpa [guiStep, Desktop.OneDragged] using hok.dragging,
        by simpa [guiStep] using hok.free, by simpa [guiStep] using hok.held⟩
      intro p hp
      simp only [guiStep, added_windowManagerAdd] at hp
      by_cases hfull : maxWindows ≤ s.desktop.windowCount
      · rw [if_pos hfull] at hp
        exact hok.windows p hp
      · rw [if_neg hfull, List.mem_append, List.mem_singleton] at hp
        rcases hp with hold | hnew
        · exact hok.windows p hold
        · exact ⟨i, hnew⟩
  | mouseDown x y => exact hok.mouseDown hsafe
  | mouseMove x y => exact hok.move x y
  | mouseUp => exact hok.mouseUp

-- ============================================================ sessions

/-- What is not about dragging. -/
def Window.frame (w : Window) : Int × Int × Int × Int × Bool :=
  (w.x, w.y, w.width, w.height, w.visible)

/-- A desktop in the course of the drag `g`. -/
structure DragsRightly (d : Desktop) (g : Option Grab) : Prop where
  windowAt : ∀ x y,
    windowManagerGetWindowAt d x y = (d.topmost x y).getD .null ↔ d.Covered x y
  held : d.dragWindow = (g.map Grab.window).getD .null
  dragged : d.OneDragged
  /-- a press that takes hold of nothing changes nothing, and no press
  leaves two windows dragged, exactly if it is safe -/
  press : ∀ x y, (GuiEvent.mouseDown x y).Safe d
    ↔ ((∀ p, ¬ d.Takes x y p) → windowManagerMouseDown d x y = d)
      ∧ (windowManagerMouseDown d x y).OneDragged
  move : ∀ x y, windowManagerMouseMove d x y = d.takenTo x y g
  /-- other windows are left alone, and moved is a window by moves only -/
  others : ∀ e : GuiEvent, e.Safe d → ∀ p, p ≠ d.dragWindow → p ≠ (guiStep d e).dragWindow →
    (guiStep d e).objects p = d.objects p
  still : ∀ e : GuiEvent, (∀ x y, e ≠ .mouseMove x y) →
    ∀ p, ((guiStep d e).objects p).frame = (d.objects p).frame

/-- The window that is dragged is the one the user holds. -/
theorem Session.Ok.dragWindow_eq (hok : s.Ok) :
    s.desktop.dragWindow = (s.grab.map Grab.window).getD .null := by
  cases hg : s.grab with
  | none => exact hok.free hg
  | some g => exact (hok.held g hg).2.1

theorem Session.Ok.dragWindow_cases (hok : s.Ok) :
    s.desktop.dragWindow = .null ∨ ∃ k, s.desktop.dragWindow = .window k := by
  cases hg : s.grab with
  | none => exact .inl (hok.free hg)
  | some g =>
      obtain ⟨⟨k, hk⟩, hdrag, -⟩ := hok.held g hg
      exact .inr ⟨k, hdrag.trans hk⟩

/-- A press goes well exactly when it drags nothing else. -/
theorem Session.Ok.safe_iff (hok : s.Ok) (x y : Int) :
    (GuiEvent.mouseDown x y).Safe s.desktop
      ↔ ((∀ p, ¬ s.desktop.Takes x y p) → windowManagerMouseDown s.desktop x y = s.desktop)
        ∧ (windowManagerMouseDown s.desktop x y).OneDragged := by
  constructor
  · intro hsafe
    exact ⟨mouseDown_ignored hsafe, (hok.mouseDown hsafe).dragging⟩
  · rintro ⟨hignored, hdragged⟩
    refine ⟨?_, ?_⟩
    · -- the string would become the drag window
      intro htop
      have hkeep := hignored (by simp [Desktop.Takes, htop])
      by_contra hstring
      have hdrag : s.desktop.dragWindow = .string := by
        rw [← hkeep]
        simp [windowManagerMouseDown, windowAt_eq, htop, hstring, Desktop.setWindow]
      have hcases := hok.dragWindow_cases
      simp [hdrag] at hcases
    · -- the window dragged before keeps its flag
      intro p htop htitle
      have htakes : s.desktop.Takes x y p := ⟨htop, htitle⟩
      obtain ⟨i, rfl⟩ := hok.windows p (mem_added_topmost htop)
      rcases hok.dragWindow_cases with hnull | ⟨k, hk⟩
      · exact .inl hnull
      · refine .inr ?_
        by_contra hne
        have hki : (.window k : WindowPtr) ≠ .window i := fun h => hne (hk.trans h)
        have hset := (hok.dragging k).mpr hk
        have hstill := (hdragged k).mp (by
          rw [mouseDown_takes (by simp) htakes]
          simpa [Desktop.setWindow, hki] using hset)
        rw [mouseDown_takes (by simp) htakes] at hstill
        exact hki hstill.symm

/-- A window that is not dragged stays as it is. -/
theorem Session.Ok.others (hok : s.Ok) {e : GuiEvent} (hsafe : e.Safe s.desktop)
    (hold : p ≠ s.desktop.dragWindow) (hnew : p ≠ (guiStep s.desktop e).dragWindow) :
    (guiStep s.desktop e).objects p = s.desktop.objects p := by
  cases e with
  | init => rfl
  | add i => simp [guiStep]
  | mouseDown x y =>
      by_cases htakes : ∃ q, s.desktop.Takes x y q
      · obtain ⟨q, hq⟩ := htakes
        obtain ⟨k, rfl⟩ := hok.windows q (mem_added_topmost hq.1)
        simp only [guiStep, mouseDown_takes (p := .window k) (by simp) hq] at hnew ⊢
        exact Function.update_of_ne hnew _ _
      · rw [guiStep, mouseDown_ignored hsafe (by simpa using htakes)]
  | mouseMove x y =>
      by_cases hnull : s.desktop.dragWindow = .null
      · simp [guiStep, windowManagerMouseMove, hnull]
      · simp [guiStep, windowManagerMouseMove, hnull, Desktop.setWindow, hold]
  | mouseUp =>
      by_cases hnull : s.desktop.dragWindow = .null
      · simp [guiStep, windowManagerMouseUp, hnull]
      · simp [guiStep, windowManagerMouseUp, hnull, Desktop.setWindow, hold]

/-- No frame changes when one is stored unchanged. -/
theorem setWindow_frame {w : Window} (q : WindowPtr) (h : w.frame = (d.objects q).frame) :
    ((d.setWindow q w).objects p).frame = (d.objects p).frame := by
  by_cases hp : p = q
  · subst hp
    simpa [Desktop.setWindow] using h
  · simp [Desktop.setWindow, hp]

/-- Only a move changes where a window is. -/
theorem guiStep_frame (he : ∀ x y, e ≠ .mouseMove x y) :
    ((guiStep d e).objects p).frame = (d.objects p).frame := by
  cases e with
  | init => rfl
  | add i => simp [guiStep]
  | mouseDown x y =>
      simp only [guiStep, windowManagerMouseDown]
      split_ifs
      · rfl
      · rfl
      · exact setWindow_frame (d := { d with dragWindow := _ }) _ rfl
  | mouseMove x y => exact absurd rfl (he x y)
  | mouseUp =>
      simp only [guiStep, windowManagerMouseUp]
      split_ifs
      · rfl
      · exact setWindow_frame _ rfl

/-- In such a session everything is dragged as it should be. -/
theorem Session.Ok.dragsRightly (hok : s.Ok) : DragsRightly s.desktop s.grab where
  windowAt := windowAt_right_iff s.desktop
  held := hok.dragWindow_eq
  dragged := hok.dragging
  press := hok.safe_iff
  move := hok.mouseMove
  others _ hsafe _ := hok.others hsafe
  still _ he _ := guiStep_frame he

/-- As the kernel starts nothing is dragged. -/
theorem session_boot_ok {objects : WindowPtr → Window}
    (hstill : ∀ k, (objects (.window k)).dragging = false) :
    Session.Ok ⟨desktopBoot objects, none⟩ where
  windows := by simp [desktopBoot, Desktop.added]
  dragging := by simp [Desktop.OneDragged, desktopBoot, hstill]
  free := by simp [desktopBoot]
  held := by simp

/-- Every session of safe presses drags rightly, in each of its states. -/
theorem window_dragging (objects : WindowPtr → Window)
    (hstill : ∀ k, (objects (.window k)).dragging = false) (events : List GuiEvent)
    (hsafe : AllowedRun sessionStep (fun s e => e.Safe s.desktop) ⟨desktopBoot objects, none⟩
      events) :
    ∃ s, runOps sessionStep ⟨desktopBoot objects, none⟩ events = some s
      ∧ DragsRightly s.desktop s.grab := by
  have hstep : ∀ (s : Session) (e : GuiEvent), s.Ok → e.Safe s.desktop →
      ∃ s', sessionStep s e = some s' ∧ s'.Ok :=
    fun s e hok he => ⟨_, rfl, hok.step he⟩
  obtain ⟨s, hrun, hok⟩ := run_total hstep (session_boot_ok hstill) hsafe
  exact ⟨s, hrun, hok.dragsRightly⟩

/-- Two windows side by side. -/
def twoWindows : WindowPtr → Window
  | .window 0 => ⟨10, 10, 100, 100, true, false, 0, 0⟩
  | .window 1 => ⟨200, 10, 100, 100, true, false, 0, 0⟩
  | _ => ⟨stringX, 0, 0, 0, false, false, 0, 0⟩

/-- The first of them follows the pointer. -/
theorem window_dragging_first :
    ∃ s, runOps sessionStep ⟨desktopBoot twoWindows, none⟩
        [.add 0, .add 1, .mouseDown 0 0, .mouseDown 20 20, .mouseMove 30 15] = some s
      ∧ DragsRightly s.desktop s.grab
      ∧ (s.desktop.objects (.window 0)).frame = (20, 5, 100, 100, true) := by
  have hstill : ∀ k, (twoWindows (.window k)).dragging = false := by
    intro k
    rcases k with _ | _ | k
    · rfl
    · rfl
    · rfl
  obtain ⟨s, hrun, hright⟩ := window_dragging twoWindows hstill
    [.add 0, .add 1, .mouseDown 0 0, .mouseDown 20 20, .mouseMove 30 15] (by decide)
  refine ⟨s, hrun, hright, ?_⟩
  obtain rfl := Option.some.inj hrun
  rfl

/-- An empty desktop answers the string, and two presses drag two
windows. -/
theorem window_dragging_fails :
    windowManagerGetWindowAt (desktopBoot twoWindows) 0 0
        ≠ ((desktopBoot twoWindows).topmost 0 0).getD .null
      ∧ ∃ s, runOps sessionStep ⟨desktopBoot twoWindows, none⟩
          [.add 0, .add 1, .mouseDown 20 20, .mouseDown 210 20] = some s
        ∧ (s.desktop.objects (.window 0)).dragging = true
        ∧ (s.desktop.objects (.window 1)).dragging = true := by
  refine ⟨by decide, _, rfl, ?_, ?_⟩
  · rfl
  · rfl

end ZenithOS.Gui
