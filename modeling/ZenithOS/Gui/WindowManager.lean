/-
The window manager: `gui/window_manager.c` and `window_in_titlebar` of
`gui/windows.c`.

# Pointers

`window_manager_get_window_at` ends with the string `"NULL"`, which is
not the null pointer. So a `WindowPtr` is null, that string, or a window.
`objects` is what is found at one, and for the string that is whatever
follows its four characters in the image of the kernel: `x` is
`stringX`, the rest is not known.

# Integers

Coordinates do not overflow; the fields of a window that only drawing
reads are left out.
-/
import Mathlib.Logic.Function.Basic

namespace ZenithOS.Gui

/-- `TITLEBAR_HEIGHT`. -/
def titlebarHeight : Int := 24

/-- `MAX_WINDOWS`. -/
def maxWindows : Nat := 32

/-- `"NULL"` as an `int`. -/
def stringX : Int := 0x4C4C554E

/-- A `Window *`; `string` is what `window_manager_get_window_at` returns
for no window. -/
inductive WindowPtr
  | null
  | string
  | window (i : Nat)
  deriving DecidableEq, Repr

/-- `Window`, without its title and its drawing function. -/
structure Window where
  x : Int
  y : Int
  width : Int
  height : Int
  visible : Bool
  dragging : Bool
  dragOffsetX : Int
  dragOffsetY : Int
  deriving DecidableEq, Repr

/-- The variables of the file and the memory of the windows. -/
structure Desktop where
  windows : Nat → WindowPtr
  windowCount : Nat
  dragWindow : WindowPtr
  objects : WindowPtr → Window

/-- As the kernel starts. -/
def desktopBoot (objects : WindowPtr → Window) : Desktop :=
  ⟨fun _ => .null, 0, .null, objects⟩

/-- `window_in_titlebar`. -/
def windowInTitlebar (w : Window) (x y : Int) : Bool :=
  w.x ≤ x && x < w.x + w.width && w.y ≤ y && y < w.y + titlebarHeight

variable (d : Desktop)

/-- Stores a window. -/
def Desktop.setWindow (window : WindowPtr) (w : Window) : Desktop :=
  { d with objects := Function.update d.objects window w }

/-- `window_manager_init`. -/
def windowManagerInit : Desktop := { d with windowCount := 0 }

/-- `window_manager_add`. -/
def windowManagerAdd (window : WindowPtr) : Desktop :=
  if maxWindows ≤ d.windowCount then d
  else { d with
    windows := Function.update d.windows d.windowCount window
    windowCount := d.windowCount + 1 }

/-- The loop, over the windows below `i`. -/
def getWindowBelow (x y : Int) : Nat → WindowPtr
  | 0 => .string
  | i + 1 =>
      let window := d.windows i
      let w := d.objects window
      if !w.visible then getWindowBelow x y i
      else if w.x ≤ x ∧ x < w.x + w.width ∧ w.y ≤ y ∧ y < w.y + w.height then window
      else getWindowBelow x y i

/-- `window_manager_get_window_at`. -/
def windowManagerGetWindowAt (x y : Int) : WindowPtr := getWindowBelow d x y d.windowCount

/-- `window_manager_mouse_down`. -/
def windowManagerMouseDown (x y : Int) : Desktop :=
  let window := windowManagerGetWindowAt d x y
  if window = .null then d
  else
    let w := d.objects window
    if !windowInTitlebar w x y then d
    else
      { d with dragWindow := window }.setWindow window { w with
        dragging := true
        dragOffsetX := x - w.x
        dragOffsetY := y - w.y }

/-- `window_manager_mouse_move`. -/
def windowManagerMouseMove (x y : Int) : Desktop :=
  if d.dragWindow = .null then d
  else
    let w := d.objects d.dragWindow
    d.setWindow d.dragWindow { w with x := x - w.dragOffsetX, y := y - w.dragOffsetY }

/-- `window_manager_mouse_up`. -/
def windowManagerMouseUp : Desktop :=
  if d.dragWindow = .null then d
  else
    { d.setWindow d.dragWindow { d.objects d.dragWindow with dragging := false } with
      dragWindow := .null }

-- ============================================================== events

/-- What happens to a desktop; only windows are added. -/
inductive GuiEvent
  | init
  | add (i : Nat)
  | mouseDown (x y : Int)
  | mouseMove (x y : Int)
  | mouseUp

/-- One event. -/
def guiStep : GuiEvent → Desktop
  | .init => windowManagerInit d
  | .add i => windowManagerAdd d (.window i)
  | .mouseDown x y => windowManagerMouseDown d x y
  | .mouseMove x y => windowManagerMouseMove d x y
  | .mouseUp => windowManagerMouseUp d

end ZenithOS.Gui
