/-
Drawing the windows: `window_draw` of `gui/windows.c`,
`window_manager_draw` of `gui/window_manager.c` and `terminal_app_draw` of
`apps/terminal_app.c`.

The fields of a window that only drawing reads are its `Face`. Its
`draw_content` is null or `terminal_app_draw`, the only function the
source gives a window.
-/
import ZenithOS.Gui.WindowManager
import ZenithOS.Term.Render

namespace ZenithOS.Gui

open Lib Klib Graphics Font Term

/-- What is drawn of a window besides its rectangle: the title and the
content. -/
structure Face where
  title : List Byte
  /-- `draw_content` is `terminal_app_draw`. -/
  drawsTerminal : Bool

/-- The memory that is drawn in, with the origin of the terminal. -/
structure Canvas where
  originX : Int
  originY : Int
  mem : Mem

variable (f : Framebuffer) (t : Terminal) (fontScale : Nat)

/-- `fill_rect` of `int` arguments. -/
def fillRectInt (x y width height : Int) (color : BitVec 32) : Mem → Mem :=
  fillRect f (sizeOfInt x) (sizeOfInt y) (sizeOfInt width) (sizeOfInt height) color

/-- `window_draw`: shadow, title bar, frame and title. -/
def windowDraw (w : Window) (title : List Byte) (m : Mem) : Mem :=
  let m := fillRectInt f (w.x + 4) (w.y + 4) w.width w.height 0x111827#32 m
  let m := fillRectInt f w.x w.y w.width w.height 0x1E293B#32 m
  let m := fillRectInt f w.x w.y w.width 32 0x334155#32 m
  let m := fillRectInt f w.x w.y w.width 1 0x64748B#32 m
  let m := fillRectInt f w.x (w.y + w.height - 1) w.width 1 0x64748B#32 m
  let m := fillRectInt f w.x w.y 1 w.height 0x64748B#32 m
  let m := fillRectInt f (w.x + w.width - 1) w.y 1 w.height 0x64748B#32 m
  let m := fillRectInt f (w.x + 10) (w.y + 10) 10 10 0xEF4444#32 m
  let m := fillRectInt f (w.x + 26) (w.y + 10) 10 10 0xFACC15#32 m
  let m := fillRectInt f (w.x + 42) (w.y + 10) 10 10 0x22C55E#32 m
  drawString f fontScale (w.x + 80) (w.y + 12) title 0xFFFFFF#32 m

/-- `terminal_app_draw`. -/
def terminalAppDraw (w : Window) (c : Canvas) : Canvas :=
  let d := terminalSetOrigin (w.x + 20) (w.y + 40) ⟨t, c.originX, c.originY, fontScale, c.mem⟩
  let d := terminalRender f d
  ⟨d.originX, d.originY, d.mem⟩

variable (d : Desktop) (face : WindowPtr → Face)

/-- One round of the loop of `window_manager_draw`. -/
def drawWindow (i : Nat) (c : Canvas) : Canvas :=
  let window := d.windows i
  let w := d.objects window
  if w.visible then
    let c := { c with mem := windowDraw f fontScale w (face window).title c.mem }
    if (face window).drawsTerminal then terminalAppDraw f t fontScale w c else c
  else c

/-- `window_manager_draw`. -/
def windowManagerDraw (c : Canvas) : Canvas :=
  forUp (drawWindow f t fontScale d face) 0 d.windowCount c

end ZenithOS.Gui
