import MinimalistOS.Infra.Crtc
import MinimalistOS.Kernel.Vga

/-!
# `drivers/vga.c`: the hardware cursor

The functions of `Kernel/Vga.lean` with what they send to the CRT controller. Every function that
moves the cursor ends with `vga_update_cursor`; `vga_scroll` and `vga_set_color` do not.
-/

namespace MinimalistOS

open Infra

/-- `vga.c` and the controller. -/
structure Display where
  vga : Vga
  crtc : Crtc

namespace Display

/-- `vga_update_cursor`. -/
def updateCursor (d : Display) : Display :=
  let pos := BitVec.ofInt 16 (d.vga.cursorY * vgaWidth + d.vga.cursorX)
  let crtc := d.crtc.outb 0x3D4 0x0E
  let crtc := crtc.outb 0x3D5 ((pos >>> 8 &&& 0xFF).truncate 8)
  let crtc := crtc.outb 0x3D4 0x0F
  let crtc := crtc.outb 0x3D5 ((pos &&& 0xFF).truncate 8)
  { d with crtc := crtc }

/-- `vga_enable_cursor`. "Bit 5 of 0x0A is the Cursor Disable bit." -/
def enableCursor (d : Display) (cursorStart cursorEnd : Byte) : Display :=
  let crtc := d.crtc.outb 0x3D4 0x0A
  let crtc := crtc.outb 0x3D5 (0x00 &&& 0xC0 ||| cursorStart &&& 0x1F)
  let crtc := crtc.outb 0x3D4 0x0B
  let crtc := crtc.outb 0x3D5 (0x00 &&& 0xE0 ||| cursorEnd &&& 0x1F)
  { d with crtc := crtc }

/-- What a function does on the screen. -/
def onScreen (d : Display) (f : Vga → Vga) : Display := { d with vga := f d.vga }

def clear (d : Display) : Display := (d.onScreen vgaClear).updateCursor

def init (d : Display) : Display :=
  (((d.enableCursor 0 15).onScreen fun s => vgaSetColor s 7 0).clear).updateCursor

def putchar (d : Display) (c : Byte) : Display :=
  (d.onScreen fun s => vgaPutchar s c).updateCursor

def print (d : Display) (str : CString) : Display := str.bytes.foldl putchar d

/-- `vga_print_at`: the cursor is moved, and moved back afterwards. -/
def printAt (d : Display) (str : CString) (x y : Int) : Display :=
  let printed := (d.onScreen fun s => { s with cursorX := x, cursorY := y }).print str
  (printed.onScreen fun s =>
    { s with cursorX := d.vga.cursorX, cursorY := d.vga.cursorY }).updateCursor

def setCursor (d : Display) (x y : Int) : Display :=
  if 0 ≤ x ∧ x < vgaWidth ∧ 0 ≤ y ∧ y < vgaHeight then
    (d.onScreen fun s => { s with cursorX := x, cursorY := y }).updateCursor
  else d

end Display

/-! ## Calls -/

inductive DisplayCall where
  | vga (call : VgaCall)
  | enableCursor (cursorStart cursorEnd : Byte)
  deriving DecidableEq

def Display.step (d : Display) : DisplayCall → Display × Unit
  | .vga .init => (d.init, ())
  | .vga .clear => (d.clear, ())
  | .vga (.putchar c) => (d.putchar c, ())
  | .vga (.print str) => (d.print str, ())
  | .vga .scroll => (d.onScreen vgaScroll, ())
  | .vga (.setCursor x y) => (d.setCursor x y, ())
  | .vga (.printAt str x y) => (d.printAt str x y, ())
  | .vga (.setColor fg bg) => (d.onScreen fun s => vgaSetColor s fg bg, ())
  | .enableCursor cursorStart cursorEnd => (d.enableCursor cursorStart cursorEnd, ())

end MinimalistOS
