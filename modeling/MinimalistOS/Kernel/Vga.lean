import MinimalistOS.Infra.Run
import MinimalistOS.Kernel.String

/-!
# `drivers/vga.c`: the text screen

Twenty-five rows of eighty cells in video memory, a cursor and a colour. A cell is sixteen bits,
the character below and the colour above. Video memory is a function from the index `i` of
`vga[i]` on, so that a write beside the screen is a write to another index; the coordinates are
the `int`s of the source. What is sent to the ports of the hardware cursor is left out.
-/

namespace MinimalistOS

open Infra

/-- `VGA_WIDTH`. -/
def vgaWidth : Nat := 80

/-- `VGA_HEIGHT`. -/
def vgaHeight : Nat := 25

/-- A cell of video memory. -/
abbrev Cell := BitVec 16

/-- The static data of `vga.c`, and video memory. -/
structure Vga where
  vga : Int → Cell
  cursorX : Int
  cursorY : Int
  currentColor : Byte

/-- The static data before anything is called, over what video memory holds then. -/
def Vga.boot (memory : Int → Cell) : Vga :=
  { vga := memory, cursorX := 0, cursorY := 0, currentColor := 0x07 }

/-- `(uint16_t)c | (uint16_t)color << 8`; a `char` is signed. -/
def vgaCell (c color : Byte) : Cell := c.signExtend 16 ||| color.zeroExtend 16 <<< 8

/-- `vga[i] = cell`. -/
def Vga.setCell (s : Vga) (i : Int) (cell : Cell) : Vga :=
  { s with vga := Function.update s.vga i cell }

def vgaPutcharAt (s : Vga) (c color : Byte) (x y : Int) : Vga :=
  s.setCell (y * vgaWidth + x) (vgaCell c color)

/-- The loop that puts `n` spaces into a row, from column `x` on. -/
def blankRow (s : Vga) (y : Int) (x : Nat) : Nat → Vga
  | 0 => s
  | n + 1 => blankRow (vgaPutcharAt s 0x20 s.currentColor x y) y (x + 1) n

/-- The loop of `vga_clear` over `n` rows, from row `y` on. -/
def blankRows (s : Vga) (y : Nat) : Nat → Vga
  | 0 => s
  | n + 1 => blankRows (blankRow s y 0 vgaWidth) (y + 1) n

def vgaClear (s : Vga) : Vga := { blankRows s 0 vgaHeight with cursorX := 0, cursorY := 0 }

/-! ## Scrolling -/

/-- The loop that copies `n` cells of the row below into row `y`, from column `x` on. -/
def copyRowUp (s : Vga) (y x : Nat) : Nat → Vga
  | 0 => s
  | n + 1 =>
    copyRowUp (s.setCell (y * vgaWidth + x) (s.vga ((y + 1) * vgaWidth + x))) y (x + 1) n

/-- The loop over `n` rows, from row `y` on. -/
def copyRowsUp (s : Vga) (y : Nat) : Nat → Vga
  | 0 => s
  | n + 1 => copyRowsUp (copyRowUp s y 0 vgaWidth) (y + 1) n

def vgaScroll (s : Vga) : Vga :=
  blankRow (copyRowsUp s 0 (vgaHeight - 1)) (vgaHeight - 1 : Nat) 0 vgaWidth

/-! ## Printing -/

/-- "Ensure cursor is within bounds before processing". The row is not advanced. -/
def Vga.clampCursor (s : Vga) : Vga :=
  { s with
    cursorX := if vgaWidth ≤ s.cursorX then 0 else s.cursorX
    cursorY := if vgaHeight ≤ s.cursorY then vgaHeight - 1 else s.cursorY }

/-- The branches of `vga_putchar`. -/
def Vga.write (s : Vga) (c : Byte) : Vga :=
  if c = 0x0A ∨ c = 0x0D then { s with cursorX := 0, cursorY := s.cursorY + 1 }
  else if c = 0x08 then
    let s := if 0 < s.cursorX then { s with cursorX := s.cursorX - 1 }
      else if 0 < s.cursorY then { s with cursorY := s.cursorY - 1, cursorX := vgaWidth - 1 }
      else s
    vgaPutcharAt s 0x20 s.currentColor s.cursorX s.cursorY
  else if c = 0x09 then { s with cursorX := (s.cursorX + 8) / 8 * 8 }
  else if 0x20 ≤ c.toInt then
    -- "If we're at the end of a line, automatically wrap"
    let s := if vgaWidth ≤ s.cursorX then { s with cursorX := 0, cursorY := s.cursorY + 1 } else s
    { vgaPutcharAt s c s.currentColor s.cursorX s.cursorY with cursorX := s.cursorX + 1 }
  else s

def vgaPutchar (s : Vga) (c : Byte) : Vga :=
  let s := s.clampCursor.write c
  if vgaHeight ≤ s.cursorY then { vgaScroll s with cursorY := vgaHeight - 1 } else s

def vgaPrint (s : Vga) (str : CString) : Vga := str.bytes.foldl vgaPutchar s

/-- `vga_print_at`: the cursor is moved, and moved back afterwards. -/
def vgaPrintAt (s : Vga) (str : CString) (x y : Int) : Vga :=
  { vgaPrint { s with cursorX := x, cursorY := y } str with
    cursorX := s.cursorX, cursorY := s.cursorY }

/-! ## Cursor and colour -/

def vgaSetCursor (s : Vga) (x y : Int) : Vga :=
  if 0 ≤ x ∧ x < vgaWidth ∧ 0 ≤ y ∧ y < vgaHeight then { s with cursorX := x, cursorY := y } else s

def vgaSetColor (s : Vga) (fg bg : Word) : Vga :=
  { s with currentColor := (bg <<< 4 ||| fg &&& 0x0F).truncate 8 }

/-- `vga_init`: light grey on black. -/
def vgaInit (s : Vga) : Vga := vgaClear (vgaSetColor s 7 0)

/-! ## Calls -/

inductive VgaCall where
  | init
  | clear
  | putchar (c : Byte)
  | print (str : CString)
  | scroll
  | setCursor (x y : Int)
  | printAt (str : CString) (x y : Int)
  | setColor (fg bg : Word)
  deriving DecidableEq

def Vga.step (s : Vga) : VgaCall → Vga × Unit
  | .init => (vgaInit s, ())
  | .clear => (vgaClear s, ())
  | .putchar c => (vgaPutchar s c, ())
  | .print str => (vgaPrint s str, ())
  | .scroll => (vgaScroll s, ())
  | .setCursor x y => (vgaSetCursor s x y, ())
  | .printAt str x y => (vgaPrintAt s str x y, ())
  | .setColor fg bg => (vgaSetColor s fg bg, ())

end MinimalistOS
