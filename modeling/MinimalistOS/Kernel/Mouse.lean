import MinimalistOS.Infra.Slots
import MinimalistOS.Kernel.Vga

/-!
# `drivers/mouse.c`

The interrupt handler of the PS/2 mouse: it collects three bytes, moves the position and draws the
pointer. The commands of `mouse_init` to the controller and its waits are left out, what it resets
is not.
-/

namespace MinimalistOS

open Infra

/-- The static data of `mouse.c`, and the screen it draws on. -/
structure Mouse where
  packet : Vector Byte 3
  packetIndex : Nat
  mouseX : Int
  mouseY : Int
  mouseButtons : Byte
  vga : Vga

/-- The string `{'X', '\0'}`. -/
def pointerText : CString := ⟨[0x58], by decide⟩

/-- The string `{' ', '\0'}`. -/
def spaceText : CString := ⟨[0x20], by decide⟩

/-- "Clamp to screen", then print. -/
def drawCursor (s : Mouse) : Mouse :=
  let x := if s.mouseX < 0 then 0 else s.mouseX
  let y := if s.mouseY < 0 then 0 else s.mouseY
  let x := if vgaWidth ≤ x then (vgaWidth : Int) - 1 else x
  let y := if vgaHeight ≤ y then (vgaHeight : Int) - 1 else y
  { s with mouseX := x, mouseY := y, vga := vgaPrintAt s.vga pointerText x y }

def clearCursor (s : Mouse) : Mouse :=
  if s.mouseX < 0 ∨ s.mouseY < 0 ∨ vgaWidth ≤ s.mouseX ∨ vgaHeight ≤ s.mouseY then s
  else { s with vga := vgaPrintAt s.vga spaceText s.mouseX s.mouseY }

/-- `mouse_irq_handler`: `status` and `data` are what the two ports give. -/
def mouseIrqHandler (s : Mouse) (status data : Byte) : Mouse :=
  if status &&& 0x20 = 0 then s
  -- "First byte must always have bit 3 set for a valid packet"
  else if s.packetIndex = 0 ∧ data &&& 0x08 = 0 then s
  else
    let s := { s with
      packet := s.packet.setIfInBounds s.packetIndex data
      packetIndex := s.packetIndex + 1 }
    if s.packetIndex < 3 then s
    else
      let s := { s with packetIndex := 0 }
      let dx := (slot s.packet 1).toInt
      let dy := (slot s.packet 2).toInt
      let s := clearCursor s
      let s := { s with
        mouseX := s.mouseX + dx
        mouseY := s.mouseY - dy
        mouseButtons := slot s.packet 0 &&& 0x07 }
      drawCursor s

/-- "Reset internal state" of `mouse_init`. -/
def Mouse.reset (s : Mouse) : Mouse :=
  { s with packetIndex := 0, mouseX := 0, mouseY := 0, mouseButtons := 0 }

/-- An interrupt of the mouse line. -/
def Mouse.step (s : Mouse) (io : Byte × Byte) : Mouse × Unit := (mouseIrqHandler s io.1 io.2, ())

end MinimalistOS
