import MinimalistOS.Infra.Memory

/-!
# The CRT controller of a text screen

A bank of registers behind two ports: one takes the number of a register, the other its value. The
location of the hardware cursor is a cell number in two registers, the upper byte first. Bit 5 of the
cursor start register turns the cursor off.
-/

namespace Infra

structure Crtc where
  index : Byte
  reg : Byte → Byte

namespace Crtc

/-- A write to a port. -/
def outb (c : Crtc) (port : BitVec 16) (v : Byte) : Crtc :=
  if port = 0x3D4 then { c with index := v }
  else if port = 0x3D5 then { c with reg := Function.update c.reg c.index v }
  else c

/-- The cell of the hardware cursor. -/
def location (c : Crtc) : Nat := (c.reg 0x0E ++ c.reg 0x0F).toNat

/-- Is the hardware cursor shown? -/
def cursorOn (c : Crtc) : Bool := !(c.reg 0x0A).getLsbD 5

/-- A register is written through the two ports. -/
theorem outb_outb (c : Crtc) (i v : Byte) :
    (c.outb 0x3D4 i).outb 0x3D5 v = ⟨i, Function.update c.reg i v⟩ := by
  simp only [outb, if_true, if_neg (show (0x3D5 : BitVec 16) ≠ 0x3D4 by decide)]

end Crtc

end Infra
