import MinimalistOS.Infra.Pic
import MinimalistOS.Infra.Run
import MinimalistOS.Kernel.Idt

/-!
# `kernel/idt.c`: the interrupt lines

`enable_irq`, and the tables of `Kernel/Idt.lean` together with the interrupt controllers that the
port writes go to. A request on a line that gets through is served to the end before the next one:
the stubs run with interrupts off.
-/

namespace MinimalistOS

open Infra X86

/-- `enable_irq(irq)`. C leaves a shift by 32 or more undefined; the instruction takes the count
modulo 32. -/
def enableIrq (p : Pics) (irq : Byte) : Pics :=
  let port : BitVec 16 := if irq.toNat < 8 then 0x21 else 0xA1
  let irq := if irq.toNat < 8 then irq else irq - 8
  let value := ((p.read port).setWidth 32 &&& ~~~((1 : Word) <<< (irq.toNat % 32))).setWidth 8
  p.write port value

/-- The tables and the controllers. -/
structure IrqState where
  tables : Idt
  pics : Pics

/-- What the controllers see of an action. -/
def Action.onPics (p : Pics) : Action → Pics
  | .outb port value => p.write port value
  | _ => p

/-- The handler calls among some actions: handler and `int_no`. -/
def calls (actions : List Action) : List (Word × Word) :=
  actions.filterMap fun
    | .invoke handler intNo => some (handler, intNo)
    | _ => none

/-- The state after `idt_init`. -/
def irqInit (img : Image) (k : Idt) (p : Pics) : IrqState :=
  let (tables, actions) := idtInit img k
  { tables := tables, pics := actions.foldl Action.onPics p }

inductive IrqCall where
  | register (n : Byte) (handler : Word)
  | enable (irq : Byte)
  | request (line : Fin 16)
  deriving DecidableEq, Repr

/-- A call of the kernel, or a device's request, which finds the processor in some state. The answer
are the handlers that are called. -/
def IrqState.step (img : Image) (c : Cpu) (s : IrqState) : IrqCall → IrqState × List (Word × Word)
  | .register n handler =>
    ({ s with tables := registerInterruptHandler s.tables n handler }, [])
  | .enable irq => ({ s with pics := enableIrq s.pics irq }, [])
  | .request line =>
    match s.pics.request line with
    | none => (s, [])
    | some (vector, pics) =>
      match serve img s.tables c ⟨vector, none, fun h => absurd rfl h⟩ with
      | none => ({ s with pics := pics }, [])
      | some actions => ({ s with pics := actions.foldl Action.onPics pics }, calls actions)

end MinimalistOS
