import MinimalistOS.Kernel.Irq

/-!
# Interrupt lines

What `register_interrupt_handler` and `enable_irq` are for: sixteen lines that are on or off, each
with at most one handler. A request on a line that is on calls the handler of the line.
-/

namespace MinimalistOS

open Infra

/-- The lines that are on, and their handlers; `0` is no handler. -/
structure Lines where
  enabled : Fin 16 → Bool
  handler : Fin 16 → Word

/-- Only the wire between the controllers is on. -/
def Lines.init (handler : Fin 16 → Word) : Lines where
  enabled line := line == 2
  handler := handler

/-- The vector of a line. -/
def lineVector (line : Fin 16) : Byte := BitVec.ofNat 8 (32 + line)

def Lines.step (t : Lines) : IrqCall → Lines × List (Word × Word)
  | .register n handler =>
    ({ t with handler := fun line => if lineVector line = n then handler else t.handler line }, [])
  | .enable irq =>
    ({ t with enabled := fun line => t.enabled line || line.val == irq.toNat }, [])
  | .request line =>
    (t, if t.enabled line && t.handler line != 0 then
      [(t.handler line, (lineVector line).setWidth 32)] else [])

end MinimalistOS
