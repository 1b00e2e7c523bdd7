import MinimalistOS.Infra.Bitmap
import MinimalistOS.Infra.Word

/-!
# The interrupt controllers of a PC

An 8259 controller has eight lines, of which line 0 has the highest priority. A line that is masked
or that is not above everything in service does not get through. The second controller is wired
to line 2 of the first. Of the commands only initialisation and the unspecific end of interrupt are
modelled.
-/

namespace Infra

/-- A word of the initialisation sequence. -/
inductive InitWord where
  | base
  | cascade
  | mode
  deriving DecidableEq, Repr

structure Pic where
  /-- What the next writes to the data port are taken for. -/
  expects : List InitWord
  base : Byte
  mask : Byte
  inService : Byte
  deriving DecidableEq, Repr

namespace Pic

/-- A write to the command port. The lowest bit in service has the highest priority. -/
def command (p : Pic) (v : Byte) : Pic :=
  if v.getLsbD 4 then
    { p with
      expects := .base :: (if v.getLsbD 1 then [] else [.cascade]) ++
        (if v.getLsbD 0 then [.mode] else [])
      mask := 0
      inService := 0 }
  else if v = 0x20 then { p with inService := p.inService &&& (p.inService - 1) }
  else p

/-- A write to the data port. -/
def data (p : Pic) (v : Byte) : Pic :=
  match p.expects with
  | [] => { p with mask := v }
  | .base :: rest => { p with expects := rest, base := v &&& 0xF8 }
  | _ :: rest => { p with expects := rest }

/-- Does a request on the line get through? -/
def accepts (p : Pic) (line : Fin 8) : Bool :=
  p.expects.isEmpty && !p.mask.getLsbD line &&
    (List.finRange 8).all fun k => !(decide (k ≤ line) && p.inService.getLsbD k)

/-- The request is taken over by the processor. -/
def accept (p : Pic) (line : Fin 8) : Pic :=
  { p with inService := p.inService ||| 1#8 <<< line.val }

def vector (p : Pic) (line : Fin 8) : Byte := p.base + BitVec.ofNat 8 line

end Pic

/-- The two controllers. -/
structure Pics where
  master : Pic
  slave : Pic
  deriving DecidableEq, Repr

namespace Pics

def write (p : Pics) (port : BitVec 16) (v : Byte) : Pics :=
  if port = 0x20 then { p with master := p.master.command v }
  else if port = 0x21 then { p with master := p.master.data v }
  else if port = 0xA0 then { p with slave := p.slave.command v }
  else if port = 0xA1 then { p with slave := p.slave.data v }
  else p

/-- A read of a data port gives the mask. -/
def read (p : Pics) (port : BitVec 16) : Byte :=
  if port = 0x21 then p.master.mask else if port = 0xA1 then p.slave.mask else 0

/-- A request on one of the sixteen lines, line 2 being the wire between the controllers: the vector
the processor gets, if any. -/
def request (p : Pics) (line : Fin 16) : Option (Byte × Pics) :=
  let k : Fin 8 := ⟨line % 8, Nat.mod_lt _ (by decide)⟩
  if line.val < 8 then
    if p.master.accepts k then some (p.master.vector k, { p with master := p.master.accept k })
    else none
  else if p.slave.accepts k && p.master.accepts 2 then
    some (p.slave.vector k, { master := p.master.accept 2, slave := p.slave.accept k })
  else none

end Pics

/-! ## Idle controllers -/

namespace Pic

/-- Initialised, and nothing in service. -/
structure Idle (p : Pic) : Prop where
  expects : p.expects = []
  inService : p.inService = 0

variable {p : Pic}

theorem Idle.accepts (h : p.Idle) (line : Fin 8) : p.accepts line = !p.mask.getLsbD line := by
  unfold Pic.accepts
  rw [h.expects, h.inService]
  simp

/-- The lowest bit of the only line in service. -/
theorem lowest_in_service : ∀ line : Fin 8,
    ((0 : Byte) ||| 1#8 <<< line.val) &&& ((0 ||| 1#8 <<< line.val) - 1) = 0 := by
  decide

/-- The end of the only interrupt in service leaves the controller as it was before. -/
theorem Idle.accept_end (h : p.Idle) (line : Fin 8) : (p.accept line).command 0x20 = p := by
  have hicw : ¬ (0x20 : Byte).getLsbD 4 = true := by decide
  unfold command accept
  rw [if_neg hicw, if_pos rfl]
  simp only [h.inService, lowest_in_service]
  rw [← h.inService]

/-- An initialised controller takes a write to its data port for the mask. -/
theorem Idle.data (h : p.Idle) (v : Byte) : p.data v = { p with mask := v } := by
  unfold Pic.data
  rw [h.expects]

end Pic

end Infra
