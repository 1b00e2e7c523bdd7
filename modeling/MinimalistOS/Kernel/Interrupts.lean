import MinimalistOS.Infra.Interrupt
import MinimalistOS.Kernel.Idt

/-!
# Returning from an interrupt

`struct regs` of `idt.h` and the second half of the common stubs of `interrupts.s`, from the
return of the C function to `iret`. The C function itself is any change of the machine; what it may
do is said where it is used.
-/

namespace MinimalistOS

open Infra X86

/-- `struct regs`, without the two fields that only exist after a change of privilege. -/
structure Regs where
  gs : Word
  fs : Word
  es : Word
  ds : Word
  edi : Word
  esi : Word
  ebp : Word
  espDummy : Word
  ebx : Word
  edx : Word
  ecx : Word
  eax : Word
  intNo : Word
  errCode : Word
  eip : Word
  cs : Word
  eflags : Word
  deriving DecidableEq, Repr

/-- The bytes of `struct regs`. -/
def regsSize : Nat := 68

/-- The structure stored at an address. -/
def readRegs (m : Mem) (p : Word) : Regs where
  gs := m.read32 p
  fs := m.read32 (p + 4)
  es := m.read32 (p + 8)
  ds := m.read32 (p + 12)
  edi := m.read32 (p + 16)
  esi := m.read32 (p + 20)
  ebp := m.read32 (p + 24)
  espDummy := m.read32 (p + 28)
  ebx := m.read32 (p + 32)
  edx := m.read32 (p + 36)
  ecx := m.read32 (p + 40)
  eax := m.read32 (p + 44)
  intNo := m.read32 (p + 48)
  errCode := m.read32 (p + 52)
  eip := m.read32 (p + 56)
  cs := m.read32 (p + 60)
  eflags := m.read32 (p + 64)

/-- The end of `isr_common_stub` and `irq_common_stub`, after the call. -/
def stubReturn : List Leave :=
  [ .pop .eax,
    .popSeg .gs,
    .popSeg .fs,
    .popSeg .es,
    .popSeg .ds,
    .popa,
    .addImm 8 .esp,
    .iret ]

/-- The machine at the entry of the C function of an interrupt. -/
def atHandler (img : Image) (k : Idt) (c : Cpu) (i : Interrupt) : Option Cpu := do
  let c ← deliver k c i
  let s ← img.stubAt c.eip
  return exec (s.code img) c

/-- An interrupt from its gate to `iret`. The C function is `body`. -/
def interrupt (img : Image) (k : Idt) (body : Cpu → Cpu) (c : Cpu) (i : Interrupt) : Option Cpu :=
  (atHandler img k c i).map fun c => leaveAll stubReturn (body c)

/-- A request on one of the sixteen lines. -/
def irqRequest (num : Fin 16) : Interrupt where
  vector := BitVec.ofNat 8 (32 + num)
  errorCode := none
  error_vector h := absurd rfl h

/-- What happens while straight-line code runs: its next instruction, or an interrupt. -/
inductive Occurrence where
  | instr (i : Instr)
  | irq (num : Fin 16) (body : Cpu → Cpu)

/-- Code with interrupts between its instructions. -/
def interleave (img : Image) (k : Idt) : Cpu → List Occurrence → Option Cpu
  | c, [] => some c
  | c, .instr i :: es => interleave img k (step c i) es
  | c, .irq num body :: es =>
    match interrupt img k body c (irqRequest num) with
    | none => none
    | some c => interleave img k c es

/-- The code alone. -/
def Occurrence.code (es : List Occurrence) : List Instr :=
  es.filterMap fun
    | .instr i => some i
    | .irq _ _ => none

end MinimalistOS
