import MinimalistOS.Infra.Slots
import MinimalistOS.Infra.X86

/-!
# `kernel/idt.c` and `kernel/interrupts.s`

The interrupt descriptor table, the assembly stubs it names, the two C functions the stubs call
and the table of registered handlers. What the processor does between the gate and the stub is
modelled for interrupts taken in kernel mode, on the current stack; a gate it cannot use raises a
general protection fault.
-/

namespace MinimalistOS

open Infra X86

/-- `struct idt_entry`. -/
structure IdtEntry where
  baseLo : BitVec 16
  sel : BitVec 16
  always0 : Byte
  flags : Byte
  baseHi : BitVec 16
  deriving DecidableEq, Repr, Inhabited

/-- The static data of `idt.c`. A handler is its address, `0` is `NULL`. -/
structure Idt where
  idt : Vector IdtEntry 256
  interruptHandlers : Vector Word 256

/-- The entry points of `interrupts.s`: `isr0` to `isr31` and `irq0` to `irq15`. -/
inductive Stub where
  | isr (num : Fin 32)
  | irq (num : Fin 16)
  deriving DecidableEq, Repr

/-- The vector a stub is for. -/
def Stub.vector : Stub → Nat
  | .isr num => num
  | .irq num => 32 + num

def Stub.all : List Stub := (List.finRange 32).map Stub.isr ++ (List.finRange 16).map Stub.irq

/-- Where the linker put the stubs, and the instructions after their calls. -/
structure Image where
  stub : Stub → Word
  stub_injective : Function.Injective stub
  isrReturn : Word
  irqReturn : Word

/-- What the C functions do to the outside. -/
inductive Action where
  | outb (port : BitVec 16) (value : Byte)
  | setColor (fg bg : Byte)
  | print (s : String)
  | printNumber (n : Word)
  | halt
  | invoke (handler intNo : Word)
  deriving DecidableEq, Repr

/-! ## The table -/

/-- The descriptor `idt_set_gate` writes. -/
def gate (base : Word) (sel : BitVec 16) (flags : Byte) : IdtEntry where
  baseLo := base.setWidth 16
  baseHi := (base >>> 16).setWidth 16
  sel := sel
  always0 := 0
  flags := flags

def idtSetGate (k : Idt) (num : Byte) (base : Word) (sel : BitVec 16) (flags : Byte) : Idt :=
  { k with idt := k.idt.setIfInBounds num.toNat (gate base sel flags) }

/-- The vectors `idt_init` sets up, in order, with the stub of each. -/
def installed : List (Byte × Stub) := Stub.all.map fun s => (BitVec.ofNat 8 s.vector, s)

/-- `pic_remap`: the two interrupt controllers deliver vectors 32 to 47. -/
def picRemap : List Action :=
  [ .outb 0x20 0x11,
    .outb 0xA0 0x11,
    .outb 0x21 0x20,
    .outb 0xA1 0x28,
    .outb 0x21 0x04,
    .outb 0xA1 0x02,
    .outb 0x21 0x01,
    .outb 0xA1 0x01,
    .outb 0x21 0xFB,
    .outb 0xA1 0xFF ]

def idtInit (img : Image) (k : Idt) : Idt × List Action :=
  (installed.foldl (fun k p => idtSetGate k p.1 (img.stub p.2) 0x08 0x8E)
    { k with idt := Vector.replicate 256 default }, picRemap)

def registerInterruptHandler (k : Idt) (n : Byte) (handler : Word) : Idt :=
  { k with interruptHandlers := k.interruptHandlers.setIfInBounds n.toNat handler }

/-- Registrations, in order. -/
def registerAll (k : Idt) (regs : List (Byte × Word)) : Idt :=
  regs.foldl (fun k p => registerInterruptHandler k p.1 p.2) k

/-! ## The stubs -/

/-- The vectors whose stub expects an error code from the processor. -/
def hasErrorCode (num : Nat) : Bool := num ∈ [8, 10, 11, 12, 13, 14, 17]

/-- `isr_common_stub` and `irq_common_stub`, up to and with the call. -/
def commonStub (next : Word) : List Instr :=
  [ .pusha,
    .pushSeg .ds,
    .pushSeg .es,
    .pushSeg .fs,
    .pushSeg .gs,
    .movImm16 0x10 .eax,
    .movSeg .eax .ds,
    .movSeg .eax .es,
    .movSeg .eax .fs,
    .movSeg .eax .gs,
    .mov .esp .eax,
    .push .eax,
    .call next ]

/-- `ISR_NOERRCODE`, `ISR_ERRCODE` and `IRQ`. -/
def Stub.code (img : Image) : Stub → List Instr
  | .isr num =>
    if hasErrorCode num then
      [.cli, .pushImm (BitVec.ofNat 32 num)] ++ commonStub img.isrReturn
    else [.cli, .pushImm 0, .pushImm (BitVec.ofNat 32 num)] ++ commonStub img.isrReturn
  | .irq num =>
    [.cli, .pushImm 0, .pushImm (BitVec.ofNat 32 (32 + num))] ++ commonStub img.irqReturn

/-- The stub at an address. -/
def Image.stubAt (img : Image) (addr : Word) : Option Stub :=
  Stub.all.find? fun s => img.stub s = addr

/-! ## The C side -/

/-- `r->int_no`. -/
def intNo (m : Mem) (r : Word) : Word := m.read32 (r + 48)

/-- `fault_handler(r)`: report the exception and stop. -/
def faultHandler (m : Mem) (r : Word) : List Action :=
  [ .setColor 15 4,
    .print "\n*** CPU EXCEPTION: ",
    .printNumber (intNo m r),
    .print " ***\n",
    .halt ]

/-- `irq_handler(r)`: acknowledge the interrupt and call the registered handler, if any. -/
def irqHandler (k : Idt) (m : Mem) (r : Word) : List Action :=
  let handler := slot k.interruptHandlers (intNo m r).toNat
  (if 40 ≤ (intNo m r).toNat then [.outb 0xA0 0x20] else []) ++ [.outb 0x20 0x20] ++
    (if handler ≠ 0 then [.invoke handler (intNo m r)] else [])

/-- The C function a stub calls. -/
def Stub.handler (k : Idt) (m : Mem) (r : Word) : Stub → List Action
  | .isr _ => faultHandler m r
  | .irq _ => irqHandler k m r

/-! ## Delivery -/

/-- An interrupt as the processor raises it. Only some exceptions come with an error code. -/
structure Interrupt where
  vector : Byte
  errorCode : Option Word
  error_vector : errorCode ≠ none → hasErrorCode vector.toNat = true

/-- A present 32-bit interrupt gate. -/
def IdtEntry.usable (e : IdtEntry) : Bool := e.flags &&& 0x9F == 0x8E

/-- Go through the gate of a vector: save flags, code segment and instruction pointer, and the
error code if there is one, and continue at the gate's address with interrupts off. -/
def enter (k : Idt) (c : Cpu) (i : Interrupt) : Option Cpu :=
  let e := slot k.idt i.vector.toNat
  if e.usable then
    let saved := ((c.push c.eflags).push (c.seg .cs)).push c.eip
    let saved := match i.errorCode with
      | none => saved
      | some code => saved.push code
    some { saved.setSeg .cs (e.sel.setWidth 32) with
      eip := e.baseHi ++ e.baseLo, eflags := c.eflags &&& ~~~0x200 }
  else none

/-- The general protection fault for a gate that is not usable. -/
def generalProtection (vector : Byte) : Interrupt where
  vector := 13
  errorCode := some (vector.setWidth 32 * 8 + 2)
  error_vector _ := rfl

/-- Delivery of an interrupt: through its gate, or as a general protection fault. -/
def deliver (k : Idt) (c : Cpu) (i : Interrupt) : Option Cpu :=
  enter k c i <|> enter k c (generalProtection i.vector)

/-- What the kernel does on an interrupt: the gate, the stub at the gate's address, and the C
function that the stub calls with the address of the saved registers. -/
def serve (img : Image) (k : Idt) (c : Cpu) (i : Interrupt) : Option (List Action) := do
  let c ← deliver k c i
  let s ← img.stubAt c.eip
  let c := exec (s.code img) c
  return s.handler k c.mem (c.arg 0)

end MinimalistOS
