import MinimalistOS.Infra.Memory

/-!
# A small model of the 32-bit x86

Registers, flags, flat memory and the straight-line instructions that context switches and
interrupt stubs are written with. Code is a list of instructions; control leaves it through `ret`,
which sets `eip`. Operands are in AT&T order, source first.

A function called by the C convention finds its return address at `(%esp)` and its arguments at
`4(%esp)`, `8(%esp)`, ...
-/

namespace Infra.X86

inductive Reg where
  | eax | ebx | ecx | edx | esi | edi | ebp | esp
  deriving DecidableEq, Repr

inductive Seg where
  | cs | ds | es | fs | gs
  deriving DecidableEq, Repr

/-- The state of the processor and its memory. -/
structure Cpu where
  reg : Reg → Word
  seg : Seg → Word
  eip : Word
  eflags : Word
  mem : Mem

inductive Instr where
  | push (r : Reg)
  | pushImm (imm : Word)
  | pushMem (disp : Word) (base : Reg)
  | pushSeg (s : Seg)
  | pusha
  | pushf
  | pop (r : Reg)
  | popf
  | mov (src dst : Reg)
  | movImm (imm : Word) (dst : Reg)
  | movImm16 (imm : BitVec 16) (dst : Reg)
  | load (disp : Word) (base dst : Reg)
  | store (src : Reg) (disp : Word) (base : Reg)
  | storeImm (imm disp : Word) (base : Reg)
  | movSeg (src : Reg) (dst : Seg)
  | xor (src dst : Reg)
  | repStos
  | cli
  | call (next : Word)
  | ret
  deriving DecidableEq, Repr

namespace Cpu

def setReg (c : Cpu) (r : Reg) (v : Word) : Cpu :=
  { c with reg := fun r' => if r' = r then v else c.reg r' }

def setSeg (c : Cpu) (s : Seg) (v : Word) : Cpu :=
  { c with seg := fun s' => if s' = s then v else c.seg s' }

/-- Store a dword below the stack pointer and move it down. -/
def push (c : Cpu) (v : Word) : Cpu :=
  { c.setReg .esp (c.reg .esp - 4) with mem := c.mem.write32 (c.reg .esp - 4) v }

/-- The dword the stack pointer points at. -/
def top (c : Cpu) : Word := c.mem.read32 (c.reg .esp)

/-- Move the stack pointer up by a dword. -/
def drop (c : Cpu) : Cpu := c.setReg .esp (c.reg .esp + 4)

/-- Argument `k` of a C call, seen at the entry of the callee. -/
def arg (c : Cpu) (k : Nat) : Word := c.mem.read32 (c.reg .esp + BitVec.ofNat 32 (4 + 4 * k))

end Cpu

/-! ## Flags -/

/-- The direction flag, bit 10 of `EFLAGS`. -/
def df (eflags : Word) : Bool := eflags.getLsbD 10

/-- `EFLAGS` after a bitwise operation with result `r`: carry and overflow are cleared, parity,
zero and sign follow the result. -/
def logicFlags (eflags r : Word) : Word :=
  let even := (List.range 8).countP (fun i => r.getLsbD i) % 2 == 0
  (eflags &&& ~~~0x8C5)
    ||| (if even then 0x4 else 0) ||| (if r = 0 then 0x40 else 0) ||| (if r.msb then 0x80 else 0)

/-! ## Execution -/

/-- `rep stosl` with `n` repetitions left: the memory and the final `edi`. -/
def stos (v delta : Word) : Nat → Mem → Word → Mem × Word
  | 0, m, edi => (m, edi)
  | n + 1, m, edi => stos v delta n (m.write32 edi v) (edi + delta)

/-- The registers in the order `pusha` stores them; the stack pointer is the one before. -/
def pushaOrder : List Reg := [.eax, .ecx, .edx, .ebx, .esp, .ebp, .esi, .edi]

def step (c : Cpu) : Instr → Cpu
  | .push r => c.push (c.reg r)
  | .pushImm imm => c.push imm
  | .pushMem disp base => c.push (c.mem.read32 (c.reg base + disp))
  | .pushSeg s => c.push (c.seg s)
  | .pusha => (pushaOrder.map c.reg).foldl Cpu.push c
  | .pushf => c.push c.eflags
  | .pop r => c.drop.setReg r c.top
  | .popf => { c.drop with eflags := c.top }
  | .mov src dst => c.setReg dst (c.reg src)
  | .movImm imm dst => c.setReg dst imm
  | .movImm16 imm dst => c.setReg dst (c.reg dst &&& 0xFFFF0000 ||| imm.setWidth 32)
  | .load disp base dst => c.setReg dst (c.mem.read32 (c.reg base + disp))
  | .store src disp base => { c with mem := c.mem.write32 (c.reg base + disp) (c.reg src) }
  | .storeImm imm disp base => { c with mem := c.mem.write32 (c.reg base + disp) imm }
  | .movSeg src dst => c.setSeg dst ((c.reg src).setWidth 16 |>.setWidth 32)
  | .xor src dst =>
    let r := c.reg dst ^^^ c.reg src
    { c.setReg dst r with eflags := logicFlags c.eflags r }
  | .repStos =>
    let delta : Word := if df c.eflags then -4 else 4
    let res := stos (c.reg .eax) delta (c.reg .ecx).toNat c.mem (c.reg .edi)
    { (c.setReg .edi res.2).setReg .ecx 0 with mem := res.1 }
  | .cli => { c with eflags := c.eflags &&& ~~~0x200 }
  | .call next => c.push next
  | .ret => { c.drop with eip := c.top }

/-- Run a straight-line piece of code. -/
def exec (code : List Instr) (c : Cpu) : Cpu := code.foldl step c

theorem exec_append (c : Cpu) (as bs : List Instr) : exec (as ++ bs) c = exec bs (exec as c) :=
  List.foldl_append

@[simp] theorem exec_nil (c : Cpu) : exec [] c = c := rfl

@[simp] theorem exec_cons (c : Cpu) (i : Instr) (is : List Instr) :
    exec (i :: is) c = exec is (step c i) := rfl

/-! ## What the helpers change -/

namespace Cpu

variable (c : Cpu)

@[simp] theorem reg_setReg (r s : Reg) (v : Word) :
    (c.setReg r v).reg s = if s = r then v else c.reg s := rfl

@[simp] theorem mem_setReg (r : Reg) (v : Word) : (c.setReg r v).mem = c.mem := rfl

@[simp] theorem eflags_setReg (r : Reg) (v : Word) : (c.setReg r v).eflags = c.eflags := rfl

@[simp] theorem reg_setSeg (s : Seg) (v : Word) : (c.setSeg s v).reg = c.reg := rfl

@[simp] theorem mem_setSeg (s : Seg) (v : Word) : (c.setSeg s v).mem = c.mem := rfl

@[simp] theorem reg_push (v : Word) (s : Reg) :
    (c.push v).reg s = if s = .esp then c.reg .esp - 4 else c.reg s := rfl

@[simp] theorem mem_push (v : Word) : (c.push v).mem = c.mem.write32 (c.reg .esp - 4) v := rfl

@[simp] theorem eflags_push (v : Word) : (c.push v).eflags = c.eflags := rfl

@[simp] theorem reg_drop (s : Reg) :
    c.drop.reg s = if s = .esp then c.reg .esp + 4 else c.reg s := rfl

@[simp] theorem mem_drop : c.drop.mem = c.mem := rfl

end Cpu

end Infra.X86
