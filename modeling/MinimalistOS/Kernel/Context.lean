import MinimalistOS.Infra.X86

/-!
# `kernel/context.h` and `kernel/context_switch.s`

The saved processor state of a process and the two assembly routines that write it. The routines
are the instruction lists of the source, in its order, over the model of `Infra/X86.lean`.
-/

namespace MinimalistOS

open Infra X86

/-- `cpu_context_t`, field by field. -/
structure CpuContext where
  eax : Word
  ebx : Word
  ecx : Word
  edx : Word
  esi : Word
  edi : Word
  ebp : Word
  esp : Word
  eip : Word
  eflags : Word
  cr3 : Word
  deriving DecidableEq, Repr

/-- `sizeof(cpu_context_t)`. -/
def contextSize : Nat := 44

/-- `STACK_SIZE` of `process.h`, the bytes of stack below the `stack_top` of a context. -/
def stackSize : Nat := 4096

/-- The structure stored at an address. -/
def readContext (m : Mem) (p : Word) : CpuContext where
  eax := m.read32 p
  ebx := m.read32 (p + 4)
  ecx := m.read32 (p + 8)
  edx := m.read32 (p + 12)
  esi := m.read32 (p + 16)
  edi := m.read32 (p + 20)
  ebp := m.read32 (p + 24)
  esp := m.read32 (p + 28)
  eip := m.read32 (p + 32)
  eflags := m.read32 (p + 36)
  cr3 := m.read32 (p + 40)

/-! ## `context_switch` -/

/-- First part of `context_switch(old, new)`: set up the frame and push the registers. -/
def contextPush : List Instr :=
  [ .push .ebp,
    .mov .esp .ebp,
    .push .eax,
    .push .ebx,
    .push .ecx,
    .push .edx,
    .push .esi,
    .push .edi,
    .push .ebp ]

/-- Second part: save the stack pointer, the return address and the flags in `*old`. -/
def contextStore : List Instr :=
  [ .load 8 .ebp .eax,
    .store .esp 28 .eax,
    .load 4 .ebp .ebx,
    .store .ebx 32 .eax,
    .pushf,
    .pop .ebx,
    .store .ebx 36 .eax ]

/-- Third part: take the stack pointer and the flags from `*new`, push its instruction
pointer, pop the registers and return. -/
def contextLoad : List Instr :=
  [ .load 12 .ebp .eax,
    .load 28 .eax .esp,
    .pushMem 36 .eax,
    .popf,
    .pushMem 32 .eax,
    .pop .ebp,
    .pop .edi,
    .pop .esi,
    .pop .edx,
    .pop .ecx,
    .pop .ebx,
    .pop .eax,
    .pop .ebp,
    .ret ]

/-- `context_switch(old, new)`. -/
def contextSwitch : List Instr := contextPush ++ contextStore ++ contextLoad

/-! ## `context_init` -/

/-- The first half of `context_init(context, entry_point, stack_top)`: clear ten dwords of
`*context`. -/
def contextClear : List Instr :=
  [ .push .ebp,
    .mov .esp .ebp,
    .load 8 .ebp .eax,
    .load 12 .ebp .ebx,
    .load 16 .ebp .ecx,
    .push .edi,
    .push .eax,
    .mov .eax .edi,
    .xor .eax .eax,
    .movImm 10 .ecx,
    .repStos ]

/-- The second half: fill in the instruction pointer, the stack pointer and the flags. -/
def contextFill : List Instr :=
  [ .pop .eax,
    .pop .edi,
    .load 12 .ebp .ebx,
    .store .ebx 32 .eax,
    .load 16 .ebp .ecx,
    .store .ecx 28 .eax,
    .storeImm 0x202 36 .eax,
    .pop .ebp,
    .ret ]

/-- `context_init(context, entry_point, stack_top)`. -/
def contextInit : List Instr := contextClear ++ contextFill

/-- What `context_init` leaves in the structure. It clears ten dwords, so `cr3` is not touched. -/
def CpuContext.init (ctx : CpuContext) (entryPoint stackTop : Word) : CpuContext where
  eax := 0
  ebx := 0
  ecx := 0
  edx := 0
  esi := 0
  edi := 0
  ebp := 0
  esp := stackTop
  eip := entryPoint
  eflags := 0x202
  cr3 := ctx.cr3

/-- What `context_switch` saves in the structure of the process it leaves. -/
def CpuContext.save (ctx : CpuContext) (esp eip eflags : Word) : CpuContext :=
  { ctx with esp := esp, eip := eip, eflags := eflags }

end MinimalistOS
