import MinimalistOS.Infra.Run
import MinimalistOS.Infra.Slots
import MinimalistOS.Kernel.Context
import MinimalistOS.Kernel.String

/-!
# `kernel/process.c`: the process table and the scheduler

Eight slots, a high-water mark `next_pid`, and the current process as an index and as a pointer.
`next_pid` and `current_process` are `int` in the source; they only ever hold loop indices,
remainders and a successor of one, so they are natural numbers here. A pointer into `processes` is
an index, `none` is `NULL`.

`context_switch` appears by its effect on the table: it saves three registers in the context it
leaves, and it is handed the other one. Which values it saves depends on the processor, so they come
with the call. The routine itself is in `Kernel/Context.lean`, and where it continues in
`Properties/ContextSwitch.lean`.
-/

namespace MinimalistOS

open Infra

/-- `MAX_PROCESSES`. -/
def maxProcesses : Nat := 8

/-- `process_state_t`. -/
inductive ProcessState where
  | empty | running | ready | blocked | zombie
  deriving DecidableEq, Repr, Inhabited

deriving instance Inhabited for CpuContext

/-- `process_t`, without the bytes of its stack. -/
structure Process where
  pid : Int
  name : Vector Byte 32
  state : ProcessState
  priority : Word
  runtime : Word
  context : CpuContext
  deriving Inhabited, DecidableEq

/-- The static data of `process.c`, and the address the linker gave `processes`. -/
structure ProcessTable where
  base : Word
  processes : Vector Process 8
  nextPid : Nat
  currentProcess : Nat
  schedulerTicks : Word
  currentProcessPtr : Option Nat

namespace ProcessTable

/-- The static data as the kernel starts with it. -/
def boot (base : Word) : ProcessTable where
  base := base
  processes := default
  nextPid := 0
  currentProcess := 0
  schedulerTicks := 0
  currentProcessPtr := none

/-- `processes[i]`. -/
def proc (t : ProcessTable) (i : Nat) : Process := slot t.processes i

/-- An update of `processes[i]`. -/
def modify (t : ProcessTable) (i : Nat) (f : Process → Process) : ProcessTable :=
  { t with processes := modifySlot t.processes i f }

/-- `(uint32_t)p->stack + STACK_SIZE` for slot `i`. A `process_t` is 4188 bytes and its stack
starts at offset 48. -/
def stackTop (t : ProcessTable) (i : Nat) : Word := t.base + BitVec.ofNat 32 (i * 4188 + 48 + 4096)

end ProcessTable

/-! ## Creation -/

/-- `process_init`. -/
def processInit (t : ProcessTable) : ProcessTable :=
  let processes := t.processes.map fun p => { p with state := ProcessState.empty }
  let t := { t with processes := processes }.modify 0 fun p =>
    { p with pid := 0, state := .running, priority := 1, runtime := 0,
             name := strncpy p.name [0x6B, 0x65, 0x72, 0x6E, 0x65, 0x6C] 31 }
  { t with nextPid := 1, currentProcess := 0, currentProcessPtr := some 0 }

/-- A slot that `process_create` may assign. -/
def ProcessState.isFree (s : ProcessState) : Bool := s == .empty || s == .zombie

/-- The search of `process_create` from slot `i` on, with the number of slots left. -/
def findFree (t : ProcessTable) (i : Nat) : Nat → Option Nat
  | 0 => none
  | n + 1 => if (t.proc i).state.isFree then some i else findFree t (i + 1) n

/-- What `process_create` writes into the slot it assigns. The context is set up only when there
is an entry point. -/
def assign (t : ProcessTable) (i : Nat) (name : List Byte) (entryPoint : Word) (p : Process) :
    Process :=
  { p with pid := i, name := strncpy (Vector.replicate 32 0) name 31, state := .ready,
           priority := 1, runtime := 0,
           context := if entryPoint ≠ 0 then p.context.init entryPoint (t.stackTop i)
             else p.context }

/-- Raise the high-water mark over slot `i`. -/
def raise (t : ProcessTable) (i : Nat) : ProcessTable :=
  if t.nextPid ≤ i then { t with nextPid := i + 1 } else t

def processCreate (t : ProcessTable) (name : List Byte) (entryPoint : Word) : ProcessTable × Int :=
  match findFree t 0 maxProcesses with
  | none => (t, -1)
  | some i => ((raise t i).modify i (assign t i name entryPoint), i)

/-! ## Scheduling -/

/-- The registers `context_switch` saves for the process it leaves. -/
structure Saved where
  esp : Word
  eip : Word
  eflags : Word
  deriving DecidableEq, Repr, Inhabited

/-- A call of `context_switch` for a slot, with the context it is handed. -/
structure Dispatch where
  slot : Nat
  context : CpuContext
  deriving DecidableEq, Repr

/-- `f` applied to `*current_process_ptr`, if that is not `NULL`. -/
def onCurrent (t : ProcessTable) (f : Process → Process) : ProcessTable :=
  match t.currentProcessPtr with
  | none => t
  | some c => t.modify c f

/-- Charge the current process for the tick and make it ready if it was running. -/
def demote (t : ProcessTable) : ProcessTable :=
  onCurrent t fun p =>
    { p with runtime := p.runtime + 1, state := if p.state = .running then .ready else p.state }

/-- The search loop of `schedule`, with the number of attempts left. -/
def findReady (t : ProcessTable) (next : Nat) : Nat → Option Nat
  | 0 => none
  | n + 1 =>
    let next := (next + 1) % t.nextPid
    if (t.proc next).state = .ready then some next else findReady t next n

/-- Make `next` current, and switch contexts if that is a different process. -/
def switchTo (t : ProcessTable) (cpu : Saved) (next : Nat) : ProcessTable × Option Dispatch :=
  let old := t.currentProcessPtr
  let t := { t with currentProcess := next, currentProcessPtr := some next }
  let t := t.modify next fun p => { p with state := .running }
  match old with
  | none => (t, none)
  | some o =>
    -- `context_switch(old, new)` saves into `old` and is handed `new` as it is here
    if o ≠ next then
      (t.modify o fun p => { p with context := p.context.save cpu.esp cpu.eip cpu.eflags },
        some ⟨next, (t.proc next).context⟩)
    else (t, none)

/-- Stay with the current process when nothing is ready. -/
def stay (t : ProcessTable) : ProcessTable :=
  onCurrent t fun p => { p with state := if p.state = .ready then .running else p.state }

def tick (t : ProcessTable) : ProcessTable := { t with schedulerTicks := t.schedulerTicks + 1 }

def schedule (t : ProcessTable) (cpu : Saved) : ProcessTable × Option Dispatch :=
  let t := tick t
  -- with only the kernel process there is nothing to switch to, not even from a zombie
  if t.nextPid ≤ 1 then (t, none)
  else
    let t := demote t
    match findReady t t.currentProcess maxProcesses with
    | some next => switchTo t cpu next
    | none => (stay t, none)

/-- Mark the current process as dead. -/
def bury (t : ProcessTable) : ProcessTable := onCurrent t fun p => { p with state := .zombie }

/-- `process_exit`; the status is not used. -/
def processExit (t : ProcessTable) (_status : Int) (cpu : Saved) :
    ProcessTable × Option Dispatch :=
  schedule (bury t) cpu

/-! ## Calls -/

inductive ProcessCall where
  | create (name : List Byte) (entryPoint : Word)
  | exit (status : Int) (cpu : Saved)
  | schedule (cpu : Saved)
  deriving DecidableEq, Repr

inductive ProcessAnswer where
  | pid (ret : Int)
  | switched (d : Option Dispatch)
  deriving DecidableEq, Repr

def ProcessTable.step (t : ProcessTable) : ProcessCall → ProcessTable × ProcessAnswer
  | .create name entryPoint =>
    ((processCreate t name entryPoint).1, .pid (processCreate t name entryPoint).2)
  | .exit status cpu =>
    ((processExit t status cpu).1, .switched (processExit t status cpu).2)
  | .schedule cpu => ((MinimalistOS.schedule t cpu).1, .switched (MinimalistOS.schedule t cpu).2)

end MinimalistOS
