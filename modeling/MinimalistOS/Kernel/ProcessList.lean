import MinimalistOS.Kernel.Itoa
import MinimalistOS.Kernel.Process

/-!
# `kernel/process.c`: `process_print_list`

One line for each slot in use. The columns are texts in three small arrays on the stack, which
`itoa` fills without knowing how long they are; what is printed of an array is the string in it.
The arrays are given as what is behind their pointers, with the stores so far, and are handed on
from one round of the loop to the next.
-/

namespace MinimalistOS

open Infra

/-- What `vga_print` takes from an array of `size` bytes. -/
def printed (array : Buffer) (size : Nat) : List Byte :=
  (CString.ofBytes ((List.range size).map array.bytes)).bytes

/-- The local arrays of `process_print_list`. -/
structure ListLocals where
  pidStr : Buffer
  runtimeStr : Buffer
  priorityStr : Buffer

/-- `char pid_str[8]`. -/
def pidStrSize : Nat := 8

/-- `char runtime_str[16]`. -/
def runtimeStrSize : Nat := 16

/-- `char priority_str[4]`. -/
def priorityStrSize : Nat := 4

/-- The column of a state. -/
def ProcessState.column : ProcessState → List Byte
  | .running => ascii "RUN     "
  | .ready => ascii "READY   "
  | .blocked => ascii "BLOCKED "
  | .zombie => ascii "ZOMBIE  "
  -- the `default` branch
  | .empty => ascii "?       "

def listHeader : List Byte := ascii "  PID  STATE     RUNTIME  PRIORITY  NAME\n"

def listRule : List Byte := ascii "  ---  --------  -------  --------  ----\n"

/-- Between two columns. -/
def gap : List Byte := ascii "  "

/-- Before the name. -/
def wideGap : List Byte := ascii "      "

/-- The arrays after the three calls of `itoa` for a process. -/
def ListLocals.fill (l : ListLocals) (p : Process) : ListLocals where
  pidStr := itoa (BitVec.ofInt 32 p.pid) l.pidStr 10
  runtimeStr := itoa p.runtime l.runtimeStr 10
  priorityStr := itoa p.priority l.priorityStr 10

/-- What the loop prints for a process, with the arrays as they are filled for it. -/
def processLine (p : Process) (l : ListLocals) : List Byte :=
  gap ++ printed l.pidStr pidStrSize ++ gap ++ p.state.column ++
    gap ++ printed l.runtimeStr runtimeStrSize ++ gap ++
    gap ++ printed l.priorityStr priorityStrSize ++ wideGap ++
    (CString.ofArray p.name).bytes ++ ascii "\n"

/-- The loop of `process_print_list` from slot `i` on, with `n` slots left: the arrays, and what is
printed. -/
def processPrintList.loop (t : ProcessTable) (l : ListLocals) (i : Nat) :
    Nat → ListLocals × List Byte
  | 0 => (l, [])
  | n + 1 =>
    if (t.proc i).state = .empty then processPrintList.loop t l (i + 1) n
    else
      let l := l.fill (t.proc i)
      let rest := processPrintList.loop t l (i + 1) n
      (rest.1, processLine (t.proc i) l ++ rest.2)

def processPrintList (t : ProcessTable) (l : ListLocals) : ListLocals × List Byte :=
  let lines := processPrintList.loop t l 0 t.nextPid
  (lines.1, listHeader ++ listRule ++ lines.2)

end MinimalistOS
