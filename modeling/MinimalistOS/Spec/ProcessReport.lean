import MinimalistOS.Kernel.ProcessList

/-!
# Reading the process list

What the columns of the list mean to a reader who has only the text: two lines of heading, then one
line for each process, its numbers in decimal and its name up to the end of the line. A name is
free to contain spaces, since it comes last.

`rows` is what there is to read.
-/

namespace MinimalistOS

open Infra

namespace ProcessReport

/-- What a line says. -/
structure Row where
  pid : Int
  state : ProcessState
  runtime : Int
  priority : Int
  name : List Byte
  deriving DecidableEq

/-! ## Reading -/

def isSpace (c : Byte) : Bool := c == 0x20

/-- The characters up to the first space. -/
def word (l : List Byte) : List Byte := l.takeWhile fun c => !isSpace c

/-- What comes after them. -/
def afterWord (l : List Byte) : List Byte := l.dropWhile fun c => !isSpace c

def readState (column : List Byte) : Option ProcessState :=
  [.running, .ready, .blocked, .zombie].find? fun state => state.column == column

/-- The columns of a line, from left to right. -/
def readRow (line : List Byte) : Option Row :=
  let pid := line.drop 2
  let state := (afterWord pid).drop 2
  let runtime := state.drop 10
  let priority := (afterWord runtime).drop 4
  (readState (state.take 8)).map fun s =>
    { pid := evalInteger 10 (word pid), state := s, runtime := evalInteger 10 (word runtime),
      priority := evalInteger 10 (word priority), name := (afterWord priority).drop 6 }

/-- The lines under the heading; the last newline ends a line and starts none. -/
def read (text : List Byte) : Option (List Row) :=
  ((text.splitOn 0x0A).drop 2).dropLast.mapM readRow

/-! ## What there is to read -/

def Row.of (i : Nat) (p : Process) : Row where
  pid := i
  state := p.state
  runtime := p.runtime.toInt
  priority := p.priority.toInt
  name := (CString.ofArray p.name).bytes

/-- The slots in use among those from `i` on, with `n` slots left. -/
def rowsFrom (t : ProcessTable) (i : Nat) : Nat → List Row
  | 0 => []
  | n + 1 =>
    if (t.proc i).state = .empty then rowsFrom t (i + 1) n
    else Row.of i (t.proc i) :: rowsFrom t (i + 1) n

/-- The slots in use of the whole table. -/
def rows (t : ProcessTable) : List Row := rowsFrom t 0 maxProcesses

end ProcessReport

end MinimalistOS
