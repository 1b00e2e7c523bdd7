import MinimalistOS.Infra.Run
import MinimalistOS.Infra.Word
import MinimalistOS.Kernel.String

/-!
# `kernel/shell.c`: reading commands

The two nested loops of `shell_run`. The inner one takes a character from the keyboard, or else from
the serial port, and edits a line with it; at the end of the line the outer one starts a new line.
What a command does and what is shown on the screen is not part of this.
-/

namespace MinimalistOS

open Infra

/-- `SHELL_BUFFER_SIZE`. -/
def shellBufferSize : Nat := 256

/-- `'\n'`. -/
def Shell.newline : Byte := 0x0A

/-- `'\r'`. -/
def Shell.carriageReturn : Byte := 0x0D

/-- `'\b'`. -/
def Shell.backspace : Byte := 0x08

/-- The delete character. -/
def Shell.delete : Byte := 0x7F

/-- The local variables of `shell_run`: `input_buffer` and `buffer_pos`. -/
structure ShellLine where
  inputBuffer : Vector Byte 256
  bufferPos : Int
  deriving DecidableEq

/-- A new line. -/
def ShellLine.empty : ShellLine := ⟨Vector.replicate 256 0, 0⟩

/-- `input_buffer[i] = c`. -/
def ShellLine.put (s : ShellLine) (i : Int) (c : Byte) : ShellLine :=
  { s with inputBuffer := s.inputBuffer.setIfInBounds i.toNat c }

/-! ## Editing -/

/-- The loop that trims the line, at most `n` turns of it. `char` is signed, and `' '` is 32. -/
def ShellLine.trimLoop (s : ShellLine) : Nat → ShellLine
  | 0 => s
  | n + 1 =>
    if 0 < s.bufferPos ∧ (slot s.inputBuffer (s.bufferPos - 1).toNat).toInt ≤ 32 then
      trimLoop { s.put (s.bufferPos - 1) 0 with bufferPos := s.bufferPos - 1 } n
    else s

/-- "Trim trailing carriage returns or spaces"; every turn takes one from `buffer_pos`. -/
def ShellLine.trim (s : ShellLine) : ShellLine := s.trimLoop s.bufferPos.toNat

/-- One turn of the inner loop with the character `c`: the line, and the string that is passed to
`shell_execute_command`. -/
def ShellLine.input (s : ShellLine) (c : Byte) : ShellLine × Option CString :=
  if c = 0 then (s, none)
  else if c = Shell.newline ∨ c = Shell.carriageReturn then
    let line := (s.put s.bufferPos 0).trim
    (.empty, if 0 < line.bufferPos then some (CString.ofArray line.inputBuffer) else none)
  else if c = Shell.backspace ∨ c = Shell.delete then
    if 0 < s.bufferPos then
      ({ s.put (s.bufferPos - 1) 0 with bufferPos := s.bufferPos - 1 }, none)
    else (s, none)
  else if s.bufferPos < shellBufferSize - 1 then
    ({ s.put s.bufferPos c with bufferPos := s.bufferPos + 1 }, none)
  else (s, none)

/-! ## The serial port -/

/-- `shell_serial_getchar`: the first of the bytes that have arrived, or 0. -/
def shellSerialGetchar (serial : List Byte) : List Byte × Byte :=
  match serial with
  | [] => ([], 0)
  | c :: serial => (serial, c)

/-- `shell_run`: the line, and the bytes that have arrived on the serial port. -/
structure Shell where
  line : ShellLine
  serial : List Byte
  deriving DecidableEq

/-- One turn of the inner loop. `keyboard` is what `keyboard_getchar` returns, 0 for nothing. After
a carriage return one more byte is read. -/
def Shell.turn (s : Shell) (keyboard : Byte) : Shell × Option CString :=
  let r := if keyboard = 0 then shellSerialGetchar s.serial else (s.serial, keyboard)
  let next := s.line.input r.2
  let serial := if r.2 = Shell.carriageReturn then (shellSerialGetchar r.1).1 else r.1
  ({ line := next.1, serial := serial }, next.2)

end MinimalistOS
