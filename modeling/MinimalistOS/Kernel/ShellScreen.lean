import MinimalistOS.Kernel.ProcessList
import MinimalistOS.Kernel.Shell
import MinimalistOS.Kernel.Timer

/-!
# `kernel/shell.c` on the screen

The whole of `shell_run`: the prompt, the echo of what is typed, and the commands, on top of the
loop in `Kernel/Shell.lean`. `serial_print` does nothing, so `shell_print` is `vga_print`.

The timer interrupt comes between two turns of the inner loop. What `kmain` does right before it
calls `shell_run` is the start.
-/

namespace MinimalistOS

open Infra

/-- The strings of `shell_state_t` that are used. -/
structure ShellState where
  cwd : CString
  hostname : CString
  username : CString

/-- What `shell_init` stores; the controller is drained before that. -/
def shellInit : ShellState where
  username := literal "Slime"
  hostname := literal ""
  cwd := literal "/"

def shellPrint (v : Vga) (str : CString) : Vga := vgaPrint v str

/-- What `shell_run` prints before each line. -/
def shellPrompt (st : ShellState) (v : Vga) : Vga :=
  let v := vgaSetColor v 10 0
  let v := shellPrint v st.username
  let v := if st.hostname.bytes ≠ [] then shellPrint (shellPrint v (literal "@")) st.hostname
    else v
  let v := vgaSetColor v 7 0
  let v := shellPrint v (literal ":")
  let v := vgaSetColor v 9 0
  let v := shellPrint v st.cwd
  let v := vgaSetColor v 7 0
  shellPrint v (literal "$ ")

/-! ## Commands -/

/-- What the command `help` prints. -/
def helpTexts : List CString :=
  [literal "Minimalist OS Shell Commands:\n",
    literal "  help      - Show this help message\n",
    literal "  clear     - Clear the screen\n",
    literal "  ps        - List running processes\n",
    literal "  whoami    - Show current user\n",
    literal "  ver       - Show OS version\n",
    literal "  uptime    - Show system uptime\n",
    literal "  testcmd   - Run test command\n"]

/-- The arrays on the stack of `shell_execute_command` and of what it calls. -/
structure ShellStack where
  list : ListLocals
  buf : Buffer

/-- `char buf[32]`. -/
def uptimeBufSize : Nat := 32

/-- `shell_execute_command`: the screen afterwards. -/
def shellExecuteCommand (st : ShellState) (timer : Timer) (stack : ShellStack)
    (command : CString) : Vga :=
  let v := timer.screen
  let is (name : String) : Prop := strcmp command.bytes (ascii name) = 0
  if command.bytes.length = 0 then v
  else if is "help" ∨ is "?" then helpTexts.foldl shellPrint v
  else if is "clear" then vgaClear v
  else if is "ps" then
    let v := shellPrint v (literal "Process List:\n")
    let v := shellPrint v (CString.ofBytes (processPrintList timer.processes stack.list).2)
    shellPrint v (literal "\n")
  else if is "whoami" then shellPrint (shellPrint v st.username) (literal "\n")
  else if is "ver" then shellPrint v (literal "Minimalist OS v1.0\n")
  else if is "uptime" then
    let v := shellPrint v (literal "Uptime: ")
    let buf := itoa (timerGetTicks timer) stack.buf 10
    let v := shellPrint v (CString.ofBytes (printed buf uptimeBufSize))
    shellPrint v (literal " ticks\n")
  else if is "testcmd" then shellPrint v (literal "Test command executed!\n")
  else
    let v := shellPrint v (literal "Unknown command: '")
    let v := shellPrint v command
    shellPrint v (literal "'\n")

/-! ## The loop -/

/-- `shell_run` while the timer goes on. -/
structure ShellSystem where
  shell : Shell
  state : ShellState
  timer : Timer

namespace ShellSystem

def screen (s : ShellSystem) : Vga := s.timer.screen

/-- The character a turn of the inner loop goes with: a key, or else a byte from the serial port. -/
def taken (s : ShellSystem) (keyboard : Byte) : Byte :=
  if keyboard = 0 then (shellSerialGetchar s.shell.serial).2 else keyboard

/-- The command of a line is executed, if there is one. -/
def execute (s : ShellSystem) (stack : ShellStack) (v : Vga) : Option CString → Vga
  | some command => shellExecuteCommand s.state { s.timer with screen := v } stack command
  | none => v

/-- What a turn that goes with the character `c` shows. `command` is what is executed if the
character ends a line. -/
def echo (s : ShellSystem) (stack : ShellStack) (command : Option CString) (c : Byte) : Vga :=
  if c = 0 then s.screen
  else if c = Shell.newline ∨ c = Shell.carriageReturn then
    shellPrompt s.state (s.execute stack (vgaPutchar s.screen Shell.newline) command)
  else if c = Shell.backspace ∨ c = Shell.delete then
    if 0 < s.shell.line.bufferPos then shellPrint s.screen (CString.ofBytes [Shell.backspace])
    else s.screen
  else if s.shell.line.bufferPos < shellBufferSize - 1 then
    shellPrint s.screen (CString.ofBytes [c])
  else s.screen

/-- One turn of the inner loop. -/
def turn (s : ShellSystem) (keyboard : Byte) (stack : ShellStack) : ShellSystem × Option CString :=
  let next := s.shell.turn keyboard
  let screen := s.echo stack next.2 (s.taken keyboard)
  ({ s with shell := next.1, timer := { s.timer with screen := screen } }, next.2)

end ShellSystem

inductive ShellEvent where
  /-- a turn of the inner loop, with what `keyboard_getchar` returns and what is on the stack -/
  | turn (keyboard : Byte) (stack : ShellStack)
  /-- bytes arrive on the serial port -/
  | arrive (bytes : List Byte)
  | timer (cpu : Saved)

def ShellSystem.step (s : ShellSystem) : ShellEvent → ShellSystem × Option CString
  | .turn keyboard stack => s.turn keyboard stack
  | .arrive bytes => ({ s with shell := { s.shell with serial := s.shell.serial ++ bytes } }, none)
  | .timer cpu => ({ s with timer := (timerInterruptHandler s.timer cpu).1 }, none)

/-! ## The start -/

/-- The last lines of `kmain` before `shell_run`. -/
def kmainWelcome (v : Vga) : Vga :=
  let v := vgaClear v
  let v := vgaSetColor v 15 0
  let v := vgaPrint v (literal "Minimalist OS v1.0 - Welcome\n")
  vgaPrint v (literal "----------------------------\n")

/-- Where `shell_run` waits for the first time, over whatever the screen showed before. -/
def ShellSystem.start (base : Word) (v : Vga) : ShellSystem where
  shell := ⟨.empty, []⟩
  state := shellInit
  timer :=
    { timerTicks := 0, processes := processInit (ProcessTable.boot base)
      screen := shellPrompt shellInit (kmainWelcome v) }

end MinimalistOS
