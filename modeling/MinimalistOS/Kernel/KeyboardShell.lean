import MinimalistOS.Kernel.Keyboard
import MinimalistOS.Kernel.Shell

/-!
# `kernel/shell.c` on `drivers/keyboard.c`

The inner loop of `shell_run` calls `keyboard_getchar` over and over while the interrupts go on. A
turn of the loop with the character that a call has returned touches nothing the handler uses, so it
goes with the last step of the call. A character of 0 lets the loop try the serial port.
-/

namespace MinimalistOS

open Infra

structure KeyboardShell where
  console : Console
  shell : Shell

namespace KeyboardShell

/-- After `keyboard_init`, at the start of a line, with nothing on the serial port. -/
def init (s : Keyboard) : KeyboardShell where
  console := ⟨keyboardInit s, .idle⟩
  shell := ⟨.empty, []⟩

/-- An interrupt, or the next step of the loop. The answer is the string that is passed to
`shell_execute_command`. -/
def step (s : KeyboardShell) (action : ConsoleAction) : KeyboardShell × Option CString :=
  let next := s.console.step action
  match next.2 with
  | .returned c =>
    let turn := s.shell.turn c
    ({ console := next.1, shell := turn.1 }, turn.2)
  | _ => ({ s with console := next.1 }, none)

end KeyboardShell

end MinimalistOS
