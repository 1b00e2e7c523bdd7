import MinimalistOS.Kernel.Process
import MinimalistOS.Kernel.Vga

/-!
# `drivers/timer.c`: the timer interrupt

A hundred interrupts a second, each of which counts and calls the scheduler. Once a second a digit is
stored in the last row of the screen, past the functions of `vga.c`. What is programmed into the
timer is left out.
-/

namespace MinimalistOS

open Infra

/-- `timer_ticks`, and what the handler works on. -/
structure Timer where
  timerTicks : Word
  processes : ProcessTable
  screen : Vga

/-- The index `80*24 + 70` of video memory. -/
def timerCell : Int := 80 * 24 + 70

/-- `0x1F00 + ((timer_ticks / 100) % 10) + '0'`. -/
def timerDigit (ticks : Word) : Cell := (0x1F00 + ticks / 100 % 10 + 0x30).truncate 16

/-- `timer_interrupt_handler`; the registers that a context switch saves come with the
interrupt. -/
def timerInterruptHandler (s : Timer) (cpu : Saved) : Timer × Option Dispatch :=
  let ticks := s.timerTicks + 1
  let next := schedule s.processes cpu
  let screen :=
    if ticks % 100 = 0 then s.screen.setCell timerCell (timerDigit ticks) else s.screen
  ({ timerTicks := ticks, processes := next.1, screen := screen }, next.2)

def timerGetTicks (s : Timer) : Word := s.timerTicks

/-! ## `timer_wait` -/

/-- Where `timer_wait` stands: before the test of its loop, after it and before `hlt`, in `hlt`, or
behind the loop. -/
inductive WaitPhase where
  | testing
  | halting
  | halted
  | returned
  deriving DecidableEq

/-- `timer_ticks`, and `timer_wait(ticks)` on its way. -/
structure TimerWait where
  timerTicks : Word
  start : Word
  ticks : Word
  phase : WaitPhase
  deriving DecidableEq

/-- The call, up to the first test. -/
def timerWait (timerTicks ticks : Word) : TimerWait := ⟨timerTicks, timerTicks, ticks, .testing⟩

/-- An interrupt, of the timer or another one, or the next step of `timer_wait`. -/
inductive WaitAction where
  | interrupt (isTimer : Bool)
  | program
  deriving DecidableEq

/-- `hlt` ends with an interrupt; the interrupts count whatever the program does. -/
def TimerWait.step (s : TimerWait) : WaitAction → TimerWait × Unit
  | .interrupt isTimer =>
    ({ s with
        timerTicks := if isTimer then s.timerTicks + 1 else s.timerTicks
        phase := if s.phase = .halted then .testing else s.phase }, ())
  | .program =>
    match s.phase with
    | .testing =>
      ({ s with phase := if s.timerTicks - s.start < s.ticks then .halting else .returned }, ())
    | .halting => ({ s with phase := .halted }, ())
    | .halted => (s, ())
    | .returned => (s, ())

end MinimalistOS
