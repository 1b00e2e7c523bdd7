import MinimalistOS.Kernel.Log
import MinimalistOS.Kernel.ProcessList
import MinimalistOS.Kernel.Vga

/-!
# `kernel/log.c`: the log on the screen

A message below the current level is dropped; any other one is printed behind a prefix in the colour
of its level, as a line of its own. A `log_level_t` is an unsigned integer, and `log_printf` takes
whatever it gets.
-/

namespace MinimalistOS

open Infra

/-- The static data of `log.c`, and the screen. -/
structure LogConsole where
  currentLogLevel : Word
  screen : Vga

/-- `print_log_prefix`; the colours are those of `LOG_COLORS`. -/
def printLogPrefix (level : Word) (v : Vga) : Vga :=
  if level = 0 then vgaPrint (vgaSetColor v 7 0) (literal "[DEBUG] ")
  else if level = 1 then vgaPrint (vgaSetColor v 2 0) (literal "[INFO]  ")
  else if level = 2 then vgaPrint (vgaSetColor v 6 0) (literal "[WARN]  ")
  else if level = 3 then vgaPrint (vgaSetColor v 12 0) (literal "[ERROR] ")
  else if level = 4 then vgaPrint (vgaSetColor v 15 4) (literal "[CRIT]  ")
  else vgaPrint v (literal "[LOG]   ")

/-- What the local arrays of `log_vprintf` and `vsnprintf` hold before. -/
structure LogStack where
  buffer : Nat → Byte
  numbers : List Byte → Nat → Byte

/-- `char buffer[256]`. -/
def logBufferBytes : Nat := 256

/-- `log_vprintf`; `none` if the arguments do not fit the format. -/
def logVprintf (stack : LogStack) (s : LogConsole) (level : Word) (format : CString)
    (args : List FormatArg) : Option LogConsole :=
  if level < s.currentLogLevel then some s
  else do
    let v := printLogPrefix level s.screen
    let (_, st) ← vsnprintf stack.numbers (some (.fresh stack.buffer)) logBufferBytes format args
    let st ← st
    let v := vgaPrint v (CString.ofBytes (printed st.out.buf logBufferBytes))
    some { s with screen := vgaPrint v (literal "\n") }

def logSetLevel (s : LogConsole) (level : Word) : LogConsole := { s with currentLogLevel := level }

def logPrintf (stack : LogStack) (s : LogConsole) (level : Word) (format : CString)
    (args : List FormatArg) : Option LogConsole := logVprintf stack s level format args

def logDebug (stack : LogStack) (s : LogConsole) (format : CString) (args : List FormatArg) :
    Option LogConsole := logVprintf stack s 0 format args

def logInfo (stack : LogStack) (s : LogConsole) (format : CString) (args : List FormatArg) :
    Option LogConsole := logVprintf stack s 1 format args

def logWarn (stack : LogStack) (s : LogConsole) (format : CString) (args : List FormatArg) :
    Option LogConsole := logVprintf stack s 2 format args

def logError (stack : LogStack) (s : LogConsole) (format : CString) (args : List FormatArg) :
    Option LogConsole := logVprintf stack s 3 format args

def logCritical (stack : LogStack) (s : LogConsole) (format : CString) (args : List FormatArg) :
    Option LogConsole := logVprintf stack s 4 format args

/-- `log_init`: the screen is cleared twice. -/
def logInit (stack : LogStack) (s : LogConsole) : Option LogConsole :=
  logInfo stack { s with screen := vgaClear (vgaInit s.screen) }
    (literal "Kernel logging system initialized") []

/-! ## Calls -/

inductive LogRequest where
  | setLevel (level : Word)
  | printf (level : Word) (format : CString) (args : List FormatArg)
  | debug (format : CString) (args : List FormatArg)
  | info (format : CString) (args : List FormatArg)
  | warn (format : CString) (args : List FormatArg)
  | error (format : CString) (args : List FormatArg)
  | critical (format : CString) (args : List FormatArg)
  deriving DecidableEq

/-- A call, with what is on the stack. -/
def LogConsole.step (s : LogConsole) : LogStack × LogRequest → Option LogConsole
  | (_, .setLevel level) => some (logSetLevel s level)
  | (stack, .printf level format args) => logPrintf stack s level format args
  | (stack, .debug format args) => logDebug stack s format args
  | (stack, .info format args) => logInfo stack s format args
  | (stack, .warn format args) => logWarn stack s format args
  | (stack, .error format args) => logError stack s format args
  | (stack, .critical format args) => logCritical stack s format args

end MinimalistOS
