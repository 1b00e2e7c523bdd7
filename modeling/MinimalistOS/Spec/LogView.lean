import MinimalistOS.Kernel.LogConsole
import MinimalistOS.Properties.Log
import MinimalistOS.Spec.Terminal

/-!
# The log as rows

What somebody reads in the log: rows of coloured characters, of which the screen shows the last. A
message at or above the threshold adds its lines, the first with the tag of its level; any other
one adds nothing. A number that is no level has a tag of its own, but no colour.
-/

namespace MinimalistOS

open Infra

/-- The log, without a screen. -/
structure LogView where
  threshold : Word
  color : Byte
  rows : List (List Cell)
  deriving DecidableEq

/-- The colour of a level. -/
def levelColor (level : Word) : Option Byte :=
  if level = 0 then some 0x07
  else if level = 1 then some 0x02
  else if level = 2 then some 0x06
  else if level = 3 then some 0x0C
  else if level = 4 then some 0x4F
  else none

/-- What a message of a level begins with. -/
def levelTag (level : Word) : List Byte :=
  if level = 0 then ascii "[DEBUG] "
  else if level = 1 then ascii "[INFO]  "
  else if level = 2 then ascii "[WARN]  "
  else if level = 3 then ascii "[ERROR] "
  else if level = 4 then ascii "[CRIT]  "
  else ascii "[LOG]   "

/-- The text of a message, cut where the buffer ends. -/
def messageText (format : CString) (args : List FormatArg) : List Byte :=
  (vsnprintf.formatText format.bytes args).take (logBufferBytes - 1)

/-- The lines of a message. -/
def messageLines (level : Word) (format : CString) (args : List FormatArg) : List (List Byte) :=
  textLines (levelTag level ++ messageText format args)

/-- The message of a request, if it is one. -/
def LogRequest.message : LogRequest → Option (Word × CString × List FormatArg)
  | .setLevel _ => none
  | .printf level format args => some (level, format, args)
  | .debug format args => some (0, format, args)
  | .info format args => some (1, format, args)
  | .warn format args => some (2, format, args)
  | .error format args => some (3, format, args)
  | .critical format args => some (4, format, args)

namespace LogView

/-- A message. -/
def add (view : LogView) (level : Word) (format : CString) (args : List FormatArg) : LogView :=
  if level < view.threshold then view
  else
    let color := (levelColor level).getD view.color
    { view with
      color
      rows := view.rows ++ (messageLines level format args).map (colored color) }

def step (view : LogView) : LogRequest → LogView
  | .setLevel level => { view with threshold := level }
  | .printf level format args => view.add level format args
  | .debug format args => view.add 0 format args
  | .info format args => view.add 1 format args
  | .warn format args => view.add 2 format args
  | .error format args => view.add 3 format args
  | .critical format args => view.add 4 format args

/-- The log after `log_init`. -/
def start (threshold : Word) : LogView :=
  add ⟨threshold, 0x07, []⟩ 1 (literal "Kernel logging system initialized") []

end LogView

end MinimalistOS
