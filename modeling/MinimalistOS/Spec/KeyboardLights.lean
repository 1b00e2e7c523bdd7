import MinimalistOS.Infra.Word

/-!
# The lights of a keyboard

What a keyboard does with the bytes it is sent: after the command `0xED` the next byte says which
lights are on, and any other byte leaves them as they are.
-/

namespace MinimalistOS

open Infra

/-- A keyboard: the flags of its lights, and whether it waits for new ones. -/
structure Lights where
  flags : Byte
  waiting : Bool
  deriving DecidableEq

namespace Lights

/-- Switched on, with the lights out. -/
def off : Lights := ⟨0, false⟩

def receive (k : Lights) (value : Byte) : Lights :=
  if k.waiting then ⟨value, false⟩
  else if value = 0xED then { k with waiting := true }
  else k

/-- After some bytes. -/
def after (k : Lights) (sent : List Byte) : Lights := sent.foldl receive k

theorem after_append (k : Lights) (l r : List Byte) : k.after (l ++ r) = (k.after l).after r :=
  List.foldl_append

end Lights

end MinimalistOS
