import MinimalistOS.Kernel.String

/-!
# `kernel/string.c`: strings in memory

The loops that find the end of a string in memory and copy it there. They stop at a terminator and
at nothing else: `none` is a loop that has not stopped after the turns it was given.
-/

namespace MinimalistOS

open Infra

/-- `strcpy(dest, src)`: `while ((*d++ = *src++) != '\0')`. -/
def strcpy (m : Mem) (d src : Word) : Nat → Option Mem
  | 0 => none
  | n + 1 =>
    let c := m src
    let m := m.set d c
    if c ≠ 0 then strcpy m (d + 1) (src + 1) n else some m

/-- The loop `while (*d) d++` of `strcat`. -/
def stringEnd (m : Mem) (d : Word) : Nat → Option Word
  | 0 => none
  | n + 1 => if m d ≠ 0 then stringEnd m (d + 1) n else some d

/-- `strcat(dest, src)`. -/
def strcat (m : Mem) (dest src : Word) (n : Nat) : Option Mem :=
  match stringEnd m dest n with
  | none => none
  | some d => strcpy m d src n

/-- The loop of `strlen`. -/
def strlen.loop (m : Mem) (str len : Word) : Nat → Option Word
  | 0 => none
  | n + 1 => if m (str + len) ≠ 0 then strlen.loop m str (len + 1) n else some len

/-- `strlen(str)`. -/
def strlen (m : Mem) (str : Word) (n : Nat) : Option Word := strlen.loop m str 0 n

end MinimalistOS
