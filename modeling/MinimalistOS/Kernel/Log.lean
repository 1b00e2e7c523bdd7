import MinimalistOS.Kernel.Itoa
import MinimalistOS.Kernel.String

/-!
# `kernel/log.c`: formatting

`vsnprintf` with the conversions `%d`, `%u`, `%x`, `%X`, `%s`, `%c` and `%%`; after any other
character the `%` and the character are copied. The format is read once, from left to right, with
two indices: `p` into it and `i` into the buffer, which stays below `size - 1`.

A `va_list` is the list of the arguments not yet taken. To take one of the wrong type, or one too
many, is undefined in C and `none` here. What a local array `num_str` holds before `itoa` writes to
it is not known, and a parameter.

Beside what the code computes a run notes every access to a local array, with the size of the
array, and every argument it takes, with the rest of the format from the specifier on and the
index in the buffer.
-/

namespace MinimalistOS

open Infra

/-- A variadic argument: an `int` or `unsigned int`, or a pointer to a string, which may be null. -/
inductive FormatArg where
  | int (num : Word)
  | str (str : Option CString)
  deriving DecidableEq

/-- `va_arg(args, int)` and `va_arg(args, unsigned int)`. -/
def vaInt : List FormatArg → Option (Word × List FormatArg)
  | .int num :: args => some (num, args)
  | _ => none

/-- `va_arg(args, const char*)`. -/
def vaStr : List FormatArg → Option (Option CString × List FormatArg)
  | .str str :: args => some (str, args)
  | _ => none

/-- An argument taken: the format from the specifier on, the argument, and `i`. -/
structure Taken where
  place : List Byte
  arg : FormatArg
  i : Nat
  deriving DecidableEq

/-- The buffer and what is noted of the run. -/
structure FormatState where
  out : Sink
  /-- The size of a local array and an index into it. -/
  locals : List (Nat × Nat)
  taken : List Taken

namespace FormatState

/-- `buf[i++] = c`. -/
def put (st : FormatState) (c : Byte) : FormatState := { st with out := st.out.put c }

/-- `buf[i] = '\0'`. -/
def terminate (st : FormatState) : FormatState :=
  { st with out := ⟨st.out.buf.set st.out.i 0, st.out.i⟩ }

@[simp] theorem terminate_i (st : FormatState) : st.terminate.out.i = st.out.i := rfl

/-- An argument is taken. -/
def take (st : FormatState) (place : List Byte) (arg : FormatArg) : FormatState :=
  { st with taken := st.taken ++ [⟨place, arg, st.out.i⟩] }

/-- Accesses to a local array of `array` bytes. -/
def touch (st : FormatState) (array : Nat) (indices : List Nat) : FormatState :=
  { st with locals := st.locals ++ indices.map fun j => (array, j) }

end FormatState

namespace vsnprintf

/-- `for (char* s = num_str; *s && i < size - 1; s++) buf[i++] = f(*s);` with a `num_str` of `array`
bytes. -/
def copyNumber (size array : Nat) (f : Byte → Byte) (num_str : Buffer) (s : Nat)
    (st : FormatState) : FormatState :=
  if num_str.bytes s ≠ 0 ∧ st.out.i < size - 1 then
    copyNumber size array f num_str (s + 1) ((st.touch array [s]).put (f (num_str.bytes s)))
  else st.touch array [s]
termination_by size - 1 - st.out.i
decreasing_by
  simp only [FormatState.touch, FormatState.put, Sink.put_i]
  omega

/-- `char num_str[array]; itoa(num, num_str, base);` and the loop that copies it. -/
def number (size array : Nat) (f : Byte → Byte) (stack : Nat → Byte) (num base : Word)
    (st : FormatState) : FormatState :=
  let num_str := itoa num (.fresh stack) base
  copyNumber size array f num_str 0 (st.touch array num_str.written)

/-- `while (*str && i < size - 1) buf[i++] = *str++;` -/
def copyString (size : Nat) : List Byte → FormatState → FormatState
  | [], st => st
  | c :: str, st => if st.out.i < size - 1 then copyString size str (st.put c) else st

/-- `(*s >= 'a' && *s <= 'f') ? (*s - 'a' + 'A') : *s`. -/
def toUpper (c : Byte) : Byte := if 0x61 ≤ c ∧ c ≤ 0x66 then c - 0x61 + 0x41 else c

/-- `"(null)"`. -/
def nullText : CString := ⟨[0x28, 0x6E, 0x75, 0x6C, 0x6C, 0x29], by decide⟩

/-- The `switch` on the specifier `c`, with `place` the format from it on. -/
def convert (size : Nat) (stack : Nat → Byte) (place : List Byte) (c : Byte)
    (args : List FormatArg) (st : FormatState) : Option (List FormatArg × FormatState) :=
  if c = 0x64 then do -- 'd'
    let (num, args) ← vaInt args
    some (args, number size 12 id stack num 10 (st.take place (.int num)))
  else if c = 0x75 then do -- 'u'
    let (num, args) ← vaInt args
    some (args, number size 12 id stack num 10 (st.take place (.int num)))
  else if c = 0x78 then do -- 'x'
    let (num, args) ← vaInt args
    some (args, number size 9 id stack num 16 (st.take place (.int num)))
  else if c = 0x58 then do -- 'X'
    let (num, args) ← vaInt args
    some (args, number size 9 toUpper stack num 16 (st.take place (.int num)))
  else if c = 0x73 then do -- 's'
    let (str, args) ← vaStr args
    some (args, copyString size (str.getD nullText).bytes (st.take place (.str str)))
  else if c = 0x63 then do -- 'c'
    let (num, args) ← vaInt args
    some (args, (st.take place (.int num)).put (num.setWidth 8))
  else if c = 0x25 then some (args, st.put 0x25) -- '%'
  else -- unknown, copied as it is
    let st := st.put 0x25
    some (args, if st.out.i < size - 1 then st.put c else st)

/-- The loop `while (*p && i < size - 1)`; `stack` is what a local array holds at each place. -/
def loop (size : Nat) (stack : List Byte → Nat → Byte) :
    List Byte → List FormatArg → FormatState → Option FormatState
  | [], _, st => some st
  | [c], _, st =>
    if st.out.i < size - 1 then
      if c ≠ 0x25 then some (st.put c)
      else some st -- `case '\0'`: the format ends in a `%`
    else some st
  | c :: spec :: p, args, st =>
    if st.out.i < size - 1 then
      if c ≠ 0x25 then loop size stack (spec :: p) args (st.put c)
      else (convert size (stack (spec :: p)) (spec :: p) spec args st).bind fun (args, st) =>
        loop size stack p args st
    else some st

end vsnprintf

/-- `vsnprintf(buf, size, format, args)`: the result, and the buffer if there is one. -/
def vsnprintf (stack : List Byte → Nat → Byte) (buf : Option Buffer) (size : Nat)
    (format : CString) (args : List FormatArg) : Option (Word × Option FormatState) :=
  match buf with
  | none => some (0, none)
  | some buf =>
    let st : FormatState := ⟨⟨buf, 0⟩, [], []⟩
    if size = 0 then some (0, some st)
    else (vsnprintf.loop size stack format.bytes args st).map fun st =>
      (BitVec.ofNat 32 st.out.i, some st.terminate)

end MinimalistOS
