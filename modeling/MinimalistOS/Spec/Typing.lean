import MinimalistOS.Kernel.Keyboard

/-!
# Typing

What comes from a keyboard on which a text is typed: the keys of the two tables of `keyboard.c`, one
after the other, each pressed and released, with the left shift key held where it takes one.
-/

namespace MinimalistOS

open Infra

/-- The scancodes of `keyboard_handler`'s `switch`. -/
def modifierKeys : List Byte :=
  [0x2A, 0x36, 0xAA, 0xB6, 0x1D, 0x9D, 0x38, 0xB8, 0x3A, 0x45, 0x46]

/-- The flags that decide what a key types. -/
structure KeyFlags where
  shift : Bool
  caps : Bool
  deriving DecidableEq

namespace KeyFlags

/-- No shift key held, and no caps lock. -/
def off : KeyFlags := ⟨false, false⟩

/-- The table in use. -/
def table (k : KeyFlags) : List Byte :=
  if k.shift then scancodeToAsciiUsShift else scancodeToAsciiUs

/-- The character in the table, with the case of letters changed by the caps lock. -/
def char (k : KeyFlags) (scancode : Byte) : Byte :=
  let c := k.table.getD scancode.toNat 0
  if k.caps ∧ 0x61 ≤ c ∧ c ≤ 0x7A then c - 32
  else if k.caps ∧ 0x41 ≤ c ∧ c ≤ 0x5A then c + 32
  else c

/-- What a scancode types. -/
def types (k : KeyFlags) (scancode : Byte) : List Byte :=
  if scancode ∈ modifierKeys ∨ k.char scancode = 0 then [] else [k.char scancode]

/-- The flags after a scancode. -/
def after (k : KeyFlags) (scancode : Byte) : KeyFlags where
  shift := if scancode = 0x2A ∨ scancode = 0x36 then true
    else if scancode = 0xAA ∨ scancode = 0xB6 then false else k.shift
  caps := if scancode = 0x3A then !k.caps else k.caps

/-- What a sequence of scancodes types. -/
def decode (k : KeyFlags) : List Byte → List Byte
  | [] => []
  | scancode :: rest => k.types scancode ++ (k.after scancode).decode rest

end KeyFlags

/-! ## Texts -/

/-- The first key that has a character. -/
def keyOf (table : List Byte) (c : Byte) : Byte := BitVec.ofNat 8 (table.idxOf c)

/-- The character has a key, with or without shift. -/
def Typeable (c : Byte) : Prop := c ≠ 0 ∧ (c ∈ scancodeToAsciiUs ∨ c ∈ scancodeToAsciiUsShift)

instance (c : Byte) : Decidable (Typeable c) := inferInstanceAs (Decidable (_ ∧ _))

/-- A key is pressed and released. -/
def press (scancode : Byte) : List Byte := [scancode, scancode ||| 0x80]

/-- The scancodes of one character. -/
def stroke (c : Byte) : List Byte :=
  if c ∈ scancodeToAsciiUs then press (keyOf scancodeToAsciiUs c)
  else [0x2A] ++ press (keyOf scancodeToAsciiUsShift c) ++ [0xAA]

/-- The scancodes of a text. -/
def typing (text : List Byte) : List Byte := text.flatMap stroke

/-- Lines, each ended with the enter key. -/
def linesText (lines : List (List Byte)) : List Byte := lines.flatMap fun line => line ++ [0x0A]

end MinimalistOS
