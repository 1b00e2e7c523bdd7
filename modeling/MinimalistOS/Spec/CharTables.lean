import MinimalistOS.Spec.Typing

/-!
# Layouts of two tables

What a layout of two tables types, and how a text is typed on it. Whether a letter takes the shift
key depends on the caps lock.
-/

namespace MinimalistOS

open Infra

/-- The characters of the keys, without shift and with it. -/
structure CharTables where
  plain : List Byte
  shifted : List Byte

namespace CharTables

/-- The tables of `keyboard.c`. -/
def keyboard : CharTables := ⟨scancodeToAsciiUs, scancodeToAsciiUsShift⟩

/-- What the caps lock does to a character: the case of a letter changes. -/
def cased (caps : Bool) (c : Byte) : Byte :=
  if caps ∧ 0x61 ≤ c.toInt ∧ c.toInt ≤ 0x7A then c - 32
  else if caps ∧ 0x41 ≤ c.toInt ∧ c.toInt ≤ 0x5A then c + 32
  else c

/-- The table in use. -/
def table (tables : CharTables) (k : KeyFlags) : List Byte :=
  if k.shift then tables.shifted else tables.plain

/-- The character of a key. -/
def char (tables : CharTables) (k : KeyFlags) (scancode : Byte) : Byte :=
  cased k.caps ((tables.table k).getD scancode.toNat 0)

/-- What a scancode types. A key that changes the flags has changed them before. -/
def types (tables : CharTables) (k : KeyFlags) (scancode : Byte) : List Byte :=
  if scancode &&& 0x80 ≠ 0 then []
  else if tables.char (k.after scancode) scancode = 0 then []
  else [tables.char (k.after scancode) scancode]

/-- What a sequence of scancodes types. -/
def decode (tables : CharTables) (k : KeyFlags) : List Byte → List Byte
  | [] => []
  | scancode :: rest => tables.types k scancode ++ tables.decode (k.after scancode) rest

/-! ## Texts -/

/-- The key for a character. -/
def key (tables : CharTables) (k : KeyFlags) (c : Byte) : Option Byte :=
  ((List.range 128).map (BitVec.ofNat 8)).find? fun scancode => tables.char k scancode == c

/-- The scancodes of a character. -/
def stroke (tables : CharTables) (caps : Bool) (c : Byte) : List Byte :=
  match tables.key ⟨false, caps⟩ c, tables.key ⟨true, caps⟩ c with
  | some scancode, _ => press scancode
  | none, some scancode => [0x2A] ++ press scancode ++ [0xAA]
  | none, none => []

/-- The scancodes of a text. -/
def typing (tables : CharTables) (caps : Bool) (text : List Byte) : List Byte :=
  text.flatMap (tables.stroke caps)

end CharTables

end MinimalistOS
