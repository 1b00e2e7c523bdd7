import MinimalistOS.Infra.Ring
import MinimalistOS.Infra.Run
import MinimalistOS.Infra.Word

/-!
# `drivers/keyboard.c`: the keyboard buffer

The interrupt handler puts characters into a circular array of 256 bytes, `keyboard_getchar` takes
them out. There is no count: the buffer is empty when the two indices are the same, so one entry
is always kept free.

The handler runs with interrupts off and is one step. `keyboard_getchar` is three, and an
interrupt can come between any two of them; `Console` is the driver together with where its
reader stands.
-/

namespace MinimalistOS

open Infra

/-- `KB_BUFFER_SIZE`. -/
def kbBufferSize : Nat := 256

theorem kbBufferSize_pos : 0 < kbBufferSize := by decide

/-- The static data of `keyboard.c`. The two indices are only ever remainders. -/
structure Keyboard where
  shiftPressed : Bool
  ctrlPressed : Bool
  altPressed : Bool
  capsLock : Bool
  numLock : Bool
  scrollLock : Bool
  kbBuffer : Vector Byte 256
  kbWritePtr : Nat
  kbReadPtr : Nat
  write_lt : kbWritePtr < kbBufferSize
  read_lt : kbReadPtr < kbBufferSize

/-- `keyboard_init`, but for the commands to the controller. -/
def keyboardInit (s : Keyboard) : Keyboard :=
  { s with
    kbWritePtr := 0
    kbReadPtr := 0
    write_lt := kbBufferSize_pos
    read_lt := kbBufferSize_pos }

/-! ## The handler -/

/-- `scancode_to_ascii_us`. -/
def scancodeToAsciiUs : List Byte :=
  [0x00, 0x00, 0x26, 0x65, 0x22, 0x27, 0x28, 0x2D, 0x65, 0x5F, 0x63, 0x61, 0x29, 0x3D, 0x08,
    0x09, 0x61, 0x7A, 0x65, 0x72, 0x74, 0x79, 0x75, 0x69, 0x6F, 0x70, 0x5E, 0x24, 0x0A,
    0x00, 0x71, 0x73, 0x64, 0x66, 0x67, 0x68, 0x6A, 0x6B, 0x6C, 0x6D, 0x75, 0x2A,
    0x00, 0x3C, 0x77, 0x78, 0x63, 0x76, 0x62, 0x6E, 0x2C, 0x3B, 0x3A, 0x21, 0x00,
    0x2A, 0x00, 0x20]

/-- `scancode_to_ascii_us_shift`. The constant `'..'` of two characters is stored as its last. -/
def scancodeToAsciiUsShift : List Byte :=
  [0x00, 0x00, 0x31, 0x32, 0x33, 0x34, 0x35, 0x36, 0x37, 0x38, 0x39, 0x30, 0x6F, 0x2B, 0x08,
    0x09, 0x41, 0x5A, 0x45, 0x52, 0x54, 0x59, 0x55, 0x49, 0x4F, 0x50, 0x2E, 0x24, 0x0A,
    0x00, 0x51, 0x53, 0x44, 0x46, 0x47, 0x48, 0x4A, 0x4B, 0x4C, 0x4D, 0x25, 0x75,
    0x00, 0x3E, 0x57, 0x58, 0x43, 0x56, 0x42, 0x4E, 0x3F, 0x2E, 0x2F, 0x21, 0x00,
    0x2A, 0x00, 0x20]

/-- What the handler did with a scancode: a character for the buffer, which had room for it or
not, or something else. -/
inductive Handled where
  | stored (c : Byte)
  | dropped (c : Byte)
  | nothing
  deriving DecidableEq, Repr

/-- "Add to buffer": the two places of `keyboard_handler` that store a character. -/
def addToBuffer (s : Keyboard) (c : Byte) : Keyboard × Handled :=
  if (s.kbWritePtr + 1) % kbBufferSize ≠ s.kbReadPtr then
    ({ s with
        kbBuffer := s.kbBuffer.setIfInBounds s.kbWritePtr c
        kbWritePtr := (s.kbWritePtr + 1) % kbBufferSize
        write_lt := Nat.mod_lt _ kbBufferSize_pos }, .stored c)
  else (s, .dropped c)

/-- The `switch` over the modifier keys. -/
def modifierKey (s : Keyboard) (scancode : Byte) : Option Keyboard :=
  if scancode = 0x2A ∨ scancode = 0x36 then some { s with shiftPressed := true }
  else if scancode = 0xAA ∨ scancode = 0xB6 then some { s with shiftPressed := false }
  else if scancode = 0x1D then some { s with ctrlPressed := true }
  else if scancode = 0x9D then some { s with ctrlPressed := false }
  else if scancode = 0x38 then some { s with altPressed := true }
  else if scancode = 0xB8 then some { s with altPressed := false }
  else if scancode = 0x3A then some { s with capsLock := !s.capsLock }
  else if scancode = 0x45 then some { s with numLock := !s.numLock }
  else if scancode = 0x46 then some { s with scrollLock := !s.scrollLock }
  else none

/-- The character of a scancode, with the caps lock applied. -/
def baseChar (s : Keyboard) (scancode : Byte) : Byte :=
  let c := (if s.shiftPressed then scancodeToAsciiUsShift else scancodeToAsciiUs).getD
    scancode.toNat 0
  if s.capsLock ∧ 0x61 ≤ c ∧ c ≤ 0x7A then c - 32
  else if s.capsLock ∧ 0x41 ≤ c ∧ c ≤ 0x5A then c + 32
  else c

/-- `keyboard_handler` for the scancode read from the data port. -/
def keyboardHandler (s : Keyboard) (scancode : Byte) : Keyboard × Handled :=
  -- the backspace key comes first
  if scancode = 0x0E then addToBuffer s 0x08
  else
    match modifierKey s scancode with
    | some s' => (s', .nothing)
    | none =>
      -- releases have the high bit set
      if scancode &&& 0x80 ≠ 0 then (s, .nothing)
      else if scancode.toNat < scancodeToAsciiUs.length then
        if baseChar s scancode ≠ 0 then addToBuffer s (baseChar s scancode) else (s, .nothing)
      else (s, .nothing)

/-! ## The reader -/

/-- `kb_read_ptr = (kb_read_ptr + 1) % KB_BUFFER_SIZE`. -/
def advanceRead (s : Keyboard) : Keyboard :=
  { s with
    kbReadPtr := (s.kbReadPtr + 1) % kbBufferSize
    read_lt := Nat.mod_lt _ kbBufferSize_pos }

/-- `keyboard_getchar`, when nothing comes in between. -/
def keyboardGetchar (s : Keyboard) : Keyboard × Byte :=
  if s.kbReadPtr = s.kbWritePtr then (s, 0)
  else (advanceRead s, slot s.kbBuffer s.kbReadPtr)

/-- Where the reader stands: before a call, after the test for an empty buffer, or with a
character in hand. -/
inductive Reader where
  | idle
  | tested
  | fetched (c : Byte)
  deriving DecidableEq, Repr

/-- The driver and its reader. -/
structure Console where
  keyboard : Keyboard
  reader : Reader

/-- An interrupt with its scancode, or the next step of `keyboard_getchar`. -/
inductive ConsoleAction where
  | interrupt (scancode : Byte)
  | getchar
  deriving DecidableEq, Repr

/-- What can be seen of a step: what the handler did, or a character that `keyboard_getchar`
returned. -/
inductive ConsoleEvent where
  | handled (handled : Handled)
  | returned (c : Byte)
  | silent
  deriving DecidableEq, Repr

def Console.step (s : Console) : ConsoleAction → Console × ConsoleEvent
  | .interrupt scancode =>
    ({ s with keyboard := (keyboardHandler s.keyboard scancode).1 },
      .handled (keyboardHandler s.keyboard scancode).2)
  | .getchar =>
    match s.reader with
    | .idle =>
      if s.keyboard.kbReadPtr = s.keyboard.kbWritePtr then (s, .returned 0)
      else ({ s with reader := .tested }, .silent)
    | .tested =>
      ({ s with reader := .fetched (slot s.keyboard.kbBuffer s.keyboard.kbReadPtr) }, .silent)
    | .fetched c => ({ keyboard := advanceRead s.keyboard, reader := .idle }, .returned c)

end MinimalistOS
