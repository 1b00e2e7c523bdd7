import MinimalistOS.Infra.Run
import MinimalistOS.Kernel.String

/-!
# `drivers/keyboard_intl.c`: the keyboard with three layouts

This driver polls. A call of `keyboard_intl_getchar` waits until a scancode has arrived and reads it;
after the prefix `0xE0` it reads the data port once more without waiting. What it sends to the
keyboard goes through the same port: the lights are set by a command byte and a byte of flags.
-/

namespace MinimalistOS

open Infra

/-! ## Layouts -/

/-- `us_qwerty`. A table ends with its last constant; the entries up to 127 are zero. -/
def usQwerty : List Byte :=
  [0x00, 0x00, 0x31, 0x32, 0x33, 0x34, 0x35, 0x36, 0x37, 0x38, 0x39, 0x30, 0x2D, 0x3D, 0x08,
    0x09, 0x71, 0x77, 0x65, 0x72, 0x74, 0x79, 0x75, 0x69, 0x6F, 0x70, 0x5B, 0x5D, 0x0A,
    0x00, 0x61, 0x73, 0x64, 0x66, 0x67, 0x68, 0x6A, 0x6B, 0x6C, 0x3B, 0x27, 0x60,
    0x00, 0x5C, 0x7A, 0x78, 0x63, 0x76, 0x62, 0x6E, 0x6D, 0x2C, 0x2E, 0x2F, 0x00,
    0x2A, 0x00, 0x20, 0x00, 0x00, 0x00, 0x00, 0x00, 0x00, 0x00, 0x00, 0x00, 0x00, 0x00, 0x00,
    0x00, 0x2D, 0x00, 0x00, 0x00, 0x2B,
    0x00, 0x00, 0x00, 0x00, 0x00, 0x00, 0x00, 0x00, 0x00, 0x00, 0x00]

/-- `us_qwerty_shift`. -/
def usQwertyShift : List Byte :=
  [0x00, 0x00, 0x21, 0x40, 0x23, 0x24, 0x25, 0x5E, 0x26, 0x2A, 0x28, 0x29, 0x5F, 0x2B, 0x08,
    0x09, 0x51, 0x57, 0x45, 0x52, 0x54, 0x59, 0x55, 0x49, 0x4F, 0x50, 0x7B, 0x7D, 0x0A,
    0x00, 0x41, 0x53, 0x44, 0x46, 0x47, 0x48, 0x4A, 0x4B, 0x4C, 0x3A, 0x22, 0x7E,
    0x00, 0x7C, 0x5A, 0x58, 0x43, 0x56, 0x42, 0x4E, 0x4D, 0x3C, 0x3E, 0x3F, 0x00,
    0x2A, 0x00, 0x20, 0x00, 0x00, 0x00, 0x00, 0x00, 0x00, 0x00, 0x00, 0x00, 0x00, 0x00, 0x00,
    0x00, 0x2D, 0x00, 0x00, 0x00, 0x2B,
    0x00, 0x00, 0x00, 0x00, 0x00, 0x00, 0x00, 0x00, 0x00, 0x00, 0x00]

/-- `de_qwertz`. -/
def deQwertz : List Byte :=
  [0x00, 0x00, 0x31, 0x32, 0x33, 0x34, 0x35, 0x36, 0x37, 0x38, 0x39, 0x30, 0x27, 0x08,
    0x09, 0x71, 0x77, 0x65, 0x72, 0x74, 0x7A, 0x75, 0x69, 0x6F, 0x70, 0x27, 0x23, 0x0A,
    0x00, 0x61, 0x73, 0x64, 0x66, 0x67, 0x68, 0x6A, 0x6B, 0x6C, 0x3B, 0x5E, 0x60,
    0x00, 0x3C, 0x79, 0x78, 0x63, 0x76, 0x62, 0x6E, 0x6D, 0x2C, 0x2E, 0x2D, 0x00,
    0x2A, 0x00, 0x20, 0x00, 0x00, 0x00, 0x00, 0x00, 0x00, 0x00, 0x00, 0x00, 0x00, 0x00, 0x00,
    0x00, 0x2D, 0x00, 0x00, 0x00, 0x2B,
    0x00, 0x00, 0x00, 0x00, 0x00, 0x00, 0x00, 0x00, 0x00, 0x00, 0x00]

/-- `de_qwertz_shift`. -/
def deQwertzShift : List Byte :=
  [0x00, 0x00, 0x21, 0x22, 0x24, 0x25, 0x26, 0x2F, 0x28, 0x29, 0x3D, 0x3F, 0x08,
    0x09, 0x51, 0x57, 0x45, 0x52, 0x54, 0x5A, 0x55, 0x49, 0x4F, 0x50, 0x22, 0x2A, 0x0A,
    0x00, 0x41, 0x53, 0x44, 0x46, 0x47, 0x48, 0x4A, 0x4B, 0x4C, 0x3B, 0x27, 0x60,
    0x00, 0x3E, 0x59, 0x58, 0x43, 0x56, 0x42, 0x4E, 0x4D, 0x3B, 0x3A, 0x5F, 0x00,
    0x2A, 0x00, 0x20, 0x00, 0x00, 0x00, 0x00, 0x00, 0x00, 0x00, 0x00, 0x00, 0x00, 0x00, 0x00,
    0x00, 0x2D, 0x00, 0x00, 0x00, 0x2B,
    0x00, 0x00, 0x00, 0x00, 0x00, 0x00, 0x00, 0x00, 0x00, 0x00, 0x00]

/-- `de_qwertz_altgr`. -/
def deQwertzAltgr : List Byte :=
  [0x00, 0x00, 0x32, 0x33, 0x7B, 0x5B, 0x5D, 0x7D, 0x5C, 0x08,
    0x09, 0x40, 0x00, 0x00, 0x00, 0x00, 0x00, 0x00, 0x00, 0x00, 0x00, 0x7E, 0x08,
    0x00, 0x00, 0x00, 0x00, 0x00, 0x00, 0x00, 0x00, 0x00, 0x00, 0x00, 0x60,
    0x00, 0x7C, 0x00, 0x00, 0x00, 0x00, 0x00, 0x00, 0x00, 0x00, 0x00, 0x00,
    0x2A, 0x00, 0x20, 0x00, 0x00, 0x00, 0x00, 0x00, 0x00, 0x00, 0x00, 0x00, 0x00, 0x00, 0x00,
    0x00, 0x2D, 0x00, 0x00, 0x00, 0x2B,
    0x00, 0x00, 0x00, 0x00, 0x00, 0x00, 0x00, 0x00, 0x00, 0x00, 0x00]

/-- `fr_azerty`. -/
def frAzerty : List Byte :=
  [0x00, 0x00, 0x26, 0x65, 0x22, 0x27, 0x28, 0x2D, 0x65, 0x5F, 0x63, 0x61, 0x29, 0x3D, 0x08,
    0x09, 0x61, 0x7A, 0x65, 0x72, 0x74, 0x79, 0x75, 0x69, 0x6F, 0x70, 0x5E, 0x24, 0x0A,
    0x00, 0x71, 0x73, 0x64, 0x66, 0x67, 0x68, 0x6A, 0x6B, 0x6C, 0x6D, 0x75, 0x2A,
    0x00, 0x3C, 0x77, 0x78, 0x63, 0x76, 0x62, 0x6E, 0x2C, 0x3B, 0x3A, 0x21, 0x00,
    0x2A, 0x00, 0x20, 0x00, 0x00, 0x00, 0x00, 0x00, 0x00, 0x00, 0x00, 0x00, 0x00, 0x00, 0x00,
    0x00, 0x2D, 0x00, 0x00, 0x00, 0x2B,
    0x00, 0x00, 0x00, 0x00, 0x00, 0x00, 0x00, 0x00, 0x00, 0x00, 0x00]

/-- `fr_azerty_shift`. Of a constant that is two bytes in UTF-8 the last one is stored. -/
def frAzertyShift : List Byte :=
  [0x00, 0x00, 0x31, 0x32, 0x33, 0x34, 0x35, 0x36, 0x37, 0x38, 0x39, 0x30, 0xB0, 0x2B, 0x08,
    0x09, 0x41, 0x5A, 0x45, 0x52, 0x54, 0x59, 0x55, 0x49, 0x4F, 0x50, 0xA8, 0xA3, 0x0A,
    0x00, 0x51, 0x53, 0x44, 0x46, 0x47, 0x48, 0x4A, 0x4B, 0x4C, 0x4D, 0x25, 0xB5,
    0x00, 0x3E, 0x57, 0x58, 0x43, 0x56, 0x42, 0x4E, 0x3F, 0x2E, 0x2F, 0xA7, 0x00,
    0x2A, 0x00, 0x20, 0x00, 0x00, 0x00, 0x00, 0x00, 0x00, 0x00, 0x00, 0x00, 0x00, 0x00, 0x00,
    0x00, 0x2D, 0x00, 0x00, 0x00, 0x2B,
    0x00, 0x00, 0x00, 0x00, 0x00, 0x00, 0x00, 0x00, 0x00, 0x00, 0x00]

/-- `keyboard_layout_t`. -/
structure KeyboardLayout where
  name : CString
  scancodeToAscii : List Byte
  scancodeToAsciiShift : List Byte
  scancodeToAsciiAltgr : Option (List Byte)

/-- `keyboard_layouts`. -/
def keyboardLayouts : Vector KeyboardLayout 3 :=
  #v[⟨literal "US QWERTY", usQwerty, usQwertyShift, none⟩,
    ⟨literal "German QWERTZ", deQwertz, deQwertzShift, some deQwertzAltgr⟩,
    ⟨literal "French AZERTY", frAzerty, frAzertyShift, none⟩]

/-- `num_layouts`. -/
def numLayouts : Nat := 3

/-! ## State -/

/-- The static data of `keyboard_intl.c`, and the bytes sent to the keyboard so far. The locks are
bytes, since `keyboard_intl_set_leds` sets them to any value. -/
structure KeyboardIntl where
  currentLayout : Fin 3
  shiftPressed : Bool
  ctrlPressed : Bool
  altPressed : Bool
  altgrPressed : Bool
  capsLock : Byte
  numLock : Byte
  scrollLock : Byte
  sent : List Byte
  deriving DecidableEq

namespace KeyboardIntl

/-- The static data before anything is called. -/
def boot : KeyboardIntl where
  currentLayout := 0
  shiftPressed := false
  ctrlPressed := false
  altPressed := false
  altgrPressed := false
  capsLock := 0
  numLock := 0
  scrollLock := 0
  sent := []

/-- `outb(KEYBOARD_DATA_PORT, value)`. -/
def outb (s : KeyboardIntl) (value : Byte) : KeyboardIntl := { s with sent := s.sent ++ [value] }

/-- `!value` in C. -/
def lnot (value : Byte) : Byte := if value = 0 then 1 else 0

end KeyboardIntl

open KeyboardIntl (lnot)

/-- `keyboard_intl_init`. -/
def keyboardIntlInit (s : KeyboardIntl) : KeyboardIntl :=
  { s with
    shiftPressed := false
    ctrlPressed := false
    altPressed := false
    altgrPressed := false
    capsLock := 0
    numLock := 0
    scrollLock := 0
    currentLayout := 0 }.outb 0xF4

def keyboardIntlSetLayout (s : KeyboardIntl) (layoutIndex : Int) : KeyboardIntl × Int :=
  if h : layoutIndex < 0 ∨ numLayouts ≤ layoutIndex then (s, -1)
  else
    ({ s with currentLayout := ⟨layoutIndex.toNat, by unfold numLayouts at h; omega⟩ }, 0)

def keyboardIntlGetLayoutName (s : KeyboardIntl) : CString :=
  (keyboardLayouts.get s.currentLayout).name

/-- The flags of the lights. -/
def ledFlags (s : KeyboardIntl) : Byte :=
  (if s.capsLock ≠ 0 then 0x04 else 0) ||| (if s.numLock ≠ 0 then 0x02 else 0) |||
    (if s.scrollLock ≠ 0 then 0x01 else 0)

/-- The static `keyboard_update_leds` of this file, without the wait for the controller. -/
def keyboardIntlUpdateLeds (s : KeyboardIntl) : KeyboardIntl := (s.outb 0xED).outb (ledFlags s)

/-- `handle_extended_keys`, for the scancode it reads. -/
def handleExtendedKeys (s : KeyboardIntl) (extendedScancode : Byte) : KeyboardIntl :=
  if extendedScancode = 0x38 then { s with altgrPressed := true }
  else if extendedScancode = 0xB8 then { s with altgrPressed := false }
  else s

/-- `handle_special_keys`, which returns 0 in any case. -/
def handleSpecialKeys (s : KeyboardIntl) (scancode extendedScancode : Byte) : KeyboardIntl :=
  if scancode = 0x2A ∨ scancode = 0x36 then { s with shiftPressed := true }
  else if scancode = 0xAA ∨ scancode = 0xB6 then { s with shiftPressed := false }
  else if scancode = 0x1D then { s with ctrlPressed := true }
  else if scancode = 0x9D then { s with ctrlPressed := false }
  else if scancode = 0x38 then { s with altPressed := true }
  else if scancode = 0xB8 then { s with altPressed := false }
  else if scancode = 0xE0 then handleExtendedKeys s extendedScancode
  else if scancode = 0x3A then keyboardIntlUpdateLeds { s with capsLock := lnot s.capsLock }
  else if scancode = 0x45 then keyboardIntlUpdateLeds { s with numLock := lnot s.numLock }
  else if scancode = 0x46 then keyboardIntlUpdateLeds { s with scrollLock := lnot s.scrollLock }
  else s

/-- The table that is read for the next character. -/
def characterMap (s : KeyboardIntl) : List Byte :=
  let layout := keyboardLayouts.get s.currentLayout
  match s.altgrPressed, layout.scancodeToAsciiAltgr with
  | true, some altgr => altgr
  | _, _ => if s.shiftPressed then layout.scancodeToAsciiShift else layout.scancodeToAscii

/-- `keyboard_intl_getchar`, for the scancode that has arrived and what the data port holds after
it. A special key is looked up in the table like any other. -/
def keyboardIntlGetchar (s : KeyboardIntl) (scancode extendedScancode : Byte) :
    KeyboardIntl × Byte :=
  let s := handleSpecialKeys s scancode extendedScancode
  if scancode &&& 0x80 ≠ 0 then (s, 0)
  else
    let c := (characterMap s).getD scancode.toNat 0
    if s.capsLock ≠ 0 ∧ 0x61 ≤ c.toInt ∧ c.toInt ≤ 0x7A then (s, c - 32)
    else if s.capsLock ≠ 0 ∧ 0x41 ≤ c.toInt ∧ c.toInt ≤ 0x5A then (s, c + 32)
    else (s, c)

def keyboardIntlSetLeds (s : KeyboardIntl) (caps num scroll : Byte) : KeyboardIntl :=
  keyboardIntlUpdateLeds { s with capsLock := caps, numLock := num, scrollLock := scroll }

/-! ## Calls -/

inductive KeyboardIntlCall where
  | init
  | setLayout (layoutIndex : Int)
  | getchar (scancode extendedScancode : Byte)
  | setLeds (caps num scroll : Byte)
  deriving DecidableEq

/-- A call, with the character it returns, if it returns one. -/
def KeyboardIntl.step (s : KeyboardIntl) : KeyboardIntlCall → KeyboardIntl × Byte
  | .init => (keyboardIntlInit s, 0)
  | .setLayout layoutIndex => ((keyboardIntlSetLayout s layoutIndex).1, 0)
  | .getchar scancode extendedScancode => keyboardIntlGetchar s scancode extendedScancode
  | .setLeds caps num scroll => (keyboardIntlSetLeds s caps num scroll, 0)

end MinimalistOS
