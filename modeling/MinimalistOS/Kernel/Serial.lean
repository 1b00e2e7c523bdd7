import MinimalistOS.Infra.Buffer
import MinimalistOS.Kernel.String

/-!
# `drivers/serial.c`: sending

What leaves the machine is the list of `outb`s, each a port and a byte. `serial_putchar` waits for
the transmitter, but not for ever: after its timeout it sends anyway, so a call is one `outb`.
-/

namespace MinimalistOS

open Infra

/-- An `outb`. -/
structure Outb where
  port : BitVec 16
  value : Byte
  deriving DecidableEq

/-- `serial_putchar(com, c)`; the data port is the base of `com`. -/
def serialPutchar (com : BitVec 16) (c : Byte) (sent : List Outb) : List Outb := sent ++ [⟨com, c⟩]

/-- `serial_write(com, str)`: a carriage return before each newline. -/
def serialWrite (com : BitVec 16) (str : CString) (sent : List Outb) : List Outb :=
  str.bytes.foldl (fun sent c =>
    serialPutchar com c (if c = 0x0A then serialPutchar com 0x0D sent else sent)) sent

/-- `hex_chars`. -/
def hexChars : Vector Byte 16 :=
  #v[0x30, 0x31, 0x32, 0x33, 0x34, 0x35, 0x36, 0x37, 0x38, 0x39, 0x41, 0x42, 0x43, 0x44, 0x45, 0x46]

/-- `(value >> (i * 4)) & 0xF`. -/
def nibble (value : Word) (i : Nat) : Word := value >>> (i * 4) &&& 0xF

theorem toNat_nibble (value : Word) (i : Nat) :
    (nibble value i).toNat = value.toNat / 16 ^ i % 16 := by
  rw [nibble, BitVec.toNat_and, BitVec.toNat_ushiftRight,
    show (0xF : Word).toNat = 2 ^ 4 - 1 by rfl, Nat.and_two_pow_sub_one_eq_mod,
    Nat.shiftRight_eq_div_pow, Nat.mul_comm i 4, Nat.pow_mul]

theorem toNat_nibble_lt (value : Word) (i : Nat) : (nibble value i).toNat < 16 := by
  rw [toNat_nibble]
  exact Nat.mod_lt _ (by decide)

/-- The loop `for (int i = 7; i >= 0; i--)`, with `i + 1` rounds to go. -/
def serialHex.loop (com : BitVec 16) (value : Word) : Nat → List Outb → List Outb
  | 0, sent => sent
  | i + 1, sent =>
    serialHex.loop com value i
      (serialPutchar com (hexChars.get ⟨(nibble value i).toNat, toNat_nibble_lt value i⟩) sent)

/-- `serial_hex(com, value)`. -/
def serialHex (com : BitVec 16) (value : Word) (sent : List Outb) : List Outb :=
  serialHex.loop com value 8 (serialPutchar com 0x78 (serialPutchar com 0x30 sent))

/-- The loop `while (value > 0)`: the new `i` and what `buffer` holds. -/
def serialDecimal.digitLoop (value : Word) (i : Nat) (buffer : Buffer) : Nat × Buffer :=
  if 0 < value.toNat then
    serialDecimal.digitLoop (value / 10) (i + 1)
      (buffer.set i ((value % 10 + 0x30).setWidth 8))
  else (i, buffer)
termination_by value.toNat
decreasing_by
  rw [BitVec.toNat_udiv]
  exact Nat.div_lt_self ‹_› (by decide)

/-- The loop `for (int j = i - 1; j >= 0; j--)`, with `j + 1` rounds to go. -/
def serialDecimal.sendLoop (com : BitVec 16) (buffer : Buffer) : Nat → List Outb → List Outb
  | 0, sent => sent
  | j + 1, sent => serialDecimal.sendLoop com buffer j (serialPutchar com (buffer.bytes j) sent)

/-- `serial_decimal(com, value)`; `stack` is what `buffer` holds before. -/
def serialDecimal (stack : Nat → Byte) (com : BitVec 16) (value : Word) (sent : List Outb) :
    List Outb :=
  if value = 0 then serialPutchar com 0x30 sent
  else
    let (i, buffer) := serialDecimal.digitLoop value 0 (.fresh stack)
    serialDecimal.sendLoop com buffer i sent

/-! ## Messages -/

/-- `SERIAL_COM1_BASE`. -/
def serialCom1Base : BitVec 16 := 0x3F8

/-- A message on a line of its own; the newline is sent as it is. -/
def serialMessage (tag message : CString) (sent : List Outb) : List Outb :=
  serialPutchar serialCom1Base 0x0A
    (serialWrite serialCom1Base message (serialWrite serialCom1Base tag sent))

def serialDebug (message : CString) (sent : List Outb) : List Outb :=
  serialMessage (literal "[DEBUG] ") message sent

def serialInfo (message : CString) (sent : List Outb) : List Outb :=
  serialMessage (literal "[INFO] ") message sent

def serialError (message : CString) (sent : List Outb) : List Outb :=
  serialMessage (literal "[ERROR] ") message sent

/-- `serial_panic`; the wait at its end sends nothing. -/
def serialPanic (message : CString) (sent : List Outb) : List Outb :=
  serialWrite serialCom1Base (literal "\nSystem halted.\n")
    (serialWrite serialCom1Base message
      (serialWrite serialCom1Base (literal "\n=== KERNEL PANIC ===\n") sent))

/-! ## Calls -/

/-- A call; `serial_decimal` with what its buffer holds before. -/
inductive SerialCall where
  | putchar (com : BitVec 16) (c : Byte)
  | write (com : BitVec 16) (str : CString)
  | hex (com : BitVec 16) (value : Word)
  | decimal (stack : Nat → Byte) (com : BitVec 16) (value : Word)
  | debug (message : CString)
  | info (message : CString)
  | error (message : CString)
  | panic (message : CString)

def SerialCall.send (sent : List Outb) : SerialCall → List Outb
  | putchar com c => serialPutchar com c sent
  | write com str => serialWrite com str sent
  | hex com value => serialHex com value sent
  | decimal stack com value => serialDecimal stack com value sent
  | debug message => serialDebug message sent
  | info message => serialInfo message sent
  | error message => serialError message sent
  | panic message => serialPanic message sent

end MinimalistOS
