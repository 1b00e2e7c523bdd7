import MinimalistOS.Infra.Ring
import MinimalistOS.Infra.Run
import MinimalistOS.Infra.Word

/-!
# `drivers/char_device.c`: the character device

A circular buffer of 1024 bytes with two positions and a count. A transfer moves one byte after
another until it is done, or until the buffer is full or empty.
-/

namespace MinimalistOS

open Infra

/-- `CHAR_BUFFER_SIZE`. -/
def charBufferSize : Nat := 1024

theorem charBufferSize_pos : 0 < charBufferSize := by decide

/-- `char_device_t`. The write position is where the read position and the count put it. -/
structure CharDevice where
  buffer : Vector Byte 1024
  readPos : Nat
  writePos : Nat
  count : Nat
  read_lt : readPos < charBufferSize
  count_le : count ≤ charBufferSize
  write_eq : writePos = (readPos + count) % charBufferSize

/-- `char_dev` with nothing in it, which is also how `char_device_init` leaves it. -/
def charOpen (d : CharDevice) : CharDevice where
  buffer := d.buffer
  readPos := 0
  writePos := 0
  count := 0
  read_lt := charBufferSize_pos
  count_le := Nat.zero_le _
  write_eq := rfl

/-- `char_dev` at boot. -/
def bootCharDevice : CharDevice where
  buffer := Vector.replicate 1024 0
  readPos := 0
  writePos := 0
  count := 0
  read_lt := charBufferSize_pos
  count_le := Nat.zero_le _
  write_eq := rfl

/-! ## Reading -/

/-- What one turn of the loop in `char_read` does to the device. -/
def CharDevice.takeByte (d : CharDevice) (h : 0 < d.count) : CharDevice where
  buffer := d.buffer
  readPos := (d.readPos + 1) % charBufferSize
  writePos := d.writePos
  count := d.count - 1
  read_lt := Nat.mod_lt _ charBufferSize_pos
  count_le := (Nat.sub_le _ _).trans d.count_le
  write_eq := by
    rw [d.write_eq, Nat.mod_add_mod]
    congr 1
    omega

/-- The loop of `char_read`, with `size - bytes_read` left to read: the device, and the bytes it
stores in the caller's buffer. -/
def charReadLoop (d : CharDevice) : Nat → CharDevice × List Byte
  | 0 => (d, [])
  | n + 1 =>
    if h : 0 < d.count then
      let rest := charReadLoop (d.takeByte h) n
      (rest.1, slot d.buffer d.readPos :: rest.2)
    else (d, [])

/-- `char_read`: the device, the bytes stored and the answer. `buffer` says whether the pointer is
not null. -/
def charRead (d : CharDevice) (buffer : Bool) (size : Word) : CharDevice × List Byte × Int :=
  if buffer = false then (d, [], -1)
  else
    let r := charReadLoop d size.toNat
    (r.1, r.2, r.2.length)

/-! ## Writing -/

/-- What one turn of the loop in `char_write` does to the device. -/
def CharDevice.putByte (d : CharDevice) (c : Byte) (h : d.count < charBufferSize) :
    CharDevice where
  buffer := d.buffer.setIfInBounds d.writePos c
  readPos := d.readPos
  writePos := (d.writePos + 1) % charBufferSize
  count := d.count + 1
  read_lt := d.read_lt
  count_le := h
  write_eq := by rw [d.write_eq, Nat.mod_add_mod, Nat.add_assoc]

/-- The loop of `char_write` from `bytes_written` on, with `size - bytes_written` left to write. -/
def charWriteLoop (d : CharDevice) (buf : Nat → Byte) (bytesWritten : Nat) :
    Nat → CharDevice × Nat
  | 0 => (d, bytesWritten)
  | n + 1 =>
    if h : d.count < charBufferSize then
      charWriteLoop (d.putByte (buf bytesWritten) h) buf (bytesWritten + 1) n
    else (d, bytesWritten)

/-- `char_write`; a null pointer is `none`. -/
def charWrite (d : CharDevice) (buffer : Option (Nat → Byte)) (size : Word) : CharDevice × Int :=
  match buffer with
  | none => (d, -1)
  | some buf =>
    let r := charWriteLoop d buf 0 size.toNat
    (r.1, r.2)

/-! ## Control -/

/-- `char_ioctl`: the device, what is left in `*arg`, and the answer. `arg` says whether the pointer
is not null. -/
def charIoctl (d : CharDevice) (cmd : Word) (arg : Bool) : CharDevice × Option Word × Int :=
  if cmd = 0 then (charOpen d, none, 0)
  else if cmd = 1 then
    if arg then (d, some (BitVec.ofNat 32 d.count), 0) else (d, none, -1)
  else if cmd = 2 then
    if arg then (d, some (BitVec.ofNat 32 charBufferSize), 0) else (d, none, -1)
  else (d, none, -1)

/-! ## Calls -/

/-- The operations in `char_ops`. -/
inductive CharCall where
  | open
  | close
  | read (buffer : Bool) (size : Word)
  | write (buffer : Option (Nat → Byte)) (size : Word)
  | ioctl (cmd : Word) (arg : Bool)

/-- What a call returns, and what it stores for the caller. -/
structure CharAnswer where
  result : Int
  bytes : List Byte
  arg : Option Word
  deriving DecidableEq

def CharDevice.step (d : CharDevice) : CharCall → CharDevice × CharAnswer
  | .open => (charOpen d, ⟨0, [], none⟩)
  | .close => (d, ⟨0, [], none⟩)
  | .read buffer size =>
    let r := charRead d buffer size
    (r.1, ⟨r.2.2, r.2.1, none⟩)
  | .write buffer size =>
    let r := charWrite d buffer size
    (r.1, ⟨r.2, [], none⟩)
  | .ioctl cmd arg =>
    let r := charIoctl d cmd arg
    (r.1, ⟨r.2.2, [], r.2.1⟩)

end MinimalistOS
