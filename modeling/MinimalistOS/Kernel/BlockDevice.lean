import MinimalistOS.Kernel.Device

/-!
# `drivers/block_device.c`: the block device

A device of 1024 blocks of 512 bytes that owns one page. `block_open` takes the page and lowers the
number of blocks to eight; the transfers compare with the size of all 1024.

`data` is the address of the page, `0` before the device is opened. Memory is the 32-bit space that
the page is in. A caller's buffer is apart from it: for a read it is whether there is one, and what
goes there is in the answer, and for a write it is what the pointer points at.
-/

namespace MinimalistOS

open Infra

/-- `DEV_TYPE_BLOCK`. -/
def devTypeBlock : Word := 1

/-- `block_device_t`. -/
structure BlockDevice where
  data : Word
  blockCount : Word
  currentBlock : Word
  deriving DecidableEq

namespace BlockDevice

/-- `BLOCK_SIZE`. -/
def blockSize : Word := 512

/-- `NUM_BLOCKS`. -/
def numBlocks : Word := 1024

/-- `DEVICE_SIZE`. -/
def deviceSize : Word := blockSize * numBlocks

/-- `current_block * BLOCK_SIZE`. -/
def offset (d : BlockDevice) : Word := d.currentBlock * blockSize

/-- The number of bytes that a transfer of `size` bytes moves. -/
def clamp (d : BlockDevice) (size : Word) : Word :=
  if deviceSize < d.offset + size then deviceSize - d.offset else size

end BlockDevice
/-- `block_dev`, the registry with the page allocator, and memory. -/
structure BlockDriver where
  dev : BlockDevice
  devices : Devices
  mem : Mem

/-- What a call returns, the bytes that it moved between the page and the caller, and what it stored
at `arg`. -/
structure BlockAnswer where
  result : Word
  bytes : List Byte
  arg : Option Word
  deriving DecidableEq

/-- `return -1`. -/
def blockFails : BlockAnswer := ⟨-1, [], none⟩

/-- `"block0"`. -/
def blockName : CString := ⟨[0x62, 0x6C, 0x6F, 0x63, 0x6B, 0x30], by decide⟩

/-- `block_device_init`; `ops` is the address of `block_ops`. -/
def blockDeviceInit (s : BlockDriver) (ops : Word) : BlockDriver :=
  { s with
    dev := ⟨0, 0, 0⟩
    devices := (deviceRegister s.devices blockName devTypeBlock 1 0 ops).1 }

/-- `block_open`. -/
def blockOpen (s : BlockDriver) : BlockDriver × BlockAnswer :=
  if s.dev.data = 0 then
    let pagesNeeded : Word :=
      (BlockDevice.deviceSize + BitVec.ofNat 32 pageSize - 1) / BitVec.ofNat 32 pageSize
    let r := allocPage s.devices.pages
    let devices : Devices := { s.devices with pages := r.1 }
    if r.2 = 0 then ({ s with devices := devices }, blockFails)
    else
      let blockCount :=
        if 1 < pagesNeeded then BitVec.ofNat 32 pageSize / BlockDevice.blockSize
        else BlockDevice.numBlocks
      ({ dev := ⟨r.2, blockCount, 0⟩, devices := devices, mem := memset s.mem r.2 0 pageSize },
        ⟨0, [], none⟩)
  else (s, ⟨0, [], none⟩)

/-- `block_read`; `buffer` says whether the pointer is not null. -/
def blockRead (s : BlockDriver) (buffer : Bool) (size : Word) : BlockDriver × BlockAnswer :=
  if s.dev.data = 0 ∨ buffer = false then (s, blockFails)
  else
    let bytesToRead := s.dev.clamp size
    let src := s.dev.data + s.dev.offset
    (s, ⟨bytesToRead,
      (List.range bytesToRead.toNat).map fun i => s.mem (src + BitVec.ofNat 32 i), none⟩)

/-- `block_write`; a null pointer is `none`. -/
def blockWrite (s : BlockDriver) (buffer : Option (Nat → Byte)) (size : Word) :
    BlockDriver × BlockAnswer :=
  match buffer with
  | none => (s, blockFails)
  | some src =>
    if s.dev.data = 0 then (s, blockFails)
    else
      let bytesToWrite := s.dev.clamp size
      let dest := s.dev.data + s.dev.offset
      ({ s with mem := memcpyTo s.mem dest src bytesToWrite.toNat },
        ⟨bytesToWrite, (List.range bytesToWrite.toNat).map src, none⟩)

/-- `block_ioctl`; `arg` is what the pointer points at, and `none` when it is null. -/
def blockIoctl (s : BlockDriver) (cmd : Word) (arg : Option Word) : BlockDriver × BlockAnswer :=
  match arg with
  | none => (s, blockFails)
  | some block =>
    if cmd = 0 then
      if block < s.dev.blockCount then
        ({ s with dev := { s.dev with currentBlock := block } }, ⟨0, [], none⟩)
      else (s, blockFails)
    else if cmd = 1 then (s, ⟨0, [], some s.dev.blockCount⟩)
    else if cmd = 2 then (s, ⟨0, [], some s.dev.currentBlock⟩)
    else (s, blockFails)

/-! ## Calls -/

/-- The operations in `block_ops`. -/
inductive BlockCall where
  | open
  | close
  | read (buffer : Bool) (size : Word)
  | write (buffer : Option (Nat → Byte)) (size : Word)
  | ioctl (cmd : Word) (arg : Option Word)

def BlockDriver.step (s : BlockDriver) : BlockCall → BlockDriver × BlockAnswer
  | .open => blockOpen s
  | .close => (s, ⟨0, [], none⟩)
  | .read buffer size => blockRead s buffer size
  | .write buffer size => blockWrite s buffer size
  | .ioctl cmd arg => blockIoctl s cmd arg

end MinimalistOS
