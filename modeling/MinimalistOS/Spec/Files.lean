import MinimalistOS.Infra.Run
import MinimalistOS.Kernel.Ramfs

/-!
# What the file system is for

A directory of names, and for each name a file of its own: an array of 4096 bytes and a size. The
inode number of a file is its position in the directory, from one. Nothing is shared between
files, and a file is changed by a write to its inode only.

The bytes of an array that nobody has written yet are whatever they are; a file keeps them from
the start, and a write beyond the size makes them readable.
-/

namespace MinimalistOS

open Infra

/-! ## Files -/

/-- A file: its array, of which the first 4096 bytes count, and its size. -/
structure FileImage where
  bytes : Nat → Byte
  size : Nat
  size_le : size ≤ maxFileSize

namespace FileImage

/-- How much of a buffer fits behind an offset. -/
def stored (offset count : Nat) : Nat := min count (maxFileSize - offset)

/-- The array after the first `n` bytes of a buffer have been stored at an offset. -/
def overwrite (bytes : Nat → Byte) (offset n : Nat) (data : List Byte) : Nat → Byte := fun k =>
  if offset ≤ k ∧ k < offset + n then bufferOf data (k - offset) else bytes k

/-- A write of a buffer at an offset below 4096. -/
def write (f : FileImage) (offset : Nat) (h : offset < maxFileSize) (data : List Byte) :
    FileImage where
  bytes := overwrite f.bytes offset (stored offset data.length) data
  size := max f.size (offset + stored offset data.length)
  size_le := by
    have := f.size_le
    unfold stored
    omega

/-- The bytes `[offset, min (offset + count) size)`. -/
def read (f : FileImage) (offset count : Nat) : List Byte :=
  (List.range' offset (min (offset + count) f.size - offset)).map f.bytes

/-- The file after its creation with some contents. -/
def create (f : FileImage) (data : List Byte) (h : data.length ≤ maxFileSize) : FileImage where
  bytes := overwrite f.bytes 0 data.length data
  size := data.length
  size_le := h

end FileImage

/-! ## The directory -/

/-- The names in the order of their creation, and the file at each position. -/
structure Files where
  names : List CString
  file : Nat → FileImage

/-- A call with real buffers. -/
inductive FileCall where
  | create (name : CString) (data : List Byte)
  | open' (name : CString) (flags : Word)
  | write (inode : Word) (buffer : List Byte) (offset : Word)
  | read (inode count offset : Word)
  | stat (name : CString)

/-- What a call returns: an `int`, or the bytes read with it, or what `ramfs_stat` found. -/
inductive FileAnswer where
  | ret (ret : Int)
  | bytes (bytes : List Byte) (ret : Int)
  | stat (stat : Option VfsStat)
  deriving DecidableEq

/-- The names fit into an entry, and the sums of offsets and lengths into a word. -/
def FileCall.Proper : FileCall → Prop
  | .create name data => name.bytes.length < 256 ∧ data.length < 2 ^ 32
  | .open' name _ => name.bytes.length < 256
  | .write _ buffer offset => offset.toNat + buffer.length < 2 ^ 32
  | .read _ count offset => offset.toNat + count.toNat < 2 ^ 32
  | .stat name => name.bytes.length < 256

/-- A call of the file system, with its buffers. -/
def RamfsState.step (s : RamfsState) : FileCall → RamfsState × FileAnswer
  | .create name data =>
    (ramfsCreateFile s (some name) (some (bufferOf data)) (BitVec.ofNat 32 data.length)).map id
      .ret
  | .open' name flags => (ramfsOpen s (some name) flags).map id .ret
  | .write inode buffer offset =>
    (ramfsWrite s inode (some (bufferOf buffer)) (BitVec.ofNat 32 buffer.length) offset).map id
      fun answer => .ret answer.2
  | .read inode count offset =>
    let answer := ramfsRead s inode true count offset
    (s, .bytes ((answer.1.map fun t => t.bytes s.heap.bytes).getD []) answer.2)
  | .stat name => (s, .stat (ramfsStat s (some name) true))

namespace Files

/-- The inode number of a name. -/
def inode (a : Files) (name : CString) : Option Nat := (a.names.idxOf? name).map (· + 1)

/-- Another file at a position. -/
def set (a : Files) (i : Nat) (f : FileImage) : Files :=
  { a with file := Function.update a.file i f }

/-- The directory with one more name and its file. -/
def add (a : Files) (name : CString) (f : FileImage) : Files where
  names := a.names ++ [name]
  file := Function.update a.file a.names.length f

@[simp] theorem names_set (a : Files) (i : Nat) (f : FileImage) : (a.set i f).names = a.names :=
  rfl

theorem file_set (a : Files) (i : Nat) (f : FileImage) (j : Nat) :
    (a.set i f).file j = if j = i then f else a.file j := Function.update_apply a.file i f j

theorem file_add (a : Files) (name : CString) (f : FileImage) (j : Nat) :
    (a.add name f).file j = if j = a.names.length then f else a.file j :=
  Function.update_apply a.file a.names.length f j

@[simp] theorem length_names_add (a : Files) (name : CString) (f : FileImage) :
    (a.add name f).names.length = a.names.length + 1 := by
  simp [add]

theorem idxOf?_add_self {a : Files} {name : CString} (h : name ∉ a.names) (f : FileImage) :
    (a.add name f).names.idxOf? name = some a.names.length := by
  have hnone : a.names.findIdx? (· == name) = none := List.idxOf?_eq_none_iff.mpr h
  show (a.names ++ [name]).findIdx? (· == name) = _
  rw [List.findIdx?_append, hnone]
  simp

theorem idxOf?_add_of_ne (a : Files) {name other : CString} (h : other ≠ name) (f : FileImage) :
    (a.add name f).names.idxOf? other = a.names.idxOf? other := by
  show (a.names ++ [name]).findIdx? (· == other) = a.names.findIdx? (· == other)
  rw [List.findIdx?_append]
  simp [Ne.symm h]

def create (a : Files) (name : CString) (data : List Byte) : Files × Int :=
  if h : data.length ≤ maxFileSize then
    if name ∈ a.names ∨ maxFiles ≤ a.names.length then (a, -1)
    else (a.add name ((a.file a.names.length).create data h), 0)
  else (a, -1)

def open' (a : Files) (name : CString) (flags : Word) : Files × Int :=
  match a.inode name with
  | some i => (a, i)
  | none =>
    if flags &&& oCreat ≠ 0 ∧ a.names.length < maxFiles then
      (a.add name ((a.file a.names.length).create [] (Nat.zero_le _)), a.names.length + 1)
    else (a, -1)

/-- The inode number is that of a file. -/
def Has (a : Files) (inode : Word) : Prop := 0 < inode.toNat ∧ inode.toNat ≤ a.names.length

instance (a : Files) (inode : Word) : Decidable (a.Has inode) := inferInstanceAs (Decidable (_ ∧ _))

def write (a : Files) (inode : Word) (buffer : List Byte) (offset : Word) : Files × Int :=
  if a.Has inode then
    if h : offset.toNat < maxFileSize then
      (a.set (inode.toNat - 1) ((a.file (inode.toNat - 1)).write offset.toNat h buffer),
        FileImage.stored offset.toNat buffer.length)
    else (a, -1)
  else (a, -1)

def read (a : Files) (inode count offset : Word) : List Byte × Int :=
  if a.Has inode then
    let bytes := (a.file (inode.toNat - 1)).read offset.toNat count.toNat
    (bytes, bytes.length)
  else ([], -1)

def stat (a : Files) (name : CString) : Option VfsStat :=
  (a.inode name).map fun i =>
    { inode := BitVec.ofNat 32 i, size := BitVec.ofNat 32 (a.file (i - 1)).size, mode := 0o644
      type := vfsTypeFile }

def step (a : Files) : FileCall → Files × FileAnswer
  | .create name data => (a.create name data).map id .ret
  | .open' name flags => (a.open' name flags).map id .ret
  | .write inode buffer offset => (a.write inode buffer offset).map id .ret
  | .read inode count offset =>
    (a, .bytes (a.read inode count offset).1 (a.read inode count offset).2)
  | .stat name => (a, .stat (a.stat name))

/-- The directory with its three default files; `array i` is what the array of the file with inode
`i + 1` holds before. -/
def initial (array : Nat → Nat → Byte) : Files :=
  run step { names := [], file := fun i => ⟨array i, 0, Nat.zero_le _⟩ }
    [.create helloName helloText, .create kernelName kernelText, .create readmeName readmeText]

end Files

end MinimalistOS
