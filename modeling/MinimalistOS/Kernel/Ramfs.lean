import MinimalistOS.Kernel.Heap

/-!
# `fs/ramfs.c`: the file system in memory

One structure with sixty-four file entries, and one block of 64 times 4096 bytes for their
contents; entry `i` uses the bytes from `i * 4096` on. Both come from the kernel heap.

A pointer into the heap is its offset from `&heap[0]`, as in `Kernel/Heap.lean`, and `none` is
`NULL`. What `ramfs` points at is a record of its own, apart from the heap's bytes: it starts as
whatever the heap holds there. The contents of the files are bytes of the heap, so that a copy of
too many bytes is a copy over what lies behind.
-/

namespace MinimalistOS

open Infra

/-- `MAX_FILES`. -/
def maxFiles : Nat := 64

/-- `MAX_FILE_SIZE`. -/
def maxFileSize : Nat := 4096

/-- `RAMFS_MAGIC`. -/
def ramfsMagic : Word := 0x52414D46

/-- `O_CREAT`. -/
def oCreat : Word := 0x40

/-- `VFS_TYPE_FILE`. -/
def vfsTypeFile : Word := 1

/-- `ramfs_file_t`. -/
structure RamfsFile where
  name : Vector Byte 256
  size : Word
  data : Word
  inUse : Byte
  mode : Word
  deriving DecidableEq, Inhabited

/-- `ramfs_t`. -/
structure Ramfs where
  magic : Word
  files : Vector RamfsFile 64
  fileData : Option Word
  deriving DecidableEq

/-- The part of `vfs_stat_t` that `ramfs_stat` fills in. -/
structure VfsStat where
  inode : Word
  size : Word
  mode : Word
  type : Word
  deriving DecidableEq, Repr

/-- `sizeof(ramfs_t)`: the magic number, 64 entries of 272 bytes and a pointer. -/
def sizeofRamfs : Word := 17416

/-- `MAX_FILES * MAX_FILE_SIZE`. -/
def ramfsDataSize : Word := 262144

/-- The heap, the address the linker gave it, and what the static pointer `ramfs` points at. -/
structure RamfsState where
  heap : Heap
  heapBase : Word
  ramfs : Option Ramfs

namespace Ramfs

/-- The file entry at an address. -/
def fileOfBytes (m : Mem) (p : Word) : RamfsFile where
  name := Vector.ofFn fun k => m (p + BitVec.ofNat 32 k)
  size := m.read32 (p + 256)
  data := m.read32 (p + 260)
  inUse := m (p + 264)
  mode := m.read32 (p + 268)

/-- The structure at an address, but for the pointer at its end. -/
def ofBytes (m : Mem) (p : Word) (fileData : Option Word) : Ramfs where
  magic := m.read32 p
  files := Vector.ofFn fun i => fileOfBytes m (p + 4 + BitVec.ofNat 32 (272 * i))
  fileData := fileData

/-- `ramfs->files[i]`. -/
def file (r : Ramfs) (i : Nat) : RamfsFile := slot r.files i

/-- An update of `ramfs->files[i]`. -/
def modify (r : Ramfs) (i : Nat) (f : RamfsFile → RamfsFile) : Ramfs :=
  { r with files := modifySlot r.files i f }

/-- The loop of `ramfs_init` over the entries, and the magic number. -/
def format (r : Ramfs) : Ramfs :=
  { r with
    magic := ramfsMagic
    files := r.files.map fun f =>
      { f with inUse := 0, size := 0, data := 0, name := f.name.setIfInBounds 0 0, mode := 0o644 } }

end Ramfs

/-- `file_data` as an offset in the heap's bytes. `NULL` is as far below the heap as the heap is
above address `0`. -/
def RamfsState.fileData (s : RamfsState) (r : Ramfs) : Word := r.fileData.getD (0 - s.heapBase)

/-! ## Lookup -/

/-- An entry that `ramfs_find_file` takes. -/
def RamfsFile.named (name : CString) (f : RamfsFile) : Bool :=
  f.inUse != 0 && strcmp f.name.toList name.bytes == 0

/-- `ramfs_find_file`, as an index. -/
def ramfsFindFile (r : Ramfs) (name : CString) : Option Nat :=
  findSlot r.files (RamfsFile.named name) 0 maxFiles

/-- `ramfs_find_free_slot`, as an index. -/
def ramfsFindFreeSlot (r : Ramfs) : Option Nat :=
  findSlot r.files (fun f => f.inUse == 0) 0 maxFiles

/-! ## Creating and opening -/

/-- What `ramfs_create_file` writes into the entry. -/
def RamfsFile.fill (f : RamfsFile) (i : Nat) (name : CString) (size : Word) : RamfsFile where
  name := (strncpy f.name name.bytes 255).setIfInBounds 255 0
  size := size
  data := BitVec.ofNat 32 (i * maxFileSize)
  inUse := 1
  mode := 0o644

/-- The part of `ramfs_create_file` after its checks, for entry `i`. -/
def createAt (s : RamfsState) (r : Ramfs) (i : Nat) (name : CString)
    (data : Option (Nat → Byte)) (size : Word) : RamfsState :=
  let dest := s.fileData r + BitVec.ofNat 32 (i * maxFileSize)
  { s with
    ramfs := some (r.modify i fun f => f.fill i name size)
    heap := match data with
      | some src =>
        if 0 < size.toNat then
          { s.heap with bytes := memcpyTo s.heap.bytes dest src size.toNat }
        else s.heap
      | none => s.heap }

def ramfsCreateFile (s : RamfsState) (name : Option CString) (data : Option (Nat → Byte))
    (size : Word) : RamfsState × Int :=
  match s.ramfs, name with
  | some r, some name =>
    if maxFileSize < size.toNat then (s, -1)
    else
      match ramfsFindFile r name with
      | some _ => (s, -1)
      | none =>
        match ramfsFindFreeSlot r with
        | none => (s, -1)
        | some i => (createAt s r i name data size, 0)
  | _, _ => (s, -1)

/-- `ramfs_open`: the inode number is the index of the entry and one. -/
def ramfsOpen (s : RamfsState) (path : Option CString) (flags : Word) : RamfsState × Int :=
  match s.ramfs, path with
  | some r, some name =>
    match ramfsFindFile r name with
    | some i => (s, i + 1)
    | none =>
      if flags &&& oCreat ≠ 0 then
        let created := ramfsCreateFile s path none 0
        if created.2 = 0 then
          -- looked up again, by the name as it was given
          match created.1.ramfs.bind fun r => ramfsFindFile r name with
          | some i => (created.1, i + 1)
          | none => (created.1, -1)
        else (created.1, -1)
      else (s, -1)
  | _, _ => (s, -1)

/-! ## Reading and writing -/

/-- A copy between a buffer and the contents of the files: from which byte of the heap on, and how
many bytes. -/
structure Transfer where
  addr : Word
  count : Word
  deriving DecidableEq, Repr

/-- The bytes a transfer reads. -/
def Transfer.bytes (t : Transfer) (m : Mem) : List Byte :=
  (List.range t.count.toNat).map fun k => m (t.addr + BitVec.ofNat 32 k)

/-- The inode number is that of an entry in use. -/
def Ramfs.valid (r : Ramfs) (inode : Word) : Bool :=
  0 < inode.toNat && inode.toNat ≤ maxFiles && (r.file (inode.toNat - 1)).inUse != 0

/-- `ramfs_read`: the copy into the buffer, if there is one, and the answer. `buffer` says whether
the pointer is not null. -/
def ramfsRead (s : RamfsState) (inode : Word) (buffer : Bool) (count offset : Word) :
    Option Transfer × Int :=
  match s.ramfs with
  | none => (none, -1)
  | some r =>
    if buffer && r.valid inode then
      let file := r.file (inode.toNat - 1)
      if file.size ≤ offset then (none, 0)
      else
        let bytesToRead := if file.size < offset + count then file.size - offset else count
        (some ⟨s.fileData r + file.data + offset, bytesToRead⟩, bytesToRead.toInt)
    else (none, -1)

/-- The copy that `ramfs_write` makes, if there is one. -/
def writeTransfer (s : RamfsState) (r : Ramfs) (inode count offset : Word) : Transfer where
  addr := s.fileData r + (r.file (inode.toNat - 1)).data + offset
  count := if maxFileSize < (offset + count).toNat then BitVec.ofNat 32 maxFileSize - offset
    else count

/-- The entry after a write of `written` bytes. -/
def RamfsFile.grow (f : RamfsFile) (offset written : Word) : RamfsFile :=
  if f.size < offset + written then { f with size := offset + written } else f

/-- `ramfs_write`, with the copy it makes. -/
def ramfsWrite (s : RamfsState) (inode : Word) (buffer : Option (Nat → Byte))
    (count offset : Word) : RamfsState × Option Transfer × Int :=
  match s.ramfs, buffer with
  | some r, some src =>
    if r.valid inode then
      if maxFileSize ≤ offset.toNat then (s, none, -1)
      else
        let t := writeTransfer s r inode count offset
        ({ s with
            heap := { s.heap with bytes := memcpyTo s.heap.bytes t.addr src t.count.toNat }
            ramfs := some (r.modify (inode.toNat - 1) fun f => f.grow offset t.count) },
          some t, t.count.toInt)
    else (s, none, -1)
  | _, _ => (s, none, -1)

/-- `ramfs_stat`: what is left in `*stat`, and `none` for `-1`. `stat` says whether the pointer is
not null. -/
def ramfsStat (s : RamfsState) (path : Option CString) (stat : Bool) : Option VfsStat :=
  match s.ramfs, path with
  | some r, some name =>
    if stat then
      (ramfsFindFile r name).map fun i =>
        { inode := BitVec.ofNat 32 (i + 1), size := (r.file i).size, mode := (r.file i).mode
          type := vfsTypeFile }
    else none
  | _, _ => none

/-! ## Initialisation -/

/-- `"hello.txt"`. -/
def helloName : CString :=
  ⟨[0x68, 0x65, 0x6C, 0x6C, 0x6F, 0x2E, 0x74, 0x78, 0x74], by simp⟩

/-- `"kernel.txt"`. -/
def kernelName : CString :=
  ⟨[0x6B, 0x65, 0x72, 0x6E, 0x65, 0x6C, 0x2E, 0x74, 0x78, 0x74], by simp⟩

/-- `"readme.txt"`. -/
def readmeName : CString :=
  ⟨[0x72, 0x65, 0x61, 0x64, 0x6D, 0x65, 0x2E, 0x74, 0x78, 0x74], by simp⟩

/-- `"Hello, World!\n"`. -/
def helloText : List Byte :=
  [0x48, 0x65, 0x6C, 0x6C, 0x6F, 0x2C, 0x20, 0x57, 0x6F, 0x72, 0x6C, 0x64, 0x21, 0x0A]

/-- `"Minimalist OS Kernel v1.0\n"`. -/
def kernelText : List Byte :=
  [0x4D, 0x69, 0x6E, 0x69, 0x6D, 0x61, 0x6C, 0x69, 0x73, 0x74, 0x20, 0x4F, 0x53, 0x20, 0x4B,
    0x65, 0x72, 0x6E, 0x65, 0x6C, 0x20, 0x76, 0x31, 0x2E, 0x30, 0x0A]

/-- `"This is a RAM-based filesystem.\n"`, with the terminator: the source counts 33 bytes. -/
def readmeText : List Byte :=
  [0x54, 0x68, 0x69, 0x73, 0x20, 0x69, 0x73, 0x20, 0x61, 0x20, 0x52, 0x41, 0x4D, 0x2D, 0x62,
    0x61, 0x73, 0x65, 0x64, 0x20, 0x66, 0x69, 0x6C, 0x65, 0x73, 0x79, 0x73, 0x74, 0x65, 0x6D,
    0x2E, 0x0A, 0x00]

/-- A buffer as a source of bytes. -/
def bufferOf (l : List Byte) (k : Nat) : Byte := l.getD k 0

/-- `ramfs_create_file` of a text in a buffer. -/
def createText (s : RamfsState) (name : CString) (text : List Byte) : RamfsState :=
  (ramfsCreateFile s (some name) (some (bufferOf text)) (BitVec.ofNat 32 text.length)).1

/-- The part of `ramfs_init` after the two allocations. -/
def ramfsSetup (s : RamfsState) (r : Ramfs) : RamfsState :=
  let s := { s with ramfs := some r.format }
  createText (createText (createText s helloName helloText) kernelName kernelText) readmeName
    readmeText

/-- The rest of `ramfs_init` after the second allocation, for a structure at `p`. -/
def ramfsInitAt (s : RamfsState) (p : Word) : Heap × Option Word → RamfsState × Int
  -- the structure is given back to `kfree`, but the pointer to it stays
  | (heap, none) =>
    ({ s with
        heap := kfree heap (some p)
        ramfs := some (Ramfs.ofBytes heap.bytes p none) }, -1)
  | (heap, some d) =>
    (ramfsSetup { s with heap := heap } (Ramfs.ofBytes heap.bytes p (some d)), 0)

def ramfsInit (s : RamfsState) : RamfsState × Int :=
  match s.ramfs with
  | some _ => (s, 0)
  | none =>
    match kmalloc s.heap sizeofRamfs with
    | (heap, none) => ({ s with heap := heap }, -1)
    | (heap, some p) => ramfsInitAt s p (kmalloc heap ramfsDataSize)

/-- `fs_mount` of `fs/vfs_simple.c` does nothing and returns `1`. -/
def fsMount : Int := 1

def ramfsMount (s : RamfsState) : RamfsState × Int :=
  let init := ramfsInit s
  if init.2 ≠ 0 then (init.1, -1) else (init.1, fsMount)

/-! ## The operations where there is a structure -/

theorem RamfsFile.named_iff {name : CString} {f : RamfsFile} :
    f.named name = true ↔ f.inUse ≠ 0 ∧ CString.ofArray f.name = name := by
  rw [RamfsFile.named, Bool.and_eq_true, beq_iff_eq, strcmp_eq_zero, CString.ofBytes_bytes,
    bne_iff_ne]
  rfl

section

variable {s : RamfsState} {r : Ramfs} (h : s.ramfs = some r)

include h

theorem ramfsCreateFile_eq (name : CString) (data : Option (Nat → Byte)) (size : Word) :
    ramfsCreateFile s (some name) data size =
      if maxFileSize < size.toNat then (s, -1)
      else if (ramfsFindFile r name).isSome then (s, -1)
      else match ramfsFindFreeSlot r with
        | none => (s, -1)
        | some i => (createAt s r i name data size, 0) := by
  simp only [ramfsCreateFile, h]
  split
  · rfl
  · split
    · next hfound => rw [hfound, Option.isSome_some, if_pos rfl]
    · next hfound => rw [hfound, Option.isSome_none, if_neg Bool.false_ne_true]

theorem ramfsRead_eq (inode count offset : Word) :
    ramfsRead s inode true count offset =
      if r.valid inode then
        if (r.file (inode.toNat - 1)).size ≤ offset then (none, 0)
        else
          let bytesToRead := if (r.file (inode.toNat - 1)).size < offset + count
            then (r.file (inode.toNat - 1)).size - offset else count
          (some ⟨s.fileData r + (r.file (inode.toNat - 1)).data + offset, bytesToRead⟩,
            bytesToRead.toInt)
      else (none, -1) := by
  simp only [ramfsRead, h, Bool.true_and]

theorem ramfsWrite_eq (inode : Word) (src : Nat → Byte) (count offset : Word) :
    ramfsWrite s inode (some src) count offset =
      if r.valid inode then
        if maxFileSize ≤ offset.toNat then (s, none, -1)
        else
          let t := writeTransfer s r inode count offset
          ({ s with
              heap := { s.heap with bytes := memcpyTo s.heap.bytes t.addr src t.count.toNat }
              ramfs := some (r.modify (inode.toNat - 1) fun f => f.grow offset t.count) },
            some t, t.count.toInt)
      else (s, none, -1) := by
  simp only [ramfsWrite, h]

end

end MinimalistOS
