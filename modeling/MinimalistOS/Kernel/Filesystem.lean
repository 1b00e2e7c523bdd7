import MinimalistOS.Infra.Bitmap
import MinimalistOS.Kernel.String

/-!
# `fs/filesystem_enhanced.c`: the block file system

One megabyte of data in blocks of 512 bytes, a bitmap with a bit per block, and a table of
sixty-four file entries. A descriptor is a position in the table.

`fs.data` is memory with its first byte at address `0`, and `fs.files` a function of the index, so
that an index or a copy beside the array is one to what lies there. What lies there is not said: a
copy past the end of `fs.data` really goes over the bitmap and the table. Each call is modelled
together with the accesses it makes, and the results about whole runs are about runs whose
accesses stay inside.
-/

namespace MinimalistOS

open Infra

/-- `BLOCK_SIZE`. -/
def blockSize : Word := 512

/-- `FS_SIZE`. -/
def fsSize : Nat := 1024 * 1024

/-- `MAX_FILES` of `filesystem.h`. -/
def fsMaxFiles : Nat := 64

/-- `FILE_CREATE`. -/
def fileCreate : Word := 0x08

/-- `FILE_TYPE_REGULAR`. -/
def fileTypeRegular : Byte := 1

/-- `FILE_TYPE_DIR`. -/
def fileTypeDir : Byte := 2

/-- `file_entry_t`. -/
structure FileEntry where
  filename : Vector Byte 256
  size : Word
  startBlock : Word
  type : Byte
  flags : Byte
  creationTime : Word
  modifyTime : Word
  deriving DecidableEq

/-- An entry of zeros. -/
def FileEntry.zero : FileEntry := ⟨Vector.replicate 256 0, 0, 0, 0, 0, 0, 0⟩

/-- What `fs_create` writes into an entry. -/
def FileEntry.fill (file : FileEntry) (filename : CString) (type : Byte) (startBlock : Word) :
    FileEntry where
  filename := (strncpy file.filename filename.bytes 255).setIfInBounds 255 0
  size := 0
  startBlock := startBlock
  type := type
  flags := 0
  creationTime := 0
  modifyTime := 0

/-- The blocks that so many bytes take: `(size + BLOCK_SIZE - 1) / BLOCK_SIZE`. -/
def blocksFor (size : Word) : Word := (size + blockSize - 1) / blockSize

/-- The blocks that `fs_write` allocates before it copies. -/
def FileEntry.newBlocks (file : FileEntry) (count : Word) : Nat :=
  (blocksFor (file.size + count)).toNat - (blocksFor file.size).toNat

/-- `filesystem_t`, but for `next_block`, which nothing uses. -/
structure Filesystem where
  data : Mem
  bitmap : Vector Word 64
  files : Int → FileEntry
  fileCount : Word

namespace Filesystem

/-! ## Blocks -/

/-- The inner loop of `alloc_block`, over `n` bits from bit `j` on. -/
def freeBit (word : Word) (j : Nat) : Nat → Option Nat
  | 0 => none
  | n + 1 => if word &&& 1#32 <<< j = 0 then some j else freeBit word (j + 1) n

/-- The outer loop, over `n` words from word `i` on: the block where it stops. -/
def findFreeBlock (bitmap : Vector Word 64) (i : Nat) : Nat → Option Nat
  | 0 => none
  | n + 1 =>
    if Bitmap.word bitmap i ≠ 0xFFFFFFFF then
      match freeBit (Bitmap.word bitmap i) 0 32 with
      | some j => some (i * 32 + j)
      | none => findFreeBlock bitmap (i + 1) n
    else findFreeBlock bitmap (i + 1) n

/-- `alloc_block`: the bitmap after it, and the block; `0` when there is none. -/
def allocBlock (bitmap : Vector Word 64) : Vector Word 64 × Word :=
  match findFreeBlock bitmap 0 64 with
  | some block => (Bitmap.insert bitmap block, BitVec.ofNat 32 block)
  | none => (bitmap, 0)

/-- `free_block`. -/
def freeBlock (bitmap : Vector Word 64) (block : Word) : Vector Word 64 :=
  if block.toNat / 32 < 64 then Bitmap.erase bitmap block.toNat else bitmap

/-- The loop of `fs_write` that allocates `n` blocks, and whether it got them all. -/
def allocBlocks (bitmap : Vector Word 64) : Nat → Vector Word 64 × Bool
  | 0 => (bitmap, true)
  | n + 1 =>
    let allocated := allocBlock bitmap
    if allocated.2 = 0 then (allocated.1, false) else allocBlocks allocated.1 n

/-- The loop of `fs_delete` that frees `n` blocks, from `block` on. -/
def freeBlocks (bitmap : Vector Word 64) (block : Word) : Nat → Vector Word 64
  | 0 => bitmap
  | n + 1 => freeBlocks (freeBlock bitmap block) (block + 1) n

/-! ## The table -/

/-- `find_file`, as an index. -/
def findFile (fs : Filesystem) (filename : CString) : Option Nat :=
  (List.range fs.fileCount.toNat).find? fun i =>
    strcmp (fs.files i).filename.toList filename.bytes == 0

def fsCreate (fs : Filesystem) (filename : CString) (type : Byte) : Filesystem × Int :=
  if fsMaxFiles ≤ fs.fileCount.toNat then (fs, -1)
  else if (findFile fs filename).isSome then (fs, -1)
  else
    let allocated := allocBlock fs.bitmap
    let index : Int := fs.fileCount.toNat
    let fs := { fs with
      bitmap := allocated.1
      files := Function.update fs.files index ((fs.files index).fill filename type allocated.2) }
    -- the entry is written, but the table does not grow
    if allocated.2 = 0 then (fs, -1)
    else
      let fs := { fs with fileCount := fs.fileCount + 1 }
      (fs, (fs.fileCount - 1).toInt)

/-- The loop of `fs_delete` that moves `n` entries down, from index `i` on. -/
def shiftDown (files : Int → FileEntry) (i : Nat) : Nat → Int → FileEntry
  | 0 => files
  | n + 1 => shiftDown (Function.update files i (files (i + 1))) (i + 1) n

def fsDelete (fs : Filesystem) (filename : CString) : Filesystem × Int :=
  match findFile fs filename with
  | none => (fs, -1)
  | some index =>
    let file := fs.files index
    ({ fs with
        bitmap := freeBlocks fs.bitmap file.startBlock (blocksFor file.size).toNat
        files := shiftDown fs.files index ((fs.fileCount - 1).toNat - index)
        fileCount := fs.fileCount - 1 }, 0)

def fsOpen (fs : Filesystem) (filename : CString) (mode : Word) : Filesystem × Int :=
  match findFile fs filename with
  | some index => (fs, index)
  | none =>
    if mode &&& fileCreate ≠ 0 then
      let created := fsCreate fs filename fileTypeRegular
      if created.2 < 0 then (created.1, -1) else created
    else (fs, -1)

/-- `fs_close` does nothing. -/
def fsClose (_fd : Int) : Int := 0

/-! ## Reading and writing -/

/-- What a call uses: an entry of the table, or bytes of `fs.data`. -/
inductive FsAccess where
  | entry (fd : Int)
  | bytes (first count : Word)
  deriving DecidableEq, Repr

/-- `fd >= (int)fs.file_count`. -/
def invalid (fs : Filesystem) (fd : Int) : Bool := fs.fileCount.toInt ≤ fd

/-- `fs_read`: the accesses, the bytes that are in the buffer after it, and the answer. -/
def fsRead (fs : Filesystem) (fd : Int) (count : Word) : List FsAccess × List Byte × Int :=
  if fs.invalid fd then ([], [], -1)
  else
    let file := fs.files fd
    let bytesToRead := if file.size < count then file.size else count
    let fileData := file.startBlock * blockSize
    ([.entry fd, .bytes fileData bytesToRead],
      (List.range bytesToRead.toNat).map fun k => fs.data (fileData + BitVec.ofNat 32 k),
      bytesToRead.toInt)

/-- `fs_write`: the file system after it, the accesses and the answer. -/
def fsWrite (fs : Filesystem) (fd : Int) (buffer : Nat → Byte) (count : Word) :
    Filesystem × List FsAccess × Int :=
  if fs.invalid fd then (fs, [], -1)
  else
    let file := fs.files fd
    let allocated := allocBlocks fs.bitmap (file.newBlocks count)
    let fs := { fs with bitmap := allocated.1 }
    -- the blocks that were allocated before space ran out stay allocated
    if !allocated.2 then (fs, [.entry fd], -1)
    else
      let fileData := file.startBlock * blockSize + file.size
      ({ fs with
          data := memcpyTo fs.data fileData buffer count.toNat
          files := Function.update fs.files fd
            { file with size := file.size + count, modifyTime := 0 } },
        [.entry fd, .bytes fileData count], count.toInt)

def fsSeek (fs : Filesystem) (fd : Int) (position : Word) : Int :=
  if fs.invalid fd then -1
  else if (fs.files fd).size < position then -1
  else position.toInt

/-! ## Initialisation -/

/-- `"/"`. -/
def rootName : CString := ⟨[0x2F], by simp⟩

/-- `"test.txt"`. -/
def testName : CString := ⟨[0x74, 0x65, 0x73, 0x74, 0x2E, 0x74, 0x78, 0x74], by simp⟩

/-- `"welcome.txt"`. -/
def welcomeName : CString :=
  ⟨[0x77, 0x65, 0x6C, 0x63, 0x6F, 0x6D, 0x65, 0x2E, 0x74, 0x78, 0x74], by simp⟩

/-- `"Hello, File System!\nThis is a test file.\n"`. -/
def testText : List Byte :=
  [0x48, 0x65, 0x6C, 0x6C, 0x6F, 0x2C, 0x20, 0x46, 0x69, 0x6C, 0x65, 0x20, 0x53, 0x79, 0x73,
    0x74, 0x65, 0x6D, 0x21, 0x0A, 0x54, 0x68, 0x69, 0x73, 0x20, 0x69, 0x73, 0x20, 0x61, 0x20,
    0x74, 0x65, 0x73, 0x74, 0x20, 0x66, 0x69, 0x6C, 0x65, 0x2E, 0x0A]

/-- `"Welcome to the OS File System!\n"`. -/
def welcomeText : List Byte :=
  [0x57, 0x65, 0x6C, 0x63, 0x6F, 0x6D, 0x65, 0x20, 0x74, 0x6F, 0x20, 0x74, 0x68, 0x65, 0x20,
    0x4F, 0x53, 0x20, 0x46, 0x69, 0x6C, 0x65, 0x20, 0x53, 0x79, 0x73, 0x74, 0x65, 0x6D, 0x21,
    0x0A]

/-- The `memset` of `fs_init`, and the four blocks that are marked as used. -/
def fsClear (fs : Filesystem) : Filesystem where
  data a := if a.toNat < fsSize then 0 else fs.data a
  bitmap := (Vector.replicate 64 0).setIfInBounds 0 0x0000000F
  files i := if 0 ≤ i ∧ i < fsMaxFiles then .zero else fs.files i
  fileCount := 0

/-- A file of `fs_init`, with its text. -/
def createWith (fs : Filesystem) (filename : CString) (text : List Byte) : Filesystem :=
  let created := fsCreate fs filename fileTypeRegular
  if 0 ≤ created.2 then
    (fsWrite created.1 created.2 (fun k => text.getD k 0) (BitVec.ofNat 32 text.length)).1
  else created.1

def fsInit (fs : Filesystem) : Filesystem :=
  let fs := (fsCreate (fsClear fs) rootName fileTypeDir).1
  createWith (createWith fs testName testText) welcomeName welcomeText

/-! ## Calls -/

inductive FsCall where
  | create (filename : CString) (type : Byte)
  | delete (filename : CString)
  | open' (filename : CString) (mode : Word)
  | close (fd : Int)
  | read (fd : Int) (count : Word)
  | write (fd : Int) (buffer : Nat → Byte) (count : Word)
  | seek (fd : Int) (position : Word)

/-- What a call touches, what it leaves in the buffer, and what it returns. -/
structure FsAnswer where
  touched : List FsAccess
  bytes : List Byte
  ret : Int
  deriving DecidableEq, Repr

/-- One call. Only `fs_read` and `fs_write` say what they touch. -/
def step (fs : Filesystem) : FsCall → Filesystem × FsAnswer
  | .create filename type =>
    ((fsCreate fs filename type).1, ⟨[], [], (fsCreate fs filename type).2⟩)
  | .delete filename => ((fsDelete fs filename).1, ⟨[], [], (fsDelete fs filename).2⟩)
  | .open' filename mode => ((fsOpen fs filename mode).1, ⟨[], [], (fsOpen fs filename mode).2⟩)
  | .close fd => (fs, ⟨[], [], fsClose fd⟩)
  | .read fd count =>
    (fs, ⟨(fsRead fs fd count).1, (fsRead fs fd count).2.1, (fsRead fs fd count).2.2⟩)
  | .write fd buffer count =>
    ((fsWrite fs fd buffer count).1,
      ⟨(fsWrite fs fd buffer count).2.1, [], (fsWrite fs fd buffer count).2.2⟩)
  | .seek fd position => (fs, ⟨[], [], fsSeek fs fd position⟩)

end Filesystem

end MinimalistOS
