import MinimalistOS.Kernel.Process
import MinimalistOS.Kernel.Vfs

/-!
# `kernel/program_loader.c`: programs from files

Programs are loaded into one static array, `program_memory`, from which blocks are handed out in
order. A pointer into it is its offset from `&program_memory[0]` and `none` is `NULL`; memory is
read and written by that offset, so that an access outside the array is one at another offset.

What a load does to memory is written down as it happens: the blocks it was given, the entries it
read of its header table, and the bytes it wrote.
-/

namespace MinimalistOS

open Infra

/-- `MAX_PROGRAM_SIZE`. -/
def maxProgramSize : Nat := 1024 * 1024

/-! ## The file format -/

/-- The two bytes at `k`, little end first. -/
def le16 (b : Nat → Byte) (k : Nat) : BitVec 16 := b (k + 1) ++ b k

/-- The four bytes at `k`, little end first. -/
def le32 (b : Nat → Byte) (k : Nat) : Word := b (k + 3) ++ b (k + 2) ++ b (k + 1) ++ b k

/-- The fields of `elf32_header_t` that are looked at. -/
structure ElfHeader where
  magic : Word
  class' : Byte
  data : Byte
  type : BitVec 16
  machine : BitVec 16
  entry : Word
  phoff : Word
  phentsize : BitVec 16
  phnum : BitVec 16
  deriving DecidableEq, Repr

/-- `sizeof(elf32_header_t)`. -/
def sizeofHeader : Word := 52

def ElfHeader.ofBytes (b : Nat → Byte) : ElfHeader where
  magic := le32 b 0
  class' := b 4
  data := b 5
  type := le16 b 16
  machine := le16 b 18
  entry := le32 b 24
  phoff := le32 b 28
  phentsize := le16 b 42
  phnum := le16 b 44

/-- The fields of `elf32_phdr_t` that are looked at. -/
structure Phdr where
  type : Word
  offset : Word
  vaddr : Word
  filesz : Word
  memsz : Word
  deriving DecidableEq, Repr

/-- `sizeof(elf32_phdr_t)`. -/
def sizeofPhdr : Nat := 32

def Phdr.ofBytes (b : Nat → Byte) : Phdr where
  type := le32 b 0
  offset := le32 b 4
  vaddr := le32 b 8
  filesz := le32 b 16
  memsz := le32 b 20

/-- `PT_LOAD`. -/
def ptLoad : Word := 1

def programValidateElf (header : ElfHeader) : Int :=
  if header.magic ≠ 0x464C457F then -1
  else if header.class' ≠ 1 then -1
  else if header.data ≠ 1 then -1
  else if header.type ≠ 2 then -1
  else if header.machine ≠ 3 then -1
  else 0

/-! ## The memory for programs -/

/-- The static data of `program_loader.c` and of what it calls. `base` is the address the linker
gave `program_memory`. -/
structure LoaderState where
  base : Word
  mem : Mem
  used : Word
  fds : Descriptors
  processes : ProcessTable

/-- A block of `program_memory`. -/
structure Region where
  start : Word
  size : Word
  deriving DecidableEq, Repr

/-- What a load does to memory. -/
inductive Access where
  /-- `program_alloc_memory` returned a block. -/
  | alloc (block : Region)
  /-- `n` bytes are written from `p` on, for the header table. -/
  | table (p : Word) (n : Nat)
  /-- `phdrs[i]` is read, with the header table in `block`. -/
  | phdr (block : Region) (i : Nat)
  /-- `n` bytes are written from `p` on, for the segment in `block`. -/
  | segment (block : Region) (p : Word) (n : Nat)
  deriving DecidableEq, Repr

def programLoaderInit (s : LoaderState) : LoaderState := { s with used := 0 }

def programAllocMemory (s : LoaderState) (size alignment : Word) : LoaderState × Option Word :=
  let alignedAddr := (s.used + alignment - 1) &&& ~~~(alignment - 1)
  if maxProgramSize < (alignedAddr + size).toNat then (s, none)
  else ({ s with used := alignedAddr + size }, some alignedAddr)

def programFreeMemory (s : LoaderState) (ptr size : Word) : LoaderState :=
  if ptr + size = s.used then { s with used := s.used - size } else s

/-! ## Loading -/

/-- `program_info_t`. -/
structure ProgramInfo where
  entryPoint : Word
  baseAddress : Word
  size : Word
  stackSize : Word
  isLoaded : Byte
  deriving DecidableEq, Repr, Inhabited

/-- The update of base address and size for a segment. -/
def ProgramInfo.cover (info : ProgramInfo) (vaddr memsz : Word) : ProgramInfo :=
  let info := if vaddr < info.baseAddress then { info with baseAddress := vaddr } else info
  if info.baseAddress + info.size < vaddr + memsz then
    { info with size := vaddr + memsz - info.baseAddress }
  else info

/-- `fs_seek` and `fs_read` into `program_memory`: how many bytes were copied, and the answer. -/
def LoaderState.seekRead (s : LoaderState) (file : File) (fd : Int) (offset dest count : Word) :
    LoaderState × Nat × Int :=
  let (fds, bytes, n, ret) := fsRead file (fsSeek s.fds fd offset).1 fd count
  ({ s with fds := fds, mem := memcpyTo s.mem dest bytes n.toNat }, n.toNat, ret)

/-- What a part of `program_load` leaves: the state, what `prog_info` points at, what it did to
memory, and whether it went on to its end. -/
structure Loading where
  state : LoaderState
  info : ProgramInfo
  log : List Access
  ok : Bool

/-- The reading of segment data, `if (filesz > 0)`, at `dest` in `block`. -/
def readSegment (s : LoaderState) (file : File) (fd : Int) (block : Region) (dest : Word)
    (p : Phdr) : LoaderState × List Access × Bool :=
  if 0 < p.filesz.toNat then
    let (s, n, ret) := s.seekRead file fd p.offset dest p.filesz
    (s, [.segment block dest n], BitVec.ofInt 32 ret = p.filesz)
  else (s, [], true)

/-- The zeroing of the BSS, `if (memsz > filesz)`. -/
def zeroBss (s : LoaderState) (block : Region) (dest : Word) (p : Phdr) :
    LoaderState × List Access :=
  if p.filesz.toNat < p.memsz.toNat then
    let n := (p.memsz - p.filesz).toNat
    ({ s with mem := memset s.mem (dest + p.filesz) 0 n }, [.segment block (dest + p.filesz) n])
  else (s, [])

/-- The body of the loop for a `PT_LOAD` header. -/
def loadSegment (s : LoaderState) (file : File) (fd : Int) (info : ProgramInfo) (p : Phdr) :
    Loading :=
  let info := info.cover p.vaddr p.memsz
  match programAllocMemory s (p.vaddr + p.memsz) 4096 with
  | (s, none) => ⟨s, info, [], false⟩
  | (s, some ptr) =>
    let block : Region := ⟨ptr, p.vaddr + p.memsz⟩
    let (s, log, ok) := readSegment s file fd block (ptr + p.vaddr) p
    if ok then
      let (s, zeroed) := zeroBss s block (ptr + p.vaddr) p
      ⟨s, info, .alloc block :: log ++ zeroed, true⟩
    else ⟨s, info, .alloc block :: log, false⟩

/-- `phdrs[i]`: the stride is the size of the structure. -/
def phdrAt (m : Mem) (phdrs : Word) (i : Nat) : Phdr :=
  Phdr.ofBytes fun k => m (phdrs + BitVec.ofNat 32 (sizeofPhdr * i + k))

/-- The loop over the header table from entry `i` on, with the number of entries left. -/
def loadSegments (s : LoaderState) (file : File) (fd : Int) (info : ProgramInfo) (table : Region)
    (i : Nat) : Nat → Loading
  | 0 => ⟨s, info, [], true⟩
  | n + 1 =>
    let p := phdrAt s.mem table.start i
    if p.type = ptLoad then
      let segment := loadSegment s file fd info p
      if segment.ok then
        let rest := loadSegments segment.state file fd segment.info table (i + 1) n
        { rest with log := .phdr table i :: segment.log ++ rest.log }
      else { segment with log := .phdr table i :: segment.log }
    else
      let rest := loadSegments s file fd info table (i + 1) n
      { rest with log := .phdr table i :: rest.log }

/-- `header.e_phentsize * header.e_phnum`. -/
def ElfHeader.phSize (header : ElfHeader) : Word :=
  header.phentsize.setWidth 32 * header.phnum.setWidth 32

/-- `fs_close(fd)`. -/
def LoaderState.close (s : LoaderState) (fd : Int) : LoaderState :=
  { s with fds := (fsClose s.fds fd).1 }

/-- The end of `program_load`: every way out of the loop gives the header table back and closes the
file. -/
def finishLoad (fd : Int) (table : Region) (log : List Access) (body : Loading) : Loading where
  state := (programFreeMemory body.state table.start table.size).close fd
  info := if body.ok then { body.info with isLoaded := 1 } else body.info
  log := log ++ body.log
  ok := body.ok

/-- `program_load` from the allocation of the header table on. -/
def loadTable (s : LoaderState) (file : File) (fd : Int) (header : ElfHeader)
    (info : ProgramInfo) : Loading :=
  match programAllocMemory s header.phSize 4 with
  | (s, none) => ⟨s.close fd, info, [], false⟩
  | (s, some phdrs) =>
    let table : Region := ⟨phdrs, header.phSize⟩
    let (s, n, ret) := s.seekRead file fd header.phoff phdrs header.phSize
    let log := [.alloc table, .table phdrs n]
    if ret < 0 ∨ BitVec.ofInt 32 ret ≠ header.phSize then
      ⟨(programFreeMemory s phdrs header.phSize).close fd, info, log, false⟩
    else
      let info : ProgramInfo :=
        { entryPoint := header.entry, baseAddress := 0xFFFFFFFF, size := 0, stackSize := 8192
          isLoaded := 0 }
      finishLoad fd table log (loadSegments s file fd info table 0 header.phnum.toNat)

/-- `program_load` for a file that has been opened. -/
def loadOpened (s : LoaderState) (file : File) (fd : Int) (info : ProgramInfo) : Loading :=
  let (fds, bytes, _, ret) := fsRead file (fsSeek s.fds fd 0).1 fd sizeofHeader
  let s := { s with fds := fds }
  if BitVec.ofInt 32 ret ≠ sizeofHeader then ⟨s.close fd, info, [], false⟩
  else
    let header := ElfHeader.ofBytes bytes
    if programValidateElf header ≠ 0 then ⟨s.close fd, info, [], false⟩
    else loadTable s file fd header info

/-- `program_load`: `ok` is whether it returns `0` or `-1`. A path stands for the file that is read
through it, and `none` for a null pointer. -/
def programLoad (s : LoaderState) (file : Option File) (info : ProgramInfo) : Loading :=
  match file with
  | none => ⟨s, info, [], false⟩
  | some file =>
    let (fds, fd) := fsOpen s.fds
    if fd < 0 then ⟨{ s with fds := fds }, info, [], false⟩
    else loadOpened { s with fds := fds } file fd info

/-! ## Executing -/

/-- `"user_program"`. -/
def userProgram : List Byte :=
  [0x75, 0x73, 0x65, 0x72, 0x5F, 0x70, 0x72, 0x6F, 0x67, 0x72, 0x61, 0x6D]

/-- `program_execute_from_info`, with the block it takes for the stack. -/
def programExecuteFromInfo (s : LoaderState) (info : ProgramInfo) :
    LoaderState × List Access × Int :=
  if info.isLoaded = 0 then (s, [], -1)
  else
    match programAllocMemory s info.stackSize 4 with
    | (s, none) => (s, [], -1)
    | (s, some stack) =>
      let (processes, pid) := processCreate s.processes userProgram info.entryPoint
      let s := { s with processes := processes }
      let log := [.alloc ⟨stack, info.stackSize⟩]
      if pid < 0 then (programFreeMemory s stack info.stackSize, log, -1) else (s, log, pid)

def programCleanup (s : LoaderState) (info : ProgramInfo) : LoaderState :=
  if info.isLoaded ≠ 0 then { s with used := 0 } else s

/-- `program_execute`. The `prog_info` of the source is not initialised; it is filled in by every
load that succeeds. -/
def programExecute (s : LoaderState) (file : Option File) : LoaderState × List Access × Int :=
  let loaded := programLoad s file default
  if loaded.ok then
    let (s, log, pid) := programExecuteFromInfo loaded.state loaded.info
    (programCleanup s loaded.info, loaded.log ++ log, pid)
  else (loaded.state, loaded.log, -1)

end MinimalistOS
