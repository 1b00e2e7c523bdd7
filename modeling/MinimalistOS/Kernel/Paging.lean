import MinimalistOS.Infra.Paging
import MinimalistOS.Infra.Run
import MinimalistOS.Kernel.String

/-!
# `kernel/memory.c`: paging

One page directory and one page table, both static. `paging_init` maps the first 4 MiB of physical
memory twice, at `0` and at `0xC0000000`, through the same table, and turns paging on. From then on
the kernel's own accesses to the directory and the table go through the translation: a pointer is a
virtual address, and an access to an address that is not mapped is a page fault, `none` here.
-/

namespace MinimalistOS

open Infra Paging

/-- `PAGE_PRESENT`. -/
def pagePresent : Word := 0x001

/-- `PAGE_WRITE`. -/
def pageWrite : Word := 0x002

/-- Where the linker put `kernel_page_directory` and `kernel_page_table`. Both have
`__attribute__((aligned(PAGE_SIZE)))`; the kernel is linked at `0x8000` and lies below 4 MiB. -/
structure KernelTables where
  directory : Word
  table : Word
  directory_aligned : Aligned directory
  table_aligned : Aligned table
  directory_low : directory.toNat < 2 ^ 22
  table_low : table.toNat < 2 ^ 22
  directory_pos : 0 < directory.toNat
  table_pos : 0 < table.toNat
  directory_ne_table : directory ≠ table

/-! ## `paging_init` -/

/-- `(i * PAGE_SIZE) | PAGE_PRESENT | PAGE_WRITE`. -/
def identityEntry (i : Nat) : Word := BitVec.ofNat 32 (i * 4096) ||| pagePresent ||| pageWrite

/-- The loop that fills the table, from entry `i` on. -/
def fillTable (table : Word) (m : Mem) (i : Nat) : Nat → Mem
  | 0 => m
  | n + 1 =>
    fillTable table (m.write32 (table + 4 * BitVec.ofNat 32 i) (identityEntry i)) (i + 1) n

/-- `(uint32_t)&kernel_page_table | PAGE_PRESENT | PAGE_WRITE`. -/
def KernelTables.directoryEntry (k : KernelTables) : Word := k.table ||| pagePresent ||| pageWrite

/-- `paging_init`, with paging still off: the addresses are physical. -/
def pagingInit (k : KernelTables) (m : Mem) : Mem :=
  let m := memset (memset m k.directory 0 4096) k.table 0 4096
  let m := fillTable k.table m 0 1024
  let m := m.write32 (k.directory + 4 * 0) k.directoryEntry
  m.write32 (k.directory + 4 * 768) k.directoryEntry

/-! ## Mapping -/

/-- The pointer to the page table of an address, read from the directory: its present bit is not
looked at. -/
def pageTableOf (k : KernelTables) (m : Mem) (virtAddr : Word) : Option Word :=
  (load m k.directory (k.directory + 4 * dirIndex virtAddr)).map frame

def mapPage (k : KernelTables) (m : Mem) (virtAddr physAddr flags : Word) : Option Mem :=
  (pageTableOf k m virtAddr).bind fun pageTable =>
    store m k.directory (pageTable + 4 * tableIndex virtAddr) (physAddr ||| flags)

def unmapPage (k : KernelTables) (m : Mem) (virtAddr : Word) : Option Mem :=
  (pageTableOf k m virtAddr).bind fun pageTable =>
    store m k.directory (pageTable + 4 * tableIndex virtAddr) 0

def getPhysAddr (k : KernelTables) (m : Mem) (virtAddr : Word) : Option Word :=
  (pageTableOf k m virtAddr).bind fun pageTable =>
    (load m k.directory (pageTable + 4 * tableIndex virtAddr)).map fun entry =>
      frame entry + offset virtAddr

/-! ## Calls -/

inductive MapCall where
  | map (virtAddr physAddr flags : Word)
  | unmap (virtAddr : Word)
  deriving DecidableEq, Repr

/-- The address that is mapped or unmapped. -/
def MapCall.virtAddr : MapCall → Word
  | .map virtAddr _ _ => virtAddr
  | .unmap virtAddr => virtAddr

def MapCall.apply (k : KernelTables) (m : Mem) : MapCall → Option Mem
  | .map virtAddr physAddr flags => mapPage k m virtAddr physAddr flags
  | .unmap virtAddr => unmapPage k m virtAddr

/-- One call. A fault writes nothing; the answer says whether there was none. -/
def MapCall.exec (k : KernelTables) (m : Mem) (call : MapCall) : Mem × Bool :=
  match call.apply k m with
  | some m' => (m', true)
  | none => (m, false)

end MinimalistOS
