import MinimalistOS.Infra.Bitmap
import MinimalistOS.Kernel.Heap

/-!
# `kernel/memory.c`: physical pages

Physical memory is 1024 pages of 4 KiB. `page_bitmap` has one bit per page, set when the page is
in use, and `used_pages` counts the set bits separately.
-/

namespace MinimalistOS

open Infra

/-- `PAGE_SIZE`. -/
def pageSize : Nat := 4096

/-- `total_pages`, which nothing assigns after its initialisation to `MAX_PAGES`. -/
def totalPages : Nat := 1024

/-- The page allocator's static data. -/
structure PageAllocator where
  pageBitmap : Vector Word 32
  usedPages : Word

/-- `page_bitmap[i / 32] & (1 << (i % 32))`. -/
def pageBit (bitmap : Vector Word 32) (i : Nat) : Word :=
  Bitmap.word bitmap (i / 32) &&& 1#32 <<< (i % 32)

/-- `page_bitmap[i / 32] |= (1 << (i % 32))`. -/
def setPageBit (bitmap : Vector Word 32) (i : Nat) : Vector Word 32 :=
  bitmap.setIfInBounds (i / 32) (Bitmap.word bitmap (i / 32) ||| 1#32 <<< (i % 32))

/-- `page_bitmap[i / 32] &= ~(1 << (i % 32))`. -/
def clearPageBit (bitmap : Vector Word 32) (i : Nat) : Vector Word 32 :=
  bitmap.setIfInBounds (i / 32) (Bitmap.word bitmap (i / 32) &&& ~~~(1#32 <<< (i % 32)))

/-- The loop of `alloc_page` from page `i` on, with the number of pages left to look at. -/
def allocPage.loop (s : PageAllocator) (i : Nat) : Nat → PageAllocator × Word
  | 0 => (s, 0)
  | n + 1 =>
    if pageBit s.pageBitmap i = 0 then
      ({ pageBitmap := setPageBit s.pageBitmap i, usedPages := s.usedPages + 1 },
        BitVec.ofNat 32 (i * pageSize))
    else allocPage.loop s (i + 1) n

def allocPage (s : PageAllocator) : PageAllocator × Word := allocPage.loop s 0 totalPages

def freePage (s : PageAllocator) (pageAddr : Word) : PageAllocator :=
  let pageNum := pageAddr.toNat / pageSize
  if pageNum < totalPages then
    { pageBitmap := clearPageBit s.pageBitmap pageNum, usedPages := s.usedPages - 1 }
  else s

/-- `memory_stats`: each output is written when its pointer is not `NULL`. The argument is what
the output held before. -/
def memoryStats (s : PageAllocator) (total used free : Option Word) :
    Option Word × Option Word × Option Word :=
  (total.map fun _ => BitVec.ofNat 32 totalPages, used.map fun _ => s.usedPages,
    free.map fun _ => BitVec.ofNat 32 totalPages - s.usedPages)

/-! ## Initialisation -/

/-- The loop that marks pages `0 .. n - 1` as used. -/
def markPages (bitmap : Vector Word 32) : Nat → Vector Word 32
  | 0 => bitmap
  | n + 1 => setPageBit (markPages bitmap n) n

/-- The data of `memory.c` that is not paging structures. -/
structure Memory where
  pages : PageAllocator
  heap : Heap

/-- `memory_init`: the first 1 MiB is marked used, and the heap is reset. -/
def memoryInit (m : Memory) : Memory :=
  { pages := { pageBitmap := markPages (Vector.replicate 32 0) 256, usedPages := 256 }
    heap := heapInit m.heap }

/-! ## Calls -/

inductive PageCall where
  | allocPage
  | freePage (pageAddr : Word)
  deriving DecidableEq, Repr

/-- One call. The answer is the returned address, `none` for the `void` of `free_page`. -/
def PageAllocator.step (s : PageAllocator) : PageCall → PageAllocator × Option Word
  | .allocPage => ((allocPage s).1, some (allocPage s).2)
  | .freePage pageAddr => (freePage s pageAddr, none)

end MinimalistOS
