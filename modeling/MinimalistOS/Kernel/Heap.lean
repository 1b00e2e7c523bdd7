import MinimalistOS.Infra.Run
import MinimalistOS.Kernel.String

/-!
# `kernel/memory.c`: the kernel heap

A bump allocator over a static array. Three entry points move one position with different
rounding rules: `kmalloc` rounds the size up to 4, `kmalloc_aligned` rounds the position up and
leaves the size alone, `kcalloc` multiplies and goes through `kmalloc`.

A pointer into the heap is its offset from `&heap[0]`; `none` is `NULL`. All sums are 32-bit sums,
the ones in the bound checks included.
-/

namespace MinimalistOS

open Infra

/-- `HEAP_SIZE`. -/
def heapSize : Nat := 0x8000

/-- The heap: `heap_pos`, and memory addressed by the offset from `&heap[0]`. -/
structure Heap where
  pos : Word
  bytes : Mem

/-- The heap as the loader leaves it in `.bss`. -/
def bootHeap : Heap := { pos := 0, bytes := fun _ => 0 }

def heapInit (h : Heap) : Heap := { h with pos := 0 }

def kmalloc (h : Heap) (size : Word) : Heap × Option Word :=
  if (h.pos + size).toNat > heapSize then (h, none)
  else ({ h with pos := h.pos + ((size + 3) &&& ~~~3) }, some h.pos)

/-- `kfree` does nothing. -/
def kfree (h : Heap) (_ptr : Option Word) : Heap := h

def kmallocAligned (h : Heap) (size alignment : Word) : Heap × Option Word :=
  let alignedPos := (h.pos + alignment - 1) &&& ~~~(alignment - 1)
  if (alignedPos + size).toNat > heapSize then (h, none)
  else ({ h with pos := alignedPos + size }, some alignedPos)

def kcalloc (h : Heap) (num size : Word) : Heap × Option Word :=
  let totalSize := num * size
  match kmalloc h totalSize with
  | (h', some ptr) => ({ h' with bytes := memset h'.bytes ptr 0 totalSize.toNat }, some ptr)
  | (h', none) => (h', none)

/-- `heap_stats`: each output is written when its pointer is not `NULL`. The argument is what the
output held before. -/
def heapStats (h : Heap) (totalHeap usedHeap : Option Word) : Option Word × Option Word :=
  (totalHeap.map fun _ => BitVec.ofNat 32 heapSize, usedHeap.map fun _ => h.pos)

/-! ## Calls -/

/-- A call of the allocator's interface. -/
inductive HeapCall where
  | kmalloc (size : Word)
  | kmallocAligned (size alignment : Word)
  | kcalloc (num size : Word)
  | kfree (ptr : Option Word)
  deriving DecidableEq, Repr

namespace HeapCall

/-- The effect of a call and the pointer it returns. -/
def exec (h : Heap) : HeapCall → Heap × Option Word
  | .kmalloc size => MinimalistOS.kmalloc h size
  | .kmallocAligned size alignment => MinimalistOS.kmallocAligned h size alignment
  | .kcalloc num size => MinimalistOS.kcalloc h num size
  | .kfree ptr => (MinimalistOS.kfree h ptr, none)

/-- How many bytes the caller of a successful call may use. For `kcalloc` the product is the
32-bit one. -/
def request : HeapCall → Word
  | .kmalloc size => size
  | .kmallocAligned size _ => size
  | .kcalloc num size => num * size
  | .kfree _ => 0

/-- The alignment, where there is one, is a power of two. -/
def PowerOfTwo : HeapCall → Prop
  | .kmallocAligned _ alignment => ∃ k < 32, alignment = BitVec.twoPow 32 k
  | _ => True

end HeapCall

/-! ## Blocks -/

/-- A block handed out: the bytes `[off, off + size)` of the heap. -/
structure Block where
  off : Word
  size : Word
  deriving DecidableEq, Repr

namespace Block

/-- First offset after the block. -/
def stop (b : Block) : Nat := b.off.toNat + b.size.toNat

/-- The block lies inside the heap array. -/
def Inside (b : Block) : Prop := b.stop ≤ heapSize

/-- No byte belongs to both blocks. -/
def Disjoint (a b : Block) : Prop :=
  ∀ x, ¬ ((a.off.toNat ≤ x ∧ x < a.stop) ∧ (b.off.toNat ≤ x ∧ x < b.stop))

instance (b : Block) : Decidable b.Inside := inferInstanceAs (Decidable (_ ≤ _))

end Block

/-- A run of the allocator: the heap and the blocks returned so far, the newest first. -/
structure HeapRun where
  heap : Heap
  blocks : List Block

/-- One call. The block is recorded when the returned pointer is not `NULL`. -/
def HeapRun.step (r : HeapRun) (c : HeapCall) : HeapRun × Option Word :=
  let res := c.exec r.heap
  ({ heap := res.1, blocks := (res.2.map fun p => ⟨p, c.request⟩).toList ++ r.blocks }, res.2)

/-- The run that starts after `heap_init`. -/
def HeapRun.init (h : Heap) : HeapRun := { heap := heapInit h, blocks := [] }

end MinimalistOS
