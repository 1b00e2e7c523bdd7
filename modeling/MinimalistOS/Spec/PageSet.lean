import Mathlib.Order.Bounds.Basic
import MinimalistOS.Kernel.Page

/-!
# What the page allocator is for

A set of free page numbers. Allocation takes the least free page and returns its address, or
returns `0` when nothing is free; freeing puts a page back. Nothing here mentions words or bits.
-/

namespace MinimalistOS.PageSet

open Infra

/-- Allocation from a set of free pages. -/
def Alloc (free free' : Set Nat) (addr : Word) : Prop :=
  (∃ n, IsLeast free n ∧ free' = free \ {n} ∧ addr.toNat = pageSize * n) ∨
    (free = ∅ ∧ free' = ∅ ∧ addr = 0)

/-- Freeing the page an address lies in. -/
def Free (free free' : Set Nat) (addr : Word) : Prop :=
  (addr.toNat / pageSize < totalPages ∧ free' = insert (addr.toNat / pageSize) free) ∨
    (totalPages ≤ addr.toNat / pageSize ∧ free' = free)

/-- The abstraction of the bitmap: the pages whose bit is clear. -/
def freePages (s : PageAllocator) : Set Nat :=
  {n | n < totalPages ∧ Bitmap.mem s.pageBitmap n = false}

end MinimalistOS.PageSet
