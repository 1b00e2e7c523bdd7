import MinimalistOS.Properties.Page

/-!
# The first megabyte

`memory_init` marks the pages below 1 MiB as used, and that is all there is to protect them: nothing
keeps `free_page` from clearing their bits again.

* `allocSound_iff` — one call keeps its promise exactly when these pages are all in use
* `reserved_never_allocated_iff` — in a run, when no page of them has been freed before
-/

namespace MinimalistOS

open Infra PageSet

/-- The number of pages that `memory_init` marks as used. -/
def reservedPages : Nat := 256

/-- What `alloc_page` promises: a page above the first megabyte, or `0` because none is free, and
then nothing changes. -/
def AllocSound (s : PageAllocator) : PageCall → Prop
  | .allocPage =>
    ((allocPage s).2 ≠ 0 → 0x100000 ≤ (allocPage s).2.toNat) ∧
    ((allocPage s).2 = 0 → freePages s = ∅ ∧ (allocPage s).1 = s)
  | .freePage _ => True

/-- An address in the first megabyte is freed. -/
def PageCall.FreesReserved : PageCall → Prop
  | .allocPage => False
  | .freePage pageAddr => pageAddr.toNat < 0x100000

/-- No page of the first megabyte is free. -/
def Reserved (s : PageAllocator) : Prop := ∀ n ∈ freePages s, reservedPages ≤ n

theorem reserved_memoryInit (m : Memory) : Reserved (memoryInit m).pages := by
  rintro n ⟨-, hfree⟩
  rw [mem_memoryInit, decide_eq_false_iff_not, Nat.not_lt] at hfree
  exact hfree

/-! ## One call -/

theorem freesReserved_iff (addr : Word) :
    (PageCall.freePage addr).FreesReserved ↔ addr.toNat / pageSize < reservedPages := by
  unfold PageCall.FreesReserved pageSize reservedPages
  omega

theorem reserved_step {s : PageAllocator} {call : PageCall} (h : Reserved s)
    (hcall : ¬ call.FreesReserved) : Reserved (s.step call).1 := by
  intro n hn
  by_contra hlt
  refine notMem_freePages_step (fun hfree => hlt (h n hfree)) ?_ hn
  rintro ⟨addr, rfl, rfl⟩
  exact hcall ((freesReserved_iff addr).mpr (Nat.not_le.mp hlt))

/-- A reserved page that is freed is free. -/
theorem not_reserved_step {s : PageAllocator} {call : PageCall} (hcall : call.FreesReserved) :
    ¬ Reserved (s.step call).1 := by
  cases call with
  | allocPage => exact hcall.elim
  | freePage addr =>
    have hlow := (freesReserved_iff addr).mp hcall
    intro hreserved
    have hfree : addr.toNat / pageSize ∈ freePages (freePage s addr) := by
      rcases (freePage_spec s addr).1 with ⟨-, heq⟩ | ⟨hout, -⟩
      · rw [heq]
        exact Set.mem_insert _ _
      · unfold totalPages reservedPages at *
        omega
    exact Nat.not_le.mpr hlow (hreserved _ hfree)

/-- A reserved page that is free stays free until a page is allocated. -/
theorem not_reserved_free {s : PageAllocator} (h : ¬ Reserved s) (addr : Word) :
    ¬ Reserved (s.step (.freePage addr)).1 := by
  refine fun hreserved => h fun n hn => hreserved n ?_
  show n ∈ freePages (freePage s addr)
  rcases (freePage_spec s addr).1 with ⟨-, heq⟩ | ⟨-, heq⟩
  · rw [heq]
    exact Set.mem_insert_of_mem _ hn
  · rw [heq]
    exact hn

/-- **One allocation** keeps its promise exactly when no reserved page is free: it takes the least
page there is. -/
theorem allocSound_iff (s : PageAllocator) : AllocSound s .allocPage ↔ Reserved s := by
  rcases allocPage_cases s with ⟨k, hleast, heq⟩ | ⟨hempty, heq⟩
  · have hk := hleast.1.1
    have haddr := toNat_pageAddr hk
    have hzero : BitVec.ofNat 32 (k * pageSize) = 0 ↔ k = 0 := by
      rw [← BitVec.toNat_inj, haddr]
      unfold pageSize
      show 4096 * k = 0 ↔ k = 0
      omega
    have hreserved : Reserved s ↔ reservedPages ≤ k :=
      ⟨fun h => h k hleast.1, fun hle n hn => hle.trans (hleast.2 hn)⟩
    have hsome : freePages s ≠ ∅ := Set.nonempty_iff_ne_empty.mp ⟨k, hleast.1⟩
    rw [hreserved]
    simp only [AllocSound, heq, haddr, ne_eq, hzero, hsome, false_and, imp_false]
    unfold pageSize reservedPages
    constructor
    · rintro ⟨hlow, hne⟩
      have := hlow hne
      omega
    · intro hle
      exact ⟨fun _ => by omega, by omega⟩
  · have hreserved : Reserved s := fun n hn => absurd hn (hempty ▸ Set.notMem_empty n)
    simp [AllocSound, heq, hempty, hreserved]

/-! ## Runs -/

/-- Once a reserved page is free, the next allocation breaks the promise. -/
theorem along_of_not_reserved (calls : List PageCall) : ∀ {s : PageAllocator}, ¬ Reserved s →
    (Along PageAllocator.step AllocSound s calls ↔ PageCall.allocPage ∉ calls) := by
  induction calls with
  | nil => exact fun _ => iff_of_true trivial List.not_mem_nil
  | cons call calls ih =>
    intro s h
    cases call with
    | allocPage =>
      refine iff_of_false (fun hall => h ((allocSound_iff s).mp hall.1)) ?_
      exact fun hnot => hnot List.mem_cons_self
    | freePage addr =>
      have hrest := ih (not_reserved_free h addr)
      simp only [Along, AllocSound, true_and, hrest, List.mem_cons, reduceCtorEq, false_or]

/-- An address of the first megabyte is freed, and later a page is allocated. -/
def FreedThenAllocated (calls : List PageCall) : Prop :=
  ∃ addr : Word, addr.toNat < 0x100000 ∧
    List.Sublist [PageCall.freePage addr, PageCall.allocPage] calls

theorem freedThenAllocated_cons_of_frees {call : PageCall} (hcall : call.FreesReserved)
    (calls : List PageCall) : FreedThenAllocated (call :: calls) ↔ PageCall.allocPage ∈ calls := by
  cases call with
  | allocPage => exact hcall.elim
  | freePage addr =>
    constructor
    · rintro ⟨addr', -, hsub⟩
      exact List.singleton_sublist.mp hsub.tail
    · exact fun hmem => ⟨addr, hcall, (List.singleton_sublist.mpr hmem).cons_cons _⟩

theorem freedThenAllocated_cons {call : PageCall} (hcall : ¬ call.FreesReserved)
    (calls : List PageCall) : FreedThenAllocated (call :: calls) ↔ FreedThenAllocated calls := by
  constructor
  · rintro ⟨addr, hlow, hsub⟩
    refine ⟨addr, hlow, ?_⟩
    rcases List.sublist_cons_iff.mp hsub with hsub | ⟨rest, heq, -⟩
    · exact hsub
    · rw [List.cons_eq_cons] at heq
      exact absurd (heq.1 ▸ hlow : call.FreesReserved) hcall
  · rintro ⟨addr, hlow, hsub⟩
    exact ⟨addr, hlow, hsub.cons _⟩

theorem along_of_reserved (calls : List PageCall) : ∀ {s : PageAllocator}, Reserved s →
    (Along PageAllocator.step AllocSound s calls ↔ ¬ FreedThenAllocated calls) := by
  induction calls with
  | nil => exact fun _ => iff_of_true trivial (by simp [FreedThenAllocated])
  | cons call calls ih =>
    intro s h
    by_cases hcall : call.FreesReserved
    · have hsound : AllocSound s call := by
        cases call with
        | allocPage => exact hcall.elim
        | freePage addr => exact trivial
      rw [freedThenAllocated_cons_of_frees hcall,
        ← along_of_not_reserved calls (not_reserved_step hcall)]
      exact and_iff_right hsound
    · have hsound : AllocSound s call := by
        cases call with
        | allocPage => exact (allocSound_iff s).mpr h
        | freePage addr => exact trivial
      rw [freedThenAllocated_cons hcall, ← ih (reserved_step h hcall)]
      exact and_iff_right hsound

/-- **Reserved memory.** After `memory_init` every allocation of a run returns a page above the
first megabyte, or `0` with no page free and nothing changed, if and only if none of them comes
after an address of the first megabyte was freed. -/
theorem reserved_never_allocated_iff (m : Memory) (calls : List PageCall) :
    Along PageAllocator.step AllocSound (memoryInit m).pages calls ↔
      ¬ FreedThenAllocated calls :=
  along_of_reserved calls (reserved_memoryInit m)

/-- `free_page` clears the bit of page `1`, and the next `alloc_page` returns `0x1000`. -/
theorem reserved_page_allocated :
    ¬ Along PageAllocator.step AllocSound
      (memoryInit ⟨⟨Vector.replicate 32 0, 0⟩, bootHeap⟩).pages [.freePage 0x1000, .allocPage] := by
  rw [along_of_reserved _ (reserved_memoryInit _), not_not]
  exact ⟨0x1000, by decide, List.Sublist.refl _⟩

/-- A failed allocation that is freed: page `0` is then free, and an allocation that returns `0`
takes it. -/
example (m : Memory) :
    ¬ Along PageAllocator.step AllocSound (memoryInit m).pages [.freePage 0, .allocPage] := by
  rw [along_of_reserved _ (reserved_memoryInit _), not_not]
  exact ⟨0, by decide, List.Sublist.refl _⟩

end MinimalistOS
