import MinimalistOS.Kernel.Usermode
import MinimalistOS.Properties.Page
import MinimalistOS.Properties.Paging

/-!
# `create_user_process`

* `createUserProcess_entry` — it never succeeds: there are not 1024 pages besides page `0`
* `createUserProcess_returns` — it faults nowhere, and no translation changes: the table that
  `map_page` writes to does not exist
* `create_user_process_atomic_iff` — it has no effect exactly when no page is free

The pages that were taken before the allocator was exhausted are not given back.
-/

namespace MinimalistOS

open Infra Paging PageSet

/-! ## The pages it takes -/

/-- `alloc_page` sets one bit, or none is clear and nothing changes. -/
theorem setBits_allocPage (s : PageAllocator) :
    (freePages s).Nonempty ∧ setBits (allocPage s).1 = setBits s + 1 ∨
      freePages s = ∅ ∧ allocPage s = (s, 0) := by
  rcases allocPage_cases s with ⟨k, hleast, heq⟩ | hnone
  · rw [heq]
    exact Or.inl ⟨⟨k, hleast.1⟩, setBits_takePage hleast.1⟩
  · exact Or.inr hnone

theorem setBits_le_allocPage (s : PageAllocator) : setBits s ≤ setBits (allocPage s).1 := by
  rcases setBits_allocPage s with ⟨-, heq⟩ | ⟨-, heq⟩
  · rw [heq]
    exact Nat.le_succ _
  · rw [heq]

/-- What one round of the loop can do. -/
theorem createUserProcess_loop_succ {k : KernelTables} {m : Mem} {s : PageAllocator} {i n : Nat}
    {r : UserProcess} (h : createUserProcess.loop k m s i (n + 1) = some r) :
    ((allocPage s).2 = 0 ∧ r = ⟨m, (allocPage s).1, 0⟩) ∨
      ((allocPage s).2 ≠ 0 ∧
        ∃ m', createUserProcess.loop k m' (allocPage s).1 (i + 1) n = some r) := by
  simp only [createUserProcess.loop] at h
  split at h
  · next hzero => exact Or.inl ⟨hzero, (Option.some.inj h).symm⟩
  · next hne =>
    obtain ⟨m', -, hrest⟩ := Option.bind_eq_some_iff.mp h
    exact Or.inr ⟨hne, m', hrest⟩

/-- No page is given back. -/
theorem setBits_le_loop {k : KernelTables} {r : UserProcess} (n : Nat) : ∀ {i : Nat} {m : Mem}
    {s : PageAllocator}, createUserProcess.loop k m s i n = some r →
    setBits s ≤ setBits r.pages := by
  induction n with
  | zero =>
    intro i m s h
    obtain rfl := Option.some.inj h
    exact Nat.le_refl _
  | succ n ih =>
    intro i m s h
    rcases createUserProcess_loop_succ h with ⟨-, rfl⟩ | ⟨-, m', hrest⟩
    · exact setBits_le_allocPage s
    · exact (setBits_le_allocPage s).trans (ih hrest)

/-- The loop cannot go through when fewer bits are clear than rounds are left. -/
theorem loop_entry_eq_zero {k : KernelTables} {r : UserProcess} (n : Nat) : ∀ {i : Nat} {m : Mem}
    {s : PageAllocator}, createUserProcess.loop k m s i n = some r →
    totalPages < setBits s + n → r.entry = 0 := by
  induction n with
  | zero =>
    intro i m s _ hlt
    have hle := setBits_le s
    omega
  | succ n ih =>
    intro i m s h hlt
    rcases createUserProcess_loop_succ h with ⟨-, rfl⟩ | ⟨hne, m', hrest⟩
    · rfl
    · rcases setBits_allocPage s with ⟨-, hbits⟩ | ⟨-, heq⟩
      · exact ih hrest (by omega)
      · rw [heq] at hne
        exact absurd rfl hne

/-- **It never succeeds.** Page `0` counts as a failure, and the other 1023 are too few. -/
theorem createUserProcess_entry {k : KernelTables} {m : Mem} {s : PageAllocator} {r : UserProcess}
    (h : createUserProcess k m s = some r) : r.entry = 0 := by
  by_cases hbit : Bitmap.mem s.pageBitmap 0 = true
  · refine loop_entry_eq_zero 1024 h ?_
    have hpos : 0 < setBits s :=
      Finset.card_pos.mpr ⟨0, Bitmap.mem_members.mpr ⟨by decide, hbit⟩⟩
    unfold totalPages
    omega
  · have hfree : 0 ∈ freePages s := ⟨by decide, by simpa using hbit⟩
    have hzero : (allocPage s).2 = 0 := by
      rcases allocPage_cases s with ⟨j, hleast, heq⟩ | ⟨hempty, heq⟩
      · obtain rfl : j = 0 := Nat.le_zero.mp (hleast.2 hfree)
        rw [heq]
        rfl
      · rw [heq]
    rcases createUserProcess_loop_succ h with ⟨-, rfl⟩ | ⟨hne, -⟩
    · rfl
    · exact absurd hzero hne

/-- With no page free the first allocation fails, and nothing has happened. -/
theorem createUserProcess_of_empty {k : KernelTables} {m : Mem} {s : PageAllocator}
    {r : UserProcess} (h : createUserProcess k m s = some r) (hempty : freePages s = ∅) :
    r = ⟨m, s, 0⟩ := by
  have heq : allocPage s = (s, 0) := by
    rcases setBits_allocPage s with ⟨hsome, -⟩ | ⟨-, heq⟩
    · exact absurd hempty hsome.ne_empty
    · exact heq
  rcases createUserProcess_loop_succ h with ⟨-, hr⟩ | ⟨hne, -⟩
  · rw [hr, heq]
  · rw [heq] at hne
    exact absurd rfl hne

/-- A page that is free is taken and not given back. -/
theorem setBits_lt_createUserProcess {k : KernelTables} {m : Mem} {s : PageAllocator}
    {r : UserProcess} (h : createUserProcess k m s = some r) (hsome : (freePages s).Nonempty) :
    setBits s < setBits r.pages := by
  have hbits : setBits (allocPage s).1 = setBits s + 1 := by
    rcases setBits_allocPage s with ⟨-, hbits⟩ | ⟨hempty, -⟩
    · exact hbits
    · exact absurd hempty hsome.ne_empty
  rcases createUserProcess_loop_succ h with ⟨-, rfl⟩ | ⟨-, m', hrest⟩
  · show setBits s < setBits (allocPage s).1
    omega
  · have hle := setBits_le_loop 1023 hrest
    omega

/-! ## The page tables -/

theorem userBase_outside {i : Nat} (hi : i < 1024) :
    ¬ InWindow (userBase + BitVec.ofNat 32 (i * pageSize)) := by
  have haddr : (userBase + BitVec.ofNat 32 (i * pageSize)).toNat = 0x40000000 + i * 4096 := by
    unfold userBase pageSize
    rw [BitVec.toNat_add, BitVec.toNat_ofNat]
    show (0x40000000 + i * 4096 % 2 ^ 32) % 2 ^ 32 = _
    omega
  unfold InWindow
  rw [haddr]
  omega

/-- The directory has no entry for user space: `map_page` writes to the page at address `0`, and
the tables stay as they are. -/
theorem bootTables_loop {k : KernelTables} (n : Nat) : ∀ {i : Nat} {m : Mem}
    {s : PageAllocator}, BootTables k m → i + n ≤ 1024 →
    ∃ r, createUserProcess.loop k m s i n = some r ∧ BootTables k r.mem := by
  induction n with
  | zero => exact fun h _ => ⟨_, rfl, h⟩
  | succ n ih =>
    intro i m s h hle
    simp only [createUserProcess.loop]
    by_cases hzero : (allocPage s).2 = 0
    · rw [if_pos hzero]
      exact ⟨_, rfl, h⟩
    · rw [if_neg hzero, mapPage_null h (userBase_outside (by omega)), Option.bind_some]
      exact ih (h.write_null (tableIndex_lt _) _) (by omega)

/-- **It returns, and no translation changes.** -/
theorem createUserProcess_returns {k : KernelTables} {m : Mem} (h : BootTables k m)
    (s : PageAllocator) :
    ∃ r, createUserProcess k m s = some r ∧
      ∀ v, walk r.mem k.directory v = walk m k.directory v := by
  obtain ⟨r, hr, hboot⟩ := bootTables_loop (s := s) 1024 h (Nat.le_refl _)
  exact ⟨r, hr, hboot.walk_congr h⟩

/-! ## Atomicity -/

/-- All or nothing: a call that returns `0` changes no page and no translation, and one that
returns anything else has taken 1024 free pages and mapped them in a row. -/
structure CreatesAtomically (k : KernelTables) (m : Mem) (s : PageAllocator) (r : UserProcess) :
    Prop where
  failed : r.entry = 0 → r.pages = s ∧ ∀ v, walk r.mem k.directory v = walk m k.directory v
  created : r.entry ≠ 0 → ∃ page : Fin 1024 → Nat, Function.Injective page ∧
    (∀ i, page i ∈ freePages s) ∧ freePages r.pages = freePages s \ Set.range page ∧
    ∀ i : Fin 1024, walk r.mem k.directory (userBase + BitVec.ofNat 32 (i.val * pageSize))
      = some (BitVec.ofNat 32 (page i * pageSize))

/--
**`create_user_process` is atomic only when it has nothing to take.**

With the page tables as `paging_init` leaves them the call returns, in every state of the page
allocator, and no translation changes. Whenever it returns, with any page tables, it keeps the
promise if and only if no page was free before the call.
-/
theorem create_user_process_atomic_iff (k : KernelTables) (m : Mem) (s : PageAllocator) :
    (BootTables k m → ∃ r, createUserProcess k m s = some r ∧
        ∀ v, walk r.mem k.directory v = walk m k.directory v) ∧
      ∀ r, createUserProcess k m s = some r →
        (CreatesAtomically k m s r ↔ freePages s = ∅) := by
  refine ⟨fun h => createUserProcess_returns h s, ?_⟩
  intro r hr
  constructor
  · intro h
    have hsame := (h.failed (createUserProcess_entry hr)).1
    by_contra hsome
    have hlt := setBits_lt_createUserProcess hr (Set.nonempty_iff_ne_empty.mpr hsome)
    rw [hsame] at hlt
    exact Nat.lt_irrefl _ hlt
  · intro hempty
    obtain rfl := createUserProcess_of_empty hr hempty
    exact ⟨fun _ => ⟨rfl, fun _ => rfl⟩, fun hne => absurd rfl hne⟩

/-- An allocator with every bit set. -/
def exhaustedPages : PageAllocator := ⟨Vector.replicate 32 (-1), 1024⟩

theorem create_user_process_exhausted :
    BootTables linkedTables (pagingInit linkedTables fun _ => 0) ∧
      ∃ r, createUserProcess linkedTables (pagingInit linkedTables fun _ => 0) exhaustedPages
          = some r ∧
        (CreatesAtomically linkedTables (pagingInit linkedTables fun _ => 0) exhaustedPages r ↔
          freePages exhaustedPages = ∅) := by
  have hboot := bootTables_pagingInit linkedTables fun _ => 0
  have h := create_user_process_atomic_iff linkedTables (pagingInit linkedTables fun _ => 0)
    exhaustedPages
  obtain ⟨r, hr, -⟩ := h.1 hboot
  exact ⟨hboot, r, hr, h.2 r hr⟩

/-- After `memory_init` and `paging_init` the call takes the pages that are free, fails, and keeps
them. -/
theorem create_user_process_not_atomic :
    ∃ r, createUserProcess linkedTables (pagingInit linkedTables fun _ => 0)
        (memoryInit ⟨⟨Vector.replicate 32 0, 0⟩, bootHeap⟩).pages = some r ∧ r.entry = 0 ∧
      ¬ CreatesAtomically linkedTables (pagingInit linkedTables fun _ => 0)
        (memoryInit ⟨⟨Vector.replicate 32 0, 0⟩, bootHeap⟩).pages r := by
  obtain ⟨r, hr, -⟩ := createUserProcess_returns (bootTables_pagingInit linkedTables fun _ => 0)
    (memoryInit ⟨⟨Vector.replicate 32 0, 0⟩, bootHeap⟩).pages
  have hentry := createUserProcess_entry hr
  refine ⟨r, hr, hentry, fun h => ?_⟩
  have hfree : 256 ∈ freePages (memoryInit ⟨⟨Vector.replicate 32 0, 0⟩, bootHeap⟩).pages :=
    ⟨by decide, by rw [mem_memoryInit]; decide⟩
  have hlt := setBits_lt_createUserProcess hr ⟨256, hfree⟩
  rw [(h.failed hentry).1] at hlt
  exact Nat.lt_irrefl _ hlt

end MinimalistOS
