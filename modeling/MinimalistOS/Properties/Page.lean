import MinimalistOS.Spec.PageSet

/-!
# The page allocator

* `allocPage_spec`, `freePage_spec` — the bitmap operations are the set operations of
  `Spec/PageSet.lean`
* `page_allocator_refines` — the refinement, and what it means over runs: a page is not handed
  out twice without a `free_page` in between
* `page_accounting_iff` — `used_pages` counts the set bits exactly as long as no clear page is
  freed

`alloc_page` counts a page only when it has found its bit clear. `free_page` counts down without
looking at the bit, so freeing a page that is already free makes the counter wrong.
-/

namespace MinimalistOS

open Infra PageSet

/-! ## One page bit -/

theorem pageBit_eq_zero_iff (bitmap : Vector Word 32) (i : Nat) :
    pageBit bitmap i = 0 ↔ Bitmap.mem bitmap i = false := by
  have h := Bitmap.and_mask_ne_zero_iff (w := 32) (by decide) bitmap i
  rw [Bool.eq_false_iff, ← not_iff_not]
  simpa [pageBit] using h

theorem mem_setPageBit (bitmap : Vector Word 32) {i : Nat} (hi : i < totalPages) (j : Nat) :
    Bitmap.mem (setPageBit bitmap i) j = (decide (j = i) || Bitmap.mem bitmap j) :=
  Bitmap.mem_insert (by decide) bitmap hi j

theorem mem_clearPageBit (bitmap : Vector Word 32) {i : Nat} (hi : i < totalPages) (j : Nat) :
    Bitmap.mem (clearPageBit bitmap i) j = (!decide (j = i) && Bitmap.mem bitmap j) :=
  Bitmap.mem_erase (by decide) bitmap hi j

/-! ## `alloc_page` -/

/-- The state after page `i` has been taken. -/
def takePage (s : PageAllocator) (i : Nat) : PageAllocator :=
  { pageBitmap := setPageBit s.pageBitmap i, usedPages := s.usedPages + 1 }

/-- The loop takes the first page with a clear bit. -/
theorem allocPage_loop_eq (s : PageAllocator) : ∀ n i : Nat,
    allocPage.loop s i n
      = match (List.range' i n).find? fun k => !Bitmap.mem s.pageBitmap k with
        | some k => (takePage s k, BitVec.ofNat 32 (k * pageSize))
        | none => (s, 0)
  | 0, _ => rfl
  | n + 1, i => by
    rw [allocPage.loop, List.range'_succ, List.find?_cons]
    by_cases hbit : pageBit s.pageBitmap i = 0
    · rw [if_pos hbit, (pageBit_eq_zero_iff _ _).mp hbit]
      rfl
    · have hset : Bitmap.mem s.pageBitmap i = true := by
        rw [pageBit_eq_zero_iff] at hbit
        simpa using hbit
      rw [if_neg hbit, hset]
      exact allocPage_loop_eq s n (i + 1)

/-- `alloc_page` takes the least page whose bit is clear, or does nothing. -/
theorem allocPage_cases (s : PageAllocator) :
    (∃ k, IsLeast (freePages s) k ∧
        allocPage s = (takePage s k, BitVec.ofNat 32 (k * pageSize))) ∨
      (freePages s = ∅ ∧ allocPage s = (s, 0)) := by
  rw [allocPage, allocPage_loop_eq]
  cases hfind : (List.range' 0 totalPages).find? fun k => !Bitmap.mem s.pageBitmap k with
  | some k =>
    obtain ⟨hclear, hmem, hbelow⟩ := List.find?_range'_eq_some.mp hfind
    have hk : k < totalPages := by simpa using hmem
    refine Or.inl ⟨k, ⟨⟨hk, by simpa using hclear⟩, ?_⟩, rfl⟩
    rintro j ⟨-, hj⟩
    by_contra hlt
    have := hbelow j (Nat.zero_le j) (by omega)
    simp [hj] at this
  | none =>
    have hall := List.find?_range'_eq_none.mp hfind
    refine Or.inr ⟨?_, rfl⟩
    ext j
    simp only [freePages, Set.mem_ofPred_eq, Set.mem_empty_iff_false, iff_false, not_and]
    intro hj
    simpa using hall j (Nat.zero_le j) (by omega)

theorem freePages_takePage (s : PageAllocator) {k : Nat} (hk : k < totalPages) :
    freePages (takePage s k) = freePages s \ {k} := by
  ext j
  simp only [freePages, takePage, mem_setPageBit s.pageBitmap hk, Set.mem_ofPred_eq, Set.mem_sdiff,
    Set.mem_singleton_iff, Bool.or_eq_false_iff, decide_eq_false_iff_not]
  tauto

theorem toNat_pageAddr {k : Nat} (hk : k < totalPages) :
    (BitVec.ofNat 32 (k * pageSize)).toNat = pageSize * k := by
  rw [BitVec.toNat_ofNat, Nat.mod_eq_of_lt (by unfold totalPages at hk; unfold pageSize; omega),
    Nat.mul_comm]

/-- **`alloc_page` is allocation from the set of free pages**, and changes nothing when that set
is empty. -/
theorem allocPage_spec (s : PageAllocator) :
    Alloc (freePages s) (freePages (allocPage s).1) (allocPage s).2 ∧
      (freePages s = ∅ → (allocPage s).1 = s) := by
  rcases allocPage_cases s with ⟨k, hleast, heq⟩ | ⟨hempty, heq⟩
  · rw [heq]
    have hk : k < totalPages := hleast.1.1
    refine ⟨Or.inl ⟨k, hleast, freePages_takePage s hk, toNat_pageAddr hk⟩, fun hempty => ?_⟩
    have := hleast.1
    rw [hempty] at this
    exact absurd this (Set.notMem_empty k)
  · rw [heq]
    exact ⟨Or.inr ⟨hempty, hempty, rfl⟩, fun _ => rfl⟩

/-! ## `free_page` -/

theorem freePages_clear (s : PageAllocator) (u : Word) {k : Nat} (hk : k < totalPages) :
    freePages { pageBitmap := clearPageBit s.pageBitmap k, usedPages := u }
      = insert k (freePages s) := by
  ext j
  simp only [freePages, mem_clearPageBit s.pageBitmap hk, Set.mem_ofPred_eq, Set.mem_insert_iff,
    Bool.and_eq_false_iff, Bool.not_eq_false', decide_eq_true_eq]
  constructor
  · rintro ⟨hj, rfl | hclear⟩
    · exact Or.inl rfl
    · exact Or.inr ⟨hj, hclear⟩
  · rintro (rfl | ⟨hj, hclear⟩)
    · exact ⟨hk, Or.inl rfl⟩
    · exact ⟨hj, Or.inr hclear⟩

theorem freePage_of_lt {s : PageAllocator} {addr : Word} (h : addr.toNat / pageSize < totalPages) :
    freePage s addr = { pageBitmap := clearPageBit s.pageBitmap (addr.toNat / pageSize),
                        usedPages := s.usedPages - 1 } := by
  simp only [freePage]
  rw [if_pos h]

/-- **`free_page` puts the page of its address back**, and changes nothing when there is no such
page. -/
theorem freePage_spec (s : PageAllocator) (addr : Word) :
    Free (freePages s) (freePages (freePage s addr)) addr ∧
      (totalPages ≤ addr.toNat / pageSize → freePage s addr = s) := by
  by_cases hin : addr.toNat / pageSize < totalPages
  · refine ⟨Or.inl ⟨hin, ?_⟩, fun hout => by omega⟩
    rw [freePage_of_lt hin]
    exact freePages_clear s _ hin
  · have heq : freePage s addr = s := by simp only [freePage, if_neg hin]
    rw [heq]
    exact ⟨Or.inr ⟨by omega, rfl⟩, fun _ => rfl⟩

/-! ## Runs: no page has two owners -/

/-- The call takes page `n`: it is an `alloc_page` that sets the page's bit and returns its
address. -/
def Takes (s : PageAllocator) (c : PageCall) (n : Nat) : Prop :=
  c = .allocPage ∧ n ∈ freePages s ∧ n ∉ freePages (s.step c).1 ∧
    (s.step c).2 = some (BitVec.ofNat 32 (n * pageSize))

/-- The call gives page `n` back. -/
def GivesBack (n : Nat) (c : PageCall) : Prop :=
  ∃ addr, c = .freePage addr ∧ addr.toNat / pageSize = n

/-- A page in use stays in use under every call that does not give it back. -/
theorem notMem_freePages_step {s : PageAllocator} {c : PageCall} {n : Nat}
    (hn : n ∉ freePages s) (hc : ¬ GivesBack n c) : n ∉ freePages (s.step c).1 := by
  cases c with
  | allocPage =>
    show n ∉ freePages (allocPage s).1
    rcases (allocPage_spec s).1 with ⟨k, -, heq, -⟩ | ⟨-, heq, -⟩
    · rw [heq]
      exact fun h => hn h.1
    · rw [heq]
      exact Set.notMem_empty n
  | freePage addr =>
    show n ∉ freePages (freePage s addr)
    rcases (freePage_spec s addr).1 with ⟨-, heq⟩ | ⟨-, heq⟩
    · rw [heq]
      rintro (rfl | hmem)
      · exact hc ⟨addr, rfl, rfl⟩
      · exact hn hmem
    · rw [heq]
      exact hn

/-- Between two calls that take the same page there is one that gives it back. -/
theorem exists_givesBack_between (s : PageAllocator) (pre mid : List PageCall) (c d : PageCall)
    (n : Nat) (hfirst : Takes (run PageAllocator.step s pre) c n)
    (hsecond : Takes (run PageAllocator.step s (pre ++ c :: mid)) d n) :
    ∃ e ∈ mid, GivesBack n e := by
  by_contra hno
  push Not at hno
  rw [run_append, run_cons] at hsecond
  have hused := inv_run PageAllocator.step (I := fun t => n ∉ freePages t)
    (fun _ _ => notMem_freePages_step) hfirst.2.2.1
    (along_of_forall _ _ fun c hc _ => hno c hc)
  exact hused hsecond.2.1

/--
**The bitmap page allocator refines a set of free page numbers.**

For every content of the bitmap, `alloc_page` returns the address of the least free page and takes
exactly that page, or returns `0` and changes nothing; `free_page` frees exactly the page of its
address, or changes nothing. Hence over every run a page that was taken is not taken again unless
a `free_page` with an address inside it came in between.
-/
theorem page_allocator_refines :
    (∀ s : PageAllocator, Alloc (freePages s) (freePages (allocPage s).1) (allocPage s).2 ∧
      (freePages s = ∅ → (allocPage s).1 = s)) ∧
    (∀ (s : PageAllocator) (addr : Word), Free (freePages s) (freePages (freePage s addr)) addr ∧
      (totalPages ≤ addr.toNat / pageSize → freePage s addr = s)) ∧
    (∀ (s : PageAllocator) (pre mid : List PageCall) (c d : PageCall) (n : Nat),
      Takes (run PageAllocator.step s pre) c n →
      Takes (run PageAllocator.step s (pre ++ c :: mid)) d n → ∃ e ∈ mid, GivesBack n e) :=
  ⟨allocPage_spec, freePage_spec, exists_givesBack_between⟩

/-- Page 0 of an empty bitmap is taken, freed and taken again. -/
theorem page_taken_twice_after_free :
    Takes (run PageAllocator.step ⟨Vector.replicate 32 0, 0⟩ []) .allocPage 0 ∧
    Takes (run PageAllocator.step ⟨Vector.replicate 32 0, 0⟩ ([] ++ [.allocPage, .freePage 0]))
      .allocPage 0 ∧
    ∃ e ∈ [PageCall.freePage 0], GivesBack 0 e := by
  have hfirst : Takes ⟨Vector.replicate 32 0, 0⟩ .allocPage 0 :=
    ⟨rfl, ⟨by decide, by decide⟩, fun h => absurd h.2 (by decide), by decide⟩
  have hsecond : Takes (run PageAllocator.step ⟨Vector.replicate 32 0, 0⟩ [.allocPage, .freePage 0])
      .allocPage 0 :=
    ⟨rfl, ⟨by decide, by decide⟩, fun h => absurd h.2 (by decide), by decide⟩
  exact ⟨hfirst, hsecond,
    page_allocator_refines.2.2 _ [] [.freePage 0] .allocPage .allocPage 0 hfirst hsecond⟩

/-! ## Accounting -/

/-- The number of set bits. -/
def setBits (s : PageAllocator) : Nat := (Bitmap.members s.pageBitmap).card

/-- The counter agrees with the bitmap, and so does what `memory_stats` reports. -/
structure Accounts (s : PageAllocator) : Prop where
  used : s.usedPages.toNat = setBits s
  stats : ∃ total used free : Word, memoryStats s (some 0) (some 0) (some 0)
      = (some total, some used, some free) ∧ used.toNat + free.toNat = total.toNat ∧
    free.toNat = totalPages - setBits s

theorem setBits_le (s : PageAllocator) : setBits s ≤ totalPages :=
  Bitmap.card_members_le s.pageBitmap

/-- The report of `memory_stats` follows from the counter. -/
theorem accounts_iff (s : PageAllocator) : Accounts s ↔ s.usedPages.toNat = setBits s := by
  refine ⟨fun h => h.used, fun hused => ⟨hused, _, _, _, rfl, ?_⟩⟩
  have hle := setBits_le s
  have htotal : (BitVec.ofNat 32 totalPages).toNat = totalPages := rfl
  have hfree : (BitVec.ofNat 32 totalPages - s.usedPages).toNat = totalPages - setBits s := by
    rw [BitVec.toNat_sub_of_le (by rw [BitVec.le_def, htotal]; omega), htotal, hused]
  rw [hfree, htotal, hused]
  omega

/-- The page that a `free_page` call clears is in use. Only such calls keep the count. -/
def FreesUsed (s : PageAllocator) : PageCall → Prop
  | .allocPage => True
  | .freePage addr =>
    addr.toNat / pageSize < totalPages → Bitmap.mem s.pageBitmap (addr.toNat / pageSize) = true

theorem setBits_takePage {s : PageAllocator} {k : Nat} (hk : k ∈ freePages s) :
    setBits (takePage s k) = setBits s + 1 :=
  Bitmap.card_members_insert (by decide) hk.1 hk.2

theorem card_clearPageBit (bitmap : Vector Word 32) {k : Nat} (hk : k < totalPages) :
    (Bitmap.members (clearPageBit bitmap k)).card
      = (Bitmap.members bitmap).card - if Bitmap.mem bitmap k then 1 else 0 :=
  Bitmap.card_members_erase (by decide) bitmap hk

theorem accounts_allocPage {s : PageAllocator} (hs : Accounts s) : Accounts (allocPage s).1 := by
  rw [accounts_iff] at *
  rcases allocPage_cases s with ⟨k, hleast, heq⟩ | ⟨-, heq⟩
  · have hle := setBits_le (takePage s k)
    have hsucc := setBits_takePage hleast.1
    unfold totalPages at hle
    rw [heq, hsucc]
    show (s.usedPages + 1).toNat = _
    bv_omega
  · rw [heq]; exact hs

/-- What `free_page` of a page in range does to the count and to the counter. -/
theorem accounts_freePage_iff {s : PageAllocator} {addr : Word} (hs : Accounts s) :
    Accounts (freePage s addr) ↔ FreesUsed s (.freePage addr) := by
  by_cases hin : addr.toNat / pageSize < totalPages
  · rw [freePage_of_lt hin, accounts_iff]
    rw [accounts_iff] at hs
    have hcard := card_clearPageBit s.pageBitmap hin
    have hle := setBits_le s
    simp only [setBits, FreesUsed, totalPages] at *
    rw [hcard]
    by_cases hmem : Bitmap.mem s.pageBitmap (addr.toNat / pageSize) = true
    · have hpos : 0 < (Bitmap.members s.pageBitmap).card :=
        Finset.card_pos.mpr ⟨_, Bitmap.mem_members.mpr ⟨hin, hmem⟩⟩
      refine iff_of_true ?_ fun _ => hmem
      rw [if_pos hmem]
      bv_omega
    · refine iff_of_false ?_ fun h => hmem (h hin)
      rw [if_neg hmem]
      bv_omega
  · rw [(freePage_spec s addr).2 (by omega)]
    exact iff_of_true hs fun h => absurd h hin

theorem accounts_step_iff {s : PageAllocator} {c : PageCall} (hs : Accounts s) :
    Accounts (s.step c).1 ↔ FreesUsed s c := by
  cases c with
  | allocPage => exact iff_of_true (accounts_allocPage hs) trivial
  | freePage addr => exact accounts_freePage_iff hs

/-! ## The initial state -/

theorem mem_markPages (bitmap : Vector Word 32) : ∀ n, n ≤ totalPages → ∀ j,
    Bitmap.mem (markPages bitmap n) j = (decide (j < n) || Bitmap.mem bitmap j)
  | 0, _, j => by simp [markPages]
  | n + 1, hn, j => by
    rw [markPages, mem_setPageBit _ (by omega), mem_markPages bitmap n (by omega)]
    by_cases hj : j = n
    · subst hj; simp
    · simp [hj, show j < n + 1 ↔ j < n by omega]

theorem mem_zeroBitmap (j : Nat) : Bitmap.mem (Vector.replicate 32 (0 : Word)) j = false := by
  unfold Bitmap.mem Bitmap.word
  rw [Vector.getElem?_replicate]
  split <;> simp

/-- After `memory_init` exactly the first 256 pages are in use. -/
theorem mem_memoryInit (m : Memory) (j : Nat) :
    Bitmap.mem (memoryInit m).pages.pageBitmap j = decide (j < 256) := by
  show Bitmap.mem (markPages _ 256) j = _
  rw [mem_markPages _ 256 (by decide), mem_zeroBitmap, Bool.or_false]

theorem accounts_memoryInit (m : Memory) : Accounts (memoryInit m).pages := by
  rw [accounts_iff]
  have hmembers : Bitmap.members (memoryInit m).pages.pageBitmap = Finset.range 256 := by
    ext j
    rw [Bitmap.mem_members, mem_memoryInit, Finset.mem_range, decide_eq_true_eq]
    omega
  rw [setBits, hmembers, Finset.card_range]
  rfl

/--
**Page accounting is exact as long as only pages in use are freed.**

In every run of `alloc_page` and `free_page` after `memory_init`: the counter and the report of
`memory_stats` agree with the bitmap in every state if and only if every `free_page` with an
address in range names a page whose bit is set at that moment.
-/
theorem page_accounting_iff (m : Memory) (calls : List PageCall) :
    (∀ pre, pre <+: calls → Accounts (run PageAllocator.step (memoryInit m).pages pre)) ↔
      Along PageAllocator.step FreesUsed (memoryInit m).pages calls :=
  safe_iff_along PageAllocator.step (I := Accounts) (S := Accounts) (Q := fun _ => True)
    (fun _ hs => hs)
    (fun _ _ _ hs hf => (accounts_step_iff hs).mpr hf)
    (fun _ _ _ hs hf h => hf ((accounts_step_iff hs).mp h)) (accounts_memoryInit m)
    fun _ _ => trivial

/-- Freeing page 256, which `memory_init` left free, makes the counter 255 with 256 bits set. -/
theorem page_accounting_broken :
    ¬ Accounts (run PageAllocator.step
      (memoryInit ⟨⟨Vector.replicate 32 0, 0⟩, bootHeap⟩).pages [.freePage 0x100000]) := by
  rw [run_cons, run_nil, accounts_step_iff (accounts_memoryInit _)]
  intro hf
  have hset := hf (by decide)
  rw [mem_memoryInit] at hset
  revert hset
  decide

end MinimalistOS
