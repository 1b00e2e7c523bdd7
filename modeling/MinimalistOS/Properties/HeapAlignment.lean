import MinimalistOS.Properties.Heap

/-!
# What the heap's callers rely on

* `kcalloc_full_iff` — the array that `kcalloc` returns has room for all its elements
* `heap_aligned_iff` — over runs, the pointers of `kmalloc` and `kcalloc` are multiples of 4, and
  the position stays in the heap
* `kmalloc_aligned_iff` — the address that `kmalloc_aligned` returns is aligned

Each of them has an exception. `kcalloc` multiplies in 32 bits; `kmalloc` rounds its size up but
takes the position as it finds it, which `kmalloc_aligned` may have left anywhere; and
`kmalloc_aligned` aligns the offset in the heap, not the address.
-/

namespace MinimalistOS

open Infra

/-! ## `kcalloc` -/

/-- If a pointer is returned, there are that many elements of that size at it: inside the heap,
below the new position, and zero. The product is the exact one. -/
def FullArray (h : Heap) (num size : Word) : Prop :=
  ∀ ptr, (kcalloc h num size).2 = some ptr → ∀ i < num.toNat * size.toNat,
    ptr.toNat + i < heapSize ∧ ptr.toNat + i < (kcalloc h num size).1.pos.toNat ∧
      (kcalloc h num size).1.bytes (ptr + BitVec.ofNat 32 i) = 0

/-- What `kcalloc` can do. The check sees the sum of the position and the exact product only up to
multiples of `2 ^ 32`. -/
theorem kcalloc_cases (h : Heap) (num size : Word) :
    (heapSize < (h.pos.toNat + num.toNat * size.toNat) % 2 ^ 32 ∧
        kcalloc h num size = (h, none)) ∨
      ((h.pos.toNat + num.toNat * size.toNat) % 2 ^ 32 ≤ heapSize ∧
        kcalloc h num size
          = (⟨h.pos + ((num * size + 3) &&& ~~~3), memset h.bytes h.pos 0 (num * size).toNat⟩,
            some h.pos)) := by
  have hsum : (h.pos + num * size).toNat
      = (h.pos.toNat + num.toNat * size.toNat) % 2 ^ 32 := by
    rw [BitVec.toNat_add, BitVec.toNat_mul, Nat.add_mod_mod]
  rw [← hsum]
  rcases kmalloc_cases h (num * size) with ⟨hgt, heq⟩ | ⟨hle, heq⟩
  · exact Or.inl ⟨hgt, by simp only [kcalloc, heq]⟩
  · exact Or.inr ⟨hle, by simp only [kcalloc, heq]⟩

/-- A product that fits after the position. -/
theorem kcalloc_fits {h : Heap} {num size : Word}
    (hfits : h.pos.toNat + num.toNat * size.toNat ≤ heapSize) : FullArray h num size := by
  have hsmall : num.toNat * size.toNat < 2 ^ 31 := by
    unfold heapSize at hfits
    omega
  have hproduct : (num * size).toNat = num.toNat * size.toNat := by
    rw [BitVec.toNat_mul, Nat.mod_eq_of_lt (by omega)]
  have hround : ((num * size + 3) &&& ~~~3).toNat = roundUp (num * size).toNat 4 :=
    toNat_round4 (by omega)
  have hup := le_roundUp (n := (num * size).toNat) (m := 4) (by omega)
  have hlt := roundUp_lt (n := (num * size).toNat) (m := 4) (by omega)
  have hpos : (h.pos + ((num * size + 3) &&& ~~~3)).toNat
      = h.pos.toNat + roundUp (num * size).toNat 4 := by
    rw [BitVec.toNat_add, hround, Nat.mod_eq_of_lt (by unfold heapSize at hfits; omega)]
  intro ptr hptr i hi
  rcases kcalloc_cases h num size with ⟨-, heq⟩ | ⟨-, heq⟩
  · rw [heq] at hptr
    cases hptr
  · rw [heq] at hptr ⊢
    obtain rfl := Option.some.inj hptr
    refine ⟨by omega, ?_, ?_⟩
    · show h.pos.toNat + i < (h.pos + ((num * size + 3) &&& ~~~3)).toNat
      omega
    · show memset h.bytes h.pos 0 (num * size).toNat (h.pos + BitVec.ofNat 32 i) = 0
      rw [memset_apply _ _ (by omega), toNat_add_ofNat_sub _ (by omega), if_pos (by omega)]

/--
**`kcalloc` provides the whole array, or the check has wrapped.**

In every state of the heap and for every two factors: the array is there in full if and only if it
is empty, it fits after the position, or position and exact product leave a remainder modulo
`2 ^ 32` that the bound check refuses.
-/
theorem kcalloc_full_iff (h : Heap) (num size : Word) :
    FullArray h num size ↔
      num.toNat * size.toNat = 0 ∨ h.pos.toNat + num.toNat * size.toNat ≤ heapSize ∨
        heapSize < (h.pos.toNat + num.toNat * size.toNat) % 2 ^ 32 := by
  constructor
  · intro hfull
    by_contra hnot
    push Not at hnot
    obtain ⟨hne, hlarge, hpass⟩ := hnot
    rcases kcalloc_cases h num size with ⟨hgt, -⟩ | ⟨-, heq⟩
    · omega
    · -- the last byte of the array is outside the heap
      have hlast := (hfull h.pos (by rw [heq]) (num.toNat * size.toNat - 1) (by omega)).1
      omega
  · rintro (hzero | hfits | hrefused)
    · intro ptr _ i hi
      omega
    · exact kcalloc_fits hfits
    · intro ptr hptr
      rcases kcalloc_cases h num size with ⟨-, heq⟩ | ⟨hle, -⟩
      · rw [heq] at hptr
        cases hptr
      · omega

/-- `kcalloc(0x10000, 0x10000)`: the 32-bit product is `0`, so a pointer is returned and nothing is
reserved for the array. -/
theorem kcalloc_not_full : ¬ FullArray bootHeap 0x10000 0x10000 := by
  intro hfull
  have hreserved := (hfull 0 (by decide) 0 (by decide)).2.1
  revert hreserved
  decide

/-! ## Runs -/

/-- The requested size is at most the heap's, and the alignment, where there is one, a power of two
up to 4096. -/
def HeapCall.Modest (c : HeapCall) : Prop :=
  c.request.toNat ≤ heapSize ∧
    ∀ size alignment, c = .kmallocAligned size alignment →
      ∃ k ≤ 12, alignment = BitVec.twoPow 32 k

/-- `kmalloc` and `kcalloc`, the calls that promise a multiple of 4. -/
def HeapCall.IsWord : HeapCall → Prop
  | .kmalloc _ | .kcalloc _ _ => True
  | .kmallocAligned _ _ | .kfree _ => False

/-- What is promised of a state: `heap_stats` reports no more than there is, and a `kmalloc` or
`kcalloc` made in it returns a multiple of 4 or `NULL`. -/
structure HeapAligned (h : Heap) : Prop where
  stats : ∃ total used : Word, heapStats h (some 0) (some 0) = (some total, some used) ∧
    used.toNat ≤ total.toNat ∧ total.toNat = heapSize
  words : ∀ c : HeapCall, c.IsWord → c.Modest → ∀ ptr, (c.exec h).2 = some ptr → 4 ∣ ptr.toNat

/-- The position is a multiple of 4 in the heap. -/
structure WordPos (h : Heap) : Prop where
  dvd : 4 ∣ h.pos.toNat
  le : h.pos.toNat ≤ heapSize

/-- `kmalloc` and `kcalloc` return the position. -/
theorem exec_word {h : Heap} {c : HeapCall} (hc : c.IsWord) {ptr : Word}
    (hptr : (c.exec h).2 = some ptr) : ptr = h.pos := by
  have hkmalloc : ∀ size, (kmalloc h size).2 = some ptr → ptr = h.pos := by
    intro size hsome
    rcases kmalloc_cases h size with ⟨-, heq⟩ | ⟨-, heq⟩
    · rw [heq] at hsome
      cases hsome
    · rw [heq] at hsome
      exact (Option.some.inj hsome).symm
  cases c with
  | kmalloc size => exact hkmalloc size hptr
  | kmallocAligned size alignment => exact hc.elim
  | kcalloc num size =>
    refine hkmalloc (num * size) ?_
    rw [← (kcalloc_pos h num size).2]
    exact hptr
  | kfree ptr => exact hc.elim

theorem heapAligned_iff (h : Heap) : HeapAligned h ↔ WordPos h := by
  constructor
  · intro ha
    obtain ⟨total, used, heq, hle, htotal⟩ := ha.stats
    have hused : h.pos = used := Option.some.inj (Prod.ext_iff.mp heq).2
    have hpos : h.pos.toNat ≤ heapSize := by
      rw [hused]
      omega
    -- an empty request always succeeds
    have hempty : (kmalloc h 0).2 = some h.pos := by
      have hsum : h.pos + 0 = h.pos := BitVec.add_zero _
      rcases kmalloc_cases h 0 with ⟨hgt, -⟩ | ⟨-, heq⟩
      · rw [hsum] at hgt
        omega
      · rw [heq]
    have hmodest : (HeapCall.kmalloc 0).Modest := ⟨Nat.zero_le _, fun _ _ heq => by cases heq⟩
    exact ⟨ha.words (.kmalloc 0) trivial hmodest h.pos hempty, hpos⟩
  · intro hpos
    refine ⟨⟨BitVec.ofNat 32 heapSize, h.pos, rfl, hpos.le, rfl⟩, ?_⟩
    intro c hc _ ptr hptr
    rw [exec_word hc hptr]
    exact hpos.dvd

/-- A `kmalloc_aligned` that fits has a size that is a multiple of 4. -/
def HeapCall.WholeWords (h : Heap) : HeapCall → Prop
  | .kmallocAligned size alignment =>
    roundUp h.pos.toNat alignment.toNat + size.toNat ≤ heapSize → 4 ∣ size.toNat
  | .kmalloc _ | .kcalloc _ _ | .kfree _ => True

/-- `kmalloc` at a multiple of 4 rounds up to one, and still in the heap. -/
theorem wordPos_kmalloc {h : Heap} (hpos : WordPos h) {size : Word}
    (hsize : size.toNat ≤ heapSize) : WordPos (kmalloc h size).1 := by
  obtain ⟨q, hq⟩ := hpos.dvd
  have hle := hpos.le
  rcases kmalloc_cases h size with ⟨-, heq⟩ | ⟨hfits, heq⟩
  · rw [heq]
    exact hpos
  · unfold heapSize at hle hsize
    have hsum : (h.pos + size).toNat = h.pos.toNat + size.toNat := by
      rw [BitVec.toNat_add, Nat.mod_eq_of_lt (by omega)]
    have hround : ((size + 3) &&& ~~~3).toNat = roundUp size.toNat 4 := toNat_round4 (by omega)
    rw [hsum] at hfits
    unfold heapSize at hfits
    have hup : roundUp size.toNat 4 ≤ (8192 - q) * 4 := roundUp_le (by omega) (by omega)
    have hdvd := dvd_roundUp size.toNat 4
    have hnew : (h.pos + ((size + 3) &&& ~~~3)).toNat = h.pos.toNat + roundUp size.toNat 4 := by
      rw [BitVec.toNat_add, hround, Nat.mod_eq_of_lt (by omega)]
    rw [heq]
    refine ⟨?_, ?_⟩
    · rw [hnew]
      exact Nat.dvd_add hpos.dvd hdvd
    · rw [hnew]
      unfold heapSize
      omega

/-- Rounding a multiple of 4 up to a power of two gives a multiple of 4. -/
theorem four_dvd_roundUp {n : Nat} (h : 4 ∣ n) (k : Nat) : 4 ∣ roundUp n (2 ^ k) := by
  rcases Nat.lt_or_ge k 2 with hk | hk
  · have hdvd : 2 ^ k ∣ n := Nat.dvd_trans (Nat.pow_dvd_pow 2 (by omega : k ≤ 2)) h
    have hpos : 0 < 2 ^ k := Nat.two_pow_pos k
    obtain ⟨q, rfl⟩ := hdvd
    have hle : roundUp (2 ^ k * q) (2 ^ k) ≤ q * 2 ^ k :=
      roundUp_le hpos (Nat.le_of_eq (Nat.mul_comm _ _))
    have hge := le_roundUp (n := 2 ^ k * q) hpos
    rw [Nat.mul_comm q] at hle
    rwa [Nat.le_antisymm hle hge]
  · exact Nat.dvd_trans (Nat.pow_dvd_pow 2 hk) (dvd_roundUp n (2 ^ k))

/-- Where `kmalloc_aligned` starts. -/
theorem toNat_alignedPos {pos alignment : Word} {k : Nat} (hk : k ≤ 12)
    (halign : alignment = BitVec.twoPow 32 k) (hpos : pos.toNat ≤ heapSize) :
    alignment.toNat = 2 ^ k ∧
      ((pos + alignment - 1) &&& ~~~(alignment - 1)).toNat = roundUp pos.toNat (2 ^ k) := by
  have hlt : 2 ^ k ≤ 2 ^ 12 := Nat.pow_le_pow_right (by omega) hk
  subst halign
  refine ⟨?_, toNat_roundUp pos (by omega) ?_⟩
  · rw [BitVec.toNat_twoPow, Nat.mod_eq_of_lt (by omega)]
  · unfold heapSize at hpos
    omega

/-- `kmalloc_aligned` leaves the position at the end of its block. -/
theorem wordPos_kmallocAligned_iff {h : Heap} (hpos : WordPos h) {size alignment : Word}
    (hc : (HeapCall.kmallocAligned size alignment).Modest) :
    WordPos (kmallocAligned h size alignment).1 ↔
      (HeapCall.kmallocAligned size alignment).WholeWords h := by
  have hsize : size.toNat ≤ heapSize := hc.1
  obtain ⟨k, hk, halign⟩ := hc.2 size alignment rfl
  obtain ⟨htwo, hround⟩ := toNat_alignedPos hk halign hpos.le
  have hpow : 2 ^ k ≤ 2 ^ 12 := Nat.pow_le_pow_right (by omega) hk
  have hlt := roundUp_lt (n := h.pos.toNat) (Nat.two_pow_pos k)
  have hdvd := four_dvd_roundUp hpos.dvd k
  have hle := hpos.le
  obtain ⟨p, rfl, hcases⟩ := kmallocAligned_cases h size alignment
  have hsum : (((h.pos + alignment - 1) &&& ~~~(alignment - 1)) + size).toNat
      = roundUp h.pos.toNat (2 ^ k) + size.toNat := by
    unfold heapSize at hsize hle
    rw [BitVec.toNat_add, hround, Nat.mod_eq_of_lt (by omega)]
  rw [hsum] at hcases
  simp only [HeapCall.WholeWords, htwo]
  rcases hcases with ⟨hgt, heq⟩ | ⟨hfits, heq⟩
  · rw [heq]
    exact iff_of_true hpos fun hfits => absurd hfits (Nat.not_le.mpr hgt)
  · rw [heq]
    constructor
    · intro hnew _
      have hend := hnew.dvd
      rw [hsum] at hend
      exact (Nat.dvd_add_right hdvd).mp hend
    · intro hwords
      refine ⟨?_, ?_⟩
      · rw [hsum]
        exact Nat.dvd_add hdvd (hwords hfits)
      · rw [hsum]
        exact hfits

/-- **One call** keeps the position at a multiple of 4 exactly when it takes whole words. -/
theorem wordPos_exec_iff {h : Heap} (hpos : WordPos h) {c : HeapCall} (hc : c.Modest) :
    WordPos (c.exec h).1 ↔ c.WholeWords h := by
  cases c with
  | kmalloc size => exact iff_of_true (wordPos_kmalloc hpos hc.1) trivial
  | kmallocAligned size alignment => exact wordPos_kmallocAligned_iff hpos hc
  | kcalloc num size =>
    have hnew := wordPos_kmalloc hpos hc.1
    refine iff_of_true ⟨?_, ?_⟩ trivial
    · show 4 ∣ (kcalloc h num size).1.pos.toNat
      rw [(kcalloc_pos h num size).1]
      exact hnew.dvd
    · show (kcalloc h num size).1.pos.toNat ≤ heapSize
      rw [(kcalloc_pos h num size).1]
      exact hnew.le
  | kfree ptr => exact iff_of_true hpos trivial

theorem wordPos_heapInit (h : Heap) : WordPos (heapInit h) := ⟨Nat.dvd_zero 4, Nat.zero_le _⟩

/--
**Mixed calls keep alignment and bounds as long as they take whole words.**

Over every sequence of calls after `heap_init` with sizes up to the heap's and power-of-two
alignments up to 4096: in every state of the run the position is in the heap and `kmalloc` and
`kcalloc` return multiples of 4, if and only if every `kmalloc_aligned` that fits has a size that
is a multiple of 4.
-/
theorem heap_aligned_iff (h : Heap) (calls : List HeapCall) (hc : ∀ c ∈ calls, c.Modest) :
    (∀ pre, pre <+: calls → HeapAligned (run HeapCall.exec (heapInit h) pre)) ↔
      Along HeapCall.exec (fun h c => c.WholeWords h) (heapInit h) calls := by
  refine safe_iff_along HeapCall.exec (I := WordPos) (fun s hs => (heapAligned_iff s).mpr hs)
    (fun s c hmodest hs hwords => (wordPos_exec_iff hs hmodest).mpr hwords) ?_
    (wordPos_heapInit h) hc
  intro s c hmodest hs hwords hsafe
  exact hwords ((wordPos_exec_iff hs hmodest).mp ((heapAligned_iff _).mp hsafe))

instance (h : Heap) : ∀ c : HeapCall, Decidable (c.WholeWords h)
  | .kmallocAligned _ _ => inferInstanceAs (Decidable (_ → _))
  | .kmalloc _ | .kcalloc _ _ | .kfree _ => inferInstanceAs (Decidable True)

/-- The calls of the kernel's own memory test. -/
theorem heap_aligned_memory_test :
    HeapAligned (run HeapCall.exec (heapInit bootHeap)
      [.kmalloc 100, .kmallocAligned 256 16, .kcalloc 10 20]) := by
  refine (heap_aligned_iff bootHeap _ ?_).mpr (by decide) _ List.prefix_rfl
  intro c hc
  simp only [List.mem_cons, List.not_mem_nil, or_false] at hc
  rcases hc with rfl | rfl | rfl
  · exact ⟨by decide, fun _ _ heq => by cases heq⟩
  · refine ⟨by decide, fun size alignment heq => ?_⟩
    cases heq
    exact ⟨4, by decide, by decide⟩
  · exact ⟨by decide, fun _ _ heq => by cases heq⟩

/-- `kmalloc_aligned(1, 1)`, and the next `kmalloc` returns offset `1`. -/
theorem heap_not_aligned :
    (HeapCall.kmallocAligned 1 1).Modest ∧ (HeapCall.kmalloc 1).Modest ∧
      ((HeapCall.kmalloc 1).exec (run HeapCall.exec (heapInit bootHeap) [.kmallocAligned 1 1])).2
        = some 1 ∧
      ¬ HeapAligned (run HeapCall.exec (heapInit bootHeap) [.kmallocAligned 1 1]) := by
  refine ⟨⟨by decide, fun size alignment heq => ?_⟩, ⟨by decide, fun _ _ heq => by cases heq⟩,
    by decide, fun h => ?_⟩
  · cases heq
    exact ⟨0, by decide, by decide⟩
  · have hdvd := ((heapAligned_iff _).mp h).dvd
    revert hdvd
    decide

/-- With the position off by one, a `kmalloc` of all the bytes that are left puts it past the
end. -/
example :
    (run HeapCall.exec (heapInit bootHeap) [.kmallocAligned 1 1, .kmalloc 0x7FFF]).pos
      = 0x8001 := by
  decide

/-! ## Addresses -/

/-- What a non-null result promises, with `&heap[0]` at `base`: an address that is a multiple of
the alignment, at or after the old position, with fewer bytes than the alignment in between. -/
def AlignedResult (base : Word) (h : Heap) (size alignment : Word) : Prop :=
  ∀ off, (kmallocAligned h size alignment).2 = some off →
    alignment.toNat ∣ (base + off).toNat ∧ h.pos.toNat ≤ off.toNat ∧
      off.toNat < h.pos.toNat + alignment.toNat

/--
**`kmalloc_aligned` aligns the address exactly when the heap itself is aligned.**

For every address of the heap array, every position in the heap, every size and every power-of-two
alignment up to 4096: the result is as promised if and only if the array starts at a multiple of
the alignment, or the bound check refuses the request.
-/
theorem kmalloc_aligned_iff (base : Word) (h : Heap) (size : Word) {k : Nat} (hk : k ≤ 12)
    (hpos : h.pos.toNat ≤ heapSize) :
    AlignedResult base h size (BitVec.twoPow 32 k) ↔
      2 ^ k ∣ base.toNat ∨ heapSize < (roundUp h.pos.toNat (2 ^ k) + size.toNat) % 2 ^ 32 := by
  obtain ⟨htwo, hround⟩ := toNat_alignedPos hk rfl hpos
  have hup := le_roundUp (n := h.pos.toNat) (Nat.two_pow_pos k)
  have hlt := roundUp_lt (n := h.pos.toNat) (Nat.two_pow_pos k)
  obtain ⟨p, hp, hcases⟩ := kmallocAligned_cases h size (BitVec.twoPow 32 k)
  rw [← hp] at hround
  -- the offset is a multiple of the alignment, and so is `2 ^ 32`
  have haddr : 2 ^ k ∣ (base + p).toNat ↔ 2 ^ k ∣ base.toNat := by
    rw [BitVec.toNat_add, Nat.dvd_mod_iff (Nat.pow_dvd_pow 2 (by omega)), hround]
    exact Nat.dvd_add_left (dvd_roundUp _ _)
  unfold AlignedResult
  rw [htwo]
  rcases hcases with ⟨hgt, heq⟩ | ⟨hfits, heq⟩
  · rw [BitVec.toNat_add, hround] at hgt
    refine iff_of_true (fun off hoff => ?_) (Or.inr hgt)
    rw [heq] at hoff
    cases hoff
  · rw [BitVec.toNat_add, hround] at hfits
    rw [or_iff_left (Nat.not_lt.mpr hfits), ← haddr]
    constructor
    · intro hresult
      exact (hresult p (by rw [heq])).1
    · intro hdvd off hoff
      rw [heq] at hoff
      obtain rfl := Option.some.inj hoff
      exact ⟨hdvd, by omega, by omega⟩

/-- The heap at `0x10004`, as a byte array may be: an alignment of 16 gives address `0x10004`. -/
theorem kmalloc_aligned_misplaced :
    bootHeap.pos.toNat ≤ heapSize ∧ ¬ AlignedResult 0x10004 bootHeap 256 16 := by
  refine ⟨by decide, fun hresult => ?_⟩
  have hdvd := (hresult 0 (by decide)).1
  revert hdvd
  decide

/-- The heap at `0x10000`, and the request of the memory test. -/
theorem kmalloc_aligned_placed :
    (⟨100, bootHeap.bytes⟩ : Heap).pos.toNat ≤ heapSize ∧
      (AlignedResult 0x10000 ⟨100, bootHeap.bytes⟩ 256 (BitVec.twoPow 32 4) ↔
        2 ^ 4 ∣ (0x10000 : Word).toNat ∨
          heapSize < (roundUp (100 : Word).toNat (2 ^ 4) + (256 : Word).toNat) % 2 ^ 32) :=
  ⟨by decide, kmalloc_aligned_iff 0x10000 ⟨100, bootHeap.bytes⟩ 256 (by decide) (by decide)⟩

end MinimalistOS
