import MinimalistOS.Kernel.Heap

/-!
# Safety of the kernel heap

What the bound checks of `kmalloc`, `kmalloc_aligned` and `kcalloc` guarantee over whole runs.

* `kmalloc_cases`, `kmallocAligned_cases`, `kcalloc_pos` — what one call can do
* `heap_safe_iff` — the blocks of a run are inside the heap and pairwise disjoint exactly when no
  bound check of the run wraps round into the heap

The checks add in 32 bits, so a size close to `2^32` makes the sum small again and the call
succeeds. `CheckWraps` names these requests; nothing else can go wrong.
-/

namespace MinimalistOS

open Infra

/-! ## What one call can do -/

/-- `(size + 3) & ~3` is the size rounded up to a multiple of 4, when that does not overflow. -/
theorem toNat_round4 {size : Word} (h : size.toNat + 4 ≤ 2 ^ 32) :
    ((size + 3) &&& ~~~3).toNat = roundUp size.toNat 4 := by
  have hr := toNat_roundUp (w := 32) (k := 2) size (by omega) h
  rwa [show size + BitVec.twoPow 32 2 - 1 = size + 3 by bv_omega,
    show BitVec.twoPow 32 2 - 1 = (3 : Word) from rfl] at hr

theorem kmalloc_cases (h : Heap) (size : Word) :
    (heapSize < (h.pos + size).toNat ∧ kmalloc h size = (h, none)) ∨
    ((h.pos + size).toNat ≤ heapSize ∧
      kmalloc h size = ({ h with pos := h.pos + ((size + 3) &&& ~~~3) }, some h.pos)) := by
  unfold kmalloc
  split
  · next hgt => exact Or.inl ⟨hgt, rfl⟩
  · next hle => exact Or.inr ⟨by omega, rfl⟩

theorem kmallocAligned_cases (h : Heap) (size alignment : Word) :
    ∃ p : Word, p = (h.pos + alignment - 1) &&& ~~~(alignment - 1) ∧
      ((heapSize < (p + size).toNat ∧ kmallocAligned h size alignment = (h, none)) ∨
       ((p + size).toNat ≤ heapSize ∧
          kmallocAligned h size alignment = ({ h with pos := p + size }, some p))) := by
  refine ⟨_, rfl, ?_⟩
  unfold kmallocAligned
  simp only
  split
  · next hgt => exact Or.inl ⟨hgt, rfl⟩
  · next hle => exact Or.inr ⟨by omega, rfl⟩

/-- `kcalloc` moves the position and returns the pointer of a `kmalloc` of the 32-bit product. -/
theorem kcalloc_pos (h : Heap) (num size : Word) :
    (kcalloc h num size).1.pos = (kmalloc h (num * size)).1.pos ∧
      (kcalloc h num size).2 = (kmalloc h (num * size)).2 := by
  unfold kcalloc
  simp only
  split
  · next heq => simp [heq]
  · next heq => simp [heq]

/-! ## The bound check -/

/-- The true sum of a position and a size passes `2^32` and comes out inside the heap again. -/
def CheckWraps (start size : Nat) : Prop := 2 ^ 32 ≤ start + size ∧ start + size ≤ 2 ^ 32 + heapSize

/-- The bound check of a call wraps round. The position is the one before the call. -/
def HeapCall.Wraps (pos : Word) : HeapCall → Prop
  | .kmalloc size => CheckWraps pos.toNat size.toNat
  | .kmallocAligned size alignment => CheckWraps (roundUp pos.toNat alignment.toNat) size.toNat
  | .kcalloc num size => CheckWraps pos.toNat (num * size).toNat
  | .kfree _ => False

theorem not_checkWraps_of_fail {p size : Word} (h : heapSize < (p + size).toNat) :
    ¬ CheckWraps p.toNat size.toNat := by
  unfold CheckWraps
  rw [BitVec.toNat_add] at h
  have hp := p.isLt
  have hs := size.isLt
  omega

theorem checkWraps_of_pass {p size : Word} (h : (p + size).toNat ≤ heapSize) :
    (CheckWraps p.toNat size.toNat ∧ heapSize < p.toNat + size.toNat) ∨
      (¬ CheckWraps p.toNat size.toNat ∧ p.toNat + size.toNat ≤ heapSize) := by
  unfold CheckWraps
  unfold heapSize at *
  rw [BitVec.toNat_add] at h
  have hp := p.isLt
  have hs := size.isLt
  omega

instance (start size : Nat) : Decidable (CheckWraps start size) :=
  inferInstanceAs (Decidable (_ ∧ _))

instance (pos : Word) : ∀ c : HeapCall, Decidable (c.Wraps pos)
  | .kmalloc _ | .kmallocAligned _ _ | .kcalloc _ _ => inferInstanceAs (Decidable (CheckWraps _ _))
  | .kfree _ => inferInstanceAs (Decidable False)

/--
What the answer of a call that starts its block at `p` means, as arithmetic on offsets.

Either the check failed and nothing changed, or the block starts at or after the old position;
then it is outside the heap if the check wrapped, and otherwise ends inside the heap and at or
before the new position.
-/
def CallOutcome (h : Heap) (c : HeapCall) (res : Heap × Option Word) : Prop :=
  (res.1.pos = h.pos ∧ res.2 = none ∧ ¬ c.Wraps h.pos) ∨
  ∃ p : Word, res.2 = some p ∧ h.pos.toNat ≤ p.toNat ∧
    ((c.Wraps h.pos ∧ heapSize < p.toNat + c.request.toNat) ∨
     (¬ c.Wraps h.pos ∧ p.toNat + c.request.toNat ≤ heapSize ∧
        p.toNat + c.request.toNat ≤ res.1.pos.toNat ∧ res.1.pos.toNat ≤ heapSize + 3))

theorem kmalloc_outcome (h : Heap) (size : Word) :
    CallOutcome h (.kmalloc size) (kmalloc h size) := by
  rcases kmalloc_cases h size with ⟨hgt, heq⟩ | ⟨hle, heq⟩
  · rw [heq]
    exact Or.inl ⟨rfl, rfl, not_checkWraps_of_fail hgt⟩
  · rw [heq]
    refine Or.inr ⟨h.pos, rfl, le_rfl, ?_⟩
    rcases checkWraps_of_pass hle with ⟨hw, hout⟩ | ⟨hw, hin⟩
    · exact Or.inl ⟨hw, hout⟩
    · refine Or.inr ⟨hw, hin, ?_⟩
      have hsmall : size.toNat ≤ heapSize := by omega
      have hround : ((size + 3) &&& ~~~3).toNat = roundUp size.toNat 4 :=
        toNat_round4 (by unfold heapSize at hsmall; omega)
      have hup := le_roundUp (n := size.toNat) (m := 4) (by omega)
      have hlt := roundUp_lt (n := size.toNat) (m := 4) (by omega)
      have hnew : (h.pos + ((size + 3) &&& ~~~3)).toNat = h.pos.toNat + roundUp size.toNat 4 := by
        rw [BitVec.toNat_add, hround, Nat.mod_eq_of_lt (by unfold heapSize at hin; omega)]
      simp only [HeapCall.request, hnew]
      omega

theorem kcalloc_outcome (h : Heap) (num size : Word) :
    CallOutcome h (.kcalloc num size) (kcalloc h num size) := by
  obtain ⟨hpos, hptr⟩ := kcalloc_pos h num size
  have hk := kmalloc_outcome h (num * size)
  unfold CallOutcome at *
  rw [hpos, hptr]
  exact hk

theorem kmallocAligned_outcome {h : Heap} {size alignment : Word}
    (hc : (HeapCall.kmallocAligned size alignment).PowerOfTwo)
    (hpos : h.pos.toNat ≤ heapSize + 3) :
    CallOutcome h (.kmallocAligned size alignment) (kmallocAligned h size alignment) := by
  obtain ⟨k, hk, rfl⟩ := hc
  have htwo : (BitVec.twoPow 32 k).toNat = 2 ^ k := by
    rw [BitVec.toNat_twoPow, Nat.mod_eq_of_lt (Nat.pow_lt_pow_right (by omega) hk)]
  have hle : 2 ^ k ≤ 2 ^ 31 := Nat.pow_le_pow_right (by omega) (by omega)
  obtain ⟨p, hp, hcases⟩ := kmallocAligned_cases h size (BitVec.twoPow 32 k)
  -- the position is far below `2^31`, so rounding it up never wraps
  have hround : p.toNat = roundUp h.pos.toNat (BitVec.twoPow 32 k).toNat := by
    rw [hp, toNat_roundUp h.pos hk (by unfold heapSize at hpos; omega), htwo]
  have hup : h.pos.toNat ≤ p.toNat := by
    rw [hround, htwo]
    exact le_roundUp (Nat.two_pow_pos k)
  simp only [CallOutcome, HeapCall.Wraps, ← hround]
  rcases hcases with ⟨hgt, heq⟩ | ⟨hin, heq⟩
  · rw [heq]
    exact Or.inl ⟨rfl, rfl, not_checkWraps_of_fail hgt⟩
  · rw [heq]
    refine Or.inr ⟨p, rfl, hup, ?_⟩
    rcases checkWraps_of_pass hin with ⟨hw, hout⟩ | ⟨hw, hend⟩
    · exact Or.inl ⟨hw, hout⟩
    · have hnew : (p + size).toNat = p.toNat + size.toNat := by
        rw [BitVec.toNat_add, Nat.mod_eq_of_lt (by unfold heapSize at hend; omega)]
      refine Or.inr ⟨hw, hend, ?_⟩
      simp only [HeapCall.request, hnew]
      omega

/-- **One spec for every entry point.** -/
theorem exec_outcome {h : Heap} {c : HeapCall} (hc : c.PowerOfTwo)
    (hpos : h.pos.toNat ≤ heapSize + 3) : CallOutcome h c (c.exec h) := by
  cases c with
  | kmalloc size => exact kmalloc_outcome h size
  | kmallocAligned size alignment => exact kmallocAligned_outcome hc hpos
  | kcalloc num size => exact kcalloc_outcome h num size
  | kfree ptr => exact Or.inl ⟨rfl, rfl, id⟩

/-! ## Runs -/

/-- What is promised of a run: every block inside the heap, no two overlapping. -/
structure HeapSafe (r : HeapRun) : Prop where
  inside : ∀ b ∈ r.blocks, b.Inside
  disjoint : r.blocks.Pairwise Block.Disjoint

/-- The invariant: besides safety, every block ends at or before the position, and rounding the
last size up may have put the position at most 3 bytes past the end. -/
structure HeapInv (r : HeapRun) : Prop where
  safe : HeapSafe r
  below : ∀ b ∈ r.blocks, b.stop ≤ r.heap.pos.toNat
  pos_le : r.heap.pos.toNat ≤ heapSize + 3

theorem heapInv_init (h : Heap) : HeapInv (HeapRun.init h) where
  safe := ⟨by simp [HeapRun.init], by simp [HeapRun.init]⟩
  below := by simp [HeapRun.init]
  pos_le := by simp [HeapRun.init, heapInit]

theorem step_none {r : HeapRun} {c : HeapCall} (h : (c.exec r.heap).2 = none) :
    (r.step c).1 = ⟨(c.exec r.heap).1, r.blocks⟩ := by
  simp [HeapRun.step, h]

theorem step_some {r : HeapRun} {c : HeapCall} {p : Word} (h : (c.exec r.heap).2 = some p) :
    (r.step c).1 = ⟨(c.exec r.heap).1, ⟨p, c.request⟩ :: r.blocks⟩ := by
  simp [HeapRun.step, h]

/-- A block that starts where an earlier one has already ended shares no byte with it. -/
theorem Block.disjoint_of_stop_le {a b : Block} (h : b.stop ≤ a.off.toNat) : a.Disjoint b := by
  rintro x ⟨⟨hx, -⟩, -, hy⟩
  omega

theorem heapInv_step {r : HeapRun} {c : HeapCall} (hr : HeapInv r) (hc : c.PowerOfTwo)
    (hw : ¬ c.Wraps r.heap.pos) : HeapInv (r.step c).1 := by
  rcases exec_outcome hc hr.pos_le with ⟨hpos, hnone, -⟩ | ⟨p, hsome, hp, hout⟩
  · rw [step_none hnone]
    exact ⟨⟨hr.safe.inside, hr.safe.disjoint⟩, by simpa [hpos] using hr.below,
      by simpa [hpos] using hr.pos_le⟩
  · rw [step_some hsome]
    rcases hout with ⟨hw', -⟩ | ⟨-, hin, hnew, hle⟩
    · exact absurd hw' hw
    · have hbelow : ∀ b ∈ r.blocks, b.stop ≤ p.toNat :=
        fun b hb => (hr.below b hb).trans hp
      refine ⟨⟨?_, ?_⟩, ?_, hle⟩
      · intro b hb
        rcases List.mem_cons.mp hb with rfl | hb
        · exact hin
        · exact hr.safe.inside b hb
      · exact List.pairwise_cons.mpr
          ⟨fun b hb => Block.disjoint_of_stop_le (hbelow b hb), hr.safe.disjoint⟩
      · intro b hb
        rcases List.mem_cons.mp hb with rfl | hb
        · exact hnew
        · have := hbelow b hb
          show b.stop ≤ (c.exec r.heap).1.pos.toNat
          omega

/-- A check that wraps hands out a block that leaves the heap. -/
theorem not_heapSafe_step {r : HeapRun} {c : HeapCall} (hr : HeapInv r) (hc : c.PowerOfTwo)
    (hw : c.Wraps r.heap.pos) : ¬ HeapSafe (r.step c).1 := by
  intro hsafe
  rcases exec_outcome hc hr.pos_le with ⟨-, -, hn⟩ | ⟨p, hsome, -, ⟨-, hout⟩ | ⟨hn, -⟩⟩
  · exact hn hw
  · rw [step_some hsome] at hsafe
    have hin : p.toNat + c.request.toNat ≤ heapSize :=
      hsafe.inside ⟨p, c.request⟩ List.mem_cons_self
    omega
  · exact hn hw

/--
**The heap is safe exactly when no bound check wraps.**

Over every sequence of calls after `heap_init`, with arbitrary sizes and power-of-two alignments:
all blocks returned are inside the heap and pairwise disjoint in every state of the run if and
only if no call is made whose position plus size passes `2^32` and lands inside the heap again.
-/
theorem heap_safe_iff (h : Heap) (calls : List HeapCall) (hc : ∀ c ∈ calls, c.PowerOfTwo) :
    (∀ pre, pre <+: calls → HeapSafe (run HeapRun.step (HeapRun.init h) pre)) ↔
      Along HeapRun.step (fun r c => ¬ c.Wraps r.heap.pos) (HeapRun.init h) calls :=
  safe_iff_along HeapRun.step (fun _ hr => hr.safe) (fun _ _ ha hr hw => heapInv_step hr ha hw)
    (fun _ _ ha hr hw => not_heapSafe_step hr ha (not_not.mp hw)) (heapInv_init h) hc

/-- The calls of the kernel's own memory test meet the condition. -/
theorem heap_safe_memory_test :
    HeapSafe (run HeapRun.step (HeapRun.init bootHeap)
      [.kmalloc 100, .kmallocAligned 256 16, .kcalloc 10 20]) := by
  refine (heap_safe_iff bootHeap _ ?_).mpr (by decide) _ List.prefix_rfl
  intro c hc
  simp only [List.mem_cons, List.not_mem_nil, or_false] at hc
  rcases hc with rfl | rfl | rfl
  · trivial
  · exact ⟨4, by decide, by decide⟩
  · trivial

/-- `kmalloc(4)` then `kmalloc(0xFFFFFFFF)`: the check computes `4 + 0xFFFFFFFF = 3`, and a block
of almost `2^32` bytes at offset 4 is handed out. -/
theorem heap_unsafe_on_wrap :
    ¬ HeapSafe (run HeapRun.step (HeapRun.init bootHeap) [.kmalloc 4, .kmalloc 0xFFFFFFFF]) := by
  intro hsafe
  have hin : (⟨4, 0xFFFFFFFF⟩ : Block).Inside := hsafe.inside _ (by decide)
  revert hin
  decide

end MinimalistOS
