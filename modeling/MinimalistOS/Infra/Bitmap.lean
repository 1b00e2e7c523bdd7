import Mathlib.Data.Finset.Card
import Mathlib.Data.Finset.Range
import Mathlib.Tactic.Common

/-!
# Bitmaps

A vector of `n` words of `w` bits as a set of numbers below `n * w`: number `i` is bit `i % w` of
word `i / w`. The operations are the ones C code writes with shifts and masks; the lemmas say
that they insert, erase and test exactly one number.
-/

namespace Infra.Bitmap

variable {w n : Nat}

/-- A word of the vector, zero outside it. -/
def word (b : Vector (BitVec w) n) (k : Nat) : BitVec w := b[k]?.getD 0

/-- Is bit `i` set? -/
def mem (b : Vector (BitVec w) n) (i : Nat) : Bool := (word b (i / w)).getLsbD (i % w)

/-- `b[i / w] |= 1 << (i % w)`. -/
def insert (b : Vector (BitVec w) n) (i : Nat) : Vector (BitVec w) n :=
  b.setIfInBounds (i / w) (word b (i / w) ||| 1#w <<< (i % w))

/-- `b[i / w] &= ~(1 << (i % w))`. -/
def erase (b : Vector (BitVec w) n) (i : Nat) : Vector (BitVec w) n :=
  b.setIfInBounds (i / w) (word b (i / w) &&& ~~~(1#w <<< (i % w)))

/-- The numbers whose bit is set. -/
def members (b : Vector (BitVec w) n) : Finset Nat :=
  (Finset.range (n * w)).filter fun i => mem b i

/-! ## Words -/

theorem word_setIfInBounds (b : Vector (BitVec w) n) {k : Nat} (hk : k < n) (v : BitVec w)
    (j : Nat) : word (b.setIfInBounds k v) j = if j = k then v else word b j := by
  unfold word
  rw [Vector.getElem?_setIfInBounds]
  by_cases hj : j = k
  · subst hj
    simp [hk]
  · rw [if_neg (Ne.symm hj), if_neg hj]

theorem getLsbD_one_shiftLeft {k j : Nat} (hj : j < w) :
    (1#w <<< k).getLsbD j = decide (j = k) := by
  rw [← BitVec.twoPow_eq, BitVec.getLsbD_twoPow]
  by_cases h : j = k
  · subst h; simp [hj]
  · simp [h, Ne.symm h]

/-- The test `v & (1 << k)` of C. -/
theorem and_one_shiftLeft_eq_zero_iff (v : BitVec w) {k : Nat} (hk : k < w) :
    v &&& 1#w <<< k = 0 ↔ v.getLsbD k = false := by
  constructor
  · intro hzero
    have hbit := congrArg (fun u => u.getLsbD k) hzero
    simpa [getLsbD_one_shiftLeft hk] using hbit
  · intro hbit
    apply BitVec.eq_of_getLsbD_eq
    intro j hj
    rw [BitVec.getLsbD_and, getLsbD_one_shiftLeft hj]
    by_cases hjk : j = k
    · subst hjk
      simp [hbit]
    · simp [hjk]

/-- The test `b[i / w] & (1 << (i % w))` of C. -/
theorem and_mask_ne_zero_iff (hw : 0 < w) (b : Vector (BitVec w) n) (i : Nat) :
    word b (i / w) &&& 1#w <<< (i % w) ≠ 0 ↔ mem b i = true := by
  rw [Ne, and_one_shiftLeft_eq_zero_iff _ (Nat.mod_lt i hw), Bool.not_eq_false]
  exact Iff.rfl

/-! ## Insertion and erasure -/

/-- Two numbers are the same exactly when they have the same word and the same bit. -/
theorem eq_iff_div_mod (i j : Nat) : j = i ↔ j / w = i / w ∧ j % w = i % w := by
  constructor
  · rintro rfl; exact ⟨rfl, rfl⟩
  · rintro ⟨hd, hm⟩
    rw [← Nat.div_add_mod j w, ← Nat.div_add_mod i w, hd, hm]

theorem div_lt_of_lt {i : Nat} (hi : i < n * w) : i / w < n :=
  Nat.div_lt_of_lt_mul (by rwa [Nat.mul_comm])

theorem mem_insert (hw : 0 < w) (b : Vector (BitVec w) n) {i : Nat} (hi : i < n * w) (j : Nat) :
    mem (insert b i) j = (decide (j = i) || mem b j) := by
  have hlt : j % w < w := Nat.mod_lt _ hw
  unfold mem insert
  rw [word_setIfInBounds b (div_lt_of_lt hi)]
  by_cases hd : j / w = i / w
  · rw [if_pos hd, BitVec.getLsbD_or, getLsbD_one_shiftLeft hlt, hd, Bool.or_comm]
    simp [eq_iff_div_mod (w := w) i j, hd]
  · rw [if_neg hd]
    simp [eq_iff_div_mod (w := w) i j, hd]

theorem mem_erase (hw : 0 < w) (b : Vector (BitVec w) n) {i : Nat} (hi : i < n * w) (j : Nat) :
    mem (erase b i) j = (!decide (j = i) && mem b j) := by
  have hlt : j % w < w := Nat.mod_lt _ hw
  unfold mem erase
  rw [word_setIfInBounds b (div_lt_of_lt hi)]
  by_cases hd : j / w = i / w
  · rw [if_pos hd, BitVec.getLsbD_and, BitVec.getLsbD_not, getLsbD_one_shiftLeft hlt, hd,
      Bool.and_comm]
    simp [eq_iff_div_mod (w := w) i j, hd, hlt]
  · rw [if_neg hd]
    simp [eq_iff_div_mod (w := w) i j, hd]

/-- Two vectors with the same words are the same. -/
theorem ext_word {b b' : Vector (BitVec w) n} (h : ∀ k < n, word b k = word b' k) : b = b' := by
  apply Vector.ext
  intro k hk
  have hword := h k hk
  simpa [word, hk] using hword

/-- Erasing what was inserted gives the bitmap back. -/
theorem erase_insert {b : Vector (BitVec w) n} {i : Nat} (hi : i < n * w)
    (hnot : mem b i = false) : erase (insert b i) i = b := by
  have hlt := div_lt_of_lt hi
  unfold mem at hnot
  apply ext_word
  intro k _
  rw [erase, insert, word_setIfInBounds _ hlt, word_setIfInBounds _ hlt, if_pos rfl]
  by_cases hk : k = i / w
  · subst hk
    rw [if_pos rfl]
    apply BitVec.eq_of_getLsbD_eq
    intro j hj
    rw [BitVec.getLsbD_and, BitVec.getLsbD_not, BitVec.getLsbD_or, getLsbD_one_shiftLeft hj]
    by_cases hjk : j = i % w
    · subst hjk
      simp [hnot]
    · simp [hjk, hj]
  · rw [if_neg hk, word_setIfInBounds _ hlt, if_neg hk]

/-! ## The set of members -/

theorem mem_members {b : Vector (BitVec w) n} {i : Nat} :
    i ∈ members b ↔ i < n * w ∧ mem b i = true := by
  simp [members]

theorem members_insert (hw : 0 < w) (b : Vector (BitVec w) n) {i : Nat} (hi : i < n * w) :
    members (insert b i) = Insert.insert i (members b) := by
  ext j
  rw [Finset.mem_insert, mem_members, mem_members, mem_insert hw b hi]
  by_cases hj : j = i
  · subst hj; simp [hi]
  · simp [hj]

theorem members_erase (hw : 0 < w) (b : Vector (BitVec w) n) {i : Nat} (hi : i < n * w) :
    members (erase b i) = (members b).erase i := by
  ext j
  rw [Finset.mem_erase, mem_members, mem_members, mem_erase hw b hi]
  by_cases hj : j = i
  · simp [hj]
  · simp [hj]

theorem card_members_insert (hw : 0 < w) {b : Vector (BitVec w) n} {i : Nat} (hi : i < n * w)
    (hnot : mem b i = false) : (members (insert b i)).card = (members b).card + 1 := by
  rw [members_insert hw b hi, Finset.card_insert_of_notMem]
  rw [mem_members, hnot]
  simp

/-- Clearing a bit takes one off the count if it was set, and nothing if it was clear. -/
theorem card_members_erase (hw : 0 < w) (b : Vector (BitVec w) n) {i : Nat} (hi : i < n * w) :
    (members (erase b i)).card = (members b).card - if mem b i then 1 else 0 := by
  rw [members_erase hw b hi, Finset.card_erase_eq_ite]
  by_cases hmem : mem b i = true
  · rw [if_pos (mem_members.mpr ⟨hi, hmem⟩), if_pos hmem]
  · rw [if_neg fun h => hmem (mem_members.mp h).2, if_neg hmem, Nat.sub_zero]

theorem card_members_le (b : Vector (BitVec w) n) : (members b).card ≤ n * w := by
  have := Finset.card_filter_le (Finset.range (n * w)) fun i => mem b i
  simpa [members] using this

end Infra.Bitmap
