import Mathlib.Algebra.Group.Nat.Defs
import Mathlib.Tactic.Common

/-!
# Machine words

Rounding a word to a power of two with a mask, as C code writes it: `x & ~(2^k - 1)` rounds
down, `(x + 2^k - 1) & ~(2^k - 1)` rounds up. The lemmas say what these do to `toNat`, so that the
rest of a proof is linear arithmetic.
-/

namespace Infra

/-- A 32-bit machine word. -/
abbrev Word := BitVec 32

/-- A byte. -/
abbrev Byte := BitVec 8

/-- The distance to a byte above an address. -/
theorem toNat_add_ofNat_sub (a : Word) {k : Nat} (h : k < 2 ^ 32) :
    (a + BitVec.ofNat 32 k - a).toNat = k := by
  rw [BitVec.add_comm, BitVec.add_sub_cancel, BitVec.toNat_ofNat, Nat.mod_eq_of_lt h]

variable {w k : Nat}

/-! ## Masks -/

theorem toNat_lowMask (hk : k < w) : (BitVec.twoPow w k - 1).toNat = 2 ^ k - 1 := by
  have hlt : 2 ^ k < 2 ^ w := Nat.pow_lt_pow_right (by omega) hk
  have hpos : 0 < 2 ^ k := Nat.two_pow_pos k
  have hone : (1 : BitVec w).toNat = 1 := by
    show (1#w).toNat = 1
    rw [BitVec.toNat_ofNat, Nat.mod_eq_of_lt (by omega)]
  have htwo : (BitVec.twoPow w k).toNat = 2 ^ k := by
    rw [BitVec.toNat_twoPow, Nat.mod_eq_of_lt hlt]
  rw [BitVec.toNat_sub_of_le (by rw [BitVec.le_def, hone, htwo]; omega), hone, htwo]

/-- Clearing the low `k` bits rounds down to a multiple of `2 ^ k`. -/
theorem toNat_and_not_lowMask (x : BitVec w) (hk : k < w) :
    (x &&& ~~~(BitVec.twoPow w k - 1)).toNat = x.toNat / 2 ^ k * 2 ^ k := by
  apply Nat.eq_of_testBit_eq
  intro i
  have hmask : (BitVec.twoPow w k - 1).getLsbD i = decide (i < k) := by
    rw [← BitVec.testBit_toNat, toNat_lowMask hk, Nat.testBit_two_pow_sub_one]
  rw [BitVec.testBit_toNat, BitVec.getLsbD_and, BitVec.getLsbD_not, hmask,
    Nat.testBit_mul_two_pow, Nat.testBit_div_two_pow, BitVec.testBit_toNat]
  by_cases hi : k ≤ i
  · rw [Nat.sub_add_cancel hi]
    by_cases hw : i < w
    · simp [hi, hw]
    · simp [BitVec.getLsbD_of_ge x i (by omega)]
  · simp [hi, show i < k by omega]

/-- The low `k` bits are the low `k` bits of what a mask of `k` bits leaves. -/
theorem setWidth_and_lowMask (x mask : BitVec w) (hmask : mask.toNat = 2 ^ k - 1) :
    (x &&& mask).setWidth k = x.setWidth k := by
  apply BitVec.eq_of_toNat_eq
  rw [BitVec.toNat_setWidth, BitVec.toNat_setWidth, BitVec.toNat_and, hmask,
    Nat.and_two_pow_sub_one_eq_mod, Nat.mod_mod]

/-- Rounding `n` up to a multiple of `m`. -/
def roundUp (n m : Nat) : Nat := (n + m - 1) / m * m

theorem le_roundUp {n m : Nat} (hm : 0 < m) : n ≤ roundUp n m := by
  have hdm := Nat.div_add_mod' (n + m - 1) m
  have hmod := Nat.mod_lt (n + m - 1) hm
  unfold roundUp
  omega

theorem roundUp_lt {n m : Nat} (hm : 0 < m) : roundUp n m < n + m := by
  have hle := Nat.div_mul_le_self (n + m - 1) m
  unfold roundUp
  omega

theorem dvd_roundUp (n m : Nat) : m ∣ roundUp n m := Nat.dvd_mul_left m _

/-- Rounding up stays below a multiple. -/
theorem roundUp_le {n m q : Nat} (hm : 0 < m) (h : n ≤ q * m) : roundUp n m ≤ q * m := by
  have hlt : (n + m - 1) / m < q + 1 := by
    rw [Nat.div_lt_iff_lt_mul hm, Nat.succ_mul]
    omega
  exact Nat.mul_le_mul_right m (Nat.lt_succ_iff.mp hlt)

/-- Rounding up with a mask is `roundUp` as long as the addition does not wrap. -/
theorem toNat_roundUp (x : BitVec w) (hk : k < w) (hx : x.toNat + 2 ^ k ≤ 2 ^ w) :
    ((x + BitVec.twoPow w k - 1) &&& ~~~(BitVec.twoPow w k - 1)).toNat
      = roundUp x.toNat (2 ^ k) := by
  have hpos : 0 < 2 ^ k := Nat.two_pow_pos k
  have hsum : (x + BitVec.twoPow w k - 1).toNat = x.toNat + 2 ^ k - 1 := by
    have hassoc : x + BitVec.twoPow w k - 1 = x + (BitVec.twoPow w k - 1) := by
      rw [BitVec.sub_eq_add_neg, BitVec.sub_eq_add_neg, BitVec.add_assoc]
    rw [hassoc, BitVec.toNat_add, toNat_lowMask hk, Nat.mod_eq_of_lt (by omega)]
    omega
  rw [toNat_and_not_lowMask _ hk, hsum, roundUp]

end Infra
