import Mathlib.Data.List.Lex
import Mathlib.Order.Lattice
import Mathlib.Tactic.Common

/-!
# Three-way comparisons

A comparison in the convention of C returns an integer whose sign says how two values compare.

* `ThreeWay` — the integer says how `a` and `b` compare
* `ThreeWay.of_sub` — a difference of numbers does
* `ThreeWay.cons_self`, `ThreeWay.cons_of_ne` — lists in lexicographic order, by their heads
* `ThreeWay.sign_eq`, `ThreeWay.sign_swap`, `ThreeWay.trans` — what a caller can rely on
-/

namespace Infra

variable {α : Type*} [LinearOrder α]

/-- The sign of `r` is how `a` and `b` compare. -/
structure ThreeWay (r : Int) (a b : α) : Prop where
  neg : r < 0 ↔ a < b
  zero : r = 0 ↔ a = b
  pos : 0 < r ↔ b < a

namespace ThreeWay

variable {r r' : Int} {a b c : α}

/-- The difference of two numbers. -/
theorem of_sub (m n : Nat) : ThreeWay ((m : Int) - n) m n where
  neg := by omega
  zero := by omega
  pos := by omega

/-! ## What a caller can rely on -/

/-- Two comparisons of the same values have the same sign. -/
theorem sign_eq (h : ThreeWay r a b) (h' : ThreeWay r' a b) : r.sign = r'.sign := by
  rcases lt_trichotomy a b with hlt | heq | hgt
  · rw [Int.sign_eq_neg_one_of_neg (h.neg.mpr hlt), Int.sign_eq_neg_one_of_neg (h'.neg.mpr hlt)]
  · rw [h.zero.mpr heq, h'.zero.mpr heq]
  · rw [Int.sign_eq_one_of_pos (h.pos.mpr hgt), Int.sign_eq_one_of_pos (h'.pos.mpr hgt)]

theorem swap (h : ThreeWay r a b) : ThreeWay (-r) b a where
  neg := by
    rw [← h.pos]
    omega
  zero := by
    rw [eq_comm (a := b), ← h.zero]
    omega
  pos := by
    rw [← h.neg]
    omega

/-- With the arguments exchanged the sign is the opposite one. -/
theorem sign_swap (h : ThreeWay r a b) (h' : ThreeWay r' b a) : r'.sign = -r.sign := by
  rw [h'.sign_eq h.swap, Int.sign_neg]

theorem le_zero_iff (h : ThreeWay r a b) : r ≤ 0 ↔ a ≤ b := by
  rw [← Int.not_lt, h.pos, not_lt]

/-- "Not greater" is transitive, and so is "less". -/
theorem trans {r'' : Int} (h : ThreeWay r a b) (h' : ThreeWay r' b c) (h'' : ThreeWay r'' a c) :
    (r ≤ 0 → r' ≤ 0 → r'' ≤ 0) ∧ (r < 0 → r' < 0 → r'' < 0) := by
  rw [h.le_zero_iff, h'.le_zero_iff, h''.le_zero_iff, h.neg, h'.neg, h''.neg]
  exact ⟨le_trans, lt_trans⟩

/-! ## Lists in lexicographic order -/

variable {l m : List α}

theorem nil_nil : ThreeWay 0 ([] : List α) [] := by
  refine ⟨?_, ?_, ?_⟩ <;> simp

theorem nil_cons (hr : r < 0) : ThreeWay r [] (b :: m) where
  neg := iff_of_true hr (List.nil_lt_cons b m)
  zero := iff_of_false (by omega) (List.cons_ne_nil b m).symm
  pos := iff_of_false (by omega) (List.not_lt_nil _)

theorem cons_nil (hr : 0 < r) : ThreeWay r (a :: l) [] where
  neg := iff_of_false (by omega) (List.not_lt_nil _)
  zero := iff_of_false (by omega) (List.cons_ne_nil a l)
  pos := iff_of_true hr (List.nil_lt_cons a l)

/-- With the same first element the rest decides. -/
theorem cons_self (h : ThreeWay r l m) (a : α) : ThreeWay r (a :: l) (a :: m) where
  neg := by
    rw [h.neg, List.cons_lt_cons_self]
  zero := by
    rw [h.zero, List.cons_inj_right]
  pos := by
    rw [h.pos, List.cons_lt_cons_self]

/-- Two different first elements decide. -/
theorem cons_of_ne (h : ThreeWay r a b) (hne : a ≠ b) (l m : List α) :
    ThreeWay r (a :: l) (b :: m) where
  neg := by
    rw [h.neg, List.cons_lt_cons_iff]
    simp [hne]
  zero := by
    rw [h.zero]
    exact iff_of_false hne fun heq => hne (List.head_eq_of_cons_eq heq)
  pos := by
    rw [h.pos, List.cons_lt_cons_iff]
    simp [hne.symm]

end ThreeWay

end Infra
