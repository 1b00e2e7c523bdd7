import Mathlib.Data.Prod.Lex
import Mathlib.Order.Bounds.Basic

/-!
# Scans over rows and columns

A table is searched row by row, and in a row from left to right; the search ends at the first hit.
This is the least hit in the lexicographic order.

* `firstHit` — the search
* `firstHit_eq_some_iff`, `firstHit_eq_none_iff` — what it finds, and when it finds nothing
-/

namespace Infra

variable {p : Nat → Nat → Bool} {m n : Nat}

/-- The hits among the first `m` rows and `n` columns. -/
def hits (p : Nat → Nat → Bool) (m n : Nat) : Set (Nat ×ₗ Nat) :=
  {x | (ofLex x).1 < m ∧ (ofLex x).2 < n ∧ p (ofLex x).1 (ofLex x).2 = true}

/-- The first hit of a row. -/
def rowHit (p : Nat → Nat → Bool) (n i : Nat) : Option (Nat × Nat) :=
  ((List.range n).find? (p i)).map (i, ·)

/-- The first hit of `m` rows. -/
def firstHit (p : Nat → Nat → Bool) (m n : Nat) : Option (Nat × Nat) :=
  (List.range m).findSome? (rowHit p n)

theorem findSome?_range_eq_some {β : Type*} {f : Nat → Option β} {b : β} :
    (List.range m).findSome? f = some b ↔ ∃ i < m, f i = some b ∧ ∀ k < i, f k = none := by
  induction m with
  | zero => simp
  | succ m ih =>
    rw [List.range_succ, List.findSome?_append, Option.or_eq_some_iff, ih,
      List.findSome?_eq_none_iff]
    constructor
    · rintro (⟨i, hi, hfound, hbefore⟩ | ⟨hnone, hlast⟩)
      · exact ⟨i, by omega, hfound, hbefore⟩
      · exact ⟨m, by omega, by simpa using hlast, fun k hk => hnone k (List.mem_range.mpr hk)⟩
    · rintro ⟨i, hi, hfound, hbefore⟩
      by_cases him : i < m
      · exact .inl ⟨i, him, hfound, hbefore⟩
      · obtain rfl : i = m := by omega
        exact .inr ⟨fun k hk => hbefore k (List.mem_range.mp hk), by simpa using hfound⟩

theorem rowHit_eq_none_iff {i : Nat} : rowHit p n i = none ↔ ∀ j < n, p i j = false := by
  simp [rowHit]

theorem rowHit_eq_some_iff {i : Nat} {x : Nat × Nat} :
    rowHit p n i = some x ↔
      x.1 = i ∧ x.2 < n ∧ p i x.2 = true ∧ ∀ j < x.2, p i j = false := by
  obtain ⟨a, j⟩ := x
  simp only [rowHit, Option.map_eq_some_iff, List.find?_range_eq_some, List.mem_range,
    Prod.mk.injEq, Bool.not_eq_true']
  constructor
  · rintro ⟨j, ⟨hp, hj, hbefore⟩, rfl, rfl⟩
    exact ⟨rfl, hj, hp, hbefore⟩
  · rintro ⟨rfl, hj, hp, hbefore⟩
    exact ⟨j, ⟨hp, hj, hbefore⟩, rfl, rfl⟩

/-- What is found is the least hit. -/
theorem firstHit_eq_some_iff {x : Nat × Nat} :
    firstHit p m n = some x ↔ IsLeast (hits p m n) (toLex x) := by
  unfold firstHit
  rw [findSome?_range_eq_some]
  constructor
  · rintro ⟨i, hi, hrow, hbefore⟩
    obtain ⟨rfl, hj, hp, hleft⟩ := rowHit_eq_some_iff.mp hrow
    refine ⟨⟨hi, hj, hp⟩, fun y hy => ?_⟩
    obtain ⟨-, hcol, hpy⟩ := hy
    rw [Prod.Lex.le_iff]
    -- a hit is in no row above, and not to the left in the same row
    rcases Nat.lt_trichotomy (ofLex y).1 x.1 with habove | hsame | hbelow
    · have hnone := rowHit_eq_none_iff.mp (hbefore _ habove) _ hcol
      simp [hpy] at hnone
    · refine .inr ⟨hsame.symm, ?_⟩
      by_contra hlt
      have hfalse := hleft (ofLex y).2 (Nat.not_le.mp hlt)
      rw [← hsame, hpy] at hfalse
      exact absurd hfalse (by decide)
    · exact .inl hbelow
  · rintro ⟨⟨hi, hj, hp⟩, hleast⟩
    have hle : ∀ i j, i < m → j < n → p i j = true → x.1 < i ∨ x.1 = i ∧ x.2 ≤ j :=
      fun i j hi hj hp => Prod.Lex.le_iff.mp (hleast (a := toLex (i, j)) ⟨hi, hj, hp⟩)
    refine ⟨x.1, hi, rowHit_eq_some_iff.mpr ⟨rfl, hj, hp, fun j hjx => ?_⟩, fun i hix => ?_⟩
    · by_contra htrue
      have := hle x.1 j hi (hjx.trans hj) (Bool.not_eq_false _ ▸ htrue)
      omega
    · refine rowHit_eq_none_iff.mpr fun j hjn => ?_
      by_contra htrue
      have := hle i j (hix.trans hi) hjn (Bool.not_eq_false _ ▸ htrue)
      omega

theorem firstHit_eq_none_iff : firstHit p m n = none ↔ hits p m n = ∅ := by
  simp only [firstHit, List.findSome?_eq_none_iff, List.mem_range, rowHit_eq_none_iff,
    Set.eq_empty_iff_forall_notMem]
  constructor
  · rintro hnone x ⟨hi, hj, hp⟩
    rw [hnone _ hi _ hj] at hp
    exact absurd hp (by decide)
  · intro hempty i hi j hj
    by_contra htrue
    exact hempty (toLex (i, j)) ⟨hi, hj, Bool.not_eq_false _ ▸ htrue⟩

end Infra
