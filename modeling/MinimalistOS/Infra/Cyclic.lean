import Mathlib.Data.List.Nodup
import Mathlib.Data.List.Perm.Basic
import Mathlib.Tactic.Common

/-!
# Turns round a circle

The numbers below `n` in a circle, and a search that goes round it from the number after `c`.

* `cycle` — the numbers after `c`, in the order in which the search meets them
* `cycle_self` — one whole turn: up to the end, then from zero up to `c`
* `visits` — the search done again and again, each time from where it ended
* `visits_eq_filter` — so it meets, one after the other, what there is to find on the way
-/

namespace Infra

/-- The `m` numbers after `c` in the circle of the numbers below `n`. -/
def cycle (n c : Nat) : Nat → List Nat
  | 0 => []
  | m + 1 => (c + 1) % n :: cycle n ((c + 1) % n) m

theorem cycle_eq_map (n m : Nat) : ∀ c : Nat,
    cycle n c m = (List.range' (c + 1) m).map (· % n) := by
  induction m with
  | zero => intro c; rfl
  | succ m ih =>
    intro c
    rw [cycle, ih, List.range'_succ, List.map_cons, List.cons_inj_right]
    apply List.ext_getElem
    · simp
    · intro i _ _
      simp only [List.getElem_map, List.getElem_range', Nat.one_mul]
      rw [Nat.add_assoc ((c + 1) % n), Nat.mod_add_mod, Nat.add_assoc (c + 1)]

theorem lt_of_mem_cycle {n c m j : Nat} (hn : 0 < n) (hj : j ∈ cycle n c m) : j < n := by
  rw [cycle_eq_map, List.mem_map] at hj
  obtain ⟨i, -, rfl⟩ := hj
  exact Nat.mod_lt i hn

/-- **One whole turn** goes up to the end and comes back from below. -/
theorem cycle_self {n c : Nat} (hc : c < n) :
    cycle n c n = List.range' (c + 1) (n - (c + 1)) ++ List.range (c + 1) := by
  have hsplit : List.range' (c + 1) n
      = List.range' (c + 1) (n - (c + 1)) ++ List.range' n (c + 1) := by
    have happend := List.range'_append_1 (s := c + 1) (m := n - (c + 1)) (n := c + 1)
    rw [Nat.add_sub_cancel' hc, Nat.sub_add_cancel hc] at happend
    exact happend.symm
  rw [cycle_eq_map, hsplit, List.map_append]
  congr 1
  · apply List.ext_getElem
    · simp
    · intro i hi _
      simp only [List.length_map, List.length_range'] at hi
      simp only [List.getElem_map, List.getElem_range', Nat.one_mul]
      exact Nat.mod_eq_of_lt (by omega)
  · apply List.ext_getElem
    · simp
    · intro i hi _
      simp only [List.length_map, List.length_range'] at hi
      simp only [List.getElem_map, List.getElem_range', Nat.one_mul, List.getElem_range,
        Nat.add_mod_left]
      exact Nat.mod_eq_of_lt (by omega)

/-- A whole turn meets every number once. -/
theorem cycle_self_perm {n c : Nat} (hc : c < n) : (cycle n c n).Perm (List.range n) := by
  have happend := List.range'_append_1 (s := 0) (m := c + 1) (n := n - (c + 1))
  rw [Nat.zero_add, Nat.add_sub_cancel' hc] at happend
  rw [cycle_self hc, List.range_eq_range' (n := n), ← happend, ← List.range_eq_range']
  exact List.perm_append_comm

/-- A search over more than a whole turn finds what a whole turn finds. -/
theorem find?_cycle_of_le {n c m : Nat} {p : Nat → Bool} (hc : c < n) (hp : p c = true)
    (hm : n ≤ m) : (cycle n c m).find? p = (cycle n c n).find? p := by
  have hmem : c ∈ cycle n c n := (cycle_self_perm hc).mem_iff.mpr (List.mem_range.mpr hc)
  have hsplit : ∃ rest, cycle n c m = cycle n c n ++ rest := by
    have happend := List.range'_append_1 (s := c + 1) (m := n) (n := m - n)
    rw [Nat.add_sub_cancel' hm] at happend
    exact ⟨_, by rw [cycle_eq_map, cycle_eq_map, ← happend, List.map_append]⟩
  obtain ⟨rest, heq⟩ := hsplit
  have hsome : ((cycle n c n).find? p).isSome = true :=
    List.find?_isSome.mpr ⟨c, hmem, hp⟩
  rw [heq, List.find?_append, Option.or_of_isSome hsome]

/-! ## Searching again and again -/

/-- Where `k` searches end, each of which starts where the one before ended. -/
def visits (p : Nat → Bool) (n : Nat) : Nat → Nat → List Nat
  | 0, _ => []
  | k + 1, c =>
    match (cycle n c n).find? p with
    | none => []
    | some d => d :: visits p n k d

theorem cycle_self_succ {n c : Nat} (hc : c < n) :
    cycle n c n = (c + 1) % n :: cycle n ((c + 1) % n) (n - 1) := by
  obtain ⟨m, rfl⟩ : ∃ m, n = m + 1 := ⟨n - 1, by omega⟩
  rfl

/-- The last number of a turn is the one it started from. -/
theorem cycle_self_concat {n c : Nat} (hc : c < n) :
    cycle n c n = cycle n c (n - 1) ++ [c] := by
  have hsplit : List.range' (c + 1) n = List.range' (c + 1) (n - 1) ++ [c + n] := by
    have happend := List.range'_append_1 (s := c + 1) (m := n - 1) (n := 1)
    rw [Nat.sub_add_cancel (by omega), show c + 1 + (n - 1) = c + n by omega] at happend
    exact happend.symm
  rw [cycle_eq_map, cycle_eq_map, hsplit, List.map_append, List.map_singleton, Nat.add_mod_right,
    Nat.mod_eq_of_lt hc]

/-- The search from `c` on and the one from the next number on find the same, if that number is not
it. -/
theorem find?_cycle_next {n c : Nat} {p : Nat → Bool} (hc : c < n)
    (hp : p ((c + 1) % n) = false) :
    (cycle n c n).find? p = (cycle n ((c + 1) % n) n).find? p := by
  have hlt : (c + 1) % n < n := Nat.mod_lt _ (by omega)
  rw [cycle_self_succ hc, List.find?_cons_of_neg (by rw [hp]; decide), cycle_self_concat hlt,
    List.find?_append, List.find?_singleton, hp]
  simp

/-- **The searches meet, in their order, all that there is to find on the way.** -/
theorem visits_eq_filter {n : Nat} (p : Nat → Bool) (m : Nat) : ∀ {c : Nat}, c < n →
    visits p n ((cycle n c m).filter p).length c = (cycle n c m).filter p := by
  induction m with
  | zero => intro c _; rfl
  | succ m ih =>
    intro c hc
    have hlt : (c + 1) % n < n := Nat.mod_lt _ (by omega)
    have hrest := ih hlt
    rw [cycle]
    cases hp : p ((c + 1) % n) with
    | true =>
      have hfind : (cycle n c n).find? p = some ((c + 1) % n) := by
        rw [cycle_self_succ hc, List.find?_cons_of_pos hp]
      rw [List.filter_cons_of_pos hp, List.length_cons, visits, hfind]
      simp only [hrest]
    | false =>
      rw [List.filter_cons_of_neg (by rw [hp]; decide)]
      -- the first search passes this number, and so it could have started there
      have hsame : ∀ k, visits p n k c = visits p n k ((c + 1) % n) := by
        intro k
        cases k with
        | zero => rfl
        | succ k => rw [visits, visits, find?_cycle_next hc hp]
      rw [hsame, hrest]

end Infra
