import MinimalistOS.Infra.Cyclic
import MinimalistOS.Infra.Run
import Mathlib.Data.List.Rotate

/-!
# Waiting on a circle, and shares of it

* `ahead` — how many steps one number is ahead of another on a circle
* `ahead_of_find?` — a search that stops before a number has come closer to it, and closer on any
  larger circle too
* `bounded_response` — a distance that some of the steps decrease bounds how many of them it takes
* `rounds` — who is first, when after each turn the first one goes to the end
* `count_rounds` — how often each of them is first
-/

namespace Infra

/-! ## Waiting -/

/-- How many steps `j` is ahead of `c` on the circle of the numbers below `m`. -/
def ahead (m c j : Nat) : Nat := if c < j then j - c else j + m - c

theorem getElem_cycle {n c m k : Nat} (hk : k < (cycle n c m).length) :
    (cycle n c m)[k] = (c + 1 + k) % n := by
  simp only [cycle_eq_map, List.getElem_map, List.getElem_range', Nat.one_mul]

@[simp] theorem length_cycle (n c m : Nat) : (cycle n c m).length = m := by
  rw [cycle_eq_map, List.length_map, List.length_range']

/-- **A search stops at a number or before it**, and then the number is not as far ahead as it was.
The circle of the search may be smaller than that of the measure. -/
theorem ahead_of_find? {m n c j d l : Nat} {p : Nat → Bool} (hn : n ≤ m) (hc : c < n) (hj : j < n)
    (hp : p j = true) (hfind : (cycle n c l).find? p = some d) :
    d = j ∨ ahead m d j < ahead m c j := by
  obtain ⟨-, k, hk, hd, hbefore⟩ := List.find?_eq_some_iff_getElem.mp hfind
  rw [getElem_cycle] at hd
  -- the place of `j` is not passed
  have hle : k + 1 ≤ ahead n c j := by
    by_contra hgt
    have hpos : 0 < ahead n c j := by
      unfold ahead
      split <;> omega
    have hplace : ahead n c j - 1 < k := by omega
    have hmiss := hbefore (ahead n c j - 1) hplace
    have hmod : (c + 1 + (ahead n c j - 1)) % n = j := by
      unfold ahead at hgt ⊢
      split
      · rw [show c + 1 + (j - c - 1) = j by omega, Nat.mod_eq_of_lt hj]
      · rw [show c + 1 + (j + n - c - 1) = j + n by omega, Nat.add_mod_right, Nat.mod_eq_of_lt hj]
    rw [getElem_cycle, hmod, hp] at hmiss
    exact absurd hmiss (by decide)
  unfold ahead at hle ⊢
  by_cases hlt : c + 1 + k < n
  · rw [Nat.mod_eq_of_lt hlt] at hd
    split at hle
    · by_cases hdj : d = j
      · exact .inl hdj
      · rw [if_pos (by omega), if_pos (by omega)]
        omega
    · rw [if_neg (by omega), if_neg (by omega)]
      omega
  · rw [show c + 1 + k = c + 1 + k - n + n by omega, Nat.add_mod_right,
      Nat.mod_eq_of_lt (by split at hle <;> omega)] at hd
    split at hle
    · omega
    · by_cases hdj : d = j
      · exact .inl hdj
      · rw [if_pos (by omega), if_neg (by omega)]
        omega

/-- **Bounded response.** While something waits, some of the steps decrease its distance or end the
wait, and the others do not increase it. Then it takes no more of those steps than the distance. -/
theorem bounded_response {σ α ω : Type*} {step : σ → α → σ × ω} {waiting : σ → Prop}
    {distance : σ → Nat} {counts : α → Bool} {response : σ → α → Prop}
    (hpos : ∀ s, waiting s → 0 < distance s)
    (hidle : ∀ s a, waiting s → counts a = false →
      waiting (step s a).1 ∧ distance (step s a).1 ≤ distance s)
    (hstep : ∀ s a, waiting s → counts a = true →
      response s a ∨ waiting (step s a).1 ∧ distance (step s a).1 < distance s)
    (as : List α) : ∀ {s : σ}, waiting s → distance s ≤ as.countP counts →
      ∃ front a back, as = front ++ a :: back ∧ response (run step s front) a ∧
        (front ++ [a]).countP counts ≤ distance s := by
  induction as with
  | nil =>
    intro s hs hle
    exact absurd hle (Nat.not_le.mpr (hpos s hs))
  | cons a as ih =>
    intro s hs hle
    cases hcounts : counts a with
    | false =>
      obtain ⟨hs', hdist⟩ := hidle s a hs hcounts
      rw [List.countP_cons_of_neg (by rw [hcounts]; decide)] at hle
      obtain ⟨front, b, back, rfl, hresponse, hcount⟩ := ih hs' (Nat.le_trans hdist hle)
      refine ⟨a :: front, b, back, rfl, hresponse, ?_⟩
      rw [List.cons_append, List.countP_cons_of_neg (by rw [hcounts]; decide)]
      exact Nat.le_trans hcount hdist
    | true =>
      rcases hstep s a hs hcounts with hnow | ⟨hs', hdist⟩
      · refine ⟨[], a, as, rfl, hnow, ?_⟩
        rw [List.nil_append, List.countP_cons_of_pos hcounts, List.countP_nil]
        exact hpos s hs
      · rw [List.countP_cons_of_pos hcounts] at hle
        obtain ⟨front, b, back, rfl, hresponse, hcount⟩ := ih hs' (by omega)
        refine ⟨a :: front, b, back, rfl, hresponse, ?_⟩
        rw [List.cons_append, List.countP_cons_of_pos hcounts]
        omega

/-! ## Shares -/

/-- What there is on the circle, from where a search ended on, is the same turned by one place. -/
theorem filter_cycle_of_find? {n : Nat} {p : Nat → Bool} {d : Nat} (l : Nat) : ∀ {c : Nat}, c < n →
    (cycle n c l).find? p = some d →
      (cycle n d n).filter p = ((cycle n c n).filter p).rotate 1 := by
  induction l with
  | zero => exact fun _ h => absurd h (by simp [cycle])
  | succ l ih =>
    intro c hc hfind
    have hlt : (c + 1) % n < n := Nat.mod_lt _ (Nat.zero_lt_of_lt hc)
    rw [cycle] at hfind
    cases hp : p ((c + 1) % n) with
    | true =>
      rw [List.find?_cons_of_pos hp] at hfind
      obtain rfl := Option.some.inj hfind
      rw [cycle_self_succ hc, cycle_self_concat hlt, List.filter_append, List.filter_cons_of_pos hp,
        List.filter_cons_of_pos hp, List.filter_nil, List.rotate_cons_succ, List.rotate_zero]
    | false =>
      rw [List.find?_cons_of_neg (by rw [hp]; decide)] at hfind
      have hsame : (cycle n c n).filter p = (cycle n ((c + 1) % n) n).filter p := by
        rw [cycle_self_succ hc, cycle_self_concat hlt, List.filter_append,
          List.filter_cons_of_neg (by rw [hp]; decide), List.filter_cons_of_neg (by rw [hp]; decide),
          List.filter_nil, List.append_nil]
      rw [hsame]
      exact ih hlt hfind

section Rounds

variable {α : Type}

/-- Division with one more to divide. -/
theorem div_mod_succ {k : Nat} (hk : 0 < k) (m : Nat) :
    (m % k + 1 = k ∧ (m + 1) / k = m / k + 1 ∧ (m + 1) % k = 0) ∨
      (m % k + 1 < k ∧ (m + 1) / k = m / k ∧ (m + 1) % k = m % k + 1) := by
  have hlt := Nat.mod_lt m hk
  have hsum := Nat.mod_add_div m k
  rcases Nat.lt_or_eq_of_le (Nat.succ_le_of_lt hlt) with h | h
  · exact .inr ⟨h, (Nat.div_mod_unique hk).mpr ⟨by omega, h⟩⟩
  · refine .inl ⟨h, (Nat.div_mod_unique hk).mpr ⟨?_, hk⟩⟩
    rw [Nat.mul_succ]
    omega

/-- Who is first in `m` rounds; after each the first one goes to the end. -/
def rounds (l : List α) : Nat → List α
  | 0 => []
  | m + 1 => l.head?.toList ++ rounds (l.rotate 1) m

theorem mem_of_mem_rounds {a : α} (m : Nat) : ∀ {l : List α}, a ∈ rounds l m → a ∈ l := by
  induction m with
  | zero => exact fun h => absurd h List.not_mem_nil
  | succ m ih =>
    intro l h
    rcases List.mem_append.mp h with hfirst | hrest
    · exact List.mem_of_mem_head? (by simpa using hfirst)
    · exact List.mem_rotate.mp (ih hrest)

/-- **The shares differ by one at most**, and those in front have the larger one. -/
theorem count_rounds [DecidableEq α] {a : α} (m : Nat) : ∀ {l : List α}, l.Nodup → a ∈ l →
    (rounds l m).count a = m / l.length + if l.idxOf a < m % l.length then 1 else 0 := by
  induction m with
  | zero =>
    intro l _ _
    simp [rounds]
  | succ m ih =>
    intro l hnodup ha
    cases l with
    | nil => exact absurd ha List.not_mem_nil
    | cons b l =>
      have hrotate : (b :: l).rotate 1 = l ++ [b] := by rw [List.rotate_cons_succ, List.rotate_zero]
      have hrest : (rounds (l ++ [b]) m).count a = m / (l.length + 1)
          + if (l ++ [b]).idxOf a < m % (l.length + 1) then 1 else 0 := by
        have hturned : (rounds ((b :: l).rotate 1) m).count a = _ :=
          ih (List.nodup_rotate.mpr hnodup) (List.mem_rotate.mpr ha)
        rwa [hrotate, List.length_append, List.length_singleton] at hturned
      have hround := div_mod_succ (Nat.succ_pos l.length) m
      rw [Nat.succ_eq_add_one] at hround
      rw [rounds, hrotate, List.count_append, hrest, List.length_cons, List.head?_cons,
        Option.toList_some]
      by_cases hab : a = b
      · -- the first one is now the last
        subst hab
        rw [List.count_singleton_self, List.idxOf_cons_self,
          List.idxOf_append_of_notMem (List.nodup_cons.mp hnodup).1, List.idxOf_cons_self]
        rcases hround with ⟨hmod, hdiv, hzero⟩ | ⟨hmod, hdiv, hsucc⟩
        · rw [hdiv, hzero, if_neg (by omega), if_neg (by omega)]
          omega
        · rw [hdiv, hsucc, if_neg (by omega), if_pos (by omega)]
          omega
      · have hmem : a ∈ l := (List.mem_cons.mp ha).resolve_left hab
        have hidx := List.idxOf_lt_length_of_mem hmem
        rw [List.count_singleton, if_neg (by simpa using Ne.symm hab),
          List.idxOf_append_of_mem hmem, List.idxOf_cons_ne _ (Ne.symm hab)]
        rcases hround with ⟨hmod, hdiv, hzero⟩ | ⟨hmod, hdiv, hsucc⟩
        · rw [hdiv, hzero, if_pos (by omega), if_neg (by omega)]
          omega
        · rw [hdiv, hsucc]
          simp only [Nat.succ_eq_add_one, Nat.add_lt_add_iff_right]
          omega

end Rounds

end Infra
