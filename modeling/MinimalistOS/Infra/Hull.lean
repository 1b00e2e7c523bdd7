import Mathlib.Order.Bounds.Basic
import Mathlib.Order.Lattice.Nat

/-!
# The hull of intervals, in one pass

A sweep over a list of intervals keeps the least start it has seen and, relative to that, a length.
When a later interval starts further down, the start moves and the length stays: the end of the
hull comes down with the start.

* `Swept` — what the sweep has found after a list
* `swept_concat` — one more interval
* `sweep_spec` — the start is the least one; the end is the greatest one exactly when an interval
  with the greatest end does not stand before all those with the least start
-/

namespace Infra.Hull

/-- One interval, from a start and an end. The start is moved, the length is kept, and then the end
is moved up if it has to be. -/
def step (acc x : Nat × Nat) : Nat × Nat :=
  (min acc.1 x.1, max (min acc.1 x.1 + (acc.2 - acc.1)) x.2)

def sweep (acc : Nat × Nat) (l : List (Nat × Nat)) : Nat × Nat := l.foldl step acc

/-- An interval with the greatest end has one with the least start before it, or is one. -/
def EndAfterStart (l : List (Nat × Nat)) : Prop :=
  ∃ pre x post, l = pre ++ x :: post ∧ (∀ y ∈ l, y.2 ≤ x.2) ∧
    ∃ b ∈ pre ++ [x], ∀ y ∈ l, b.1 ≤ y.1

/-- What the sweep has found after a list. -/
structure Swept (l : List (Nat × Nat)) (acc : Nat × Nat) : Prop where
  le : acc.1 ≤ acc.2
  start : IsLeast {a | ∃ x ∈ l, x.1 = a} acc.1
  below : ∃ x ∈ l, acc.2 ≤ x.2
  exact : (∀ x ∈ l, x.2 ≤ acc.2) ↔ EndAfterStart l

theorem swept_singleton {x : Nat × Nat} (hx : x.1 ≤ x.2) : Swept [x] x where
  le := hx
  start := by
    refine ⟨⟨x, List.mem_singleton_self x, rfl⟩, ?_⟩
    rintro a ⟨y, hy, rfl⟩
    rw [List.mem_singleton.mp hy]
  below := ⟨x, List.mem_singleton_self x, Nat.le_refl _⟩
  exact := by
    refine iff_of_true (List.forall_mem_singleton.mpr (Nat.le_refl _)) ?_
    exact ⟨[], x, [], rfl, List.forall_mem_singleton.mpr (Nat.le_refl _), x,
      List.mem_singleton_self x, List.forall_mem_singleton.mpr (Nat.le_refl _)⟩

theorem mem_concat_iff {l : List (Nat × Nat)} {x : Nat × Nat} {P : Nat × Nat → Prop} :
    (∀ y ∈ l ++ [x], P y) ↔ (∀ y ∈ l, P y) ∧ P x := by
  rw [List.forall_mem_append, List.forall_mem_singleton]

/-- The condition for a list that is longer by one interval: that one has the greatest end, or the
condition is met without it, and it is neither further up nor further down. -/
theorem Swept.endAfterStart_concat {l : List (Nat × Nat)} {acc : Nat × Nat} (h : Swept l acc)
    (x : Nat × Nat) :
    EndAfterStart (l ++ [x]) ↔
      (∀ y ∈ l, y.2 ≤ x.2) ∨ (EndAfterStart l ∧ (∃ y ∈ l, x.2 ≤ y.2) ∧ acc.1 ≤ x.1) := by
  obtain ⟨⟨least, hleast, hstart⟩, hlower⟩ := h.start
  have hbase : ∀ y ∈ l, acc.1 ≤ y.1 := fun y hy => hlower ⟨y, hy, rfl⟩
  constructor
  · rintro ⟨pre, z, post, heq, htop, b, hb, hbot⟩
    obtain ⟨htop, htopx⟩ := mem_concat_iff.mp htop
    obtain ⟨hbot, hbotx⟩ := mem_concat_iff.mp hbot
    rcases List.eq_nil_or_concat post with rfl | ⟨post, w, rfl⟩
    · obtain ⟨-, heq⟩ := List.append_inj' heq rfl
      obtain rfl := List.singleton_inj.mp heq
      exact Or.inl htop
    · rw [List.concat_eq_append, ← List.cons_append, ← List.append_assoc] at heq
      obtain ⟨rfl, -⟩ := List.append_inj' heq rfl
      have hb' : b ∈ pre ++ z :: post := by
        rw [List.append_cons]
        exact List.mem_append_left _ hb
      refine Or.inr ⟨⟨pre, z, post, rfl, htop, b, hb, hbot⟩, ⟨z, ?_, htopx⟩, ?_⟩
      · exact List.mem_append_right _ List.mem_cons_self
      · exact (hbase b hb').trans hbotx
  · rintro (htop | ⟨⟨pre, z, post, rfl, htop, b, hb, hbot⟩, ⟨y, hy, hxy⟩, hbase'⟩)
    · refine ⟨l, x, [], rfl, mem_concat_iff.mpr ⟨htop, Nat.le_refl _⟩, ?_⟩
      by_cases hx : acc.1 ≤ x.1
      · refine ⟨least, List.mem_append_left _ hleast, mem_concat_iff.mpr ⟨?_, ?_⟩⟩
        · exact fun y hy => hstart ▸ hbase y hy
        · exact hstart ▸ hx
      · refine ⟨x, List.mem_append_right _ (List.mem_singleton_self x), ?_⟩
        refine mem_concat_iff.mpr ⟨fun y hy => ?_, Nat.le_refl _⟩
        exact (Nat.le_of_not_le hx).trans (hbase y hy)
    · refine ⟨pre, z, post ++ [x], ?_, mem_concat_iff.mpr ⟨htop, hxy.trans (htop y hy)⟩, b, hb, ?_⟩
      · rw [List.append_assoc, List.cons_append]
      · exact mem_concat_iff.mpr ⟨hbot, (hbot least hleast).trans (hstart ▸ hbase')⟩

/-- **One more interval.** -/
theorem swept_concat {l : List (Nat × Nat)} {acc : Nat × Nat} (h : Swept l acc) (x : Nat × Nat) :
    Swept (l ++ [x]) (step acc x) := by
  have hcond := h.endAfterStart_concat x
  obtain ⟨hle, ⟨⟨least, hleast, hstart⟩, hlower⟩, ⟨top, htop, hbelow⟩, hexact⟩ := h
  obtain ⟨base, stop⟩ := acc
  dsimp only at *
  -- the end after the start has moved: lower than before, or the start has not moved
  have hmoved : min base x.1 + (stop - base) ≤ stop ∧
      (min base x.1 + (stop - base) = stop ↔ base ≤ x.1) := by omega
  obtain ⟨hdown, hsame⟩ := hmoved
  refine ⟨?_, ⟨?_, ?_⟩, ?_, ?_⟩
  · show min base x.1 ≤ max (min base x.1 + (stop - base)) x.2
    omega
  · show ∃ y ∈ l ++ [x], y.1 = min base x.1
    rcases Nat.le_total base x.1 with hb | hb
    · exact ⟨least, List.mem_append_left _ hleast, by omega⟩
    · exact ⟨x, List.mem_append_right _ (List.mem_singleton_self x), by omega⟩
  · rintro a ⟨y, hy, rfl⟩
    show min base x.1 ≤ y.1
    rcases List.mem_append.mp hy with hy | hy
    · exact (Nat.min_le_left _ _).trans (hlower ⟨y, hy, rfl⟩)
    · rw [List.mem_singleton.mp hy]
      exact Nat.min_le_right _ _
  · show ∃ y ∈ l ++ [x], max (min base x.1 + (stop - base)) x.2 ≤ y.2
    rcases Nat.le_total (min base x.1 + (stop - base)) x.2 with hm | hm
    · exact ⟨x, List.mem_append_right _ (List.mem_singleton_self x), by omega⟩
    · exact ⟨top, List.mem_append_left _ htop, by omega⟩
  · show (∀ y ∈ l ++ [x], y.2 ≤ max (min base x.1 + (stop - base)) x.2) ↔ _
    rw [hcond, mem_concat_iff]
    constructor
    · rintro ⟨hall, -⟩
      rcases Nat.le_total (min base x.1 + (stop - base)) x.2 with hm | hm
      · left
        intro y hy
        have := hall y hy
        omega
      · right
        have htop' := hall top htop
        have hstay : min base x.1 + (stop - base) = stop := by omega
        refine ⟨hexact.mp fun y hy => ?_, ⟨top, htop, by omega⟩, hsame.mp hstay⟩
        have := hall y hy
        omega
    · rintro (htop' | ⟨hend, -, hbase⟩)
      · exact ⟨fun y hy => (htop' y hy).trans (Nat.le_max_right _ _), Nat.le_max_right _ _⟩
      · refine ⟨fun y hy => ?_, Nat.le_max_right _ _⟩
        have hy' := hexact.mpr hend y hy
        have hstay := hsame.mpr hbase
        omega

/-- **The sweep**, from an empty interval at or above every start. -/
theorem sweep_spec {l : List (Nat × Nat)} (hne : l ≠ []) {top : Nat}
    (hl : ∀ x ∈ l, x.1 ≤ x.2 ∧ x.1 ≤ top) : Swept l (sweep (top, top) l) := by
  induction l using List.reverseRecOn with
  | nil => exact absurd rfl hne
  | append_singleton l x ih =>
    obtain ⟨hl, hx, htop⟩ := mem_concat_iff.mp hl
    rw [sweep, List.foldl_append]
    rcases List.eq_nil_or_concat l with rfl | ⟨l', w, heq⟩
    · have hfirst : step (top, top) x = x := by
        show (min top x.1, max (min top x.1 + (top - top)) x.2) = x
        rw [Nat.min_eq_right htop, Nat.sub_self, Nat.add_zero, Nat.max_eq_right hx]
      show Swept [x] (step (top, top) x)
      rw [hfirst]
      exact swept_singleton hx
    · refine swept_concat (ih ?_ hl) x
      rw [heq, List.concat_eq_append]
      exact List.append_ne_nil_of_right_ne_nil _ (List.cons_ne_nil _ _)

/-- The end is the greatest one exactly when the intervals stand in such an order. -/
theorem Swept.isGreatest_iff {l : List (Nat × Nat)} {acc : Nat × Nat} (h : Swept l acc) :
    IsGreatest {e | ∃ x ∈ l, x.2 = e} acc.2 ↔ EndAfterStart l := by
  rw [← h.exact]
  constructor
  · exact fun hgreatest x hx => hgreatest.2 ⟨x, hx, rfl⟩
  · intro hall
    obtain ⟨x, hx, hle⟩ := h.below
    refine ⟨⟨x, hx, Nat.le_antisymm (hall x hx) hle⟩, ?_⟩
    rintro e ⟨y, hy, rfl⟩
    exact hall y hy

end Infra.Hull
