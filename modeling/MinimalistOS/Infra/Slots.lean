import Mathlib.Tactic.Common

/-!
# Tables of a fixed size

A C array is a vector. Reading outside it gives the default value and writing outside it does
nothing; the code that uses these never does either, and the bounds appear in the lemmas.
-/

namespace Infra

variable {α : Type*} [Inhabited α] {n : Nat}

/-- The entry at an index. -/
def slot (v : Vector α n) (i : Nat) : α := v[i]?.getD default

/-- Change the entry at an index. -/
def modifySlot (v : Vector α n) (i : Nat) (f : α → α) : Vector α n :=
  v.setIfInBounds i (f (slot v i))

theorem slot_setIfInBounds (v : Vector α n) {i : Nat} (hi : i < n) (x : α) (j : Nat) :
    slot (v.setIfInBounds i x) j = if j = i then x else slot v j := by
  unfold slot
  rw [Vector.getElem?_setIfInBounds]
  by_cases hj : j = i
  · subst hj
    simp [hi]
  · rw [if_neg (Ne.symm hj), if_neg hj]

theorem slot_modifySlot (v : Vector α n) {i : Nat} (hi : i < n) (f : α → α) (j : Nat) :
    slot (modifySlot v i f) j = if j = i then f (slot v i) else slot v j :=
  slot_setIfInBounds v hi _ j

theorem slot_map {β : Type*} [Inhabited β] (v : Vector α n) (f : α → β) {i : Nat} (hi : i < n) :
    slot (v.map f) i = f (slot v i) := by
  unfold slot
  simp [hi]

theorem slot_replicate (x : α) {i : Nat} (hi : i < n) : slot (Vector.replicate n x) i = x := by
  unfold slot
  simp [hi]

/-! ## Searching -/

/-- The loop `for (; n--; i++) if (p(v[i])) return i`. -/
def findSlot (v : Vector α n) (p : α → Bool) (i : Nat) : Nat → Option Nat
  | 0 => none
  | k + 1 => if p (slot v i) then some i else findSlot v p (i + 1) k

theorem findSlot_eq_find? (v : Vector α n) (p : α → Bool) (k i : Nat) :
    findSlot v p i k = (List.range' i k).find? fun j => p (slot v j) := by
  induction k generalizing i with
  | zero => rfl
  | succ k ih =>
    rw [findSlot, List.range'_succ, List.find?_cons, ih]
    cases p (slot v i) with
    | true => rfl
    | false => rfl

/-- The search finds the first entry that meets `p`. -/
theorem findSlot_eq_some {v : Vector α n} {p : α → Bool} {k i : Nat} :
    findSlot v p 0 k = some i ↔
      i < k ∧ p (slot v i) = true ∧ ∀ j < i, p (slot v j) = false := by
  rw [findSlot_eq_find?, List.find?_range'_eq_some]
  constructor
  · rintro ⟨hp, hi, hlt⟩
    exact ⟨by simpa using hi, hp, fun j hj => by simpa using hlt j (Nat.zero_le j) hj⟩
  · rintro ⟨hi, hp, hlt⟩
    exact ⟨hp, by simpa using hi, fun j _ hj => by simpa using hlt j hj⟩

/-- The search fails when no entry meets `p`. -/
theorem findSlot_eq_none {v : Vector α n} {p : α → Bool} {k : Nat} :
    findSlot v p 0 k = none ↔ ∀ j < k, p (slot v j) = false := by
  rw [findSlot_eq_find?, List.find?_range'_eq_none]
  simp

/-! ## Several writes -/

/-- Entries written one after another. -/
def setSlots (v : Vector α n) (l : List (Nat × α)) : Vector α n :=
  l.foldl (fun v p => v.setIfInBounds p.1 p.2) v

theorem slot_setSlots_of_not_mem {i : Nat} : ∀ {l : List (Nat × α)} {v : Vector α n},
    (∀ p ∈ l, p.1 ≠ i) → slot (setSlots v l) i = slot v i
  | [], _, _ => rfl
  | p :: l, v, h => by
    have hrest := slot_setSlots_of_not_mem (v := v.setIfInBounds p.1 p.2)
      fun q hq => h q (List.mem_cons_of_mem p hq)
    refine hrest.trans ?_
    unfold slot
    rw [Vector.getElem?_setIfInBounds_ne (h p List.mem_cons_self)]

/-- The last write to an entry is the one that stays. -/
theorem slot_setSlots_last {i : Nat} (hi : i < n) {x : α} {l r : List (Nat × α)}
    (hr : ∀ p ∈ r, p.1 ≠ i) (v : Vector α n) : slot (setSlots v (l ++ (i, x) :: r)) i = x := by
  have hsplit : setSlots v (l ++ (i, x) :: r)
      = setSlots ((setSlots v l).setIfInBounds i x) r := by
    simp [setSlots]
  rw [hsplit, slot_setSlots_of_not_mem hr, slot_setIfInBounds _ hi, if_pos rfl]

/-- With one write to each entry, each one stays. -/
theorem slot_setSlots_of_mem {i : Nat} (hi : i < n) {x : α} {l : List (Nat × α)}
    (hl : (l.map Prod.fst).Nodup) (hx : (i, x) ∈ l) (v : Vector α n) :
    slot (setSlots v l) i = x := by
  obtain ⟨pre, post, rfl⟩ := List.append_of_mem hx
  refine slot_setSlots_last hi (fun p hp hpi => ?_) v
  rw [List.map_append, List.map_cons] at hl
  have hnot := (List.nodup_cons.mp (List.nodup_append.mp hl).2.1).1
  exact hnot (List.mem_map.mpr ⟨p, hp, hpi⟩)

/-- Two tables with the same entries are the same. -/
theorem ext_slot {v v' : Vector α n} (h : ∀ i < n, slot v i = slot v' i) : v = v' := by
  apply Vector.ext
  intro i hi
  have := h i hi
  simpa [slot, hi] using this

end Infra
