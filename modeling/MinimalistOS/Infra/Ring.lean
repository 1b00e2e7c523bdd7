import MinimalistOS.Infra.Slots
import Mathlib.Data.List.Range
import Mathlib.Data.Nat.ModEq

/-!
# Circular buffers

A vector used as a queue: `count` entries from `head` on, where the entry after the last is the
first. Code keeps the end of the queue as a second index or as a count; either way these are the
two steps it takes.

* `contents_push` — a write behind the last entry appends to the queue
* `contents_pop` — the entry at the head is the first of the queue
* `full_iff`, `empty_iff` — what two indices say about the count when one entry is kept free
* `Keeps.push` — a buffer that is written over when it is full keeps the end of what was written
-/

namespace Infra.Ring

variable {α : Type*} [Inhabited α] {n : Nat}

/-- The queue, from the head on. -/
def contents (v : Vector α n) (head count : Nat) : List α :=
  (List.range count).map fun i => slot v ((head + i) % n)

@[simp] theorem length_contents (v : Vector α n) (head count : Nat) :
    (contents v head count).length = count := by
  simp [contents]

/-- Different positions of the queue are different entries. -/
theorem index_inj (head : Nat) {i j : Nat} (hi : i < n) (hj : j < n)
    (h : (head + i) % n = (head + j) % n) : i = j := by
  have hmod : Nat.ModEq n i j := Nat.ModEq.add_left_cancel' head h
  exact Nat.ModEq.eq_of_lt_of_lt hmod hi hj

/-- **A write behind the last entry appends.** -/
theorem contents_push (v : Vector α n) (head : Nat) {count : Nat} (h : count < n) (x : α) :
    contents (v.setIfInBounds ((head + count) % n) x) head (count + 1)
      = contents v head count ++ [x] := by
  have hlt : (head + count) % n < n := Nat.mod_lt _ (by omega)
  unfold contents
  rw [List.range_succ, List.map_append, List.map_singleton, slot_setIfInBounds v hlt, if_pos rfl]
  congr 1
  apply List.map_congr_left
  intro i hi
  have hi' : i < count := List.mem_range.mp hi
  rw [slot_setIfInBounds v hlt, if_neg]
  intro heq
  have := index_inj head (by omega) h heq
  omega

/-- **The entry at the head is the first.** -/
theorem contents_pop (v : Vector α n) {head : Nat} (h : head < n) (count : Nat) :
    contents v head (count + 1) = slot v head :: contents v ((head + 1) % n) count := by
  unfold contents
  rw [List.range_succ_eq_map, List.map_cons, List.map_map, Nat.add_zero, Nat.mod_eq_of_lt h]
  congr 1
  apply List.map_congr_left
  intro i _
  simp only [Function.comp_apply, Nat.mod_add_mod]
  congr 2
  omega

/-! ## Two indices -/

/-- The next index is that of the head when all entries but one are taken. -/
theorem full_iff {head count : Nat} (hh : head < n) (hc : count < n) :
    ((head + count) % n + 1) % n = head ↔ count + 1 = n := by
  rw [Nat.mod_add_mod, Nat.add_assoc]
  constructor
  · intro h
    by_contra hne
    have hlt : count + 1 < n := by omega
    have hzero := index_inj head (i := count + 1) (j := 0) hlt (by omega)
      (by rw [h, Nat.add_zero, Nat.mod_eq_of_lt hh])
    omega
  · intro h
    rw [h, Nat.add_mod_right, Nat.mod_eq_of_lt hh]

/-- The two indices are the same when nothing is in the queue. -/
theorem empty_iff {head count : Nat} (hh : head < n) (hc : count < n) :
    head = (head + count) % n ↔ count = 0 := by
  constructor
  · intro h
    refine index_inj head hc (by omega) ?_
    rw [Nat.add_zero, Nat.mod_eq_of_lt hh]
    exact h.symm
  · intro h
    rw [h, Nat.add_zero, Nat.mod_eq_of_lt hh]

/-! ## Writing over the oldest entry -/

/-- The last `n` of the values of a history are in the buffer, each at its number modulo `n`. `R`
says what an entry shows of a value. -/
def Keeps {β : Type*} (R : α → β → Prop) (v : Vector α n) (l : List β) : Prop :=
  ∀ k (h : k < l.length), l.length ≤ k + n → R (slot v (k % n)) l[k]

theorem keeps_nil {β : Type*} (R : α → β → Prop) (v : Vector α n) : Keeps R v [] := by
  intro k h
  simp at h

/-- **The next value goes where the oldest one was.** -/
theorem Keeps.push {β : Type*} {R : α → β → Prop} {v : Vector α n} {l : List β}
    (h : Keeps R v l) (hn : 0 < n) {x : α} {y : β} (hx : R x y) :
    Keeps R (v.setIfInBounds (l.length % n) x) (l ++ [y]) := by
  intro k hk hrecent
  rw [List.length_append, List.length_singleton] at hk hrecent
  have hlt : l.length % n < n := Nat.mod_lt _ hn
  rw [slot_setIfInBounds v hlt]
  by_cases hlast : k = l.length
  · subst hlast
    simpa using hx
  · -- the value before the last `n` is the only other one with this index
    have hkl : k < l.length := by omega
    have hne : k % n ≠ l.length % n := by
      intro heq
      have hzero := index_inj k (i := 0) (j := l.length - k) hn (by omega)
        (by rw [Nat.add_zero, Nat.add_sub_cancel' hkl.le]; exact heq)
      omega
    rw [if_neg hne, List.getElem_append_left hkl]
    exact h k hkl (by omega)

end Infra.Ring
