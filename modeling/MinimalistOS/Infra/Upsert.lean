import Mathlib.Data.List.Nodup
import Mathlib.Tactic.Common

/-!
# Tables with a key: insert or update

A table is a list of keys with values. `upsert` gives the first row with a key a new value, or puts
a new row at the end.

* `lookup_upsert` — as a map, this is an update at one key
* `keys_upsert` — a key keeps its place, a new one comes last
* `find?_keys_upsertAll` — after any number of updates, the first key that meets a condition is the
  first one that was ever set
-/

namespace Infra

variable {κ ν : Type*} [DecidableEq κ]

/-- The first row with key `k` gets value `v`, or a row is put at the end. -/
def upsert (k : κ) (v : ν) : List (κ × ν) → List (κ × ν)
  | [] => [(k, v)]
  | row :: rows => if row.1 = k then (k, v) :: rows else row :: upsert k v rows

theorem lookup_cons_eq (k : κ) (row : κ × ν) (rows : List (κ × ν)) :
    (row :: rows).lookup k = if k = row.1 then some row.2 else rows.lookup k := by
  rw [List.lookup_cons]
  by_cases hk : k = row.1
  · rw [if_pos hk, beq_iff_eq.mpr hk]
  · rw [if_neg hk, beq_eq_false_iff_ne.mpr hk]

theorem lookup_map {α : Type*} (f : α → κ × ν) (k : κ) (l : List α) :
    (l.map f).lookup k = (l.find? fun a => decide ((f a).1 = k)).map fun a => (f a).2 := by
  induction l with
  | nil => rfl
  | cons a l ih =>
    rw [List.map_cons, lookup_cons_eq, List.find?_cons, ih]
    by_cases hk : k = (f a).1
    · simp [hk]
    · simp [hk, Ne.symm hk]

theorem lookup_eq_none {k : κ} {rows : List (κ × ν)} :
    rows.lookup k = none ↔ k ∉ rows.map Prod.fst := by
  induction rows with
  | nil => simp
  | cons row rows ih =>
    rw [lookup_cons_eq, List.map_cons, List.mem_cons]
    by_cases hk : k = row.1
    · simp [hk]
    · simp [hk, ih]

/-- **As a map, an update at one key.** -/
theorem lookup_upsert (k k' : κ) (v : ν) (rows : List (κ × ν)) :
    (upsert k v rows).lookup k' = if k' = k then some v else rows.lookup k' := by
  induction rows with
  | nil => rw [upsert, lookup_cons_eq]
  | cons row rows ih =>
    rw [upsert, lookup_cons_eq k' row rows]
    by_cases hrow : row.1 = k
    · rw [if_pos hrow, lookup_cons_eq, hrow]
      by_cases hk : k' = k
      · rw [if_pos hk, if_pos hk]
      · rw [if_neg hk, if_neg hk, if_neg hk]
    · rw [if_neg hrow, lookup_cons_eq, ih]
      by_cases hk : k' = row.1
      · rw [if_pos hk, if_neg (hk ▸ hrow), if_pos hk]
      · rw [if_neg hk, if_neg hk]

theorem upsert_of_not_mem {k : κ} {rows : List (κ × ν)} (h : k ∉ rows.map Prod.fst) (v : ν) :
    upsert k v rows = rows ++ [(k, v)] := by
  induction rows with
  | nil => rfl
  | cons row rows ih =>
    rw [List.map_cons, List.mem_cons, not_or] at h
    rw [upsert, if_neg (Ne.symm h.1), ih h.2, List.cons_append]

/-- The row that is found first is the one that is changed. -/
theorem upsert_of_first {k : κ} (v : ν) {rows : List (κ × ν)} {i : Nat}
    (hk : (rows[i]?).map Prod.fst = some k) (hfirst : ∀ j < i, (rows[j]?).map Prod.fst ≠ some k) :
    upsert k v rows = rows.set i (k, v) := by
  induction rows generalizing i with
  | nil => cases hk
  | cons row rows ih =>
    cases i with
    | zero => exact if_pos (Option.some.inj hk)
    | succ i =>
      rw [upsert, if_neg fun h => hfirst 0 (Nat.succ_pos i) (congrArg some h),
        List.set_cons_succ]
      refine congrArg (row :: ·) (ih hk fun j hj => ?_)
      exact hfirst (j + 1) (Nat.succ_lt_succ hj)

/-- A key keeps its place, a new one comes last. -/
theorem keys_upsert (k : κ) (v : ν) (rows : List (κ × ν)) :
    (upsert k v rows).map Prod.fst
      = if k ∈ rows.map Prod.fst then rows.map Prod.fst else rows.map Prod.fst ++ [k] := by
  by_cases hmem : k ∈ rows.map Prod.fst
  · rw [if_pos hmem]
    induction rows with
    | nil => exact absurd hmem List.not_mem_nil
    | cons row rows ih =>
      rw [upsert]
      by_cases hrow : row.1 = k
      · rw [if_pos hrow, List.map_cons, List.map_cons, hrow]
      · rw [if_neg hrow, List.map_cons, List.map_cons,
          ih ((List.mem_cons.mp hmem).resolve_left (Ne.symm hrow))]
  · rw [if_neg hmem, upsert_of_not_mem hmem, List.map_append]
    rfl

theorem nodup_keys_upsert {rows : List (κ × ν)} (h : (rows.map Prod.fst).Nodup) (k : κ) (v : ν) :
    ((upsert k v rows).map Prod.fst).Nodup := by
  rw [keys_upsert]
  by_cases hmem : k ∈ rows.map Prod.fst
  · rw [if_pos hmem]
    exact h
  · rw [if_neg hmem, List.nodup_append]
    exact ⟨h, List.nodup_singleton k, fun a ha b hb hab => by
      rw [hab, List.mem_singleton.mp hb] at ha
      exact hmem ha⟩

/-- The first key that meets a condition is not changed by setting one again. -/
theorem find?_keys_upsert (p : κ → Bool) (k : κ) (v : ν) (rows : List (κ × ν)) :
    ((upsert k v rows).map Prod.fst).find? p = (rows.map Prod.fst ++ [k]).find? p := by
  rw [keys_upsert]
  by_cases hmem : k ∈ rows.map Prod.fst
  · rw [if_pos hmem, List.find?_append]
    cases hfind : (rows.map Prod.fst).find? p with
    | some a => rfl
    | none =>
      have hk := List.find?_eq_none.mp hfind k hmem
      simp [hk]
  · rw [if_neg hmem]

/-- Updates one after another. -/
def upsertAll (rows : List (κ × ν)) (l : List (κ × ν)) : List (κ × ν) :=
  l.foldl (fun rows row => upsert row.1 row.2 rows) rows

/-- **The first key that meets a condition is the first one that was set.** -/
theorem find?_keys_upsertAll (p : κ → Bool) (l rows : List (κ × ν)) :
    ((upsertAll rows l).map Prod.fst).find? p
      = (rows.map Prod.fst ++ l.map Prod.fst).find? p := by
  induction l generalizing rows with
  | nil => rw [List.map_nil, List.append_nil, upsertAll, List.foldl_nil]
  | cons row l ih =>
    rw [upsertAll, List.foldl_cons, ← upsertAll, ih, List.find?_append, find?_keys_upsert,
      ← List.find?_append, List.append_assoc, List.map_cons]
    rfl

/-- The first row whose key meets a condition is the first one with that key. -/
theorem find?_row (p : κ → Bool) (rows : List (κ × ν)) :
    (rows.find? fun row => p row.1).map Prod.snd
      = ((rows.map Prod.fst).find? p).bind fun k => rows.lookup k := by
  induction rows with
  | nil => rfl
  | cons row rows ih =>
    rw [List.find?_cons, List.map_cons, List.find?_cons]
    cases hp : p row.1 with
    | true =>
      rw [Option.bind_some, lookup_cons_eq, if_pos rfl]
      rfl
    | false =>
      refine ih.trans ?_
      cases hfind : (rows.map Prod.fst).find? p with
      | none => rfl
      | some k =>
        have hk : k ≠ row.1 := by
          rintro rfl
          rw [List.find?_some hfind] at hp
          cases hp
        rw [Option.bind_some, Option.bind_some, lookup_cons_eq, if_neg hk]

theorem length_upsert_le (k : κ) (v : ν) (rows : List (κ × ν)) :
    (upsert k v rows).length ≤ rows.length + 1 := by
  have hkeys := congrArg List.length (keys_upsert k v rows)
  rw [List.length_map] at hkeys
  rw [hkeys]
  split
  · rw [List.length_map]
    exact Nat.le_succ _
  · rw [List.length_append, List.length_map]
    exact Nat.le_refl _

end Infra
