import Mathlib.Data.List.Nodup
import Mathlib.Logic.Function.Basic
import Mathlib.Tactic.Common

/-!
# Singly linked lists

A list in memory is a function `next` from nodes to nodes and a first node; `null` is the end. What
is stored in a node does not matter here.

* `Linked` — the nodes from a first one on, as a list
* `Linked.push`, `Linked.unlink` — a node more in front, a node less inside
* `Linked.walkTo_eq`, `Linked.walkPrev_of_find` — a search through the list ends, at the first node
  that meets the predicate

The loops of a program are `walkTo` and `walkPrev`, with a bound on their turns: `none` is a walk
that has not ended.
-/

namespace Infra

variable {A : Type*} [DecidableEq A] {next : A → A} {null head : A} {l : List A}

/-- From `head` on the links go through these nodes to `null`. -/
def Linked (next : A → A) (null : A) : A → List A → Prop
  | head, [] => head = null
  | head, a :: l => head = a ∧ a ≠ null ∧ Linked next null (next a) l

omit [DecidableEq A] in
theorem Linked.ne_null (h : Linked next null head l) : ∀ a ∈ l, a ≠ null := by
  induction l generalizing head with
  | nil => simp
  | cons a l ih =>
    obtain ⟨-, hne, hrest⟩ := h
    intro b hb
    rcases List.mem_cons.mp hb with rfl | hb
    · exact hne
    · exact ih hrest b hb

omit [DecidableEq A] in
/-- Only the links of the nodes count. -/
theorem Linked.congr {next' : A → A} (h : Linked next null head l)
    (heq : ∀ a ∈ l, next' a = next a) : Linked next' null head l := by
  induction l generalizing head with
  | nil => exact h
  | cons a l ih =>
    obtain ⟨hhead, hne, hrest⟩ := h
    refine ⟨hhead, hne, ?_⟩
    rw [heq a List.mem_cons_self]
    exact ih hrest fun b hb => heq b (List.mem_cons_of_mem a hb)

/-! ## Changes -/

/-- A new node in front. -/
theorem Linked.push (h : Linked next null head l) {a : A} (ha : a ≠ null) (hl : a ∉ l) :
    Linked (Function.update next a head) null a (a :: l) := by
  refine ⟨rfl, ha, ?_⟩
  rw [Function.update_self]
  refine h.congr fun b hb => Function.update_of_ne ?_ _ _
  rintro rfl
  exact hl hb

omit [DecidableEq A] in
/-- The first node is left out. -/
theorem Linked.tail {a : A} (h : Linked next null head (a :: l)) : Linked next null (next a) l :=
  h.2.2

/-- A node behind another one is left out: the link goes past it. -/
theorem Linked.unlink {pre post : List A} {p c : A}
    (h : Linked next null head (pre ++ p :: c :: post)) (hnodup : (pre ++ p :: c :: post).Nodup) :
    Linked (Function.update next p (next c)) null head (pre ++ p :: post) := by
  induction pre generalizing head with
  | nil =>
    obtain ⟨hhead, hp, hc, -, hrest⟩ := h
    refine ⟨hhead, hp, ?_⟩
    rw [Function.update_self]
    refine hrest.congr fun b hb => Function.update_of_ne ?_ _ _
    rintro rfl
    simp [hb] at hnodup
  | cons a pre ih =>
    obtain ⟨hhead, ha, hrest⟩ := h
    have hap : a ≠ p := by
      rintro rfl
      simp at hnodup
    refine ⟨hhead, ha, ?_⟩
    rw [Function.update_of_ne hap]
    exact ih hrest (List.nodup_cons.mp hnodup).2

/-! ## Walks -/

/-- `while (a) { if (p(a)) return a; a = next(a); } return null`, at most `n` turns. -/
def walkTo (next : A → A) (null : A) (p : A → Bool) : Nat → A → Option A
  | 0, a => if a = null then some null else none
  | n + 1, a =>
    if a = null then some null else if p a then some a else walkTo next null p n (next a)

/-- A walk that stops at a node has tested it, whatever the links are. -/
theorem walkTo_some {p : A → Bool} {c : A} (hc : c ≠ null) {n : Nat} {a : A}
    (h : walkTo next null p n a = some c) : p c = true := by
  induction n generalizing a with
  | zero =>
    rw [walkTo] at h
    split at h
    · exact absurd (Option.some.inj h).symm hc
    · cases h
  | succ n ih =>
    rw [walkTo] at h
    split at h
    · exact absurd (Option.some.inj h).symm hc
    · split at h
      · next htest =>
        obtain rfl := Option.some.inj h
        exact htest
      · exact ih h

/-- The same walk when it also keeps the node before: where it stops, and that node. -/
def walkPrev (next : A → A) (null : A) (p : A → Bool) : Nat → A → A → Option (A × A)
  | 0, prev, a => if a = null then some (prev, null) else none
  | n + 1, prev, a =>
    if a = null then some (prev, null)
    else if p a then some (prev, a)
    else walkPrev next null p n a (next a)

/-- **A walk ends** when it has a turn for every node, at the first one that meets `p`. -/
theorem Linked.walkTo_eq (h : Linked next null head l) (p : A → Bool) {n : Nat}
    (hn : l.length ≤ n) : walkTo next null p n head = some ((l.find? p).getD null) := by
  induction l generalizing head n with
  | nil =>
    obtain rfl : head = null := h
    cases n with
    | zero => simp [walkTo]
    | succ n => simp [walkTo]
  | cons a l ih =>
    obtain ⟨rfl, hne, hrest⟩ := h
    obtain ⟨m, rfl⟩ : ∃ m, n = m + 1 := ⟨n - 1, by simp at hn; omega⟩
    rw [walkTo, if_neg hne, List.find?_cons, ih hrest (by simpa using hn)]
    cases p head with
    | true => simp
    | false => simp

theorem Linked.walkPrev_of_forall (h : Linked next null head l) {p : A → Bool}
    (hp : ∀ a ∈ l, p a = false) {n : Nat} (hn : l.length ≤ n) (prev : A) :
    walkPrev next null p n prev head = some (l.getLastD prev, null) := by
  induction l generalizing head n prev with
  | nil =>
    obtain rfl : head = null := h
    cases n with
    | zero => simp [walkPrev]
    | succ n => simp [walkPrev]
  | cons a l ih =>
    obtain ⟨rfl, hne, hrest⟩ := h
    obtain ⟨m, rfl⟩ : ∃ m, n = m + 1 := ⟨n - 1, by simp at hn; omega⟩
    rw [walkPrev, if_neg hne, hp head List.mem_cons_self,
      ih hrest (fun b hb => hp b (List.mem_cons_of_mem _ hb)) (by simpa using hn),
      List.getLastD_cons, if_neg Bool.false_ne_true]

theorem Linked.walkPrev_of_find {pre post : List A} {c : A} {p : A → Bool}
    (h : Linked next null head (pre ++ c :: post)) (hpre : ∀ a ∈ pre, p a = false)
    (hc : p c = true) {n : Nat} (hn : (pre ++ c :: post).length ≤ n) (prev : A) :
    walkPrev next null p n prev head = some (pre.getLastD prev, c) := by
  induction pre generalizing head n prev with
  | nil =>
    obtain ⟨rfl, hne, -⟩ := h
    obtain ⟨m, rfl⟩ : ∃ m, n = m + 1 := ⟨n - 1, by simp at hn; omega⟩
    simp [walkPrev, hne, hc]
  | cons a pre ih =>
    obtain ⟨rfl, hne, hrest⟩ := h
    obtain ⟨m, rfl⟩ : ∃ m, n = m + 1 := ⟨n - 1, by simp at hn; omega⟩
    rw [walkPrev, if_neg hne, hpre head List.mem_cons_self,
      ih hrest (fun b hb => hpre b (List.mem_cons_of_mem _ hb)) (by simpa using hn),
      List.getLastD_cons, if_neg Bool.false_ne_true]

end Infra
