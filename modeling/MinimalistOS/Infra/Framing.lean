import Mathlib.Data.List.TakeDrop
import Mathlib.Tactic.Common

/-!
# Frames in a byte stream

A stream is cut into frames of `n + 1` symbols. A frame begins at a symbol that `p` accepts; symbols
in front of it are dropped, and what follows the first symbol of a frame is not looked at.

* `frames`, `rest` — the complete frames of a stream, and the incomplete one at its end
* `split_concat` — what one more symbol does to them, which is what a receiver does that keeps the
  incomplete frame in a buffer; `concat_idle`, `concat_more` and `concat_last` are its three cases
-/

namespace Infra.Framing

variable {α : Type*} (p : α → Bool) (n : Nat)

/-- The complete frames of a stream, and what is left. -/
def split : List α → List (List α) × List α
  | [] => ([], [])
  | b :: bs =>
    if p b then
      if n ≤ bs.length then
        ((b :: bs.take n) :: (split (bs.drop n)).1, (split (bs.drop n)).2)
      else ([], b :: bs)
    else split bs
termination_by bs => bs.length
decreasing_by
  all_goals simp only [List.length_drop, List.length_cons]
  all_goals omega

def frames (bs : List α) : List (List α) := (split p n bs).1

def rest (bs : List α) : List α := (split p n bs).2

/-- A receiver that gets one more symbol. -/
def receive (fs : List (List α)) (r : List α) (x : α) : List (List α) × List α :=
  if r = [] ∧ p x = false then (fs, [])
  else if r.length = n then (fs ++ [r ++ [x]], [])
  else (fs, r ++ [x])

variable {p n}

theorem receive_cons (f : List α) (fs : List (List α)) (r : List α) (x : α) :
    receive p n (f :: fs) r x = (f :: (receive p n fs r x).1, (receive p n fs r x).2) := by
  unfold receive
  split
  · rfl
  · split <;> rfl

theorem split_concat (bs : List α) (x : α) :
    split p n (bs ++ [x]) = receive p n (split p n bs).1 (split p n bs).2 x := by
  induction bs using split.induct p n with
  | case1 =>
    cases hp : p x with
    | false => simp [split, receive, hp]
    | true =>
      cases n with
      | zero => simp [split, receive, hp]
      | succ n => simp [split, receive, hp]
  | case2 b bs hp hlen ih =>
    have hlen' : n ≤ (bs ++ [x]).length := by
      rw [List.length_append]
      omega
    rw [List.cons_append, split, if_pos hp, if_pos hlen', split, if_pos hp, if_pos hlen,
      List.drop_append_of_le_length hlen, List.take_append_of_le_length hlen, ih, receive_cons]
  | case3 b bs hp hlen =>
    -- the frame at the end is incomplete, and the symbol may complete it
    have hfirst : ¬ (b :: bs = [] ∧ p x = false) := fun h => List.cons_ne_nil b bs h.1
    rw [List.cons_append, split, if_pos hp]
    conv_rhs => rw [split, if_pos hp, if_neg hlen]
    unfold receive
    rw [if_neg hfirst]
    by_cases hfull : n = bs.length + 1
    · have hall : n = (bs ++ [x]).length := by simp [hfull]
      rw [if_pos (Nat.le_of_eq hall), if_pos (by simp [hfull])]
      conv_lhs => rw [hall, List.take_length, List.drop_length]
      simp [split]
    · rw [if_neg (by simp; omega), if_neg (by simp; omega)]
      rfl
  | case4 b bs hp ih =>
    rw [List.cons_append, split, if_neg hp, ih, split, if_neg hp]

/-- A symbol between two frames. -/
theorem concat_idle {bs : List α} {x : α} (hrest : rest p n bs = []) (hx : p x = false) :
    frames p n (bs ++ [x]) = frames p n bs ∧ rest p n (bs ++ [x]) = [] := by
  unfold frames rest at *
  rw [split_concat, receive, if_pos ⟨hrest, hx⟩]
  exact ⟨rfl, rfl⟩

/-- A symbol that does not complete its frame. -/
theorem concat_more {bs : List α} {x : α} (hstart : rest p n bs ≠ [] ∨ p x = true)
    (hlen : (rest p n bs).length ≠ n) :
    frames p n (bs ++ [x]) = frames p n bs ∧ rest p n (bs ++ [x]) = rest p n bs ++ [x] := by
  have hnot : ¬ ((split p n bs).2 = [] ∧ p x = false) := by
    rintro ⟨hrest, hx⟩
    rcases hstart with h | h
    · exact h hrest
    · rw [hx] at h
      cases h
  unfold frames rest at *
  rw [split_concat, receive, if_neg hnot, if_neg hlen]
  exact ⟨rfl, rfl⟩

/-- The last symbol of a frame. -/
theorem concat_last {bs : List α} {x : α} (hstart : rest p n bs ≠ [] ∨ p x = true)
    (hlen : (rest p n bs).length = n) :
    frames p n (bs ++ [x]) = frames p n bs ++ [rest p n bs ++ [x]] ∧ rest p n (bs ++ [x]) = [] := by
  have hnot : ¬ ((split p n bs).2 = [] ∧ p x = false) := by
    rintro ⟨hrest, hx⟩
    rcases hstart with h | h
    · exact h hrest
    · rw [hx] at h
      cases h
  unfold frames rest at *
  rw [split_concat, receive, if_neg hnot, if_pos hlen]
  exact ⟨rfl, rfl⟩

/-- The incomplete frame is shorter than a frame. -/
theorem length_rest_le (bs : List α) : (rest p n bs).length ≤ n := by
  unfold rest
  induction bs using split.induct p n with
  | case1 => simp [split]
  | case2 b bs hp hlen ih =>
    rw [split, if_pos hp, if_pos hlen]
    exact ih
  | case3 b bs hp hlen =>
    rw [split, if_pos hp, if_neg hlen, List.length_cons]
    omega
  | case4 b bs hp ih =>
    rw [split, if_neg hp]
    exact ih

end Infra.Framing
