import MinimalistOS.Infra.Run
import Mathlib.Data.BitVec
import Mathlib.Logic.Function.Basic
import Mathlib.Tactic.Abel

/-!
# Stopwatches

A clock that wraps, and a stopwatch for every key: started, it remembers the time; stopped, it adds
the time since then to its total.

* `Stopwatch.step` — the machine
* `Stopwatch.intervals` — the time that passes between the last start of a key and the next stop
* `Stopwatch.total_run` — the totals are the sums of the intervals, modulo the size of the clock

The intervals are read off the events alone. A start that follows a start begins the interval
again, and a stop of a stopwatch that does not run is none.
-/

namespace Infra.Stopwatch

variable {κ : Type*} [DecidableEq κ] {w : Nat}

inductive Event (κ : Type*) where
  | start (k : κ)
  | stop (k : κ)
  | tick (n : Nat)

/-- `since k` is when `k` was started, if it runs. -/
structure State (κ : Type*) (w : Nat) where
  now : BitVec w
  total : κ → BitVec w
  since : κ → Option (BitVec w)

def step (s : State κ w) : Event κ → State κ w × Unit
  | .start k => ({ s with since := Function.update s.since k (some s.now) }, ())
  | .stop k =>
    match s.since k with
    | none => (s, ())
    | some t =>
      ({ s with
          total := Function.update s.total k (s.total k + (s.now - t))
          since := Function.update s.since k none }, ())
  | .tick n => ({ s with now := s.now + BitVec.ofNat w n }, ())

/-! ## Intervals -/

/-- The time until `k` is stopped, if that comes before another start of `k`. -/
def untilStop (k : κ) : List (Event κ) → Option Nat
  | [] => none
  | .start k' :: events => if k' = k then none else untilStop k events
  | .stop k' :: events => if k' = k then some 0 else untilStop k events
  | .tick n :: events => (untilStop k events).map (n + ·)

/-- The completed intervals of `k`. -/
def intervals (k : κ) : List (Event κ) → List Nat
  | [] => []
  | .start k' :: events =>
    if k' = k then (untilStop k events).toList ++ intervals k events else intervals k events
  | .stop _ :: events => intervals k events
  | .tick _ :: events => intervals k events

/-- What the next stop adds to the total of a stopwatch that runs already. -/
def carried (k : κ) (s : State κ w) (events : List (Event κ)) : BitVec w :=
  match s.since k, untilStop k events with
  | some t, some n => s.now - t + BitVec.ofNat w n
  | _, _ => 0

theorem carried_of_since_none {k : κ} {s : State κ w} (h : s.since k = none)
    (events : List (Event κ)) : carried k s events = 0 := by
  rw [carried, h]

/-! ## One event -/

theorem carried_tick (k : κ) (s : State κ w) (n : Nat) (events : List (Event κ)) :
    carried k (step s (.tick n)).1 events = carried k s (.tick n :: events) := by
  simp only [carried, step, untilStop]
  cases s.since k with
  | none => rfl
  | some t =>
    cases untilStop k events with
    | none => rfl
    | some m =>
      simp only [Option.map_some, BitVec.ofNat_add]
      abel

/-- A start of `k` carries what comes until the stop, which is the interval that begins here. -/
theorem carried_start_self (k : κ) (s : State κ w) (events : List (Event κ)) :
    carried k (step s (.start k)).1 events
      = BitVec.ofNat w ((untilStop k events).toList.sum) := by
  simp only [carried, step, Function.update_self]
  cases untilStop k events with
  | none => rfl
  | some n => simp

theorem carried_start_of_ne {k k' : κ} (h : k' ≠ k) (s : State κ w) (events : List (Event κ)) :
    carried k (step s (.start k')).1 events = carried k s (.start k' :: events) := by
  simp only [carried, step, untilStop, if_neg h, Function.update_of_ne h.symm]

theorem step_stop_of_ne {k k' : κ} (h : k' ≠ k) (s : State κ w) :
    (step s (.stop k')).1.total k = s.total k ∧ (step s (.stop k')).1.since k = s.since k ∧
      (step s (.stop k')).1.now = s.now := by
  simp only [step]
  cases s.since k' with
  | none => exact ⟨rfl, rfl, rfl⟩
  | some t => exact ⟨Function.update_of_ne h.symm _ _, Function.update_of_ne h.symm _ _, rfl⟩

theorem carried_stop_of_ne {k k' : κ} (h : k' ≠ k) (s : State κ w) (events : List (Event κ)) :
    carried k (step s (.stop k')).1 events = carried k s (.stop k' :: events) := by
  obtain ⟨-, hsince, hnow⟩ := step_stop_of_ne h s
  simp only [carried, untilStop, if_neg h, hsince, hnow]

/-- A stop of `k` puts what was carried into the total. -/
theorem stop_self (k : κ) (s : State κ w) (events : List (Event κ)) :
    (step s (.stop k)).1.total k = s.total k + carried k s (.stop k :: events) ∧
      carried k (step s (.stop k)).1 events = 0 := by
  cases hsince : s.since k with
  | none =>
    simp only [step, hsince]
    rw [carried_of_since_none hsince, carried_of_since_none hsince]
    exact ⟨(add_zero _).symm, rfl⟩
  | some t =>
    simp only [step, hsince]
    refine ⟨?_, carried_of_since_none (Function.update_self _ _ _) events⟩
    simp [carried, hsince, untilStop]

/-! ## Runs -/

/-- **The total after any run** is the one before, what was carried, and the sum of the intervals,
modulo the size of the clock. -/
theorem total_run (k : κ) (s : State κ w) (events : List (Event κ)) :
    (run step s events).total k
      = s.total k + carried k s events + BitVec.ofNat w (intervals k events).sum := by
  induction events generalizing s with
  | nil =>
    have hnone : carried k s [] = 0 := by
      unfold carried
      cases s.since k with
      | none => rfl
      | some t => rfl
    rw [hnone]
    simp [intervals]
  | cons event events ih =>
    rw [run_cons, ih]
    cases event with
    | tick n =>
      rw [carried_tick, intervals]
      rfl
    | start k' =>
      by_cases hk : k' = k
      · subst hk
        have hstart : carried k' s (.start k' :: events) = 0 := by
          unfold carried
          rw [untilStop, if_pos rfl]
          cases s.since k' with
          | none => rfl
          | some t => rfl
        rw [carried_start_self, intervals, if_pos rfl, List.sum_append, BitVec.ofNat_add, hstart,
          add_zero, ← add_assoc]
        rfl
      · rw [carried_start_of_ne hk, intervals, if_neg hk]
        rfl
    | stop k' =>
      by_cases hk : k' = k
      · subst hk
        obtain ⟨htotal, hcarried⟩ := stop_self k' s events
        rw [htotal, hcarried, add_zero, intervals]
      · rw [carried_stop_of_ne hk, (step_stop_of_ne hk s).1, intervals]

end Infra.Stopwatch
