import MinimalistOS.Infra.Run
import MinimalistOS.Kernel.Timer

/-!
# `timer_wait`

* `Counts.step` — the ticks are counted
* `Over.distance_step` — how far a wait that is over is from returning
* `timer_wait_in_time` — it waits for the ticks it is asked for, and hardly longer

The subtraction in the loop makes the count of ticks correct over an overflow. An interrupt between
the test and `hlt` does not end the `hlt`, so that the last tick can be noticed with the next
interrupt only.
-/

namespace MinimalistOS

open Infra

/-- The timer interrupts in a run. -/
def timers (actions : List WaitAction) : Nat := actions.count (.interrupt true)

namespace TimerWait

variable {s : TimerWait} {n : Nat}

/-- There have been `n` ticks since the call, and it has not returned too early. -/
structure Counts (s : TimerWait) (n : Nat) : Prop where
  elapsed : s.timerTicks - s.start = BitVec.ofNat 32 n
  returned : s.phase = .returned → s.ticks.toNat ≤ n

theorem counts_start (now ticks : Word) : Counts (timerWait now ticks) 0 :=
  ⟨BitVec.sub_self now, fun h => by cases h⟩

/-- The test of the loop. -/
theorem Counts.test (h : Counts s n) (hn : n < 2 ^ 32) :
    s.timerTicks - s.start < s.ticks ↔ n < s.ticks.toNat := by
  rw [h.elapsed, BitVec.lt_def, BitVec.toNat_ofNat, Nat.mod_eq_of_lt hn]

theorem step_ticks (action : WaitAction) : (s.step action).1.ticks = s.ticks := by
  cases action with
  | interrupt isTimer => rfl
  | program =>
    obtain ⟨timerTicks, start, ticks, phase⟩ := s
    cases phase
    all_goals rfl

/-- One step. -/
theorem Counts.step (h : Counts s n) (hn : n < 2 ^ 32) (action : WaitAction) :
    Counts (s.step action).1 (n + timers [action]) := by
  have htest := h.test hn
  obtain ⟨timerTicks, start, ticks, phase⟩ := s
  obtain ⟨helapsed, hreturned⟩ := h
  simp only at helapsed hreturned htest
  cases action with
  | interrupt isTimer =>
    refine ⟨?_, fun hphase => ?_⟩
    · cases isTimer with
      | true =>
        show timerTicks + 1 - start = BitVec.ofNat 32 (n + 1)
        rw [BitVec.ofNat_add, ← helapsed]
        bv_omega
      | false => exact helapsed
    · have hold : phase = .returned := by
        cases phase with
        | returned => rfl
        | testing => cases hphase
        | halting => cases hphase
        | halted => cases hphase
      exact Nat.le_trans (hreturned hold) (Nat.le_add_right n _)
  | program =>
    cases phase with
    | testing =>
      refine ⟨helapsed, fun hphase => ?_⟩
      by_cases hmore : timerTicks - start < ticks
      · simp [TimerWait.step, hmore] at hphase
      · exact Nat.not_lt.mp fun hlt => hmore (htest.mpr hlt)
    | halting => exact ⟨helapsed, fun hphase => by cases hphase⟩
    | halted => exact ⟨helapsed, hreturned⟩
    | returned => exact ⟨helapsed, hreturned⟩

/-- How far the program is from the end of a wait that is over. -/
def distance : WaitPhase → Nat
  | .halting => 3
  | .halted => 2
  | .testing => 1
  | .returned => 0

theorem distance_zero {phase : WaitPhase} (h : distance phase = 0) : phase = .returned := by
  cases phase with
  | returned => rfl
  | testing => cases h
  | halting => cases h
  | halted => cases h

/-- The wait is over. -/
structure Over (s : TimerWait) (n : Nat) : Prop extends Counts s n where
  enough : s.ticks.toNat ≤ n

theorem Over.step (h : Over s n) (hn : n < 2 ^ 32) (action : WaitAction) :
    Over (s.step action).1 (n + timers [action]) := by
  refine ⟨h.toCounts.step hn action, ?_⟩
  rw [step_ticks]
  exact Nat.le_trans h.enough (Nat.le_add_right n _)

/-- A test ends a wait that is over. -/
theorem Over.test_returns (h : Over s n) (hn : n < 2 ^ 32) (hphase : s.phase = .testing) :
    (s.step .program).1.phase = .returned := by
  have hstop : ¬ s.timerTicks - s.start < s.ticks := by
    rw [h.test hn]
    exact Nat.not_lt.mpr h.enough
  simp only [TimerWait.step, hphase, if_neg hstop]

theorem Over.distance_step (h : Over s n) (hn : n < 2 ^ 32)
    (action : WaitAction) : distance (s.step action).1.phase ≤ distance s.phase := by
  cases hphase : s.phase with
  | testing =>
    cases action with
    | interrupt isTimer => simp [TimerWait.step, hphase, distance]
    | program =>
      rw [h.test_returns hn hphase]
      exact Nat.zero_le 1
  | halting =>
    cases action with
    | interrupt isTimer => simp [TimerWait.step, hphase, distance]
    | program => simp [TimerWait.step, hphase, distance]
  | halted =>
    cases action with
    | interrupt isTimer => simp [TimerWait.step, hphase, distance]
    | program => simp [TimerWait.step, hphase, distance]
  | returned =>
    cases action with
    | interrupt isTimer => simp [TimerWait.step, hphase, distance]
    | program => simp [TimerWait.step, hphase, distance]

/-- After a step of the program there is no `hlt` ahead. -/
theorem Over.distance_program (h : Over s n) (hn : n < 2 ^ 32) :
    distance (s.step .program).1.phase ≤ 2 := by
  cases hphase : s.phase with
  | testing =>
    rw [h.test_returns hn hphase]
    exact Nat.zero_le 2
  | halting => simp [TimerWait.step, hphase, distance]
  | halted => simp [TimerWait.step, hphase, distance]
  | returned => simp [TimerWait.step, hphase, distance]

/-- An interrupt ends `hlt`. -/
theorem distance_interrupt (isTimer : Bool) (hphase : distance s.phase ≤ 2) :
    distance (s.step (.interrupt isTimer)).1.phase ≤ 1 := by
  cases h : s.phase with
  | testing => simp [TimerWait.step, h, distance]
  | halting => simp [h, distance] at hphase
  | halted => simp [TimerWait.step, h, distance]
  | returned => simp [TimerWait.step, h, distance]

/-- Behind `hlt` there is only the test. -/
theorem Over.program_returns (h : Over s n) (hn : n < 2 ^ 32)
    (hdistance : distance s.phase ≤ 1) : (s.step .program).1.phase = .returned := by
  cases hphase : s.phase with
  | testing => exact h.test_returns hn hphase
  | halting => simp [hphase, distance] at hdistance
  | halted => simp [hphase, distance] at hdistance
  | returned => simp [TimerWait.step, hphase]

/-! ## Runs -/

theorem timers_cons (action : WaitAction) (actions : List WaitAction) :
    timers (action :: actions) = timers [action] + timers actions := by
  rw [timers, show action :: actions = [action] ++ actions from rfl, List.count_append]
  rfl

theorem timers_append (actions actions' : List WaitAction) :
    timers (actions ++ actions') = timers actions + timers actions' := List.count_append

theorem run_ticks (actions : List WaitAction) : ∀ s : TimerWait,
    (run TimerWait.step s actions).ticks = s.ticks := by
  induction actions with
  | nil => exact fun _ => rfl
  | cons action actions ih =>
    intro s
    rw [run_cons, ih, step_ticks]

theorem Counts.run (actions : List WaitAction) : ∀ {s : TimerWait} {n : Nat}, Counts s n →
    n + timers actions < 2 ^ 32 → Counts (run TimerWait.step s actions) (n + timers actions) := by
  induction actions with
  | nil => exact fun h _ => h
  | cons action actions ih =>
    intro s n h hn
    rw [timers_cons, ← Nat.add_assoc] at hn ⊢
    exact ih (h.step (by omega) action) hn

theorem Over.run (actions : List WaitAction) : ∀ {s : TimerWait} {n : Nat}, Over s n →
    n + timers actions < 2 ^ 32 → Over (run TimerWait.step s actions) (n + timers actions) ∧
      distance (run TimerWait.step s actions).phase ≤ distance s.phase := by
  induction actions with
  | nil => exact fun h _ => ⟨h, Nat.le_refl _⟩
  | cons action actions ih =>
    intro s n h hn
    rw [timers_cons, ← Nat.add_assoc] at hn ⊢
    obtain ⟨hover, hdistance⟩ := ih (h.step (by omega) action) hn
    exact ⟨hover, Nat.le_trans hdistance (h.distance_step (by omega) action)⟩

/-- A wait that is over returns with a step of the program, an interrupt and another step. -/
theorem Over.returns (h : Over s n) {as₁ as₂ as₃ : List WaitAction} {isTimer : Bool}
    (hn : n + timers (.program :: as₁ ++ .interrupt isTimer :: as₂ ++ .program :: as₃) < 2 ^ 32) :
    (Infra.run TimerWait.step s
      (.program :: as₁ ++ .interrupt isTimer :: as₂ ++ .program :: as₃)).phase = .returned := by
  rw [timers_append, timers_append, timers_cons, timers_cons (.interrupt isTimer),
    timers_cons .program as₃] at hn
  have hprogram := h.distance_program (by omega)
  obtain ⟨hfirst, hdistance₁⟩ := Over.run as₁ (h.step (by omega) .program) (by omega)
  have hinterrupt := distance_interrupt isTimer (Nat.le_trans hdistance₁ hprogram)
  obtain ⟨hsecond, hdistance₂⟩ :=
    Over.run as₂ (hfirst.step (by omega) (.interrupt isTimer)) (by omega)
  have hreturned := hsecond.program_returns (by omega) (Nat.le_trans hdistance₂ hinterrupt)
  obtain ⟨-, hdistance₃⟩ := Over.run as₃ (hsecond.step (by omega) .program) (by omega)
  rw [hreturned] at hdistance₃
  rw [run_append, run_append, run_cons, run_cons, run_cons]
  exact distance_zero (Nat.le_zero.mp hdistance₃)

end TimerWait

open TimerWait

/--
**`timer_wait` waits for the ticks it is asked for, and hardly longer.**

The interrupts of the timer and others come at any moment, and the count of ticks may overflow. A
wait has not returned before the timer has interrupted as often as it was asked for. Once the timer
has, the wait has returned after the next step of the program, interrupt and step of the program in
this order, whatever comes in between.
-/
theorem timer_wait_in_time (now ticks : Word) {actions : List WaitAction}
    (h : timers actions < 2 ^ 32) :
    ((run TimerWait.step (timerWait now ticks) actions).phase = .returned →
      ticks.toNat ≤ timers actions) ∧
    ∀ pre as₁ as₂ as₃ isTimer,
      actions = pre ++ .program :: as₁ ++ .interrupt isTimer :: as₂ ++ .program :: as₃ →
      ticks.toNat ≤ timers pre →
      (run TimerWait.step (timerWait now ticks) actions).phase = .returned := by
  have hcounts := Counts.run actions (counts_start now ticks) (by omega)
  rw [Nat.zero_add] at hcounts
  refine ⟨fun hreturned => ?_, fun pre as₁ as₂ as₃ isTimer heq hticks => ?_⟩
  · have hticks := hcounts.returned hreturned
    rw [run_ticks] at hticks
    exact hticks
  · have hsplit : actions
        = pre ++ (.program :: as₁ ++ .interrupt isTimer :: as₂ ++ .program :: as₃) := by
      rw [heq, List.append_assoc, List.append_assoc, List.append_assoc]
    rw [hsplit, timers_append] at h
    have hpre := Counts.run pre (counts_start now ticks) (by omega)
    rw [Nat.zero_add] at hpre
    have hover : Over (run TimerWait.step (timerWait now ticks) pre) (timers pre) := by
      refine ⟨hpre, ?_⟩
      rw [run_ticks]
      exact hticks
    rw [hsplit, run_append]
    exact hover.returns h

/-- Two ticks around an overflow; the second comes between the test and `hlt`, and the wait ends with
a key. -/
theorem timer_wait_in_time_overflow :
    (run TimerWait.step (timerWait 0xFFFFFFFF 2) [.program, .program, .interrupt true, .program,
      .interrupt true, .program, .interrupt false, .program]).phase = .returned :=
  (timer_wait_in_time 0xFFFFFFFF 2 (by decide)).2
    [.program, .program, .interrupt true, .program, .interrupt true] [] [] [] false rfl (by decide)

end MinimalistOS
