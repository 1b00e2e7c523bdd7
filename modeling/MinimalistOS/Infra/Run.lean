import Mathlib.Data.List.Infix
import Mathlib.Tactic.Common

/-!
# Runs of a state machine

A machine is a step function `σ → α → σ × ω`: from a state and an operation it gives the next
state and an answer. Everything a subsystem promises "over every sequence of calls" is a
statement about `run` and `trace` below.

## The rules

* `inv_run` — an invariant that every admissible step preserves holds at the end of every
  admissible run.
* `simulation` — two machines that answer alike step by step answer alike over a whole run.
* `observe_balance` — what goes into a queue comes out of it, or is still there.
* `along_iff_along` — where one step keeps its promise exactly when it is admissible, so do all.
* `safe_iff_along` — if an inadmissible step breaks safety at once, then safety of all the states
  of a run is the same as admissibility of all its steps. This is the exact form of the first
  rule, for code whose guarantee depends on how it is called.
-/

namespace Infra

variable {σ α ω : Type*} (step : σ → α → σ × ω)

/-- The state after a sequence of operations. -/
def run (s : σ) : List α → σ
  | [] => s
  | a :: as => run (step s a).1 as

/-- The answers a sequence of operations gets. -/
def trace (s : σ) : List α → List ω
  | [] => []
  | a :: as => (step s a).2 :: trace (step s a).1 as

/-- What an observer of the operations and their answers sees of a sequence of operations. -/
def observe {γ : Type*} (f : α → ω → List γ) (s : σ) (as : List α) : List γ :=
  (as.zip (trace step s as)).flatMap fun p => f p.1 p.2

/-- Every operation of the sequence meets `P` in the state in which it is executed. -/
def Along (P : σ → α → Prop) (s : σ) : List α → Prop
  | [] => True
  | a :: as => P s a ∧ Along P (step s a).1 as

instance Along.decidable {P : σ → α → Prop} [∀ s a, Decidable (P s a)] :
    ∀ (s : σ) (as : List α), Decidable (Along step P s as)
  | _, [] => inferInstanceAs (Decidable True)
  | s, a :: as =>
    have : Decidable (Along step P (step s a).1 as) := Along.decidable (step s a).1 as
    inferInstanceAs (Decidable (P s a ∧ Along step P (step s a).1 as))

@[simp] theorem run_nil (s : σ) : run step s [] = s := rfl

@[simp] theorem run_cons (s : σ) (a : α) (as : List α) :
    run step s (a :: as) = run step (step s a).1 as := rfl

theorem run_append (s : σ) (as bs : List α) :
    run step s (as ++ bs) = run step (run step s as) bs := by
  induction as generalizing s with
  | nil => rfl
  | cons a as ih => exact ih (step s a).1

theorem observe_cons {γ : Type*} (f : α → ω → List γ) (s : σ) (a : α) (as : List α) :
    observe step f s (a :: as) = f a (step s a).2 ++ observe step f (step s a).1 as := by
  simp [observe, trace]

theorem observe_append {γ : Type*} (f : α → ω → List γ) (s : σ) (as bs : List α) :
    observe step f s (as ++ bs) = observe step f s as ++ observe step f (run step s as) bs := by
  induction as generalizing s with
  | nil => simp [observe]
  | cons a as ih => simp [observe_cons, ih]

theorem along_append {P : σ → α → Prop} (s : σ) (as bs : List α) :
    Along step P s (as ++ bs) ↔ Along step P s as ∧ Along step P (run step s as) bs := by
  induction as generalizing s with
  | nil => simp [Along]
  | cons a as ih => simp [Along, ih, and_assoc]

/-- A condition that the operations meet in any state holds along their run. -/
theorem along_of_forall {P : σ → α → Prop} (s : σ) {as : List α} (h : ∀ a ∈ as, ∀ s, P s a) :
    Along step P s as := by
  induction as generalizing s with
  | nil => trivial
  | cons a as ih =>
    exact ⟨h a List.mem_cons_self s, ih _ fun b hb => h b (List.mem_cons_of_mem a hb)⟩

/-- A condition on the operations alone is one on each of them. -/
theorem along_iff_forall {Q : α → Prop} (s : σ) (as : List α) :
    Along step (fun _ a => Q a) s as ↔ ∀ a ∈ as, Q a := by
  induction as generalizing s with
  | nil => simp [Along]
  | cons a as ih => simp [Along, ih]

theorem Along.mono {P Q : σ → α → Prop} (h : ∀ s a, P s a → Q s a) :
    ∀ {s : σ} {as : List α}, Along step P s as → Along step Q s as
  | _, [], _ => trivial
  | s, a :: _, ⟨ha, has⟩ => ⟨h s a ha, Along.mono h has⟩

theorem Along.and {P Q : σ → α → Prop} : ∀ {s : σ} {as : List α}, Along step P s as →
    Along step Q s as → Along step (fun s a => P s a ∧ Q s a) s as
  | _, [], _, _ => trivial
  | _, _ :: _, ⟨hp, hps⟩, ⟨hq, hqs⟩ => ⟨⟨hp, hq⟩, hps.and hqs⟩

/-- **Invariant rule.** What admissible steps preserve holds after an admissible run. -/
theorem inv_run {I : σ → Prop} {P : σ → α → Prop}
    (hstep : ∀ s a, I s → P s a → I (step s a).1) {s : σ} {as : List α}
    (h : I s) (has : Along step P s as) : I (run step s as) := by
  induction as generalizing s with
  | nil => exact h
  | cons a as ih =>
    obtain ⟨ha, has⟩ := has
    exact ih (hstep s a h ha) has

/-- What admissible steps guarantee in states that meet the invariant holds along an admissible
run. -/
theorem along_of_inv {I : σ → Prop} {P Q : σ → α → Prop} (hQ : ∀ s a, I s → P s a → Q s a)
    (hstep : ∀ s a, I s → P s a → I (step s a).1) {s : σ} {as : List α} (h : I s)
    (has : Along step P s as) : Along step Q s as := by
  induction as generalizing s with
  | nil => trivial
  | cons a as ih =>
    obtain ⟨ha, has⟩ := has
    exact ⟨hQ s a h ha, ih (hstep s a h ha) has⟩

/-- The invariant rule for steps that need no condition. -/
theorem inv_run_of_forall {I : σ → Prop} (hstep : ∀ s a, I s → I (step s a).1)
    {s : σ} (as : List α) (h : I s) : I (run step s as) :=
  inv_run step (P := fun _ _ => True) (fun s a hs _ => hstep s a hs) h
    (along_of_forall step s fun _ _ _ => trivial)

/-- **Simulation rule.** If related states stay related and answer alike under every operation
that meets `Q`, then they do so under every sequence of such operations. -/
theorem simulation {τ : Type*} {step' : τ → α → τ × ω} {R : σ → τ → Prop} {Q : α → Prop}
    (hstep : ∀ s t a, R s t → Q a → R (step s a).1 (step' t a).1 ∧ (step s a).2 = (step' t a).2)
    {s : σ} {t : τ} {as : List α} (h : R s t) (has : ∀ a ∈ as, Q a) :
    R (run step s as) (run step' t as) ∧ trace step s as = trace step' t as := by
  induction as generalizing s t with
  | nil => exact ⟨h, rfl⟩
  | cons a as ih =>
    obtain ⟨hnext, hanswer⟩ := hstep s t a h (has a List.mem_cons_self)
    obtain ⟨hrun, htrace⟩ := ih hnext fun b hb => has b (List.mem_cons_of_mem a hb)
    exact ⟨hrun, List.cons_eq_cons.mpr ⟨hanswer, htrace⟩⟩

/-- **Conservation rule** for the operations that meet `Q`. If at every step the contents before and
what is put in are what is taken out and the contents after, then so it is over every run. -/
theorem observe_balance_of {γ : Type*} {I : σ → Prop} {Q : α → Prop} (contents : σ → List γ)
    {ins outs : α → ω → List γ}
    (hstep : ∀ s a, I s → Q a → I (step s a).1 ∧
      contents s ++ ins a (step s a).2 = outs a (step s a).2 ++ contents (step s a).1)
    {s : σ} (h : I s) {as : List α} (has : ∀ a ∈ as, Q a) :
    contents s ++ observe step ins s as
      = observe step outs s as ++ contents (run step s as) := by
  induction as generalizing s with
  | nil => simp [observe]
  | cons a as ih =>
    obtain ⟨hnext, hbalance⟩ := hstep s a h (has a List.mem_cons_self)
    rw [observe_cons, observe_cons, ← List.append_assoc, hbalance, List.append_assoc,
      ih hnext fun b hb => has b (List.mem_cons_of_mem a hb), ← List.append_assoc, run_cons]

/-- The conservation rule for operations that need no condition. -/
theorem observe_balance {γ : Type*} {I : σ → Prop} (contents : σ → List γ)
    {ins outs : α → ω → List γ}
    (hstep : ∀ s a, I s → I (step s a).1 ∧
      contents s ++ ins a (step s a).2 = outs a (step s a).2 ++ contents (step s a).1)
    {s : σ} (h : I s) (as : List α) :
    contents s ++ observe step ins s as
      = observe step outs s as ++ contents (run step s as) :=
  observe_balance_of step (Q := fun _ => True) contents (fun s a hs _ => hstep s a hs) h
    fun _ _ => trivial

/-- **Exact guarantee.** If in the states that meet the invariant a step gives what is promised
exactly when it is admissible, then all the steps of a run give it exactly when all are
admissible. -/
theorem along_iff_along {I : σ → Prop} {P Q : σ → α → Prop}
    (hQ : ∀ s a, I s → (Q s a ↔ P s a)) (hstep : ∀ s a, I s → P s a → I (step s a).1)
    {s : σ} (h : I s) (as : List α) : Along step Q s as ↔ Along step P s as := by
  induction as generalizing s with
  | nil => exact Iff.rfl
  | cons a as ih =>
    constructor
    · rintro ⟨ha, has⟩
      have hP := (hQ s a h).mp ha
      exact ⟨hP, (ih (hstep s a h hP)).mp has⟩
    · rintro ⟨hP, has⟩
      exact ⟨(hQ s a h).mpr hP, (ih (hstep s a h hP)).mpr has⟩

/-- **Exact safety** in runs whose steps all meet `R`: the general form of `safe_iff_along`. -/
theorem safe_iff_along_of {I S : σ → Prop} {R P : σ → α → Prop} (hsafe : ∀ s, I s → S s)
    (hstep : ∀ s a, R s a → I s → P s a → I (step s a).1)
    (hbreak : ∀ s a, R s a → I s → ¬ P s a → ¬ S (step s a).1) {s : σ} (hs : I s) {as : List α}
    (hR : Along step R s as) :
    (∀ pre, pre <+: as → S (run step s pre)) ↔ Along step P s as := by
  induction as generalizing s with
  | nil => simpa [Along] using hsafe s hs
  | cons a as ih =>
    obtain ⟨ha, has⟩ := hR
    constructor
    · intro h
      -- the state after one step is a state of the run
      have hP : P s a := by
        by_contra hn
        exact hbreak s a ha hs hn (h [a] (by simp))
      refine ⟨hP, (ih (hstep s a ha hs hP) has).mp fun pre hpre => ?_⟩
      exact h (a :: pre) (by simpa using hpre)
    · rintro ⟨hP, hrest⟩ pre hpre
      cases pre with
      | nil => exact hsafe s hs
      | cons b pre =>
        obtain ⟨rfl, hpre'⟩ := List.cons_prefix_cons.mp hpre
        exact (ih (hstep s b ha hs hP) has).mpr hrest pre hpre'

/--
**Exact safety.**

`I` is the invariant that carries the proof, `S` what is promised of each state, `Q` what is
assumed of every operation. If an admissible step keeps `I` and an inadmissible one leaves a
state that is not `S`, then the states of a run are all safe exactly when its steps are all
admissible.
-/
theorem safe_iff_along {I S : σ → Prop} {Q : α → Prop} {P : σ → α → Prop}
    (hsafe : ∀ s, I s → S s) (hstep : ∀ s a, Q a → I s → P s a → I (step s a).1)
    (hbreak : ∀ s a, Q a → I s → ¬ P s a → ¬ S (step s a).1) {s : σ} (hs : I s)
    {as : List α} (hQ : ∀ a ∈ as, Q a) :
    (∀ pre, pre <+: as → S (run step s pre)) ↔ Along step P s as :=
  safe_iff_along_of step (R := fun _ a => Q a) hsafe hstep hbreak hs
    (along_of_forall step s fun a ha _ => hQ a ha)

end Infra
