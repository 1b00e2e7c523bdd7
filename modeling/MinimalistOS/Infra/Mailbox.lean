import Mathlib.Data.List.Forall2
import Mathlib.Data.List.Perm.Basic

/-!
# A mailbox with selective receive

Messages are put in one after another; a reader takes the first one that satisfies its predicate.
What a reader gets need not be the message itself, only an object that carries it, so the
behaviour is stated for a relation between the two.

* `Delivers` — a sequence of events is one that the mailbox allows
* `Delivers.conserves` — nothing is lost and nothing comes twice
* `forall₂_find?`, `forall₂_eraseP` — taking the first match respects a relation between lists
-/

namespace Infra.Mailbox

variable {μ ν : Type*} (R : ν → μ → Prop)

/-- A message is put in, or a reader asks for the first match of `p` and gets something or
nothing. -/
inductive Event (μ ν : Type*) where
  | put (m : μ)
  | take (p : μ → Bool) (got : Option ν)

/-- The event is right for the messages that are waiting: the reader gets the first match, and
nothing only if there is none. -/
def Event.Right (waiting : List μ) : Event μ ν → Prop
  | .put _ => True
  | .take p got => Option.Rel R got (waiting.find? p)

/-- The messages that wait after the event. -/
def Event.after (waiting : List μ) : Event μ ν → List μ
  | .put m => waiting ++ [m]
  | .take p _ => waiting.eraseP p

/-- Each event is right for the messages that wait when it happens. -/
def Delivers : List μ → List (Event μ ν) → Prop
  | _, [] => True
  | waiting, e :: es => e.Right R waiting ∧ Delivers (e.after waiting) es

/-- The messages that wait at the end. -/
def left (waiting : List μ) (es : List (Event μ ν)) : List μ := es.foldl Event.after waiting

/-- The messages put in, in order. -/
def puts : List (Event μ ν) → List μ
  | [] => []
  | .put m :: es => m :: puts es
  | .take _ _ :: es => puts es

/-- What the readers got, in order. -/
def gots : List (Event μ ν) → List ν
  | [] => []
  | .put _ :: es => gots es
  | .take _ none :: es => gots es
  | .take _ (some v) :: es => v :: gots es

theorem gots_append : ∀ es fs : List (Event μ ν), gots (es ++ fs) = gots es ++ gots fs
  | [], _ => rfl
  | .put _ :: es, fs => gots_append es fs
  | .take _ none :: es, fs => gots_append es fs
  | .take _ (some v) :: es, fs => congrArg (v :: ·) (gots_append es fs)

variable {R}

theorem delivers_append (waiting : List μ) (es fs : List (Event μ ν)) :
    Delivers R waiting (es ++ fs) ↔ Delivers R waiting es ∧ Delivers R (left waiting es) fs := by
  induction es generalizing waiting with
  | nil => simp [Delivers, left]
  | cons e es ih => simp [Delivers, left, ih, and_assoc]

/-- The first match and the rest are the list, rearranged. -/
theorem perm_cons_eraseP {p : μ → Bool} {l : List μ} {m : μ} (h : l.find? p = some m) :
    (m :: l.eraseP p).Perm l := by
  obtain ⟨hm, as, bs, rfl, has⟩ := List.find?_eq_some_iff_append.mp h
  have hnone : ∀ a ∈ as, ¬ p a = true := fun a ha => by simpa using has a ha
  rw [List.eraseP_append_right _ hnone, List.eraseP_cons_of_pos hm]
  exact List.perm_middle.symm

/-- **Conservation.** What the readers got carries, one for one, messages that were put in, and
those together with what is left are all the messages. -/
theorem Delivers.conserves : ∀ {waiting : List μ} {es : List (Event μ ν)},
    Delivers R waiting es → ∃ taken : List μ, List.Forall₂ R (gots es) taken ∧
      (taken ++ left waiting es).Perm (waiting ++ puts es)
  | waiting, [], _ => ⟨[], .nil, by simp [left, puts]⟩
  | waiting, .put m :: es, ⟨_, hes⟩ => by
    obtain ⟨taken, hgot, hperm⟩ := hes.conserves
    refine ⟨taken, hgot, ?_⟩
    simpa [left, puts, Event.after] using hperm
  | waiting, .take p none :: es, ⟨hright, hes⟩ => by
    obtain ⟨taken, hgot, hperm⟩ := hes.conserves
    refine ⟨taken, hgot, ?_⟩
    have hnone : waiting.eraseP p = waiting := by
      cases hfind : waiting.find? p with
      | none => exact List.eraseP_of_forall_not (by simpa using hfind)
      | some m =>
        rw [Event.Right, hfind] at hright
        cases hright
    simpa [left, puts, Event.after, hnone] using hperm
  | waiting, .take p (some v) :: es, ⟨hright, hes⟩ => by
    obtain ⟨taken, hgot, hperm⟩ := hes.conserves
    cases hfind : waiting.find? p with
    | none =>
      rw [Event.Right, hfind] at hright
      cases hright
    | some m =>
      rw [Event.Right, hfind] at hright
      obtain ⟨hR⟩ := hright
      -- the message taken here comes before those taken later
      refine ⟨m :: taken, .cons hR hgot, ?_⟩
      have hsplit := (perm_cons_eraseP hfind).append_right (puts es)
      exact (hperm.cons m).trans hsplit

/-- Whatever can be read off both sides comes out at most as often as it went in. -/
theorem Delivers.map_subperm {γ : Type*} {f : ν → γ} {g : μ → γ} (hfg : ∀ v m, R v m → f v = g m)
    {es : List (Event μ ν)} (h : Delivers R [] es) :
    ((gots es).map f).Subperm ((puts es).map g) := by
  obtain ⟨taken, hgot, hperm⟩ := h.conserves
  have hmap : (gots es).map f = taken.map g := by
    rw [← List.forall₂_eq_eq_eq, List.forall₂_map_left_iff, List.forall₂_map_right_iff]
    exact hgot.imp hfg
  rw [hmap]
  exact ((List.sublist_append_left taken (left [] es)).map g).subperm.trans (hperm.map g).subperm

/-! ## Related lists -/

section Related

variable {α β : Type*} {S : α → β → Prop} {p : α → Bool} {q : β → Bool}
  (hS : ∀ a b, S a b → p a = q b)

include hS

theorem forall₂_find? {as : List α} {bs : List β} (h : List.Forall₂ S as bs) :
    Option.Rel S (as.find? p) (bs.find? q) := by
  induction h with
  | nil => exact .none
  | @cons a b as bs hab _ ih =>
    rw [List.find?_cons, List.find?_cons, hS a b hab]
    cases q b with
    | true => exact .some hab
    | false => exact ih

theorem forall₂_eraseP {as : List α} {bs : List β} (h : List.Forall₂ S as bs) :
    List.Forall₂ S (as.eraseP p) (bs.eraseP q) := by
  induction h with
  | nil => exact .nil
  | @cons a b as bs hab hrest ih =>
    rw [List.eraseP_cons, List.eraseP_cons, hS a b hab]
    cases q b with
    | true => exact hrest
    | false => exact .cons hab ih

end Related

end Infra.Mailbox
