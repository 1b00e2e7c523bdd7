import MinimalistOS.Infra.Word
import Mathlib.Data.List.Chain

/-!
# Line ends in two bytes

A sender puts a carriage return before some of its newlines; a terminal takes the two bytes
together as one newline.

* `Sent` — a character as it is, or a newline in two bytes
* `received` — what the terminal makes of the bytes
* `received_iff` — it is what was meant as long as no newline that is sent as it is comes right
  after a carriage return, and only then
-/

namespace Infra

namespace LineEnds

/-- `'\n'`. -/
def lineFeed : Byte := 0x0A

/-- `'\r'`. -/
def carriageReturn : Byte := 0x0D

theorem lineFeed_ne : lineFeed ≠ carriageReturn := by decide

/-- What is sent: a character as it is, or a newline in two bytes. -/
inductive Sent where
  | plain (c : Byte)
  | line
  deriving DecidableEq

namespace Sent

def bytes : Sent → List Byte
  | plain c => [c]
  | line => [carriageReturn, lineFeed]

/-- The character that is meant. -/
def char : Sent → Byte
  | plain c => c
  | line => lineFeed

/-- The two may stand next to each other. -/
def Apart (a b : Sent) : Prop := ¬ (a = plain carriageReturn ∧ b = plain lineFeed)

instance (a b : Sent) : Decidable (Apart a b) := inferInstanceAs (Decidable (¬ _))

end Sent

open Sent

/-- What a terminal makes of the bytes. -/
def received : List Byte → List Byte
  | [] => []
  | [c] => [c]
  | c :: d :: l =>
    if c = carriageReturn ∧ d = lineFeed then lineFeed :: received l else c :: received (d :: l)

/-- A byte that does not begin a line end. -/
theorem received_cons {c : Byte} {l : List Byte}
    (h : c ≠ carriageReturn ∨ l.head? ≠ some lineFeed) : received (c :: l) = c :: received l := by
  cases l with
  | nil => rfl
  | cons d l =>
    rw [received, if_neg]
    rintro ⟨rfl, rfl⟩
    exact h.elim (fun hc => hc rfl) fun hl => hl rfl

theorem received_line (l : List Byte) :
    received (carriageReturn :: lineFeed :: l) = lineFeed :: received l :=
  if_pos ⟨rfl, rfl⟩

theorem head?_flatMap_bytes {sent : List Sent} (h : sent.head? ≠ some (plain lineFeed)) :
    (sent.flatMap bytes).head? ≠ some lineFeed := by
  cases sent with
  | nil => exact nofun
  | cons s sent =>
    cases s with
    | plain c => exact fun hc => h (congrArg (some ∘ plain) (Option.some.inj hc))
    | line => exact fun hc => lineFeed_ne (Option.some.inj hc).symm

/-- **A terminal gets what was meant** exactly when no newline that is sent as it is comes right after
a carriage return. -/
theorem received_iff (sent : List Sent) :
    received (sent.flatMap bytes) = sent.map char ↔ sent.IsChain Apart := by
  induction sent with
  | nil => exact iff_of_true rfl List.isChain_nil
  | cons s sent ih =>
    rw [List.flatMap_cons, List.map_cons, List.isChain_cons, ← ih]
    cases s with
    | line =>
      have hapart : ∀ y ∈ sent.head?, Apart line y := fun y _ h => nomatch h.1
      show received (carriageReturn :: lineFeed :: sent.flatMap bytes) = lineFeed :: _ ↔ _
      rw [received_line, List.cons_inj_right, and_iff_right hapart]
    | plain c =>
      show received (c :: sent.flatMap bytes) = c :: _ ↔ _
      by_cases h : c = carriageReturn ∧ sent.head? = some (plain lineFeed)
      · -- the terminal takes the two for one newline
        obtain ⟨rfl, hhead⟩ := h
        obtain ⟨rest, rfl⟩ : ∃ rest, sent = plain lineFeed :: rest := by
          cases sent with
          | nil => exact nomatch hhead
          | cons s rest => exact ⟨rest, congrArg (· :: rest) (Option.some.inj hhead)⟩
        refine iff_of_false ?_ fun h => h.1 _ rfl ⟨rfl, rfl⟩
        show received (carriageReturn :: lineFeed :: rest.flatMap bytes) ≠ _
        rw [received_line]
        exact fun heq => lineFeed_ne (List.cons.inj heq).1
      · have hapart : ∀ y ∈ sent.head?, Apart (plain c) y := by
          rintro y hy ⟨hc, rfl⟩
          exact h ⟨plain.inj hc, hy⟩
        have hbytes : c ≠ carriageReturn ∨ (sent.flatMap bytes).head? ≠ some lineFeed := by
          by_cases hc : c = carriageReturn
          · exact .inr (head?_flatMap_bytes fun hs => h ⟨hc, hs⟩)
          · exact .inl hc
        rw [received_cons hbytes, List.cons_inj_right, and_iff_right hapart]

end LineEnds

end Infra
