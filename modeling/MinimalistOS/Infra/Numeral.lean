import MinimalistOS.Infra.Word
import Mathlib.Data.Nat.Digits.Lemmas

/-!
# Numerals

What it is for a text to be the number `n` written in base `b`: digits of the base, no leading
zero, and the value `n`. Digits above nine are lower-case letters, so bases go up to 36.

`digits` are the digits in the order in which division finds them, low end first, and unlike
`Nat.digits` there is one even for zero; that is what a do-while loop produces. `numeral` is the
text, and `isNumeral_numeral` says it is one.
-/

namespace Infra

variable {b n : Nat}

/-- The digits, low end first, one at least. -/
def digits (b n : Nat) : List Nat := if n = 0 then [0] else Nat.digits b n

/-- The character of a digit. -/
def digitByte (d : Nat) : Byte := BitVec.ofNat 8 (if d < 10 then d + 0x30 else d - 10 + 0x61)

/-- The character of a digit, with upper-case letters. -/
def upperByte (d : Nat) : Byte := BitVec.ofNat 8 (if d < 10 then d + 0x30 else d - 10 + 0x41)

/-- The digit of a character. -/
def digitOfByte (c : Byte) : Option Nat :=
  if 0x30 ≤ c ∧ c ≤ 0x39 then some (c.toNat - 0x30)
  else if 0x61 ≤ c ∧ c ≤ 0x7A then some (c.toNat - 0x61 + 10)
  else none

/-- The text of a number. -/
def numeral (b n : Nat) : List Byte := (digits b n).reverse.map digitByte

/-- The text of a number in upper-case letters. -/
def upperNumeral (b n : Nat) : List Byte := (digits b n).reverse.map upperByte

/-- Reading digits from left to right. -/
def evalNumeral (b : Nat) (text : List Byte) : Nat :=
  text.foldl (fun n c => n * b + (digitOfByte c).getD 0) 0

/-- `text` is `n` in base `b`. -/
structure IsNumeral (b n : Nat) (text : List Byte) : Prop where
  ne_nil : text ≠ []
  digit : ∀ c ∈ text, ∃ d < b, digitOfByte c = some d
  no_leading_zero : text.head? = some 0x30 → text = [0x30]
  value : evalNumeral b text = n

/-- Reading a text that may start with a minus sign. -/
def evalInteger (b : Nat) (text : List Byte) : Int :=
  if text.head? = some 0x2D then -evalNumeral b text.tail else evalNumeral b text

/-! ## Digits -/

theorem digits_ne_nil (b n : Nat) : digits b n ≠ [] := by
  unfold digits
  split
  · exact List.cons_ne_nil 0 []
  next hn => exact Nat.digits_ne_nil_iff_ne_zero.mpr hn

/-- One round of the division loop. -/
theorem digits_eq_cons (hb : 2 ≤ b) (n : Nat) :
    digits b n = n % b :: if n / b = 0 then [] else digits b (n / b) := by
  by_cases hn : n = 0
  · subst hn
    simp [digits]
  · rw [digits, if_neg hn, Nat.digits_def' hb (Nat.pos_of_ne_zero hn)]
    congr 1
    by_cases hdiv : n / b = 0
    · rw [if_pos hdiv, hdiv, Nat.digits_zero]
    · rw [if_neg hdiv, digits, if_neg hdiv]

theorem lt_of_mem_digits (hb : 2 ≤ b) {d : Nat} (h : d ∈ digits b n) : d < b := by
  unfold digits at h
  split at h
  · rw [List.mem_singleton.mp h]
    omega
  · exact Nat.digits_lt_base hb h

theorem ofDigits_digits' (b n : Nat) : Nat.ofDigits b (digits b n) = n := by
  unfold digits
  split
  next hn => rw [hn, Nat.ofDigits_singleton]
  · exact Nat.ofDigits_digits b n

theorem length_digits_le {k : Nat} (hb : 2 ≤ b) (hk : 0 < k) (hn : n < b ^ k) :
    (digits b n).length ≤ k := by
  unfold digits
  split
  · exact hk
  · exact (Nat.digits_length_le_iff hb n).mpr hn

theorem getD_digits' (hb : 2 ≤ b) (n i : Nat) : (digits b n).getD i 0 = n / b ^ i % b := by
  unfold digits
  split
  next hn => cases i <;> simp [hn]
  · exact Nat.getD_digits n i hb

/-- As many digits as there is room for are the digits and zeros above them. -/
theorem range_map_digit (hb : 2 ≤ b) {k : Nat} (hk : 0 < k) (hn : n < b ^ k) :
    (List.range k).map (fun i => n / b ^ i % b)
      = digits b n ++ List.replicate (k - (digits b n).length) 0 := by
  have hlen := length_digits_le hb hk hn
  apply List.ext_getElem
  · simp only [List.length_map, List.length_range, List.length_append, List.length_replicate]
    omega
  intro i h1 h2
  rw [List.getElem_map, List.getElem_range, ← getD_digits' hb]
  by_cases hi : i < (digits b n).length
  · rw [List.getElem_append_left hi, List.getD_eq_getElem?_getD, List.getElem?_eq_getElem hi,
      Option.getD_some]
  · rw [List.getElem_append_right (Nat.not_lt.mp hi), List.getElem_replicate,
      List.getD_eq_getElem?_getD, List.getElem?_eq_none (Nat.not_lt.mp hi), Option.getD_none]

/-! ## Characters -/

theorem digitOfByte_digitByte {d : Nat} (h : d < 36) : digitOfByte (digitByte d) = some d := by
  have hall : ∀ d : Fin 36, digitOfByte (digitByte d) = some d.1 := by decide
  exact hall ⟨d, h⟩

/-- The character of a digit is none of the others. -/
theorem digitByte_ne {d : Nat} {c : Byte} (h : d < 36) (hc : digitOfByte c = none) :
    digitByte d ≠ c := by
  rintro rfl
  rw [digitOfByte_digitByte h] at hc
  exact Option.some_ne_none d hc

theorem digitByte_eq_zeroChar {d : Nat} (h : d < 36) (hd : digitByte d = 0x30) : d = 0 := by
  have hvalue := digitOfByte_digitByte h
  rw [hd, show digitOfByte 0x30 = some 0 by decide] at hvalue
  exact (Option.some.inj hvalue).symm

/-! ## Numerals -/

theorem length_numeral (b n : Nat) : (numeral b n).length = (digits b n).length := by
  rw [numeral, List.length_map, List.length_reverse]

theorem mem_numeral (hb : 2 ≤ b) {c : Byte} (h : c ∈ numeral b n) : ∃ d < b, digitByte d = c := by
  obtain ⟨d, hd, rfl⟩ := List.mem_map.mp h
  exact ⟨d, lt_of_mem_digits hb (List.mem_reverse.mp hd), rfl⟩

/-- A character that is no digit is not in a numeral. -/
theorem ne_of_mem_numeral (hb : 2 ≤ b) (hb36 : b ≤ 36) {c e : Byte} (hc : c ∈ numeral b n)
    (he : digitOfByte e = none) : c ≠ e := by
  obtain ⟨d, hd, rfl⟩ := mem_numeral hb hc
  exact digitByte_ne (by omega) he

/-- Reading the digits back, high end first, is `Nat.ofDigits`. -/
theorem evalNumeral_digitByte (l : List Nat) (hl : ∀ d ∈ l, d < 36) :
    evalNumeral b (l.reverse.map digitByte) = Nat.ofDigits b l := by
  induction l with
  | nil => rfl
  | cons d l ih =>
    have htail := ih fun e he => hl e (List.mem_cons_of_mem d he)
    have hd := digitOfByte_digitByte (hl d List.mem_cons_self)
    unfold evalNumeral at htail ⊢
    rw [List.reverse_cons, List.map_append, List.foldl_append, htail, List.map_singleton,
      List.foldl_cons, List.foldl_nil, hd, Option.getD_some, Nat.ofDigits_cons, Nat.mul_comm,
      Nat.add_comm]

theorem isNumeral_numeral (hb : 2 ≤ b) (hb36 : b ≤ 36) (n : Nat) :
    IsNumeral b n (numeral b n) where
  ne_nil h := digits_ne_nil b n (by simpa [numeral] using h)
  digit c hc := by
    obtain ⟨d, hd, rfl⟩ := mem_numeral hb hc
    exact ⟨d, hd, digitOfByte_digitByte (by omega)⟩
  no_leading_zero h := by
    unfold numeral digits at *
    by_cases hn : n = 0
    · rw [if_pos hn]
      rfl
    · -- the first character is the last digit division finds, and that is not zero
      rw [if_neg hn, List.head?_map, List.head?_reverse,
        List.getLast?_eq_getLast_of_ne_nil (Nat.digits_ne_nil_iff_ne_zero.mpr hn)] at h
      have hlast := List.getLast_mem (Nat.digits_ne_nil_iff_ne_zero (b := b).mpr hn)
      have hlt : _ < b := Nat.digits_lt_base hb hlast
      exact absurd (digitByte_eq_zeroChar (by omega) (Option.some.inj h))
        (Nat.getLast_digit_ne_zero b hn)
  value := by
    rw [numeral, evalNumeral_digitByte _ fun d hd => by have := lt_of_mem_digits hb hd; omega,
      ofDigits_digits']

theorem IsNumeral.head_ne_minus {text : List Byte} (h : IsNumeral b n text) :
    text.head? ≠ some 0x2D := by
  intro hhead
  obtain ⟨d, -, hd⟩ := h.digit 0x2D (List.mem_of_head? hhead)
  exact Option.some_ne_none d (hd.symm.trans (by decide : digitOfByte 0x2D = none))

theorem IsNumeral.evalInteger_eq {text : List Byte} (h : IsNumeral b n text) :
    evalInteger b text = n := by
  rw [evalInteger, if_neg h.head_ne_minus, h.value]

theorem IsNumeral.evalInteger_minus {text : List Byte} (h : IsNumeral b n text) :
    evalInteger b (0x2D :: text) = -n := by
  rw [evalInteger, List.head?_cons, if_pos rfl, List.tail_cons, h.value]

end Infra
