import MinimalistOS.Kernel.Itoa

/-!
# `itoa` is exact

`itoa_exact`: in base 10 every `int`, and in the other bases every one that is not negative, is
written as the numeral of its size behind the sign it needs, reads back as itself, and is stored
where the text and its terminator are and nowhere else.
-/

namespace MinimalistOS

open Infra

/-- The text of an `int` in base 10 and its terminator fit in twelve bytes. -/
theorem length_itoaText_ten (value : Word) : (itoaText value 10).length ≤ 11 := by
  have hlo := BitVec.le_toInt value
  have hhi := BitVec.toInt_lt (x := value)
  have hnum : (numeral (10 : Word).toNat value.toInt.natAbs).length ≤ 10 := by
    rw [length_numeral]
    exact length_digits_le (by decide) (by decide) (by simp only [BitVec.reduceToNat]; omega)
  rw [itoaText, List.length_append]
  split <;> simp only [List.length_singleton, List.length_nil] <;> omega

/-- In base 16 nothing has more than eight digits, and there is no sign. -/
theorem length_itoaText_sixteen (value : Word) : (itoaText value 16).length ≤ 8 := by
  have hlo := BitVec.le_toInt value
  have hhi := BitVec.toInt_lt (x := value)
  rw [itoaText, if_neg (by simp), List.nil_append, length_numeral]
  exact length_digits_le (by decide) (by decide) (by simp only [BitVec.reduceToNat]; omega)

/-- **`itoa` writes the value it is given.** -/
theorem itoa_exact {value base : Word} (h2 : 2 ≤ base.toInt) (h36 : base.toInt ≤ 36)
    (hvalue : base = 10 ∨ 0 ≤ value.toInt) (bytes : Nat → Byte) :
    ∃ sign digits, (itoa value (.fresh bytes) base).Holds (sign ++ digits) ∧
      sign = (if value.toInt < 0 then [0x2D] else []) ∧
      IsNumeral base.toNat value.toInt.natAbs digits ∧
      evalInteger base.toNat (sign ++ digits) = value.toInt ∧
      (∀ j ∈ (itoa value (.fresh bytes) base).written, j ≤ (sign ++ digits).length) ∧
      (base = 10 → (sign ++ digits).length + 1 ≤ 12) := by
  have htwo := toNat_of_two_le h2
  have hminus : (value.toInt < 0 ∧ base = 10) = (value.toInt < 0) :=
    propext ⟨And.left, fun h => ⟨h, hvalue.resolve_right (by omega)⟩⟩
  have hnumeral := isNumeral_numeral (b := base.toNat) (by omega) (by omega) value.toInt.natAbs
  have htext : itoaText value base = (if value.toInt < 0 then [0x2D] else []) ++
      numeral base.toNat value.toInt.natAbs := by
    simp only [itoaText, hminus]
  obtain ⟨hholds, hwritten⟩ := itoa_spec value h2 h36 (.fresh bytes)
  rw [htext] at hholds hwritten
  refine ⟨_, _, hholds, rfl, hnumeral, ?_, fun j hj => ?_, fun hten => ?_⟩
  · split
    · rw [List.singleton_append, hnumeral.evalInteger_minus]
      omega
    · rw [List.nil_append, hnumeral.evalInteger_eq]
      omega
  · exact (hwritten j hj).resolve_right List.not_mem_nil
  · subst hten
    have hlen := length_itoaText_ten value
    rw [htext] at hlen
    exact Nat.succ_le_succ hlen

/-- The most negative `int`, whose size is not an `int`. -/
theorem itoa_exact_intMin :
    ∃ sign digits, (itoa 0x80000000 (.fresh fun _ => 0xFF) 10).Holds (sign ++ digits) ∧
      sign = [0x2D] ∧ IsNumeral 10 2147483648 digits ∧ (sign ++ digits).length + 1 ≤ 12 := by
  obtain ⟨sign, digits, hholds, hsign, hnumeral, -, -, hlen⟩ :=
    @itoa_exact 0x80000000 10 (by decide) (by decide) (.inl rfl) fun _ => 0xFF
  exact ⟨sign, digits, hholds, hsign.trans (by decide), hnumeral, hlen rfl⟩

end MinimalistOS
