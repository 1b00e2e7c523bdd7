import MinimalistOS.Infra.Buffer
import MinimalistOS.Infra.Numeral

/-!
# `kernel/string.c`: `itoa`

The digits come out low end first, from division that rounds towards zero, so a negative value
leaves negative remainders and each of them is negated by itself; the value never is. Two crossing
pointers then reverse what was written.

`itoa_eq_put` is what a call leaves in the buffer: a text stored from the start on, and its
terminator.
-/

namespace MinimalistOS

open Infra

/-! ## Signed division -/

theorem toNat_of_two_le {base : Word} (h : 2 ≤ base.toInt) : base.toInt = base.toNat := by
  rw [BitVec.toInt_eq_toNat_cond] at h ⊢
  split at h
  next hlt => rw [if_pos hlt]
  · omega

/-- Dividing by a base halves a value at least, the most negative one too. -/
theorem natAbs_sdiv {base : Word} (h : 2 ≤ base.toInt) (value : Word) :
    (value.sdiv base).toInt.natAbs = value.toInt.natAbs / base.toNat := by
  have hone : base ≠ -1#32 := by
    rintro rfl
    exact absurd h (by decide)
  rw [BitVec.toInt_sdiv_of_ne_or_ne value base (.inr hone), Int.natAbs_tdiv, toNat_of_two_le h,
    Int.natAbs_natCast]
  rfl

/-- `if (rem < 0) rem = -rem`, for any `rem`. -/
theorem toNat_abs (rem : Word) :
    (if rem.toInt < 0 then -rem else rem).toNat = rem.toInt.natAbs := by
  have hlt := rem.isLt
  rw [BitVec.toInt_eq_toNat_cond]
  split
  · rw [if_neg (by omega), Int.natAbs_natCast]
  · rw [if_pos (by omega), BitVec.toNat_neg]
    omega

theorem natAbs_srem {base : Word} (h : 2 ≤ base.toInt) (value : Word) :
    (value.srem base).toInt.natAbs = value.toInt.natAbs % base.toNat := by
  rw [BitVec.toInt_srem, Int.natAbs_tmod, toNat_of_two_le h, Int.natAbs_natCast]

/-- The word is zero when its value is. -/
theorem natAbs_toInt_eq_zero {value : Word} : value.toInt.natAbs = 0 ↔ value = 0 := by
  rw [Int.natAbs_eq_zero, ← BitVec.toInt_inj, show (0 : Word).toInt = 0 by decide]

/-! ## The function -/

/-- The do-while loop: the new `ptr` and what `str` points at. -/
def itoa.digitLoop (base : Word) (hbase : 2 ≤ base.toInt) (tmp_value : Word) (ptr : Nat)
    (str : Buffer) : Nat × Buffer :=
  let rem := tmp_value.srem base
  let rem := if rem.toInt < 0 then -rem else rem
  let str := str.set ptr
    (if rem.toInt < 10 then (rem + 0x30).setWidth 8 else (rem - 10 + 0x61).setWidth 8)
  if tmp_value.sdiv base ≠ 0 then
    itoa.digitLoop base hbase (tmp_value.sdiv base) (ptr + 1) str
  else (ptr + 1, str)
termination_by tmp_value.toInt.natAbs
decreasing_by
  rename_i hne
  have hdiv := natAbs_sdiv hbase tmp_value
  have hpos : (tmp_value.sdiv base).toInt.natAbs ≠ 0 := fun h => hne (natAbs_toInt_eq_zero.mp h)
  have htwo := toNat_of_two_le hbase
  rw [hdiv] at hpos ⊢
  refine Nat.div_lt_self (Nat.pos_of_ne_zero fun hzero => hpos ?_) (by omega)
  rw [hzero, Nat.zero_div]

/-- The loop `while (ptr1 < ptr)`. -/
def itoa.reverseLoop (ptr1 ptr : Nat) (str : Buffer) : Buffer :=
  if ptr1 < ptr then
    let tmp_char := str.bytes ptr
    itoa.reverseLoop (ptr1 + 1) (ptr - 1) ((str.set ptr (str.bytes ptr1)).set ptr1 tmp_char)
  else str
termination_by ptr - ptr1

/-- `itoa(value, str, base)`; what `str` points at afterwards. -/
def itoa (value : Word) (str : Buffer) (base : Word) : Buffer :=
  if h : base.toInt < 2 ∨ 36 < base.toInt then str.set 0 0
  else
    let minus := value.toInt < 0 ∧ base = 10
    let str := if minus then str.set 0 0x2D else str
    let ptr1 := if minus then 1 else 0
    let (ptr, str) := itoa.digitLoop base (by omega) value ptr1 str
    itoa.reverseLoop ptr1 (ptr - 1) (str.set ptr 0)

/-! ## The digits -/

/-- The character the loop makes of a remainder. -/
theorem digitByte_eq {rem : Word} (h : rem.toNat < 36) :
    (if rem.toInt < 10 then (rem + 0x30).setWidth 8 else (rem - 10 + 0x61).setWidth 8)
      = digitByte rem.toNat := by
  have hall : ∀ d : Fin 36, (if (BitVec.ofNat 32 d).toInt < 10
      then (BitVec.ofNat 32 d + 0x30).setWidth 8
      else (BitVec.ofNat 32 d - 10 + 0x61).setWidth 8) = digitByte d.1 := by decide
  simpa using hall ⟨rem.toNat, h⟩

/-- One round stores the lowest digit. -/
theorem itoa.digitLoop_step {base : Word} (hbase : 2 ≤ base.toInt) (h36 : base.toInt ≤ 36)
    (value : Word) (ptr : Nat) (str : Buffer) :
    itoa.digitLoop base hbase value ptr str =
      if value.sdiv base ≠ 0 then
        itoa.digitLoop base hbase (value.sdiv base) (ptr + 1)
          (str.set ptr (digitByte (value.toInt.natAbs % base.toNat)))
      else (ptr + 1, str.set ptr (digitByte (value.toInt.natAbs % base.toNat))) := by
  have htwo := toNat_of_two_le hbase
  have hrem := (toNat_abs (value.srem base)).trans (natAbs_srem hbase value)
  have hlt := Nat.mod_lt value.toInt.natAbs (show 0 < base.toNat by omega)
  rw [itoa.digitLoop, digitByte_eq (by omega), hrem]

/-- The loop stores the digits, low end first. -/
theorem itoa.digitLoop_eq {base : Word} (hbase : 2 ≤ base.toInt) (h36 : base.toInt ≤ 36)
    (value : Word) (ptr : Nat) (str : Buffer) :
    itoa.digitLoop base hbase value ptr str =
      (ptr + (Infra.digits base.toNat value.toInt.natAbs).length,
        str.put ptr ((Infra.digits base.toNat value.toInt.natAbs).map digitByte)) := by
  have htwo := toNat_of_two_le hbase
  induction hn : value.toInt.natAbs using Nat.strong_induction_on generalizing value ptr str with
  | _ n ih =>
    have hdiv := natAbs_sdiv hbase value
    rw [hn] at hdiv
    rw [itoa.digitLoop_step hbase h36, hn, digits_eq_cons (by omega) n]
    by_cases hzero : n / base.toNat = 0
    · rw [hzero] at hdiv
      rw [if_pos hzero, if_neg (not_not.mpr (natAbs_toInt_eq_zero.mp hdiv))]
      rfl
    · have hne : value.sdiv base ≠ 0 := by
        intro h
        rw [natAbs_toInt_eq_zero.mpr h] at hdiv
        exact hzero hdiv.symm
      have hlt : n / base.toNat < n :=
        Nat.div_lt_self (Nat.pos_of_ne_zero fun h => hzero (by rw [h, Nat.zero_div])) (by omega)
      rw [if_neg hzero, if_pos hne, ih _ hlt _ _ _ hdiv, List.map_cons, Buffer.put_cons,
        List.length_cons, Nat.add_right_comm, Nat.add_assoc]

/-! ## The reversal -/

/-- Between the two pointers the bytes are mirrored, and nothing else moves. -/
theorem itoa.reverseLoop_bytes (ptr1 ptr : Nat) (str : Buffer) (j : Nat) :
    (itoa.reverseLoop ptr1 ptr str).bytes j =
      if ptr1 ≤ j ∧ j ≤ ptr then str.bytes (ptr1 + ptr - j) else str.bytes j := by
  induction ptr1, ptr, str using itoa.reverseLoop.induct with
  | case1 ptr1 ptr str hlt tmp_char ih =>
    have hstr : ∀ k, k ≠ ptr1 → k ≠ ptr →
        ((str.set ptr (str.bytes ptr1)).set ptr1 tmp_char).bytes k = str.bytes k := by
      intro k h1 h2
      rw [Buffer.set_bytes_of_ne _ _ h1, Buffer.set_bytes_of_ne _ _ h2]
    rw [itoa.reverseLoop, if_pos hlt, ih]
    by_cases h1 : j = ptr1
    · subst h1
      rw [if_neg (by omega), if_pos (by omega), Buffer.set_bytes_self, Nat.add_sub_cancel_left]
    by_cases h2 : j = ptr
    · subst h2
      rw [if_neg (by omega), if_pos (by omega), Buffer.set_bytes_of_ne _ _ h1,
        Buffer.set_bytes_self, Nat.add_sub_cancel]
    by_cases hin : ptr1 ≤ j ∧ j ≤ ptr
    · rw [if_pos (by omega), if_pos hin, hstr _ (by omega) (by omega)]
      congr 1
      omega
    · rw [if_neg (by omega), if_neg hin, hstr j h1 h2]
  | case2 ptr1 ptr str hge =>
    rw [itoa.reverseLoop, if_neg hge]
    split
    next h =>
      congr 1
      omega
    · rfl

theorem itoa.mem_written_reverseLoop {ptr1 ptr : Nat} {str : Buffer} {j : Nat}
    (h : j ∈ (itoa.reverseLoop ptr1 ptr str).written) :
    (ptr1 ≤ j ∧ j ≤ ptr) ∨ j ∈ str.written := by
  induction ptr1, ptr, str using itoa.reverseLoop.induct with
  | case1 ptr1 ptr str hlt tmp_char ih =>
    rw [itoa.reverseLoop, if_pos hlt] at h
    rcases ih h with hin | hin
    · exact .inl (by omega)
    · rw [Buffer.mem_written_set, Buffer.mem_written_set] at hin
      rcases hin with rfl | rfl | hin
      · exact .inl (by omega)
      · exact .inl (by omega)
      · exact .inr hin
  | case2 ptr1 ptr str hge =>
    rw [itoa.reverseLoop, if_neg hge] at h
    exact .inr h

/-! ## The text -/

/-- What `itoa` writes for a value in a base, without the terminator. -/
def itoaText (value : Word) (base : Word) : List Byte :=
  (if value.toInt < 0 ∧ base = 10 then [0x2D] else []) ++ numeral base.toNat value.toInt.natAbs

theorem itoaText_ne_zero (value : Word) {base : Word} (h2 : 2 ≤ base.toInt)
    (h36 : base.toInt ≤ 36) : ∀ c ∈ itoaText value base, c ≠ 0 := by
  have htwo := toNat_of_two_le h2
  intro c hc
  rcases List.mem_append.mp hc with hsign | hnum
  · split at hsign
    · rw [List.mem_singleton.mp hsign]
      decide
    · exact absurd hsign List.not_mem_nil
  · exact ne_of_mem_numeral (by omega) (by omega) hnum (by decide)

/-- A sign, digits low end first and a terminator become a string once the digits are reversed. -/
theorem itoa.reverseLoop_holds (str : Buffer) (sign l : List Byte) (hl : l ≠ [])
    (hne : ∀ c ∈ sign ++ l.reverse, c ≠ 0) :
    (itoa.reverseLoop sign.length (sign.length + l.length - 1)
      (str.put 0 (sign ++ l ++ [0]))).Holds (sign ++ l.reverse) where
  nul_free := hne
  bytes i hi := by
    have hpos := List.length_pos_iff.mpr hl
    have hput : ∀ k (hk : k < (sign ++ l ++ [0]).length),
        (str.put 0 (sign ++ l ++ [0])).bytes k = (sign ++ l ++ [0])[k] := by
      intro k hk
      have := str.put_bytes_add 0 (sign ++ l ++ [0]) hk
      rwa [Nat.zero_add] at this
    simp only [List.length_append, List.length_reverse] at hi
    rw [itoa.reverseLoop_bytes]
    by_cases hsign : i < sign.length
    · have hi' : i < (sign ++ l).length := by simp only [List.length_append]; omega
      rw [if_neg (by omega), hput i (by simp; omega), List.getElem_append_left hi',
        List.getElem_append_left hsign, List.getElem_append_left hsign]
    · obtain ⟨k, rfl⟩ : ∃ k, i = sign.length + k := ⟨i - sign.length, by omega⟩
      have hmirror : sign.length + (sign.length + l.length - 1) - (sign.length + k)
          = sign.length + (l.length - 1 - k) := by omega
      have hk : sign.length + (l.length - 1 - k) < (sign ++ l).length := by
        simp only [List.length_append]
        omega
      rw [if_pos (by omega), hmirror, hput _ (by simp; omega), List.getElem_append_left hk,
        List.getElem_append_right (Nat.le_add_right _ _),
        List.getElem_append_right (Nat.le_add_right _ _), List.getElem_reverse]
      simp only [Nat.add_sub_cancel_left]
  terminated := by
    have hpos := List.length_pos_iff.mpr hl
    have hput := str.put_bytes_add 0 (sign ++ l ++ [0]) (k := (sign ++ l).length) (by simp)
    rw [Nat.zero_add, List.getElem_append_right (Nat.le_refl _)] at hput
    simp only [List.length_append] at hput
    rw [itoa.reverseLoop_bytes, List.length_append, List.length_reverse, if_neg (by omega), hput]
    simp

/-- `itoa` as stores of lists. -/
theorem itoa_eq {value base : Word} (h2 : 2 ≤ base.toInt) (h36 : base.toInt ≤ 36)
    (str : Buffer) {sign l : List Byte}
    (hsign : sign = if value.toInt < 0 ∧ base = 10 then [0x2D] else [])
    (hl : l = (Infra.digits base.toNat value.toInt.natAbs).map digitByte) :
    itoa value str base = itoa.reverseLoop sign.length (sign.length + l.length - 1)
      (str.put 0 (sign ++ l ++ [0])) := by
  have hlen : (if value.toInt < 0 ∧ base = 10 then 1 else 0) = sign.length := by
    rw [hsign]
    split <;> rfl
  have hput : (if value.toInt < 0 ∧ base = 10 then str.set 0 0x2D else str) = str.put 0 sign := by
    rw [hsign]
    split <;> rfl
  rw [itoa, dif_neg (by omega)]
  simp only [hlen, hput, itoa.digitLoop_eq _ h36, ← hl]
  rw [Buffer.put_append, Buffer.put_append, Buffer.put_cons, Buffer.put_nil, Nat.zero_add,
    Nat.zero_add, List.length_append, hl, List.length_map]

/-- What a call leaves: the text and its terminator from the start on, and no store anywhere
else. -/
theorem itoa_spec (value : Word) {base : Word} (h2 : 2 ≤ base.toInt) (h36 : base.toInt ≤ 36)
    (str : Buffer) :
    (itoa value str base).Holds (itoaText value base) ∧
      ∀ j ∈ (itoa value str base).written, j ≤ (itoaText value base).length ∨ j ∈ str.written := by
  obtain ⟨sign, hsign⟩ :
      ∃ sign : List Byte, sign = if value.toInt < 0 ∧ base = 10 then [0x2D] else [] := ⟨_, rfl⟩
  obtain ⟨l, hl⟩ : ∃ l, l = (Infra.digits base.toNat value.toInt.natAbs).map digitByte := ⟨_, rfl⟩
  have htext : itoaText value base = sign ++ l.reverse := by
    rw [itoaText, numeral, hsign, hl, List.map_reverse]
  have hne : l ≠ [] := by
    rw [hl]
    exact fun h => digits_ne_nil _ _ (List.map_eq_nil_iff.mp h)
  have hfree := itoaText_ne_zero value h2 h36
  rw [htext] at hfree ⊢
  rw [itoa_eq h2 h36 str hsign hl]
  refine ⟨itoa.reverseLoop_holds str sign l hne hfree, fun j hj => ?_⟩
  rw [List.length_append, List.length_reverse]
  rcases itoa.mem_written_reverseLoop hj with hj | hj
  · exact .inl (by omega)
  · rw [Buffer.mem_written_put] at hj
    rcases hj with hj | hj
    · simp only [List.length_append, List.length_singleton] at hj
      exact .inl (by omega)
    · exact .inr hj

end MinimalistOS
