import MinimalistOS.Kernel.Serial
import MinimalistOS.Properties.Log

/-!
# Unsigned numbers in the log and on the serial port

`serial_decimal` and `serial_hex` divide unsigned words and are right for all of them.
`vsnprintf` hands its unsigned values to `itoa`, which takes an `int`.

* `logsUnsigned_iff` — the log prints a value the way the serial port does exactly when its top
  bit is clear
-/

namespace MinimalistOS

open Infra

/-! ## The serial port -/

theorem serialDecimal.digitLoop_eq (value : Word) (i : Nat) (buffer : Buffer) :
    serialDecimal.digitLoop value i buffer =
      (i + (Nat.digits 10 value.toNat).length,
        buffer.put i ((Nat.digits 10 value.toNat).map digitByte)) := by
  induction value, i, buffer using serialDecimal.digitLoop.induct with
  | case1 value i buffer hpos ih =>
    have hbyte : (value % 10 + 0x30).setWidth 8 = digitByte (value.toNat % 10) := by
      have hrem : (value % 10).toNat = value.toNat % 10 := BitVec.toNat_umod
      apply BitVec.eq_of_toNat_eq
      rw [digitByte, if_pos (Nat.mod_lt _ (by decide)), BitVec.toNat_setWidth, BitVec.toNat_add,
        hrem, BitVec.toNat_ofNat]
      simp only [BitVec.reduceToNat]
      omega
    rw [serialDecimal.digitLoop, if_pos hpos, ih, BitVec.toNat_udiv, hbyte,
      Nat.digits_def' (by decide) hpos]
    simp only [BitVec.reduceToNat, List.length_cons, List.map_cons, Buffer.put_cons, Prod.mk.injEq,
      and_true]
    omega
  | case2 value i buffer hzero =>
    rw [serialDecimal.digitLoop, if_neg hzero, Nat.eq_zero_of_not_pos hzero, Nat.digits_zero]
    rfl

/-- What is sent is the first `n` bytes of the buffer, last one first. -/
theorem serialDecimal.sendLoop_eq (com : BitVec 16) {buffer : Buffer} (l : List Byte)
    (hl : ∀ j (h : j < l.length), buffer.bytes j = l[j]) (sent : List Outb) :
    serialDecimal.sendLoop com buffer l.length sent = sent ++ l.reverse.map (Outb.mk com) := by
  induction l using List.reverseRecOn generalizing sent with
  | nil => simp [serialDecimal.sendLoop]
  | append_singleton l c ih =>
    have hlast := hl l.length (by simp)
    rw [List.getElem_append_right (Nat.le_refl _)] at hlast
    have hinit : ∀ j (h : j < l.length), buffer.bytes j = l[j] := by
      intro j hj
      rw [hl j (by simp; omega), List.getElem_append_left hj]
    rw [List.length_append, List.length_singleton, serialDecimal.sendLoop, ih hinit, hlast]
    simp [serialPutchar]

/-- `serial_decimal` sends the numeral. -/
theorem serialDecimal_eq (stack : Nat → Byte) (com : BitVec 16) (value : Word) (sent : List Outb) :
    serialDecimal stack com value sent
      = sent ++ (numeral 10 value.toNat).map (Outb.mk com) := by
  unfold serialDecimal
  split
  next hzero =>
    rw [hzero]
    rfl
  next hne =>
    have hne' : value.toNat ≠ 0 := fun h => hne (BitVec.eq_of_toNat_eq h)
    rw [serialDecimal.digitLoop_eq]
    have hput : ∀ j (h : j < ((Nat.digits 10 value.toNat).map digitByte).length),
        ((Buffer.fresh stack).put 0 ((Nat.digits 10 value.toNat).map digitByte)).bytes j
          = ((Nat.digits 10 value.toNat).map digitByte)[j] := by
      intro j hj
      have := (Buffer.fresh stack).put_bytes_add 0 _ hj
      rwa [Nat.zero_add] at this
    have hsend := serialDecimal.sendLoop_eq com _ hput sent
    rw [List.length_map] at hsend
    simp only [Nat.zero_add, hsend, numeral, digits, if_neg hne', List.map_reverse]

/-- The table of `serial_hex` has the digits in upper case. -/
theorem hexChars_get (d : Fin 16) : hexChars.get d = upperByte d := by
  revert d
  decide

theorem serialHex.loop_eq (com : BitVec 16) (value : Word) (n : Nat) (sent : List Outb) :
    serialHex.loop com value n sent = sent ++
      (((List.range n).map fun i => value.toNat / 16 ^ i % 16).reverse.map upperByte).map
        (Outb.mk com) := by
  induction n generalizing sent with
  | zero => simp [serialHex.loop]
  | succ n ih =>
    rw [serialHex.loop, ih, hexChars_get]
    simp [serialPutchar, List.range_succ, toNat_nibble]

/-- `serial_hex` sends the numeral behind `0x` and as many zeros as make eight digits. -/
theorem serialHex_eq (com : BitVec 16) (value : Word) (sent : List Outb) :
    ∃ k, serialHex com value sent = sent ++
      ([0x30, 0x78] ++ List.replicate k 0x30 ++ upperNumeral 16 value.toNat).map (Outb.mk com) := by
  refine ⟨8 - (digits 16 value.toNat).length, ?_⟩
  rw [serialHex, serialHex.loop_eq, range_map_digit (b := 16) (by decide) (by decide) value.isLt]
  simp [serialPutchar, upperNumeral, upperByte]

/-! ## The log -/

/-- The conversion `%spec` prints `text` for the argument `u`: wherever it stands in a format and
whatever the buffer, the text is appended as far as it fits. -/
def Prints (spec : Byte) (u : Word) (text : List Byte) : Prop :=
  ∀ size stack place args st, st.out.i < size - 1 →
    ∃ st', vsnprintf.convert size stack place spec (.int u :: args) st = some (args, st') ∧
      st'.out = st.out.emit (size - 1) text

/-- The unsigned conversions print `u`, and print it the way the serial port is sent it. -/
def LogsUnsigned (u : Word) : Prop :=
  Prints 0x75 u (numeral 10 u.toNat) ∧
  Prints 0x78 u (numeral 16 u.toNat) ∧
  Prints 0x58 u (upperNumeral 16 u.toNat) ∧
  (∀ stack com sent, serialDecimal stack com u sent
    = sent ++ (numeral 10 u.toNat).map (Outb.mk com)) ∧
  ∀ com sent, ∃ k, serialHex com u sent = sent ++
    ([0x30, 0x78] ++ List.replicate k 0x30 ++ upperNumeral 16 u.toNat).map (Outb.mk com)

/-- A conversion prints one text. -/
theorem prints_iff {spec : Byte} (hkind : vsnprintf.argKind spec = some .int) {u : Word}
    {text : List Byte} : Prints spec u text ↔ text = vsnprintf.argText spec (.int u) := by
  constructor
  · intro h
    -- a buffer that both fit into
    obtain ⟨size, hsize⟩ : ∃ size,
        size = text.length + (vsnprintf.argText spec (.int u)).length + 2 := ⟨_, rfl⟩
    let st : FormatState := ⟨⟨.fresh fun _ => 0, 0⟩, [], []⟩
    have hi : st.out.i < size - 1 := by
      show 0 < size - 1
      omega
    obtain ⟨st₁, hrun, hout⟩ := h size (fun _ => 0) [] [] st hi
    obtain ⟨st₂, hrun', happ⟩ :=
      vsnprintf.convert_argument (a := .int u) hkind hi (fun _ => 0) [] []
    obtain rfl : st₁ = st₂ := by
      rw [hrun] at hrun'
      exact (Prod.mk.inj (Option.some.inj hrun')).2
    refine Sink.emit_inj (hout.symm.trans happ.out) ?_ ?_
    · show 0 + text.length < size - 1
      omega
    · show 0 + (vsnprintf.argText spec (.int u)).length < size - 1
      omega
  · rintro rfl size stack place args st hi
    obtain ⟨st', hrun, happ⟩ :=
      vsnprintf.convert_argument (a := .int u) hkind hi stack place args
    exact ⟨st', hrun, happ.out⟩

/-- The minus sign of `itoa` shows exactly on the values an `int` takes for negative ones. -/
theorem itoaText_ten_eq_numeral_iff {u : Word} :
    itoaText u 10 = numeral 10 u.toNat ↔ u.toNat < 2 ^ 31 := by
  by_cases hu : u.toNat < 2 ^ 31
  · have hint : u.toInt = u.toNat := BitVec.toInt_eq_toNat_of_lt (by omega)
    refine iff_of_true ?_ hu
    rw [itoaText, hint, if_neg (by omega), Int.natAbs_natCast]
    rfl
  · have hneg : u.toInt < 0 := by
      rw [BitVec.toInt_eq_toNat_cond, if_neg (by omega)]
      have := u.isLt
      omega
    refine iff_of_false (fun h => ?_) hu
    have hhead := (isNumeral_numeral (b := 10) (by decide) (by decide) u.toNat).head_ne_minus
    rw [← h, itoaText, if_pos ⟨hneg, rfl⟩] at hhead
    exact hhead rfl

/-- `toUpper` turns the lower-case digits of a base up to 16 into the upper-case ones. -/
theorem map_toUpper_numeral (n : Nat) :
    (numeral 16 n).map vsnprintf.toUpper = upperNumeral 16 n := by
  have hall : ∀ d : Fin 16, vsnprintf.toUpper (digitByte d) = upperByte d := by decide
  rw [numeral, upperNumeral, List.map_map]
  apply List.map_congr_left
  intro d hd
  exact hall ⟨d, lt_of_mem_digits (by decide) (List.mem_reverse.mp hd)⟩

theorem itoaText_sixteen {u : Word} (hu : u.toNat < 2 ^ 31) :
    itoaText u 16 = numeral 16 u.toNat := by
  have hint : u.toInt = u.toNat := BitVec.toInt_eq_toNat_of_lt (by omega)
  rw [itoaText, hint, if_neg (by omega), Int.natAbs_natCast]
  rfl

/-- **The log prints a value, and as the serial port does, exactly when its top bit is clear.** -/
theorem logsUnsigned_iff (u : Word) : LogsUnsigned u ↔ u.toNat < 2 ^ 31 := by
  constructor
  · rintro ⟨hu, -⟩
    exact itoaText_ten_eq_numeral_iff.mp ((prints_iff rfl).mp hu).symm
  · intro hu
    refine ⟨(prints_iff rfl).mpr ?_, (prints_iff rfl).mpr ?_, (prints_iff rfl).mpr ?_,
      fun stack com sent => serialDecimal_eq stack com u sent,
      fun com sent => serialHex_eq com u sent⟩
    · exact (itoaText_ten_eq_numeral_iff.mpr hu).symm
    · exact (itoaText_sixteen hu).symm
    · rw [← map_toUpper_numeral, ← itoaText_sixteen hu]
      rfl

/-- `%u` of the greatest word prints `-1`, where the serial port is sent ten digits. -/
theorem log_unsigned_minus_one :
    Prints 0x75 0xFFFFFFFF [0x2D, 0x31] ∧ ¬ LogsUnsigned 0xFFFFFFFF := by
  have hone : itoaText 0xFFFFFFFF 10 = [0x2D, 0x31] := by
    have hdigits : digits 10 1 = [1] := by rw [digits_eq_cons (by decide)]; rfl
    show [0x2D] ++ numeral 10 1 = _
    rw [numeral, hdigits]
    rfl
  refine ⟨(prints_iff rfl).mpr hone.symm, fun h => ?_⟩
  exact absurd (itoaText_ten_eq_numeral_iff.mp ((prints_iff rfl).mp h.1).symm) (by decide)

end MinimalistOS
