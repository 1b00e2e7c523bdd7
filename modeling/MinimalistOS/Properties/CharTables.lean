import MinimalistOS.Infra.Bitmap
import MinimalistOS.Spec.CharTables
import Mathlib.Data.List.GetD

/-!
# What is typed on two tables

* `types_eq_iff` — two layouts type the same with a key that has the same entry in both
* `decode_press`, `decode_held` — a key types its character, and with the shift key held the other
  one
* `decode_typing` — the scancodes of a text type the text

The keys that change the flags must have no entries of their own.
-/

namespace MinimalistOS

open Infra

/-! ## Scancodes -/

/-- The codes of keys that are pressed. -/
theorem and_release_eq_zero {b : Byte} (h : b.toNat < 128) : b &&& 0x80 = 0 := by
  rw [show (0x80 : Byte) = 1#8 <<< 7 from rfl, Bitmap.and_one_shiftLeft_eq_zero_iff b (by decide)]
  exact Nat.testBit_lt_two_pow h

/-- The codes of keys that are released are those from 128 on. -/
theorem and_release_ne_zero {b : Byte} (h : 128 ≤ b.toNat) : b &&& 0x80 ≠ 0 := by
  intro hzero
  have hmsb := congrArg BitVec.msb hzero
  rw [BitVec.msb_and, show (0x80 : Byte).msb = true by decide, Bool.and_true] at hmsb
  have hlt := BitVec.msb_eq_false_iff_two_mul_lt.mp hmsb
  omega

theorem length_table (k : KeyFlags) : k.table.length = 58 := by
  unfold KeyFlags.table
  split <;> rfl

/-- Only the keys up to the space bar have characters. -/
theorem char_eq_zero (k : KeyFlags) {scancode : Byte} (h : 58 ≤ scancode.toNat) :
    k.char scancode = 0 := by
  have hget : k.table.getD scancode.toNat 0 = 0 :=
    List.getD_eq_default _ _ (by rw [length_table]; exact h)
  unfold KeyFlags.char
  rw [hget]
  simp

/-- The other keys leave the flags alone. -/
theorem after_of_notMem (k : KeyFlags) {scancode : Byte} (h : scancode ∉ modifierKeys) :
    k.after scancode = k := by
  simp only [modifierKeys, List.mem_cons, List.not_mem_nil, or_false, not_or] at h
  obtain ⟨h2A, h36, hAA, hB6, -, -, -, -, h3A, -⟩ := h
  rw [KeyFlags.after, if_neg (not_or.mpr ⟨h2A, h36⟩), if_neg (not_or.mpr ⟨hAA, hB6⟩), if_neg h3A]

namespace CharTables

variable {tables : CharTables}

/-! ## The caps lock -/

/-- The caps lock on numbers. -/
theorem toNat_cased (caps : Bool) (c : Byte) :
    (cased caps c).toNat = if caps ∧ 0x61 ≤ c.toNat ∧ c.toNat ≤ 0x7A then c.toNat - 32
      else if caps ∧ 0x41 ≤ c.toNat ∧ c.toNat ≤ 0x5A then c.toNat + 32 else c.toNat := by
  have hint := BitVec.toInt_eq_toNat_cond c
  have hbound := c.isLt
  have hlow : ((0x61 : Int) ≤ c.toInt ∧ c.toInt ≤ 0x7A) ↔ 0x61 ≤ c.toNat ∧ c.toNat ≤ 0x7A := by
    omega
  have hhigh : ((0x41 : Int) ≤ c.toInt ∧ c.toInt ≤ 0x5A) ↔ 0x41 ≤ c.toNat ∧ c.toNat ≤ 0x5A := by
    omega
  unfold cased
  simp only [hlow, hhigh]
  split
  · bv_omega
  · split
    · bv_omega
    · rfl

/-- The caps lock makes no two characters the same. -/
theorem cased_injective (caps : Bool) {b c : Byte} (h : cased caps b = cased caps c) : b = c := by
  have htoNat := congrArg BitVec.toNat h
  rw [toNat_cased, toNat_cased] at htoNat
  apply BitVec.eq_of_toNat_eq
  cases caps
  · exact htoNat
  · simp only [true_and] at htoNat
    split_ifs at htoNat
    all_goals omega

/-! ## Keys -/

/-- The keys that change the flags have no characters. -/
def Silent (tables : CharTables) : Prop :=
  ∀ scancode ∈ modifierKeys, tables.plain.getD scancode.toNat 0 = 0 ∧
    tables.shifted.getD scancode.toNat 0 = 0

instance (tables : CharTables) : Decidable tables.Silent :=
  List.decidableBAll _ modifierKeys

theorem char_of_silent (h : tables.Silent) (k : KeyFlags) {scancode : Byte}
    (hmem : scancode ∈ modifierKeys) : tables.char k scancode = 0 := by
  obtain ⟨hplain, hshifted⟩ := h scancode hmem
  have hget : (tables.table k).getD scancode.toNat 0 = 0 := by
    unfold table
    split
    · exact hshifted
    · exact hplain
  rw [char, hget]
  cases k.caps
  · rfl
  · rfl

/-- **Two layouts type the same** with a key that has the same entry in both. -/
theorem types_eq_iff {tables' : CharTables} (k : KeyFlags) {scancode : Byte}
    (hlt : scancode.toNat < 128) (hnot : scancode ∉ modifierKeys) :
    tables.types k scancode = tables'.types k scancode ↔
      (tables.table k).getD scancode.toNat 0 = (tables'.table k).getD scancode.toNat 0 := by
  have hdown := not_not.mpr (and_release_eq_zero hlt)
  rw [types, types, after_of_notMem k hnot, if_neg hdown, if_neg hdown]
  constructor
  · intro h
    have hchar : tables.char k scancode = tables'.char k scancode := by
      split_ifs at h with hzero hzero' hzero'
      · rw [hzero, hzero']
      · exact List.singleton_inj.mp h
    exact cased_injective k.caps hchar
  · intro h
    have hchar : tables.char k scancode = tables'.char k scancode := congrArg (cased k.caps) h
    rw [hchar]

/-- The key that is found has the character. -/
theorem key_spec {k : KeyFlags} {c scancode : Byte} (h : tables.key k c = some scancode) :
    scancode.toNat < 128 ∧ tables.char k scancode = c := by
  unfold key at h
  obtain ⟨n, hn, rfl⟩ := List.mem_map.mp (List.mem_of_find?_eq_some h)
  have hlt := List.mem_range.mp hn
  have hfound := List.find?_some h
  refine ⟨?_, eq_of_beq hfound⟩
  rw [BitVec.toNat_ofNat]
  omega

theorem decode_append (l l' : List Byte) : ∀ k : KeyFlags,
    tables.decode k (l ++ l') = tables.decode k l ++ tables.decode (l.foldl KeyFlags.after k) l' := by
  induction l with
  | nil => exact fun _ => rfl
  | cons scancode l ih =>
    intro k
    rw [List.cons_append, decode, decode, ih, List.foldl_cons, List.append_assoc]

/-- A key that changes the flags types nothing. -/
theorem types_of_silent (h : tables.Silent) (k : KeyFlags) {scancode : Byte}
    (hmem : scancode ∈ modifierKeys) : tables.types k scancode = [] := by
  rw [types, char_of_silent h _ hmem, if_pos rfl, ite_self]

/-- **A key types its character**, and its release types nothing. -/
theorem decode_press (hsilent : tables.Silent) {k : KeyFlags} {c scancode : Byte}
    (hlt : scancode.toNat < 128) (hchar : tables.char k scancode = c) (h0 : c ≠ 0) :
    tables.decode k (press scancode) = [c] ∧ (press scancode).foldl KeyFlags.after k = k := by
  have hnot : scancode ∉ modifierKeys := fun hmem =>
    h0 (hchar.symm.trans (char_of_silent hsilent k hmem))
  have hafter := after_of_notMem k hnot
  have hleft : scancode ≠ 0x2A := fun heq => hnot (by rw [heq]; decide)
  have hright : scancode ≠ 0x36 := fun heq => hnot (by rw [heq]; decide)
  have hdown := and_release_eq_zero hlt
  have hrelease : scancode ||| 0x80 = scancode + 0x80 :=
    (BitVec.add_eq_or_of_and_eq_zero _ _ hdown).symm
  have hreleased : k.after (scancode ||| 0x80) = k := by
    rw [hrelease, KeyFlags.after, if_neg (by bv_omega), if_neg (by bv_omega), if_neg (by bv_omega)]
  have hup : (scancode ||| 0x80) &&& 0x80 ≠ 0 := by
    rw [hrelease]
    exact and_release_ne_zero (by bv_omega)
  constructor
  · have hpress : tables.types k scancode = [c] := by
      rw [types, hafter, hchar, if_neg (not_not.mpr hdown), if_neg h0]
    rw [press, decode, decode, hafter, hpress, types, if_pos hup]
    rfl
  · rw [press, List.foldl_cons, List.foldl_cons, hafter, hreleased]
    rfl

/-- The shift key is held for some scancodes. -/
theorem decode_held (hsilent : tables.Silent) {caps : Bool} {l : List Byte}
    (hafter : l.foldl KeyFlags.after ⟨true, caps⟩ = ⟨true, caps⟩) :
    tables.decode ⟨false, caps⟩ ([0x2A] ++ l ++ [0xAA]) = tables.decode ⟨true, caps⟩ l ∧
      ([0x2A] ++ l ++ [0xAA]).foldl KeyFlags.after ⟨false, caps⟩ = ⟨false, caps⟩ := by
  have hdecode (k : KeyFlags) {b : Byte} (hb : b ∈ modifierKeys) : tables.decode k [b] = [] := by
    rw [decode, decode, types_of_silent hsilent k hb]
    rfl
  have hmake : [0x2A].foldl KeyFlags.after ⟨false, caps⟩ = ⟨true, caps⟩ := rfl
  have hbreak : [0xAA].foldl KeyFlags.after ⟨true, caps⟩ = ⟨false, caps⟩ := rfl
  constructor
  · rw [decode_append, decode_append, List.foldl_append, hmake, hafter, hdecode _ (by decide),
      hdecode _ (by decide), List.nil_append, List.append_nil]
  · rw [List.foldl_append, List.foldl_append, hmake, hafter, hbreak]

/-- The character has a key, with or without shift. -/
def Typeable (tables : CharTables) (caps : Bool) (c : Byte) : Prop :=
  c ≠ 0 ∧ (tables.key ⟨false, caps⟩ c ≠ none ∨ tables.key ⟨true, caps⟩ c ≠ none)

instance (tables : CharTables) (caps : Bool) (c : Byte) : Decidable (tables.Typeable caps c) :=
  inferInstanceAs (Decidable (_ ∧ _))

/-- One character: its key types it, and leaves the flags as they were. -/
theorem decode_stroke (hsilent : tables.Silent) {caps : Bool} {c : Byte}
    (h : tables.Typeable caps c) :
    tables.decode ⟨false, caps⟩ (tables.stroke caps c) = [c] ∧
      (tables.stroke caps c).foldl KeyFlags.after ⟨false, caps⟩ = ⟨false, caps⟩ := by
  obtain ⟨h0, hkeys⟩ := h
  unfold stroke
  cases hplain : tables.key ⟨false, caps⟩ c with
  | some scancode =>
    obtain ⟨hlt, hchar⟩ := key_spec hplain
    exact decode_press hsilent hlt hchar h0
  | none =>
    obtain ⟨scancode, hshifted⟩ := Option.ne_none_iff_exists'.mp
      (hkeys.resolve_left (not_not.mpr hplain))
    obtain ⟨hlt, hchar⟩ := key_spec hshifted
    obtain ⟨hdecode, hafter⟩ := decode_press hsilent hlt hchar h0
    rw [hshifted, ← hdecode]
    exact decode_held hsilent hafter

/-- **The scancodes of a text type the text.** -/
theorem decode_typing (hsilent : tables.Silent) {caps : Bool} {text : List Byte}
    (h : ∀ c ∈ text, tables.Typeable caps c) :
    tables.decode ⟨false, caps⟩ (tables.typing caps text) = text := by
  induction text with
  | nil => rfl
  | cons c text ih =>
    obtain ⟨hchar, hoff⟩ := decode_stroke hsilent (h c List.mem_cons_self)
    rw [typing, List.flatMap_cons, decode_append, hchar, hoff, ← typing,
      ih fun b hb => h b (List.mem_cons_of_mem c hb)]
    rfl

/-! ## The tables of `keyboard.c` -/

theorem silent_keyboard : keyboard.Silent := by decide

/-- `keyboard.c` compares characters as unsigned, which makes no difference. -/
theorem keyboard_char (k : KeyFlags) (scancode : Byte) :
    keyboard.char k scancode = k.char scancode := by
  unfold CharTables.char KeyFlags.char cased
  rw [show keyboard.table k = k.table from rfl]
  generalize k.table.getD scancode.toNat 0 = c
  have hint := BitVec.toInt_eq_toNat_cond c
  have hbound := c.isLt
  have hlow : (0x61 : Int) ≤ c.toInt ∧ c.toInt ≤ 0x7A ↔ 0x61 ≤ c ∧ c ≤ 0x7A := by
    rw [BitVec.le_def, BitVec.le_def]
    show _ ↔ 0x61 ≤ c.toNat ∧ c.toNat ≤ 0x7A
    omega
  have hhigh : (0x41 : Int) ≤ c.toInt ∧ c.toInt ≤ 0x5A ↔ 0x41 ≤ c ∧ c ≤ 0x5A := by
    rw [BitVec.le_def, BitVec.le_def]
    show _ ↔ 0x41 ≤ c.toNat ∧ c.toNat ≤ 0x5A
    omega
  simp only [hlow, hhigh]

/-- What a scancode types in `keyboard.c`. -/
theorem keyboard_types (k : KeyFlags) (scancode : Byte) :
    keyboard.types k scancode = k.types scancode := by
  by_cases hmod : scancode ∈ modifierKeys
  · rw [types_of_silent silent_keyboard k hmod, KeyFlags.types, if_pos (.inl hmod)]
  · simp only [types, KeyFlags.types, after_of_notMem k hmod, keyboard_char, hmod, false_or]
    by_cases hup : scancode &&& 0x80 = 0
    · rw [if_neg (not_not.mpr hup)]
    · have hhigh : 128 ≤ scancode.toNat := by
        by_contra hlow
        exact hup (and_release_eq_zero (by omega))
      rw [if_pos hup, if_pos (char_eq_zero k (by omega))]

theorem keyboard_decode (l : List Byte) : ∀ k : KeyFlags, keyboard.decode k l = k.decode l := by
  induction l with
  | nil => exact fun _ => rfl
  | cons scancode l ih =>
    intro k
    rw [decode, KeyFlags.decode, keyboard_types, ih]

end CharTables

end MinimalistOS
