import MinimalistOS.Properties.CharTables
import MinimalistOS.Properties.KeyboardLights
import MinimalistOS.Spec.Layouts

/-!
# What the layouts type

* `getchar_types` — on a layout without a table for AltGr, a call types what the scancode types
* `typed_eq_decode` — a run types what its scancodes type
* `us_layout_types_ascii` — on the US layout every ASCII text can be typed, and nothing else
-/

namespace MinimalistOS

open Infra

namespace KeyboardIntl

/-- The flags that decide what a key types. -/
def flags (s : KeyboardIntl) : KeyFlags := ⟨s.shiftPressed, decide (s.capsLock ≠ 0)⟩

/-- The character a call returns, if it is one. -/
def typed (c : Byte) : List Byte := if c = 0 then [] else [c]

/-! ## One call -/

theorem flags_ite {p : Prop} [Decidable p] {s s' : KeyboardIntl} {k : KeyFlags}
    (hs : p → s.flags = k) (hs' : ¬ p → s'.flags = k) : (if p then s else s').flags = k := by
  split
  · next h => exact hs h
  · next h => exact hs' h

theorem layout_ite {p : Prop} [Decidable p] {s s' : KeyboardIntl} {layout : Fin 3}
    (hs : s.currentLayout = layout) (hs' : s'.currentLayout = layout) :
    (if p then s else s').currentLayout = layout := by
  split
  · exact hs
  · exact hs'

theorem special_layout (s : KeyboardIntl) (scancode extendedScancode : Byte) :
    (handleSpecialKeys s scancode extendedScancode).currentLayout = s.currentLayout := by
  unfold handleSpecialKeys handleExtendedKeys
  iterate 6 refine layout_ite rfl ?_
  refine layout_ite (layout_ite rfl (layout_ite rfl rfl)) ?_
  iterate 3 refine layout_ite rfl ?_
  rfl

theorem decide_lnot (value : Byte) : decide (lnot value ≠ 0) = !decide (value ≠ 0) := by
  unfold lnot
  by_cases h : value = 0
  · rw [if_pos h, h]
    rfl
  · rw [if_neg h, decide_eq_true h]
    rfl

theorem extended_flags (s : KeyboardIntl) (extendedScancode : Byte) :
    (handleExtendedKeys s extendedScancode).flags = s.flags := by
  unfold handleExtendedKeys
  iterate 2 refine flags_ite (fun _ => rfl) fun _ => ?_
  rfl

theorem special_flags (s : KeyboardIntl) (scancode extendedScancode : Byte) :
    (handleSpecialKeys s scancode extendedScancode).flags = s.flags.after scancode := by
  unfold handleSpecialKeys
  refine flags_ite (fun h => ?_) fun hshift => ?_
  · rcases h with rfl | rfl
    · rfl
    · rfl
  refine flags_ite (fun h => ?_) fun hrelease => ?_
  · rcases h with rfl | rfl
    · rfl
    · rfl
  -- the keys that change neither flag
  have hsame : scancode ≠ 0x3A → s.flags.after scancode = s.flags := by
    intro hcaps
    rw [KeyFlags.after, if_neg hshift, if_neg hrelease, if_neg hcaps]
  iterate 4 refine flags_ite (fun h => (hsame (by rw [h]; decide)).symm) fun _ => ?_
  refine flags_ite (fun h => ?_) fun _ => ?_
  · rw [extended_flags, hsame (by rw [h]; decide)]
  refine flags_ite (fun h => ?_) fun hcaps => ?_
  · rw [h]
    exact congrArg (KeyFlags.mk s.shiftPressed) (decide_lnot s.capsLock)
  iterate 2 refine flags_ite (fun h => (hsame (by rw [h]; decide)).symm) fun _ => ?_
  exact (hsame hcaps).symm

/-- The driver reads the two tables, whatever AltGr is. -/
def Uses (tables : CharTables) (layout : Fin 3) : Prop :=
  (keyboardLayouts.get layout).scancodeToAscii = tables.plain ∧
    (keyboardLayouts.get layout).scancodeToAsciiShift = tables.shifted ∧
    (keyboardLayouts.get layout).scancodeToAsciiAltgr = none

theorem uses_us : Uses .usLayout 0 := ⟨rfl, rfl, rfl⟩

theorem uses_french : Uses .frenchLayout (Fin.last 2) := ⟨rfl, rfl, rfl⟩

theorem characterMap_eq {tables : CharTables} {s : KeyboardIntl} (h : Uses tables s.currentLayout) :
    characterMap s = tables.table s.flags := by
  obtain ⟨hplain, hshifted, haltgr⟩ := h
  unfold characterMap flags
  dsimp only
  rw [haltgr, hplain, hshifted]
  cases s.altgrPressed
  · rfl
  · rfl

theorem getchar_snd {tables : CharTables} {s : KeyboardIntl} (h : Uses tables s.currentLayout)
    (scancode extendedScancode : Byte) :
    (keyboardIntlGetchar s scancode extendedScancode).2
      = if scancode &&& 0x80 ≠ 0 then 0 else tables.char (s.flags.after scancode) scancode := by
  have hmap : characterMap (handleSpecialKeys s scancode extendedScancode)
      = tables.table (s.flags.after scancode) := by
    rw [@characterMap_eq tables _ (by rw [special_layout]; exact h), special_flags]
  have hcaps : (handleSpecialKeys s scancode extendedScancode).capsLock ≠ 0 ↔
      (s.flags.after scancode).caps = true := by
    rw [← special_flags s scancode extendedScancode]
    exact decide_eq_true_iff.symm
  unfold keyboardIntlGetchar CharTables.char CharTables.cased
  simp only [hmap, hcaps]
  split_ifs
  all_goals rfl

/-- **What a call types.** -/
theorem getchar_types {tables : CharTables} {s : KeyboardIntl} (h : Uses tables s.currentLayout)
    (scancode extendedScancode : Byte) :
    typed (keyboardIntlGetchar s scancode extendedScancode).2 = tables.types s.flags scancode := by
  rw [getchar_snd h, typed, CharTables.types]
  by_cases hup : scancode &&& 0x80 ≠ 0
  · rw [if_pos hup, if_pos hup, if_pos rfl]
  · rw [if_neg hup, if_neg hup]

/-- The calls of `keyboard_intl_getchar`, each with what it reads from the data port. -/
def getchar (s : KeyboardIntl) (read : Byte × Byte) : KeyboardIntl × Byte :=
  keyboardIntlGetchar s read.1 read.2

theorem getchar_layout (s : KeyboardIntl) (read : Byte × Byte) :
    (s.getchar read).1.currentLayout = s.currentLayout := by
  rw [getchar, getchar_fst, special_layout]

theorem getchar_flags (s : KeyboardIntl) (read : Byte × Byte) :
    (s.getchar read).1.flags = s.flags.after read.1 := by
  rw [getchar, getchar_fst, special_flags]

/-- **What a run types** is what its scancodes type. -/
theorem typed_eq_decode {tables : CharTables} (reads : List (Byte × Byte)) :
    ∀ {s : KeyboardIntl}, Uses tables s.currentLayout →
      observe getchar (fun _ => typed) s reads = tables.decode s.flags (reads.map Prod.fst) := by
  induction reads with
  | nil => exact fun _ => rfl
  | cons read reads ih =>
    intro s h
    have hnext : Uses tables (s.getchar read).1.currentLayout := by
      rw [getchar_layout]
      exact h
    rw [observe_cons, ih hnext, getchar_flags, List.map_cons, CharTables.decode]
    exact congrArg (· ++ _) (getchar_types h read.1 read.2)

end KeyboardIntl

/-! ## The US layout -/

namespace CharTables

variable {tables : CharTables}

theorem silent_us : usLayout.Silent := by decide

theorem getD_zero (l : List Byte) (n : Nat) : l.getD n 0 = 0 ∨ l.getD n 0 ∈ l := by
  by_cases hn : n < l.length
  · rw [List.getD_eq_getElem l 0 hn]
    exact .inr (List.getElem_mem hn)
  · exact .inl (List.getD_eq_default l 0 (by omega))

theorem toNat_lt_of_asciiKey {c : Byte} (h : AsciiKey c) : c.toNat < 128 := by
  unfold AsciiKey at h
  omega

theorem asciiKey_cased (caps : Bool) {c : Byte} (h : AsciiKey c) : AsciiKey (cased caps c) := by
  unfold AsciiKey at h ⊢
  rw [toNat_cased]
  split
  · omega
  · split
    · omega
    · exact h

/-- The caps lock changes the case back. -/
theorem cased_cased (caps : Bool) {c : Byte} (h : AsciiKey c) : cased caps (cased caps c) = c := by
  have hlt := toNat_lt_of_asciiKey h
  have hpair := toNat_cased caps c
  apply BitVec.eq_of_toNat_eq
  rw [toNat_cased]
  cases caps
  · exact hpair
  · simp only [true_and] at hpair ⊢
    split_ifs at hpair ⊢
    all_goals omega

/-- Every key of the US layout has an ASCII character, or none. -/
theorem char_us (k : KeyFlags) (scancode : Byte) :
    usLayout.char k scancode = 0 ∨ AsciiKey (usLayout.char k scancode) := by
  have htable : ∀ c ∈ usLayout.table k, c = 0 ∨ AsciiKey c := by
    have hall : ∀ k, ((usLayout.table k).all fun c => decide (c = 0 ∨ AsciiKey c)) = true := fun
      | ⟨true, true⟩ => by decide
      | ⟨true, false⟩ => by decide
      | ⟨false, true⟩ => by decide
      | ⟨false, false⟩ => by decide
    simpa using List.all_eq_true.mp (hall k)
  have hzero : cased k.caps 0 = 0 := by
    cases k.caps
    · rfl
    · rfl
  unfold char
  rcases getD_zero (usLayout.table k) scancode.toNat with h | hmem
  · rw [h]
    exact .inl hzero
  · rcases htable _ hmem with h | hkey
    · rw [h]
      exact .inl hzero
    · exact .inr (asciiKey_cased k.caps hkey)

/-- A character of a table has a key. -/
theorem key_ne_none {k : KeyFlags} {c : Byte} (hlength : (tables.table k).length ≤ 128)
    (hc : c ∈ (tables.table k).map (cased k.caps)) : tables.key k c ≠ none := by
  obtain ⟨b, hb, rfl⟩ := List.mem_map.mp hc
  obtain ⟨n, hn, rfl⟩ := List.getElem_of_mem hb
  intro hnone
  have hno := List.find?_eq_none.mp hnone (BitVec.ofNat 8 n)
    (List.mem_map.mpr ⟨n, List.mem_range.mpr (by omega), rfl⟩)
  have hn8 : (BitVec.ofNat 8 n).toNat = n := by rw [BitVec.toNat_ofNat]; omega
  rw [char, hn8, List.getD_eq_getElem _ 0 hn] at hno
  exact hno (beq_self_eq_true _)

/-- Every ASCII character has a key of the US layout. -/
theorem typeable_us {caps : Bool} {c : Byte} (hc : AsciiKey c) : usLayout.Typeable caps c := by
  have hkeys : ∀ n < 128, AsciiKey (BitVec.ofNat 8 n) →
      n ∈ (usQwerty ++ usQwertyShift).map BitVec.toNat := by decide +kernel
  have hmem {b : Byte} (hb : AsciiKey b) : b ∈ usQwerty ∨ b ∈ usQwertyShift := by
    obtain ⟨b', hb', heq⟩ := List.mem_map.mp
      (hkeys b.toNat (toNat_lt_of_asciiKey hb) (by simpa using hb))
    rw [← BitVec.eq_of_toNat_eq heq]
    exact List.mem_append.mp hb'
  have hpair := asciiKey_cased caps hc
  refine ⟨fun h => ?_, (hmem hpair).imp (fun h => ?_) fun h => ?_⟩
  · subst h
    exact absurd hc (by decide)
  · exact key_ne_none (k := ⟨false, caps⟩) (show usQwerty.length ≤ 128 by decide)
      (List.mem_map.mpr ⟨_, h, cased_cased caps hc⟩)
  · exact key_ne_none (k := ⟨true, caps⟩) (show usQwertyShift.length ≤ 128 by decide)
      (List.mem_map.mpr ⟨_, h, cased_cased caps hc⟩)

/-- What the scancodes of the US layout type is ASCII. -/
theorem decode_us (scancodes : List Byte) : ∀ k, ∀ c ∈ usLayout.decode k scancodes, AsciiKey c := by
  induction scancodes with
  | nil =>
    intro k c hc
    cases hc
  | cons scancode scancodes ih =>
    intro k c hc
    rw [decode] at hc
    rcases List.mem_append.mp hc with htyped | hrest
    · unfold types at htyped
      split_ifs at htyped with hup hzero
      · cases htyped
      · cases htyped
      · rw [List.mem_singleton.mp htyped]
        exact (char_us _ scancode).resolve_left hzero
    · exact ih _ c hrest

end CharTables

open KeyboardIntl CharTables in
/--
**On the US layout every ASCII text can be typed, and nothing else.**

Whatever keys come and whatever follows a prefix, a call of `keyboard_intl_getchar` returns no
character but those of `AsciiKey`. A text of them is typed with the keys that `typing` finds for it
in the tables, after the shift key is released: the calls return the text, with the caps lock on as
well as off.
-/
theorem us_layout_types_ascii {s : KeyboardIntl} (hlayout : s.currentLayout = 0)
    (text : List Byte) :
    (∀ reads, ∀ c ∈ observe getchar (fun _ => typed) s reads, AsciiKey c) ∧
      ((∀ c ∈ text, AsciiKey c) → ∀ reads : List (Byte × Byte),
        reads.map Prod.fst = 0xAA :: usLayout.typing (decide (s.capsLock ≠ 0)) text →
        observe getchar (fun _ => typed) s reads = text) := by
  have huses : Uses .usLayout s.currentLayout := by
    rw [hlayout]
    exact uses_us
  constructor
  · intro reads c hc
    rw [typed_eq_decode reads huses] at hc
    exact decode_us _ _ c hc
  · intro htext reads hreads
    have hrelease : s.flags.after 0xAA = ⟨false, decide (s.capsLock ≠ 0)⟩ := rfl
    rw [typed_eq_decode reads huses, hreads, decode,
      types_of_silent silent_us s.flags (by decide), hrelease,
      CharTables.decode_typing silent_us fun c hc => typeable_us (htext c hc)]
    rfl

/-- A line, typed with the caps lock on. -/
theorem us_layout_types_ascii_line :
    observe KeyboardIntl.getchar (fun _ => KeyboardIntl.typed)
        { KeyboardIntl.boot with capsLock := 1 }
        ((0xAA :: CharTables.usLayout.typing true [0x4F, 0x6B, 0x21, 0x0A]).map fun b => (b, 0x48))
      = [0x4F, 0x6B, 0x21, 0x0A] := by
  refine (us_layout_types_ascii (s := { KeyboardIntl.boot with capsLock := 1 }) rfl
    [0x4F, 0x6B, 0x21, 0x0A]).2 (by decide) _ ?_
  rw [List.map_map]
  exact List.map_id _

end MinimalistOS
