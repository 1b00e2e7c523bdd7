import MinimalistOS.Properties.Keyboard

/-!
# The shift keys

* `ShiftKeys` — which of the two keys are held
* `keyboardHandler_shiftPressed` — what a scancode does to the flag
* `keyboardHandler_types` — the character that a key types
* `shift_follows_keys_iff` — exactly when the flag follows the keys

Two keys share one flag, and each release clears it. It is wrong from the moment one of the keys is
released while the other one is still held.
-/

namespace MinimalistOS

open Infra

/-- Which shift keys are held. -/
structure ShiftKeys where
  left : Bool
  right : Bool
  deriving DecidableEq

namespace ShiftKeys

/-- At least one of them is. -/
def Held (keys : ShiftKeys) : Prop := keys.left = true ∨ keys.right = true

instance (keys : ShiftKeys) : Decidable keys.Held := inferInstanceAs (Decidable (_ ∨ _))

/-- The keys after a scancode: `0x2A` and `0xAA` are of the left one, `0x36` and `0xB6` of the right
one. -/
def after (keys : ShiftKeys) (scancode : Byte) : ShiftKeys :=
  if scancode = 0x2A then { keys with left := true }
  else if scancode = 0xAA then { keys with left := false }
  else if scancode = 0x36 then { keys with right := true }
  else if scancode = 0xB6 then { keys with right := false }
  else keys

end ShiftKeys

/-- The driver and its reader, and the keys that are held. -/
structure ShiftConsole where
  console : Console
  keys : ShiftKeys

/-- An interrupt with its scancode, or a step of the reader. -/
def ShiftConsole.step (s : ShiftConsole) (action : ConsoleAction) : ShiftConsole × ConsoleEvent :=
  ({ console := (s.console.step action).1
     keys := match action with
       | .interrupt scancode => s.keys.after scancode
       | .getchar => s.keys },
    (s.console.step action).2)

/-- What a keyboard can send: a release comes from a key that is held. -/
def ShiftConsole.CanSend (s : ShiftConsole) (action : ConsoleAction) : Prop :=
  (action = .interrupt 0xAA → s.keys.left = true) ∧
    (action = .interrupt 0xB6 → s.keys.right = true)

/-- No shift key is released while the other one is held. -/
def ShiftConsole.ReleasesLast (s : ShiftConsole) (action : ConsoleAction) : Prop :=
  (action = .interrupt 0xAA → s.keys.right = false) ∧
    (action = .interrupt 0xB6 → s.keys.left = false)

instance (s : ShiftConsole) (action : ConsoleAction) : Decidable (s.CanSend action) :=
  inferInstanceAs (Decidable (_ ∧ _))

instance (s : ShiftConsole) (action : ConsoleAction) : Decidable (s.ReleasesLast action) :=
  inferInstanceAs (Decidable (_ ∧ _))

/-! ## Characters -/

/-- The handler takes the scancode for a character, for which there may be room or not. -/
def Keyboard.Types (s : Keyboard) (scancode c : Byte) : Prop :=
  (keyboardHandler s scancode).2 = .stored c ∨ (keyboardHandler s scancode).2 = .dropped c

/-- "Apply caps lock to letters". -/
def applyCaps (capsLock : Bool) (c : Byte) : Byte :=
  if capsLock ∧ 0x61 ≤ c ∧ c ≤ 0x7A then c - 32
  else if capsLock ∧ 0x41 ≤ c ∧ c ≤ 0x5A then c + 32
  else c

/-- The flag says whether a shift key is held, and what is typed comes from the table of the
keys. -/
structure ShiftConsole.Follows (s : ShiftConsole) : Prop where
  flag : s.console.keyboard.shiftPressed = true ↔ s.keys.Held
  typed : ∀ scancode c, s.console.keyboard.Types scancode c →
    c = applyCaps s.console.keyboard.capsLock
      ((if s.keys.Held then scancodeToAsciiUsShift else scancodeToAsciiUs).getD scancode.toNat 0)

/-! ## The handler -/

theorem addToBuffer_types (s : Keyboard) {c d : Byte}
    (h : (addToBuffer s c).2 = .stored d ∨ (addToBuffer s c).2 = .dropped d) : d = c := by
  unfold addToBuffer at h
  split at h
  · simpa [eq_comm] using h
  · simpa [eq_comm] using h

/-- The backspace key has the same character in both tables, and caps lock does not change it. -/
theorem baseChar_backspace (s : Keyboard) : baseChar s 0x0E = 0x08 := by
  unfold baseChar
  cases s.shiftPressed with
  | true => cases s.capsLock <;> decide
  | false => cases s.capsLock <;> decide

/-- **What a key types** is its entry in the table that the flag selects. -/
theorem keyboardHandler_types {s : Keyboard} {scancode c : Byte} (h : s.Types scancode c) :
    c = baseChar s scancode := by
  unfold Keyboard.Types keyboardHandler at h
  split at h
  · next hback => rw [addToBuffer_types s h, hback, baseChar_backspace]
  · split at h
    · simp at h
    · split at h
      · simp at h
      · split at h
        · split at h
          · exact addToBuffer_types s h
          · simp at h
        · simp at h

theorem addToBuffer_shiftPressed (s : Keyboard) (c : Byte) :
    (addToBuffer s c).1.shiftPressed = s.shiftPressed := by
  unfold addToBuffer
  split <;> rfl

/-- The other modifier keys have flags of their own. -/
theorem modifierKey_shiftPressed {s s' : Keyboard} {scancode : Byte}
    (h : modifierKey s scancode = some s') :
    s'.shiftPressed = if scancode = 0x2A ∨ scancode = 0x36 then true
      else if scancode = 0xAA ∨ scancode = 0xB6 then false else s.shiftPressed := by
  unfold modifierKey at h
  split
  · next hpress =>
    rw [if_pos hpress] at h
    exact (congrArg Keyboard.shiftPressed (Option.some.inj h)).symm
  · next hpress =>
    rw [if_neg hpress] at h
    split
    · next hrelease =>
      rw [if_pos hrelease] at h
      exact (congrArg Keyboard.shiftPressed (Option.some.inj h)).symm
    · next hrelease =>
      rw [if_neg hrelease] at h
      split_ifs at h <;> exact (congrArg Keyboard.shiftPressed (Option.some.inj h)).symm

theorem modifierKey_eq_none {s : Keyboard} {scancode : Byte} (h : modifierKey s scancode = none) :
    ¬ (scancode = 0x2A ∨ scancode = 0x36) ∧ ¬ (scancode = 0xAA ∨ scancode = 0xB6) := by
  unfold modifierKey at h
  split at h
  · cases h
  · next hpress =>
    split at h
    · cases h
    · next hrelease => exact ⟨hpress, hrelease⟩

/-- **What a scancode does to the flag.** -/
theorem keyboardHandler_shiftPressed (s : Keyboard) (scancode : Byte) :
    (keyboardHandler s scancode).1.shiftPressed
      = if scancode = 0x2A ∨ scancode = 0x36 then true
        else if scancode = 0xAA ∨ scancode = 0xB6 then false else s.shiftPressed := by
  unfold keyboardHandler
  split
  · next hback =>
    subst hback
    exact addToBuffer_shiftPressed s 0x08
  · cases hkey : modifierKey s scancode with
    | some s' => exact modifierKey_shiftPressed hkey
    | none =>
      obtain ⟨hpress, hrelease⟩ := modifierKey_eq_none hkey
      rw [if_neg hpress, if_neg hrelease]
      simp only
      split
      · rfl
      · split
        · split
          · exact addToBuffer_shiftPressed s _
          · rfl
        · rfl

/-- The reader does not look at the flags. -/
theorem getchar_shiftPressed (s : Console) :
    (s.step .getchar).1.keyboard.shiftPressed = s.keyboard.shiftPressed := by
  cases hreader : s.reader with
  | idle =>
    simp only [Console.step, hreader]
    split <;> rfl
  | tested => simp only [Console.step, hreader]
  | fetched c => simp only [Console.step, hreader, advanceRead]

/-! ## One step -/

namespace ShiftConsole

/-- The flag says whether a shift key is held. -/
def FlagHeld (s : ShiftConsole) : Prop :=
  s.console.keyboard.shiftPressed = true ↔ s.keys.Held

theorem follows_of_flag {s : ShiftConsole} (h : s.FlagHeld) : s.Follows where
  flag := h
  typed scancode c htypes := by
    rw [keyboardHandler_types htypes]
    unfold baseChar applyCaps
    by_cases hheld : s.keys.Held
    · rw [if_pos hheld, h.mpr hheld]
      rfl
    · have hflag : s.console.keyboard.shiftPressed = false :=
        Bool.eq_false_iff.mpr (mt h.mp hheld)
      rw [if_neg hheld, hflag]
      rfl

variable {s : ShiftConsole}

/-- What an interrupt does to the flag and to the keys. -/
theorem step_interrupt (s : ShiftConsole) (scancode : Byte) :
    (s.step (.interrupt scancode)).1.console.keyboard.shiftPressed
      = (if scancode = 0x2A ∨ scancode = 0x36 then true
        else if scancode = 0xAA ∨ scancode = 0xB6 then false
        else s.console.keyboard.shiftPressed) ∧
    (s.step (.interrupt scancode)).1.keys = s.keys.after scancode :=
  ⟨keyboardHandler_shiftPressed s.console.keyboard scancode, rfl⟩

/-- **One step** keeps the flag right exactly when it does not release one of two keys that are
held. -/
theorem flag_step_iff (h : s.FlagHeld) {action : ConsoleAction} (hsend : s.CanSend action) :
    (s.step action).1.FlagHeld ↔ s.ReleasesLast action := by
  unfold FlagHeld at h ⊢
  cases action with
  | getchar =>
    have hflag : (s.step .getchar).1.console.keyboard.shiftPressed
        = s.console.keyboard.shiftPressed := getchar_shiftPressed s.console
    rw [hflag]
    exact iff_of_true h (by simp [ReleasesLast])
  | interrupt scancode =>
    obtain ⟨hflag, hkeys⟩ := s.step_interrupt scancode
    rw [hflag, hkeys]
    unfold ShiftKeys.after ShiftKeys.Held ReleasesLast
    by_cases hl : scancode = 0x2A
    · subst hl
      simp
    by_cases hr : scancode = 0x36
    · subst hr
      simp
    by_cases hbl : scancode = 0xAA
    · subst hbl
      simp
    by_cases hbr : scancode = 0xB6
    · subst hbr
      simp
    · simp only [hl, hr, hbl, hbr, or_self, if_false, ConsoleAction.interrupt.injEq, false_imp_iff,
        and_self, iff_true]
      exact h

/-! ## Runs -/

/--
**The flag follows the shift keys exactly as long as no shift key is released while the other one is
held.**

For every sequence of scancodes that a keyboard can send, whatever the reader does in between: after
every prefix the flag says whether a shift key is held, and every character typed next comes from
the table that goes with the keys, if and only if each release of a shift key finds the other one
up.
-/
theorem shift_follows_keys_iff {console : Console}
    (hup : console.keyboard.shiftPressed = false) {actions : List ConsoleAction}
    (hsend : Along step CanSend ⟨console, ⟨false, false⟩⟩ actions) :
    (∀ pre, pre <+: actions → (run step ⟨console, ⟨false, false⟩⟩ pre).Follows) ↔
      Along step ReleasesLast ⟨console, ⟨false, false⟩⟩ actions := by
  have hstart : FlagHeld ⟨console, ⟨false, false⟩⟩ := by
    simp [FlagHeld, ShiftKeys.Held, hup]
  refine safe_iff_along_of step (I := FlagHeld) (S := Follows) (fun _ => follows_of_flag)
    (fun _ _ hcan hflag hlast => (flag_step_iff hflag hcan).mpr hlast)
    (fun _ _ hcan hflag hlast hnext => hlast ((flag_step_iff hflag hcan).mp hnext.flag)) hstart
    hsend

end ShiftConsole

/-- The driver before `keyboard_init`, with no reader in it. -/
def freshConsole : Console := ⟨bootKeyboard, .idle⟩

/-- One shift key after the other, with a letter under each. -/
theorem shift_follows_keys_in_turn :
    (run ShiftConsole.step ⟨freshConsole, ⟨false, false⟩⟩
      [.interrupt 0x2A, .interrupt 0x10, .interrupt 0xAA, .interrupt 0x36]).Follows :=
  have hsend : Along ShiftConsole.step ShiftConsole.CanSend ⟨freshConsole, ⟨false, false⟩⟩
      [.interrupt 0x2A, .interrupt 0x10, .interrupt 0xAA, .interrupt 0x36] := by decide
  (ShiftConsole.shift_follows_keys_iff rfl hsend).mpr (by decide) _ List.prefix_rfl

/-- Both keys are held and the left one is released: the right one is still held, and a letter is
typed as without it. -/
theorem shift_lost_with_one_key_held :
    Along ShiftConsole.step ShiftConsole.CanSend ⟨freshConsole, ⟨false, false⟩⟩
        [.interrupt 0x2A, .interrupt 0x36, .interrupt 0xAA] ∧
      (run ShiftConsole.step ⟨freshConsole, ⟨false, false⟩⟩
        [.interrupt 0x2A, .interrupt 0x36, .interrupt 0xAA]).keys.Held ∧
      (run ShiftConsole.step ⟨freshConsole, ⟨false, false⟩⟩
        [.interrupt 0x2A, .interrupt 0x36, .interrupt 0xAA]).console.keyboard.Types 0x10 0x61 ∧
      ¬ (run ShiftConsole.step ⟨freshConsole, ⟨false, false⟩⟩
        [.interrupt 0x2A, .interrupt 0x36, .interrupt 0xAA]).Follows := by
  refine ⟨by decide, by decide, ?_, ?_⟩
  · exact .inl (by decide)
  · rintro ⟨hflag, -⟩
    revert hflag
    decide

end MinimalistOS
