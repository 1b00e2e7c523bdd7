import MinimalistOS.Properties.Layouts
import MinimalistOS.Properties.Typing

/-!
# Two drivers on one keyboard

`keyboard.c` has a French layout too, under the name of the US one.

* `types_french_iff` — the keys that type the same on both
* `agree_iff_common` — what one reading does to both drivers
* `french_drivers_agree_iff` — with the French layout `keyboard_intl.c` does what `keyboard.c` does,
  but for seven keys and for keys with a prefix
-/

namespace MinimalistOS

open Infra

/-! ## Keys -/

/-- The keys with other characters: two have a character in the tables of `keyboard_intl.c` alone,
the others differ with shift. -/
def otherKeys (k : KeyFlags) : List Byte :=
  if k.shift then [0x0C, 0x1A, 0x1B, 0x29, 0x35, 0x47, 0x4B] else [0x47, 0x4B]

open CharTables

theorem table_french : ∀ k : KeyFlags, ∀ n < 128,
    (frenchLayout.table k).getD n 0 = k.table.getD n 0 ↔ BitVec.ofNat 8 n ∉ otherKeys k := by
  have hplain : ∀ n < 128, frAzerty.getD n 0 = scancodeToAsciiUs.getD n 0 ↔
      BitVec.ofNat 8 n ∉ otherKeys ⟨false, false⟩ := by decide +kernel
  have hshifted : ∀ n < 128, frAzertyShift.getD n 0 = scancodeToAsciiUsShift.getD n 0 ↔
      BitVec.ofNat 8 n ∉ otherKeys ⟨true, false⟩ := by decide +kernel
  rintro ⟨shift, caps⟩
  cases shift with
  | false => exact hplain
  | true => exact hshifted

theorem silent_french : frenchLayout.Silent := by decide

/-- **The keys that type the same.** -/
theorem types_french_iff (k : KeyFlags) (scancode : Byte) :
    frenchLayout.types k scancode = k.types scancode ↔ scancode ∉ otherKeys k := by
  by_cases hmod : scancode ∈ modifierKeys
  · have hother : ∀ b ∈ modifierKeys, b ∉ otherKeys k := by
      unfold otherKeys
      split
      · decide
      · decide
    rw [types_of_silent silent_french k hmod, KeyFlags.types, if_pos (.inl hmod)]
    exact iff_of_true rfl (hother scancode hmod)
  rw [← keyboard_types]
  by_cases hup : scancode.toNat < 128
  · have htable := table_french k scancode.toNat hup
    rw [BitVec.ofNat_toNat, BitVec.setWidth_eq] at htable
    exact (types_eq_iff k hup hmod).trans htable
  · have hother : ∀ b ∈ otherKeys k, b.toNat < 128 := by
      unfold otherKeys
      split
      · decide
      · decide
    have hhigh := and_release_ne_zero (b := scancode) (by omega)
    rw [types, types, if_pos hhigh, if_pos hhigh]
    exact iff_of_true rfl fun h => hup (hother scancode h)

/-! ## The drivers -/

/-- Both drivers. -/
structure KeyboardDrivers where
  console : Console
  intl : KeyboardIntl

/-- What `keyboard.c` gets of what a call of `keyboard_intl_getchar` reads. -/
def arriving (read : Byte × Byte) : List Byte :=
  if read.1 = 0xE0 then [read.1, read.2] else [read.1]

/-- Each byte comes in an interrupt of its own. -/
def interruptsOf (scancodes : List Byte) : List ConsoleAction := scancodes.map .interrupt

namespace KeyboardDrivers

/-- The keyboard is read by both. The answer is the characters of either. -/
def step (s : KeyboardDrivers) (read : Byte × Byte) : KeyboardDrivers × List Byte × List Byte :=
  ({ console := run Console.step s.console (interruptsOf (arriving read))
     intl := (s.intl.getchar read).1 },
    observe Console.step handledBy s.console (interruptsOf (arriving read)),
    KeyboardIntl.typed (s.intl.getchar read).2)

/-- The two type the same, and agree about the shift key and the caps lock afterwards. -/
def Agree (s : KeyboardDrivers) (read : Byte × Byte) : Prop :=
  (s.step read).2.1 = (s.step read).2.2 ∧
    (s.step read).1.console.keyboard.flags = (s.step read).1.intl.flags

/-- What the two do the same with: a key that is not one of the others, or a prefix with a second
byte that means nothing to `keyboard.c`. -/
def Common (s : KeyboardDrivers) (read : Byte × Byte) : Prop :=
  if read.1 = 0xE0 then
    s.console.keyboard.flags.types read.2 = [] ∧
      s.console.keyboard.flags.after read.2 = s.console.keyboard.flags
  else read.1 ∉ otherKeys s.console.keyboard.flags

instance (s : KeyboardDrivers) (read : Byte × Byte) : Decidable (s.Common read) :=
  inferInstanceAs (Decidable (if read.1 = 0xE0 then _ ∧ _ else _))

/-- The French layout is set, and the two have seen the same of the shift keys and the caps lock. -/
def Started (s : KeyboardDrivers) : Prop :=
  s.intl.currentLayout = Fin.last 2 ∧ s.console.keyboard.flags = s.intl.flags

/-! ## One reading -/

theorem interrupts_flags (scancodes : List Byte) : ∀ s : Console,
    (run Console.step s (interruptsOf scancodes)).keyboard.flags
      = scancodes.foldl KeyFlags.after s.keyboard.flags := by
  induction scancodes with
  | nil => exact fun _ => rfl
  | cons scancode rest ih =>
    intro s
    have hnext : (s.step (.interrupt scancode)).1.keyboard.flags
        = s.keyboard.flags.after scancode := keyboardHandler_flags s.keyboard scancode
    rw [interruptsOf, List.map_cons, run_cons, ← interruptsOf, ih, hnext, List.foldl_cons]

theorem scancodes_interrupts (l : List Byte) : scancodes (interruptsOf l) = l := by
  induction l with
  | nil => rfl
  | cons scancode rest ih => exact congrArg (scancode :: ·) ih

/-- What `keyboard.c` makes of a reading. -/
theorem step_keyboard (s : KeyboardDrivers) (read : Byte × Byte) :
    (s.step read).2.1 = s.console.keyboard.flags.decode (arriving read) ∧
      (s.step read).1.console.keyboard.flags
        = (arriving read).foldl KeyFlags.after s.console.keyboard.flags := by
  constructor
  · show observe Console.step handledBy s.console (interruptsOf (arriving read)) = _
    rw [handled_eq_decode, scancodes_interrupts]
  · exact interrupts_flags (arriving read) s.console

/-- What `keyboard_intl.c` makes of it. -/
theorem step_intl {s : KeyboardDrivers} (h : s.intl.currentLayout = Fin.last 2)
    (read : Byte × Byte) :
    (s.step read).2.2 = frenchLayout.types s.intl.flags read.1 ∧
      (s.step read).1.intl.flags = s.intl.flags.after read.1 := by
  have huses : KeyboardIntl.Uses .frenchLayout s.intl.currentLayout := by
    rw [h]
    exact KeyboardIntl.uses_french
  exact ⟨KeyboardIntl.getchar_types huses read.1 read.2, KeyboardIntl.getchar_flags s.intl read⟩

/-- The prefix itself means nothing to either. -/
theorem extended_types (k : KeyFlags) : k.types 0xE0 = [] ∧ frenchLayout.types k 0xE0 = [] ∧
    k.after 0xE0 = k :=
  ⟨if_pos (.inr (char_eq_zero k (by decide))), if_pos (by decide), after_of_notMem k (by decide)⟩

/-- **One reading.** -/
theorem agree_iff_common {s : KeyboardDrivers} (h : s.Started) (read : Byte × Byte) :
    s.Agree read ↔ s.Common read := by
  obtain ⟨hlayout, hflags⟩ := h
  obtain ⟨htyped, hafter⟩ := step_keyboard s read
  obtain ⟨htyped', hafter'⟩ := step_intl hlayout read
  unfold Agree Common arriving at *
  rw [htyped, hafter, htyped', hafter', ← hflags]
  by_cases hextended : read.1 = 0xE0
  · obtain ⟨hkeyboard, hintl, hsame⟩ := extended_types s.console.keyboard.flags
    rw [if_pos hextended, if_pos hextended, hextended, KeyFlags.decode, KeyFlags.decode,
      KeyFlags.decode, List.foldl_cons, List.foldl_cons, List.foldl_nil, hkeyboard, hintl, hsame,
      List.nil_append, List.append_nil]
  · rw [if_neg hextended, if_neg hextended, KeyFlags.decode, KeyFlags.decode, List.append_nil,
      List.foldl_cons, List.foldl_nil, ← types_french_iff]
    exact ⟨fun hagree => hagree.1.symm, fun htypes => ⟨htypes.symm, rfl⟩⟩

theorem Started.step {s : KeyboardDrivers} (h : s.Started) {read : Byte × Byte}
    (hread : s.Common read) : (s.step read).1.Started :=
  ⟨(KeyboardIntl.getchar_layout s.intl read).trans h.1, ((agree_iff_common h read).mpr hread).2⟩

end KeyboardDrivers

/--
**With the French layout `keyboard_intl.c` does what `keyboard.c` does**, up to the first key that
differs.

Both drivers read the same keyboard. From states in which they agree about the shift key and the
caps lock, they type the same and go on agreeing with every reading of a run exactly when each
reading is of a key that is not one of the others, or of a prefix with a second byte that, without
the prefix, types nothing and changes no flag.
-/
theorem french_drivers_agree_iff {s : KeyboardDrivers} (h : s.Started)
    (reads : List (Byte × Byte)) :
    Along KeyboardDrivers.step KeyboardDrivers.Agree s reads ↔
      Along KeyboardDrivers.step KeyboardDrivers.Common s reads :=
  along_iff_along KeyboardDrivers.step (I := KeyboardDrivers.Started)
    (fun _ read hs => KeyboardDrivers.agree_iff_common hs read)
    (fun _ _ hs hread => hs.step hread) h reads

/-- Both drivers at the start. -/
def freshDrivers : KeyboardDrivers where
  console := freshConsole
  intl := { KeyboardIntl.boot with currentLayout := Fin.last 2 }

/-- A capital letter and an arrow key are the same on both, the key right of the digits is not. -/
theorem french_drivers_agree_iff_shift :
    Along KeyboardDrivers.step KeyboardDrivers.Agree freshDrivers
        [(0x2A, 0), (0x10, 0), (0xE0, 0x48), (0xE0, 0xC8)] ∧
      ¬ Along KeyboardDrivers.step KeyboardDrivers.Agree freshDrivers [(0x2A, 0), (0x0C, 0)] := by
  have hstarted : freshDrivers.Started := ⟨rfl, rfl⟩
  exact ⟨(french_drivers_agree_iff hstarted _).mpr (by decide),
    fun h => absurd ((french_drivers_agree_iff hstarted _).mp h) (by decide)⟩

end MinimalistOS
