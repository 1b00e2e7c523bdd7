import MinimalistOS.Kernel.KeyboardShell
import MinimalistOS.Properties.CharTables
import MinimalistOS.Properties.KeyboardShift
import MinimalistOS.Properties.Shell
import MinimalistOS.Spec.Typing
import Mathlib.Data.List.GetD

/-!
# From the keys to the commands

* `handled_eq_decode` — the characters of a run are those of its scancodes, whenever they come
* `decode_typing` — the scancodes of a text type the text
* `observe_keyboardShell` — the shell sees what `keyboard_getchar` returns, and nothing else
* `commandsIn_linesText` — what the shell makes of a text
* `typed_lines_are_executed` — from the keys to the commands

The three parts are proved apart: what the handler makes of scancodes, that the buffer passes it on
(`accepted_eq`), and what the shell makes of characters.
-/

namespace MinimalistOS

open Infra

/-! ## Scancodes -/

/-- The flags of the driver. -/
def Keyboard.flags (s : Keyboard) : KeyFlags := ⟨s.shiftPressed, s.capsLock⟩

theorem baseChar_eq (s : Keyboard) (scancode : Byte) :
    baseChar s scancode = s.flags.char scancode := rfl

/-- A key of the `switch`, before the keys that follow. -/
theorem isSome_ite_some {α : Type} {p : Prop} [Decidable p] {a : α} {rest : Option α} :
    (if p then some a else rest).isSome = true ↔ p ∨ rest.isSome = true := by
  split
  · next hp => simp [hp]
  · next hp => simp [hp]

theorem modifierKey_isSome_iff (s : Keyboard) (scancode : Byte) :
    (modifierKey s scancode).isSome = true ↔ scancode ∈ modifierKeys := by
  unfold modifierKey modifierKeys
  simp only [isSome_ite_some, Option.isSome_none, Bool.false_eq_true, or_false, or_assoc,
    List.mem_cons, List.not_mem_nil]

/-- The character of an event of the handler, stored or not. -/
def handledBy : ConsoleAction → ConsoleEvent → List Byte
  | _, .handled (.stored c) => [c]
  | _, .handled (.dropped c) => [c]
  | _, _ => []

theorem handledBy_addToBuffer (action : ConsoleAction) (s : Keyboard) (c : Byte) :
    handledBy action (.handled (addToBuffer s c).2) = [c] := by
  unfold addToBuffer
  split <;> rfl

theorem char_backspace : ∀ k : KeyFlags, k.char 0x0E = 0x08
  | ⟨true, true⟩ => by decide
  | ⟨true, false⟩ => by decide
  | ⟨false, true⟩ => by decide
  | ⟨false, false⟩ => by decide

/-- **What the handler does with a scancode** is typing what the scancode types. -/
theorem handledBy_keyboardHandler (action : ConsoleAction) (s : Keyboard) (scancode : Byte) :
    handledBy action (.handled (keyboardHandler s scancode).2) = s.flags.types scancode := by
  unfold keyboardHandler KeyFlags.types
  by_cases hback : scancode = 0x0E
  · subst hback
    rw [if_pos rfl, handledBy_addToBuffer, char_backspace, if_neg (by decide)]
  · rw [if_neg hback]
    cases hkey : modifierKey s scancode with
    | some s' =>
      have hmem := (modifierKey_isSome_iff s scancode).mp (by rw [hkey]; rfl)
      exact (if_pos (Or.inl hmem)).symm
    | none =>
      have hnot : scancode ∉ modifierKeys := by
        rw [← modifierKey_isSome_iff s, hkey]
        simp
      simp only [hnot, false_or]
      by_cases hup : scancode &&& 0x80 ≠ 0
      · have hhigh : 128 ≤ scancode.toNat := by
          by_contra hlow
          exact hup (and_release_eq_zero (by omega))
        rw [if_pos hup, if_pos (char_eq_zero s.flags (by omega))]
        rfl
      · rw [if_neg hup]
        by_cases hlt : scancode.toNat < 58
        · rw [if_pos (show scancode.toNat < scancodeToAsciiUs.length from hlt), baseChar_eq]
          by_cases hchar : s.flags.char scancode = 0
          · rw [if_neg (not_not.mpr hchar), if_pos hchar]
            rfl
          · rw [if_pos hchar, handledBy_addToBuffer, if_neg hchar]
        · rw [if_neg (show ¬ scancode.toNat < scancodeToAsciiUs.length from hlt),
            if_pos (char_eq_zero s.flags (by omega))]
          rfl

theorem addToBuffer_flags (s : Keyboard) (c : Byte) : (addToBuffer s c).1.flags = s.flags := by
  unfold addToBuffer
  split <;> rfl

/-- A key that is not the caps lock key, before the keys that follow. -/
theorem capsLock_of_ite {s s' pressed : Keyboard} {p : Prop} [Decidable p] {rest : Option Keyboard}
    (hpressed : pressed.capsLock = s.capsLock) (hrest : rest = some s' → s'.capsLock = s.capsLock)
    (h : (if p then some pressed else rest) = some s') : s'.capsLock = s.capsLock := by
  by_cases hp : p
  · rw [if_pos hp] at h
    obtain rfl := Option.some.inj h
    exact hpressed
  · rw [if_neg hp] at h
    exact hrest h

theorem modifierKey_flags {s s' : Keyboard} {scancode : Byte}
    (h : modifierKey s scancode = some s') : s'.flags = s.flags.after scancode := by
  have hshift := modifierKey_shiftPressed h
  have hcaps : s'.capsLock = if scancode = 0x3A then !s.capsLock else s.capsLock := by
    by_cases hcapsKey : scancode = 0x3A
    · subst hcapsKey
      obtain rfl : { s with capsLock := !s.capsLock } = s' := Option.some.inj h
      rfl
    · rw [if_neg hcapsKey]
      unfold modifierKey at h
      rw [if_neg hcapsKey] at h
      revert h
      iterate 8 refine capsLock_of_ite rfl ?_
      intro h
      cases h
  unfold Keyboard.flags KeyFlags.after
  rw [hshift, hcaps]

/-- **What a scancode does to the flags.** -/
theorem keyboardHandler_flags (s : Keyboard) (scancode : Byte) :
    (keyboardHandler s scancode).1.flags = s.flags.after scancode := by
  unfold keyboardHandler
  by_cases hback : scancode = 0x0E
  · subst hback
    rw [if_pos rfl, addToBuffer_flags]
    rfl
  · rw [if_neg hback]
    cases hkey : modifierKey s scancode with
    | some s' => exact modifierKey_flags hkey
    | none =>
      have hnot : scancode ∉ modifierKeys := by
        rw [← modifierKey_isSome_iff s, hkey]
        simp
      rw [after_of_notMem s.flags hnot]
      simp only
      split
      · rfl
      · split
        · split
          · exact addToBuffer_flags s _
          · rfl
        · rfl

/-- The reader does not look at the flags. -/
theorem getchar_flags (s : Console) : (s.step .getchar).1.keyboard.flags = s.keyboard.flags := by
  simp only [Console.step]
  split
  · split <;> rfl
  · rfl
  · rfl

theorem handledBy_getchar (s : Console) : handledBy .getchar (s.step .getchar).2 = [] := by
  simp only [Console.step]
  split
  · split <;> rfl
  · rfl
  · rfl

/-- The scancodes of the interrupts in a run. -/
def scancodes : List ConsoleAction → List Byte
  | [] => []
  | .interrupt scancode :: actions => scancode :: scancodes actions
  | .getchar :: actions => scancodes actions

/-- **The characters of a run are those of its scancodes**, whenever the reader comes in between. -/
theorem handled_eq_decode (actions : List ConsoleAction) : ∀ s : Console,
    observe Console.step handledBy s actions
      = s.keyboard.flags.decode (scancodes actions) := by
  induction actions with
  | nil => exact fun _ => rfl
  | cons action actions ih =>
    intro s
    rw [observe_cons, ih]
    cases action with
    | interrupt scancode =>
      have hflags : (s.step (.interrupt scancode)).1.keyboard.flags
          = s.keyboard.flags.after scancode := keyboardHandler_flags s.keyboard scancode
      have hchars : handledBy (.interrupt scancode) (s.step (.interrupt scancode)).2
          = s.keyboard.flags.types scancode := handledBy_keyboardHandler _ s.keyboard scancode
      rw [hflags, hchars]
      rfl
    | getchar =>
      rw [getchar_flags, handledBy_getchar]
      rfl

/-! ## Texts -/

theorem decode_append (l l' : List Byte) (k : KeyFlags) :
    k.decode (l ++ l') = k.decode l ++ (l.foldl KeyFlags.after k).decode l' := by
  rw [← CharTables.keyboard_decode, CharTables.decode_append, CharTables.keyboard_decode,
    CharTables.keyboard_decode]

theorem toNat_keyOf {k : KeyFlags} {c : Byte} (hc : c ∈ k.table) :
    (keyOf k.table c).toNat = k.table.idxOf c ∧ k.table.idxOf c < 58 := by
  have hlt := List.idxOf_lt_length_of_mem hc
  rw [length_table] at hlt
  exact ⟨by rw [keyOf, BitVec.toNat_ofNat, Nat.mod_eq_of_lt (by omega)], hlt⟩

/-- Without caps lock a key has the character of the table. -/
theorem char_keyOf {k : KeyFlags} (hcaps : k.caps = false) {c : Byte} (hc : c ∈ k.table) :
    k.char (keyOf k.table c) = c := by
  have hget : k.table.getD (k.table.idxOf c) 0 = c := by
    rw [List.getD_eq_getElem _ _ (List.idxOf_lt_length_of_mem hc), List.getElem_idxOf]
  unfold KeyFlags.char
  rw [hcaps, (toNat_keyOf hc).1, hget]
  simp

/-- A key types its character. -/
theorem decode_press {k : KeyFlags} (hcaps : k.caps = false) {c : Byte} (hc : c ∈ k.table)
    (h0 : c ≠ 0) : k.decode (press (keyOf k.table c)) = [c] ∧
      (press (keyOf k.table c)).foldl KeyFlags.after k = k := by
  obtain ⟨htoNat, hlt⟩ := toNat_keyOf hc
  rw [← CharTables.keyboard_decode]
  exact CharTables.decode_press CharTables.silent_keyboard (by omega)
    ((CharTables.keyboard_char k _).trans (char_keyOf hcaps hc)) h0

/-- One character: its key types it, and leaves the flags off. -/
theorem decode_stroke {c : Byte} (h : Typeable c) : KeyFlags.off.decode (stroke c) = [c] ∧
    (stroke c).foldl KeyFlags.after .off = .off := by
  obtain ⟨h0, htables⟩ := h
  unfold stroke
  by_cases hplain : c ∈ scancodeToAsciiUs
  · rw [if_pos hplain]
    exact decode_press (k := .off) rfl hplain h0
  · obtain ⟨hchar, hafter⟩ : KeyFlags.decode ⟨true, false⟩ (press (keyOf scancodeToAsciiUsShift c))
        = [c] ∧ (press (keyOf scancodeToAsciiUsShift c)).foldl KeyFlags.after ⟨true, false⟩
          = ⟨true, false⟩ := decode_press (k := ⟨true, false⟩) rfl (htables.resolve_left hplain) h0
    rw [if_neg hplain, ← hchar, ← CharTables.keyboard_decode, ← CharTables.keyboard_decode]
    exact CharTables.decode_held CharTables.silent_keyboard hafter

/-- **The scancodes of a text type the text.** -/
theorem decode_typing {text : List Byte} (h : ∀ c ∈ text, Typeable c) :
    KeyFlags.off.decode (typing text) = text := by
  induction text with
  | nil => rfl
  | cons c text ih =>
    obtain ⟨hchar, hoff⟩ := decode_stroke (h c List.mem_cons_self)
    rw [typing, List.flatMap_cons, decode_append, hchar, hoff, ← typing,
      ih fun b hb => h b (List.mem_cons_of_mem c hb)]
    rfl

/-! ## What is dropped -/

/-- The action does not drop a character. -/
def KeepsChar (s : Console) (action : ConsoleAction) : Prop :=
  ∀ c, (s.step action).2 ≠ .handled (.dropped c)

instance (s : Console) (action : ConsoleAction) : Decidable (KeepsChar s action) :=
  match h : (s.step action).2 with
  | .handled (.dropped c) => isFalse fun hk => hk c h
  | .handled (.stored c) => isTrue fun d hd => by rw [h] at hd; cases hd
  | .handled .nothing => isTrue fun d hd => by rw [h] at hd; cases hd
  | .returned c => isTrue fun d hd => by rw [h] at hd; cases hd
  | .silent => isTrue fun d hd => by rw [h] at hd; cases hd

/-- What is not dropped is accepted. -/
theorem acceptedBy_of_keeps {s : Console} {action : ConsoleAction} (h : KeepsChar s action) :
    acceptedBy action (s.step action).2 = handledBy action (s.step action).2 := by
  unfold KeepsChar at h
  revert h
  cases (s.step action).2 with
  | handled handled =>
    cases handled with
    | stored c => exact fun _ => rfl
    | dropped c => exact fun h => absurd rfl (h c)
    | nothing => exact fun _ => rfl
  | returned c => exact fun _ => rfl
  | silent => exact fun _ => rfl

theorem accepted_eq_handled {s : Console} {actions : List ConsoleAction}
    (h : Along Console.step KeepsChar s actions) :
    observe Console.step acceptedBy s actions = observe Console.step handledBy s actions := by
  induction actions generalizing s with
  | nil => rfl
  | cons action actions ih =>
    obtain ⟨hkeep, hrest⟩ := h
    rw [observe_cons, observe_cons, acceptedBy_of_keeps hkeep, ih hrest]

/-- **Nothing is dropped** of what fits into the buffer as a whole, whenever it is read. -/
theorem along_keeps {actions : List ConsoleAction} : ∀ {s : Console}, s.Sound →
    s.keyboard.pending.length + (observe Console.step handledBy s actions).length ≤ 255 →
    Along Console.step KeepsChar s actions := by
  induction actions with
  | nil => exact fun _ _ => trivial
  | cons action actions ih =>
    intro s hs hfits
    rw [observe_cons, List.length_append] at hfits
    have hkeep : KeepsChar s action := by
      intro c hdrop
      cases action with
      | interrupt scancode =>
        have hfull := step_dropped hdrop
        rw [hdrop] at hfits
        simp only [handledBy, List.length_singleton] at hfits
        omega
      | getchar =>
        have hnone := handledBy_getchar s
        rw [hdrop] at hnone
        cases hnone
    refine ⟨hkeep, ih (hs.step action).1 ?_⟩
    have hbalance := congrArg List.length (hs.step action).2
    rw [acceptedBy_of_keeps hkeep, List.length_append, List.length_append] at hbalance
    omega

/-! ## The shell -/

open Shell

/-- What an observer sees of a step: the string passed to `shell_execute_command`. -/
def commandOf (_ : ConsoleAction) (command : Option CString) : List (List Byte) :=
  (command.map CString.bytes).toList

/-- A turn with a character from the keyboard, and nothing on the serial port. -/
theorem turn_keyboard (line : ShellLine) {c : Byte} (hc : c ≠ 0) :
    Shell.turn ⟨line, []⟩ c = (⟨(line.input c).1, []⟩, (line.input c).2) := by
  simp only [Shell.turn, if_neg hc, shellSerialGetchar, ite_self]

/-- **The shell sees what `keyboard_getchar` returns**, and nothing else. -/
theorem observe_keyboardShell (actions : List ConsoleAction) : ∀ (s : Console) (line : ShellLine),
    observe KeyboardShell.step commandOf ⟨s, ⟨line, []⟩⟩ actions
      = observe ShellLine.input executed line (observe Console.step returnedBy s actions) := by
  induction actions with
  | nil => exact fun _ _ => rfl
  | cons action actions ih =>
    intro s line
    rw [observe_cons, observe_cons]
    cases hevent : (s.step action).2 with
    | returned c =>
      by_cases hc : c = 0
      · have hturn := turn_idle line
        subst hc
        simp only [KeyboardShell.step, hevent, hturn, returnedBy, if_true, List.nil_append]
        exact ih _ line
      · have hturn := turn_keyboard line hc
        simp only [KeyboardShell.step, hevent, hturn, returnedBy, if_neg hc, List.cons_append,
          List.nil_append, observe_cons]
        rw [ih]
        rfl
    | handled handled =>
      simp only [KeyboardShell.step, hevent]
      exact ih _ line
    | silent =>
      simp only [KeyboardShell.step, hevent]
      exact ih _ line

/-- The commands in a sequence of characters, with the line that there is already. -/
def commandsIn (line : List Byte) : List Byte → List (List Byte)
  | [] => []
  | c :: rest =>
    if c = newline ∨ c = carriageReturn then emit (line.rdropWhile trimmed) ++ commandsIn [] rest
    else commandsIn (editLine line c) rest

theorem observe_input (bytes : List Byte) : ∀ {s : ShellLine} {line : List Byte},
    Shell.Holds s line →
    observe ShellLine.input executed s bytes = commandsIn line bytes := by
  induction bytes with
  | nil => exact fun _ => rfl
  | cons c bytes ih =>
    intro s line h
    rw [observe_cons, commandsIn]
    by_cases hc : c = newline ∨ c = carriageReturn
    · obtain ⟨hempty, hexec⟩ := h.input_end hc
      rw [if_pos hc, hexec, hempty, ih holds_empty]
    · obtain ⟨hnext, hnone⟩ := h.input hc
      rw [if_neg hc, hnone, ih hnext]
      rfl

/-- More characters only add commands. -/
theorem commandsIn_prefix (l l' : List Byte) : ∀ line : List Byte,
    commandsIn line l <+: commandsIn line (l ++ l') := by
  induction l with
  | nil => exact fun _ => List.nil_prefix
  | cons c l ih =>
    intro line
    rw [List.cons_append, commandsIn, commandsIn]
    split
    · exact (List.prefix_append_right_inj _).mpr (ih [])
    · exact ih (editLine line c)

/-! ### Lines -/

theorem commandsIn_line {bytes : List Byte} (hbytes : ∀ b ∈ bytes, b ≠ newline ∧ b ≠ carriageReturn)
    (rest : List Byte) : ∀ line : List Byte,
    commandsIn line (bytes ++ newline :: rest)
      = emit ((bytes.foldl editLine line).rdropWhile trimmed) ++ commandsIn [] rest := by
  induction bytes with
  | nil =>
    intro line
    rw [List.nil_append, commandsIn, if_pos (.inl rfl)]
    rfl
  | cons c bytes ih =>
    intro line
    have hc := hbytes c List.mem_cons_self
    rw [List.cons_append, commandsIn, if_neg (not_or.mpr hc),
      ih (fun b hb => hbytes b (List.mem_cons_of_mem c hb)), List.foldl_cons]

theorem mem_editLine {line : List Byte} {c b : Byte} (h : b ∈ editLine line c) :
    b ∈ line ∨ b = c := by
  unfold editLine at h
  split_ifs at h
  · exact .inl h
  · exact .inl (List.mem_of_mem_dropLast h)
  · simpa using h
  · exact .inl h

/-- Editing makes up no characters. -/
theorem mem_foldl_editLine (bytes : List Byte) : ∀ {line : List Byte} {b : Byte},
    b ∈ bytes.foldl editLine line → b ∈ line ∨ b ∈ bytes := by
  induction bytes with
  | nil => exact fun h => .inl h
  | cons c bytes ih =>
    intro line b h
    rcases ih h with hline | hbytes
    · rcases mem_editLine hline with hline | rfl
      · exact .inl hline
      · exact .inr List.mem_cons_self
    · exact .inr (List.mem_cons_of_mem c hbytes)

/-- No key types a character from the upper half, or the end of a string. -/
theorem typeable_ascii {c : Byte} (h : Typeable c) :
    c ≠ 0 ∧ c ≠ carriageReturn ∧ c.toNat < 0x80 := by
  have hall : (scancodeToAsciiUs ++ scancodeToAsciiUsShift).all
      (fun c => c.toNat != 0x0D && c.toNat.blt 0x80) = true := by decide +kernel
  have hchar := List.all_eq_true.mp hall c (List.mem_append.mpr h.2)
  rw [Bool.and_eq_true, bne_iff_ne, Nat.blt_eq] at hchar
  refine ⟨h.1, ?_, hchar.2⟩
  rintro rfl
  exact hchar.1 rfl

/-- Of the characters of keys, trimming takes the blanks. -/
theorem trimmed_line {line : List Byte} (h : ∀ c ∈ line, Typeable c) :
    (line.foldl editLine []).rdropWhile trimmed = disciplined line := by
  refine rdropWhile_congr fun b hb => ?_
  have hmem : b ∈ line := (mem_foldl_editLine line hb).resolve_left List.not_mem_nil
  obtain ⟨h0, -, hlt⟩ := typeable_ascii (h b hmem)
  rw [Bool.eq_iff_iff]
  refine ⟨fun htrim => ?_, trimmed_of_blank⟩
  by_contra hblank
  exact (trimmed_iff h0 hblank).mp htrim hlt

/-- **What the shell makes of lines** is what the line discipline makes of each. -/
theorem commandsIn_linesText {lines : List (List Byte)}
    (h : ∀ line ∈ lines, ∀ c ∈ line, Typeable c ∧ c ≠ newline) :
    commandsIn [] (linesText lines) = lines.flatMap fun line => emit (disciplined line) := by
  induction lines with
  | nil => rfl
  | cons line lines ih =>
    have hline := h line List.mem_cons_self
    have hbytes : ∀ b ∈ line, b ≠ newline ∧ b ≠ carriageReturn := fun b hb =>
      ⟨(hline b hb).2, (typeable_ascii (hline b hb).1).2.1⟩
    have hrest := ih fun l hl => h l (List.mem_cons_of_mem line hl)
    rw [linesText, List.flatMap_cons, ← linesText, List.append_assoc, List.singleton_append]
    rw [show (0x0A : Byte) = newline from rfl, commandsIn_line hbytes, hrest, List.flatMap_cons,
      trimmed_line fun c hc => (hline c hc).1]

/-! ## From the keys to the commands -/

/-- The commands that are executed in a run. -/
def executedIn (s : Keyboard) (actions : List ConsoleAction) : List (List Byte) :=
  observe KeyboardShell.step commandOf (KeyboardShell.init s) actions

theorem executedIn_eq (s : Keyboard) (actions : List ConsoleAction) :
    executedIn s actions = commandsIn [] (returned s actions) :=
  (observe_keyboardShell actions (consoleInit s) .empty).trans (observe_input _ holds_empty)

/-- At most 255 more calls return all that was accepted. -/
theorem returned_drained (s : Keyboard) (actions : List ConsoleAction) :
    returned s (actions ++ List.replicate (3 * 255) .getchar) = accepted s actions := by
  have hleft : (consoleAfter s actions).left ≤ 3 * 255 := by
    have hlt := (consoleAfter s actions).keyboard.count_lt
    unfold kbBufferSize at hlt
    unfold Console.left
    split <;> omega
  have hdrained : (consoleAfter s
      (actions ++ List.replicate (3 * 255) .getchar)).keyboard.pending = [] := by
    rw [consoleAfter, run_append]
    exact (sound_consoleAfter s actions).drained hleft
  have hall := accepted_eq s (actions ++ List.replicate (3 * 255) .getchar)
  rw [accepted_append_getchar, hdrained, List.append_nil] at hall
  exact hall.symm

theorem linesText_typeable {lines : List (List Byte)}
    (h : ∀ line ∈ lines, ∀ c ∈ line, Typeable c ∧ c ≠ newline) :
    ∀ c ∈ linesText lines, Typeable c := by
  intro c hc
  obtain ⟨line, hline, hmem⟩ := List.mem_flatMap.mp hc
  rcases List.mem_append.mp hmem with hmem | hmem
  · exact (h line hline c hmem).1
  · rw [List.mem_singleton.mp hmem]
    decide

/-- **What is typed is executed.** With no shift key held and no caps lock, and with nothing on the
serial port, lines are typed on the keys of the layout, backspaces included, while the shell runs:
interrupts come at any points of the calls of `keyboard_getchar`. If the characters fit into the buffer as a whole, or are read soon
enough that none is dropped, then the commands that have been executed are the first of those that a
line discipline makes of the lines, and at most 255 more calls execute all of them. -/
theorem typed_lines_are_executed (s : Keyboard) (hflags : s.flags = .off)
    {lines : List (List Byte)} (hlines : ∀ line ∈ lines, ∀ c ∈ line, Typeable c ∧ c ≠ newline)
    {actions : List ConsoleAction} (hactions : scancodes actions = typing (linesText lines))
    (hkept : (linesText lines).length ≤ 255 ∨ Along Console.step KeepsChar (consoleInit s) actions) :
    executedIn s actions <+: (lines.flatMap fun line => emit (disciplined line)) ∧
    executedIn s (actions ++ List.replicate (3 * 255) .getchar)
      = lines.flatMap fun line => emit (disciplined line) := by
  have hhandled : observe Console.step handledBy (consoleInit s) actions = linesText lines := by
    have hinit : (consoleInit s).keyboard.flags = .off := hflags
    rw [handled_eq_decode, hinit, hactions, decode_typing (linesText_typeable hlines)]
  have hkeeps : Along Console.step KeepsChar (consoleInit s) actions := by
    refine hkept.elim (fun hshort => along_keeps (sound_consoleInit s) ?_) id
    rw [pending_consoleInit, hhandled]
    simpa using hshort
  have haccepted : accepted s actions = linesText lines :=
    (accepted_eq_handled hkeeps).trans hhandled
  rw [executedIn_eq, executedIn_eq, returned_drained, haccepted, ← commandsIn_linesText hlines]
  refine ⟨?_, rfl⟩
  rw [← haccepted, accepted_eq]
  exact commandsIn_prefix _ _ []

/-- `ps`, with a typing error in it, while the shell is slow. -/
theorem typed_lines_are_executed_ps :
    executedIn bootKeyboard
      ((typing (linesText [[0x70, 0x78, 0x08, 0x73]])).flatMap
          (fun scancode => [.interrupt scancode, .getchar]) ++
        List.replicate (3 * 255) .getchar) = [[0x70, 0x73]] := by
  have hlines : ∀ line ∈ ([[0x70, 0x78, 0x08, 0x73]] : List (List Byte)),
      ∀ c ∈ line, Typeable c ∧ c ≠ newline := by decide
  exact (typed_lines_are_executed bootKeyboard rfl hlines (by decide)
    (.inl (by decide))).2.trans (by decide)

end MinimalistOS
