import MinimalistOS.Kernel.Keyboard

/-!
# The keyboard buffer under interrupts

* `keyboardHandler_pending` — what an interrupt does to the characters that wait
* `Console.Sound` — a reader that has passed its test has a character to fetch, and the one in its
  hand is the first that waits
* `Console.Sound.step` — what a step puts in, takes out and leaves, wherever the reader stands
* `keyboard_interrupt_safe` — the characters accepted come out in order, each once

The handler writes behind the last waiting character and moves `kb_write_ptr`; the reader only
moves `kb_read_ptr`. Until it has moved it, the character it has fetched still waits, and the
handler does not write there because one entry stays free.
-/

namespace MinimalistOS

open Infra

/-! ## The characters that wait -/

/-- How many characters wait. -/
def Keyboard.count (s : Keyboard) : Nat :=
  (s.kbWritePtr + kbBufferSize - s.kbReadPtr) % kbBufferSize

/-- The characters that wait, first come first. -/
def Keyboard.pending (s : Keyboard) : List Byte := Ring.contents s.kbBuffer s.kbReadPtr s.count

@[simp] theorem length_pending (s : Keyboard) : s.pending.length = s.count := by
  simp [Keyboard.pending]

theorem Keyboard.count_lt (s : Keyboard) : s.count < kbBufferSize :=
  Nat.mod_lt _ kbBufferSize_pos

theorem Keyboard.write_eq (s : Keyboard) :
    s.kbWritePtr = (s.kbReadPtr + s.count) % kbBufferSize := by
  have hw := s.write_lt
  have hr := s.read_lt
  unfold Keyboard.count kbBufferSize at *
  omega

/-- The test of `keyboard_getchar`. -/
theorem Keyboard.empty_iff (s : Keyboard) : s.kbReadPtr = s.kbWritePtr ↔ s.pending = [] := by
  rw [s.write_eq, Ring.empty_iff s.read_lt s.count_lt, ← length_pending, List.length_eq_zero_iff]

/-- The test of `keyboard_handler`. -/
theorem Keyboard.full_iff (s : Keyboard) :
    (s.kbWritePtr + 1) % kbBufferSize = s.kbReadPtr ↔ s.pending.length = 255 := by
  rw [s.write_eq, Ring.full_iff s.read_lt s.count_lt, length_pending]
  unfold kbBufferSize
  omega

/-! ### The handler -/

/-- A character for the buffer. -/
theorem addToBuffer_pending (s : Keyboard) (c : Byte) :
    ((addToBuffer s c).2 = .stored c ∧ (addToBuffer s c).1.pending = s.pending ++ [c]) ∨
      ((addToBuffer s c).2 = .dropped c ∧ (addToBuffer s c).1 = s ∧ s.pending.length = 255) := by
  unfold addToBuffer
  by_cases hfull : (s.kbWritePtr + 1) % kbBufferSize = s.kbReadPtr
  · rw [if_neg (not_not.mpr hfull)]
    exact Or.inr ⟨rfl, rfl, s.full_iff.mp hfull⟩
  · rw [if_pos hfull]
    refine Or.inl ⟨rfl, ?_⟩
    have hcount : s.count + 1 < kbBufferSize := by
      have hlt := s.count_lt
      have hne := mt s.full_iff.mpr hfull
      rw [length_pending] at hne
      unfold kbBufferSize at *
      omega
    have hnext : ((s.kbWritePtr + 1) % kbBufferSize + kbBufferSize - s.kbReadPtr) % kbBufferSize
        = s.count + 1 := by
      have hw := s.write_lt
      have hr := s.read_lt
      unfold Keyboard.count kbBufferSize at *
      omega
    have hpush := Ring.contents_push s.kbBuffer s.kbReadPtr s.count_lt c
    rw [← show s.kbWritePtr = (s.kbReadPtr + s.count) % 256 from s.write_eq] at hpush
    unfold Keyboard.pending Keyboard.count
    rw [hnext]
    exact hpush

/-- A key that does not touch the buffer, before the keys that follow. -/
theorem pending_of_ite {s s' pressed : Keyboard} {p : Prop} [Decidable p] {rest : Option Keyboard}
    (hpressed : pressed.pending = s.pending) (hrest : rest = some s' → s'.pending = s.pending)
    (h : (if p then some pressed else rest) = some s') : s'.pending = s.pending := by
  by_cases hp : p
  · rw [if_pos hp] at h
    obtain rfl := Option.some.inj h
    exact hpressed
  · rw [if_neg hp] at h
    exact hrest h

/-- A modifier key does not touch the buffer. -/
theorem modifierKey_pending {s s' : Keyboard} {scancode : Byte}
    (h : modifierKey s scancode = some s') : s'.pending = s.pending := by
  unfold modifierKey at h
  revert h
  iterate 9 refine pending_of_ite rfl ?_
  intro h
  cases h

/-- **What an interrupt does.** It appends a character that is not zero, or it drops one because
255 wait, or it leaves the waiting characters alone. -/
theorem keyboardHandler_pending (s : Keyboard) (scancode : Byte) :
    (∃ c, c ≠ 0 ∧ (keyboardHandler s scancode).2 = .stored c ∧
      (keyboardHandler s scancode).1.pending = s.pending ++ [c]) ∨
    (∃ c, (keyboardHandler s scancode).2 = .dropped c ∧ (keyboardHandler s scancode).1 = s ∧
      s.pending.length = 255) ∨
    ((keyboardHandler s scancode).2 = .nothing ∧
      (keyboardHandler s scancode).1.pending = s.pending) := by
  have hadd : ∀ c, c ≠ 0 →
      (∃ c', c' ≠ 0 ∧ (addToBuffer s c).2 = .stored c' ∧
        (addToBuffer s c).1.pending = s.pending ++ [c']) ∨
      (∃ c', (addToBuffer s c).2 = .dropped c' ∧ (addToBuffer s c).1 = s ∧
        s.pending.length = 255) ∨
      ((addToBuffer s c).2 = .nothing ∧ (addToBuffer s c).1.pending = s.pending) := by
    intro c hc
    rcases addToBuffer_pending s c with ⟨hstored, hpending⟩ | ⟨hdropped, hsame, hfull⟩
    · exact Or.inl ⟨c, hc, hstored, hpending⟩
    · exact Or.inr (Or.inl ⟨c, hdropped, hsame, hfull⟩)
  unfold keyboardHandler
  split
  · exact hadd 0x08 (by simp)
  · split
    · next hmod => exact Or.inr (Or.inr ⟨rfl, modifierKey_pending hmod⟩)
    · split
      · exact Or.inr (Or.inr ⟨rfl, rfl⟩)
      · split
        · split
          · next hchar => exact hadd _ hchar
          · exact Or.inr (Or.inr ⟨rfl, rfl⟩)
        · exact Or.inr (Or.inr ⟨rfl, rfl⟩)

/-! ### The reader -/

/-- Moving the index takes the first character out. -/
theorem advanceRead_pending {s : Keyboard} (h : s.pending ≠ []) :
    s.pending = slot s.kbBuffer s.kbReadPtr :: (advanceRead s).pending := by
  have hpos : s.count ≠ 0 := by
    intro h0
    rw [← length_pending, List.length_eq_zero_iff] at h0
    exact h h0
  have hnext : (advanceRead s).count + 1 = s.count := by
    have hw := s.write_lt
    have hr := s.read_lt
    unfold Keyboard.count advanceRead kbBufferSize at *
    simp only at *
    omega
  have hpop := Ring.contents_pop s.kbBuffer s.read_lt (advanceRead s).count
  rw [hnext] at hpop
  exact hpop

/-- `keyboard_getchar` on its own: the first character, or zero when none waits. -/
theorem keyboardGetchar_eq (s : Keyboard) :
    keyboardGetchar s = match s.pending with
      | [] => (s, 0)
      | c :: _ => (advanceRead s, c) := by
  unfold keyboardGetchar
  by_cases hempty : s.kbReadPtr = s.kbWritePtr
  · rw [if_pos hempty, s.empty_iff.mp hempty]
  · have hne := mt s.empty_iff.mpr hempty
    rw [if_neg hempty, advanceRead_pending hne]

/-! ## The reader and the handler together -/

/-- What waits is not zero. A reader that has passed its test finds something, and one with a
character in hand holds the first that waits. -/
structure Console.Sound (s : Console) : Prop where
  nonzero : ∀ c ∈ s.keyboard.pending, c ≠ 0
  tested : s.reader = .tested → s.keyboard.pending ≠ []
  fetched : ∀ c, s.reader = .fetched c → s.keyboard.pending.head? = some c

/-- The characters the handler accepts. -/
def acceptedBy : ConsoleAction → ConsoleEvent → List Byte
  | _, .handled (.stored c) => [c]
  | _, _ => []

/-- The characters other than zero that `keyboard_getchar` returns. -/
def returnedBy : ConsoleAction → ConsoleEvent → List Byte
  | _, .returned c => if c = 0 then [] else [c]
  | _, _ => []

/-- An interrupt, wherever the reader stands. -/
theorem Console.Sound.interrupt {s : Console} (h : s.Sound) (scancode : Byte) :
    (s.step (.interrupt scancode)).1.Sound ∧
      s.keyboard.pending ++ acceptedBy (.interrupt scancode) (s.step (.interrupt scancode)).2
        = (s.step (.interrupt scancode)).1.keyboard.pending := by
  simp only [Console.step]
  rcases keyboardHandler_pending s.keyboard scancode with
    ⟨c, hc, hevent, hpending⟩ | ⟨c, hevent, hsame, -⟩ | ⟨hevent, hpending⟩
  · rw [hevent]
    refine ⟨⟨?_, ?_, ?_⟩, hpending.symm⟩
    · intro b hb
      simp only [hpending, List.mem_append, List.mem_singleton] at hb
      rcases hb with hb | rfl
      · exact h.nonzero b hb
      · exact hc
    · intro _
      simp [hpending]
    · intro b hb
      simp [hpending, h.fetched b hb]
  · rw [hevent, hsame]
    exact ⟨⟨h.nonzero, h.tested, h.fetched⟩, List.append_nil _⟩
  · rw [hevent]
    refine ⟨⟨?_, ?_, ?_⟩, ?_⟩
    · simpa only [hpending] using h.nonzero
    · simpa only [hpending] using h.tested
    · simpa only [hpending] using h.fetched
    · simp only [acceptedBy, List.append_nil, hpending]

/-- A step of the reader. -/
theorem Console.Sound.getchar {s : Console} (h : s.Sound) :
    (s.step .getchar).1.Sound ∧
      s.keyboard.pending
        = returnedBy .getchar (s.step .getchar).2 ++ (s.step .getchar).1.keyboard.pending := by
  cases hreader : s.reader with
  | idle =>
    simp only [Console.step, hreader]
    by_cases hempty : s.keyboard.kbReadPtr = s.keyboard.kbWritePtr
    · rw [if_pos hempty]
      exact ⟨h, rfl⟩
    · rw [if_neg hempty]
      have hne := mt s.keyboard.empty_iff.mpr hempty
      refine ⟨⟨h.nonzero, fun _ => hne, ?_⟩, rfl⟩
      intro c hc
      cases hc
  | tested =>
    simp only [Console.step, hreader]
    have hfirst := advanceRead_pending (h.tested hreader)
    refine ⟨⟨h.nonzero, ?_, ?_⟩, rfl⟩
    · intro ht
      cases ht
    · intro c hc
      cases hc
      simp [hfirst]
  | fetched c =>
    simp only [Console.step, hreader]
    have hhead := h.fetched c hreader
    have hne : s.keyboard.pending ≠ [] := by
      intro hnil
      simp [hnil] at hhead
    have hfirst := advanceRead_pending hne
    -- what was fetched is what stands there still
    have hc : slot s.keyboard.kbBuffer s.keyboard.kbReadPtr = c := by
      rw [hfirst, List.head?_cons] at hhead
      exact Option.some.inj hhead
    rw [hc] at hfirst
    have hzero : c ≠ 0 := h.nonzero c (by rw [hfirst]; exact List.mem_cons_self)
    refine ⟨⟨?_, ?_, ?_⟩, ?_⟩
    · intro b hb
      exact h.nonzero b (by rw [hfirst]; exact List.mem_cons_of_mem c hb)
    · intro ht
      cases ht
    · intro b hb
      cases hb
    · simp only [returnedBy, if_neg hzero]
      exact hfirst

/-- The reader accepts nothing. -/
theorem acceptedBy_getchar (s : Console) : acceptedBy .getchar (s.step .getchar).2 = [] := by
  simp only [Console.step]
  split
  · split
    · rfl
    · rfl
  · rfl
  · rfl

/-- **What a step puts in, takes out and leaves.** -/
theorem Console.Sound.step {s : Console} (h : s.Sound) (action : ConsoleAction) :
    (s.step action).1.Sound ∧
      s.keyboard.pending ++ acceptedBy action (s.step action).2
        = returnedBy action (s.step action).2 ++ (s.step action).1.keyboard.pending := by
  cases action with
  | interrupt scancode => exact h.interrupt scancode
  | getchar =>
    obtain ⟨hsound, hpending⟩ := h.getchar
    refine ⟨hsound, ?_⟩
    rw [← hpending, acceptedBy_getchar, List.append_nil]

/-! ### Draining -/

/-- The steps of the reader until nothing waits any more: three for a character, less those it has
already made. -/
def Console.left (s : Console) : Nat :=
  match s.reader with
  | .idle => 3 * s.keyboard.count
  | .tested => 3 * s.keyboard.count - 1
  | .fetched _ => 3 * s.keyboard.count - 2

theorem Console.Sound.left_getchar {s : Console} (h : s.Sound) :
    (s.step .getchar).1.left ≤ s.left - 1 := by
  cases hreader : s.reader with
  | idle =>
    simp only [Console.step, hreader]
    by_cases hempty : s.keyboard.kbReadPtr = s.keyboard.kbWritePtr
    · have hzero : s.keyboard.count = 0 := by
        rw [← length_pending, s.keyboard.empty_iff.mp hempty, List.length_nil]
      rw [if_pos hempty]
      simp [Console.left, hreader, hzero]
    · rw [if_neg hempty]
      simp [Console.left, hreader]
  | tested =>
    simp only [Console.step, hreader, Console.left]
    omega
  | fetched c =>
    have hne : s.keyboard.pending ≠ [] := by
      intro hnil
      have hhead := h.fetched c hreader
      simp [hnil] at hhead
    have hlength := congrArg List.length (advanceRead_pending hne)
    rw [List.length_cons, length_pending, length_pending] at hlength
    simp only [Console.step, hreader, Console.left]
    omega

/-- Enough steps of the reader leave nothing behind. -/
theorem Console.Sound.drained {s : Console} (h : s.Sound) {n : Nat} (hn : s.left ≤ n) :
    (run Console.step s (List.replicate n .getchar)).keyboard.pending = [] := by
  induction n generalizing s with
  | zero =>
    have hcount : s.keyboard.pending.length = 0 := by
      rw [length_pending]
      cases hreader : s.reader with
      | idle =>
        simp only [Console.left, hreader] at hn
        omega
      | tested =>
        simp only [Console.left, hreader] at hn
        omega
      | fetched c =>
        simp only [Console.left, hreader] at hn
        omega
    exact List.length_eq_zero_iff.mp hcount
  | succ n ih =>
    have hstep := h.left_getchar
    exact ih h.getchar.1 (by omega)

/-! ## Runs -/

/-- The driver after `keyboard_init`, and no call of `keyboard_getchar` under way. -/
def consoleInit (s : Keyboard) : Console where
  keyboard := keyboardInit s
  reader := .idle

/-- The characters the handler accepts in the course of a run. -/
def accepted (s : Keyboard) (actions : List ConsoleAction) : List Byte :=
  observe Console.step acceptedBy (consoleInit s) actions

/-- The characters other than zero that `keyboard_getchar` returns in the course of a run. -/
def returned (s : Keyboard) (actions : List ConsoleAction) : List Byte :=
  observe Console.step returnedBy (consoleInit s) actions

/-- The driver and its reader after a run. -/
def consoleAfter (s : Keyboard) (actions : List ConsoleAction) : Console :=
  run Console.step (consoleInit s) actions

theorem pending_consoleInit (s : Keyboard) : (consoleInit s).keyboard.pending = [] :=
  (keyboardInit s).empty_iff.mp rfl

theorem sound_consoleInit (s : Keyboard) : (consoleInit s).Sound where
  nonzero c hc := by
    rw [pending_consoleInit] at hc
    cases hc
  tested h := by cases h
  fetched c h := by cases h

theorem sound_consoleAfter (s : Keyboard) (actions : List ConsoleAction) :
    (consoleAfter s actions).Sound :=
  inv_run_of_forall Console.step (fun _ action hs => (hs.step action).1) actions
    (sound_consoleInit s)

/-- What was accepted is what was returned and what waits. -/
theorem accepted_eq (s : Keyboard) (actions : List ConsoleAction) :
    accepted s actions = returned s actions ++ (consoleAfter s actions).keyboard.pending := by
  have hbalance := observe_balance Console.step (I := Console.Sound)
    (fun s => s.keyboard.pending) (fun _ action hs => hs.step action)
    (sound_consoleInit s) actions
  simp only [pending_consoleInit, List.nil_append] at hbalance
  exact hbalance

theorem accepted_append_getchar (s : Keyboard) (actions : List ConsoleAction) (n : Nat) :
    accepted s (actions ++ List.replicate n .getchar) = accepted s actions := by
  have hnone : ∀ t : Console,
      observe Console.step acceptedBy t (List.replicate n .getchar) = [] := by
    induction n with
    | zero => intro t; rfl
    | succ n ih =>
      intro t
      rw [List.replicate_succ, observe_cons, acceptedBy_getchar, ih, List.append_nil]
  rw [accepted, observe_append, hnone, List.append_nil]
  rfl

/-- The handler drops a character only when 255 wait. -/
theorem step_dropped {s : Console} {scancode c : Byte}
    (h : (s.step (.interrupt scancode)).2 = .handled (.dropped c)) :
    s.keyboard.pending.length = 255 := by
  have hdropped : (keyboardHandler s.keyboard scancode).2 = .dropped c :=
    ConsoleEvent.handled.inj h
  rcases keyboardHandler_pending s.keyboard scancode with
    ⟨c', -, hevent, -⟩ | ⟨c', -, -, hfull⟩ | ⟨hevent, -⟩
  · rw [hevent] at hdropped
    cases hdropped
  · exact hfull
  · rw [hevent] at hdropped
    cases hdropped

/-- `keyboard_getchar` returns zero from its test only, and only when nothing waits. -/
theorem Console.Sound.returned_zero {s : Console} (h : s.Sound)
    (hzero : (s.step .getchar).2 = .returned 0) : s.reader = .idle ∧ s.keyboard.pending = [] := by
  cases hreader : s.reader with
  | idle =>
    simp only [Console.step, hreader] at hzero
    split at hzero
    · next hempty => exact ⟨rfl, s.keyboard.empty_iff.mp hempty⟩
    · simp at hzero
  | tested => simp [Console.step, hreader] at hzero
  | fetched c =>
    simp only [Console.step, hreader, ConsoleEvent.returned.injEq] at hzero
    have hmem : c ∈ s.keyboard.pending := List.mem_of_head? (h.fetched c hreader)
    exact absurd hzero (h.nonzero c hmem)

/--
**The keyboard buffer is safe under interrupts.**

After `keyboard_init`, for any interrupts at any points of any calls of `keyboard_getchar`: the
characters it has returned are the first of those the handler has accepted, in order, and at most
255 more calls return all of them. A character is dropped only when 255 wait, and
`keyboard_getchar` returns zero only when none waits at its test.
-/
theorem keyboard_interrupt_safe (s : Keyboard) (actions : List ConsoleAction) :
    returned s actions <+: accepted s actions ∧
      returned s (actions ++ List.replicate (3 * 255) .getchar) = accepted s actions ∧
      (∀ scancode c, ((consoleAfter s actions).step (.interrupt scancode)).2
          = .handled (.dropped c) →
        (accepted s actions).length = (returned s actions).length + 255) ∧
      (((consoleAfter s actions).step .getchar).2 = .returned 0 →
        (consoleAfter s actions).reader = .idle ∧
          (accepted s actions).length = (returned s actions).length) := by
  have hsound := sound_consoleAfter s actions
  have haccepted := accepted_eq s actions
  have hlength : (accepted s actions).length
      = (returned s actions).length + (consoleAfter s actions).keyboard.pending.length := by
    rw [haccepted, List.length_append]
  refine ⟨⟨_, haccepted.symm⟩, ?_, ?_, ?_⟩
  · have hleft : (consoleAfter s actions).left ≤ 3 * 255 := by
      have hlt := (consoleAfter s actions).keyboard.count_lt
      unfold kbBufferSize at hlt
      unfold Console.left
      split <;> omega
    have hdrained := hsound.drained hleft
    have hall := accepted_eq s (actions ++ List.replicate (3 * 255) .getchar)
    rw [accepted_append_getchar] at hall
    rw [hall, consoleAfter, run_append]
    refine (List.append_nil _).symm.trans ?_
    rw [← hdrained]
    rfl
  · intro scancode c hdropped
    rw [hlength, step_dropped hdropped]
  · intro hzero
    obtain ⟨hreader, hempty⟩ := hsound.returned_zero hzero
    refine ⟨hreader, ?_⟩
    rw [hlength, hempty]
    rfl

/-- The static data before `keyboard_init`. -/
def bootKeyboard : Keyboard where
  shiftPressed := false
  ctrlPressed := false
  altPressed := false
  capsLock := false
  numLock := false
  scrollLock := false
  kbBuffer := Vector.replicate 256 0
  kbWritePtr := 0
  kbReadPtr := 0
  write_lt := kbBufferSize_pos
  read_lt := kbBufferSize_pos

/-- A key is pressed between the test and the read of the first of two calls; a third call finds
nothing. -/
theorem keyboard_interrupt_safe_two_keys :
    ((consoleAfter bootKeyboard ([.interrupt 0x10, .getchar, .interrupt 0x11] ++
        List.replicate 5 .getchar)).step .getchar).2 = .returned 0 ∧
      (accepted bootKeyboard ([.interrupt 0x10, .getchar, .interrupt 0x11] ++
          List.replicate 5 .getchar)).length
        = (returned bootKeyboard ([.interrupt 0x10, .getchar, .interrupt 0x11] ++
          List.replicate 5 .getchar)).length := by
  have hzero : ((consoleAfter bootKeyboard ([.interrupt 0x10, .getchar, .interrupt 0x11] ++
      List.replicate 5 .getchar)).step .getchar).2 = .returned 0 := by decide
  exact ⟨hzero, ((keyboard_interrupt_safe bootKeyboard _).2.2.2 hzero).2⟩

end MinimalistOS
