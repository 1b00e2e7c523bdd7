import MinimalistOS.Properties.Vga

/-!
# What is written to video memory

* `callWrites` — the indices of the cells that a call writes, in order
* `step_frame`, `step_stores` — no other cell changes, and a cell beside the screen does
* `putchar_cases` — what a character writes and where it leaves the cursor
* `OnScreen` — a cursor from which every character stays on the screen
* `vga_writes_on_screen_iff` — when every write of a run is on the screen

`vga_putchar` brings a cursor back that is too far right or down, and `vga_set_cursor` refuses
coordinates that are not on the screen. `vga_print_at` takes what it gets, and nothing tests for a
cursor that is too far left or up.
-/

namespace MinimalistOS

open Infra

/-! ## Writes -/

/-- The cells of row `y` from column `x` on, as the loops over a row write them. -/
def rowWrites (y : Int) (x : Nat) : Nat → List Int
  | 0 => []
  | n + 1 => (y * vgaWidth + x) :: rowWrites y (x + 1) n

/-- The cells of `n` rows, as the loops over rows write them. -/
def rowsWrites (y : Nat) : Nat → List Int
  | 0 => []
  | n + 1 => rowWrites y 0 vgaWidth ++ rowsWrites (y + 1) n

/-- The cells that `vga_scroll` writes: the rows that are copied, and the last one. -/
def scrollWrites : List Int :=
  rowsWrites 0 (vgaHeight - 1) ++ rowWrites (vgaHeight - 1 : Nat) 0 vgaWidth

/-- Where a backspace moves the cursor. -/
def Vga.stepBack (s : Vga) : Vga :=
  if 0 < s.cursorX then { s with cursorX := s.cursorX - 1 }
  else if 0 < s.cursorY then { s with cursorY := s.cursorY - 1, cursorX := vgaWidth - 1 }
  else s

/-- The cell that a branch of `vga_putchar` writes. -/
def Vga.charWrites (s : Vga) (c : Byte) : List Int :=
  if c = 0x0A ∨ c = 0x0D then []
  else if c = 0x08 then [s.stepBack.cursorY * vgaWidth + s.stepBack.cursorX]
  else if c = 0x09 then []
  else if 0x20 ≤ c.toInt then
    if vgaWidth ≤ s.cursorX then [(s.cursorY + 1) * vgaWidth]
    else [s.cursorY * vgaWidth + s.cursorX]
  else []

def Vga.putcharWrites (s : Vga) (c : Byte) : List Int :=
  s.clampCursor.charWrites c ++
    if vgaHeight ≤ (s.clampCursor.write c).cursorY then scrollWrites else []

def Vga.printWrites (s : Vga) : List Byte → List Int
  | [] => []
  | c :: str => s.putcharWrites c ++ Vga.printWrites (vgaPutchar s c) str

/-- The indices of the cells that a call writes. -/
def Vga.callWrites (s : Vga) : VgaCall → List Int
  | .init => rowsWrites 0 vgaHeight
  | .clear => rowsWrites 0 vgaHeight
  | .putchar c => s.putcharWrites c
  | .print str => s.printWrites str.bytes
  | .scroll => scrollWrites
  | .setCursor _ _ => []
  | .printAt str x y => Vga.printWrites { s with cursorX := x, cursorY := y } str.bytes
  | .setColor _ _ => []

/-! ## No other cell changes -/

theorem setCell_of_ne (s : Vga) {i j : Int} (h : i ≠ j) (cell : Cell) :
    (s.setCell j cell).vga i = s.vga i :=
  Function.update_of_ne h _ _

theorem blankRow_frame (y : Int) (n : Nat) {i : Int} : ∀ (s : Vga) (x : Nat),
    i ∉ rowWrites y x n → (blankRow s y x n).vga i = s.vga i := by
  induction n with
  | zero => intro s x _; rfl
  | succ n ih =>
    intro s x hi
    rw [rowWrites, List.mem_cons, not_or] at hi
    rw [blankRow, ih _ _ hi.2, vgaPutcharAt, setCell_of_ne s hi.1]

theorem blankRows_frame (n : Nat) {i : Int} : ∀ (s : Vga) (y : Nat),
    i ∉ rowsWrites y n → (blankRows s y n).vga i = s.vga i := by
  induction n with
  | zero => intro s y _; rfl
  | succ n ih =>
    intro s y hi
    rw [rowsWrites, List.mem_append, not_or] at hi
    rw [blankRows, ih _ _ hi.2, blankRow_frame y vgaWidth s 0 hi.1]

theorem copyRowUp_frame (y n : Nat) {i : Int} : ∀ (s : Vga) (x : Nat),
    i ∉ rowWrites y x n → (copyRowUp s y x n).vga i = s.vga i := by
  induction n with
  | zero => intro s x _; rfl
  | succ n ih =>
    intro s x hi
    rw [rowWrites, List.mem_cons, not_or] at hi
    rw [copyRowUp, ih _ _ hi.2, setCell_of_ne s hi.1]

theorem copyRowsUp_frame (n : Nat) {i : Int} : ∀ (s : Vga) (y : Nat),
    i ∉ rowsWrites y n → (copyRowsUp s y n).vga i = s.vga i := by
  induction n with
  | zero => intro s y _; rfl
  | succ n ih =>
    intro s y hi
    rw [rowsWrites, List.mem_append, not_or] at hi
    rw [copyRowsUp, ih _ _ hi.2, copyRowUp_frame y vgaWidth s 0 hi.1]

theorem vgaScroll_frame (s : Vga) {i : Int} (hi : i ∉ scrollWrites) :
    (vgaScroll s).vga i = s.vga i := by
  rw [scrollWrites, List.mem_append, not_or] at hi
  rw [vgaScroll, blankRow_frame _ _ _ _ hi.2, copyRowsUp_frame _ _ _ hi.1]

theorem vgaClear_frame (s : Vga) {i : Int} (hi : i ∉ rowsWrites 0 vgaHeight) :
    (vgaClear s).vga i = s.vga i := by
  simp only [vgaClear]
  rw [blankRows_frame vgaHeight s 0 hi]

@[simp] theorem stepBack_vga (s : Vga) : s.stepBack.vga = s.vga := by
  unfold Vga.stepBack
  split_ifs <;> rfl

theorem write_backspace (s : Vga) :
    s.write 0x08 = vgaPutcharAt s.stepBack 0x20 s.stepBack.currentColor s.stepBack.cursorX
      s.stepBack.cursorY := by
  rw [Vga.write, if_neg (by decide), if_pos rfl]
  rfl

theorem write_tab (s : Vga) : s.write 0x09 = { s with cursorX := (s.cursorX + 8) / 8 * 8 } := by
  rw [Vga.write, if_neg (by decide), if_neg (by decide), if_pos rfl]

theorem write_hidden {s : Vga} {c : Byte} (h : Plain c) (hc : ¬ 0x20 ≤ c.toInt) :
    s.write c = s := by
  rw [Vga.write, if_neg h.1, if_neg h.2.1, if_neg h.2.2, if_neg hc]

theorem charWrites_shown {s : Vga} {c : Byte} (h : Plain c) (hc : 0x20 ≤ c.toInt)
    (hx : s.cursorX < vgaWidth) : s.charWrites c = [s.cursorY * vgaWidth + s.cursorX] := by
  rw [Vga.charWrites, if_neg h.1, if_neg h.2.1, if_neg h.2.2, if_pos hc,
    if_neg (Int.not_le.mpr hx)]

theorem charWrites_hidden {s : Vga} {c : Byte} (h : Plain c) (hc : ¬ 0x20 ≤ c.toInt) :
    s.charWrites c = [] := by
  rw [Vga.charWrites, if_neg h.1, if_neg h.2.1, if_neg h.2.2, if_neg hc]

/-- The characters, by what `vga_putchar` does with them. -/
theorem char_cases (c : Byte) : (c = 0x0A ∨ c = 0x0D) ∨ c = 0x08 ∨ c = 0x09 ∨
    (Plain c ∧ 0x20 ≤ c.toInt) ∨ (Plain c ∧ ¬ 0x20 ≤ c.toInt) := by
  unfold Plain
  tauto

theorem clampCursor_lt (s : Vga) :
    s.clampCursor.cursorX < vgaWidth ∧ s.clampCursor.cursorY < vgaHeight := by
  simp only [Vga.clampCursor]
  constructor
  · split
    · decide
    · omega
  · split
    · decide
    · omega

theorem write_frame {s : Vga} {c : Byte} {i : Int} (hx : s.cursorX < vgaWidth)
    (hi : i ∉ s.charWrites c) : (s.write c).vga i = s.vga i := by
  rcases char_cases c with hc | rfl | rfl | ⟨hc, hshown⟩ | ⟨hc, hhidden⟩
  · rw [write_newline hc]
  · have hne : i ≠ s.stepBack.cursorY * vgaWidth + s.stepBack.cursorX := by
      simpa [Vga.charWrites] using hi
    rw [write_backspace, vgaPutcharAt, setCell_of_ne _ hne, stepBack_vga]
  · rw [write_tab]
  · have hne : i ≠ s.cursorY * vgaWidth + s.cursorX := by
      simpa [charWrites_shown hc hshown hx] using hi
    rw [write_shown hc hshown hx]
    exact setCell_of_ne s hne _
  · rw [write_hidden hc hhidden]

/-- A cell that is not scrolled is as the branch for the character left it. -/
theorem putchar_vga {s : Vga} {c : Byte} {i : Int}
    (hi : vgaHeight ≤ (s.clampCursor.write c).cursorY → i ∉ scrollWrites) :
    (vgaPutchar s c).vga i = (s.clampCursor.write c).vga i := by
  rw [vgaPutchar]
  by_cases hy : vgaHeight ≤ (s.clampCursor.write c).cursorY
  · simp only [if_pos hy]
    exact vgaScroll_frame _ (hi hy)
  · simp only [if_neg hy]

theorem putchar_frame {s : Vga} {c : Byte} {i : Int} (hi : i ∉ s.putcharWrites c) :
    (vgaPutchar s c).vga i = s.vga i := by
  rw [Vga.putcharWrites, List.mem_append, not_or] at hi
  have hwrite : (s.clampCursor.write c).vga i = s.vga i :=
    write_frame (clampCursor_lt s).1 hi.1
  rw [← hwrite]
  refine putchar_vga fun hy => ?_
  rw [if_pos hy] at hi
  exact hi.2

theorem print_frame {i : Int} (str : List Byte) : ∀ s : Vga, i ∉ s.printWrites str →
    (str.foldl vgaPutchar s).vga i = s.vga i := by
  induction str with
  | nil => intro s _; rfl
  | cons c str ih =>
    intro s hi
    rw [Vga.printWrites, List.mem_append, not_or] at hi
    rw [List.foldl_cons, ih _ hi.2, putchar_frame hi.1]

/-- **A call changes no cell but those it writes.** -/
theorem step_frame {s : Vga} {call : VgaCall} {i : Int} (hi : i ∉ s.callWrites call) :
    (s.step call).1.vga i = s.vga i := by
  cases call with
  | init => exact vgaClear_frame _ hi
  | clear => exact vgaClear_frame _ hi
  | putchar c => exact putchar_frame hi
  | print str => exact print_frame str.bytes s hi
  | scroll => exact vgaScroll_frame s hi
  | setCursor x y =>
    simp only [Vga.step, vgaSetCursor]
    split <;> rfl
  | printAt str x y => exact print_frame str.bytes _ hi
  | setColor fg bg => rfl

/-! ## The cursor -/

/-- The column after a cursor behind the last one is brought back. -/
def clampX (x : Int) : Int := if vgaWidth ≤ x then 0 else x

/-- The row after a cursor below the last one is brought back. -/
def clampY (y : Int) : Int := if vgaHeight ≤ y then vgaHeight - 1 else y

theorem clampX_lt (x : Int) : clampX x < 80 := by
  unfold clampX vgaWidth
  split <;> omega

theorem clampY_lt (y : Int) : clampY y < 25 := by
  unfold clampY vgaHeight
  split <;> omega

/-- The cursor is here. -/
def Vga.CursorAt (s : Vga) (x y : Int) : Prop := s.cursorX = x ∧ s.cursorY = y

/-- What is left to do after a branch of `vga_putchar` that stays on its row or above. -/
theorem putchar_of_lt {s : Vga} {c : Byte} (h : (s.clampCursor.write c).cursorY < vgaHeight) :
    s.putcharWrites c = s.clampCursor.charWrites c ∧ vgaPutchar s c = s.clampCursor.write c := by
  constructor
  · rw [Vga.putcharWrites, if_neg (Int.not_le.mpr h), List.append_nil]
  · simp only [vgaPutchar, if_neg (Int.not_le.mpr h)]

theorem putchar_newline {s : Vga} {c : Byte} (hc : c = 0x0A ∨ c = 0x0D) :
    (∀ i ∈ s.putcharWrites c, i ∈ scrollWrites) ∧
    (vgaPutchar s c).CursorAt 0 (min (clampY s.cursorY + 1) 24) := by
  have hlt := clampY_lt s.cursorY
  have hy : s.clampCursor.cursorY = clampY s.cursorY := rfl
  have hwrites : s.clampCursor.charWrites c = [] := by rw [Vga.charWrites, if_pos hc]
  have hwrite := write_newline (s := s.clampCursor) hc
  by_cases hlast : clampY s.cursorY + 1 < 25
  · obtain ⟨hputs, hput⟩ := putchar_of_lt (s := s) (c := c) (by rw [hwrite, hy]; exact hlast)
    rw [hputs, hput, hwrites, hwrite]
    refine ⟨by simp, rfl, ?_⟩
    simp only [hy]
    omega
  · have hscroll : (vgaHeight : Int) ≤ (s.clampCursor.write c).cursorY := by
      rw [hwrite, hy]
      unfold vgaHeight
      simp only
      omega
    constructor
    · rw [Vga.putcharWrites, hwrites, if_pos hscroll]
      simp
    · have hcolumn : (vgaScroll (s.clampCursor.write c)).cursorX = 0 := by
        rw [(vgaScroll_onlyCells _).cursorX, hwrite]
      simp only [Vga.CursorAt, vgaPutchar, if_pos hscroll, hcolumn, true_and]
      unfold vgaHeight
      omega

/-- A backspace stays on the rows of the screen, so nothing is scrolled. -/
theorem putchar_backspace_eq (s : Vga) :
    s.putcharWrites 0x08
        = [s.clampCursor.stepBack.cursorY * vgaWidth + s.clampCursor.stepBack.cursorX] ∧
      vgaPutchar s 0x08 = vgaPutcharAt s.clampCursor.stepBack 0x20
        s.clampCursor.stepBack.currentColor s.clampCursor.stepBack.cursorX
        s.clampCursor.stepBack.cursorY := by
  have hwrites : s.clampCursor.charWrites 0x08
      = [s.clampCursor.stepBack.cursorY * vgaWidth + s.clampCursor.stepBack.cursorX] := by
    rw [Vga.charWrites, if_neg (by decide), if_pos rfl]
  have hrow : s.clampCursor.stepBack.cursorY < vgaHeight := by
    have hlt := (clampCursor_lt s).2
    unfold Vga.stepBack
    split_ifs
    · exact hlt
    · simp only
      omega
    · exact hlt
  have hcursor : (s.clampCursor.write 0x08).cursorY = s.clampCursor.stepBack.cursorY := by
    rw [write_backspace]
    rfl
  obtain ⟨hputs, hput⟩ := putchar_of_lt (s := s) (c := 0x08) (by rw [hcursor]; exact hrow)
  exact ⟨hputs.trans hwrites, hput.trans (write_backspace s.clampCursor)⟩

theorem putchar_backspace (s : Vga) :
    ∃ x y, (vgaPutchar s 0x08).CursorAt x y ∧ s.putcharWrites 0x08 = [y * vgaWidth + x] ∧
      (0 < clampX s.cursorX ∧ x = clampX s.cursorX - 1 ∧ y = clampY s.cursorY ∨
        clampX s.cursorX ≤ 0 ∧ 0 < clampY s.cursorY ∧ x = 79 ∧ y = clampY s.cursorY - 1 ∨
        clampX s.cursorX ≤ 0 ∧ clampY s.cursorY ≤ 0 ∧ x = clampX s.cursorX ∧
          y = clampY s.cursorY) := by
  have hx : s.clampCursor.cursorX = clampX s.cursorX := rfl
  have hy : s.clampCursor.cursorY = clampY s.cursorY := rfl
  have hback : (0 < clampX s.cursorX ∧ s.clampCursor.stepBack.cursorX = clampX s.cursorX - 1 ∧
        s.clampCursor.stepBack.cursorY = clampY s.cursorY ∨
      clampX s.cursorX ≤ 0 ∧ 0 < clampY s.cursorY ∧ s.clampCursor.stepBack.cursorX = 79 ∧
        s.clampCursor.stepBack.cursorY = clampY s.cursorY - 1 ∨
      clampX s.cursorX ≤ 0 ∧ clampY s.cursorY ≤ 0 ∧
        s.clampCursor.stepBack.cursorX = clampX s.cursorX ∧
        s.clampCursor.stepBack.cursorY = clampY s.cursorY) := by
    unfold Vga.stepBack
    rw [hx, hy]
    split_ifs with h0 h1
    · exact Or.inl ⟨h0, rfl, rfl⟩
    · exact Or.inr (Or.inl ⟨Int.not_lt.mp h0, h1, rfl, rfl⟩)
    · exact Or.inr (Or.inr ⟨Int.not_lt.mp h0, Int.not_lt.mp h1, rfl, rfl⟩)
  obtain ⟨hwrites, hput⟩ := putchar_backspace_eq s
  refine ⟨s.clampCursor.stepBack.cursorX, s.clampCursor.stepBack.cursorY, ?_, hwrites, hback⟩
  rw [hput]
  exact ⟨rfl, rfl⟩

theorem putchar_tab (s : Vga) :
    s.putcharWrites 0x09 = [] ∧
    (vgaPutchar s 0x09).CursorAt ((clampX s.cursorX + 8) / 8 * 8) (clampY s.cursorY) := by
  have hlt := clampY_lt s.cursorY
  have hwrites : s.clampCursor.charWrites 0x09 = [] := by
    rw [Vga.charWrites, if_neg (by decide), if_neg (by decide), if_pos rfl]
  obtain ⟨hputs, hput⟩ := putchar_of_lt (s := s) (c := 0x09) (by rw [write_tab]; exact hlt)
  rw [hputs, hput, hwrites, write_tab]
  exact ⟨rfl, rfl, rfl⟩

theorem putchar_shown {s : Vga} {c : Byte} (h : Plain c) (hc : 0x20 ≤ c.toInt) :
    s.putcharWrites c = [clampY s.cursorY * vgaWidth + clampX s.cursorX] ∧
    (vgaPutchar s c).CursorAt (clampX s.cursorX + 1) (clampY s.cursorY) := by
  have hlt := clampY_lt s.cursorY
  have hx := (clampCursor_lt s).1
  obtain ⟨hputs, hput⟩ := putchar_of_lt (s := s) (c := c) (by rw [write_shown h hc hx]; exact hlt)
  rw [hputs, hput, charWrites_shown h hc hx, write_shown h hc hx]
  exact ⟨rfl, rfl, rfl⟩

theorem putchar_hidden {s : Vga} {c : Byte} (h : Plain c) (hc : ¬ 0x20 ≤ c.toInt) :
    s.putcharWrites c = [] ∧ (vgaPutchar s c).CursorAt (clampX s.cursorX) (clampY s.cursorY) := by
  have hlt := clampY_lt s.cursorY
  obtain ⟨hputs, hput⟩ := putchar_of_lt (s := s) (c := c) (by rw [write_hidden h hc]; exact hlt)
  rw [hputs, hput, charWrites_hidden h hc, write_hidden h hc]
  exact ⟨rfl, rfl, rfl⟩

/-! ## On the screen -/

/-- The index of a cell of the screen. -/
def InScreen (i : Int) : Prop := 0 ≤ i ∧ i < 2000

theorem rowWrites_inScreen {y : Nat} (hy : y < 25) (n : Nat) : ∀ x : Nat, x + n ≤ 80 →
    ∀ i ∈ rowWrites y x n, InScreen i := by
  induction n with
  | zero => simp [rowWrites]
  | succ n ih =>
    intro x hx i hi
    rw [rowWrites, List.mem_cons] at hi
    rcases hi with rfl | hi
    · unfold InScreen vgaWidth
      omega
    · exact ih (x + 1) (by omega) i hi

theorem rowsWrites_inScreen (n : Nat) : ∀ y : Nat, y + n ≤ 25 →
    ∀ i ∈ rowsWrites y n, InScreen i := by
  induction n with
  | zero => simp [rowsWrites]
  | succ n ih =>
    intro y hy i hi
    rw [rowsWrites, List.mem_append] at hi
    rcases hi with hi | hi
    · exact rowWrites_inScreen (by omega) vgaWidth 0 (by decide) i hi
    · exact ih (y + 1) (by omega) i hi

theorem scrollWrites_inScreen : ∀ i ∈ scrollWrites, InScreen i := by
  intro i hi
  rw [scrollWrites, List.mem_append] at hi
  rcases hi with hi | hi
  · exact rowsWrites_inScreen (vgaHeight - 1) 0 (by decide) i hi
  · exact rowWrites_inScreen (by decide) vgaWidth 0 (by decide) i hi

/-- A cursor from which every character stays on the screen: brought back from the right and from
below, it is at a cell of the screen. -/
def OnScreen (x y : Int) : Prop := 0 ≤ clampY y * vgaWidth + clampX x

theorem onScreen_of_le {x y : Int} (hy0 : 0 ≤ y) (hy : y ≤ 24) (h : 0 ≤ y * 80 + x) :
    OnScreen x y := by
  unfold OnScreen clampX clampY vgaWidth vgaHeight
  split_ifs <;> omega

theorem singleton_inScreen {x y : Int} (h : 0 ≤ y * 80 + x) (hx : x < 80) (hy : y < 25) :
    ∀ i ∈ [y * vgaWidth + x], InScreen i := by
  intro i hi
  rw [List.mem_singleton.mp hi]
  unfold InScreen vgaWidth
  omega

/-- **One character from a cursor on the screen** writes on the screen and leaves the cursor
there. -/
theorem putchar_onScreen {s : Vga} (h : OnScreen s.cursorX s.cursorY) (c : Byte) :
    (∀ i ∈ s.putcharWrites c, InScreen i) ∧
    OnScreen (vgaPutchar s c).cursorX (vgaPutchar s c).cursorY := by
  have hx := clampX_lt s.cursorX
  have hy := clampY_lt s.cursorY
  unfold OnScreen vgaWidth at h
  rcases char_cases c with hc | rfl | rfl | ⟨hc, hshown⟩ | ⟨hc, hhidden⟩
  · obtain ⟨hwrites, hcx, hcy⟩ := putchar_newline (s := s) hc
    refine ⟨fun i hi => scrollWrites_inScreen i (hwrites i hi), ?_⟩
    rw [hcx, hcy]
    exact onScreen_of_le (by omega) (by omega) (by omega)
  · obtain ⟨x, y, ⟨hcx, hcy⟩, hwrites, hmoved⟩ := putchar_backspace s
    rw [hwrites, hcx, hcy]
    exact ⟨singleton_inScreen (by omega) (by omega) (by omega),
      onScreen_of_le (by omega) (by omega) (by omega)⟩
  · obtain ⟨hwrites, hcx, hcy⟩ := putchar_tab s
    rw [hwrites, hcx, hcy]
    exact ⟨by simp, onScreen_of_le (by omega) (by omega) (by omega)⟩
  · obtain ⟨hwrites, hcx, hcy⟩ := putchar_shown (s := s) hc hshown
    rw [hwrites, hcx, hcy]
    exact ⟨singleton_inScreen (by omega) (by omega) (by omega),
      onScreen_of_le (by omega) (by omega) (by omega)⟩
  · obtain ⟨hwrites, hcx, hcy⟩ := putchar_hidden (s := s) hc hhidden
    rw [hwrites, hcx, hcy]
    exact ⟨by simp, onScreen_of_le (by omega) (by omega) (by omega)⟩

theorem print_onScreen (str : List Byte) : ∀ s : Vga, OnScreen s.cursorX s.cursorY →
    (∀ i ∈ s.printWrites str, InScreen i) ∧
    OnScreen (str.foldl vgaPutchar s).cursorX (str.foldl vgaPutchar s).cursorY := by
  induction str with
  | nil => exact fun s h => ⟨by simp [Vga.printWrites], h⟩
  | cons c str ih =>
    intro s h
    obtain ⟨hwrites, hnext⟩ := putchar_onScreen h c
    obtain ⟨hrest, hend⟩ := ih _ hnext
    refine ⟨fun i hi => ?_, hend⟩
    rw [Vga.printWrites, List.mem_append] at hi
    rcases hi with hi | hi
    · exact hwrites i hi
    · exact hrest i hi

/-! ## Beside the screen -/

/-- A string comes to the screen from `(x, y)` before it writes: what it starts with moves the
cursor there without writing, or there is nothing else. A backspace lands on the row above. -/
def Lands (x y : Int) : List Byte → Prop
  | [] => True
  | c :: str =>
    OnScreen x y ∨
      if c = 0x0A ∨ c = 0x0D then Lands 0 (min (clampY y + 1) 24) str
      else if c = 0x08 then clampX x ≤ 0 ∧ 0 < clampY y
      else if c = 0x09 then Lands ((clampX x + 8) / 8 * 8) (clampY y) str
      else if 0x20 ≤ c.toInt then False
      else Lands (clampX x) (clampY y) str

theorem lands_of_onScreen {x y : Int} (h : OnScreen x y) : ∀ str : List Byte, Lands x y str
  | [] => trivial
  | _ :: _ => Or.inl h

theorem not_inScreen_of_neg {x y : Int} (h : y * 80 + x < 0) :
    ¬ ∀ i ∈ [y * vgaWidth + x], InScreen i := by
  intro hall
  have hin := hall _ (List.mem_singleton_self _)
  unfold InScreen vgaWidth at hin
  omega

/-- **The writes of a string are on the screen exactly when it lands there.** -/
theorem print_inScreen_iff (str : List Byte) : ∀ s : Vga,
    (∀ i ∈ s.printWrites str, InScreen i) ↔ Lands s.cursorX s.cursorY str := by
  induction str with
  | nil => intro s; simp [Vga.printWrites, Lands]
  | cons c str ih =>
    intro s
    by_cases hon : OnScreen s.cursorX s.cursorY
    · exact iff_of_true (print_onScreen (c :: str) s hon).1 (Or.inl hon)
    · have hx := clampX_lt s.cursorX
      have hy := clampY_lt s.cursorY
      have hoff : clampY s.cursorY * 80 + clampX s.cursorX < 0 := Int.not_le.mp hon
      simp only [Vga.printWrites, List.mem_append, or_imp, forall_and, Lands, hon, false_or, ih]
      rcases char_cases c with hc | rfl | rfl | ⟨hc, hshown⟩ | ⟨hc, hhidden⟩
      · obtain ⟨hwrites, hcx, hcy⟩ := putchar_newline (s := s) hc
        rw [if_pos hc, hcx, hcy]
        exact and_iff_right fun i hi => scrollWrites_inScreen i (hwrites i hi)
      · obtain ⟨x, y, ⟨hcx, hcy⟩, hwrites, hmoved⟩ := putchar_backspace s
        rw [if_neg (by decide), if_pos rfl, hwrites, hcx, hcy]
        by_cases hup : clampX s.cursorX ≤ 0 ∧ 0 < clampY s.cursorY
        · refine iff_of_true ⟨singleton_inScreen (by omega) (by omega) (by omega), ?_⟩ hup
          exact lands_of_onScreen (onScreen_of_le (by omega) (by omega) (by omega)) str
        · exact iff_of_false (fun h => not_inScreen_of_neg (by omega) h.1) hup
      · obtain ⟨hwrites, hcx, hcy⟩ := putchar_tab s
        rw [if_neg (by decide), if_neg (by decide), if_pos rfl, hwrites, hcx, hcy]
        simp
      · obtain ⟨hwrites, -, -⟩ := putchar_shown (s := s) hc hshown
        rw [if_neg hc.1, if_neg hc.2.1, if_neg hc.2.2, if_pos hshown, hwrites]
        exact iff_of_false (fun h => not_inScreen_of_neg hoff h.1) id
      · obtain ⟨hwrites, hcx, hcy⟩ := putchar_hidden (s := s) hc hhidden
        rw [if_neg hc.1, if_neg hc.2.1, if_neg hc.2.2, if_neg hhidden, hwrites, hcx, hcy]
        simp

/-! ## Every write beside the screen is one -/

@[simp] theorem stepBack_currentColor (s : Vga) : s.stepBack.currentColor = s.currentColor := by
  unfold Vga.stepBack
  split_ifs <;> rfl

/-- What a branch of `vga_putchar` writes is a character in the present colour. -/
theorem write_stores {s : Vga} {c : Byte} {i : Int} (hx : s.cursorX < vgaWidth)
    (hi : i ∈ s.charWrites c) : ∃ c', (s.write c).vga i = vgaCell c' s.currentColor := by
  rcases char_cases c with hc | rfl | rfl | ⟨hc, hshown⟩ | ⟨hc, hhidden⟩
  · rw [Vga.charWrites, if_pos hc] at hi
    exact absurd hi List.not_mem_nil
  · have heq : i = s.stepBack.cursorY * vgaWidth + s.stepBack.cursorX := by
      simpa [Vga.charWrites] using hi
    refine ⟨0x20, ?_⟩
    rw [write_backspace, heq, vgaPutcharAt, stepBack_currentColor]
    exact Function.update_self _ _ _
  · exact absurd hi List.not_mem_nil
  · rw [charWrites_shown hc hshown hx, List.mem_singleton] at hi
    refine ⟨c, ?_⟩
    rw [write_shown hc hshown hx, hi]
    exact Function.update_self _ _ _
  · rw [charWrites_hidden hc hhidden] at hi
    exact absurd hi List.not_mem_nil

theorem write_currentColor {s : Vga} (hx : s.cursorX < vgaWidth) (c : Byte) :
    (s.write c).currentColor = s.currentColor := by
  rcases char_cases c with hc | rfl | rfl | ⟨hc, hshown⟩ | ⟨hc, hhidden⟩
  · rw [write_newline hc]
  · rw [write_backspace]
    exact stepBack_currentColor s
  · rw [write_tab]
  · rw [write_shown hc hshown hx]
    rfl
  · rw [write_hidden hc hhidden]

theorem putchar_currentColor (s : Vga) (c : Byte) :
    (vgaPutchar s c).currentColor = s.currentColor := by
  have hwrite : (s.clampCursor.write c).currentColor = s.currentColor :=
    write_currentColor (clampCursor_lt s).1 c
  rw [vgaPutchar]
  by_cases hy : vgaHeight ≤ (s.clampCursor.write c).cursorY
  · simp only [if_pos hy]
    rw [(vgaScroll_onlyCells _).color]
    exact hwrite
  · simp only [if_neg hy]
    exact hwrite

/-- Scrolling reaches no cell beside the screen, so what was written there stays. -/
theorem putchar_stores {s : Vga} {c : Byte} {i : Int} (hoff : ¬ InScreen i)
    (hi : i ∈ s.putcharWrites c) : ∃ c', (vgaPutchar s c).vga i = vgaCell c' s.currentColor := by
  have hscroll : i ∉ scrollWrites := fun hmem => hoff (scrollWrites_inScreen i hmem)
  have hchar : i ∈ s.clampCursor.charWrites c := by
    rw [Vga.putcharWrites, List.mem_append] at hi
    refine hi.resolve_right fun hmem => ?_
    split at hmem
    · exact hscroll hmem
    · exact absurd hmem List.not_mem_nil
  obtain ⟨c', hstored⟩ := write_stores (clampCursor_lt s).1 hchar
  refine ⟨c', ?_⟩
  rw [putchar_vga fun _ => hscroll]
  exact hstored

theorem print_stores {i : Int} (hoff : ¬ InScreen i) (str : List Byte) : ∀ s : Vga,
    i ∈ s.printWrites str → ∃ c, (str.foldl vgaPutchar s).vga i = vgaCell c s.currentColor := by
  induction str with
  | nil => exact fun s hi => absurd hi List.not_mem_nil
  | cons c str ih =>
    intro s hi
    rw [List.foldl_cons]
    -- the last write counts: either one of the rest of the string, or the one of this character
    by_cases hrest : i ∈ (vgaPutchar s c).printWrites str
    · obtain ⟨c', hstored⟩ := ih _ hrest
      exact ⟨c', by rw [hstored, putchar_currentColor]⟩
    · rw [Vga.printWrites, List.mem_append] at hi
      obtain ⟨c', hstored⟩ := putchar_stores hoff (hi.resolve_right hrest)
      exact ⟨c', by rw [print_frame str _ hrest, hstored]⟩

/-- **A cell beside the screen that a call writes** holds a character afterwards, whatever was
there. -/
theorem step_stores {s : Vga} {call : VgaCall} {i : Int} (hi : i ∈ s.callWrites call)
    (hoff : ¬ InScreen i) : ∃ c, (s.step call).1.vga i = vgaCell c s.currentColor := by
  cases call with
  | init => exact absurd (rowsWrites_inScreen vgaHeight 0 (by decide) i hi) hoff
  | clear => exact absurd (rowsWrites_inScreen vgaHeight 0 (by decide) i hi) hoff
  | putchar c => exact putchar_stores hoff hi
  | print str => exact print_stores hoff str.bytes s hi
  | scroll => exact absurd (scrollWrites_inScreen i hi) hoff
  | setCursor x y => exact absurd hi List.not_mem_nil
  | printAt str x y => exact print_stores hoff str.bytes _ hi
  | setColor fg bg => exact absurd hi List.not_mem_nil

/-! ## Runs -/

/-- The condition on a call: `vga_print_at` is given coordinates from which its string lands on the
screen. -/
def VgaCall.Lands : VgaCall → Prop
  | .printAt str x y => MinimalistOS.Lands x y str.bytes
  | _ => True

/-- The invariant of the runs. -/
def Vga.CursorOnScreen (s : Vga) : Prop := OnScreen s.cursorX s.cursorY

theorem cursorOnScreen_of_cursorAt {s : Vga} {x y : Int} (h : s.CursorAt x y) (hy0 : 0 ≤ y)
    (hy : y ≤ 24) (hxy : 0 ≤ y * 80 + x) : s.CursorOnScreen := by
  unfold Vga.CursorOnScreen
  rw [h.1, h.2]
  exact onScreen_of_le hy0 hy hxy

theorem vgaClear_cursorOnScreen (s : Vga) : (vgaClear s).CursorOnScreen :=
  cursorOnScreen_of_cursorAt (x := 0) (y := 0) ⟨rfl, rfl⟩ (by decide) (by decide) (by decide)

theorem vgaSetCursor_cursorOnScreen {s : Vga} (h : s.CursorOnScreen) (x y : Int) :
    (vgaSetCursor s x y).CursorOnScreen := by
  unfold vgaSetCursor
  split
  · rename_i hbounds
    unfold vgaWidth vgaHeight at hbounds
    exact cursorOnScreen_of_cursorAt (x := x) (y := y) ⟨rfl, rfl⟩ (by omega) (by omega) (by omega)
  · exact h

/-- Every call leaves the cursor on the screen: `vga_print_at` puts it back. -/
theorem step_cursorOnScreen {s : Vga} (h : s.CursorOnScreen) (call : VgaCall) :
    (s.step call).1.CursorOnScreen := by
  cases call with
  | init => exact vgaClear_cursorOnScreen _
  | clear => exact vgaClear_cursorOnScreen s
  | putchar c => exact (putchar_onScreen h c).2
  | print str => exact (print_onScreen str.bytes s h).2
  | scroll =>
    have hcells := vgaScroll_onlyCells s
    unfold Vga.CursorOnScreen
    rw [Vga.step, hcells.cursorX, hcells.cursorY]
    exact h
  | setCursor x y => exact vgaSetCursor_cursorOnScreen h x y
  | printAt str x y => exact h
  | setColor fg bg => exact h

theorem callWrites_inScreen_iff {s : Vga} (h : s.CursorOnScreen) (call : VgaCall) :
    (∀ i ∈ s.callWrites call, InScreen i) ↔ call.Lands := by
  cases call with
  | init => exact iff_of_true (rowsWrites_inScreen vgaHeight 0 (by decide)) trivial
  | clear => exact iff_of_true (rowsWrites_inScreen vgaHeight 0 (by decide)) trivial
  | putchar c => exact iff_of_true (putchar_onScreen h c).1 trivial
  | print str => exact iff_of_true (print_onScreen str.bytes s h).1 trivial
  | scroll => exact iff_of_true scrollWrites_inScreen trivial
  | setCursor x y => exact iff_of_true (by simp [Vga.callWrites]) trivial
  | printAt str x y => exact print_inScreen_iff str.bytes _
  | setColor fg bg => exact iff_of_true (by simp [Vga.callWrites]) trivial

/--
**When every write to video memory is on the screen.**

From the static data of `vga.c`, whatever video memory holds, every cell that a sequence of calls
writes is on the screen exactly when every `vga_print_at` of it is given coordinates from which its
string lands there.
-/
theorem vga_writes_on_screen_iff (memory : Int → Cell) (calls : List VgaCall) :
    Along Vga.step (fun s call => ∀ i ∈ s.callWrites call, InScreen i) (Vga.boot memory) calls ↔
    ∀ call ∈ calls, call.Lands := by
  have hboot : (Vga.boot memory).CursorOnScreen :=
    cursorOnScreen_of_cursorAt (x := 0) (y := 0) ⟨rfl, rfl⟩ (by decide) (by decide) (by decide)
  rw [along_iff_along Vga.step (I := Vga.CursorOnScreen) (P := fun _ call => call.Lands)
    (fun s call h => callWrites_inScreen_iff h call)
    (fun s call h _ => step_cursorOnScreen h call) hboot calls]
  exact along_iff_forall Vga.step _ calls

/-- `vga_print_at("A", -1, 0)` on a machine that has just booted writes the cell before the first
one, and not every write is on the screen. -/
theorem vga_writes_before_screen :
    (vgaPrintAt (Vga.boot fun _ => 0) ⟨[0x41], by decide⟩ (-1) 0).vga (-1) = 0x0741 ∧
    ¬ ∀ (memory : Int → Cell) (calls : List VgaCall),
      Along Vga.step (fun s call => ∀ i ∈ s.callWrites call, InScreen i) (Vga.boot memory)
        calls := by
  refine ⟨by decide, fun hall => ?_⟩
  have hcall := (hall (fun _ => 0) [.printAt ⟨[0x41], by decide⟩ (-1) 0]).1
  have hwrite : -1 ∈ (Vga.boot fun _ => 0).callWrites (.printAt ⟨[0x41], by decide⟩ (-1) 0) := by
    decide
  exact absurd (hcall (-1) hwrite).1 (by decide)

end MinimalistOS
