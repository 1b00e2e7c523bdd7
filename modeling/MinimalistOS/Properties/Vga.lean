import MinimalistOS.Spec.Terminal

/-!
# What the screen shows

* `blankRow_cell`, `copyRowsUp_cell`, `vgaScroll_cell` — the loops, cell by cell
* `Typing` — the screen shows rows, and the cursor is in the last of them
* `Typing.char`, `Typing.newline` — one character
* `vgaPrint_shows_folded` — `vga_print` puts each line into a row of its own
* `vga_print_terminal_iff` — so it is a terminal as long as the lines are short

`vga_putchar` starts by moving a cursor behind the last column back to column `0`, without moving
it to the next row. The test for the end of a line comes after that and never fires, so a line of
more than eighty characters goes on at the start of its own row.
-/

namespace MinimalistOS

open Infra

/-! ## The loops -/

theorem cell_inj {y x y' x' : Nat} (hx : x < vgaWidth) (hx' : x' < vgaWidth) :
    (y' : Int) * vgaWidth + x' = y * vgaWidth + x ↔ y' = y ∧ x' = x := by
  unfold vgaWidth at *
  omega

theorem setCell_cell (s : Vga) (y y' : Nat) {x x' : Nat} (hx : x < vgaWidth) (hx' : x' < vgaWidth)
    (cell : Cell) :
    (s.setCell (y * vgaWidth + x) cell).vga (y' * vgaWidth + x')
      = if y' = y ∧ x' = x then cell else s.vga (y' * vgaWidth + x') := by
  show Function.update s.vga _ cell _ = _
  rw [Function.update_apply]
  by_cases h : y' = y ∧ x' = x
  · rw [if_pos h, if_pos ((cell_inj hx hx').mpr h)]
  · rw [if_neg h, if_neg (mt (cell_inj hx hx').mp h)]

/-- Everything but video memory is the same. -/
structure OnlyCells (s s' : Vga) : Prop where
  cursorX : s'.cursorX = s.cursorX
  cursorY : s'.cursorY = s.cursorY
  color : s'.currentColor = s.currentColor

theorem OnlyCells.trans {s s' s'' : Vga} (h : OnlyCells s s') (h' : OnlyCells s' s'') :
    OnlyCells s s'' where
  cursorX := h'.cursorX.trans h.cursorX
  cursorY := h'.cursorY.trans h.cursorY
  color := h'.color.trans h.color

theorem setCell_onlyCells (s : Vga) (i : Int) (cell : Cell) : OnlyCells s (s.setCell i cell) :=
  ⟨rfl, rfl, rfl⟩

/-- The columns of a row from `x` on are column `x` and those from `x + 1` on. -/
theorem ite_row_succ {α : Type} {y y' x x' n : Nat} {a b c : α} (hc : x' = x → c = a) :
    (if y' = y ∧ x + 1 ≤ x' ∧ x' < x + 1 + n then a else if y' = y ∧ x' = x then c else b)
      = if y' = y ∧ x ≤ x' ∧ x' < x + (n + 1) then a else b := by
  by_cases hy : y' = y
  · by_cases hx : x' = x
    · rw [if_neg (by omega), if_pos ⟨hy, hx⟩, if_pos (by omega), hc hx]
    · rw [if_neg (c := y' = y ∧ x' = x) fun h => hx h.2]
      by_cases hin : x + 1 ≤ x' ∧ x' < x + 1 + n
      · rw [if_pos ⟨hy, hin⟩, if_pos (by omega)]
      · rw [if_neg fun h => hin h.2, if_neg (by omega)]
  · rw [if_neg fun h => hy h.1, if_neg fun h => hy h.1, if_neg fun h => hy h.1]

theorem blankRow_onlyCells (y : Int) (n : Nat) : ∀ (s : Vga) (x : Nat),
    OnlyCells s (blankRow s y x n) := by
  induction n with
  | zero => intro s x; exact ⟨rfl, rfl, rfl⟩
  | succ n ih => intro s x; exact (setCell_onlyCells s _ _).trans (ih _ _)

theorem blankRow_cell (y : Nat) {y' x' : Nat} (hx' : x' < vgaWidth) (n : Nat) :
    ∀ (s : Vga) (x : Nat), x + n ≤ vgaWidth →
      (blankRow s y x n).vga (y' * vgaWidth + x')
        = if y' = y ∧ x ≤ x' ∧ x' < x + n then vgaCell 0x20 s.currentColor
          else s.vga (y' * vgaWidth + x') := by
  induction n with
  | zero =>
    intro s x _
    rw [blankRow, if_neg (by omega)]
  | succ n ih =>
    intro s x hle
    rw [blankRow, ih _ (x + 1) (by omega), vgaPutcharAt, setCell_cell s _ _ (by omega) hx']
    show (if _ then vgaCell 0x20 s.currentColor else _) = _
    exact ite_row_succ fun _ => rfl

/-- A row of blanks. -/
theorem blankRow_whole (s : Vga) (y : Nat) {y' x' : Nat} (hx' : x' < vgaWidth) :
    (blankRow s y 0 vgaWidth).vga (y' * vgaWidth + x')
      = if y' = y then vgaCell 0x20 s.currentColor else s.vga (y' * vgaWidth + x') := by
  rw [blankRow_cell y hx' vgaWidth s 0 (by omega)]
  by_cases hy : y' = y
  · rw [if_pos (by omega), if_pos hy]
  · rw [if_neg fun h => hy h.1, if_neg hy]

theorem blankRows_onlyCells (n : Nat) : ∀ (s : Vga) (y : Nat), OnlyCells s (blankRows s y n) := by
  induction n with
  | zero => intro s y; exact ⟨rfl, rfl, rfl⟩
  | succ n ih => intro s y; exact (blankRow_onlyCells _ _ _ _).trans (ih _ _)

theorem blankRows_cell {y' x' : Nat} (hx' : x' < vgaWidth) (n : Nat) : ∀ (s : Vga) (y : Nat),
    (blankRows s y n).vga (y' * vgaWidth + x')
      = if y ≤ y' ∧ y' < y + n then vgaCell 0x20 s.currentColor
        else s.vga (y' * vgaWidth + x') := by
  induction n with
  | zero =>
    intro s y
    rw [blankRows, if_neg (by omega)]
  | succ n ih =>
    intro s y
    rw [blankRows, ih, (blankRow_onlyCells _ _ _ _).color, blankRow_whole s y hx']
    by_cases hy : y' = y
    · rw [if_neg (by omega), if_pos hy, if_pos (by omega)]
    · rw [if_neg hy]
      by_cases hin : y + 1 ≤ y' ∧ y' < y + 1 + n
      · rw [if_pos hin, if_pos (by omega)]
      · rw [if_neg hin, if_neg (by omega)]

/-- `vga_clear` leaves a blank screen. -/
theorem vgaClear_spec (s : Vga) :
    (vgaClear s).currentColor = s.currentColor ∧
      ∀ y < vgaHeight, ∀ x < vgaWidth,
        (vgaClear s).vga (y * vgaWidth + x) = vgaCell 0x20 s.currentColor := by
  simp only [vgaClear]
  refine ⟨(blankRows_onlyCells vgaHeight s 0).color, ?_⟩
  intro y hy x hx
  rw [blankRows_cell hx vgaHeight s 0, if_pos (by omega)]

theorem copyRowUp_onlyCells (y n : Nat) : ∀ (s : Vga) (x : Nat),
    OnlyCells s (copyRowUp s y x n) := by
  induction n with
  | zero => intro s x; exact ⟨rfl, rfl, rfl⟩
  | succ n ih => intro s x; exact (setCell_onlyCells s _ _).trans (ih _ _)

theorem copyRowUp_cell (y : Nat) {y' x' : Nat} (hx' : x' < vgaWidth) (n : Nat) :
    ∀ (s : Vga) (x : Nat), x + n ≤ vgaWidth →
      (copyRowUp s y x n).vga (y' * vgaWidth + x')
        = if y' = y ∧ x ≤ x' ∧ x' < x + n then s.vga ((y + 1 : Nat) * vgaWidth + x')
          else s.vga (y' * vgaWidth + x') := by
  induction n with
  | zero =>
    intro s x _
    rw [copyRowUp, if_neg (by omega)]
  | succ n ih =>
    intro s x hle
    have hbelow : ((y : Int) + 1) * vgaWidth + x = ((y + 1 : Nat) : Int) * vgaWidth + x := by
      push_cast
      rfl
    rw [copyRowUp, hbelow, ih _ (x + 1) (by omega), setCell_cell s _ _ (by omega) hx',
      setCell_cell s _ _ (by omega) hx', if_neg (c := y + 1 = y ∧ x' = x) (by omega)]
    exact ite_row_succ fun hx => by rw [hx]

/-- A row is copied up. -/
theorem copyRowUp_whole (s : Vga) (y : Nat) {y' x' : Nat} (hx' : x' < vgaWidth) :
    (copyRowUp s y 0 vgaWidth).vga (y' * vgaWidth + x')
      = if y' = y then s.vga ((y + 1 : Nat) * vgaWidth + x')
        else s.vga (y' * vgaWidth + x') := by
  rw [copyRowUp_cell y hx' vgaWidth s 0 (by omega)]
  by_cases hy : y' = y
  · rw [if_pos (by omega), if_pos hy]
  · rw [if_neg fun h => hy h.1, if_neg hy]

theorem copyRowsUp_onlyCells (n : Nat) : ∀ (s : Vga) (y : Nat),
    OnlyCells s (copyRowsUp s y n) := by
  induction n with
  | zero => intro s y; exact ⟨rfl, rfl, rfl⟩
  | succ n ih => intro s y; exact (copyRowUp_onlyCells _ _ _ _).trans (ih _ _)

theorem copyRowsUp_cell {y' x' : Nat} (hx' : x' < vgaWidth) (n : Nat) : ∀ (s : Vga) (y : Nat),
    (copyRowsUp s y n).vga (y' * vgaWidth + x')
      = if y ≤ y' ∧ y' < y + n then s.vga ((y' + 1 : Nat) * vgaWidth + x')
        else s.vga (y' * vgaWidth + x') := by
  induction n with
  | zero =>
    intro s y
    rw [copyRowsUp, if_neg (by omega)]
  | succ n ih =>
    intro s y
    -- the rows below are still as they were when their turn comes
    rw [copyRowsUp, ih, copyRowUp_whole s y hx', copyRowUp_whole s y hx']
    by_cases hy : y' = y
    · rw [if_neg (by omega), if_pos hy, if_pos (by omega), hy]
    · rw [if_neg hy]
      by_cases hin : y + 1 ≤ y' ∧ y' < y + 1 + n
      · rw [if_pos hin, if_neg (by omega), if_pos (by omega)]
      · rw [if_neg hin, if_neg (by omega)]

theorem vgaScroll_onlyCells (s : Vga) : OnlyCells s (vgaScroll s) :=
  (copyRowsUp_onlyCells _ _ _).trans (blankRow_onlyCells _ _ _ _)

/-- `vga_scroll` moves the rows up by one and clears the last. -/
theorem vgaScroll_cell (s : Vga) {y x : Nat} (hy : y < vgaHeight) (hx : x < vgaWidth) :
    (vgaScroll s).vga (y * vgaWidth + x)
      = if y = vgaHeight - 1 then vgaCell 0x20 s.currentColor
        else s.vga ((y + 1 : Nat) * vgaWidth + x) := by
  unfold vgaScroll
  rw [blankRow_whole _ _ hx, (copyRowsUp_onlyCells _ _ _).color]
  by_cases hlast : y = vgaHeight - 1
  · rw [if_pos hlast, if_pos hlast]
  · rw [if_neg hlast, if_neg hlast, copyRowsUp_cell hx (vgaHeight - 1) s 0, if_pos (by omega)]

/-! ## Typing -/

/-- The screen shows `rows` and then `row`, and the cursor is in `row`, at column `x`. -/
structure Typing (s : Vga) (rows : List (List Byte)) (row : List Byte) (x : Nat) : Prop where
  shows : Shows s (rows ++ [row])
  row_le : row.length ≤ vgaWidth
  col_le : x ≤ row.length
  cursorX : s.cursorX = x
  cursorY : s.cursorY = (min rows.length (vgaHeight - 1) : Nat)

/-- The column where the next character goes: behind the last one it is the first again. -/
def nextColumn (x : Nat) : Nat := if vgaWidth ≤ x then 0 else x

/-- A character in a row, over what stands there. -/
def putInRow (row : List Byte) (x : Nat) (c : Byte) : List Byte :=
  row.take x ++ c :: row.drop (x + 1)

theorem putInRow_getD {row : List Byte} {x : Nat} (hx : x ≤ row.length) (c : Byte) (j : Nat) :
    (putInRow row x c).getD j 0x20 = if j = x then c else row.getD j 0x20 := by
  have hlen : (row.take x).length = x := by rw [List.length_take, Nat.min_eq_left hx]
  unfold putInRow
  simp only [List.getD_eq_getElem?_getD, List.getElem?_append, hlen]
  by_cases hj : j = x
  · rw [if_neg (by omega), if_pos hj, hj, Nat.sub_self]
    rfl
  · rw [if_neg hj]
    by_cases hlt : j < x
    · rw [if_pos hlt, List.getElem?_take_of_lt hlt]
    · obtain ⟨k, hk⟩ : ∃ k, j - x = k + 1 := ⟨j - x - 1, by omega⟩
      rw [if_neg hlt, hk, List.getElem?_cons_succ, List.getElem?_drop,
        show x + 1 + k = j by omega]

theorem length_putInRow {row : List Byte} {x : Nat} (hx : x ≤ row.length) (c : Byte) :
    (putInRow row x c).length = max row.length (x + 1) := by
  unfold putInRow
  simp only [List.length_append, List.length_take, List.length_cons, List.length_drop]
  omega

/-- The cursor where `vga_putchar` brings it before it looks at the character. -/
theorem Typing.clampCursor {s : Vga} {rows : List (List Byte)} {row : List Byte} {x : Nat}
    (h : Typing s rows row x) :
    s.clampCursor = { s with cursorX := (nextColumn x : Int) } := by
  have hy : ¬ (vgaHeight : Int) ≤ s.cursorY := by
    rw [h.cursorY]
    unfold vgaHeight
    omega
  have hx : (if (vgaWidth : Int) ≤ s.cursorX then 0 else s.cursorX) = (nextColumn x : Int) := by
    rw [h.cursorX]
    unfold nextColumn
    by_cases hx : vgaWidth ≤ x
    · rw [if_pos (by omega), if_pos hx]
      rfl
    · rw [if_neg (by omega), if_neg hx]
  simp only [Vga.clampCursor, if_neg hy, hx]

theorem nextColumn_lt (x : Nat) : nextColumn x < vgaWidth := by
  unfold nextColumn vgaWidth
  split
  · omega
  · omega

theorem nextColumn_le (x : Nat) : nextColumn x ≤ x := by
  unfold nextColumn
  split
  · omega
  · omega

/-! ### The branches of `vga_putchar` -/

theorem write_newline {s : Vga} {c : Byte} (h : c = 0x0A ∨ c = 0x0D) :
    s.write c = { s with cursorX := 0, cursorY := s.cursorY + 1 } := by
  rw [Vga.write, if_pos h]

/-- Neither a line end nor a backspace nor a tab: what is left are characters that are shown and
characters that are not. -/
def Plain (c : Byte) : Prop := ¬ (c = 0x0A ∨ c = 0x0D) ∧ c ≠ 0x08 ∧ c ≠ 0x09

/-- The branch for a character that is shown. Its own test for the end of the line finds the cursor
inside. -/
theorem write_shown {s : Vga} {c : Byte} (h : Plain c) (hc : 0x20 ≤ c.toInt)
    (hx : s.cursorX < vgaWidth) :
    s.write c = { vgaPutcharAt s c s.currentColor s.cursorX s.cursorY with
      cursorX := s.cursorX + 1 } := by
  rw [Vga.write, if_neg h.1, if_neg h.2.1, if_neg h.2.2, if_pos hc]
  simp only [if_neg (Int.not_le.mpr hx)]

theorem Printable.plain {c : Byte} (hc : Printable c) : Plain c ∧ 0x20 ≤ c.toInt := by
  obtain ⟨hlow, hhigh⟩ := hc
  have hne : ∀ b : Byte, b.toNat < 0x20 → c ≠ b := by
    intro b hb heq
    rw [heq] at hlow
    omega
  have hint : 0x20 ≤ c.toInt := by
    rw [BitVec.toInt_eq_toNat_of_lt (by omega)]
    omega
  have hnl : ¬ (c = 0x0A ∨ c = 0x0D) :=
    not_or.mpr ⟨hne 0x0A (by decide), hne 0x0D (by decide)⟩
  exact ⟨⟨hnl, hne 0x08 (by decide), hne 0x09 (by decide)⟩, hint⟩

/-- **A printable character** goes over what stands in its column. -/
theorem Typing.char {s : Vga} {rows : List (List Byte)} {row : List Byte} {x : Nat}
    (h : Typing s rows row x) {c : Byte} (hc : Printable c) :
    Typing (vgaPutchar s c) rows (putInRow row (nextColumn x) c) (nextColumn x + 1) := by
  have hlt := nextColumn_lt x
  have hle : nextColumn x ≤ row.length := Nat.le_trans (nextColumn_le x) h.col_le
  obtain ⟨hplain, hshown⟩ := hc.plain
  have hwrite := write_shown (s := { s with cursorX := (nextColumn x : Int) }) hplain hshown
    (by simpa using hlt)
  have hput : vgaPutchar s c
      = { vgaPutcharAt s c s.currentColor (nextColumn x) s.cursorY with
          cursorX := (nextColumn x : Int) + 1 } := by
    simp only [vgaPutchar, h.clampCursor, hwrite]
    rw [if_neg]
    · rfl
    · show ¬ (vgaHeight : Int) ≤ s.cursorY
      rw [h.cursorY]
      unfold vgaHeight
      omega
  rw [hput]
  refine ⟨?_, ?_, ?_, ?_, h.cursorY⟩
  · intro y hy j hj
    have hcell := setCell_cell s (min rows.length (vgaHeight - 1)) y hlt hj
      (vgaCell c s.currentColor)
    rw [← h.cursorY] at hcell
    refine hcell.trans ?_
    have hold := h.shows y hy j hj
    rw [charAt_last rows row, putInRow_getD hle]
    by_cases hrow : y = min rows.length (vgaHeight - 1)
    · rw [if_pos hrow]
      by_cases hcol : j = nextColumn x
      · rw [if_pos ⟨hrow, hcol⟩, if_pos hcol]
        rfl
      · rw [if_neg fun hh => hcol hh.2, if_neg hcol, hold, charAt_last rows row row, if_pos hrow]
        rfl
    · rw [if_neg fun hh => hrow hh.1, if_neg hrow]
      exact hold
  · rw [length_putInRow hle]
    have := h.row_le
    omega
  · rw [length_putInRow hle]
    omega
  · show (nextColumn x : Int) + 1 = _
    push_cast
    rfl

/-- A newline scrolls when the row is the last of the screen. -/
theorem Typing.putchar_newline {s : Vga} {rows : List (List Byte)} {row : List Byte} {x : Nat}
    (h : Typing s rows row x) :
    vgaPutchar s MinimalistOS.newline
      = if vgaHeight ≤ rows.length + 1 then
          { vgaScroll { s with cursorX := 0, cursorY := s.cursorY + 1 } with
            cursorY := (vgaHeight : Int) - 1 }
        else { s with cursorX := 0, cursorY := s.cursorY + 1 } := by
  have hwrite : s.clampCursor.write MinimalistOS.newline
      = { s with cursorX := 0, cursorY := s.cursorY + 1 } := by
    rw [h.clampCursor]
    exact write_newline (Or.inl rfl)
  have hlast : (vgaHeight : Int) ≤ s.cursorY + 1 ↔ vgaHeight ≤ rows.length + 1 := by
    rw [h.cursorY]
    unfold vgaHeight
    omega
  simp only [vgaPutchar, hwrite, hlast]

/-- The row after the last one, on a screen that moves up. -/
theorem Typing.scroll {s : Vga} {rows : List (List Byte)} {row : List Byte} {x : Nat}
    (h : Typing s rows row x) (hfull : vgaHeight ≤ rows.length + 1) :
    Typing { vgaScroll { s with cursorX := 0, cursorY := s.cursorY + 1 } with
      cursorY := (vgaHeight : Int) - 1 } (rows ++ [row]) [] 0 := by
  have hlen : (rows ++ [row]).length = rows.length + 1 := by simp
  have honly := vgaScroll_onlyCells { s with cursorX := 0, cursorY := s.cursorY + 1 }
  refine ⟨?_, Nat.zero_le _, Nat.le_refl _, ?_, ?_⟩
  · intro y hy j hj
    simp only
    rw [vgaScroll_cell _ hy hj, honly.color, charAt_append_nil, hlen, if_pos hfull]
    by_cases hlast : y = vgaHeight - 1
    · have hnone :
          (rows ++ [row]).getD ((rows ++ [row]).length - vgaHeight + (y + 1)) [] = [] := by
        rw [List.getD_eq_getElem?_getD, List.getElem?_eq_none (by unfold vgaHeight at *; omega)]
        rfl
      have hblank : charAt (rows ++ [row]) (y + 1) j = 0x20 := by
        rw [charAt_eq, hnone]
        rfl
      rw [if_pos hlast, hblank]
    · rw [if_neg hlast]
      exact h.shows (y + 1) (by omega) j hj
  · simp [honly.cursorX]
  · rw [hlen]
    unfold vgaHeight at *
    simp only
    omega

/-- The row below. -/
theorem Typing.nextRow {s : Vga} {rows : List (List Byte)} {row : List Byte} {x : Nat}
    (h : Typing s rows row x) (hfull : ¬ vgaHeight ≤ rows.length + 1) :
    Typing { s with cursorX := 0, cursorY := s.cursorY + 1 } (rows ++ [row]) [] 0 := by
  have hlen : (rows ++ [row]).length = rows.length + 1 := by simp
  refine ⟨?_, Nat.zero_le _, Nat.le_refl _, rfl, ?_⟩
  · intro y hy j hj
    rw [charAt_append_nil, hlen, if_neg hfull]
    exact h.shows y hy j hj
  · rw [hlen]
    simp only [h.cursorY]
    unfold vgaHeight at *
    omega

/-- **A newline** starts a row. -/
theorem Typing.newline {s : Vga} {rows : List (List Byte)} {row : List Byte} {x : Nat}
    (h : Typing s rows row x) : Typing (vgaPutchar s newline) (rows ++ [row]) [] 0 := by
  rw [h.putchar_newline]
  split
  · next hfull => exact h.scroll hfull
  · next hfull => exact h.nextRow hfull

/-! ## Lines -/

/-- A line typed over a row from its first column on: after eighty characters it comes back. -/
def typeOver (row line : List Byte) : List Byte :=
  if line.length ≤ vgaWidth then line ++ row.drop line.length
  else typeOver (line.take vgaWidth) (line.drop vgaWidth)
termination_by line.length
decreasing_by
  simp only [List.length_drop, vgaWidth] at *
  omega

/-- The text with each line in one row. -/
def folded (text : List Byte) : List (List Byte) := (textLines text).map (typeOver [])

/-- Part of a row, from column `x` on. -/
theorem Typing.part {rows : List (List Byte)} {l : List Byte} (hl : ∀ c ∈ l, Printable c) :
    ∀ {s : Vga} {row : List Byte} {x : Nat}, Typing s rows row x →
      nextColumn x + l.length ≤ vgaWidth → l ≠ [] →
      Typing (l.foldl vgaPutchar s) rows
        (row.take (nextColumn x) ++ l ++ row.drop (nextColumn x + l.length))
        (nextColumn x + l.length) := by
  induction l with
  | nil => intro s row x _ _ hne; exact absurd rfl hne
  | cons c l ih =>
    intro s row x h hfit _
    have hlen : (row.take (nextColumn x)).length = nextColumn x := by
      rw [List.length_take, Nat.min_eq_left (Nat.le_trans (nextColumn_le x) h.col_le)]
    have hchar := h.char (hl c List.mem_cons_self)
    rw [List.length_cons] at hfit ⊢
    by_cases hnil : l = []
    · subst hnil
      rw [List.append_assoc]
      exact hchar
    · have hpos : 0 < l.length := List.length_pos_iff.mpr hnil
      have hnext : nextColumn (nextColumn x + 1) = nextColumn x + 1 := if_neg (by omega)
      have hrest := ih (fun b hb => hl b (List.mem_cons_of_mem c hb)) hchar
        (by rw [hnext]; omega) hnil
      rw [hnext] at hrest
      have htake : (putInRow row (nextColumn x) c).take (nextColumn x + 1)
          = row.take (nextColumn x) ++ [c] := by
        unfold putInRow
        rw [List.take_append, hlen, List.take_of_length_le (by omega)]
        simp
      have hdrop : (putInRow row (nextColumn x) c).drop (nextColumn x + 1 + l.length)
          = row.drop (nextColumn x + (l.length + 1)) := by
        unfold putInRow
        rw [List.drop_append, hlen, List.drop_of_length_le (by omega),
          show nextColumn x + 1 + l.length - nextColumn x = l.length + 1 by omega,
          List.drop_succ_cons, List.drop_drop, List.nil_append]
        congr 1
        omega
      rw [htake, hdrop] at hrest
      simp only [List.append_assoc, List.singleton_append] at hrest
      simp only [List.foldl_cons, List.append_assoc, List.cons_append]
      rw [show nextColumn x + (l.length + 1) = nextColumn x + 1 + l.length by omega]
      rw [show nextColumn x + (l.length + 1) = nextColumn x + 1 + l.length by omega] at hrest
      exact hrest

/-- **A line** goes over the row where it starts. -/
theorem Typing.line {rows : List (List Byte)} {row l : List Byte} :
    ∀ {s : Vga} {x : Nat}, Typing s rows row x → nextColumn x = 0 → (∀ c ∈ l, Printable c) →
      ∃ x', Typing (l.foldl vgaPutchar s) rows (typeOver row l) x' := by
  induction row, l using typeOver.induct with
  | case1 row l hfit =>
    intro s x h hx hl
    rw [typeOver, if_pos hfit]
    by_cases hnil : l = []
    · subst hnil
      exact ⟨x, h⟩
    · have hpart := Typing.part hl h (by omega) hnil
      rw [hx, List.take_zero, List.nil_append, Nat.zero_add] at hpart
      exact ⟨l.length, hpart⟩
  | case2 row l hfit ih =>
    intro s x h hx hl
    rw [typeOver, if_neg hfit]
    have hlen : (l.take vgaWidth).length = vgaWidth := by
      rw [List.length_take]
      omega
    have hfirst : ∀ c ∈ l.take vgaWidth, Printable c := fun c hc => hl c (List.mem_of_mem_take hc)
    have hpart := Typing.part hfirst h (by omega) (List.ne_nil_of_length_pos (by rw [hlen]; decide))
    -- the first eighty characters fill the row, and the cursor comes back
    rw [hx, List.take_zero, List.nil_append, Nat.zero_add, hlen,
      List.drop_of_length_le h.row_le, List.append_nil] at hpart
    obtain ⟨x', hrest⟩ := ih hpart rfl fun c hc => hl c (List.mem_of_mem_drop hc)
    rw [← List.foldl_append, List.take_append_drop] at hrest
    exact ⟨x', hrest⟩

/-- **Lines**, one row each. -/
theorem Typing.lines {lines : List (List Byte)} :
    ∀ {line : List Byte} {s : Vga} {rows : List (List Byte)}, Typing s rows [] 0 →
      (∀ l ∈ line :: lines, ∀ c ∈ l, Printable c) →
      ∃ rows' row x, Typing (([MinimalistOS.newline].intercalate (line :: lines)).foldl
          vgaPutchar s) rows' row x ∧
        rows' ++ [row] = rows ++ (line :: lines).map (typeOver []) := by
  induction lines with
  | nil =>
    intro line s rows h hl
    obtain ⟨x, hline⟩ := h.line rfl (hl line List.mem_cons_self)
    rw [List.intercalate_singleton]
    exact ⟨rows, typeOver [] line, x, hline, rfl⟩
  | cons next lines ih =>
    intro line s rows h hl
    obtain ⟨x, hline⟩ := h.line rfl (hl line List.mem_cons_self)
    obtain ⟨rows', row, x', hrest, hrows⟩ :=
      ih hline.newline fun l hmem => hl l (List.mem_cons_of_mem line hmem)
    refine ⟨rows', row, x', ?_, ?_⟩
    · rw [List.intercalate_cons_cons, List.append_assoc, List.foldl_append, List.foldl_append]
      exact hrest
    · rw [hrows, List.append_assoc]
      rfl

/-- **`vga_print` puts each line into a row of its own**, however long it is. -/
theorem vgaPrint_shows_folded (s : Vga) {text : CString}
    (h : ∀ c ∈ text.bytes, Printable c ∨ c = newline) :
    Shows (vgaPrint (vgaClear s) text) (folded text.bytes) := by
  have hstart : Typing (vgaClear s) [] [] 0 := by
    refine ⟨?_, Nat.zero_le _, Nat.le_refl _, by simp only [vgaClear]; rfl,
      by simp only [vgaClear]; rfl⟩
    intro y hy x hx
    obtain ⟨hcolor, hcells⟩ := vgaClear_spec s
    rw [hcells y hy x hx, hcolor]
    cases y with
    | zero => rfl
    | succ y => rfl
  have hprintable := printable_of_mem_textLines h
  cases hlines : textLines text.bytes with
  | nil => exact absurd hlines (textLines_ne_nil _)
  | cons line lines =>
    rw [hlines] at hprintable
    obtain ⟨rows, row, x, htyped, hrows⟩ := hstart.lines hprintable
    have hshows := htyped.shows
    rw [hrows, ← hlines, intercalate_textLines, List.nil_append] at hshows
    exact hshows

/-! ## As a terminal -/

/-- Two layouts that look the same on the screen. -/
def LooksLike (rows rows' : List (List Byte)) : Prop :=
  ∀ y < vgaHeight, ∀ x < vgaWidth, charAt rows y x = charAt rows' y x

/-- None of the last twenty-five lines is longer than a row. -/
def LastLinesShort (text : List Byte) : Prop :=
  ∀ line ∈ lastRows (textLines text), line.length ≤ vgaWidth

theorem vgaCell_inj {c c' color : Byte} (h : vgaCell c color = vgaCell c' color) : c = c' := by
  have hlow : ∀ b : Byte, (vgaCell b color).setWidth 8 = b := by
    intro b
    unfold vgaCell
    ext i hi
    have hlt : i < 16 := by omega
    simp [BitVec.getElem_signExtend, hi, hlt]
  rw [← hlow c, h, hlow c']

/-- A screen shows one thing. -/
theorem shows_iff_looksLike {s : Vga} {rows : List (List Byte)} (h : Shows s rows)
    (rows' : List (List Byte)) : Shows s rows' ↔ LooksLike rows rows' := by
  constructor
  · intro h' y hy x hx
    exact vgaCell_inj ((h y hy x hx).symm.trans (h' y hy x hx))
  · intro hlike y hy x hx
    rw [← hlike y hy x hx]
    exact h y hy x hx

theorem typeOver_of_short {line : List Byte} (h : line.length ≤ vgaWidth) :
    typeOver [] line = line := by
  rw [typeOver, if_pos h, List.drop_nil, List.append_nil]

theorem flatMap_wrapLine {lines : List (List Byte)} (h : ∀ line ∈ lines, line.length ≤ vgaWidth) :
    lines.flatMap wrapLine = lines := by
  induction lines with
  | nil => rfl
  | cons line lines ih =>
    rw [List.flatMap_cons, wrapLine, if_pos (h line List.mem_cons_self),
      ih fun l hl => h l (List.mem_cons_of_mem line hl)]
    rfl

theorem lastRows_append {front last : List (List Byte)}
    (h : last.length = vgaHeight ∨ front = [] ∧ last.length ≤ vgaHeight) :
    lastRows (front ++ last) = last := by
  unfold lastRows
  rw [List.length_append]
  rcases h with hlen | ⟨rfl, hle⟩
  · rw [hlen, Nat.add_sub_cancel]
    exact List.drop_left
  · rw [List.length_nil, Nat.sub_eq_zero_of_le (by omega)]
    rfl

/-- Where the last lines are short, it does not matter what is done with a long one. -/
theorem looksLike_of_lastLinesShort {text : List Byte} (h : LastLinesShort text) :
    LooksLike (folded text) (wrapped text) := by
  have hfolded : lastRows (folded text) = lastRows (textLines text) := by
    unfold lastRows folded
    rw [List.length_map, ← List.map_drop]
    exact (List.map_congr_left fun line hl => typeOver_of_short (h line hl)).trans (List.map_id' _)
  have hwrapped : lastRows (wrapped text) = lastRows (textLines text) := by
    have hsplit : wrapped text
        = ((textLines text).take ((textLines text).length - vgaHeight)).flatMap wrapLine
          ++ lastRows (textLines text) := by
      unfold wrapped
      rw [← flatMap_wrapLine h, lastRows, ← List.flatMap_append, List.take_append_drop]
    have hlen : (lastRows (textLines text)).length = min (textLines text).length vgaHeight := by
      unfold lastRows
      rw [List.length_drop]
      omega
    rw [hsplit]
    apply lastRows_append
    by_cases hfew : (textLines text).length ≤ vgaHeight
    · refine .inr ⟨?_, by omega⟩
      rw [Nat.sub_eq_zero_of_le hfew]
      rfl
    · exact .inl (by omega)
  intro y _ x _
  unfold charAt
  rw [hfolded, hwrapped]

/-- **As a terminal.** What `vga_print` leaves on a cleared screen is the text in rows of eighty
columns when its last twenty-five lines are short. Otherwise it is so only by chance: when the long
lines, each typed over its own row, happen to look the way they would look wrapped. -/
theorem vga_print_terminal_iff (s : Vga) (text : CString)
    (h : ∀ c ∈ text.bytes, Printable c ∨ c = newline) :
    Shows (vgaPrint (vgaClear s) text) (wrapped text.bytes) ↔
      LastLinesShort text.bytes ∨ LooksLike (folded text.bytes) (wrapped text.bytes) := by
  rw [shows_iff_looksLike (vgaPrint_shows_folded s h)]
  exact ⟨.inr, Or.rec looksLike_of_lastLinesShort id⟩

/-- A screen as the machine starts. -/
def bootScreen : Vga where
  vga := fun _ => 0
  cursorX := 0
  cursorY := 0
  currentColor := 0x07

/-- Two short lines. -/
theorem vga_print_terminal_two_lines :
    Shows (vgaPrint (vgaClear bootScreen) (CString.ofBytes [0x68, 0x69, newline, 0x21]))
      (wrapped [0x68, 0x69, newline, 0x21]) := by
  refine (vga_print_terminal_iff bootScreen _ ?_).mpr (.inl ?_)
  · decide
  · unfold LastLinesShort
    decide

theorem textLines_of_one_line {line : List Byte} (h : ∀ c ∈ line, c ≠ newline) :
    textLines line = [line] := by
  induction line with
  | nil => rfl
  | cons c line ih =>
    rw [textLines, if_neg (h c List.mem_cons_self),
      ih fun b hb => h b (List.mem_cons_of_mem c hb)]
    rfl

/-- A line that is one character too long. -/
def longLine : CString where
  bytes := List.replicate 81 0x61
  nul_free := by
    intro b hb
    rw [List.eq_of_mem_replicate hb]
    decide

/-- The last character of the line is not at the start of the second row. -/
theorem vga_print_overwrites_row :
    (∀ c ∈ longLine.bytes, Printable c ∨ c = newline) ∧
      ¬ Shows (vgaPrint (vgaClear bootScreen) longLine) (wrapped longLine.bytes) := by
  have hmem : ∀ c ∈ longLine.bytes, c = 0x61 := fun c hc => List.eq_of_mem_replicate hc
  have hprintable : ∀ c ∈ longLine.bytes, Printable c ∨ c = newline := by
    intro c hc
    rw [hmem c hc]
    decide
  have hline : textLines longLine.bytes = [longLine.bytes] := by
    apply textLines_of_one_line
    intro c hc
    rw [hmem c hc]
    decide
  refine ⟨hprintable, ?_⟩
  intro hshows
  have hlike := (shows_iff_looksLike (vgaPrint_shows_folded bootScreen hprintable) _).mp hshows
  have hcell := hlike 1 (by decide) 0 (by decide)
  have hwrapped : wrapped longLine.bytes = [List.replicate 80 0x61, [0x61]] := by
    unfold wrapped
    rw [hline, List.flatMap_singleton, wrapLine, if_neg (by decide), wrapLine, if_pos (by decide)]
    rfl
  have hfolded : folded longLine.bytes = [typeOver [] longLine.bytes] := by
    unfold folded
    rw [hline]
    rfl
  rw [hwrapped, hfolded] at hcell
  exact absurd hcell (by simp [charAt, lastRows, vgaHeight])

end MinimalistOS
