import MinimalistOS.Properties.VgaBackspace
import Mathlib.Data.List.GetD

/-!
# Coloured rows

`Typing` of `Properties/Vga.lean` follows a text in one colour. Here a row is a list of cells, each
in its own colour, and a space where there is no cell may have any.

* `Scrolls` — the screen shows the last of some rows, and the cursor is behind the last cell
* `Scrolls.char`, `Scrolls.newline` — a character goes behind it, a newline begins a row
* `Scrolls.text` — a text of several lines, in the current colour
-/

namespace MinimalistOS

open Infra

/-- A space, in any colour. -/
def Blank (cell : Cell) : Prop := ∃ color, cell = vgaCell 0x20 color

/-- Cell `x` of a row. -/
def CellOf (row : List Cell) (x : Nat) (cell : Cell) : Prop :=
  match row[x]? with
  | some c => cell = c
  | none => Blank cell

/-- The index of the row at the top of the screen. -/
def topRow (n : Nat) : Nat := n - vgaHeight

/-- The screen shows the last of `rows`. -/
def ShowsRows (v : Vga) (rows : List (List Cell)) : Prop :=
  ∀ y < vgaHeight, ∀ x < vgaWidth,
    CellOf (rows.getD (topRow rows.length + y) []) x (v.vga (y * vgaWidth + x))

/-- The screen shows the last of `rows` and `row`, and the cursor is right behind `row`. -/
structure Scrolls (v : Vga) (rows : List (List Cell)) (row : List Cell) : Prop where
  shows : ShowsRows v (rows ++ [row])
  fits : row.length ≤ vgaWidth
  cursorX : v.cursorX = row.length
  cursorY : v.cursorY = (min rows.length (vgaHeight - 1) : Nat)

/-! ## Texts -/

/-- What is printed: printable characters and newlines. -/
def OutputText (text : List Byte) : Prop := ∀ c ∈ text, Printable c ∨ c = 0x0A

instance (text : List Byte) : Decidable (OutputText text) :=
  List.decidableBAll (fun c => Printable c ∨ c = 0x0A) text

theorem OutputText.of_printable {text : List Byte} (h : ∀ c ∈ text, Printable c) :
    OutputText text := fun c hc => .inl (h c hc)

theorem OutputText.append {l r : List Byte} (hl : OutputText l) (hr : OutputText r) :
    OutputText (l ++ r) := fun c hc => (List.mem_append.mp hc).elim (hl c) (hr c)

/-- There is no terminator in such a text. -/
theorem OutputText.bytes_ofBytes {text : List Byte} (h : OutputText text) :
    (CString.ofBytes text).bytes = text := by
  refine List.takeWhile_eq_self_iff.mpr fun c hc => ?_
  have hne : c ≠ 0 := by
    rintro rfl
    rcases h 0 hc with hp | hn
    · exact absurd hp (by decide)
    · exact absurd hn (by decide)
  simpa using hne

theorem print_currentColor (text : List Byte) : ∀ v : Vga,
    (text.foldl vgaPutchar v).currentColor = v.currentColor := by
  induction text with
  | nil => exact fun _ => rfl
  | cons c text ih =>
    intro v
    rw [List.foldl_cons, ih, putchar_currentColor]

theorem textLines_newline (text : List Byte) : textLines (0x0A :: text) = [] :: textLines text :=
  if_pos rfl

theorem textLines_cons_ne {c : Byte} (hc : c ≠ 0x0A) (text : List Byte) :
    textLines (c :: text) = (textLines text).modifyHead (c :: ·) :=
  if_neg hc

/-! ## Cells of a row -/

theorem cellOf_concat {row : List Cell} {c cell : Cell} {x : Nat} :
    CellOf (row ++ [c]) x cell ↔ if x = row.length then cell = c else CellOf row x cell := by
  unfold CellOf
  rcases Nat.lt_trichotomy x row.length with hlt | rfl | hgt
  · rw [if_neg (by omega), List.getElem?_append_left hlt]
  · rw [if_pos rfl, List.getElem?_concat_length]
  · rw [if_neg (by omega), List.getElem?_eq_none (by simp; omega),
      List.getElem?_eq_none (by omega)]

/-- Where the last row is on the screen. -/
theorem topRow_add (rows : List (List Cell)) (row : List Cell) :
    topRow (rows ++ [row]).length + min rows.length (vgaHeight - 1) = rows.length := by
  unfold topRow vgaHeight
  rw [List.length_append, List.length_singleton]
  omega

/-! ## Characters -/

theorem putchar_shown_eq {v : Vga} {c : Byte} (hc : Printable c) :
    vgaPutchar v c =
      { vgaPutcharAt v c v.currentColor (clampX v.cursorX) (clampY v.cursorY) with
        cursorX := clampX v.cursorX + 1, cursorY := clampY v.cursorY } := by
  obtain ⟨hplain, hshown⟩ := hc.plain
  have hx := (clampCursor_lt v).1
  have hwrite := write_shown hplain hshown hx
  have hput := (putchar_of_lt (s := v) (c := c)
    (by rw [hwrite]; exact (clampCursor_lt v).2)).2
  rw [hput, hwrite]
  rfl

theorem putchar_newline_eq (v : Vga) :
    vgaPutchar v 0x0A =
      if clampY v.cursorY + 1 < vgaHeight then
        { v with cursorX := 0, cursorY := clampY v.cursorY + 1 }
      else { vgaScroll { v with cursorX := 0, cursorY := clampY v.cursorY + 1 } with
        cursorY := (vgaHeight : Int) - 1 } := by
  have hwrite : v.clampCursor.write 0x0A
      = { v with cursorX := 0, cursorY := clampY v.cursorY + 1 } := write_newline (.inl rfl)
  have hlast : (vgaHeight : Int) ≤ clampY v.cursorY + 1 ↔ ¬ clampY v.cursorY + 1 < vgaHeight :=
    Int.not_lt.symm
  rw [vgaPutchar]
  simp only [hwrite, hlast, ite_not]

namespace Scrolls

variable {v : Vga} {rows : List (List Cell)} {row : List Cell}

/-- The rows above the last one do not depend on it. -/
theorem getD_concat_ne {rows : List (List Cell)} {k : Nat} (hk : k ≠ rows.length)
    (row row' : List Cell) : (rows ++ [row]).getD k [] = (rows ++ [row']).getD k [] := by
  simp only [List.getD_eq_getElem?_getD]
  by_cases hlt : k < rows.length
  · rw [List.getElem?_append_left hlt, List.getElem?_append_left hlt]
  · rw [List.getElem?_eq_none (by simp; omega), List.getElem?_eq_none (by simp; omega)]

theorem getD_concat_length (rows : List (List Cell)) (row : List Cell) :
    (rows ++ [row]).getD rows.length [] = row := by
  rw [List.getD_eq_getElem?_getD, List.getElem?_concat_length]
  rfl

theorem clampY_cursor (h : Scrolls v rows row) :
    clampY v.cursorY = (min rows.length (vgaHeight - 1) : Nat) := by
  rw [h.cursorY, clampY, if_neg (by unfold vgaHeight; omega)]

/-- A printable character goes behind the row. -/
theorem char (h : Scrolls v rows row) (hroom : row.length < vgaWidth) {c : Byte}
    (hc : Printable c) :
    Scrolls (vgaPutchar v c) rows (row ++ [vgaCell c v.currentColor]) := by
  have hx : clampX v.cursorX = row.length := by
    rw [h.cursorX, clampX, if_neg (by omega)]
  rw [putchar_shown_eq hc, hx, h.clampY_cursor]
  refine ⟨?_, by rw [List.length_append]; exact hroom, by simp, rfl⟩
  intro y hy x hxw
  have hold := h.shows y hy x hxw
  have hlast := topRow_add rows row
  have hlen : ∀ r r' : List Cell, (rows ++ [r]).length = (rows ++ [r']).length := by simp
  show CellOf _ x ((v.setCell _ _).vga _)
  rw [setCell_cell v _ y hroom hxw, hlen _ row]
  by_cases hy' : y = min rows.length (vgaHeight - 1)
  · -- the row of the cursor is the last one
    rw [hy', hlast, getD_concat_length] at hold ⊢
    rw [cellOf_concat]
    by_cases hxn : x = row.length
    · rw [if_pos hxn, if_pos ⟨rfl, hxn⟩]
    · rw [if_neg hxn, if_neg fun h => hxn h.2]
      exact hold
  · rw [if_neg fun h => hy' h.1, getD_concat_ne (by omega) _ row]
    exact hold

/-- The row after the last one is empty, as what is behind the rows. -/
theorem getD_concat_nil (rows : List (List Cell)) (k : Nat) :
    (rows ++ [[]]).getD k [] = rows.getD k [] := by
  simp only [List.getD_eq_getElem?_getD]
  rcases Nat.lt_trichotomy k rows.length with hlt | rfl | hgt
  · rw [List.getElem?_append_left hlt]
  · rw [List.getElem?_concat_length, List.getElem?_eq_none (Nat.le_refl _)]
    rfl
  · rw [List.getElem?_eq_none (by simp; omega), List.getElem?_eq_none (by omega)]

/-- The row below. -/
theorem nextRow (h : Scrolls v rows row) (hroom : rows.length < vgaHeight - 1) {s : Vga}
    (hcells : s.vga = v.vga) (hx : s.cursorX = 0)
    (hy : s.cursorY = (min rows.length (vgaHeight - 1) : Nat) + 1) :
    Scrolls s (rows ++ [row]) [] := by
  have hlen : (rows ++ [row]).length = rows.length + 1 := by simp
  have htop : topRow (rows ++ [row] ++ [[]]).length = topRow (rows ++ [row]).length := by
    rw [List.length_append, hlen]
    unfold topRow vgaHeight at *
    simp only [List.length_singleton]
    omega
  refine ⟨?_, Nat.zero_le _, hx, ?_⟩
  · intro y hy x hx
    rw [getD_concat_nil, htop, hcells]
    exact h.shows y hy x hx
  · rw [hy, hlen]
    unfold vgaHeight at *
    omega

/-- The row after the last one, on a screen that moves up. -/
theorem scroll (h : Scrolls v rows row) (hfull : vgaHeight - 1 ≤ rows.length) {s : Vga}
    (hcells : ∀ y < vgaHeight, ∀ x < vgaWidth, s.vga (y * vgaWidth + x) =
      if y = vgaHeight - 1 then vgaCell 0x20 v.currentColor
      else v.vga ((y + 1 : Nat) * vgaWidth + x))
    (hx : s.cursorX = 0) (hy : s.cursorY = (vgaHeight : Int) - 1) :
    Scrolls s (rows ++ [row]) [] := by
  have hlen : (rows ++ [row]).length = rows.length + 1 := by simp
  have htop : topRow (rows ++ [row] ++ [[]]).length = topRow (rows ++ [row]).length + 1 := by
    rw [List.length_append, hlen]
    unfold topRow vgaHeight at *
    simp only [List.length_singleton]
    omega
  refine ⟨?_, Nat.zero_le _, hx, ?_⟩
  · intro y hy x hx
    rw [getD_concat_nil, htop, hcells y hy x hx]
    by_cases hlast : y = vgaHeight - 1
    · -- the last row is behind all rows, and blank
      rw [if_pos hlast, List.getD_eq_default _ _ (by unfold topRow vgaHeight at *; omega)]
      exact ⟨_, rfl⟩
    · rw [if_neg hlast, Nat.add_right_comm, Nat.add_assoc]
      exact h.shows (y + 1) (by omega) x hx
  · rw [hy, hlen]
    unfold vgaHeight at *
    omega

/-- A newline begins the next row. -/
theorem newline (h : Scrolls v rows row) : Scrolls (vgaPutchar v 0x0A) (rows ++ [row]) [] := by
  rw [putchar_newline_eq, h.clampY_cursor]
  by_cases hroom : rows.length < vgaHeight - 1
  · rw [if_pos (by unfold vgaHeight at *; omega)]
    exact h.nextRow hroom rfl rfl rfl
  · rw [if_neg (by unfold vgaHeight at *; omega)]
    refine h.scroll (Nat.not_lt.mp hroom) ?_ ?_ rfl
    · intro y hy x hx
      simp only [vgaScroll_cell _ hy hx]
    · simp only [(vgaScroll_onlyCells _).cursorX]

/-! ### Texts -/

theorem modifyHead_nil_append (lines : List (List Cell)) : lines.modifyHead ([] ++ ·) = lines := by
  cases lines with
  | nil => rfl
  | cons line lines => rfl

/-- A text goes on behind the row, and each of its lines ends a row. -/
theorem text {text : List Byte} (htext : OutputText text) :
    ∀ {v : Vga} {rows : List (List Cell)} {row : List Cell}, Scrolls v rows row →
      (∀ line ∈ ((textLines text).map (colored v.currentColor)).modifyHead (row ++ ·),
        line.length ≤ vgaWidth) →
      Scrolls ((text ++ [0x0A]).foldl vgaPutchar v)
        (rows ++ ((textLines text).map (colored v.currentColor)).modifyHead (row ++ ·)) [] := by
  induction text with
  | nil =>
    intro v rows row h _
    simpa [textLines, colored] using h.newline
  | cons c text ih =>
    intro v rows row h hfits
    have hrest : OutputText text := fun d hd => htext d (List.mem_cons_of_mem c hd)
    rw [List.cons_append, List.foldl_cons]
    by_cases hc : c = 0x0A
    · subst hc
      have htail := ih hrest h.newline
      rw [putchar_currentColor] at htail
      rw [textLines_newline, List.map_cons, List.modifyHead_cons] at hfits ⊢
      rw [modifyHead_nil_append, List.append_assoc, List.singleton_append] at htail
      rw [show colored v.currentColor [] = [] from rfl, List.append_nil] at hfits ⊢
      exact htail fun line hl => hfits line (List.mem_cons_of_mem _ hl)
    · have hprintable : Printable c := (htext c List.mem_cons_self).resolve_right hc
      cases hlines : textLines text with
      | nil => exact absurd hlines (textLines_ne_nil text)
      | cons first lines =>
        rw [textLines_cons_ne hc, hlines] at hfits ⊢
        simp only [List.modifyHead_cons, List.map_cons] at hfits ⊢
        have hfirst := hfits _ List.mem_cons_self
        simp only [List.length_append, colored, List.length_map, List.length_cons] at hfirst
        have htail := ih hrest (h.char (by omega) hprintable)
        rw [putchar_currentColor, hlines] at htail
        simp only [List.modifyHead_cons, List.map_cons, List.append_assoc,
          List.singleton_append] at htail
        exact htail hfits

/-- A text that begins a row. -/
theorem lines {text : List Byte} (htext : OutputText text) (h : Scrolls v rows [])
    (hfits : ∀ line ∈ textLines text, line.length ≤ vgaWidth) :
    Scrolls ((text ++ [0x0A]).foldl vgaPutchar v)
      (rows ++ (textLines text).map (colored v.currentColor)) [] := by
  have hall := h.text htext
  rw [modifyHead_nil_append] at hall
  refine hall fun line hline => ?_
  obtain ⟨l, hl, rfl⟩ := List.mem_map.mp hline
  rw [colored, List.length_map]
  exact hfits l hl

theorem setColor (h : Scrolls v rows row) (fg bg : Word) :
    Scrolls (vgaSetColor v fg bg) rows row :=
  ⟨h.shows, h.fits, h.cursorX, h.cursorY⟩

theorem clear (v : Vga) : Scrolls (vgaClear v) [] [] := by
  obtain ⟨-, hcells⟩ := vgaClear_spec v
  refine ⟨?_, Nat.zero_le _, rfl, rfl⟩
  intro y hy x hx
  rw [getD_concat_nil, hcells y hy x hx]
  exact ⟨_, rfl⟩

end Scrolls

end MinimalistOS
