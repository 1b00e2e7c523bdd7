import MinimalistOS.Kernel.Vga

/-!
# What a terminal shows

A text is a sequence of lines. A line takes as many rows of eighty columns as it needs, one if it
is empty, and the screen shows the last twenty-five rows of the text.
-/

namespace MinimalistOS

open Infra

/-- `'\n'`. -/
def newline : Byte := 0x0A

/-- A printable ASCII character. -/
def Printable (c : Byte) : Prop := 0x20 ≤ c.toNat ∧ c.toNat ≤ 0x7E

instance (c : Byte) : Decidable (Printable c) := inferInstanceAs (Decidable (_ ∧ _))

/-- The lines of a text. The one after the last newline is a line too, empty or not. -/
def textLines : List Byte → List (List Byte)
  | [] => [[]]
  | c :: text =>
    if c = newline then [] :: textLines text else (textLines text).modifyHead (c :: ·)

/-- A text in one colour. -/
def colored (color : Byte) (text : List Byte) : List Cell := text.map (vgaCell · color)

/-- The rows that a line takes. -/
def wrapLine (line : List Byte) : List (List Byte) :=
  if line.length ≤ vgaWidth then [line]
  else line.take vgaWidth :: wrapLine (line.drop vgaWidth)
termination_by line.length
decreasing_by
  simp only [List.length_drop, vgaWidth] at *
  omega

/-- The text, laid out in rows. -/
def wrapped (text : List Byte) : List (List Byte) := (textLines text).flatMap wrapLine

/-- The rows that are shown. -/
def lastRows (rows : List (List Byte)) : List (List Byte) := rows.drop (rows.length - vgaHeight)

/-- What stands in a cell of the screen; where there is nothing, a space. -/
def charAt (rows : List (List Byte)) (y x : Nat) : Byte :=
  ((lastRows rows).getD y []).getD x 0x20

/-- The screen shows these rows, in one colour. -/
def Shows (s : Vga) (rows : List (List Byte)) : Prop :=
  ∀ y < vgaHeight, ∀ x < vgaWidth,
    s.vga (y * vgaWidth + x) = vgaCell (charAt rows y x) s.currentColor

/-! ## Lines -/

theorem textLines_ne_nil (text : List Byte) : textLines text ≠ [] := by
  induction text with
  | nil => simp [textLines]
  | cons c text ih =>
    rw [textLines]
    split
    · simp
    · cases htext : textLines text with
      | nil => exact absurd htext ih
      | cons line lines => simp

/-- The text is its lines with newlines in between. -/
theorem intercalate_textLines (text : List Byte) :
    [newline].intercalate (textLines text) = text := by
  induction text with
  | nil => rfl
  | cons c text ih =>
    rw [textLines]
    split
    · next hc =>
      rw [List.intercalate_cons_of_ne_nil (textLines_ne_nil text), ih, hc]
      rfl
    · cases htext : textLines text with
      | nil => exact absurd htext (textLines_ne_nil text)
      | cons line lines =>
        rw [htext] at ih
        rw [List.modifyHead_cons, List.intercalate_cons_cons_left, ih]

/-- The lines of a text of printable characters and newlines are printable. -/
theorem printable_of_mem_textLines {text : List Byte}
    (h : ∀ c ∈ text, Printable c ∨ c = newline) :
    ∀ line ∈ textLines text, ∀ c ∈ line, Printable c := by
  induction text with
  | nil =>
    intro line hline c hc
    simp only [textLines, List.mem_singleton] at hline
    simp [hline] at hc
  | cons c text ih =>
    have htail := ih fun b hb => h b (List.mem_cons_of_mem c hb)
    intro line hline b hb
    rw [textLines] at hline
    split at hline
    · rcases List.mem_cons.mp hline with rfl | hline
      · cases hb
      · exact htail line hline b hb
    · next hc =>
      have hprint : Printable c := (h c List.mem_cons_self).resolve_right hc
      cases htext : textLines text with
      | nil => exact absurd htext (textLines_ne_nil text)
      | cons first lines =>
        rw [htext] at hline htail
        rw [List.modifyHead_cons, List.mem_cons] at hline
        rcases hline with rfl | hline
        · rcases List.mem_cons.mp hb with rfl | hb
          · exact hprint
          · exact htail first List.mem_cons_self b hb
        · exact htail line (List.mem_cons_of_mem first hline) b hb

/-! ## Rows -/

theorem charAt_eq (rows : List (List Byte)) (y x : Nat) :
    charAt rows y x = (rows.getD (rows.length - vgaHeight + y) []).getD x 0x20 := by
  unfold charAt lastRows
  simp only [List.getD_eq_getElem?_getD, List.getElem?_drop]

/-- An empty row at the end moves the others up, once the screen is full. -/
theorem charAt_append_nil (rows : List (List Byte)) (y x : Nat) :
    charAt (rows ++ [[]]) y x
      = if vgaHeight ≤ rows.length then charAt rows (y + 1) x else charAt rows y x := by
  have hget : ∀ i, (rows ++ [[]]).getD i [] = rows.getD i [] := by
    intro i
    simp only [List.getD_eq_getElem?_getD, List.getElem?_append]
    split
    · rfl
    · next hge =>
      rw [List.getElem?_eq_none (l := rows) (by omega)]
      cases i - rows.length with
      | zero => rfl
      | succ k => rfl
  rw [charAt_eq, hget, List.length_append, List.length_singleton]
  split
  · next hfull =>
    rw [charAt_eq]
    congr 2
    omega
  · next hfull =>
    rw [charAt_eq]
    congr 2
    omega

/-- Another last row. -/
theorem charAt_last (rows : List (List Byte)) (row row' : List Byte) (y x : Nat) :
    charAt (rows ++ [row']) y x
      = if y = min rows.length (vgaHeight - 1) then row'.getD x 0x20
        else charAt (rows ++ [row]) y x := by
  rw [charAt_eq, charAt_eq, List.length_append, List.length_append, List.length_singleton,
    List.length_singleton]
  unfold vgaHeight
  simp only [List.getD_eq_getElem?_getD, List.getElem?_append]
  by_cases hy : y = min rows.length 24
  · rw [if_pos hy, if_neg (by omega), show rows.length + 1 - 25 + y - rows.length = 0 by omega]
    rfl
  · rw [if_neg hy]
    by_cases hlt : rows.length + 1 - 25 + y < rows.length
    · rw [if_pos hlt, if_pos hlt]
    · obtain ⟨k, hk⟩ : ∃ k, rows.length + 1 - 25 + y - rows.length = k + 1 :=
        ⟨rows.length + 1 - 25 + y - rows.length - 1, by omega⟩
      rw [if_neg hlt, if_neg hlt, hk]
      rfl

end MinimalistOS
