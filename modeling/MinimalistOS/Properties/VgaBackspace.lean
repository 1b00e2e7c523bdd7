import MinimalistOS.Properties.VgaBounds

/-!
# Backspace undoes a character

A character in the last column leaves the cursor behind it, at column 80 of the same row. Printing
and a backspace both begin with bringing such a cursor back to column 0, so the backspace steps back
from there: to the end of the row above, or nowhere from the first row.

* `cursor_reached` — the columns 0 to 80 and the rows of the screen are all there is
* `backspace_undoes_iff` — a backspace undoes a character everywhere but in the last column
-/

namespace MinimalistOS

open Infra

/-! ## Reachable cursors -/

/-- The calls that print, clear the screen or set the cursor. -/
def VgaCall.MovesCursor : VgaCall → Prop
  | .putchar _ => True
  | .print _ => True
  | .clear => True
  | .setCursor _ _ => True
  | _ => False

/-- A cursor position that such calls reach. -/
def CursorReached (x y : Int) : Prop :=
  ∃ memory calls, (∀ call ∈ calls, VgaCall.MovesCursor call) ∧
    (run Vga.step (Vga.boot memory) calls).CursorAt x y

/-- The invariant of these calls. -/
def Vga.CursorBounded (s : Vga) : Prop :=
  (0 ≤ s.cursorX ∧ s.cursorX ≤ 80) ∧ 0 ≤ s.cursorY ∧ s.cursorY ≤ 24

theorem cursorBounded_origin {s : Vga} (h : s.CursorAt 0 0) : s.CursorBounded := by
  unfold Vga.CursorBounded
  rw [h.1, h.2]
  decide

theorem clampX_of_bounded {x : Int} (h : 0 ≤ x ∧ x ≤ 80) : 0 ≤ clampX x ∧ clampX x ≤ 79 := by
  unfold clampX vgaWidth
  split <;> omega

theorem clampY_of_bounded {y : Int} (h : 0 ≤ y ∧ y ≤ 24) : clampY y = y := by
  unfold clampY vgaHeight
  split <;> omega

theorem putchar_cursorBounded {s : Vga} (h : s.CursorBounded) (c : Byte) :
    (vgaPutchar s c).CursorBounded := by
  have hx := clampX_of_bounded h.1
  have hy := clampY_of_bounded h.2
  have hrow := h.2
  unfold Vga.CursorBounded
  rcases char_cases c with hc | rfl | rfl | ⟨hc, hshown⟩ | ⟨hc, hhidden⟩
  · obtain ⟨-, hcx, hcy⟩ := putchar_newline (s := s) hc
    rw [hcx, hcy]
    omega
  · obtain ⟨x, y, ⟨hcx, hcy⟩, -, hback⟩ := putchar_backspace s
    rw [hcx, hcy]
    omega
  · obtain ⟨-, hcx, hcy⟩ := putchar_tab s
    rw [hcx, hcy]
    omega
  · obtain ⟨-, hcx, hcy⟩ := putchar_shown (s := s) hc hshown
    rw [hcx, hcy]
    omega
  · obtain ⟨-, hcx, hcy⟩ := putchar_hidden (s := s) hc hhidden
    rw [hcx, hcy]
    omega

theorem print_cursorBounded (str : List Byte) : ∀ {s : Vga}, s.CursorBounded →
    (str.foldl vgaPutchar s).CursorBounded := by
  induction str with
  | nil => exact id
  | cons c str ih => exact fun h => ih (putchar_cursorBounded h c)

theorem step_cursorBounded {s : Vga} (h : s.CursorBounded) {call : VgaCall}
    (hcall : call.MovesCursor) : (s.step call).1.CursorBounded := by
  cases call with
  | clear => exact cursorBounded_origin ⟨rfl, rfl⟩
  | putchar c => exact putchar_cursorBounded h c
  | print str => exact print_cursorBounded str.bytes h
  | setCursor x y =>
    simp only [Vga.step, vgaSetCursor]
    split
    next hxy =>
      unfold vgaWidth vgaHeight at hxy
      unfold Vga.CursorBounded
      simp only
      omega
    · exact h
  | init => exact absurd hcall id
  | scroll => exact absurd hcall id
  | printAt str x y => exact absurd hcall id
  | setColor fg bg => exact absurd hcall id

/-- Every reachable cursor is on a row of the screen, and in a column of it or right behind. -/
theorem cursor_reached {x y : Int} (h : CursorReached x y) :
    (0 ≤ x ∧ x ≤ 80) ∧ 0 ≤ y ∧ y ≤ 24 := by
  obtain ⟨memory, calls, hcalls, rfl, rfl⟩ := h
  have hboot : (Vga.boot memory).CursorBounded := cursorBounded_origin ⟨rfl, rfl⟩
  exact inv_run Vga.step (I := Vga.CursorBounded) (P := fun _ call => call.MovesCursor)
    (fun _ _ hs hcall => step_cursorBounded hs hcall) hboot
    (along_of_forall Vga.step _ fun call hmem _ => hcalls call hmem)

/-! ## Backspace -/

/-- A backspace after `c` leaves the cell where `c` was drawn blank, the cursor on that cell, and
every other cell as it was. -/
def BackspaceUndoes (s : Vga) (c : Byte) : Prop :=
  ∃ x y : Int, (0 ≤ x ∧ x < vgaWidth) ∧ s.putcharWrites c = [y * vgaWidth + x] ∧
    (vgaPutchar (vgaPutchar s c) 0x08).vga (y * vgaWidth + x) = vgaCell 0x20 s.currentColor ∧
    (vgaPutchar (vgaPutchar s c) 0x08).CursorAt x y ∧
    ∀ i ≠ y * vgaWidth + x, (vgaPutchar (vgaPutchar s c) 0x08).vga i = s.vga i

/-- What a backspace writes is a blank. -/
theorem putchar_backspace_cell {s : Vga} {i : Int} (hi : i ∈ s.putcharWrites 0x08) :
    (vgaPutchar s 0x08).vga i = vgaCell 0x20 s.currentColor := by
  obtain ⟨hwrites, hput⟩ := putchar_backspace_eq s
  rw [hwrites, List.mem_singleton] at hi
  rw [hput, hi, vgaPutcharAt, stepBack_currentColor]
  exact Function.update_self _ _ _

/-- **A backspace undoes a printable character everywhere but in the last column.** No printable
character scrolls the screen. -/
theorem backspace_undoes_iff {s : Vga} (hs : CursorReached s.cursorX s.cursorY) {c : Byte}
    (hc : Printable c) : BackspaceUndoes s c ↔ s.cursorX ≠ 79 := by
  obtain ⟨hx, hy⟩ := cursor_reached hs
  have hclampY := clampY_of_bounded hy
  obtain ⟨hwrites, hcx, hcy⟩ := putchar_shown (s := s) hc.plain.1 hc.plain.2
  obtain ⟨x, y, ⟨hbx, hby⟩, hbwrites, hback⟩ := putchar_backspace (vgaPutchar s c)
  rw [hcx, hcy, hclampY, hclampY] at hback
  constructor
  · rintro ⟨x', y', hx', hwrites', -, ⟨hcx', hcy'⟩, -⟩ h79
    -- the cursor was brought back to column 0 before the backspace
    have hclampX : clampX s.cursorX = 79 := by rw [h79]; rfl
    have hzero : clampX (clampX s.cursorX + 1) = 0 := by rw [hclampX]; rfl
    rw [hzero] at hback
    rw [hwrites, hclampX] at hwrites'
    have hcell := (List.cons.inj hwrites').1
    rw [hbx] at hcx'
    rw [hby] at hcy'
    unfold vgaWidth at hcell hx'
    omega
  · intro h79
    have hbounds := clampX_of_bounded hx
    have hlast : clampX s.cursorX ≠ 79 := by
      unfold clampX vgaWidth
      split <;> omega
    have hclamp : clampX (clampX s.cursorX + 1) = clampX s.cursorX + 1 := by
      unfold clampX at hlast hbounds ⊢
      unfold vgaWidth at *
      split_ifs at * <;> omega
    rw [hclamp] at hback
    obtain ⟨rfl, rfl⟩ : x = clampX s.cursorX ∧ y = clampY s.cursorY := by omega
    refine ⟨_, _, ⟨hbounds.1, clampX_lt _⟩, hwrites, ?_, ⟨hbx, hby⟩, fun i hi => ?_⟩
    · rw [putchar_backspace_cell (by rw [hbwrites]; exact List.mem_singleton_self _),
        putchar_currentColor]
    · rw [putchar_frame (by rw [hbwrites, List.mem_singleton]; exact hi),
        putchar_frame (by rw [hwrites, List.mem_singleton]; exact hi)]

/-- In the last column but one of the last row. -/
theorem backspace_undoes_before_last :
    BackspaceUndoes (vgaSetCursor (Vga.boot fun _ => 0) 78 24) 0x41 :=
  (backspace_undoes_iff ⟨fun _ => 0, [.setCursor 78 24], by simp [VgaCall.MovesCursor],
    by decide, by decide⟩ ⟨by decide, by decide⟩).mpr (by decide)

/-- In the last column of the second row: `A` stays where it is, and the cursor and the blank are in
the first row. -/
theorem backspace_last_column :
    CursorReached 79 1 ∧
      (vgaPutchar (vgaPutchar (vgaSetCursor (Vga.boot fun _ => 0) 79 1) 0x41) 0x08).vga 159
        = vgaCell 0x41 0x07 ∧
      ¬ BackspaceUndoes (vgaSetCursor (Vga.boot fun _ => 0) 79 1) 0x41 := by
  refine ⟨⟨fun _ => 0, [.setCursor 79 1], by simp [VgaCall.MovesCursor], by decide, by decide⟩,
    by decide, ?_⟩
  rintro ⟨x, y, -, hwrites, -, ⟨hx, hy⟩, -⟩
  have hcell : (vgaSetCursor (Vga.boot fun _ => 0) 79 1).putcharWrites 0x41 = [159] := by decide
  have hrow : (vgaPutchar (vgaPutchar (vgaSetCursor (Vga.boot fun _ => 0) 79 1) 0x41)
      0x08).CursorAt 79 0 := by
    constructor <;> decide
  rw [hcell, ← hx, ← hy, hrow.1, hrow.2] at hwrites
  exact absurd hwrites (by decide)

end MinimalistOS
