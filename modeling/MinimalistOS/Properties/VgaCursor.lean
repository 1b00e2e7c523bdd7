import MinimalistOS.Kernel.VgaCursor
import MinimalistOS.Properties.VgaBackspace

/-!
# The hardware cursor

* `step_vga` — the screen is that of `Kernel/Vga.lean`, whatever goes to the controller
* `updateCursor_follows` — `vga_update_cursor` brings the hardware cursor to the cursor of `vga.c`
* `hardware_cursor_follows` — where the hardware cursor is after `vga_init` and any calls

The cursor of `vga.c` may stand in column 80, behind a full row. The hardware then shows it at the
start of the next row, and below the screen after the last row, while the next character goes to the
start of the row that is full.
-/

namespace MinimalistOS

open Infra

/-! ## The screen -/

theorem print_vga (bytes : List Byte) : ∀ d : Display,
    (bytes.foldl Display.putchar d).vga = bytes.foldl vgaPutchar d.vga := by
  induction bytes with
  | nil => exact fun _ => rfl
  | cons c bytes ih => exact fun d => ih (d.putchar c)

/-- **The controller has no part in what is on the screen.** -/
theorem step_vga (d : Display) (call : VgaCall) :
    (d.step (.vga call)).1.vga = (d.vga.step call).1 := by
  cases call with
  | init => rfl
  | clear => rfl
  | putchar c => rfl
  | print str => exact print_vga str.bytes d
  | scroll => rfl
  | setCursor x y =>
    simp only [Display.step, Display.setCursor, Vga.step, vgaSetCursor]
    split <;> rfl
  | printAt str x y =>
    have hprint := print_vga str.bytes (d.onScreen fun s => { s with cursorX := x, cursorY := y })
    simp only [Display.step, Display.printAt, Display.updateCursor, Display.onScreen, Display.print,
      Vga.step, vgaPrintAt, vgaPrint] at hprint ⊢
    rw [hprint]
  | setColor fg bg => rfl

/-- No call leaves the cursor elsewhere. -/
theorem step_bounded {s : Vga} (h : s.CursorBounded) (call : VgaCall) :
    (s.step call).1.CursorBounded := by
  cases call with
  | init => exact cursorBounded_origin ⟨rfl, rfl⟩
  | clear => exact @step_cursorBounded s h .clear trivial
  | putchar c => exact @step_cursorBounded s h (.putchar c) trivial
  | print str => exact @step_cursorBounded s h (.print str) trivial
  | setCursor x y => exact @step_cursorBounded s h (.setCursor x y) trivial
  | scroll =>
    obtain ⟨hx, hy, -⟩ := vgaScroll_onlyCells s
    unfold Vga.CursorBounded at h ⊢
    simp only [Vga.step]
    rw [hx, hy]
    exact h
  | printAt str x y => exact h
  | setColor fg bg => exact h

/-! ## The controller -/

/-- The two bytes that `vga_update_cursor` sends are the sixteen bits. -/
theorem append_bytes (pos : BitVec 16) :
    (pos >>> 8 &&& 0xFF).truncate 8 ++ (pos &&& 0xFF).truncate 8 = pos := by
  have hones : ∀ (i : Nat) (_ : i < 8), (255#8)[i] = true := by decide
  ext i hi
  rw [← BitVec.getLsbD_eq_getElem, BitVec.getLsbD_append, ← BitVec.getLsbD_eq_getElem]
  by_cases hlow : i < 8
  · simp [hlow, hones]
  · have hsub : i - 8 < 8 := by omega
    have hadd : 8 + (i - 8) = i := by omega
    simp [hlow, hsub, hones, hadd]

/-- `vga_update_cursor` writes the two location registers. -/
theorem updateCursor_reg (d : Display) :
    let pos := BitVec.ofInt 16 (d.vga.cursorY * vgaWidth + d.vga.cursorX)
    d.updateCursor.crtc.reg
      = Function.update (Function.update d.crtc.reg 0x0E ((pos >>> 8 &&& 0xFF).truncate 8)) 0x0F
          ((pos &&& 0xFF).truncate 8) := by
  simp only [Display.updateCursor, Crtc.outb_outb]

/-- `vga_enable_cursor` writes the two registers of the cursor's shape. -/
theorem enableCursor_reg (d : Display) (cursorStart cursorEnd : Byte) :
    (d.enableCursor cursorStart cursorEnd).crtc.reg
      = Function.update (Function.update d.crtc.reg 0x0A (0x00 &&& 0xC0 ||| cursorStart &&& 0x1F))
          0x0B (0x00 &&& 0xE0 ||| cursorEnd &&& 0x1F) := by
  simp only [Display.enableCursor, Crtc.outb_outb]

theorem updateCursor_on (d : Display) : d.updateCursor.crtc.cursorOn = d.crtc.cursorOn := by
  unfold Crtc.cursorOn
  rw [updateCursor_reg]
  rfl

theorem updateCursor_location (d : Display) :
    d.updateCursor.crtc.location
      = (BitVec.ofInt 16 (d.vga.cursorY * vgaWidth + d.vga.cursorX)).toNat := by
  unfold Crtc.location
  rw [updateCursor_reg]
  exact congrArg BitVec.toNat (append_bytes _)

theorem enableCursor_on (d : Display) (cursorStart cursorEnd : Byte) :
    (d.enableCursor cursorStart cursorEnd).crtc.cursorOn = true := by
  have hbit : ∀ b : Byte, (0x00 &&& 0xC0 ||| b &&& 0x1F : Byte).getLsbD 5 = false := by
    intro b
    simp
  unfold Crtc.cursorOn
  rw [enableCursor_reg]
  exact congrArg not (hbit cursorStart)

theorem enableCursor_location (d : Display) (cursorStart cursorEnd : Byte) :
    (d.enableCursor cursorStart cursorEnd).crtc.location = d.crtc.location := by
  unfold Crtc.location
  rw [enableCursor_reg]
  rfl

/-! ## One call -/

/-- The hardware cursor is on, and where the cursor of `vga.c` is. -/
structure Follows (d : Display) : Prop where
  bounded : d.vga.CursorBounded
  on : d.crtc.cursorOn = true
  location : (d.crtc.location : Int) = d.vga.cursorY * vgaWidth + d.vga.cursorX

theorem updateCursor_follows {d : Display} (h : d.vga.CursorBounded)
    (hon : d.crtc.cursorOn = true) : Follows d.updateCursor where
  bounded := h
  on := (updateCursor_on d).trans hon
  location := by
    obtain ⟨hx, hy⟩ := h
    show (d.updateCursor.crtc.location : Int) = d.vga.cursorY * vgaWidth + d.vga.cursorX
    rw [updateCursor_location, BitVec.toNat_ofInt]
    unfold vgaWidth
    omega

theorem putchar_follows {d : Display} (h : d.vga.CursorBounded) (hon : d.crtc.cursorOn = true)
    (c : Byte) : Follows (d.putchar c) :=
  updateCursor_follows (d := d.onScreen fun s => vgaPutchar s c) (putchar_cursorBounded h c) hon

theorem print_follows (bytes : List Byte) : ∀ {d : Display}, Follows d →
    Follows (bytes.foldl Display.putchar d) := by
  induction bytes with
  | nil => exact id
  | cons c bytes ih => exact fun h => ih (putchar_follows h.bounded h.on c)

/-- From wherever the cursor is, printing leaves the hardware cursor on. -/
theorem print_on (bytes : List Byte) : ∀ d : Display,
    (bytes.foldl Display.putchar d).crtc.cursorOn = d.crtc.cursorOn := by
  induction bytes with
  | nil => exact fun _ => rfl
  | cons c bytes ih => exact fun d => (ih (d.putchar c)).trans (updateCursor_on _)

theorem clear_follows {d : Display} (hon : d.crtc.cursorOn = true) : Follows d.clear :=
  updateCursor_follows (cursorBounded_origin ⟨rfl, rfl⟩) hon

theorem init_follows (d : Display) : Follows d.init :=
  updateCursor_follows (cursorBounded_origin ⟨rfl, rfl⟩)
    ((updateCursor_on _).trans (enableCursor_on d 0 15))

/-- **Every call** leaves the hardware cursor at the cursor of `vga.c`. -/
theorem Follows.step {d : Display} (h : Follows d) (call : DisplayCall) :
    Follows (d.step call).1 := by
  cases call with
  | vga call =>
    have hbounded : (d.step (.vga call)).1.vga.CursorBounded := by
      rw [step_vga]
      exact step_bounded h.bounded call
    cases call with
    | init => exact init_follows d
    | clear => exact clear_follows h.on
    | putchar c => exact putchar_follows h.bounded h.on c
    | print str => exact print_follows str.bytes h
    | scroll =>
      obtain ⟨hx, hy, -⟩ := vgaScroll_onlyCells d.vga
      refine ⟨hbounded, h.on, ?_⟩
      show (d.crtc.location : Int)
        = (vgaScroll d.vga).cursorY * vgaWidth + (vgaScroll d.vga).cursorX
      rw [hx, hy]
      exact h.location
    | setCursor x y =>
      simp only [Display.step, Display.setCursor] at hbounded ⊢
      split at hbounded
      · next hxy =>
        rw [if_pos hxy]
        exact updateCursor_follows hbounded h.on
      · next hxy =>
        rw [if_neg hxy]
        exact h
    | printAt str x y => exact updateCursor_follows h.bounded ((print_on str.bytes _).trans h.on)
    | setColor fg bg => exact ⟨hbounded, h.on, h.location⟩
  | enableCursor cursorStart cursorEnd =>
    exact ⟨h.bounded, enableCursor_on d _ _,
      (congrArg Int.ofNat (enableCursor_location d _ _)).trans h.location⟩

/-! ## Runs -/

/-- What the hardware cursor shows. -/
structure CursorShown (d : Display) : Prop where
  on : d.crtc.cursorOn = true
  location : (d.crtc.location : Int) = d.vga.cursorY * vgaWidth + d.vga.cursorX
  /-- it marks the cell that the next character goes to, but not behind a full row -/
  marks : ∀ c, Printable c →
    (d.vga.putcharWrites c = [(d.crtc.location : Int)] ↔ d.vga.cursorX ≠ vgaWidth)
  /-- it is below the screen when the last row is full -/
  hidden : vgaWidth * vgaHeight ≤ d.crtc.location ↔ d.vga.CursorAt vgaWidth (vgaHeight - 1)

theorem Follows.shown {d : Display} (h : Follows d) : CursorShown d where
  on := h.on
  location := h.location
  marks c hc := by
    obtain ⟨hx, hy⟩ := h.bounded
    obtain ⟨hwrites, -⟩ := putchar_shown (s := d.vga) hc.plain.1 hc.plain.2
    rw [hwrites, h.location, clampY_of_bounded hy, List.cons.injEq, eq_self_iff_true, and_true]
    unfold clampX vgaWidth
    split <;> omega
  hidden := by
    have hlocation := h.location
    obtain ⟨hx, hy⟩ := h.bounded
    unfold Vga.CursorAt
    unfold vgaWidth vgaHeight at *
    omega

/-- **The hardware cursor follows the cursor of `vga.c`.** Whatever came before, after `vga_init`
and any calls it is on and at the cell of the cursor; it marks the cell that the next printable
character is written to exactly when the cursor is not behind a full row. -/
theorem hardware_cursor_follows (d : Display) (calls : List DisplayCall) :
    CursorShown (run Display.step d.init calls) :=
  (inv_run_of_forall Display.step (I := Follows) (fun _ call h => h.step call) calls
    (init_follows d)).shown

end MinimalistOS
