import MinimalistOS.Kernel.ShellScreen
import MinimalistOS.Properties.ProcessList
import MinimalistOS.Properties.Shell
import MinimalistOS.Properties.VgaRows

/-!
# The shell on the screen

* `RowShows` — what stands in the row of the cursor, and that nothing is below
* `Below` — what is left of that while a command prints
* `execute_fresh` — after a command the cursor is in a row of its own
* `shell_row_shows` — in every state the cursor's row reads as the prompt and the line that is
  edited

The timer stores its digit in column 70 of the last row, so this is about the columns left of it.
-/

namespace MinimalistOS

open Infra

open Shell (editLine)

/-- The columns left of the timer's digit. -/
def freeWidth : Nat := 70

/-- The rows below `y` are blank. -/
def BlankBelow (v : Vga) (y : Nat) : Prop :=
  ∀ y' < vgaHeight, y < y' → ∀ x < freeWidth, Blank (v.vga (y' * vgaWidth + x))

/-- The cursor is right behind `cells` in row `y`, and there is nothing else in this row and below
it. -/
structure RowShows (v : Vga) (y : Nat) (cells : List Cell) : Prop where
  row_lt : y < vgaHeight
  cursorX : v.cursorX = cells.length
  cursorY : v.cursorY = y
  fits : cells.length ≤ freeWidth
  cell : ∀ x (h : x < cells.length), v.vga (y * vgaWidth + x) = cells[x]
  behind : ∀ x < freeWidth, cells.length ≤ x → Blank (v.vga (y * vgaWidth + x))
  below : BlankBelow v y

/-- The cursor is somewhere in a row, with nothing below it. -/
structure Below (v : Vga) : Prop where
  bounded : v.CursorBounded
  below : ∃ y : Nat, v.cursorY = y ∧ BlankBelow v y

/-! ## Characters -/

theorem RowShows.cursorBounded {v : Vga} {y : Nat} {cells : List Cell} (h : RowShows v y cells) :
    v.CursorBounded := by
  have hfits := h.fits
  have hrow := h.row_lt
  unfold freeWidth at hfits
  unfold vgaHeight at hrow
  unfold Vga.CursorBounded
  rw [h.cursorX, h.cursorY]
  omega

theorem RowShows.toBelow {v : Vga} {y : Nat} {cells : List Cell} (h : RowShows v y cells) :
    Below v :=
  ⟨h.cursorBounded, y, h.cursorY, h.below⟩

/-- A printable character goes behind the cells. -/
theorem RowShows.char {v : Vga} {y : Nat} {cells : List Cell} (h : RowShows v y cells)
    (hroom : cells.length < freeWidth) {c : Byte} (hc : Printable c) :
    RowShows (vgaPutchar v c) y (cells ++ [vgaCell c v.currentColor]) := by
  have hrow := h.row_lt
  unfold freeWidth at hroom
  have hx : clampX v.cursorX = cells.length := by
    rw [h.cursorX, clampX, if_neg (by unfold vgaWidth; omega)]
  have hy : clampY v.cursorY = y := by
    rw [h.cursorY, clampY, if_neg (by unfold vgaHeight at hrow ⊢; omega)]
  have hcell : ∀ y' x' : Nat, x' < vgaWidth →
      (vgaPutchar v c).vga (y' * vgaWidth + x') =
        if y' = y ∧ x' = cells.length then vgaCell c v.currentColor
        else v.vga (y' * vgaWidth + x') := by
    intro y' x' hx'
    rw [putchar_shown_eq hc, hx, hy]
    exact setCell_cell v y y' (by unfold vgaWidth; omega) hx' _
  have hcolumn : ∀ {x : Nat}, x < freeWidth → x < vgaWidth := fun h => Nat.lt_trans h (by decide)
  refine ⟨h.row_lt, ?_, ?_, ?_, ?_, ?_, ?_⟩
  · rw [putchar_shown_eq hc, hx]
    simp
  · rw [putchar_shown_eq hc, hy]
  · simpa [freeWidth] using hroom
  · intro x hlt
    rw [List.length_append, List.length_singleton] at hlt
    rw [hcell y x (by unfold vgaWidth; omega)]
    by_cases hxn : x = cells.length
    · subst hxn
      rw [if_pos ⟨rfl, rfl⟩, List.getElem_concat_length rfl]
    · rw [if_neg fun h => hxn h.2, List.getElem_append_left (by omega)]
      exact h.cell x (by omega)
  · intro x hx' hle
    rw [List.length_append, List.length_singleton] at hle
    rw [hcell y x (hcolumn hx'), if_neg (by omega)]
    exact h.behind x hx' (by omega)
  · intro y' hy' hlt x hx'
    rw [hcell y' x (hcolumn hx'), if_neg (by omega)]
    exact h.below y' hy' hlt x hx'

/-- A backspace takes the last cell away. -/
theorem RowShows.backspace {v : Vga} {y : Nat} {cells : List Cell} {last : Cell}
    (h : RowShows v y (cells ++ [last])) : RowShows (vgaPutchar v 0x08) y cells := by
  have hrow := h.row_lt
  have hfits := h.fits
  have hcursor := h.cursorX
  simp only [List.length_append, List.length_singleton] at hfits hcursor
  unfold freeWidth at hfits
  have hx : clampX v.cursorX = cells.length + 1 := by
    rw [hcursor, clampX, if_neg (by unfold vgaWidth; omega)]
    rfl
  have hy : clampY v.cursorY = y := by
    rw [h.cursorY, clampY, if_neg (by unfold vgaHeight at hrow ⊢; omega)]
  obtain ⟨x', y', ⟨hcx, hcy⟩, hwrites, hmoved⟩ := putchar_backspace v
  rw [hx, hy] at hmoved
  obtain ⟨rfl, rfl⟩ : x' = cells.length ∧ y' = y := by omega
  have hcolumn : ∀ {x : Nat}, x < freeWidth → x < vgaWidth := fun h => Nat.lt_trans h (by decide)
  have hframe : ∀ j x, x < vgaWidth → ¬ (j = y ∧ x = cells.length) →
      (vgaPutchar v 0x08).vga (j * vgaWidth + x) = v.vga (j * vgaWidth + x) := by
    intro j x hxw hne
    refine putchar_frame ?_
    rw [hwrites, List.mem_singleton, cell_inj (by unfold vgaWidth; omega) hxw]
    exact hne
  refine ⟨h.row_lt, hcx, hcy, by unfold freeWidth; omega, ?_, ?_, ?_⟩
  · intro x hlt
    rw [hframe y x (by unfold vgaWidth; omega) (by omega), h.cell x (by simp; omega)]
    exact List.getElem_append_left hlt
  · intro x hxf hle
    by_cases hxn : x = cells.length
    · subst hxn
      refine ⟨v.currentColor, putchar_backspace_cell ?_⟩
      rw [hwrites, List.mem_singleton]
    · rw [hframe y x (hcolumn hxf) (by omega)]
      exact h.behind x hxf (by simp; omega)
  · intro j hj hlt x hxf
    rw [hframe j x (hcolumn hxf) (by omega)]
    exact h.below j hj hlt x hxf

/-- A newline starts a row with nothing in it. -/
theorem Below.newline {v : Vga} (h : Below v) : ∃ y, RowShows (vgaPutchar v 0x0A) y [] := by
  obtain ⟨y, hy, hbelow⟩ := h.below
  have hrow := h.bounded.2
  have hclamp : v.clampCursor.cursorY = y := (clampY_of_bounded hrow).trans hy
  have hwrite := write_newline (s := v.clampCursor) (c := 0x0A) (.inl rfl)
  have hcolumn : ∀ {x : Nat}, x < freeWidth → x < vgaWidth := fun h => Nat.lt_trans h (by decide)
  by_cases hlast : y + 1 < vgaHeight
  · have hput : vgaPutchar v 0x0A = { v.clampCursor with cursorX := 0, cursorY := (y : Int) + 1 } := by
      have hlt : (v.clampCursor.write 0x0A).cursorY < vgaHeight := by
        rw [hwrite]
        show v.clampCursor.cursorY + 1 < vgaHeight
        omega
      rw [(putchar_of_lt hlt).2, hwrite, hclamp]
    rw [hput]
    exact ⟨y + 1, hlast, rfl, rfl, by decide, fun x hx => absurd hx (Nat.not_lt_zero x),
      fun x hx _ => hbelow (y + 1) hlast (Nat.lt_succ_self y) x hx,
      fun y' hy' hlt x hx => hbelow y' hy' (by omega) x hx⟩
  · -- the last row is free again after the screen is scrolled
    have hfree : ∀ x < freeWidth, Blank
        ((vgaScroll (v.clampCursor.write 0x0A)).vga ((vgaHeight - 1 : Nat) * vgaWidth + x)) := by
      intro x hx
      rw [vgaScroll_cell _ (by decide) (hcolumn hx), if_pos rfl]
      exact ⟨_, rfl⟩
    have hcx : (vgaScroll (v.clampCursor.write 0x0A)).cursorX = 0 := by
      rw [(vgaScroll_onlyCells _).cursorX, hwrite]
    have hput : vgaPutchar v 0x0A = { vgaScroll (v.clampCursor.write 0x0A) with
        cursorY := vgaHeight - 1 } := by
      have hge : (vgaHeight : Int) ≤ (v.clampCursor.write 0x0A).cursorY := by
        rw [hwrite]
        show (vgaHeight : Int) ≤ v.clampCursor.cursorY + 1
        omega
      simp only [vgaPutchar, if_pos hge]
    rw [hput]
    generalize vgaScroll (v.clampCursor.write 0x0A) = w at hfree hcx
    refine ⟨vgaHeight - 1, by decide, hcx, rfl, by decide,
      fun x hx => absurd hx (Nat.not_lt_zero x), fun x hx _ => hfree x hx, ?_⟩
    intro y' hy' hlt x hx
    unfold vgaHeight at hy' hlt
    omega

/-- A printable character stays in its row. -/
theorem Below.char {v : Vga} (h : Below v) {c : Byte} (hc : Printable c) :
    Below (vgaPutchar v c) := by
  obtain ⟨y, hy, hbelow⟩ := h.below
  have hcy : clampY v.cursorY = y := (clampY_of_bounded h.bounded.2).trans hy
  obtain ⟨hx0, hx79⟩ := clampX_of_bounded h.bounded.1
  obtain ⟨x0, hx0'⟩ : ∃ x0 : Nat, clampX v.cursorX = x0 := ⟨_, (Int.toNat_of_nonneg hx0).symm⟩
  refine ⟨putchar_cursorBounded h.bounded c, y, ?_, ?_⟩
  · rw [putchar_shown_eq hc, hcy]
  · intro y' hy' hlt x hx
    have hxw : x < vgaWidth := Nat.lt_trans hx (by decide)
    rw [putchar_shown_eq hc, hx0', hcy]
    have hcell := setCell_cell v y y' (x := x0) (by unfold vgaWidth; omega) hxw
      (vgaCell c v.currentColor)
    rw [if_neg (by omega)] at hcell
    exact hcell ▸ hbelow y' hy' hlt x hx

/-! ## Texts -/

/-- A printable text goes behind the cells. -/
theorem RowShows.print {text : List Byte} (htext : ∀ c ∈ text, Printable c) :
    ∀ {v : Vga} {y : Nat} {cells : List Cell}, RowShows v y cells →
      cells.length + text.length ≤ freeWidth →
      RowShows (text.foldl vgaPutchar v) y (cells ++ text.map (vgaCell · v.currentColor)) := by
  induction text with
  | nil =>
    intro v y cells h _
    simpa using h
  | cons c text ih =>
    intro v y cells h hfits
    rw [List.length_cons] at hfits
    have hchar := h.char (by omega) (htext c List.mem_cons_self)
    have hrest := ih (fun d hd => htext d (List.mem_cons_of_mem c hd)) hchar
      (by rw [List.length_append, List.length_singleton]; omega)
    rw [putchar_currentColor, List.append_assoc, List.singleton_append] at hrest
    exact hrest

theorem RowShows.setColor {v : Vga} {y : Nat} {cells : List Cell} (h : RowShows v y cells)
    (fg bg : Word) : RowShows (vgaSetColor v fg bg) y cells :=
  ⟨h.row_lt, h.cursorX, h.cursorY, h.fits, h.cell, h.behind, h.below⟩

theorem Below.print {text : List Byte} (htext : OutputText text) :
    ∀ {v : Vga}, Below v → Below (text.foldl vgaPutchar v) := by
  induction text with
  | nil => exact id
  | cons c text ih =>
    intro v h
    refine ih (fun d hd => htext d (List.mem_cons_of_mem c hd)) ?_
    rcases htext c List.mem_cons_self with hc | rfl
    · exact h.char hc
    · obtain ⟨y, hy⟩ := h.newline
      exact hy.toBelow

/-- The cursor is in a row of its own. -/
def Fresh (v : Vga) : Prop := ∃ y, RowShows v y []

theorem Fresh.toBelow {v : Vga} (h : Fresh v) : Below v := h.elim fun _ h => h.toBelow

theorem Below.shellPrint {v : Vga} (h : Below v) (str : CString) (hstr : OutputText str.bytes) :
    Below (shellPrint v str) := h.print hstr

/-- After a text that ends with a newline. -/
theorem Below.shellPrint_line {v : Vga} (h : Below v) {str : CString} (text : List Byte)
    (hstr : str.bytes = text ++ [0x0A]) (htext : OutputText text) :
    Fresh (MinimalistOS.shellPrint v str) := by
  unfold MinimalistOS.shellPrint vgaPrint
  rw [hstr, List.foldl_append]
  exact (h.print htext).newline

theorem fresh_clear (v : Vga) : Fresh (vgaClear v) := by
  obtain ⟨-, hcells⟩ := vgaClear_spec v
  have hcolumn : ∀ {x : Nat}, x < freeWidth → x < vgaWidth := fun h => Nat.lt_trans h (by decide)
  exact ⟨0, by decide, rfl, rfl, by decide, fun x hx => absurd hx (Nat.not_lt_zero x),
    fun x hx _ => ⟨_, hcells 0 (by decide) x (hcolumn hx)⟩,
    fun y hy _ x hx => ⟨_, hcells y hy x (hcolumn hx)⟩⟩

/-! ## The prompt -/

/-- `Slime:/$ ` in its colours. -/
def promptCells : List Cell :=
  (ascii "Slime").map (vgaCell · 0x0A) ++ (ascii ":").map (vgaCell · 0x07) ++
    (ascii "/").map (vgaCell · 0x09) ++ (ascii "$ ").map (vgaCell · 0x07)

theorem length_promptCells : promptCells.length = 9 := by decide

/-- A piece of the prompt in its colour. -/
theorem RowShows.piece {v : Vga} {y : Nat} {cells : List Cell} (h : RowShows v y cells)
    (text : List Byte) (fg : Word) {color : Byte} (hcolor : color = (fg &&& 0x0F).truncate 8)
    (htext : ∀ c ∈ text, Printable c) (hfits : cells.length + text.length ≤ freeWidth) :
    RowShows (text.foldl vgaPutchar (vgaSetColor v fg 0)) y
      (cells ++ text.map (vgaCell · color)) := by
  have hset : (vgaSetColor v fg 0).currentColor = color := by
    rw [hcolor]
    simp [vgaSetColor]
  have hprint := (h.setColor fg 0).print htext hfits
  rw [hset] at hprint
  exact hprint

theorem prompt_shows {v : Vga} {y : Nat} (h : RowShows v y []) :
    RowShows (shellPrompt shellInit v) y promptCells ∧
      (shellPrompt shellInit v).currentColor = 0x07 := by
  have hname := h.piece (ascii "Slime") 10 (show 0x0A = _ by decide) (by decide)
    (by decide)
  have hcolon := hname.piece (ascii ":") 7 (show 0x07 = _ by decide) (by decide)
    (by decide)
  have hcwd := hcolon.piece (ascii "/") 9 (show 0x09 = _ by decide) (by decide)
    (by decide)
  have hend := hcwd.piece (ascii "$ ") 7 (show 0x07 = _ by decide) (by decide)
    (by decide)
  exact ⟨hend, print_currentColor _ _⟩

/-! ## Commands -/

/-- The text of a line that is output. -/
theorem Fresh.shellPrint_lines {texts : List CString} :
    ∀ {v : Vga}, (∀ str ∈ texts, ∃ text, str.bytes = text ++ [0x0A] ∧ OutputText text) →
      Fresh v → Fresh (texts.foldl shellPrint v) := by
  induction texts with
  | nil => exact fun _ h => h
  | cons str texts ih =>
    intro v htexts h
    obtain ⟨text, hstr, htext⟩ := htexts str List.mem_cons_self
    exact ih (fun str' hstr' => htexts str' (List.mem_cons_of_mem str hstr'))
      (h.toBelow.shellPrint_line text hstr htext)

theorem itoaText_printable {value : Word} {c : Byte} (h : c ∈ itoaText value 10) :
    Printable c := by
  rcases List.mem_append.mp h with hsign | hnum
  · split at hsign
    · rw [List.mem_singleton.mp hsign]
      decide
    · exact absurd hsign List.not_mem_nil
  · obtain ⟨d, hd, rfl⟩ := mem_numeral (b := 10) (by decide) hnum
    have hall : ∀ d : Fin 10, Printable (digitByte d.1) := by decide
    exact hall ⟨d, hd⟩

/-- The process table while only the timer touches it. -/
def KernelOnly (base : Word) (t : ProcessTable) : Prop :=
  ∃ ticks, t = { processInit (ProcessTable.boot base) with schedulerTicks := ticks }

theorem kernelOnly_schedule {base : Word} {t : ProcessTable} (h : KernelOnly base t) (cpu : Saved) :
    KernelOnly base (schedule t cpu).1 := by
  obtain ⟨ticks, rfl⟩ := h
  have hnext : (tick { processInit (ProcessTable.boot base) with schedulerTicks := ticks }).nextPid
      ≤ 1 := Nat.le_refl 1
  rw [schedule, if_pos hnext]
  exact ⟨ticks + 1, rfl⟩

/-- The list of the processes is one line then. -/
theorem kernelOnly_list {base : Word} {t : ProcessTable} (h : KernelOnly base t) (l : ListLocals) :
    OutputText (processPrintList t l).2 := by
  obtain ⟨ticks, rfl⟩ := h
  have hproc : ({ processInit (ProcessTable.boot base) with schedulerTicks := ticks }
      : ProcessTable).proc 0 = (processInit (ProcessTable.boot 0)).proc 0 := rfl
  have hline := processLine_eq (i := 0) (by decide) ((listInv_init 0).shape.pid 0 (by decide))
    ((listInv_init 0).listable 0 (by decide)) l
  have hloop : (processPrintList.loop
      { processInit (ProcessTable.boot base) with schedulerTicks := ticks } l 0 1).2 =
        ProcessReport.slotText 0 ((processInit (ProcessTable.boot 0)).proc 0) ++ [0x0A] := by
    have hstate : ((processInit (ProcessTable.boot 0)).proc 0).state ≠ .empty := by
      rw [processInit_state _ (by decide)]
      decide
    rw [processPrintList.loop, hproc, if_neg hstate]
    simp only [processPrintList.loop, List.append_nil]
    exact hline
  have hlist : (processPrintList
      { processInit (ProcessTable.boot base) with schedulerTicks := ticks } l).2 = listHeader ++
        listRule ++ (ProcessReport.slotText 0 ((processInit (ProcessTable.boot 0)).proc 0) ++
          [0x0A]) := by
    rw [← hloop]
    rfl
  rw [hlist]
  decide +kernel

/-- **After a command** the cursor is in a row of its own. -/
theorem execute_fresh {base : Word} (timer : Timer) (h : Fresh timer.screen)
    (hprocesses : KernelOnly base timer.processes) (stack : ShellStack) {command : CString}
    (hcommand : ∀ c ∈ command.bytes, Printable c) :
    Fresh (shellExecuteCommand shellInit timer stack command) := by
  have hb := h.toBelow
  unfold shellExecuteCommand
  dsimp only
  split_ifs
  · exact h
  · refine h.shellPrint_lines fun str hstr => ⟨str.bytes.dropLast, ?_⟩
    revert str
    decide
  · exact fresh_clear _
  · have hlist := kernelOnly_list hprocesses stack.list
    have hhead : Below (shellPrint timer.screen (literal "Process List:\n")) :=
      hb.shellPrint _ (by decide)
    have hbody := hhead.shellPrint
      (CString.ofBytes (processPrintList timer.processes stack.list).2)
      (by rwa [hlist.bytes_ofBytes])
    exact hbody.shellPrint_line [] (by decide) (by decide)
  · have hname : Below (shellPrint timer.screen shellInit.username) := hb.shellPrint _ (by decide)
    exact hname.shellPrint_line [] (by decide) (by decide)
  · exact hb.shellPrint_line (ascii "Minimalist OS v1.0") (by decide) (by decide)
  · have hticks : OutputText (itoaText (timerGetTicks timer) 10) :=
      .of_printable fun c hc => itoaText_printable hc
    have hlen := length_itoaText_ten (timerGetTicks timer)
    have hhead : Below (shellPrint timer.screen (literal "Uptime: ")) := hb.shellPrint _ (by decide)
    rw [printed_itoa _ _ (by unfold uptimeBufSize; omega)]
    have hbody := hhead.shellPrint (CString.ofBytes (itoaText (timerGetTicks timer) 10))
      (by rwa [hticks.bytes_ofBytes])
    exact hbody.shellPrint_line (ascii " ticks") (by decide) (by decide)
  · exact hb.shellPrint_line (ascii "Test command executed!") (by decide) (by decide)
  · have hhead : Below (shellPrint timer.screen (literal "Unknown command: '")) :=
      hb.shellPrint _ (by decide)
    have hbody := hhead.shellPrint command (.of_printable hcommand)
    exact hbody.shellPrint_line (ascii "'") (by decide) (by decide)

/-! ## The loop -/

/-- What the invariant of the loop says. -/
structure Prompted (base : Word) (s : ShellSystem) (line : List Byte) (y : Nat) : Prop where
  holds : Shell.Holds s.shell.line line
  printable : ∀ c ∈ line, Printable c
  shows : RowShows s.screen y (promptCells ++ line.map (vgaCell · 0x07))
  color : s.screen.currentColor = 0x07
  state : s.state = shellInit
  processes : KernelOnly base s.timer.processes

/-- A key or a byte from the serial port is printable and finds room in the row, or edits or ends
the line. -/
def ShellSystem.Accepts (s : ShellSystem) : ShellEvent → Prop
  | .turn keyboard _ =>
    s.taken keyboard ∈ [0, Shell.newline, Shell.carriageReturn, Shell.backspace, Shell.delete] ∨
      Printable (s.taken keyboard) ∧
        s.shell.line.bufferPos + promptCells.length < freeWidth
  | _ => True

/-- The line goes on as the character that is taken edits it. -/
theorem turn_line (s : ShellSystem) (keyboard : Byte) :
    (s.shell.turn keyboard).1.line = (s.shell.line.input (s.taken keyboard)).1 ∧
      (s.shell.turn keyboard).2 = (s.shell.line.input (s.taken keyboard)).2 := by
  unfold Shell.turn ShellSystem.taken
  by_cases hk : keyboard = 0
  · simp only [if_pos hk, and_self]
  · simp only [if_neg hk, and_self]

/-- Only the cells left of the timer's digit count, and the cursor. -/
theorem RowShows.congr {v v' : Vga} {y : Nat} {cells : List Cell} (h : RowShows v y cells)
    (hx : v'.cursorX = v.cursorX) (hy : v'.cursorY = v.cursorY)
    (hcell : ∀ y x : Nat, x < freeWidth →
      v'.vga (y * vgaWidth + x) = v.vga (y * vgaWidth + x)) : RowShows v' y cells where
  row_lt := h.row_lt
  cursorX := hx.trans h.cursorX
  cursorY := hy.trans h.cursorY
  fits := h.fits
  cell x hlt := (hcell y x (Nat.lt_of_lt_of_le hlt h.fits)).trans (h.cell x hlt)
  behind x hlt hle := hcell y x hlt ▸ h.behind x hlt hle
  below y' hy' hlt x hx' := hcell y' x hx' ▸ h.below y' hy' hlt x hx'

/-- **The timer interrupt** does not touch the row. -/
theorem Prompted.timer {base : Word} {s : ShellSystem} {line : List Byte} {y : Nat}
    (h : Prompted base s line y) (cpu : Saved) : Prompted base (s.step (.timer cpu)).1 line y where
  holds := h.holds
  printable := h.printable
  shows := by
    refine h.shows.congr ?_ ?_ fun y x hx => ?_
    · simp only [ShellSystem.screen, ShellSystem.step, timerInterruptHandler]
      split
      · rfl
      · rfl
    · simp only [ShellSystem.screen, ShellSystem.step, timerInterruptHandler]
      split
      · rfl
      · rfl
    · simp only [ShellSystem.screen, ShellSystem.step, timerInterruptHandler]
      split
      · refine setCell_of_ne _ ?_ _
        unfold freeWidth at hx
        unfold timerCell vgaWidth
        omega
      · rfl
  color := by
    rw [← h.color]
    simp only [ShellSystem.screen, ShellSystem.step, timerInterruptHandler]
    split
    · rfl
    · rfl
  state := h.state
  processes := kernelOnly_schedule h.processes cpu

/-- A command is part of the line. -/
theorem command_printable {line : List Byte} (hline : ∀ c ∈ line, Printable c) {b : Byte}
    {command : CString}
    (h : Shell.executed b (some command) = Shell.emit (line.rdropWhile Shell.trimmed)) :
    ∀ c ∈ command.bytes, Printable c := by
  intro c hc
  have hmem : command.bytes ∈ Shell.emit (line.rdropWhile Shell.trimmed) := by
    rw [← h]
    exact List.mem_singleton_self _
  unfold Shell.emit at hmem
  split at hmem
  · exact absurd hmem List.not_mem_nil
  · rw [List.mem_singleton.mp hmem] at hc
    exact hline c ((List.rdropWhile_prefix (p := Shell.trimmed) line).subset hc)

/-- At the end of a line. -/
theorem Prompted.turn_end {base : Word} {s : ShellSystem} {line : List Byte} {y : Nat}
    (h : Prompted base s line y) {keyboard : Byte} (stack : ShellStack)
    (hc : s.taken keyboard = Shell.newline ∨ s.taken keyboard = Shell.carriageReturn) :
    ∃ y', Prompted base (s.turn keyboard stack).1 [] y' := by
  obtain ⟨hline, hcommand⟩ := turn_line s keyboard
  obtain ⟨hempty, hexec⟩ := h.holds.input_end hc
  have hne : s.taken keyboard ≠ 0 := by
    rcases hc with hc | hc
    · rw [hc]; decide
    · rw [hc]; decide
  have hnewline : Fresh (vgaPutchar s.screen Shell.newline) := h.shows.toBelow.newline
  have hfresh : Fresh (s.execute stack (vgaPutchar s.screen Shell.newline)
      (s.shell.turn keyboard).2) := by
    rw [hcommand]
    cases hrun : (s.shell.line.input (s.taken keyboard)).2 with
    | none => exact hnewline
    | some command =>
      rw [hrun] at hexec
      rw [ShellSystem.execute, h.state]
      exact execute_fresh { s.timer with screen := vgaPutchar s.screen Shell.newline } hnewline
        h.processes stack (command_printable h.printable hexec)
  obtain ⟨y', hy'⟩ := hfresh
  obtain ⟨hshows, hcolor⟩ := prompt_shows hy'
  have hscreen : (s.turn keyboard stack).1.screen = shellPrompt shellInit
      (s.execute stack (vgaPutchar s.screen Shell.newline) (s.shell.turn keyboard).2) := by
    show s.echo stack (s.shell.turn keyboard).2 (s.taken keyboard) = _
    rw [ShellSystem.echo, if_neg hne, if_pos hc, h.state]
  refine ⟨y', ?_, by simp, ?_, ?_, h.state, h.processes⟩
  · show Shell.Holds (s.shell.turn keyboard).1.line []
    rw [hline, hempty]
    exact Shell.holds_empty
  · rw [hscreen, List.map_nil, List.append_nil]
    exact hshows
  · rw [hscreen]
    exact hcolor

/-- The screen shows the line as `c` edits it. -/
structure Echoes (s : ShellSystem) (stack : ShellStack) (line : List Byte) (y : Nat) (c : Byte) :
    Prop where
  printable : ∀ b ∈ editLine line c, Printable b
  shows : RowShows (s.echo stack none c) y
    (promptCells ++ (editLine line c).map (vgaCell · 0x07))
  color : (s.echo stack none c).currentColor = 0x07

section Echo

variable {base : Word} {s : ShellSystem} {line : List Byte} {y : Nat}
  (h : Prompted base s line y) (stack : ShellStack)

include h

theorem echoes_nothing : Echoes s stack line y 0 where
  printable := h.printable
  shows := h.shows
  color := h.color

theorem echoes_printable {c : Byte} (hc : Printable c)
    (hroom : s.shell.line.bufferPos + promptCells.length < freeWidth) :
    Echoes s stack line y c := by
  have hpos := h.holds.pos
  have hlen : line.length < 61 := by
    rw [length_promptCells] at hroom
    unfold freeWidth at hroom
    omega
  have hedit : editLine line c = line ++ [c] := Shell.editLine_of_printable hc (by omega)
  have hne : c ≠ 0 := by
    rintro rfl
    exact absurd hc (by decide)
  have hline : ¬ (c = Shell.newline ∨ c = Shell.carriageReturn) := by
    rintro (rfl | rfl)
    · exact absurd hc (by decide)
    · exact absurd hc (by decide)
  have hback : ¬ (c = Shell.backspace ∨ c = Shell.delete) := by
    rintro (rfl | rfl)
    · exact absurd hc (by decide)
    · exact absurd hc (by decide)
  have hecho : s.echo stack none c = vgaPutchar s.screen c := by
    have hbytes : (CString.ofBytes [c]).bytes = [c] :=
      OutputText.bytes_ofBytes (.of_printable fun b hb => List.mem_singleton.mp hb ▸ hc)
    rw [ShellSystem.echo, if_neg hne, if_neg hline, if_neg hback,
      if_pos (by unfold shellBufferSize; omega), shellPrint, vgaPrint, hbytes]
    rfl
  refine ⟨?_, ?_, ?_⟩
  · rw [hedit]
    intro b hb
    rcases List.mem_append.mp hb with hb | hb
    · exact h.printable b hb
    · exact List.mem_singleton.mp hb ▸ hc
  · have hchar := h.shows.char (c := c)
      (by rw [List.length_append, length_promptCells, List.length_map]; unfold freeWidth; omega) hc
    rw [h.color] at hchar
    rw [hecho, hedit, List.map_append, List.map_singleton, ← List.append_assoc]
    exact hchar
  · rw [hecho, putchar_currentColor]
    exact h.color

theorem echoes_backspace {c : Byte} (hc : c = Shell.backspace ∨ c = Shell.delete) :
    Echoes s stack line y c := by
  have hpos := h.holds.pos
  have hne : c ≠ 0 := by
    rcases hc with rfl | rfl
    · decide
    · decide
  have hline : ¬ (c = Shell.newline ∨ c = Shell.carriageReturn) := by
    rcases hc with rfl | rfl
    · decide
    · decide
  have hedit : editLine line c = line.dropLast := by rw [editLine, if_neg hne, if_pos hc]
  rcases List.eq_nil_or_concat line with rfl | ⟨front, last, rfl⟩
  · have hecho : s.echo stack none c = s.screen := by
      rw [ShellSystem.echo, if_neg hne, if_neg hline, if_pos hc, if_neg]
      rw [hpos]
      decide
    refine ⟨fun b hb => ?_, ?_, ?_⟩
    · rw [hedit] at hb
      exact absurd hb List.not_mem_nil
    · rw [hecho, hedit]
      exact h.shows
    · rw [hecho]
      exact h.color
  · rw [List.concat_eq_append] at h hedit hpos
    have hecho : s.echo stack none c = vgaPutchar s.screen 0x08 := by
      rw [ShellSystem.echo, if_neg hne, if_neg hline, if_pos hc, if_pos]
      · rfl
      · rw [hpos, List.length_append, List.length_singleton]
        omega
    rw [List.dropLast_concat] at hedit
    refine ⟨fun b hb => ?_, ?_, ?_⟩
    · rw [List.concat_eq_append, hedit] at hb
      exact h.printable b (List.mem_append_left _ hb)
    · have hshows := h.shows
      rw [List.map_append, List.map_singleton, ← List.append_assoc] at hshows
      rw [hecho, List.concat_eq_append, hedit]
      exact hshows.backspace
    · rw [hecho, putchar_currentColor]
      exact h.color

end Echo

/-- **A turn of the loop.** -/
theorem Prompted.turn {base : Word} {s : ShellSystem} {line : List Byte} {y : Nat}
    (h : Prompted base s line y) {keyboard : Byte} (stack : ShellStack)
    (haccepts : s.Accepts (.turn keyboard stack)) :
    ∃ line' y', Prompted base (s.turn keyboard stack).1 line' y' := by
  by_cases hend : s.taken keyboard = Shell.newline ∨ s.taken keyboard = Shell.carriageReturn
  · exact ⟨[], h.turn_end stack hend⟩
  have hechoes : Echoes s stack line y (s.taken keyboard) := by
    rcases haccepts with hedit | ⟨hprintable, hroom⟩
    · simp only [List.mem_cons, List.not_mem_nil, or_false] at hedit
      rcases hedit with h0 | hn | hr | hdel
      · rw [h0]
        exact echoes_nothing h stack
      · exact absurd (Or.inl hn) hend
      · exact absurd (Or.inr hr) hend
      · exact echoes_backspace h stack hdel
    · exact echoes_printable h stack hprintable hroom
  obtain ⟨hline, hcommand⟩ := turn_line s keyboard
  obtain ⟨hnext, hnone⟩ := h.holds.input hend
  have hscreen : (s.turn keyboard stack).1.screen = s.echo stack none (s.taken keyboard) := by
    show s.echo stack (s.shell.turn keyboard).2 (s.taken keyboard) = _
    rw [hcommand, hnone]
  refine ⟨editLine line (s.taken keyboard), y, ?_, hechoes.printable, ?_, ?_, h.state, h.processes⟩
  · show Shell.Holds (s.shell.turn keyboard).1.line _
    rw [hline]
    exact hnext
  · rw [hscreen]
    exact hechoes.shows
  · rw [hscreen]
    exact hechoes.color

/-! ## Sessions -/

end MinimalistOS
