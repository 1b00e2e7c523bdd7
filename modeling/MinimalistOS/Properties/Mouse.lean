import MinimalistOS.Infra.Framing
import MinimalistOS.Kernel.Mouse
import MinimalistOS.Properties.VgaBounds
import Mathlib.Data.List.GetD

/-!
# The mouse

* `step_receives` — the handler keeps the incomplete packet and moves by each complete one
* `mouse_decodes_packets` — so after any bytes the position is that of the packets in the stream
* `mouse_screen` — and the screen shows the pointer there and blanks where it has been

The bytes from the mouse line are cut into packets of three as `Infra/Framing.lean` cuts a stream;
bytes that the status register attributes to the keyboard do not count.
-/

namespace MinimalistOS

open Infra

/-! ## Packets and positions -/

/-- "First byte must always have bit 3 set". -/
def startsPacket (b : Byte) : Bool := b &&& 0x08 != 0

/-- The bytes that come from the mouse. -/
def mouseBytes (ios : List (Byte × Byte)) : List Byte :=
  (ios.filter fun io => io.1 &&& 0x20 != 0).map Prod.snd

/-- The packets in a stream of bytes. -/
def packets (bytes : List Byte) : List (List Byte) := Framing.frames startsPacket 2 bytes

/-- A move of the pointer, cut off at the edges of the screen. -/
def movePointer (pos : Int × Int) (packet : List Byte) : Int × Int :=
  (max 0 (min 79 (pos.1 + (packet.getD 1 0).toInt)),
    max 0 (min 24 (pos.2 - (packet.getD 2 0).toInt)))

/-- Where some packets take a pointer that starts in the corner. -/
def pointerAt (ps : List (List Byte)) : Int × Int := ps.foldl movePointer (0, 0)

/-- The buttons of the last packet. -/
def buttonsOf (ps : List (List Byte)) : Byte :=
  match ps.getLast? with
  | none => 0
  | some packet => packet.getD 0 0 &&& 0x07

/-- The index of a cell. -/
def cellAt (pos : Int × Int) : Int := pos.2 * vgaWidth + pos.1

/-- The screen after one more move. -/
def paintMove (s : Vga) (old new : Int × Int) : Vga :=
  (s.setCell (cellAt old) (vgaCell 0x20 s.currentColor)).setCell (cellAt new)
    (vgaCell 0x58 s.currentColor)

/-- The screen after some packets, the last one first. -/
def paint (s : Vga) : List (List Byte) → Vga
  | [] => s
  | packet :: before =>
    paintMove (paint s before) (pointerAt before.reverse) (pointerAt (packet :: before).reverse)

/-! ## Drawing -/

/-- The position is on the screen. -/
def OnGrid (pos : Int × Int) : Prop := (0 ≤ pos.1 ∧ pos.1 ≤ 79) ∧ 0 ≤ pos.2 ∧ pos.2 ≤ 24

theorem movePointer_onGrid (pos : Int × Int) (packet : List Byte) :
    OnGrid (movePointer pos packet) := by
  unfold OnGrid movePointer
  simp only
  omega

theorem pointerAt_concat (ps : List (List Byte)) (packet : List Byte) :
    pointerAt (ps ++ [packet]) = movePointer (pointerAt ps) packet := by
  unfold pointerAt
  rw [List.foldl_append]
  rfl

theorem pointerAt_onGrid (ps : List (List Byte)) : OnGrid (pointerAt ps) := by
  induction ps using List.reverseRecOn with
  | nil => exact ⟨⟨by decide, by decide⟩, by decide, by decide⟩
  | append_singleton ps packet ih =>
    rw [pointerAt_concat]
    exact movePointer_onGrid _ _

/-- One printable character at a place on the screen changes one cell: nothing is scrolled, not even
by the last cell. -/
theorem vgaPrintAt_single (s : Vga) {str : CString} {c : Byte} (hstr : str.bytes = [c])
    (hc : Printable c) {pos : Int × Int} (hpos : OnGrid pos) :
    vgaPrintAt s str pos.1 pos.2 = s.setCell (cellAt pos) (vgaCell c s.currentColor) := by
  obtain ⟨⟨hx0, hx⟩, hy0, hy⟩ := hpos
  obtain ⟨hplain, hshown⟩ := hc.plain
  have hwidth : ¬ (vgaWidth : Int) ≤ pos.1 := by
    unfold vgaWidth
    omega
  have hheight : ¬ (vgaHeight : Int) ≤ pos.2 := by
    unfold vgaHeight
    omega
  have hclamp : ({ s with cursorX := pos.1, cursorY := pos.2 } : Vga).clampCursor
      = { s with cursorX := pos.1, cursorY := pos.2 } := by
    simp only [Vga.clampCursor, if_neg hwidth, if_neg hheight]
  have hput : vgaPutchar { s with cursorX := pos.1, cursorY := pos.2 } c
      = { s.setCell (cellAt pos) (vgaCell c s.currentColor) with
          cursorX := pos.1 + 1, cursorY := pos.2 } := by
    have hwrite := write_shown (s := { s with cursorX := pos.1, cursorY := pos.2 }) hplain hshown
      (Int.not_le.mp hwidth)
    simp only [vgaPutcharAt, Vga.setCell] at hwrite
    simp only [vgaPutchar, hclamp, hwrite, if_neg hheight]
    rfl
  simp only [vgaPrintAt, vgaPrint, hstr, List.foldl_cons, List.foldl_nil, hput]
  rfl

theorem drawCursor_eq (s : Mouse) :
    drawCursor s = { s with
      mouseX := max 0 (min 79 s.mouseX)
      mouseY := max 0 (min 24 s.mouseY)
      vga := s.vga.setCell (cellAt (max 0 (min 79 s.mouseX), max 0 (min 24 s.mouseY)))
        (vgaCell 0x58 s.vga.currentColor) } := by
  have hx : (if (vgaWidth : Int) ≤ (if s.mouseX < 0 then 0 else s.mouseX) then (vgaWidth : Int) - 1
      else (if s.mouseX < 0 then 0 else s.mouseX)) = max 0 (min 79 s.mouseX) := by
    unfold vgaWidth
    split_ifs <;> omega
  have hy : (if (vgaHeight : Int) ≤ (if s.mouseY < 0 then 0 else s.mouseY)
      then (vgaHeight : Int) - 1 else (if s.mouseY < 0 then 0 else s.mouseY))
      = max 0 (min 24 s.mouseY) := by
    unfold vgaHeight
    split_ifs <;> omega
  have hgrid : OnGrid (max 0 (min 79 s.mouseX), max 0 (min 24 s.mouseY)) := by
    unfold OnGrid
    simp only
    omega
  simp only [drawCursor, hx, hy]
  rw [vgaPrintAt_single s.vga (show pointerText.bytes = [0x58] from rfl) (by decide) hgrid]

theorem clearCursor_eq {s : Mouse} (h : OnGrid (s.mouseX, s.mouseY)) :
    clearCursor s = { s with
      vga := s.vga.setCell (cellAt (s.mouseX, s.mouseY)) (vgaCell 0x20 s.vga.currentColor) } := by
  have hin : ¬ (s.mouseX < 0 ∨ s.mouseY < 0 ∨ (vgaWidth : Int) ≤ s.mouseX ∨
      (vgaHeight : Int) ≤ s.mouseY) := by
    obtain ⟨⟨hx0, hx⟩, hy0, hy⟩ := h
    simp only [vgaWidth, vgaHeight] at *
    omega
  unfold clearCursor
  rw [if_neg hin, vgaPrintAt_single s.vga (show spaceText.bytes = [0x20] from rfl) (by decide) h]

/-! ## The handler -/

/-- The static data after some bytes from the mouse. -/
structure Receives (screen : Vga) (bytes : List Byte) (s : Mouse) : Prop where
  index : s.packetIndex = (Framing.rest startsPacket 2 bytes).length
  packet : ∀ j < s.packetIndex, slot s.packet j = (Framing.rest startsPacket 2 bytes).getD j 0
  position : (s.mouseX, s.mouseY) = pointerAt (packets bytes)
  buttons : s.mouseButtons = buttonsOf (packets bytes)
  screen : s.vga = paint screen (packets bytes).reverse

theorem reset_receives (s : Mouse) : Receives s.vga [] s.reset := by
  have hpackets : packets [] = [] := by simp [packets, Framing.frames, Framing.split]
  have hrest : Framing.rest startsPacket 2 [] = [] := by simp [Framing.rest, Framing.split]
  refine ⟨?_, fun j hj => absurd hj (Nat.not_lt_zero j), ?_, ?_, ?_⟩
  · rw [hrest]
    rfl
  · rw [hpackets]
    rfl
  · rw [hpackets]
    rfl
  · rw [hpackets]
    rfl

theorem mouseBytes_one (status data : Byte) :
    mouseBytes [(status, data)] = if status &&& 0x20 = 0 then [] else [data] := by
  unfold mouseBytes
  by_cases h : status &&& 0x20 = 0
  · have hbit : (status &&& 0x20 != 0) = false := bne_eq_false_iff_eq.mpr h
    simp only [List.filter_cons, hbit, Bool.false_eq_true, if_false, List.filter_nil,
      List.map_nil, if_pos h]
  · have hbit : (status &&& 0x20 != 0) = true := bne_iff_ne.mpr h
    simp only [List.filter_cons, hbit, if_true, List.filter_nil, List.map_cons, List.map_nil,
      if_neg h]

theorem startsPacket_eq_false {b : Byte} : startsPacket b = false ↔ b &&& 0x08 = 0 := by
  unfold startsPacket
  simp

/-- The handler with a byte that completes no packet. -/
theorem handler_more {s : Mouse} {status data : Byte} (hstatus : ¬ status &&& 0x20 = 0)
    (hstart : ¬ (s.packetIndex = 0 ∧ data &&& 0x08 = 0)) (hlt : s.packetIndex < 2) :
    mouseIrqHandler s status data = { s with
      packet := s.packet.setIfInBounds s.packetIndex data
      packetIndex := s.packetIndex + 1 } := by
  unfold mouseIrqHandler
  rw [if_neg hstatus, if_neg hstart]
  simp only [if_pos (show s.packetIndex + 1 < 3 by omega)]

/-- The handler with the last byte of a packet. -/
theorem handler_last {s : Mouse} {status data : Byte} (hstatus : ¬ status &&& 0x20 = 0)
    (hindex : s.packetIndex = 2) (hgrid : OnGrid (s.mouseX, s.mouseY)) :
    let new := movePointer (s.mouseX, s.mouseY) [slot s.packet 0, slot s.packet 1, data]
    mouseIrqHandler s status data = { s with
      packet := s.packet.setIfInBounds 2 data
      packetIndex := 0
      mouseX := new.1
      mouseY := new.2
      mouseButtons := slot s.packet 0 &&& 0x07
      vga := paintMove s.vga (s.mouseX, s.mouseY) new } := by
  have h0 : slot (s.packet.setIfInBounds 2 data) 0 = slot s.packet 0 := by
    rw [slot_setIfInBounds _ (by decide)]
    rfl
  have h1 : slot (s.packet.setIfInBounds 2 data) 1 = slot s.packet 1 := by
    rw [slot_setIfInBounds _ (by decide)]
    rfl
  have h2 : slot (s.packet.setIfInBounds 2 data) 2 = data := by
    rw [slot_setIfInBounds _ (by decide)]
    rfl
  intro new
  have hstart : ¬ (s.packetIndex = 0 ∧ data &&& 0x08 = 0) := by omega
  have hclear := clearCursor_eq
    (s := { s with packet := s.packet.setIfInBounds 2 data, packetIndex := 0 }) hgrid
  unfold mouseIrqHandler
  rw [if_neg hstatus, if_neg hstart]
  simp only [hindex, if_neg (show ¬ 2 + 1 < 3 by decide), hclear, h0, h1, h2, drawCursor_eq]
  rfl

theorem buttonsOf_concat (ps : List (List Byte)) (packet : List Byte) :
    buttonsOf (ps ++ [packet]) = packet.getD 0 0 &&& 0x07 := by
  unfold buttonsOf
  rw [List.getLast?_concat]

theorem paint_concat (screen : Vga) (ps : List (List Byte)) (packet : List Byte) :
    paint screen (ps ++ [packet]).reverse = paintMove (paint screen ps.reverse) (pointerAt ps)
      (movePointer (pointerAt ps) packet) := by
  rw [List.reverse_concat, paint, List.reverse_reverse, List.reverse_cons, List.reverse_reverse,
    pointerAt_concat]

section Receive

variable {screen : Vga} {bytes : List Byte} {s : Mouse} {data : Byte}

/-- Without a new packet nothing moves. -/
theorem Receives.incomplete (h : Receives screen bytes s)
    (hframes : Framing.frames startsPacket 2 (bytes ++ [data]) = Framing.frames startsPacket 2 bytes)
    {packet : Vector Byte 3} {index : Nat}
    (hindex : index = (Framing.rest startsPacket 2 (bytes ++ [data])).length)
    (hpacket : ∀ j < index,
      slot packet j = (Framing.rest startsPacket 2 (bytes ++ [data])).getD j 0) :
    Receives screen (bytes ++ [data]) { s with packet := packet, packetIndex := index } := by
  have hpackets : packets (bytes ++ [data]) = packets bytes := hframes
  refine ⟨hindex, hpacket, ?_, ?_, ?_⟩
  · rw [hpackets]
    exact h.position
  · rw [hpackets]
    exact h.buttons
  · rw [hpackets]
    exact h.screen

/-- A byte that completes no packet is kept behind the others. -/
theorem Receives.keep (h : Receives screen bytes s)
    (hstart : Framing.rest startsPacket 2 bytes ≠ [] ∨ startsPacket data = true)
    (hmore : (Framing.rest startsPacket 2 bytes).length ≠ 2) :
    Receives screen (bytes ++ [data]) { s with
      packet := s.packet.setIfInBounds s.packetIndex data
      packetIndex := s.packetIndex + 1 } := by
  have hindex := h.index
  have hle := Framing.length_rest_le (p := startsPacket) (n := 2) bytes
  obtain ⟨hframes, hrest⟩ := Framing.concat_more hstart hmore
  refine h.incomplete hframes ?_ fun j hj => ?_
  · rw [hrest, List.length_append, ← hindex]
    rfl
  · rw [slot_setIfInBounds _ (by omega), hrest, hindex]
    by_cases hlast : j = (Framing.rest startsPacket 2 bytes).length
    · rw [if_pos hlast, hlast]
      simp
    · rw [if_neg hlast, h.packet j (by omega), List.getD_append _ _ _ _ (by omega)]

/-- The third byte completes the packet, and the pointer moves. -/
theorem Receives.complete (h : Receives screen bytes s)
    (hstart : Framing.rest startsPacket 2 bytes ≠ [] ∨ startsPacket data = true)
    (hfull : (Framing.rest startsPacket 2 bytes).length = 2) {status : Byte}
    (hstatus : ¬ status &&& 0x20 = 0) :
    Receives screen (bytes ++ [data]) (mouseIrqHandler s status data) := by
  obtain ⟨hframes, hrest⟩ := Framing.concat_last hstart hfull
  have htwo : s.packetIndex = 2 := h.index.trans hfull
  have hgrid : OnGrid (s.mouseX, s.mouseY) := by
    rw [h.position]
    exact pointerAt_onGrid _
  obtain ⟨a, b, hab⟩ := List.length_eq_two.mp hfull
  have ha : slot s.packet 0 = a := by
    rw [h.packet 0 (by omega), hab]
    rfl
  have hb : slot s.packet 1 = b := by
    rw [h.packet 1 (by omega), hab]
    rfl
  have hpackets : packets (bytes ++ [data]) = packets bytes ++ [[a, b, data]] := by
    rw [hab] at hframes
    exact hframes
  rw [handler_last hstatus htwo hgrid, ha, hb, h.position]
  refine ⟨?_, fun j hj => absurd hj (Nat.not_lt_zero j), ?_, ?_, ?_⟩
  · rw [hrest]
    rfl
  · rw [hpackets, pointerAt_concat]
  · rw [hpackets, buttonsOf_concat]
    rfl
  · rw [hpackets, paint_concat, h.screen]

/-- **One interrupt.** The handler keeps the incomplete packet, and moves by a complete one. -/
theorem step_receives (h : Receives screen bytes s) (status data : Byte) :
    Receives screen (bytes ++ mouseBytes [(status, data)]) (mouseIrqHandler s status data) := by
  rw [mouseBytes_one]
  by_cases hstatus : status &&& 0x20 = 0
  · rw [if_pos hstatus, List.append_nil, mouseIrqHandler, if_pos hstatus]
    exact h
  rw [if_neg hstatus]
  have hindex := h.index
  have hle := Framing.length_rest_le (p := startsPacket) (n := 2) bytes
  by_cases hidle : s.packetIndex = 0 ∧ data &&& 0x08 = 0
  · -- a byte that starts no packet
    have hnil : Framing.rest startsPacket 2 bytes = [] := List.length_eq_zero_iff.mp (by omega)
    obtain ⟨hframes, hrest⟩ := Framing.concat_idle hnil (startsPacket_eq_false.mpr hidle.2)
    rw [mouseIrqHandler, if_neg hstatus, if_pos hidle]
    refine h.incomplete hframes ?_ fun j hj => absurd hj (by omega)
    rw [hrest]
    exact hidle.1
  have hstart : Framing.rest startsPacket 2 bytes ≠ [] ∨ startsPacket data = true := by
    by_contra hn
    obtain ⟨hnil, hbit⟩ := not_or.mp hn
    rw [not_not] at hnil
    rw [hnil] at hindex
    exact hidle ⟨hindex, startsPacket_eq_false.mp (Bool.eq_false_iff.mpr hbit)⟩
  by_cases hfull : (Framing.rest startsPacket 2 bytes).length = 2
  · exact h.complete hstart hfull hstatus
  · rw [handler_more hstatus hidle (by omega)]
    exact h.keep hstart hfull

end Receive

/-! ## Runs -/

theorem mouseBytes_cons (io : Byte × Byte) (ios : List (Byte × Byte)) :
    mouseBytes (io :: ios) = mouseBytes [io] ++ mouseBytes ios := by
  unfold mouseBytes
  rw [show io :: ios = [io] ++ ios from rfl, List.filter_append, List.map_append]

theorem run_receives {screen : Vga} (ios : List (Byte × Byte)) :
    ∀ {bytes : List Byte} {s : Mouse}, Receives screen bytes s →
      Receives screen (bytes ++ mouseBytes ios) (run Mouse.step s ios) := by
  induction ios with
  | nil =>
    intro bytes s h
    rw [show mouseBytes [] = [] from rfl, List.append_nil]
    exact h
  | cons io ios ih =>
    intro bytes s h
    rw [mouseBytes_cons, ← List.append_assoc]
    exact ih (step_receives h io.1 io.2)

/-- **The handler decodes the stream.** Whatever interrupts come after the reset, the position and
the buttons are those of the packets in the bytes from the mouse, and the pointer is on the
screen. -/
theorem mouse_decodes_packets (s : Mouse) (ios : List (Byte × Byte)) :
    (run Mouse.step s.reset ios).packetIndex < 3 ∧
      ((run Mouse.step s.reset ios).mouseX, (run Mouse.step s.reset ios).mouseY)
        = pointerAt (packets (mouseBytes ios)) ∧
      OnGrid ((run Mouse.step s.reset ios).mouseX, (run Mouse.step s.reset ios).mouseY) ∧
      (run Mouse.step s.reset ios).mouseButtons = buttonsOf (packets (mouseBytes ios)) := by
  have h := run_receives ios (reset_receives s)
  rw [List.nil_append] at h
  have hle := Framing.length_rest_le (p := startsPacket) (n := 2) (mouseBytes ios)
  have hindex := h.index
  have hgrid := pointerAt_onGrid (packets (mouseBytes ios))
  rw [← h.position] at hgrid
  exact ⟨by omega, h.position, hgrid, h.buttons⟩

/-! ## The screen -/

/-- The pointer has been at the cell. -/
def Visited (ps : List (List Byte)) (i : Int) : Prop :=
  ∃ pre, pre <+: ps ∧ i = cellAt (pointerAt pre)

theorem visited_concat {ps : List (List Byte)} {packet : List Byte} {i : Int} :
    Visited (ps ++ [packet]) i ↔ Visited ps i ∨ i = cellAt (pointerAt (ps ++ [packet])) := by
  unfold Visited
  constructor
  · rintro ⟨pre, hpre, hi⟩
    rcases List.prefix_concat_iff.mp hpre with heq | hpre
    · right
      rw [hi, heq]
    · exact Or.inl ⟨pre, hpre, hi⟩
  · rintro (⟨pre, hpre, hi⟩ | hi)
    · exact ⟨pre, hpre.trans (List.prefix_append ps [packet]), hi⟩
    · exact ⟨_, List.prefix_refl _, hi⟩

theorem paint_onlyCells (screen : Vga) (ps : List (List Byte)) :
    OnlyCells screen (paint screen ps) := by
  induction ps with
  | nil => exact ⟨rfl, rfl, rfl⟩
  | cons packet before ih =>
    exact (ih.trans (setCell_onlyCells _ _ _)).trans (setCell_onlyCells _ _ _)

/-- The pointer where it is, blanks where it has been, and the rest as it was. -/
theorem paint_cells (screen : Vga) (ps : List (List Byte)) :
    (ps ≠ [] → (paint screen ps.reverse).vga (cellAt (pointerAt ps))
      = vgaCell 0x58 screen.currentColor) ∧
    ∀ i, i ≠ cellAt (pointerAt ps) →
      (Visited ps i → (paint screen ps.reverse).vga i = vgaCell 0x20 screen.currentColor) ∧
      (¬ Visited ps i → (paint screen ps.reverse).vga i = screen.vga i) := by
  induction ps using List.reverseRecOn with
  | nil =>
    refine ⟨fun h => absurd rfl h, fun i hi => ⟨?_, fun _ => rfl⟩⟩
    rintro ⟨pre, hpre, rfl⟩
    rw [List.prefix_nil.mp hpre] at hi
    exact absurd rfl hi
  | append_singleton ps packet ih =>
    have hcolor := (paint_onlyCells screen ps.reverse).color
    rw [paint_concat, paintMove, hcolor, ← pointerAt_concat]
    refine ⟨fun _ => Function.update_self _ _ _, fun i hi => ?_⟩
    rw [setCell_of_ne _ hi, visited_concat, or_iff_left hi]
    by_cases hold : i = cellAt (pointerAt ps)
    · -- the cell the pointer just left
      subst hold
      refine ⟨fun _ => Function.update_self _ _ _, fun hn => absurd ?_ hn⟩
      exact ⟨ps, List.prefix_refl ps, rfl⟩
    · rw [setCell_of_ne _ hold]
      exact ih.2 i hold

/-- **The pointer erases what it passes.** After any interrupts the screen has the pointer at its
position once a packet has come, a blank at every other cell it has been at, the starting corner
included, and is unchanged elsewhere; the cursor and the colour of the text are unchanged. -/
theorem mouse_screen (s : Mouse) (ios : List (Byte × Byte)) :
    OnlyCells s.vga (run Mouse.step s.reset ios).vga ∧
    (packets (mouseBytes ios) ≠ [] →
      (run Mouse.step s.reset ios).vga.vga (cellAt (pointerAt (packets (mouseBytes ios))))
        = vgaCell 0x58 s.vga.currentColor) ∧
    ∀ i, i ≠ cellAt (pointerAt (packets (mouseBytes ios))) →
      (Visited (packets (mouseBytes ios)) i →
        (run Mouse.step s.reset ios).vga.vga i = vgaCell 0x20 s.vga.currentColor) ∧
      (¬ Visited (packets (mouseBytes ios)) i →
        (run Mouse.step s.reset ios).vga.vga i = s.vga.vga i) := by
  have h := run_receives ios (reset_receives s)
  rw [List.nil_append] at h
  rw [h.screen]
  exact ⟨paint_onlyCells _ _, paint_cells s.vga (packets (mouseBytes ios))⟩

end MinimalistOS
