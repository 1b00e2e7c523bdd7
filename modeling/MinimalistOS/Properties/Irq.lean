import MinimalistOS.Properties.Idt
import MinimalistOS.Spec.Lines

/-!
# The interrupt lines

* `irqInit_tracks` — after `idt_init` no line is on but the wire between the controllers
* `step_tracks` — each call and each request does to the controllers and tables what it does to the
  lines
* `irq_refines_lines` — so every run calls the handlers that the lines say

`irq_handler` ends the interrupt at both controllers before it calls the handler, and only then.
That both are idle again is what lets the next request through.
-/

namespace MinimalistOS

open Infra X86

/-- The controllers and the tables stand for the lines. -/
structure Tracks (img : Image) (k : Idt) (s : IrqState) (t : Lines) : Prop where
  tables : ∃ regs, s.tables = registerAll (idtInit img k).1 regs
  handler : ∀ line, slot s.tables.interruptHandlers (lineVector line).toNat = t.handler line
  master : s.pics.master.Idle
  slave : s.pics.slave.Idle
  masterBase : s.pics.master.base = 0x20
  slaveBase : s.pics.slave.base = 0x28
  masterMask : ∀ j : Fin 16, j.val < 8 → s.pics.master.mask.getLsbD j = !t.enabled j
  slaveMask : ∀ j : Fin 16, 8 ≤ j.val → s.pics.slave.mask.getLsbD (j - 8) = !t.enabled j
  wire : t.enabled 2 = true

/-! ## Initialisation -/

theorem picRemap_onPics (p : Pics) :
    picRemap.foldl Action.onPics p
      = { master := { expects := [], base := 0x20, mask := 0xFB, inService := 0 },
          slave := { expects := [], base := 0x28, mask := 0xFF, inService := 0 } } := by
  simp [picRemap, Action.onPics, Pics.write, Pic.command, Pic.data]

theorem irqInit_tracks (img : Image) (k : Idt) (p : Pics) :
    Tracks img k (irqInit img k p)
      (Lines.init fun line => slot k.interruptHandlers (lineVector line).toNat) where
  tables := ⟨[], rfl⟩
  handler line := by
    simp only [irqInit, idtInit, foldl_idtSetGate, Lines.init]
  master := by
    simp only [irqInit, idtInit, picRemap_onPics]
    exact ⟨rfl, rfl⟩
  slave := by
    simp only [irqInit, idtInit, picRemap_onPics]
    exact ⟨rfl, rfl⟩
  masterBase := by simp only [irqInit, idtInit, picRemap_onPics]
  slaveBase := by simp only [irqInit, idtInit, picRemap_onPics]
  masterMask := by
    simp only [irqInit, idtInit, picRemap_onPics, Lines.init]
    decide
  slaveMask := by
    simp only [irqInit, idtInit, picRemap_onPics, Lines.init]
    decide
  wire := rfl

/-! ## Steps -/

theorem lineVector_toNat (line : Fin 16) : (lineVector line).toNat = 32 + line.val := by
  have hlt := line.isLt
  simp only [lineVector, BitVec.toNat_ofNat]
  omega

variable {img : Image} {k : Idt} {s : IrqState} {t : Lines}

theorem Tracks.register (h : Tracks img k s t) (n : Byte) (handler : Word) :
    Tracks img k { s with tables := registerInterruptHandler s.tables n handler }
      (t.step (.register n handler)).1 :=
  { h with
    tables := by
      obtain ⟨regs, hregs⟩ := h.tables
      refine ⟨regs ++ [(n, handler)], ?_⟩
      rw [hregs]
      simp only [registerAll, List.foldl_append, List.foldl_cons, List.foldl_nil]
    handler := fun line => by
      simp only [registerInterruptHandler, Lines.step]
      rw [slot_setIfInBounds _ n.isLt]
      by_cases hn : lineVector line = n
      · rw [if_pos hn, if_pos (congrArg BitVec.toNat hn)]
      · rw [if_neg hn, if_neg fun he => hn (BitVec.eq_of_toNat_eq he)]
        exact h.handler line }

/-- The mask that `enable_irq` writes back. -/
theorem enable_mask (mask : Byte) {i j : Nat} (hj : j < 8) :
    ((mask.setWidth 32 &&& ~~~((1 : Word) <<< i)).setWidth 8).getLsbD j
      = (mask.getLsbD j && !decide (j = i)) := by
  have hone : ((1 : Word) <<< i).getLsbD j = decide (j = i) :=
    Bitmap.getLsbD_one_shiftLeft (w := 32) (by omega)
  rw [BitVec.getLsbD_setWidth, BitVec.getLsbD_and, BitVec.getLsbD_not, hone,
    BitVec.getLsbD_setWidth]
  simp [hj, show j < 32 by omega]

theorem enableIrq_low {p : Pics} (h : p.master.Idle) {irq : Byte} (hirq : irq.toNat < 8) :
    enableIrq p irq = { p with master := { p.master with
      mask := ((p.master.mask.setWidth 32 &&& ~~~((1 : Word) <<< irq.toNat)).setWidth 8) } } := by
  have hmod : irq.toNat % 32 = irq.toNat := Nat.mod_eq_of_lt (by omega)
  unfold enableIrq
  simp only [if_pos hirq, Pics.read, Pics.write, hmod]
  rw [← h.data]
  rfl

theorem enableIrq_high {p : Pics} (h : p.slave.Idle) {irq : Byte} (hirq : ¬ irq.toNat < 8)
    (hlt : irq.toNat < 40) :
    enableIrq p irq
      = { p with slave := { p.slave with
          mask := (p.slave.mask.setWidth 32 &&& ~~~((1 : Word) <<< (irq.toNat - 8))).setWidth 8 } }
    := by
  have hsub : (irq - 8).toNat % 32 = irq.toNat - 8 := by bv_omega
  unfold enableIrq
  simp only [if_neg hirq, Pics.read, Pics.write, hsub]
  rw [← h.data]
  rfl

/-- Numbers from 16 on shift the bit out of the mask: no line is enabled. -/
theorem Tracks.enable (h : Tracks img k s t) {irq : Byte} (hlt : irq.toNat < 40) :
    Tracks img k { s with pics := enableIrq s.pics irq } (t.step (.enable irq)).1 := by
  have hwire : (t.enabled 2 || (2 : Fin 16).val == irq.toNat) = true := by
    rw [h.wire, Bool.true_or]
  by_cases hirq : irq.toNat < 8
  · rw [enableIrq_low h.master hirq]
    refine { h with
      master := ⟨h.master.expects, h.master.inService⟩
      masterMask := fun j hj => ?_
      slaveMask := fun j hj => ?_
      wire := hwire }
    · simp only [enable_mask _ hj, h.masterMask j hj, Lines.step, Bool.not_or]
      rfl
    · have hne : (j.val == irq.toNat) = false := by
        rw [beq_eq_false_iff_ne]
        omega
      simp only [h.slaveMask j hj, Lines.step, hne, Bool.or_false]
  · rw [enableIrq_high h.slave hirq hlt]
    refine { h with
      slave := ⟨h.slave.expects, h.slave.inService⟩
      masterMask := fun j hj => ?_
      slaveMask := fun j hj => ?_
      wire := hwire }
    · have hne : (j.val == irq.toNat) = false := by
        rw [beq_eq_false_iff_ne]
        omega
      simp only [h.masterMask j hj, Lines.step, hne, Bool.or_false]
    · have hjlt := j.isLt
      have heq : decide (j.val - 8 = irq.toNat - 8) = (j.val == irq.toNat) := by
        rw [Bool.eq_iff_iff, decide_eq_true_eq, beq_iff_eq]
        omega
      simp only [enable_mask _ (show j.val - 8 < 8 by omega), h.slaveMask j hj, Lines.step,
        Bool.not_or, heq]

/-! ## Requests -/

/-- The writes to the command ports with which `irq_handler` ends an interrupt. -/
def endOfInterrupt (p : Pics) (vector : Byte) : Pics :=
  (if 40 ≤ vector.toNat then p.write 0xA0 0x20 else p).write 0x20 0x20

theorem request_low_vector : ∀ line : Fin 16, line.val < 8 →
    (0x20 : Byte) + BitVec.ofNat 8 (line.val % 8) = lineVector line := by
  decide

theorem request_high_vector : ∀ line : Fin 16, ¬ line.val < 8 →
    (0x28 : Byte) + BitVec.ofNat 8 (line.val % 8) = lineVector line := by
  decide

/-- A request on a line that is on gets through, and its end leaves the controllers as they were. -/
theorem Tracks.request_on (h : Tracks img k s t) {line : Fin 16} (hon : t.enabled line = true) :
    ∃ pics, s.pics.request line = some (lineVector line, pics) ∧
      endOfInterrupt pics (lineVector line) = s.pics := by
  have hvec := lineVector_toNat line
  by_cases hlow : line.val < 8
  · have haccept : s.pics.master.accepts ⟨line % 8, Nat.mod_lt _ (by decide)⟩ = true := by
      rw [h.master.accepts]
      simp only [Nat.mod_eq_of_lt hlow, h.masterMask line hlow, hon, Bool.not_true, Bool.not_false]
    refine ⟨{ s.pics with
      master := s.pics.master.accept ⟨line % 8, Nat.mod_lt _ (by decide)⟩ }, ?_, ?_⟩
    · simp only [Pics.request, if_pos hlow, haccept, if_true, Pic.vector, h.masterBase,
        request_low_vector line hlow]
    · unfold endOfInterrupt
      rw [if_neg (by omega)]
      simp only [Pics.write, if_true, h.master.accept_end]
  · have haccept : s.pics.slave.accepts ⟨line % 8, Nat.mod_lt _ (by decide)⟩ = true := by
      have hmod : line.val % 8 = line.val - 8 := by omega
      rw [h.slave.accepts]
      simp only [hmod, h.slaveMask line (by omega), hon, Bool.not_true, Bool.not_false]
    have hwire : s.pics.master.accepts 2 = true := by
      have hmask := h.masterMask 2 (by decide)
      rw [h.wire] at hmask
      rw [h.master.accepts, Bool.not_eq_true']
      exact hmask
    refine ⟨{ master := s.pics.master.accept 2
              slave := s.pics.slave.accept ⟨line % 8, Nat.mod_lt _ (by decide)⟩ }, ?_, ?_⟩
    · simp only [Pics.request, if_neg hlow, haccept, hwire, Bool.and_self, if_true, Pic.vector,
        h.slaveBase, request_high_vector line hlow]
    · unfold endOfInterrupt
      rw [if_pos (by omega)]
      have hmaster := h.master.accept_end 2
      have hslave := h.slave.accept_end ⟨line % 8, Nat.mod_lt _ (by decide)⟩
      simp only [Pics.write, BitVec.reduceEq, if_false, if_true, hmaster, hslave]

/-- A request on a line that is off does not get through. -/
theorem Tracks.request_off (h : Tracks img k s t) {line : Fin 16} (hoff : t.enabled line = false) :
    s.pics.request line = none := by
  by_cases hlow : line.val < 8
  · have hrefuse : s.pics.master.accepts ⟨line % 8, Nat.mod_lt _ (by decide)⟩ = false := by
      rw [h.master.accepts]
      simp only [Nat.mod_eq_of_lt hlow, h.masterMask line hlow, hoff, Bool.not_true, Bool.not_false]
    simp only [Pics.request, if_pos hlow, hrefuse, Bool.false_eq_true, if_false]
  · have hrefuse : s.pics.slave.accepts ⟨line % 8, Nat.mod_lt _ (by decide)⟩ = false := by
      have hmod : line.val % 8 = line.val - 8 := by omega
      rw [h.slave.accepts]
      simp only [hmod, h.slaveMask line (by omega), hoff, Bool.not_true, Bool.not_false]
    simp only [Pics.request, if_neg hlow, hrefuse, Bool.false_and, Bool.false_eq_true, if_false]

/-- What `irq_handler` does on a vector with some handler. -/
def irqActions (vector : Byte) (handler : Word) : List Action :=
  (if 40 ≤ vector.toNat then [.outb 0xA0 0x20] else []) ++ [.outb 0x20 0x20] ++
    (if handler ≠ 0 then [.invoke handler (vector.setWidth 32)] else [])

theorem serve_of_tracks (h : Tracks img k s t) (c : Cpu) (line : Fin 16)
    (hnone : (none : Option Word) ≠ none → hasErrorCode (lineVector line).toNat = true) :
    serve img s.tables c ⟨lineVector line, none, hnone⟩
      = some (irqActions (lineVector line) (t.handler line)) := by
  obtain ⟨regs, hregs⟩ := h.tables
  have hserve := serve_irq img k regs c (i := ⟨lineVector line, none, hnone⟩) line rfl
  rw [tables, ← hregs] at hserve
  rw [← h.handler line]
  exact hserve

/-- It ends the interrupt at the controllers and calls the handler. -/
theorem irqActions_split (vector : Byte) (handler : Word) (p : Pics) :
    (irqActions vector handler).foldl Action.onPics p = endOfInterrupt p vector ∧
      calls (irqActions vector handler)
        = if handler != 0 then [(handler, vector.setWidth 32)] else [] := by
  unfold irqActions endOfInterrupt
  by_cases hzero : handler = 0
  · rw [if_neg (not_not.mpr hzero), hzero]
    by_cases h40 : 40 ≤ vector.toNat <;> simp [h40, Action.onPics, calls]
  · rw [if_pos hzero, if_pos (bne_iff_ne.mpr hzero)]
    by_cases h40 : 40 ≤ vector.toNat <;> simp [h40, Action.onPics, calls]

theorem Tracks.request (h : Tracks img k s t) (c : Cpu) (line : Fin 16) :
    Tracks img k (s.step img c (.request line)).1 (t.step (.request line)).1 ∧
      (s.step img c (.request line)).2 = (t.step (.request line)).2 := by
  cases hon : t.enabled line with
  | false =>
    simp only [IrqState.step, h.request_off hon, Lines.step, hon, Bool.false_and,
      Bool.false_eq_true, if_false, and_true]
    exact h
  | true =>
    obtain ⟨pics, hreq, hend⟩ := h.request_on hon
    obtain ⟨hpics, hcalls⟩ := irqActions_split (lineVector line) (t.handler line) pics
    simp only [IrqState.step, hreq, serve_of_tracks h, Lines.step, hon, Bool.true_and, hpics, hend,
      hcalls, and_true]
    exact h

/-! ## Runs -/

/-- The calls for which the C code is defined. -/
def IrqCall.Defined : IrqCall → Prop
  | .enable irq => irq.toNat < 40
  | _ => True

theorem step_tracks (h : Tracks img k s t) (c : Cpu) {a : IrqCall} (ha : a.Defined) :
    Tracks img k (s.step img c a).1 (t.step a).1 ∧ (s.step img c a).2 = (t.step a).2 := by
  cases a with
  | register n handler => exact ⟨h.register n handler, rfl⟩
  | enable irq => exact ⟨h.enable ha, rfl⟩
  | request line => exact h.request c line

/-- **The kernel's interrupt tables and the controllers implement sixteen independent lines.** After
`idt_init`, in every run of registrations, `enable_irq` calls and requests, each request calls the
handler registered last for its line if the line has been enabled, and nothing otherwise: no
request is lost because an earlier one was not ended. `enable_irq` is called with numbers below 40;
for others its shift is by 32 and more, which C leaves undefined. -/
theorem irq_refines_lines (img : Image) (k : Idt) (p : Pics) (c : Cpu) {as : List IrqCall}
    (has : ∀ a ∈ as, a.Defined) :
    trace (IrqState.step img c) (irqInit img k p) as
      = trace Lines.step (Lines.init fun line => slot k.interruptHandlers (lineVector line).toNat)
          as :=
  (simulation (IrqState.step img c) (R := Tracks img k) (Q := IrqCall.Defined)
    (fun _ _ _ h ha => step_tracks h c ha) (irqInit_tracks img k p) has).2

/-- The controllers as the firmware leaves them, with every line on. -/
def coldPics : Pics := ⟨⟨[], 0x08, 0, 0⟩, ⟨[], 0x70, 0, 0⟩⟩

/-- The keyboard of a running kernel: registered, enabled and pressed, with the timer still off. -/
theorem irq_refines_lines_keyboard :
    trace (IrqState.step sampleImage sampleCpu) (irqInit sampleImage bootIdt coldPics)
        [.register 33 0x110100, .enable 1, .request 0, .request 1, .request 1]
      = [[], [], [], [(0x110100, 33)], [(0x110100, 33)]] := by
  have hdefined : ∀ a ∈ [IrqCall.register 33 0x110100, .enable 1, .request 0, .request 1,
      .request 1], a.Defined := by
    simp [IrqCall.Defined]
  rw [irq_refines_lines sampleImage bootIdt coldPics sampleCpu hdefined]
  simp [trace, Lines.step, Lines.init, lineVector, bootIdt, slot]

end MinimalistOS
