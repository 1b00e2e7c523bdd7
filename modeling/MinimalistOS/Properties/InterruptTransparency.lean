import MinimalistOS.Infra.Agree
import MinimalistOS.Properties.InterruptReturn

/-!
# Interrupts between the instructions of a program

* `interrupt_agree` — an interrupt leaves what the interrupted code relies on as it was
* `interleave_agree` — so code with any interrupts between its instructions computes what it
  computes without them, if it keeps to its own data and stack

The C function of the interrupt is any change of the machine that returns to its caller and keeps
its hands off the caller's stack and data. The frame of an interrupt lies right below the stack
pointer of the interrupted code, so the code must not rely on anything there, and must leave room
for it.
-/

namespace MinimalistOS

open Infra X86

/-- What the interrupted code expects of the C function of an interrupt. -/
structure Courteous (w : View) (body : Cpu → Cpu) : Prop where
  returns : ∀ c, w.depth (c.reg .esp) ≤ w.size → (body c).reg .esp = c.reg .esp + 4
  keeps : ∀ c, w.depth (c.reg .esp) ≤ w.size →
    ∀ x, w.Sees (c.reg .esp + 8) x → (body c).mem x = c.mem x

/-- Segment registers hold sixteen bits. -/
def SegsFit (c : Cpu) : Prop := ∀ s, (c.seg s).toNat < 2 ^ 16

theorem readRegs_congr {m m' : Mem} {p : Word}
    (h : ∀ k : Word, k.toNat < regsSize → m (p + k) = m' (p + k)) :
    readRegs m p = readRegs m' p := by
  have hread : ∀ a : Word, a.toNat ≤ 64 → m.read32 (p + a) = m'.read32 (p + a) := by
    intro a ha
    refine Mem.read32_congr fun k hk => ?_
    rw [BitVec.add_assoc]
    exact h (a + k) (by unfold regsSize; bv_omega)
  have h0 := hread 0 (by decide)
  rw [show p + 0 = p by bv_omega] at h0
  unfold readRegs
  rw [h0, hread 4 (by decide), hread 8 (by decide), hread 12 (by decide), hread 16 (by decide),
    hread 20 (by decide), hread 24 (by decide), hread 28 (by decide), hread 32 (by decide),
    hread 36 (by decide), hread 40 (by decide), hread 44 (by decide), hread 48 (by decide),
    hread 52 (by decide), hread 56 (by decide), hread 60 (by decide), hread 64 (by decide)]

/-- Loading the processor from the state it was interrupted in. -/
theorem resume_interruptedRegs {c : Cpu} (hseg : SegsFit c) (i : Interrupt) (m : Mem) :
    (interruptedRegs c i).resume (c.reg .esp) m = { c with mem := m } := by
  refine Cpu.ext_fields (fun r => ?_) (fun s => ?_) rfl rfl rfl
  · cases r <;> rfl
  · cases s <;> exact selector_of_lt (hseg _)

variable (img : Image) (k : Idt) (regs : List (Byte × Word))

theorem interrupt_agree {w : View} {body : Cpu → Cpu} (hbody : Courteous w body) {c : Cpu}
    (hroom : w.depth (c.reg .esp) + 76 ≤ w.size) (hseg : SegsFit c) {i : Interrupt} {s : Stub}
    (h : (i.vector, s) ∈ installed) (hcode : i.errorCode.isSome = hasErrorCode i.vector.toNat) :
    ∃ c', interrupt img (tables img k regs) body c i = some c' ∧ Agree w c c' := by
  obtain ⟨c', hat, hmem, hesp, -⟩ := atHandler_spec img k regs c h hcode
  have hsize := w.size_lt
  have hdepth : w.depth (c.reg .esp - 76) = w.depth (c.reg .esp) + 76 :=
    View.depth_sub (show w.depth (c.reg .esp) + 76 < 2 ^ 32 by omega)
  have hframe : w.depth (c.reg .esp - 68) = w.depth (c.reg .esp) + 68 :=
    View.depth_sub (show w.depth (c.reg .esp) + 68 < 2 ^ 32 by omega)
  have hin : w.depth (c'.reg .esp) ≤ w.size := by
    rw [hesp, hdepth]
    exact hroom
  have hkeeps := hbody.keeps c' hin
  rw [hesp, show c.reg .esp - 76 + 8 = c.reg .esp - 68 by bv_omega] at hkeeps
  -- the whole of `struct regs` is stack that the C function must leave alone
  have hregs : readRegs (body c').mem (c.reg .esp - 68) = interruptedRegs c i := by
    rw [← readRegs_pushes img c i s, ← hmem]
    refine readRegs_congr fun j hj => hkeeps _ (Or.inr ?_)
    unfold View.Live
    rw [hframe]
    unfold View.depth regsSize at *
    bv_omega
  refine ⟨{ c with mem := (body c').mem }, ?_, Agree.of_mem fun x hx => ?_⟩
  · unfold interrupt
    rw [hat, Option.map_some, stubReturn_spec, hbody.returns c' hin, hesp,
      show c.reg .esp - 76 + 4 + 4 = c.reg .esp - 68 by bv_omega, hregs,
      show c.reg .esp - 76 + 4 + 72 = c.reg .esp by bv_omega, resume_interruptedRegs hseg]
  · rw [hkeeps x (hx.mono (by omega)), hmem]
    refine pushes_apply ?_
    -- neither the live stack nor the data of the code is in the frame
    show 76 ≤ (c.reg .esp - 1 - x).toNat
    rcases hx with hx | hx
    · have hapart := w.own_apart x hx
      unfold View.depth at *
      bv_omega
    · unfold View.Live View.depth at *
      bv_omega

/-! ## Interrupts at any point -/

/-- No instruction puts more than sixteen bits into a segment register. -/
theorem SegsFit.step {c : Cpu} (h : SegsFit c) (i : Instr) : SegsFit (step c i) := by
  cases i with
  | movSeg src dst =>
    intro s
    simp only [X86.step, Cpu.seg_setSeg]
    split
    · bv_omega
    · exact h s
  | pusha => exact h
  | _ => exact h

theorem irqRequest_code :
    ∀ num, (irqRequest num).errorCode.isSome = hasErrorCode (irqRequest num).vector.toNat := by
  decide

theorem Occurrence.code_cons_instr (i : Instr) (es : List Occurrence) :
    Occurrence.code (.instr i :: es) = i :: Occurrence.code es := rfl

theorem Occurrence.code_cons_irq (num : Fin 16) (body : Cpu → Cpu) (es : List Occurrence) :
    Occurrence.code (.irq num body :: es) = Occurrence.code es := rfl

/--
**Interrupts are transparent** to code that keeps to its own data and to the live part of its stack.

The conditions are on the undisturbed run of the code: at each instruction it loads only from data
of its own, apart from the stack, or from between the stack pointer and the base of the stack, and
lets the stack grow by no more than it pushes; 76 bytes below the stack pointer are always free;
and the segment registers hold sixteen bits. Then, whatever interrupts come between its
instructions, it ends with the registers, the segments, the flags, the data and the live stack that
it would have ended with without them. What is below its stack pointer may differ.
-/
theorem interleave_agree {w : View} {c : Cpu} {es : List Occurrence} (hseg : SegsFit c)
    (hroom : w.depth (c.reg .esp) + 76 ≤ w.size)
    (hbody : ∀ num body, Occurrence.irq num body ∈ es → Courteous w body)
    (hfits : Along machine (Fits w 76) c (Occurrence.code es)) :
    ∃ c', interleave img (tables img k regs) c es = some c' ∧
      Agree w (exec (Occurrence.code es) c) c' := by
  -- the interrupted processor agrees with the undisturbed one all along
  suffices h : ∀ d, Agree w c d → ∃ c', interleave img (tables img k regs) d es = some c' ∧
      Agree w (exec (Occurrence.code es) c) c' from h c (Agree.refl w c)
  induction es generalizing c with
  | nil => exact fun d hd => ⟨d, rfl, hd⟩
  | cons e es ih =>
    have hbody' : ∀ num body, Occurrence.irq num body ∈ es → Courteous w body :=
      fun num body hmem => hbody num body (List.mem_cons_of_mem _ hmem)
    intro d hd
    cases e with
    | instr i =>
      rw [Occurrence.code_cons_instr] at hfits
      obtain ⟨hfit, hrest⟩ := hfits
      exact ih (hseg.step i) hfit.room hbody' hrest _ (hd.step (by decide) hroom hfit)
    | irq num body =>
      rw [Occurrence.code_cons_irq] at hfits
      have hsegd : SegsFit d := by
        unfold SegsFit
        rw [hd.seg]
        exact hseg
      have hroomd : w.depth (d.reg .esp) + 76 ≤ w.size := by
        rw [hd.reg]
        exact hroom
      obtain ⟨d', hint, hagree⟩ := interrupt_agree img k regs (hbody num body List.mem_cons_self)
        hroomd hsegd (i := irqRequest num) (irq_mem_installed num) (irqRequest_code num)
      obtain ⟨c', hc', hfinal⟩ := ih hseg hroom hbody' hfits d' (hd.trans hagree)
      refine ⟨c', ?_, hfinal⟩
      rw [interleave, hint]
      exact hc'

/-- A kernel stack of one page below 2 MB, and no data. -/
def sampleView : View where
  own _ := False
  base := 0x200000
  size := 4096
  size_lt := by decide
  own_apart _ h := h.elim

/-- The keyboard interrupts between a push and the pop that undoes it. -/
theorem interleave_agree_push_pop :
    ∃ c', interleave sampleImage (tables sampleImage bootIdt []) sampleCpu
        [.instr (.push .eax), .irq 1 Cpu.drop, .instr (.pop .ebx)] = some c' ∧
      Agree sampleView (exec [.push .eax, .pop .ebx] sampleCpu) c' := by
  refine interleave_agree sampleImage bootIdt [] (fun s => ?_) (by decide) (fun num body h => ?_) ?_
  · cases s <;> decide
  · obtain ⟨rfl, rfl⟩ : num = 1 ∧ body = Cpu.drop := by simpa using h
    exact ⟨fun _ _ => rfl, fun _ _ _ _ => rfl⟩
  · refine ⟨⟨fun a ha => ?_, by decide, by decide⟩, ⟨fun a ha k hk => ?_, by decide, by decide⟩,
      trivial⟩
    · cases ha
    · obtain rfl := List.mem_singleton.mp ha
      right
      have h0 : (machine sampleCpu (.push .eax)).1.reg .esp = 0x1FFFFC := by decide
      unfold View.Live View.depth sampleView
      rw [h0]
      bv_omega

end MinimalistOS
