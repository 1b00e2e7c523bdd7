import MinimalistOS.Infra.Run
import MinimalistOS.Infra.X86

/-!
# Code that relies on part of the memory

A piece of code owns some data and a stack that grows down from its base. It relies on its data and
on the live part of its stack, from the stack pointer to the base, and on nothing else. `View` says
which part that is, and two processors `Agree` when they differ at most in the memory outside it.

## The rules

* `Agree.push`, `Agree.pushList` — what is pushed on both is seen
* `Agree.step` — an instruction that loads only what is seen keeps the agreement

Stores need no condition: the same dword goes to the same address in both.
-/

namespace Infra.X86

/-- The part of the memory that a piece of code relies on. -/
structure View where
  own : Word → Prop
  base : Word
  size : Nat
  size_lt : size < 2 ^ 32
  own_apart : ∀ x, own x → size ≤ (base - 1 - x).toNat

namespace View

variable (w : View)

/-- The bytes of stack in use. -/
def depth (sp : Word) : Nat := (w.base - sp).toNat

/-- The address is between the stack pointer and the base. -/
def Live (sp x : Word) : Prop := (w.base - 1 - x).toNat < w.depth sp

def Sees (sp x : Word) : Prop := w.own x ∨ w.Live sp x

variable {w}

/-- A deeper stack shows no less. -/
theorem Sees.mono {sp sp' x : Word} (h : w.depth sp ≤ w.depth sp') (hx : w.Sees sp x) :
    w.Sees sp' x :=
  hx.imp_right fun hlive => Nat.lt_of_lt_of_le hlive h

theorem depth_sub {sp d : Word} (h : w.depth sp + d.toNat < 2 ^ 32) :
    w.depth (sp - d) = w.depth sp + d.toNat := by
  unfold depth at *
  bv_omega

end View

/-- The processors are the same as far as the code can see. -/
structure Agree (w : View) (c d : Cpu) : Prop where
  reg : d.reg = c.reg
  seg : d.seg = c.seg
  eip : d.eip = c.eip
  eflags : d.eflags = c.eflags
  mem : ∀ x, w.Sees (c.reg .esp) x → d.mem x = c.mem x

namespace Agree

variable {w : View} {c d e : Cpu}

theorem refl (w : View) (c : Cpu) : Agree w c c := ⟨rfl, rfl, rfl, rfl, fun _ _ => rfl⟩

theorem trans (h : Agree w c d) (h' : Agree w d e) : Agree w c e where
  reg := h'.reg.trans h.reg
  seg := h'.seg.trans h.seg
  eip := h'.eip.trans h.eip
  eflags := h'.eflags.trans h.eflags
  mem x hx := by
    have hx' : w.Sees (d.reg .esp) x := by
      rw [h.reg]
      exact hx
    rw [h'.mem x hx', h.mem x hx]

/-- A processor that agrees differs in the memory only. -/
theorem eq_mem (h : Agree w c d) : d = { c with mem := d.mem } := by
  obtain ⟨hreg, hseg, heip, heflags, -⟩ := h
  cases d
  simp only at hreg hseg heip heflags
  subst hreg hseg heip heflags
  rfl

/-- A dword that is seen. -/
theorem read32 (h : Agree w c d) {a : Word}
    (ha : ∀ k : Word, k.toNat < 4 → w.Sees (c.reg .esp) (a + k)) :
    d.mem.read32 a = c.mem.read32 a :=
  Mem.read32_congr fun k hk => h.mem _ (ha k hk)

end Agree

/-! ## What an instruction touches -/

/-- The addresses of the dwords an instruction loads. -/
def loads (c : Cpu) : Instr → List Word
  | .pushMem disp base => [c.reg base + disp]
  | .load disp base _ => [c.reg base + disp]
  | .pop _ => [c.reg .esp]
  | .popf => [c.reg .esp]
  | .ret => [c.reg .esp]
  | _ => []

/-- The dwords an instruction pushes. -/
def pushed : Instr → Nat
  | .push _ => 1
  | .pushImm _ => 1
  | .pushMem _ _ => 1
  | .pushSeg _ => 1
  | .pushf => 1
  | .call _ => 1
  | .pusha => 8
  | _ => 0

/-- The instruction loads what is seen, and enlarges the stack by its pushes only; `reserve` bytes
of the stack stay free. -/
structure Fits (w : View) (reserve : Nat) (c : Cpu) (i : Instr) : Prop where
  loads : ∀ a ∈ loads c i, ∀ k : Word, k.toNat < 4 → w.Sees (c.reg .esp) (a + k)
  depth : w.depth ((step c i).reg .esp) ≤ w.depth (c.reg .esp) + 4 * pushed i
  room : w.depth ((step c i).reg .esp) + reserve ≤ w.size

/-- Straight-line code as a machine that gives no answers. -/
def machine (c : Cpu) (i : Instr) : Cpu × Unit := (step c i, ())

/-! ## Agreement after an instruction -/

theorem write32_congr {m m' : Mem} {x : Word} (h : m' x = m x) (a v : Word) :
    m'.write32 a v x = m.write32 a v x := by
  unfold Mem.write32
  split
  · rfl
  · exact h

theorem stos_congr (v delta : Word) : ∀ (n : Nat) (m m' : Mem) (edi : Word),
    (stos v delta n m' edi).2 = (stos v delta n m edi).2 ∧
      ∀ x, m' x = m x → (stos v delta n m' edi).1 x = (stos v delta n m edi).1 x
  | 0, _, _, _ => ⟨rfl, fun _ h => h⟩
  | n + 1, m, m', edi => by
    obtain ⟨hedi, hmem⟩ := stos_congr v delta n (m.write32 edi v) (m'.write32 edi v) (edi + delta)
    exact ⟨hedi, fun x hx => hmem x (write32_congr hx edi v)⟩

namespace Agree

variable {w : View} {c d : Cpu}

theorem top (h : Agree w c d) (hseen : ∀ k : Word, k.toNat < 4 →
    w.Sees (c.reg .esp) (c.reg .esp + k)) : d.top = c.top := by
  unfold Cpu.top
  rw [h.reg]
  exact h.read32 hseen

theorem of_mem {m : Mem} (hmem : ∀ x, w.Sees (c.reg .esp) x → m x = c.mem x) :
    Agree w c { c with mem := m } :=
  ⟨rfl, rfl, rfl, rfl, hmem⟩

theorem push (h : Agree w c d) (hroom : w.depth (c.reg .esp) + 4 < 2 ^ 32) (v : Word) :
    Agree w (c.push v) (d.push v) := by
  rw [h.eq_mem]
  refine of_mem fun x hx => ?_
  have hdepth : w.depth (c.reg .esp - 4) = w.depth (c.reg .esp) + 4 := View.depth_sub hroom
  simp only [Cpu.mem_push]
  by_cases hin : (x - (c.reg .esp - 4)).toNat < 4
  · unfold Mem.write32
    rw [if_pos hin, if_pos hin]
  · refine write32_congr (h.mem x ?_) _ _
    -- what is seen now and was not is the dword just pushed
    rcases hx with hx | hx
    · exact Or.inl hx
    · right
      simp only [View.Live, View.depth, Cpu.reg_push, if_true] at *
      bv_omega

theorem pushList (vs : List Word) : ∀ {c d : Cpu}, Agree w c d →
    w.depth (c.reg .esp) + 4 * vs.length < 2 ^ 32 →
      Agree w (vs.foldl Cpu.push c) (vs.foldl Cpu.push d) := by
  induction vs with
  | nil => exact fun h _ => h
  | cons v vs ih =>
    intro c d h hroom
    rw [List.length_cons] at hroom
    refine ih (h.push (by omega) v) ?_
    have hdepth : w.depth (c.reg .esp - 4) = w.depth (c.reg .esp) + 4 :=
      View.depth_sub (show w.depth (c.reg .esp) + 4 < 2 ^ 32 by omega)
    simp only [Cpu.reg_push, if_true, hdepth]
    omega

/-- An instruction that leaves the memory alone and does not enlarge the stack. -/
theorem of_same_mem (h : Agree w c d) {c' : Cpu} (hmem : c'.mem = c.mem)
    (hdepth : w.depth (c'.reg .esp) ≤ w.depth (c.reg .esp)) :
    Agree w c' { c' with mem := d.mem } :=
  of_mem fun x hx => (h.mem x (hx.mono hdepth)).trans (congrFun hmem x).symm

/-- **Step.** An instruction that fits keeps the agreement. The longest push is `pusha`. -/
theorem step {reserve : Nat} {i : Instr} (h : Agree w c d) (hreserve : 32 ≤ reserve)
    (hroom : w.depth (c.reg .esp) + reserve ≤ w.size) (hfits : Fits w reserve c i) :
    Agree w (step c i) (step d i) := by
  obtain ⟨hloads, hdepth, -⟩ := hfits
  have hsize := w.size_lt
  -- a dword that the instruction loads is the same in both
  have hread : ∀ a ∈ loads c i, d.mem.read32 a = c.mem.read32 a :=
    fun a ha => h.read32 (hloads a ha)
  cases i with
  | push r =>
    simp only [X86.step, h.reg]
    exact h.push (by omega) _
  | pushImm imm => exact h.push (by omega) imm
  | pushMem disp base =>
    simp only [X86.step, h.reg, hread _ (List.mem_singleton_self _)]
    exact h.push (by omega) _
  | pushSeg s =>
    simp only [X86.step, h.seg]
    exact h.push (by omega) _
  | pusha =>
    simp only [X86.step, h.reg]
    have hlen : (pushaOrder.map c.reg).length = 8 := rfl
    exact h.pushList _ (by omega)
  | pushf =>
    simp only [X86.step, h.eflags]
    exact h.push (by omega) _
  | pop r =>
    simp only [X86.step, h.top (hloads _ (List.mem_singleton_self _))]
    rw [h.eq_mem]
    exact h.of_same_mem rfl hdepth
  | popf =>
    simp only [X86.step, h.top (hloads _ (List.mem_singleton_self _))]
    rw [h.eq_mem]
    exact h.of_same_mem rfl hdepth
  | mov src dst =>
    rw [h.eq_mem]
    exact h.of_same_mem rfl hdepth
  | movImm imm dst =>
    rw [h.eq_mem]
    exact h.of_same_mem rfl hdepth
  | movImm16 imm dst =>
    rw [h.eq_mem]
    exact h.of_same_mem rfl hdepth
  | load disp base dst =>
    simp only [X86.step, h.reg, hread _ (List.mem_singleton_self _)]
    rw [h.eq_mem]
    exact h.of_same_mem rfl hdepth
  | store src disp base =>
    rw [h.eq_mem]
    exact of_mem fun x hx => write32_congr (h.mem x hx) _ _
  | storeImm imm disp base =>
    rw [h.eq_mem]
    exact of_mem fun x hx => write32_congr (h.mem x hx) _ _
  | movSeg src dst =>
    rw [h.eq_mem]
    exact h.of_same_mem rfl hdepth
  | xor src dst =>
    rw [h.eq_mem]
    exact h.of_same_mem rfl hdepth
  | repStos =>
    obtain ⟨hedi, hmem⟩ := stos_congr (c.reg .eax) (if df c.eflags then -4 else 4)
      (c.reg .ecx).toNat c.mem d.mem (c.reg .edi)
    rw [h.eq_mem]
    simp only [X86.step, hedi]
    exact of_mem fun x hx => hmem x (h.mem x (hx.mono hdepth))
  | cli =>
    rw [h.eq_mem]
    exact h.of_same_mem rfl hdepth
  | call next => exact h.push (by omega) next
  | ret =>
    simp only [X86.step, h.top (hloads _ (List.mem_singleton_self _))]
    rw [h.eq_mem]
    exact h.of_same_mem rfl hdepth

end Agree

end Infra.X86
