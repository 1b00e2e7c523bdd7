import MinimalistOS.Infra.X86

/-!
# Leaving an interrupt

The instructions with which an interrupt stub undoes its pushes. A segment register takes the low
half of a popped dword. `iret` is the one without a change of privilege: it pops the instruction
pointer, the code segment and the flags, and no stack pointer.
-/

namespace Infra.X86

inductive Leave where
  | pop (r : Reg)
  | popSeg (s : Seg)
  | popa
  | addImm (imm : Word) (dst : Reg)
  | iret
  deriving DecidableEq, Repr

/-- What a segment register keeps of a dword. -/
def selector (v : Word) : Word := (v.setWidth 16).setWidth 32

/-- `EFLAGS` after an addition. -/
def addFlags (eflags a b : Word) : Word :=
  let r := a + b
  let even := (List.range 8).countP (fun i => r.getLsbD i) % 2 == 0
  (eflags &&& ~~~0x8D5)
    ||| (if r.toNat < a.toNat then 0x1 else 0) ||| (if even then 0x4 else 0)
    ||| (if 16 ≤ a.toNat % 16 + b.toNat % 16 then 0x10 else 0) ||| (if r = 0 then 0x40 else 0)
    ||| (if r.msb then 0x80 else 0)
    ||| (if a.msb = b.msb ∧ r.msb ≠ a.msb then 0x800 else 0)

namespace Cpu

/-- One pop of `popa`, which throws the stack pointer away. -/
def popInto (c : Cpu) (r : Reg) : Cpu := if r = .esp then c.drop else c.drop.setReg r c.top

end Cpu

def leave (c : Cpu) : Leave → Cpu
  | .pop r => c.drop.setReg r c.top
  | .popSeg s => c.drop.setSeg s (selector c.top)
  | .popa => pushaOrder.reverse.foldl Cpu.popInto c
  | .addImm imm dst =>
    { c.setReg dst (c.reg dst + imm) with eflags := addFlags c.eflags (c.reg dst) imm }
  | .iret =>
    let ip := c.top
    let c := c.drop
    let sel := c.top
    let c := c.drop
    { c.drop.setSeg .cs (selector sel) with eip := ip, eflags := c.top }

/-- Run the end of a stub. -/
def leaveAll (code : List Leave) (c : Cpu) : Cpu := code.foldl leave c

@[simp] theorem leaveAll_nil (c : Cpu) : leaveAll [] c = c := rfl

@[simp] theorem leaveAll_cons (c : Cpu) (i : Leave) (is : List Leave) :
    leaveAll (i :: is) c = leaveAll is (leave c i) := rfl

/-! ## Dwords pushed one after the other -/

/-- The memory after pushes from a stack pointer on, in order. -/
def pushes (m : Mem) (sp : Word) : List Word → Mem
  | [] => m
  | v :: vs => pushes (m.write32 (sp - 4) v) (sp - 4) vs

/-- Memory outside the pushed dwords is as before. -/
theorem pushes_apply {sp x : Word} : ∀ {vs : List Word} {m : Mem},
    4 * vs.length ≤ (sp - 1 - x).toNat → pushes m sp vs x = m x
  | [], _, _ => rfl
  | v :: vs, m, h => by
    rw [List.length_cons] at h
    have htail : 4 * vs.length ≤ (sp - 4 - 1 - x).toNat := by bv_omega
    have hhead : 4 ≤ (x - (sp - 4)).toNat := by bv_omega
    rw [pushes, pushes_apply htail, Mem.write32_apply_of_le hhead]

/-- Each pushed dword can be read back. -/
theorem read32_pushes {sp a : Word} : ∀ {vs : List Word} {m : Mem} {j : Nat} {v : Word},
    4 * vs.length < 2 ^ 32 → vs[j]? = some v → (sp - a).toNat = 4 * (j + 1) →
      (pushes m sp vs).read32 a = v
  | w :: vs, m, 0, v, hlen, hv, ha => by
    obtain rfl : w = v := by simpa using hv
    obtain rfl : a = sp - 4 := by bv_omega
    rw [List.length_cons] at hlen
    -- the later pushes are below this one
    have hkeep : ∀ k : Word, k.toNat < 4 →
        pushes (m.write32 (sp - 4) w) (sp - 4) vs (sp - 4 + k)
          = m.write32 (sp - 4) w (sp - 4 + k) := by
      intro k hk
      exact pushes_apply (by bv_omega)
    rw [pushes, Mem.read32_congr hkeep, Mem.read32_write32_self]
  | w :: vs, m, j + 1, v, hlen, hv, ha => by
    rw [List.length_cons] at hlen
    rw [pushes]
    exact read32_pushes (by omega) (by simpa using hv) (by bv_omega)

/-! ## What the helpers change -/

theorem selector_of_lt {v : Word} (h : v.toNat < 2 ^ 16) : selector v = v := by
  unfold selector
  bv_omega

namespace Cpu

theorem ext_fields {c d : Cpu} (hreg : ∀ r, c.reg r = d.reg r) (hseg : ∀ s, c.seg s = d.seg s)
    (heip : c.eip = d.eip) (heflags : c.eflags = d.eflags) (hmem : c.mem = d.mem) : c = d := by
  cases c
  cases d
  simp only [Cpu.mk.injEq]
  exact ⟨funext hreg, funext hseg, heip, heflags, hmem⟩

variable (c : Cpu)

@[simp] theorem seg_setReg (r : Reg) (v : Word) : (c.setReg r v).seg = c.seg := rfl

@[simp] theorem seg_push (v : Word) : (c.push v).seg = c.seg := rfl

@[simp] theorem seg_drop : c.drop.seg = c.seg := rfl

@[simp] theorem seg_setSeg (s t : Seg) (v : Word) :
    (c.setSeg s v).seg t = if t = s then v else c.seg t := rfl

@[simp] theorem eip_setReg (r : Reg) (v : Word) : (c.setReg r v).eip = c.eip := rfl

@[simp] theorem eip_push (v : Word) : (c.push v).eip = c.eip := rfl

@[simp] theorem eip_drop : c.drop.eip = c.eip := rfl

@[simp] theorem eip_setSeg (s : Seg) (v : Word) : (c.setSeg s v).eip = c.eip := rfl

@[simp] theorem eflags_drop : c.drop.eflags = c.eflags := rfl

@[simp] theorem eflags_setSeg (s : Seg) (v : Word) : (c.setSeg s v).eflags = c.eflags := rfl

end Cpu

end Infra.X86
