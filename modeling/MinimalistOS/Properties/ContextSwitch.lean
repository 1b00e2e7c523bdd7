import Mathlib.Data.BitVec
import MinimalistOS.Properties.Context

/-!
# Where `context_switch` continues

* `contextSwitch_saves` — `context_switch` leaves `CpuContext.save` in the structure it leaves
* `contextSwitch_lands` — where it continues, register by register
* `contextSwitch_never_resumes` — neither a fresh nor a suspended context is ever resumed where it
  should be

## Where it goes wrong

The second half pushes the new instruction pointer before it pops the registers. The push is the
first thing the pops consume: every register gets the dword of its neighbour, `ret` takes the saved
`EBP` slot for the return address, and the stack pointer ends one dword short. A fresh context has
no register frame at all, so its pops read past the top of its stack.
-/

namespace MinimalistOS

open Infra X86

/-! ## Saving -/

/-- The register frame that `context_switch` pushes. -/
def savePushes (c : Cpu) : List (Word × Word) :=
  [(c.reg .esp - 4, c.reg .ebp), (c.reg .esp - 8, c.reg .eax), (c.reg .esp - 12, c.reg .ebx),
    (c.reg .esp - 16, c.reg .ecx), (c.reg .esp - 20, c.reg .edx), (c.reg .esp - 24, c.reg .esi),
    (c.reg .esp - 28, c.reg .edi), (c.reg .esp - 32, c.reg .esp - 4)]

/-- A pushed dword, by its distance from the stack pointer. -/
theorem mem_savePushes {c : Cpu} {p : Word × Word} (hp : p ∈ savePushes c) :
    ∃ d : Word, (4 ≤ d.toNat ∧ d.toNat ≤ 32) ∧ p.1 = c.reg .esp - d := by
  simp only [savePushes, List.mem_cons, List.not_mem_nil, or_false] at hp
  rcases hp with rfl | rfl | rfl | rfl | rfl | rfl | rfl | rfl
  all_goals exact ⟨_, by decide, rfl⟩

/-- An argument, or the return address, is still in place after the pushes. -/
theorem read_arg_savePushes (c : Cpu) {k : Word} (hk : k.toNat ≤ 12) :
    (c.mem.writes (savePushes c)).read32 (c.reg .esp + k) = c.mem.read32 (c.reg .esp + k) := by
  refine Mem.read32_writes_of_apart fun p hp => ?_
  obtain ⟨d, hd, hpd⟩ := mem_savePushes hp
  rw [hpd]
  exact push_apart (by omega) hk

theorem contextPush_spec (c : Cpu) :
    (exec contextPush c).mem = c.mem.writes (savePushes c) ∧
    (exec contextPush c).reg .esp = c.reg .esp - 32 ∧
    (exec contextPush c).reg .ebp = c.reg .esp - 4 ∧
    (exec contextPush c).eflags = c.eflags := by
  simp only [contextPush, savePushes, exec_cons, exec_nil, step, Cpu.mem_setReg, Cpu.reg_setReg,
    Cpu.mem_push, Cpu.reg_push, Cpu.eflags_push, Cpu.eflags_setReg, reduceCtorEq, if_false, if_true,
    sub_sub, Mem.writes_cons, Mem.writes_nil, and_true]
  exact ⟨rfl, rfl⟩

theorem contextStore_spec {c : Cpu} {sp old ret : Word} (hesp : c.reg .esp = sp - 32)
    (hebp : c.reg .ebp = sp - 4) (hold : c.mem.read32 (sp + 4) = old)
    (hret : (c.mem.write32 (old + 28) (sp - 32)).read32 sp = ret) :
    (exec contextStore c).mem
      = c.mem.writes [(old + 28, sp - 32), (old + 32, ret), (sp - 36, c.eflags),
          (old + 36, c.eflags)] ∧
    (exec contextStore c).reg .ebp = sp - 4 := by
  have h8 : sp - 4 + 8 = sp + 4 := by bv_omega
  have h4 : sp - 4 + 4 = sp := BitVec.sub_add_cancel sp 4
  have h36 : sp - 32 - 4 = sp - 36 := sub_sub sp 32 4
  simp only [contextStore, exec_cons, exec_nil, step, Cpu.top, Cpu.mem_setReg, Cpu.reg_setReg,
    Cpu.mem_push, Cpu.reg_push, Cpu.mem_drop, Cpu.reg_drop, Cpu.eflags_setReg, reduceCtorEq,
    if_false, if_true, hesp, hebp, h8, h4, h36, hold, hret, Mem.read32_write32_self,
    Mem.writes_cons, Mem.writes_nil, and_self]

/-- The stores of the first two parts. -/
def saveStores (c : Cpu) (old : Word) : List (Word × Word) :=
  savePushes c ++ [(old + 28, c.reg .esp - 32), (old + 32, c.top), (c.reg .esp - 36, c.eflags),
    (old + 36, c.eflags)]

theorem contextSave_spec {c : Cpu} {old : Word} (hold : c.arg 0 = old)
    (hframe : Apart (c.reg .esp - 36) 52 old contextSize) :
    (exec (contextPush ++ contextStore) c).mem = c.mem.writes (saveStores c old) ∧
    (exec (contextPush ++ contextStore) c).reg .ebp = c.reg .esp - 4 := by
  obtain ⟨hmem, hesp, hebp, hflags⟩ := contextPush_spec c
  have harg : (exec contextPush c).mem.read32 (c.reg .esp + 4) = old := by
    rw [hmem, read_arg_savePushes c (by decide)]
    exact hold
  have hret : ((exec contextPush c).mem.write32 (old + 28) (c.reg .esp - 32)).read32 (c.reg .esp)
      = c.top := by
    have hapart := arg_apart hframe (d := 0) (k := 28) (by decide) (by decide)
    have hread := read_arg_savePushes c (k := 0) (by decide)
    rw [show c.reg .esp + 0 = c.reg .esp by bv_omega] at hapart hread
    rw [Mem.read32_write32_of_apart hapart, hmem, hread]
    rfl
  obtain ⟨hmem', hebp'⟩ := contextStore_spec hesp hebp harg hret
  rw [exec_append]
  refine ⟨?_, hebp'⟩
  rw [hmem', hmem, hflags, ← Mem.writes_append]
  rfl

/-! ## Loading -/

/--
The third part, from the frame pointer on.

`new` is the context pointer in the frame and `sp` its stack pointer. All reads are of the memory
before: the two pushes only touch the dword below `sp`, which the first pop consumes.
-/
theorem contextLoad_spec (c : Cpu) {new sp : Word} (hnew : c.mem.read32 (c.reg .ebp + 12) = new)
    (hsp : c.mem.read32 (new + 28) = sp) :
    (exec contextLoad c).reg .esp = sp + 32 ∧
    (exec contextLoad c).eip = c.mem.read32 (sp + 28) ∧
    (exec contextLoad c).reg .ebp = c.mem.read32 (sp + 24) ∧
    (exec contextLoad c).reg .eax = c.mem.read32 (sp + 20) ∧
    (exec contextLoad c).reg .ebx = c.mem.read32 (sp + 16) ∧
    (exec contextLoad c).reg .ecx = c.mem.read32 (sp + 12) ∧
    (exec contextLoad c).reg .edx = c.mem.read32 (sp + 8) ∧
    (exec contextLoad c).reg .esi = c.mem.read32 (sp + 4) ∧
    (exec contextLoad c).reg .edi = c.mem.read32 (sp + 0) ∧
    ∃ v w, (exec contextLoad c).mem = (c.mem.write32 (sp - 4) v).write32 (sp - 4) w := by
  have hpop : ∀ (m : Mem) (v w k : Word), k.toNat ≤ 28 →
      ((m.write32 (sp - 4) v).write32 (sp - 4) w).read32 (sp + k) = m.read32 (sp + k) := by
    intro m v w k hk
    have hapart : Apart (sp - 4) 4 (sp + k) 4 := ⟨by bv_omega, by bv_omega⟩
    rw [Mem.read32_write32_of_apart hapart, Mem.read32_write32_of_apart hapart]
  have h4 : sp - 4 + 4 = sp + 0 := by bv_omega
  have h0 : sp + 0 - 4 = sp - 4 := by bv_omega
  have hadd : ∀ a b : Word, sp + a + b = sp + (a + b) := BitVec.add_assoc sp
  simp only [contextLoad, exec_cons, exec_nil, step, Cpu.top, Cpu.mem_setReg, Cpu.reg_setReg,
    Cpu.mem_push, Cpu.reg_push, Cpu.mem_drop, Cpu.reg_drop, reduceCtorEq, if_false, if_true, hnew,
    hsp, h4, h0, hadd]
  -- what remains are the eight pops, each a read above the two pushes
  refine ⟨rfl, ?_, ?_, ?_, ?_, ?_, ?_, ?_, ?_, _, _, rfl⟩
  all_goals exact hpop _ _ _ _ (by decide)

/-! ## The whole switch -/

/-- The stores of the save are to the frame or to three fields of `*old`. -/
theorem mem_saveStores {c : Cpu} {old : Word} {p : Word × Word} (hp : p ∈ saveStores c old) :
    (∃ d : Word, (4 ≤ d.toNat ∧ d.toNat ≤ 36) ∧ p.1 = c.reg .esp - d) ∨
      ∃ k : Word, (28 ≤ k.toNat ∧ k.toNat ≤ 36) ∧ p.1 = old + k := by
  rcases List.mem_append.mp hp with hp | hp
  · obtain ⟨d, hd, hpd⟩ := mem_savePushes hp
    exact Or.inl ⟨d, by omega, hpd⟩
  -- the third of the last four is the push of the flags, below the frame
  · simp only [List.mem_cons, List.not_mem_nil, or_false] at hp
    rcases hp with rfl | rfl | rfl | rfl
    · exact Or.inr ⟨28, by decide, rfl⟩
    · exact Or.inr ⟨32, by decide, rfl⟩
    · exact Or.inl ⟨36, by decide, rfl⟩
    · exact Or.inr ⟨36, by decide, rfl⟩

/-- Saving changes no argument of the call. -/
theorem read_arg_saved {c : Cpu} {old k : Word}
    (hframe : Apart (c.reg .esp - 36) 52 old contextSize) (hk : k.toNat ≤ 12) :
    (c.mem.writes (saveStores c old)).read32 (c.reg .esp + k) = c.mem.read32 (c.reg .esp + k) := by
  refine Mem.read32_writes_of_apart fun p hp => ?_
  rcases mem_saveStores hp with ⟨d, hd, hpd⟩ | ⟨i, hi, hpi⟩
  · rw [hpd]
    exact push_apart hd hk
  · rw [hpi]
    exact arg_apart hframe hk (by omega)

/-- Saving changes no field of `*new`. -/
theorem read_new_saved {c : Cpu} {old new k : Word} (h : SwitchCall c old new)
    (hk : k.toNat ≤ 40) :
    (c.mem.writes (saveStores c old)).read32 (new + k) = c.mem.read32 (new + k) := by
  refine Mem.read32_writes_of_apart fun p hp => ?_
  rcases mem_saveStores hp with ⟨d, hd, hpd⟩ | ⟨i, hi, hpi⟩
  · rw [hpd]
    exact frame_apart h.frame_new (by omega) hk
  · rw [hpi]
    exact h.contexts.sub (by unfold contextSize; omega) (by unfold contextSize; omega)
      (by decide) (by decide)

/-- A field of `*old` that is not saved keeps its value. -/
theorem read_old_saved {c : Cpu} {old k : Word}
    (hframe : Apart (c.reg .esp - 36) 52 old contextSize) (hk : k.toNat ≤ 40)
    (hout : k.toNat + 4 ≤ 28 ∨ k.toNat = 40) :
    (c.mem.writes (saveStores c old)).read32 (old + k) = c.mem.read32 (old + k) := by
  refine Mem.read32_writes_of_apart fun p hp => ?_
  rcases mem_saveStores hp with ⟨d, hd, hpd⟩ | ⟨i, hi, hpi⟩
  · rw [hpd]
    exact frame_apart hframe (by omega) hk
  · rw [hpi]
    exact field_apart (by omega) hk (by omega)

/-- Saving leaves the stack pointer, the return address and the flags in `*old`. -/
theorem readContext_saved {c : Cpu} {old : Word}
    (hframe : Apart (c.reg .esp - 36) 52 old contextSize) :
    readContext (c.mem.writes (saveStores c old)) old
      = (readContext c.mem old).save (c.reg .esp - 32) c.top c.eflags := by
  have hkeep : ∀ {k : Word}, k.toNat ≤ 40 → (k.toNat + 4 ≤ 28 ∨ k.toNat = 40) →
      (c.mem.writes (saveStores c old)).read32 (old + k) = c.mem.read32 (old + k) :=
    read_old_saved hframe
  have heax := hkeep (k := 0) (by decide) (by decide)
  rw [show old + 0 = old by bv_omega] at heax
  have hesp : (c.mem.writes (saveStores c old)).read32 (old + 28) = c.reg .esp - 32 := by
    refine Mem.read32_writes_last (l := savePushes c) fun p hp => ?_
    simp only [List.mem_cons, List.not_mem_nil, or_false] at hp
    rcases hp with rfl | rfl | rfl
    · exact field_apart (by decide) (by decide) (by decide)
    · exact frame_apart hframe (by decide) (by decide)
    · exact field_apart (by decide) (by decide) (by decide)
  have heip : (c.mem.writes (saveStores c old)).read32 (old + 32) = c.top := by
    refine Mem.read32_writes_last (l := savePushes c ++ [(old + 28, c.reg .esp - 32)])
      (r := [(c.reg .esp - 36, c.eflags), (old + 36, c.eflags)]) fun p hp => ?_
    simp only [List.mem_cons, List.not_mem_nil, or_false] at hp
    rcases hp with rfl | rfl
    · exact frame_apart hframe (by decide) (by decide)
    · exact field_apart (by decide) (by decide) (by decide)
  have hflags : (c.mem.writes (saveStores c old)).read32 (old + 36) = c.eflags :=
    Mem.read32_writes_last (r := []) (l := savePushes c ++
      [(old + 28, c.reg .esp - 32), (old + 32, c.top), (c.reg .esp - 36, c.eflags)]) (by simp)
  simp only [readContext, CpuContext.save, CpuContext.mk.injEq]
  refine ⟨heax, ?_, ?_, ?_, ?_, ?_, ?_, hesp, heip, hflags, ?_⟩
  all_goals exact hkeep (by decide) (by decide)

/-- What the load finds after the save: the arguments and `*new` as they were before the call. -/
theorem contextSwitch_eq {c : Cpu} {old new : Word} (h : SwitchCall c old new) :
    ∃ d : Cpu, exec contextSwitch c = exec contextLoad d ∧
      d.mem = c.mem.writes (saveStores c old) ∧
      d.mem.read32 (d.reg .ebp + 12) = new ∧
      d.mem.read32 (new + 28) = (readContext c.mem new).esp := by
  obtain ⟨hmem, hebp⟩ := contextSave_spec h.old_arg h.frame_old
  refine ⟨exec (contextPush ++ contextStore) c, exec_append _ _ _, hmem, ?_, ?_⟩
  · rw [hmem, hebp, show c.reg .esp - 4 + 12 = c.reg .esp + 8 by bv_omega,
      read_arg_saved h.frame_old (by decide)]
    exact h.new_arg
  · rw [hmem, read_new_saved h (by decide)]
    rfl

/-- **`context_switch` saves where the caller is.** -/
theorem contextSwitch_saves {c : Cpu} {old new : Word} (h : SwitchCall c old new) :
    readContext (exec contextSwitch c).mem old
      = (readContext c.mem old).save (c.reg .esp - 32) c.top c.eflags := by
  obtain ⟨d, hexec, hmem, hnew, hsp⟩ := contextSwitch_eq h
  obtain ⟨-, -, -, -, -, -, -, -, -, v, w, hload⟩ := contextLoad_spec d hnew hsp
  have hread : ∀ k : Word, k.toNat ≤ 40 →
      (exec contextSwitch c).mem.read32 (old + k) = d.mem.read32 (old + k) := by
    intro k hk
    have hapart : Apart ((readContext c.mem new).esp - 4) 4 (old + k) 4 := by
      have := h.slot_old.sub (i := 0) (j := k) (p := 4) (q := 4) (by decide)
        (by unfold contextSize; omega) (by decide) (by decide)
      rwa [show (readContext c.mem new).esp - 4 + 0 = (readContext c.mem new).esp - 4 by
        bv_omega] at this
    rw [hexec, hload, Mem.read32_write32_of_apart hapart, Mem.read32_write32_of_apart hapart]
  rw [← readContext_saved h.frame_old, ← hmem]
  exact readContext_congr hread

/-- Where the stack pointer ends: 32 bytes above the one in the context. -/
theorem contextSwitch_esp {c : Cpu} {old new : Word} (h : SwitchCall c old new) :
    (exec contextSwitch c).reg .esp = (readContext c.mem new).esp + 32 := by
  obtain ⟨d, hexec, -, hnew, hsp⟩ := contextSwitch_eq h
  rw [hexec]
  exact (contextLoad_spec d hnew hsp).1

/--
**Where `context_switch` continues.**

When the eight dwords at the stack pointer of `*new` are outside the caller's frame and outside
`*old`, the registers and the instruction pointer come from them, in this order.
-/
theorem contextSwitch_lands {c : Cpu} {old new sp : Word} (h : SwitchCall c old new)
    (hsp : (readContext c.mem new).esp = sp) (hframe : Apart (c.reg .esp - 36) 52 sp contextSize)
    (hold : Apart old contextSize sp contextSize) :
    (exec contextSwitch c).eip = c.mem.read32 (sp + 28) ∧
    (exec contextSwitch c).reg .ebp = c.mem.read32 (sp + 24) ∧
    (exec contextSwitch c).reg .ebx = c.mem.read32 (sp + 16) ∧
    (exec contextSwitch c).reg .esi = c.mem.read32 (sp + 4) ∧
    (exec contextSwitch c).reg .edi = c.mem.read32 (sp + 0) := by
  obtain ⟨d, hexec, hmem, hnew, hsp'⟩ := contextSwitch_eq h
  rw [hsp] at hsp'
  obtain ⟨-, heip, hebp, -, hebx, -, -, hesi, hedi, -⟩ := contextLoad_spec d hnew hsp'
  have hread : ∀ k : Word, k.toNat ≤ 40 → d.mem.read32 (sp + k) = c.mem.read32 (sp + k) := by
    intro k hk
    rw [hmem]
    refine Mem.read32_writes_of_apart fun p hp => ?_
    rcases mem_saveStores hp with ⟨i, hi, hpi⟩ | ⟨i, hi, hpi⟩
    · rw [hpi]
      exact frame_apart hframe (by omega) hk
    · rw [hpi]
      exact hold.sub (by unfold contextSize; omega) (by unfold contextSize; omega)
        (by decide) (by decide)
  rw [hexec, heip, hebp, hebx, hesi, hedi]
  refine ⟨?_, ?_, ?_, ?_, ?_⟩
  all_goals exact hread _ (by decide)

/-! ## Resumption -/

/-- A switch to a fresh context is right if it continues at the entry point, with the stack
pointer in the `STACK_SIZE` bytes below the top. -/
def StartsAt (entryPoint stackTop : Word) (c : Cpu) : Prop :=
  c.eip = entryPoint ∧ (stackTop - c.reg .esp).toNat ≤ stackSize

/-- A switch back to the caller `c` of an earlier switch is right if it looks like a return from
that call: at the instruction after it, with the stack pointer past the return address and the
callee-saved registers as they were. -/
def ReturnsTo (c d : Cpu) : Prop :=
  d.eip = c.top ∧ d.reg .esp = c.reg .esp + 4 ∧ d.reg .ebx = c.reg .ebx ∧
    d.reg .esi = c.reg .esi ∧ d.reg .edi = c.reg .edi ∧ d.reg .ebp = c.reg .ebp

/-- A fresh context is never started: the stack pointer ends above the stack. -/
theorem not_startsAt {c d : Cpu} {old ctx entryPoint stackTop : Word}
    (hinit : InitCall c ctx entryPoint stackTop) (hswitch : SwitchCall d old ctx)
    (hkept : readContext d.mem ctx = readContext (exec contextInit c).mem ctx) :
    ¬ StartsAt entryPoint stackTop (exec contextSwitch d) := by
  -- the stack pointer alone is enough: it ends 32 bytes above the top
  rintro ⟨-, hstack⟩
  have hesp := contextSwitch_esp hswitch
  rw [hkept, contextInit_spec hinit] at hesp
  rw [hesp] at hstack
  simp only [CpuContext.init, stackSize] at hstack
  bv_omega

/-- A suspended context is never returned to: the stack pointer ends one dword short. -/
theorem not_returnsTo {c d : Cpu} {a b : Word} (hout : SwitchCall c a b) (hback : SwitchCall d b a)
    (hkept : readContext d.mem a = readContext (exec contextSwitch c).mem a) :
    ¬ ReturnsTo c (exec contextSwitch d) := by
  rintro ⟨-, hstack, -⟩
  have hesp := contextSwitch_esp hback
  rw [hkept, contextSwitch_saves hout] at hesp
  rw [hesp] at hstack
  simp only [CpuContext.save] at hstack
  bv_omega

/-- In `process_t` the context follows the stack, so its address is the top of the stack. A fresh
process then continues at that address, in the middle of its own context. -/
theorem contextSwitch_starts_in_context {c d : Cpu} {old ctx entryPoint : Word}
    (hinit : InitCall c ctx entryPoint ctx) (hswitch : SwitchCall d old ctx)
    (hkept : readContext d.mem ctx = readContext (exec contextInit c).mem ctx) :
    (exec contextSwitch d).eip = ctx ∧ (exec contextSwitch d).reg .esp = ctx + 32 := by
  have hsp : (readContext d.mem ctx).esp = ctx := by
    rw [hkept, contextInit_spec hinit]
    rfl
  refine ⟨?_, ?_⟩
  · rw [(contextSwitch_lands hswitch hsp hswitch.frame_new hswitch.contexts).1]
    exact hsp
  · rw [contextSwitch_esp hswitch, hsp]

/-- A suspended process whose frame is intact continues at its saved `EBP`, with every register
taken from the neighbouring slot. -/
theorem contextSwitch_returns_shifted {c d : Cpu} {a b : Word} (hout : SwitchCall c a b)
    (hback : SwitchCall d b a)
    (hkept : readContext d.mem a = readContext (exec contextSwitch c).mem a)
    (hintact : ∀ p ∈ savePushes c, d.mem.read32 p.1 = p.2)
    (hframe : Apart (d.reg .esp - 36) 52 (c.reg .esp - 32) contextSize)
    (hold : Apart b contextSize (c.reg .esp - 32) contextSize) :
    (exec contextSwitch d).eip = c.reg .ebp ∧ (exec contextSwitch d).reg .ebp = c.reg .eax ∧
      (exec contextSwitch d).reg .ebx = c.reg .ecx ∧
      (exec contextSwitch d).reg .esi = c.reg .edi ∧
      (exec contextSwitch d).reg .edi = c.reg .esp - 4 := by
  have hsp : (readContext d.mem a).esp = c.reg .esp - 32 := by
    rw [hkept, contextSwitch_saves hout]
    rfl
  obtain ⟨heip, hebp, hebx, hesi, hedi⟩ := contextSwitch_lands hback hsp hframe hold
  rw [heip, hebp, hebx, hesi, hedi]
  rw [show c.reg .esp - 32 + 28 = c.reg .esp - 4 by bv_omega,
    show c.reg .esp - 32 + 24 = c.reg .esp - 8 by bv_omega,
    show c.reg .esp - 32 + 16 = c.reg .esp - 16 by bv_omega,
    show c.reg .esp - 32 + 4 = c.reg .esp - 28 by bv_omega,
    show c.reg .esp - 32 + 0 = c.reg .esp - 32 by bv_omega]
  simp only [savePushes, List.forall_mem_cons, List.not_mem_nil, false_implies, implies_true,
    and_true] at hintact
  obtain ⟨h4, h8, -, h16, -, -, h28, h32⟩ := hintact
  exact ⟨h4, h8, h16, h28, h32⟩

/--
**`context_switch` resumes nothing.**

For every register state, every memory and every pair of contexts: a context that `context_init`
prepared is not started, and a context that `context_switch` suspended is not returned to, whatever
ran in between, as long as it left the context structure alone.
-/
theorem contextSwitch_never_resumes (c d : Cpu) (a b : Word) :
    (∀ entryPoint stackTop, InitCall c b entryPoint stackTop → SwitchCall d a b →
      readContext d.mem b = readContext (exec contextInit c).mem b →
      ¬ StartsAt entryPoint stackTop (exec contextSwitch d)) ∧
    (SwitchCall c a b → SwitchCall d b a →
      readContext d.mem a = readContext (exec contextSwitch c).mem a →
      ¬ ReturnsTo c (exec contextSwitch d)) :=
  ⟨fun _ _ hinit hswitch hkept => not_startsAt hinit hswitch hkept,
    fun hout hback hkept => not_returnsTo hout hback hkept⟩

/-! ## A run of the two routines -/

/-- A processor about to execute the first instruction of a called function: the stack pointer is
at `0x9000`, with the return address and the arguments there. -/
def atCall (m : Mem) (args : List (Word × Word)) : Cpu where
  reg := fun r => if r = .esp then 0x9000 else 0
  seg := fun _ => 0x10
  eip := 0
  eflags := 2
  mem := m.writes ((0x9000, 0x8000) :: args)

/-- `context_init(0x3000, 0x100000, 0x3000)`: a context directly above its stack. -/
def initExample : Cpu :=
  atCall (fun _ => 0) [(0x9004, 0x3000), (0x9008, 0x100000), (0x900C, 0x3000)]

/-- `context_switch(0x5000, 0x3000)` with the context that call leaves. -/
def switchExample : Cpu :=
  atCall (Mem.writes (fun _ => 0) [(0x301C, 0x3000), (0x3020, 0x100000), (0x3024, 0x202)])
    [(0x9004, 0x5000), (0x9008, 0x3000)]

theorem initExample_call : InitCall initExample 0x3000 0x100000 0x3000 where
  ctx_arg := by decide
  entry_arg := by decide
  top_arg := by decide
  forward := by decide
  frame := by decide

theorem switchExample_call : SwitchCall switchExample 0x5000 0x3000 where
  old_arg := by decide
  new_arg := by decide
  frame_old := by decide
  frame_new := by decide
  contexts := by decide
  slot_old := by decide

theorem switchExample_kept : readContext switchExample.mem 0x3000
    = readContext (exec contextInit initExample).mem 0x3000 := by
  rw [contextInit_spec initExample_call]
  decide

/-- The fresh context of the example is not started. -/
theorem contextSwitch_example_not_started :
    ¬ StartsAt 0x100000 0x3000 (exec contextSwitch switchExample) :=
  (contextSwitch_never_resumes initExample switchExample 0x5000 0x3000).1 0x100000 0x3000
    initExample_call switchExample_call switchExample_kept

/-- It continues at `0x3000`, the address of the context, and not at the entry point. -/
theorem contextSwitch_example_lands :
    (exec contextSwitch switchExample).eip = 0x3000 ∧
      (exec contextSwitch switchExample).reg .esp = 0x3020 ∧
      ¬ StartsAt 0x100000 0x3000 (exec contextSwitch switchExample) := by
  obtain ⟨heip, hesp⟩ := contextSwitch_starts_in_context initExample_call switchExample_call
    switchExample_kept
  refine ⟨heip, hesp, ?_⟩
  rintro ⟨hentry, -⟩
  rw [heip] at hentry
  revert hentry
  decide

end MinimalistOS
