import MinimalistOS.Kernel.Context

/-!
# What `context_init` does

The routine is executed symbolically, and the memory it leaves is written as a list of stores over
the memory it starts from.

* `InitCall`, `SwitchCall` — calls of the two routines, seen at their entry
* `contextInit_spec` — `context_init` leaves `CpuContext.init` in the structure
-/

namespace MinimalistOS

open Infra X86

/-! ## Calls

The routines read their arguments and their contexts while they write to the stack and to the
contexts, so both are specified for calls whose frame and contexts do not overlap. -/

/-- A call `context_init(ctx, entryPoint, stackTop)`, seen at its entry: the arguments, the
direction flag the C convention promises, and a stack frame apart from the structure. -/
structure InitCall (c : Cpu) (ctx entryPoint stackTop : Word) : Prop where
  ctx_arg : c.arg 0 = ctx
  entry_arg : c.arg 1 = entryPoint
  top_arg : c.arg 2 = stackTop
  forward : df c.eflags = false
  frame : Apart (c.reg .esp - 36) 52 ctx contextSize

/-- A call `context_switch(old, new)`, seen at its entry: the arguments, and the stack frame, the
two contexts and the dword below the new stack pointer in different places. -/
structure SwitchCall (c : Cpu) (old new : Word) : Prop where
  old_arg : c.arg 0 = old
  new_arg : c.arg 1 = new
  frame_old : Apart (c.reg .esp - 36) 52 old contextSize
  frame_new : Apart (c.reg .esp - 36) 52 new contextSize
  contexts : Apart old contextSize new contextSize
  slot_old : Apart ((readContext c.mem new).esp - 4) 4 old contextSize

/-! ## Places that do not overlap -/

/-- A dword of the frame and a dword of a context that is apart from the frame. -/
theorem frame_apart {sp x : Word} (h : Apart (sp - 36) 52 x contextSize) {d k : Word}
    (hd : d.toNat ≤ 36) (hk : k.toNat ≤ 40) : Apart (sp - d) 4 (x + k) 4 := by
  obtain ⟨h1, h2⟩ := h
  unfold contextSize at h2
  constructor <;> bv_omega

/-- A dword of the arguments and a dword of a context that is apart from the frame. -/
theorem arg_apart {sp x : Word} (h : Apart (sp - 36) 52 x contextSize) {d k : Word}
    (hd : d.toNat ≤ 12) (hk : k.toNat ≤ 40) : Apart (x + k) 4 (sp + d) 4 := by
  obtain ⟨h1, h2⟩ := h
  unfold contextSize at h2
  constructor <;> bv_omega

/-- Two fields of one context. -/
theorem field_apart {x i k : Word} (hi : i.toNat ≤ 40) (hk : k.toNat ≤ 40)
    (hik : i.toNat + 4 ≤ k.toNat ∨ k.toNat + 4 ≤ i.toNat) : Apart (x + i) 4 (x + k) 4 := by
  constructor <;> bv_omega

/-- A pushed dword and an argument, the return address included. -/
theorem push_apart {sp d k : Word} (hd : 4 ≤ d.toNat ∧ d.toNat ≤ 36) (hk : k.toNat ≤ 12) :
    Apart (sp - d) 4 (sp + k) 4 := by
  constructor <;> bv_omega

/-- Two memories with the same fields at an address hold the same context there. -/
theorem readContext_congr {m m' : Mem} {p : Word}
    (h : ∀ k : Word, k.toNat ≤ 40 → m.read32 (p + k) = m'.read32 (p + k)) :
    readContext m p = readContext m' p := by
  have heax := h 0 (by decide)
  rw [show p + 0 = p by bv_omega] at heax
  simp only [readContext, CpuContext.mk.injEq]
  refine ⟨heax, ?_, ?_, ?_, ?_, ?_, ?_, ?_, ?_, ?_, ?_⟩
  all_goals exact h _ (by decide)

/-! ## `context_init` -/

theorem df_logicFlags (f r : Word) : df (logicFlags f r) = df f := by
  unfold df logicFlags
  simp only [BitVec.getLsbD_or, BitVec.getLsbD_and, BitVec.getLsbD_not]
  split_ifs <;> simp

theorem stos_ten (m : Mem) (p v : Word) :
    (stos v 4 10 m p).1 = m.writes [(p, v), (p + 4, v), (p + 8, v), (p + 12, v), (p + 16, v),
      (p + 20, v), (p + 24, v), (p + 28, v), (p + 32, v), (p + 36, v)] := by
  simp only [stos, Mem.writes_cons, Mem.writes_nil, BitVec.add_assoc]
  rfl

/-- The pushes of `context_init`. -/
def initPushes (c : Cpu) (ctx : Word) : List (Word × Word) :=
  [(c.reg .esp - 4, c.reg .ebp), (c.reg .esp - 8, c.reg .edi), (c.reg .esp - 12, ctx)]

/-- The dwords that `rep stosl` clears. -/
def cleared (ctx : Word) : List (Word × Word) :=
  [(ctx, 0), (ctx + 4, 0), (ctx + 8, 0), (ctx + 12, 0), (ctx + 16, 0), (ctx + 20, 0),
    (ctx + 24, 0), (ctx + 28, 0), (ctx + 32, 0), (ctx + 36, 0)]

theorem contextClear_spec {c : Cpu} {ctx : Word} (hctx : c.arg 0 = ctx)
    (hdf : df c.eflags = false) :
    (exec contextClear c).mem = c.mem.writes (initPushes c ctx ++ cleared ctx) ∧
    (exec contextClear c).reg .esp = c.reg .esp - 12 ∧
    (exec contextClear c).reg .ebp = c.reg .esp - 4 := by
  have harg : (c.mem.write32 (c.reg .esp - 4) (c.reg .ebp)).read32 (c.reg .esp + 4) = ctx := by
    rw [Mem.read32_write32_of_apart (push_apart (by decide) (by decide))]
    exact hctx
  have h8 : c.reg .esp - 4 + 8 = c.reg .esp + 4 := by bv_omega
  have hs8 : c.reg .esp - 4 - 4 = c.reg .esp - 8 := by bv_omega
  have hs12 : c.reg .esp - 8 - 4 = c.reg .esp - 12 := by bv_omega
  have hten : (10 : Word).toNat = 10 := rfl
  simp only [contextClear, exec_cons, exec_nil, step, Cpu.mem_setReg, Cpu.reg_setReg,
    Cpu.mem_push, Cpu.reg_push, Cpu.eflags_push, Cpu.eflags_setReg, reduceCtorEq, if_false, if_true,
    h8, hs8, hs12, harg, BitVec.xor_self, df_logicFlags, hdf, hten, Bool.false_eq_true, and_self,
    and_true]
  rw [stos_ten]
  rfl

theorem contextFill_spec {c : Cpu} {sp ctx entryPoint stackTop : Word}
    (hesp : c.reg .esp = sp - 12) (hebp : c.reg .ebp = sp - 4)
    (hctx : c.mem.read32 (sp - 12) = ctx) (hentry : c.mem.read32 (sp + 8) = entryPoint)
    (htop : (c.mem.write32 (ctx + 32) entryPoint).read32 (sp + 12) = stackTop) :
    (exec contextFill c).mem
      = c.mem.writes [(ctx + 32, entryPoint), (ctx + 28, stackTop), (ctx + 36, 0x202)] := by
  have h12 : sp - 4 + 12 = sp + 8 := by bv_omega
  have h16 : sp - 4 + 16 = sp + 12 := by bv_omega
  simp only [contextFill, exec_cons, exec_nil, step, Cpu.top, Cpu.mem_setReg, Cpu.reg_setReg,
    Cpu.mem_drop, Cpu.reg_drop, hesp, hebp, reduceCtorEq, if_false, if_true, hctx, hentry, htop,
    h12, h16, Mem.writes_cons, Mem.writes_nil]

/-- Clearing stores to fields of the structure only. -/
theorem mem_cleared {ctx : Word} {p : Word × Word} (hp : p ∈ cleared ctx) :
    ∃ k : Word, k.toNat ≤ 36 ∧ k.toNat % 4 = 0 ∧ p = (ctx + k, 0) := by
  simp only [cleared, List.mem_cons, List.not_mem_nil, or_false] at hp
  rcases hp with rfl | rfl | rfl | rfl | rfl | rfl | rfl | rfl | rfl | rfl
  · exact ⟨0, by decide, by decide, by rw [show ctx + 0 = ctx by bv_omega]⟩
  all_goals exact ⟨_, by decide, by decide, rfl⟩

/-- What is apart from the pushed dwords and from the fields is still in place after the
clearing. -/
theorem read_cleared_of_apart {c : Cpu} {ctx b : Word}
    (hpush : ∀ d : Word, 4 ≤ d.toNat ∧ d.toNat ≤ 36 → Apart (c.reg .esp - d) 4 b 4)
    (hfield : ∀ i : Word, i.toNat ≤ 36 → Apart (ctx + i) 4 b 4) :
    (c.mem.writes (initPushes c ctx ++ cleared ctx)).read32 b = c.mem.read32 b := by
  apply Mem.read32_writes_of_apart
  intro p hp
  rcases List.mem_append.mp hp with hp | hp
  · simp only [initPushes, List.mem_cons, List.not_mem_nil, or_false] at hp
    rcases hp with rfl | rfl | rfl
    all_goals exact hpush _ (by decide)
  · obtain ⟨i, hi, -, rfl⟩ := mem_cleared hp
    exact hfield i hi

/-- An argument of `context_init` is still in place after the clearing. -/
theorem read_arg_cleared {c : Cpu} {ctx k : Word}
    (hframe : Apart (c.reg .esp - 36) 52 ctx contextSize) (hk : k.toNat ≤ 12) :
    (c.mem.writes (initPushes c ctx ++ cleared ctx)).read32 (c.reg .esp + k)
      = c.mem.read32 (c.reg .esp + k) :=
  read_cleared_of_apart (fun _ hd => push_apart hd hk)
    fun _ hi => arg_apart hframe hk (by omega)

/-- The stores of `context_init`. -/
def initStores (c : Cpu) (ctx entryPoint stackTop : Word) : List (Word × Word) :=
  initPushes c ctx ++ cleared ctx
    ++ [(ctx + 32, entryPoint), (ctx + 28, stackTop), (ctx + 36, 0x202)]

theorem contextInit_mem {c : Cpu} {ctx entryPoint stackTop : Word}
    (h : InitCall c ctx entryPoint stackTop) :
    (exec contextInit c).mem = c.mem.writes (initStores c ctx entryPoint stackTop) := by
  obtain ⟨hmem, hesp, hebp⟩ := contextClear_spec h.ctx_arg h.forward
  have hsaved : (c.mem.writes (initPushes c ctx ++ cleared ctx)).read32 (c.reg .esp - 12)
      = ctx := by
    refine Mem.read32_writes_last
      (l := [(c.reg .esp - 4, c.reg .ebp), (c.reg .esp - 8, c.reg .edi)]) fun p hp => ?_
    obtain ⟨i, hi, -, rfl⟩ := mem_cleared hp
    exact (frame_apart h.frame (by decide) (by omega)).symm
  have hentry : (exec contextClear c).mem.read32 (c.reg .esp + 8) = entryPoint := by
    rw [hmem, read_arg_cleared h.frame (by decide)]
    exact h.entry_arg
  have htop : ((exec contextClear c).mem.write32 (ctx + 32) entryPoint).read32 (c.reg .esp + 12)
      = stackTop := by
    rw [Mem.read32_write32_of_apart (arg_apart h.frame (by decide) (by decide)), hmem,
      read_arg_cleared h.frame (by decide)]
    exact h.top_arg
  rw [contextInit, exec_append, contextFill_spec hesp hebp (by rw [hmem]; exact hsaved) hentry htop,
    hmem, ← Mem.writes_append]
  rfl

/-- A field that the last three stores do not touch: what clearing left there. -/
theorem read_field_init {c : Cpu} {ctx entryPoint stackTop k : Word} (hk : k.toNat ≤ 40)
    (hout : k.toNat + 4 ≤ 28 ∨ k.toNat = 40) :
    (c.mem.writes (initStores c ctx entryPoint stackTop)).read32 (ctx + k)
      = (c.mem.writes (initPushes c ctx ++ cleared ctx)).read32 (ctx + k) := by
  rw [initStores, Mem.writes_append]
  apply Mem.read32_writes_of_apart
  intro p hp
  simp only [List.mem_cons, List.not_mem_nil, or_false] at hp
  rcases hp with rfl | rfl | rfl
  all_goals exact field_apart (by decide) hk (by bv_omega)

/-- A cleared field reads zero. -/
theorem read_field_cleared {c : Cpu} {ctx k : Word} (hk : k.toNat ≤ 36)
    (hk4 : k.toNat % 4 = 0) (hmem : (ctx + k, 0) ∈ cleared ctx) :
    (c.mem.writes (initPushes c ctx ++ cleared ctx)).read32 (ctx + k) = 0 := by
  rw [Mem.writes_append]
  refine Mem.read32_writes_of_mem hmem fun p hp => ?_
  obtain ⟨i, hi, hi4, rfl⟩ := mem_cleared hp
  by_cases hik : i = k
  · exact Or.inl (by rw [hik])
  · have hne : i.toNat ≠ k.toNat := fun he => hik (BitVec.eq_of_toNat_eq he)
    exact Or.inr (field_apart (by omega) (by omega) (by omega))

/-- `cr3` is beyond the ten dwords. -/
theorem read_cr3_cleared {c : Cpu} {ctx : Word}
    (hframe : Apart (c.reg .esp - 36) 52 ctx contextSize) :
    (c.mem.writes (initPushes c ctx ++ cleared ctx)).read32 (ctx + 40)
      = c.mem.read32 (ctx + 40) :=
  read_cleared_of_apart (fun _ hd => frame_apart hframe hd.2 (by decide))
    fun _ hi => field_apart (by omega) (by decide) (Or.inl (by bv_omega))

/-- **`context_init` leaves the initial context of its arguments.** -/
theorem contextInit_spec {c : Cpu} {ctx entryPoint stackTop : Word}
    (h : InitCall c ctx entryPoint stackTop) :
    readContext (exec contextInit c).mem ctx
      = (readContext c.mem ctx).init entryPoint stackTop := by
  -- the fields below `esp` were cleared and not stored to again
  have hzero : ∀ {k : Word}, k.toNat ≤ 24 → k.toNat % 4 = 0 → (ctx + k, 0) ∈ cleared ctx →
      (c.mem.writes (initStores c ctx entryPoint stackTop)).read32 (ctx + k) = 0 := by
    intro k hk hk4 hmem
    rw [read_field_init (by omega) (Or.inl (by omega)),
      read_field_cleared (by omega) hk4 hmem]
  have heax := hzero (k := 0) (by decide) (by decide) (by simp [cleared])
  rw [show ctx + 0 = ctx by bv_omega] at heax
  have hesp : (c.mem.writes (initStores c ctx entryPoint stackTop)).read32 (ctx + 28)
      = stackTop := by
    refine Mem.read32_writes_last
      (l := initPushes c ctx ++ cleared ctx ++ [(ctx + 32, entryPoint)]) (r := [(ctx + 36, 0x202)])
      fun p hp => ?_
    obtain rfl := List.mem_singleton.mp hp
    exact field_apart (by decide) (by decide) (by decide)
  have heip : (c.mem.writes (initStores c ctx entryPoint stackTop)).read32 (ctx + 32)
      = entryPoint := by
    refine Mem.read32_writes_last (l := initPushes c ctx ++ cleared ctx)
      (r := [(ctx + 28, stackTop), (ctx + 36, 0x202)]) fun p hp => ?_
    simp only [List.mem_cons, List.not_mem_nil, or_false] at hp
    rcases hp with rfl | rfl
    all_goals exact field_apart (by decide) (by decide) (by decide)
  have hflags : (c.mem.writes (initStores c ctx entryPoint stackTop)).read32 (ctx + 36) = 0x202 :=
    Mem.read32_writes_last (r := [])
      (l := initPushes c ctx ++ cleared ctx ++ [(ctx + 32, entryPoint), (ctx + 28, stackTop)])
      (by simp)
  have hcr3 : (c.mem.writes (initStores c ctx entryPoint stackTop)).read32 (ctx + 40)
      = c.mem.read32 (ctx + 40) := by
    rw [read_field_init (by decide) (Or.inr (by decide)), read_cr3_cleared h.frame]
  rw [contextInit_mem h]
  simp only [readContext, CpuContext.init, CpuContext.mk.injEq]
  refine ⟨heax, ?_, ?_, ?_, ?_, ?_, ?_, hesp, heip, hflags, hcr3⟩
  all_goals exact hzero (by decide) (by decide) (by simp [cleared])

end MinimalistOS
