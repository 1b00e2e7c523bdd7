import MinimalistOS.Kernel.Interrupts
import MinimalistOS.Properties.Idt

/-!
# The frame of an interrupt

* `atHandler_spec` — the C function finds the whole interrupted state in `struct regs`
* `stubReturn_spec` — the end of a stub loads the processor from `struct regs`
* `interrupt_resumes` — the interrupted code goes on with what the structure holds at the end

The pushes of the gate and of the stub are one run of nineteen dwords, and `struct regs` is the
seventeen above the argument of the call.
-/

namespace MinimalistOS

open Infra X86

/-- Where the C function of a stub returns to. -/
def Stub.next (img : Image) : Stub → Word
  | .isr _ => img.isrReturn
  | .irq _ => img.irqReturn

/-- The interrupted state as `struct regs` shows it. -/
def interruptedRegs (c : Cpu) (i : Interrupt) : Regs where
  gs := c.seg .gs
  fs := c.seg .fs
  es := c.seg .es
  ds := c.seg .ds
  edi := c.reg .edi
  esi := c.reg .esi
  ebp := c.reg .ebp
  espDummy := c.reg .esp - 20
  ebx := c.reg .ebx
  edx := c.reg .edx
  ecx := c.reg .ecx
  eax := c.reg .eax
  intNo := i.vector.setWidth 32
  errCode := i.errorCode.getD 0
  eip := c.eip
  cs := c.seg .cs
  eflags := c.eflags

/-- The processor that `struct regs` describes. -/
def Regs.resume (g : Regs) (sp : Word) (m : Mem) : Cpu where
  reg
    | .eax => g.eax
    | .ebx => g.ebx
    | .ecx => g.ecx
    | .edx => g.edx
    | .esi => g.esi
    | .edi => g.edi
    | .ebp => g.ebp
    | .esp => sp
  seg
    | .cs => selector g.cs
    | .ds => selector g.ds
    | .es => selector g.es
    | .fs => selector g.fs
    | .gs => selector g.gs
  eip := g.eip
  eflags := g.eflags
  mem := m

/-! ## Entry -/

/-- All that is pushed for an interrupt, from the flags to the return address. -/
def framePushes (img : Image) (c : Cpu) (i : Interrupt) (s : Stub) : List Word :=
  [c.eflags, c.seg .cs, c.eip, i.errorCode.getD 0, i.vector.setWidth 32, c.reg .eax, c.reg .ecx,
    c.reg .edx, c.reg .ebx, c.reg .esp - 20, c.reg .ebp, c.reg .esi, c.reg .edi, c.seg .ds,
    c.seg .es, c.seg .fs, c.seg .gs, c.reg .esp - 68, s.next img]

/-- The stack of a processor after the pushes of a gate. -/
def gatePushes (c : Cpu) (code : Option Word) : Cpu :=
  let saved := ((c.push c.eflags).push (c.seg .cs)).push c.eip
  match code with
  | none => saved
  | some code => saved.push code

theorem enter_eq {k : Idt} {i : Interrupt} {base : Word} {sel : BitVec 16}
    (h : slot k.idt i.vector.toNat = gate base sel 0x8E) (c : Cpu) :
    enter k c i = some { (gatePushes c i.errorCode).setSeg .cs (sel.setWidth 32) with
      eip := base, eflags := c.eflags &&& ~~~0x200 } := by
  have husable : (gate base sel 0x8E).usable = true :=
    show ((0x8E : Byte) &&& 0x9F == 0x8E) = true by decide
  simp only [enter, h, husable, if_true, gate_address]
  rfl

/-- The common stub in terms of its pushes. -/
theorem commonStub_pushes (c : Cpu) (next : Word) :
    (exec (commonStub next) c).mem = pushes c.mem (c.reg .esp)
        [c.reg .eax, c.reg .ecx, c.reg .edx, c.reg .ebx, c.reg .esp, c.reg .ebp, c.reg .esi,
          c.reg .edi, c.seg .ds, c.seg .es, c.seg .fs, c.seg .gs, c.reg .esp - 48, next] ∧
      (exec (commonStub next) c).reg .esp = c.reg .esp - 56 := by
  refine ⟨?_, (commonStub_spec c next).2⟩
  rw [(commonStub_spec c next).1]
  simp only [savedRegs, pushes, sub_sub, List.cons_append, List.nil_append, Mem.writes_cons,
    Mem.writes_nil]
  rfl

theorem vector_of_installed {n : Byte} {s : Stub} (h : (n, s) ∈ installed) :
    n = BitVec.ofNat 8 s.vector := by
  obtain ⟨s', -, hs'⟩ := List.mem_map.mp h
  obtain ⟨rfl, rfl⟩ := Prod.mk.inj hs'
  rfl

/-- All stubs push a dummy where the processor pushes no error code. -/
theorem Stub.code_eq (img : Image) (s : Stub) :
    s.code img = (.cli :: (if hasErrorCode s.vector then [] else [.pushImm 0]) ++
      [.pushImm (BitVec.ofNat 32 s.vector)]) ++ commonStub (s.next img) := by
  cases s with
  | isr num =>
    cases herr : hasErrorCode num with
    | true => simp [Stub.code, Stub.vector, Stub.next, herr]
    | false => simp [Stub.code, Stub.vector, Stub.next, herr]
  | irq num =>
    have hno : hasErrorCode (Stub.irq num).vector = false := by
      revert num
      decide
    rw [hno]
    rfl

/-- The stub completes the frame of the gate when error codes come where it expects them. -/
theorem stub_pushes (img : Image) {s : Stub} {c d : Cpu} {i : Interrupt}
    (h : (i.vector, s) ∈ installed) (hcode : i.errorCode.isSome = hasErrorCode i.vector.toNat)
    (hreg : d.reg = (gatePushes c i.errorCode).reg) (hmem : d.mem = (gatePushes c i.errorCode).mem)
    (hseg : ∀ r, r ≠ Seg.cs → d.seg r = c.seg r) :
    (exec (s.code img) d).mem = pushes c.mem (c.reg .esp) (framePushes img c i s) ∧
      (exec (s.code img) d).reg .esp = c.reg .esp - 76 := by
  have hvec := vector_of_installed h
  have hlt := s.vector_lt
  have hnat : i.vector.toNat = s.vector := by bv_omega
  have hword : BitVec.ofNat 32 s.vector = i.vector.setWidth 32 := by bv_omega
  have hds := hseg .ds (by decide)
  have hes := hseg .es (by decide)
  have hfs := hseg .fs (by decide)
  have hgs := hseg .gs (by decide)
  rw [hnat] at hcode
  rw [Stub.code_eq, ← hcode, hword, exec_append]
  obtain ⟨hmem', hesp'⟩ := commonStub_pushes (exec (.cli ::
    (if i.errorCode.isSome then [] else [.pushImm 0]) ++ [.pushImm (i.vector.setWidth 32)]) d)
    (s.next img)
  rw [hmem', hesp']
  cases herr : i.errorCode with
  | none =>
    rw [herr] at hreg hmem
    simp [step, hreg, hmem, hds, hes, hfs, hgs, gatePushes, framePushes, herr, pushes,
      sub_sub]
  | some code =>
    rw [herr] at hreg hmem
    simp [step, hreg, hmem, hds, hes, hfs, hgs, gatePushes, framePushes, herr, pushes,
      sub_sub]

/-- The frame on the stack is `struct regs` of the interrupted state. -/
theorem readRegs_pushes (img : Image) (c : Cpu) (i : Interrupt) (s : Stub) :
    readRegs (pushes c.mem (c.reg .esp) (framePushes img c i s)) (c.reg .esp - 68)
      = interruptedRegs c i := by
  have hread : ∀ {a v : Word} (j : Nat), (framePushes img c i s)[j]? = some v →
      (c.reg .esp - a).toNat = 4 * (j + 1) →
      (pushes c.mem (c.reg .esp) (framePushes img c i s)).read32 a = v :=
    fun j hv ha => read32_pushes (show 4 * 19 < 2 ^ 32 by decide) hv ha
  unfold readRegs interruptedRegs
  rw [hread 16 rfl (by bv_omega), hread 15 rfl (by bv_omega), hread 14 rfl (by bv_omega),
    hread 13 rfl (by bv_omega), hread 12 rfl (by bv_omega), hread 11 rfl (by bv_omega),
    hread 10 rfl (by bv_omega), hread 9 rfl (by bv_omega), hread 8 rfl (by bv_omega),
    hread 7 rfl (by bv_omega), hread 6 rfl (by bv_omega), hread 5 rfl (by bv_omega),
    hread 4 rfl (by bv_omega), hread 3 rfl (by bv_omega), hread 2 rfl (by bv_omega),
    hread 1 rfl (by bv_omega), hread 0 rfl (by bv_omega)]

/-- **Entry.** The C function of a vector is called with the address of `struct regs`, which is the
interrupted state; nothing else is written above the new stack pointer. -/
theorem atHandler_spec (img : Image) (k : Idt) (regs : List (Byte × Word)) (c : Cpu)
    {i : Interrupt} {s : Stub} (h : (i.vector, s) ∈ installed)
    (hcode : i.errorCode.isSome = hasErrorCode i.vector.toNat) :
    ∃ c', atHandler img (tables img k regs) c i = some c' ∧
      c'.mem = pushes c.mem (c.reg .esp) (framePushes img c i s) ∧
      c'.reg .esp = c.reg .esp - 76 ∧ c'.arg 0 = c.reg .esp - 68 := by
  have henter := enter_eq (tables_gate img k regs h) c
  have hdeliver : deliver (tables img k regs) c i = enter (tables img k regs) c i := by
    simp only [deliver, henter, Option.orElse_eq_orElse, Option.orElse_some]
  obtain ⟨hmem, hesp⟩ := stub_pushes img (s := s) (c := c) (i := i)
    (d := { (gatePushes c i.errorCode).setSeg .cs ((0x08 : BitVec 16).setWidth 32) with
      eip := img.stub s, eflags := c.eflags &&& ~~~0x200 })
    h hcode rfl rfl (fun r hr => by cases i.errorCode <;> simp [gatePushes, hr])
  refine ⟨_, ?_, hmem, hesp, ?_⟩
  · simp only [atHandler, hdeliver, henter, stubAt_stub, Option.bind_eq_bind, Option.bind_some,
      Option.pure_def]
  · unfold Cpu.arg
    rw [hmem, hesp]
    exact read32_pushes (j := 17) (show 4 * 19 < 2 ^ 32 by decide) rfl (by bv_omega)

/-! ## Return -/

/-- **Return.** The end of a stub loads the processor from `struct regs`, which starts above the
argument of the call, and frees all of the frame. -/
theorem stubReturn_spec (c : Cpu) :
    leaveAll stubReturn c
      = (readRegs c.mem (c.reg .esp + 4)).resume (c.reg .esp + 72) c.mem := by
  have hadd : ∀ a b : Word, c.reg .esp + a + b = c.reg .esp + (a + b) := BitVec.add_assoc _
  refine Cpu.ext_fields (fun r => ?_) (fun t => ?_) ?_ ?_ ?_
  · cases r <;>
      simp [stubReturn, leave, pushaOrder, Cpu.popInto, Cpu.top, Regs.resume, readRegs, hadd]
  · cases t <;>
      simp [stubReturn, leave, pushaOrder, Cpu.popInto, Cpu.top, Regs.resume, readRegs, hadd]
  · simp [stubReturn, leave, pushaOrder, Cpu.popInto, Cpu.top, Regs.resume, readRegs, hadd]
  · simp [stubReturn, leave, pushaOrder, Cpu.popInto, Cpu.top, Regs.resume, readRegs, hadd]
  · simp [stubReturn, leave, pushaOrder, Cpu.popInto, Cpu.top, Regs.resume, readRegs, hadd]

/-- **The frame of an interrupt is the interrupted state, both ways.** The C function of a vector
below 48 finds the interrupted state in `struct regs`, and when it returns, the interrupted code
goes on with whatever the structure holds then and its own stack pointer. -/
theorem interrupt_resumes (img : Image) (k : Idt) (regs : List (Byte × Word)) (c : Cpu)
    {i : Interrupt} (h : i.vector.toNat < 48)
    (hcode : i.errorCode.isSome = hasErrorCode i.vector.toNat) :
    ∃ c', atHandler img (registerAll (idtInit img k).1 regs) c i = some c' ∧
      readRegs c'.mem (c'.arg 0) = interruptedRegs c i ∧
      ∀ body : Cpu → Cpu, (body c').reg .esp = c'.reg .esp + 4 →
        interrupt img (registerAll (idtInit img k).1 regs) body c i
          = some ((readRegs (body c').mem (c'.arg 0)).resume (c.reg .esp) (body c').mem) := by
  obtain ⟨s, hs⟩ : ∃ s, (i.vector, s) ∈ installed := by
    by_cases hlow : i.vector.toNat < 32
    · have hmem := isr_mem_installed ⟨i.vector.toNat, hlow⟩
      rw [show BitVec.ofNat 8 i.vector.toNat = i.vector by bv_omega] at hmem
      exact ⟨_, hmem⟩
    · have hmem := irq_mem_installed ⟨i.vector.toNat - 32, by omega⟩
      rw [show BitVec.ofNat 8 (32 + (i.vector.toNat - 32)) = i.vector by bv_omega] at hmem
      exact ⟨_, hmem⟩
  obtain ⟨c', hat, hmem, hesp, harg⟩ := atHandler_spec img k regs c hs hcode
  refine ⟨c', hat, ?_, fun body hbody => ?_⟩
  · rw [harg, hmem]
    exact readRegs_pushes img c i s
  · unfold interrupt
    rw [show registerAll (idtInit img k).1 regs = tables img k regs from rfl, hat, Option.map_some,
      stubReturn_spec, hbody, hesp, harg,
      show c.reg .esp - 76 + 4 + 4 = c.reg .esp - 68 by bv_omega,
      show c.reg .esp - 76 + 4 + 72 = c.reg .esp by bv_omega]

/-- A keyboard interrupt. -/
theorem interrupt_resumes_keyboard :
    ∃ c', atHandler sampleImage (registerAll (idtInit sampleImage bootIdt).1 [(33, 0x110100)])
        sampleCpu ⟨33, none, by simp⟩ = some c' ∧
      readRegs c'.mem (c'.arg 0) = interruptedRegs sampleCpu ⟨33, none, by simp⟩ ∧
      ∀ body : Cpu → Cpu, (body c').reg .esp = c'.reg .esp + 4 →
        interrupt sampleImage (registerAll (idtInit sampleImage bootIdt).1 [(33, 0x110100)]) body
            sampleCpu ⟨33, none, by simp⟩
          = some ((readRegs (body c').mem (c'.arg 0)).resume (sampleCpu.reg .esp) (body c').mem) :=
  interrupt_resumes sampleImage bootIdt [(33, 0x110100)] sampleCpu (i := ⟨33, none, by simp⟩)
    (by decide) (by decide)

end MinimalistOS
