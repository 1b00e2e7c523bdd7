import Mathlib.Data.BitVec
import MinimalistOS.Kernel.Idt

/-!
# Interrupt delivery

* `idtInit_gate`, `idtInit_no_gate` — the gates after `idt_init`
* `irq_stub_spec` — the frame an IRQ stub hands to `irq_handler`
* `serve_irq`, `serve_isr`, `serve_no_gate` — what happens on a vector of each kind
* `handler_reached_iff` — a registered handler is reached exactly on the vectors 32 to 47

The handler table has 256 entries but only `irq_handler` looks at it. Vectors below 32 go to
`fault_handler`, which halts, and from 48 on, the system call vector 0x80 among them, there is no
gate: the processor raises a general protection fault instead.
-/

namespace MinimalistOS

open Infra X86

/-! ## Tables -/

theorem foldl_idtSetGate (img : Image) (l : List (Byte × Stub)) (k : Idt) :
    l.foldl (fun k p => idtSetGate k p.1 (img.stub p.2) 0x08 0x8E) k
      = { k with
          idt := setSlots k.idt
            (l.map fun p => (p.1.toNat, gate (img.stub p.2) 0x08 0x8E)) } := by
  induction l generalizing k with
  | nil => rfl
  | cons p l ih => exact ih _

theorem registerAll_eq (k : Idt) (regs : List (Byte × Word)) :
    registerAll k regs = { k with
      interruptHandlers :=
        setSlots k.interruptHandlers (regs.map fun p => (p.1.toNat, p.2)) } := by
  unfold registerAll
  induction regs generalizing k with
  | nil => rfl
  | cons p regs ih => exact ih _

theorem registerAll_idt (k : Idt) (regs : List (Byte × Word)) :
    (registerAll k regs).idt = k.idt := by
  rw [registerAll_eq]

/-- The handler registered last is the one in the table. -/
theorem registerAll_last (k : Idt) {n : Byte} {handler : Word} {pre post : List (Byte × Word)}
    (hlast : ∀ p ∈ post, p.1 ≠ n) :
    slot (registerAll k (pre ++ (n, handler) :: post)).interruptHandlers n.toNat = handler := by
  rw [registerAll_eq, List.map_append, List.map_cons]
  refine slot_setSlots_last n.isLt (fun p hp hpn => ?_) k.interruptHandlers
  obtain ⟨q, hq, rfl⟩ := List.mem_map.mp hp
  exact hlast q hq (BitVec.eq_of_toNat_eq hpn)

theorem Stub.vector_lt (s : Stub) : s.vector < 48 := by
  cases s with
  | isr num => exact Nat.lt_trans num.isLt (by decide)
  | irq num => exact Nat.add_lt_add_left num.isLt 32

theorem Stub.vector_injective : Function.Injective Stub.vector := by
  rintro (a | a) (b | b) h
  all_goals simp only [Stub.vector] at h
  · exact congrArg Stub.isr (Fin.ext h)
  · omega
  · omega
  · exact congrArg Stub.irq (Fin.ext (by omega))

theorem irq_mem_installed :
    ∀ num : Fin 16, (BitVec.ofNat 8 (32 + num), Stub.irq num) ∈ installed := by
  decide

theorem isr_mem_installed : ∀ num : Fin 32, (BitVec.ofNat 8 num, Stub.isr num) ∈ installed := by
  decide

theorem installed_nodup : (installed.map fun p => p.1.toNat).Nodup := by decide

/-- The gate of a vector that `idt_init` sets up. -/
theorem idtInit_gate (img : Image) (k : Idt) {n : Byte} {s : Stub} (h : (n, s) ∈ installed) :
    slot (idtInit img k).1.idt n.toNat = gate (img.stub s) 0x08 0x8E := by
  have hmem := List.mem_map_of_mem h
    (f := fun p : Byte × Stub => (p.1.toNat, gate (img.stub p.2) 0x08 0x8E))
  simp only [idtInit, foldl_idtSetGate]
  refine slot_setSlots_of_mem n.isLt ?_ hmem _
  rw [List.map_map]
  exact installed_nodup

/-- The other gates stay clear. -/
theorem idtInit_no_gate (img : Image) (k : Idt) {n : Byte} (h : 48 ≤ n.toNat) :
    slot (idtInit img k).1.idt n.toNat = default := by
  have hall : ∀ p ∈ installed, p.1.toNat < 48 := by decide
  simp only [idtInit, foldl_idtSetGate]
  rw [slot_setSlots_of_not_mem, slot_replicate _ n.isLt]
  intro p hp hpn
  obtain ⟨q, hq, rfl⟩ := List.mem_map.mp hp
  have := hall q hq
  simp only at hpn
  omega

theorem gate_address (base : Word) (sel : BitVec 16) (flags : Byte) :
    (gate base sel flags).baseHi ++ (gate base sel flags).baseLo = base := by
  apply BitVec.eq_of_getLsbD_eq
  intro i hi
  simp only [gate, BitVec.getLsbD_append, BitVec.getLsbD_setWidth, BitVec.getLsbD_ushiftRight]
  by_cases h : i < 16
  · simp [h]
  · simp [h, show i - 16 < 16 by omega, show 16 + (i - 16) = i by omega]

theorem find?_all (s : Stub) : Stub.all.find? (fun s' => decide (s' = s)) = some s := by
  cases s with
  | isr num => revert num; decide
  | irq num => revert num; decide

theorem stubAt_stub (img : Image) (s : Stub) : img.stubAt (img.stub s) = some s := by
  have hpred : (fun s' => decide (img.stub s' = img.stub s)) = fun s' => decide (s' = s) := by
    funext s'
    rw [decide_eq_decide]
    exact img.stub_injective.eq_iff
  unfold Image.stubAt
  rw [hpred]
  exact find?_all s

/-! ## The stubs -/

/-- What a common stub stores on the stack before the argument of its call. -/
def savedRegs (c : Cpu) : List (Word × Word) :=
  [(c.reg .esp - 4, c.reg .eax), (c.reg .esp - 8, c.reg .ecx), (c.reg .esp - 12, c.reg .edx),
    (c.reg .esp - 16, c.reg .ebx), (c.reg .esp - 20, c.reg .esp), (c.reg .esp - 24, c.reg .ebp),
    (c.reg .esp - 28, c.reg .esi), (c.reg .esp - 32, c.reg .edi), (c.reg .esp - 36, c.seg .ds),
    (c.reg .esp - 40, c.seg .es), (c.reg .esp - 44, c.seg .fs), (c.reg .esp - 48, c.seg .gs)]

/-- The common stub pushes the registers, the address where they start and the return address. -/
theorem commonStub_spec (c : Cpu) (next : Word) :
    (exec (commonStub next) c).mem = c.mem.writes
        (savedRegs c ++ [(c.reg .esp - 52, c.reg .esp - 48), (c.reg .esp - 56, next)]) ∧
      (exec (commonStub next) c).reg .esp = c.reg .esp - 56 := by
  constructor
  · simp only [commonStub, savedRegs, exec_cons, exec_nil, step, pushaOrder, List.map_cons,
      List.map_nil, List.foldl_cons, List.foldl_nil, Cpu.mem_push, Cpu.reg_push, Cpu.mem_setReg,
      Cpu.reg_setReg, Cpu.mem_setSeg, Cpu.reg_setSeg, reduceCtorEq, if_false, if_true, sub_sub,
      List.cons_append, List.nil_append, Mem.writes_cons, Mem.writes_nil]
    rfl
  · simp only [commonStub, exec_cons, exec_nil, step, pushaOrder, List.map_cons, List.map_nil,
      List.foldl_cons, List.foldl_nil, Cpu.reg_push, Cpu.reg_setReg, Cpu.reg_setSeg, reduceCtorEq,
      if_false, if_true, sub_sub]
    rfl

theorem mem_savedRegs {c : Cpu} {p : Word × Word} (hp : p ∈ savedRegs c) :
    ∃ d : Word, 4 ≤ d.toNat ∧ d.toNat ≤ 56 ∧ p.1 = c.reg .esp - d := by
  simp only [savedRegs, List.mem_cons, List.not_mem_nil, or_false] at hp
  rcases hp with rfl | rfl | rfl | rfl | rfl | rfl | rfl | rfl | rfl | rfl | rfl | rfl
  all_goals exact ⟨_, by decide, by decide, rfl⟩

/-- The C function gets the address of the saved registers, and the dword that was on top of the
stack is their `int_no`. -/
theorem commonStub_regs (c : Cpu) (next : Word) :
    (exec (commonStub next) c).arg 0 = c.reg .esp - 48 ∧
      intNo (exec (commonStub next) c).mem (c.reg .esp - 48) = c.top := by
  obtain ⟨hmem, hesp⟩ := commonStub_spec c next
  constructor
  · unfold Cpu.arg
    rw [hesp, hmem,
      show c.reg .esp - 56 + BitVec.ofNat 32 (4 + 4 * 0) = c.reg .esp - 52 by bv_omega]
    refine Mem.read32_writes_last fun p hp => ?_
    obtain rfl := List.mem_singleton.mp hp
    constructor <;> bv_omega
  · unfold intNo Cpu.top
    rw [hmem, show c.reg .esp - 48 + 48 = c.reg .esp by bv_omega]
    refine Mem.read32_writes_of_apart fun p hp => ?_
    -- everything the stub stores is below the dword that was on top
    obtain ⟨d, h4, h56, hd⟩ : ∃ d : Word, 4 ≤ d.toNat ∧ d.toNat ≤ 56 ∧ p.1 = c.reg .esp - d := by
      rcases List.mem_append.mp hp with hp | hp
      · exact mem_savedRegs hp
      · simp only [List.mem_cons, List.not_mem_nil, or_false] at hp
        rcases hp with rfl | rfl
        all_goals exact ⟨_, by decide, by decide, rfl⟩
    rw [hd]
    constructor <;> bv_omega

/-- The frame an IRQ stub hands to `irq_handler` carries its vector. -/
theorem irq_stub_spec (img : Image) (num : Fin 16) (c : Cpu) :
    let c' := exec ((Stub.irq num).code img) c
    intNo c'.mem (c'.arg 0) = BitVec.ofNat 32 (32 + num) := by
  intro c'
  have hsplit : c' = exec (commonStub img.irqReturn)
      (exec [.cli, .pushImm 0, .pushImm (BitVec.ofNat 32 (32 + num))] c) :=
    exec_append c _ _
  obtain ⟨harg, hint⟩ := commonStub_regs
    (exec [.cli, .pushImm 0, .pushImm (BitVec.ofNat 32 (32 + num))] c) img.irqReturn
  rw [hsplit, harg, hint]
  exact Mem.read32_write32_self _ _ _

/-! ## Delivery -/

theorem enter_of_gate {k : Idt} {i : Interrupt} {base : Word} {sel : BitVec 16}
    (h : slot k.idt i.vector.toNat = gate base sel 0x8E) (c : Cpu) :
    ∃ c', enter k c i = some c' ∧ c'.eip = base := by
  have husable : (gate base sel 0x8E).usable = true :=
    show ((0x8E : Byte) &&& 0x9F == 0x8E) = true by decide
  simp only [enter, h, husable, if_true]
  exact ⟨_, rfl, gate_address base sel 0x8E⟩

theorem enter_of_no_gate {k : Idt} {i : Interrupt} (h : slot k.idt i.vector.toNat = default)
    (c : Cpu) : enter k c i = none := by
  have husable : (default : IdtEntry).usable = false := by decide
  simp only [enter, h, husable]
  rfl

section Serve

variable (img : Image) (k : Idt) (regs : List (Byte × Word)) (c : Cpu)

/-- The kernel's tables after `idt_init` and some registrations. -/
def tables (img : Image) (k : Idt) (regs : List (Byte × Word)) : Idt :=
  registerAll (idtInit img k).1 regs

theorem tables_gate {n : Byte} {s : Stub} (h : (n, s) ∈ installed) :
    slot (tables img k regs).idt n.toNat = gate (img.stub s) 0x08 0x8E := by
  rw [tables, registerAll_idt]
  exact idtInit_gate img k h

theorem serve_of_deliver {k : Idt} {i : Interrupt} {s : Stub} {c c' : Cpu}
    (h : deliver k c i = some c') (heip : c'.eip = img.stub s) :
    serve img k c i
      = some (s.handler k (exec (s.code img) c').mem ((exec (s.code img) c').arg 0)) := by
  have hstub : img.stubAt c'.eip = some s := by
    rw [heip]
    exact stubAt_stub img s
  simp only [serve, h, hstub, Option.bind_eq_bind, Option.bind_some, Option.pure_def]

/-- A vector with a gate gets to the C function of its stub, on some frame. -/
theorem serve_of_gate {i : Interrupt} {s : Stub} (h : (i.vector, s) ∈ installed) :
    ∃ c', serve img (tables img k regs) c i = some (s.handler (tables img k regs)
      (exec (s.code img) c').mem ((exec (s.code img) c').arg 0)) := by
  obtain ⟨c', henter, heip⟩ := enter_of_gate (tables_gate img k regs h) c
  refine ⟨c', serve_of_deliver img ?_ heip⟩
  simp only [deliver, henter, Option.orElse_eq_orElse, Option.orElse_some]

/-- **An IRQ vector**: the end of interrupt is signalled and the handler in the table is called
with the vector. -/
theorem serve_irq {i : Interrupt} (num : Fin 16) (h : i.vector = BitVec.ofNat 8 (32 + num)) :
    let handler := slot (tables img k regs).interruptHandlers i.vector.toNat
    serve img (tables img k regs) c i = some
      ((if 40 ≤ i.vector.toNat then [.outb 0xA0 0x20] else []) ++ [.outb 0x20 0x20] ++
        (if handler ≠ 0 then [.invoke handler (i.vector.setWidth 32)] else [])) := by
  intro handler
  have hmem : (i.vector, Stub.irq num) ∈ installed := by
    rw [h]
    exact irq_mem_installed num
  obtain ⟨c', hserve⟩ := serve_of_gate img k regs c hmem
  have hint := irq_stub_spec img num c'
  simp only at hint
  rw [hserve, Stub.handler, irqHandler, hint]
  have hlt := num.isLt
  have hvec : BitVec.ofNat 32 (32 + num) = i.vector.setWidth 32 := by
    rw [h]
    bv_omega
  have hnat : (i.vector.setWidth 32).toNat = i.vector.toNat := by
    rw [BitVec.toNat_setWidth, Nat.mod_eq_of_lt (by omega)]
  rw [hvec, hnat]

/-- **An exception vector**: the kernel reports it and halts. -/
theorem serve_isr {i : Interrupt} (num : Fin 32) (h : i.vector = BitVec.ofNat 8 num) :
    ∃ m r, serve img (tables img k regs) c i = some (faultHandler m r) := by
  have hmem : (i.vector, Stub.isr num) ∈ installed := by
    rw [h]
    exact isr_mem_installed num
  obtain ⟨c', hserve⟩ := serve_of_gate img k regs c hmem
  exact ⟨_, _, hserve⟩

/-- **A vector without a gate**: the kernel reports a general protection fault and halts. -/
theorem serve_no_gate {i : Interrupt} (h : 48 ≤ i.vector.toNat) :
    ∃ m r, serve img (tables img k regs) c i = some (faultHandler m r) := by
  have hclear : slot (tables img k regs).idt i.vector.toNat = default := by
    rw [tables, registerAll_idt]
    exact idtInit_no_gate img k h
  -- the fault goes through gate 13, which is set up
  have hgp : (BitVec.ofNat 8 13, Stub.isr 13) ∈ installed := isr_mem_installed 13
  obtain ⟨c', henter, heip⟩ :=
    enter_of_gate (i := generalProtection i.vector) (tables_gate img k regs hgp) c
  refine ⟨_, _, serve_of_deliver img (s := .isr 13) ?_ heip⟩
  simp only [deliver, enter_of_no_gate hclear, henter, Option.orElse_eq_orElse, Option.orElse_none]

end Serve

/-! ## Reaching the handler -/

/-- The action is a call of a handler. -/
def Action.isInvoke : Action → Bool
  | .invoke _ _ => true
  | _ => false

/-- The handler is called, once, with `int_no` equal to the vector. -/
def Reaches (actions : Option (List Action)) (handler : Word) (vector : Byte) : Prop :=
  ∃ l, actions = some l ∧ l.filter Action.isInvoke = [.invoke handler (vector.setWidth 32)]

theorem not_reaches_fault (m : Mem) (r handler : Word) (vector : Byte) :
    ¬ Reaches (some (faultHandler m r)) handler vector := by
  rintro ⟨l, hl, hinvoke⟩
  obtain rfl := Option.some.inj hl
  cases hinvoke

/-- **After `idt_init`, the handler registered last for a vector is called on that vector exactly
when the vector is one of the sixteen IRQ vectors.** -/
theorem handler_reached_iff (img : Image) (k : Idt) {pre post : List (Byte × Word)}
    {handler : Word} (hhandler : handler ≠ 0) (i : Interrupt) (hlast : ∀ p ∈ post, p.1 ≠ i.vector)
    (c : Cpu) :
    Reaches (serve img (registerAll (idtInit img k).1 (pre ++ (i.vector, handler) :: post)) c i)
        handler i.vector ↔
      32 ≤ i.vector.toNat ∧ i.vector.toNat ≤ 47 := by
  constructor
  · intro hreach
    by_contra hn
    by_cases hlow : i.vector.toNat < 32
    · obtain ⟨m, r, hserve⟩ := serve_isr img k (pre ++ (i.vector, handler) :: post) c (i := i)
        ⟨i.vector.toNat, hlow⟩ (by bv_omega)
      rw [tables] at hserve
      rw [hserve] at hreach
      exact not_reaches_fault m r handler i.vector hreach
    · obtain ⟨m, r, hserve⟩ := serve_no_gate img k (pre ++ (i.vector, handler) :: post) c (i := i)
        (by omega)
      rw [tables] at hserve
      rw [hserve] at hreach
      exact not_reaches_fault m r handler i.vector hreach
  · rintro ⟨h32, h47⟩
    have hserve := serve_irq img k (pre ++ (i.vector, handler) :: post) c (i := i)
      ⟨i.vector.toNat - 32, by omega⟩ (by bv_omega)
    simp only [tables, registerAll_last _ hlast, if_pos hhandler] at hserve
    refine ⟨_, hserve, ?_⟩
    split <;> rfl

/-! ## The kernel's own handlers -/

/-- An image with the stubs sixteen bytes apart. -/
def sampleImage : Image where
  stub s := BitVec.ofNat 32 (0x101000 + 16 * s.vector)
  stub_injective s s' h := by
    have hnat := congrArg BitVec.toNat h
    have hs := s.vector_lt
    have hs' := s'.vector_lt
    simp only [BitVec.toNat_ofNat] at hnat
    exact Stub.vector_injective (by omega)
  isrReturn := 0x100020
  irqReturn := 0x100060

/-- The tables before `idt_init`. -/
def bootIdt : Idt := ⟨Vector.replicate 256 default, Vector.replicate 256 0⟩

/-- A processor in the kernel, with its stack at 2 MB. -/
def sampleCpu : Cpu where
  reg := fun r => if r = .esp then 0x200000 else 0
  seg := fun s => if s = .cs then 0x08 else 0x10
  eip := 0x100400
  eflags := 0x202
  mem := fun _ => 0

/-- Timer, keyboard and system calls are registered; the keyboard handler is then replaced. Vector
33 calls the new one. -/
theorem keyboard_handler_reached :
    Reaches (serve sampleImage (registerAll (idtInit sampleImage bootIdt).1
      ([(32, 0x110000), (33, 0x110100), (0x80, 0x110200)] ++ (33, 0x110300) :: [])) sampleCpu
      ⟨33, none, by simp⟩) 0x110300 33 :=
  (handler_reached_iff sampleImage bootIdt (by decide) ⟨33, none, by simp⟩ (by simp) sampleCpu).mpr
    (by decide)

/-- The system call handler that `syscall_init` registers is not called on `int $0x80`. -/
theorem syscall_handler_not_reached :
    ¬ Reaches (serve sampleImage (registerAll (idtInit sampleImage bootIdt).1
      [(32, 0x110000), (33, 0x110100), (0x80, 0x110200)]) sampleCpu ⟨0x80, none, by simp⟩)
      0x110200 0x80 := by
  obtain ⟨m, r, hserve⟩ := serve_no_gate sampleImage bootIdt
    [(32, 0x110000), (33, 0x110100), (0x80, 0x110200)] sampleCpu (i := ⟨0x80, none, by simp⟩)
    (by decide)
  rw [tables] at hserve
  rw [hserve]
  exact not_reaches_fault m r 0x110200 0x80

end MinimalistOS
