import MinimalistOS.Properties.Process

/-!
# Contexts that are dispatched

* `DispatchesPrepared` — the first switch to a slot after its creation loads the context that
  `context_init` wrote in that creation
* `dispatches_prepared` — this holds of every run whose creations have an entry point and do not
  assign the slot of the current process

`process_create` makes the slot ready in any case but prepares its context only for an entry point
that is not null. And when the slot it assigns is the one in execution, the next switch away from
it saves the running registers over the prepared context.
-/

namespace MinimalistOS

open Infra ProcessTable

/-- The slot `process_create` would assign. -/
def LowestFree (t : ProcessTable) (i : Nat) : Prop :=
  (t.proc i).state.isFree = true ∧ ∀ j < i, (t.proc j).state.isFree = false

/-- A creation that finds a slot has an entry point, and the slot is not the current one. -/
def CreatesPrepared (t : ProcessTable) : ProcessCall → Prop
  | .create _ entryPoint =>
    ∀ i < maxProcesses, LowestFree t i → entryPoint ≠ 0 ∧ i ≠ t.currentProcess
  | _ => True

instance (t : ProcessTable) (i : Nat) : Decidable (LowestFree t i) :=
  inferInstanceAs (Decidable (_ ∧ _))

instance (t : ProcessTable) : ∀ call, Decidable (CreatesPrepared t call)
  | .create _ entryPoint => inferInstanceAs (Decidable
      (∀ i < maxProcesses, LowestFree t i → entryPoint ≠ 0 ∧ i ≠ t.currentProcess))
  | .exit _ _ => inferInstanceAs (Decidable True)
  | .schedule _ => inferInstanceAs (Decidable True)

/-- The call neither assigns slot `i` nor switches to it. -/
def Leaves (i : Nat) (t : ProcessTable) (call : ProcessCall) : Prop :=
  (t.step call).2 ≠ .pid i ∧ ∀ ctx, (t.step call).2 ≠ .switched (some ⟨i, ctx⟩)

/--
Between a creation that assigned slot `i` and a switch to `i` there are only calls that leave `i`
alone: the switch loads what `context_init` wrote for that creation.
-/
def DispatchesPrepared (t : ProcessTable) (calls : List ProcessCall) : Prop :=
  ∀ pre name entryPoint mid call post i ctx,
    calls = pre ++ .create name entryPoint :: (mid ++ call :: post) →
    let t₀ := run step t pre
    let t₁ := (processCreate t₀ name entryPoint).1
    (processCreate t₀ name entryPoint).2 = (i : Nat) →
    Along step (Leaves i) t₁ mid →
    ((run step t₁ mid).step call).2 = .switched (some ⟨i, ctx⟩) →
    ctx = (t₀.proc i).context.init entryPoint (t₀.stackTop i)

/-! ## A slot that waits -/

/-- Slot `i` waits with context `ctx` while another slot is current. -/
structure Waits (i : Nat) (ctx : CpuContext) (t : ProcessTable) : Prop where
  shape : TableShape t
  other : i ≠ t.currentProcess
  context : (t.proc i).context = ctx

theorem switchTo_dispatch {t : ProcessTable} (h : TableShape t) (cpu : Saved) {next : Nat}
    (hnext : next < t.nextPid) :
    (switchTo t cpu next).2
      = if t.currentProcess ≠ next then some ⟨next, (t.proc next).context⟩ else none := by
  simp only [switchTo, h.ptr]
  split
  · rw [proc_modify (Nat.lt_of_lt_of_le hnext h.next_le), if_pos rfl]
    rfl
  · rfl

section Waiting

variable {i : Nat} {ctx : CpuContext} {t : ProcessTable} (h : Waits i ctx t)

include h

theorem Waits.tick : Waits i ctx (tick t) := ⟨h.shape.tick, h.other, h.context⟩

theorem Waits.onCurrent {f : Process → Process} (hf : ∀ p, (f p).pid = p.pid) :
    Waits i ctx (onCurrent t f) where
  shape := h.shape.onCurrent hf
  other := by
    rw [h.shape.onCurrent_eq]
    exact h.other
  context := by
    rw [h.shape.proc_onCurrent, if_neg h.other]
    exact h.context

theorem Waits.demote : Waits i ctx (demote (MinimalistOS.tick t)) := h.tick.onCurrent fun _ => rfl

/-- A switch to a slot that waits loads its context; a switch to another slot leaves it waiting. -/
theorem Waits.switchTo (cpu : Saved) {next : Nat} (hnext : next < t.nextPid) :
    (next = i ∧ (switchTo t cpu next).2 = some ⟨i, ctx⟩) ∨
      (next ≠ i ∧ Waits i ctx (switchTo t cpu next).1 ∧
        ∀ ctx', (switchTo t cpu next).2 ≠ some ⟨i, ctx'⟩) := by
  rw [switchTo_dispatch h.shape cpu hnext]
  by_cases hi : next = i
  · subst hi
    rw [if_pos (Ne.symm h.other), h.context]
    exact Or.inl ⟨rfl, rfl⟩
  · refine Or.inr ⟨hi, ⟨h.shape.switchTo cpu hnext, ?_, ?_⟩, fun ctx' heq => ?_⟩
    · rw [switchTo_currentProcess h.shape]
      exact Ne.symm hi
    · rw [(switchTo_proc h.shape cpu hnext i).2, if_neg fun hc => h.other hc.1]
      exact h.context
    · split at heq
      · exact hi (congrArg Dispatch.slot (Option.some.inj heq))
      · cases heq

theorem Waits.schedule (cpu : Saved) :
    (schedule t cpu).2 = some ⟨i, ctx⟩ ∨
      (Waits i ctx (schedule t cpu).1 ∧ ∀ ctx', (schedule t cpu).2 ≠ some ⟨i, ctx'⟩) := by
  rcases schedule_cases h.shape cpu with ⟨-, heq⟩ | ⟨next, hnext, -, heq⟩ | ⟨-, heq⟩
  · rw [heq]
    exact Or.inr ⟨h.tick, fun _ => nofun⟩
  · rw [heq]
    rcases h.demote.switchTo cpu hnext with ⟨-, hto⟩ | ⟨-, hwait⟩
    · exact Or.inl hto
    · exact Or.inr hwait
  · rw [heq]
    exact Or.inr ⟨h.demote.onCurrent fun _ => rfl, fun _ => nofun⟩

theorem Waits.create (name : List Byte) (entryPoint : Word)
    (hne : (processCreate t name entryPoint).2 ≠ i) :
    Waits i ctx (processCreate t name entryPoint).1 := by
  have hshape := h.shape.create name entryPoint
  rcases processCreate_cases t name entryPoint with ⟨k, hk, -, -, heq⟩ | ⟨-, heq⟩
  · rw [heq] at hne hshape ⊢
    have hik : i ≠ k := fun hik => hne (congrArg Int.ofNat hik.symm)
    refine ⟨hshape, ?_, ?_⟩
    · rw [modify_currentProcess, raise_currentProcess]
      exact h.other
    · rw [proc_raise_modify t hk, if_neg hik]
      exact h.context
  · rw [heq]
    exact h

/-- Only a creation in the slot or a switch to it ends the wait, and the switch loads the context
that waited. -/
theorem Waits.step (call : ProcessCall) :
    (t.step call).2 = .pid i ∨ (t.step call).2 = .switched (some ⟨i, ctx⟩) ∨
      (Waits i ctx (t.step call).1 ∧ ∀ ctx', (t.step call).2 ≠ .switched (some ⟨i, ctx'⟩)) := by
  cases call with
  | create name entryPoint =>
    by_cases heq : (processCreate t name entryPoint).2 = i
    · exact Or.inl (congrArg ProcessAnswer.pid heq)
    · exact Or.inr (Or.inr ⟨h.create name entryPoint heq, fun _ => nofun⟩)
  | exit status cpu =>
    have hbury : Waits i ctx (bury t) := h.onCurrent fun _ => rfl
    rcases hbury.schedule cpu with hto | ⟨hwait, hnot⟩
    · exact Or.inr (Or.inl (congrArg ProcessAnswer.switched hto))
    · exact Or.inr (Or.inr ⟨hwait, fun ctx' heq => hnot ctx' (ProcessAnswer.switched.inj heq)⟩)
  | schedule cpu =>
    rcases h.schedule cpu with hto | ⟨hwait, hnot⟩
    · exact Or.inr (Or.inl (congrArg ProcessAnswer.switched hto))
    · exact Or.inr (Or.inr ⟨hwait, fun ctx' heq => hnot ctx' (ProcessAnswer.switched.inj heq)⟩)

theorem Waits.leaves {call : ProcessCall} (hleave : Leaves i t call) :
    Waits i ctx (t.step call).1 := by
  rcases h.step call with hpid | hto | ⟨hwait, -⟩
  · exact absurd hpid hleave.1
  · exact absurd hto (hleave.2 ctx)
  · exact hwait

theorem Waits.dispatched {call : ProcessCall} {ctx' : CpuContext}
    (hto : (t.step call).2 = .switched (some ⟨i, ctx'⟩)) : ctx' = ctx := by
  rcases h.step call with hpid | hto' | ⟨-, hnot⟩
  · rw [hto] at hpid
    cases hpid
  · rw [hto] at hto'
    cases hto'
    rfl
  · exact absurd hto (hnot ctx')

end Waiting

/-! ## From the creation to the switch -/

/-- A creation that meets the condition leaves its slot waiting with the context it prepared. -/
theorem create_waits {t : ProcessTable} (h : TableShape t) {name : List Byte} {entryPoint : Word}
    {i : Nat} (hcreate : CreatesPrepared t (.create name entryPoint))
    (hret : (processCreate t name entryPoint).2 = i) :
    Waits i ((t.proc i).context.init entryPoint (t.stackTop i))
      (processCreate t name entryPoint).1 := by
  have hshape := h.create name entryPoint
  rcases processCreate_cases t name entryPoint with ⟨k, hk, hfree, hbelow, heq⟩ | ⟨-, heq⟩
  · rw [heq] at hret hshape ⊢
    obtain rfl : k = i := Int.ofNat_inj.mp hret
    obtain ⟨hentry, hother⟩ := hcreate k hk ⟨hfree, hbelow⟩
    refine ⟨hshape, ?_, ?_⟩
    · rw [modify_currentProcess, raise_currentProcess]
      exact hother
    · rw [proc_raise_modify t hk, if_pos rfl]
      exact if_pos hentry
  · rw [heq] at hret
    exact absurd hret (by omega)

/-- **Only prepared contexts are dispatched**, in every run whose creations all have an entry
point and a slot other than the current one. -/
theorem dispatches_prepared (t : ProcessTable) (calls : List ProcessCall)
    (hcalls : Along step CreatesPrepared (processInit t) calls) :
    DispatchesPrepared (processInit t) calls := by
  intro pre name entryPoint mid call post i ctx hsplit t₀ t₁ hret hmid hto
  subst hsplit
  have hcreate := ((along_append step _ pre _).mp hcalls).2.1
  -- the slot waits from its creation on, and the calls in between leave it alone
  have hwait := create_waits (run_shape t pre).1 hcreate hret
  have hwait' := inv_run step (I := Waits i _) (fun _ _ h hleave => h.leaves hleave) hwait hmid
  exact hwait'.dispatched hto

/-- Two processes are created, the first exits on its first turn and its slot is used again. -/
theorem dispatches_prepared_reused_slot :
    DispatchesPrepared (processInit (.boot 0x200000))
      [.create [0x61] 0x100000, .create [0x62] 0x101000, .schedule ⟨0x9000, 0x1000, 0x202⟩,
        .exit 0 ⟨0x9100, 0x1100, 0x202⟩, .create [0x63] 0x102000,
        .schedule ⟨0x9200, 0x1200, 0x202⟩, .schedule ⟨0x9300, 0x1300, 0x202⟩] :=
  dispatches_prepared _ _ (by decide +kernel)

/-- A creation without an entry point, as for an ELF header whose `e_entry` is 0: the scheduler
switches to a context that was never initialised. -/
theorem null_entry_dispatched :
    ¬ DispatchesPrepared (processInit (.boot 0x200000))
      [.create [0x70] 0, .schedule ⟨0x9000, 0x1000, 0x202⟩] := by
  intro h
  have hctx := h [] [0x70] 0 [] (.schedule ⟨0x9000, 0x1000, 0x202⟩) [] 1 default rfl
    (by decide +kernel) trivial (by decide +kernel)
  exact absurd hctx (by decide +kernel)

end MinimalistOS
