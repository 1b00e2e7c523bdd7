import MinimalistOS.Infra.Turns
import MinimalistOS.Properties.Dispatch
import MinimalistOS.Properties.Fairness

/-!
# Nobody waits for long

`round_robin` is about calls of `schedule` alone. Here processes are created and exit in between. A
creation may put more slots on the circle that `schedule` goes round, but the distance on the circle
of all eight slots only depends on the current one.

* `Queued` — a slot is ready while another one is current
* `Queued.step` — a call that reschedules chooses it or comes closer to it
* `chosen_in_time` — so it is chosen after at most seven of them, with the context it had

All of this is about the process table: which slot becomes current and which structure goes to
`context_switch`. What that routine makes of the structure is in `Properties/ContextSwitch.lean`.
-/

namespace MinimalistOS

open Infra

open ProcessTable

/-- A slot that is ready while another one is current, and the context it has. -/
structure Queued (j : Nat) (ctx : CpuContext) (t : ProcessTable) : Prop where
  waits : Waits j ctx t
  ready : (t.proc j).state = .ready

/-- The calls that let another process run. -/
def ProcessCall.reschedules : ProcessCall → Bool
  | .create _ _ => false
  | .exit _ _ => true
  | .schedule _ => true

/-- How many slots it is from the current one to slot `j`. -/
def ProcessTable.slotsTo (t : ProcessTable) (j : Nat) : Nat :=
  ahead maxProcesses t.currentProcess j

/-- A call makes a slot the current one, and hands its context to `context_switch`. -/
structure Chooses (j : Nat) (ctx : CpuContext) (t : ProcessTable) (call : ProcessCall) : Prop where
  current : (t.step call).1.currentProcess = j
  running : ((t.step call).1.proc j).state = .running
  handed : (t.step call).2 = .switched (some ⟨j, ctx⟩)

namespace Queued

variable {j : Nat} {ctx : CpuContext} {t : ProcessTable} (h : Queued j ctx t)

include h

theorem lt : j < t.nextPid := by
  by_contra hge
  have hempty : (t.proc j).state = .empty := by
    by_cases hj : j < maxProcesses
    · exact h.waits.shape.beyond j hj (by omega)
    · have hnone : t.processes[j]? = none := Vector.getElem?_eq_none_iff.mpr (Nat.not_lt.mp hj)
      unfold proc slot
      rw [hnone]
      rfl
  rw [h.ready] at hempty
  exact ProcessState.noConfusion hempty

theorem slotsTo_pos : 0 < t.slotsTo j := by
  have hcurrent := h.waits.shape.current_lt_max
  unfold slotsTo ahead
  split <;> omega

/-- It is ready when the search starts. -/
theorem demote : Queued j ctx (MinimalistOS.demote (tick t)) where
  waits := h.waits.demote
  ready := by
    rw [demote_state h.waits.shape, if_neg fun hc => h.waits.other hc.1]
    exact h.ready

/-- The search ends at the slot or before it. -/
theorem search :
    ∃ next < t.nextPid, findReady t t.currentProcess maxProcesses = some next ∧
      (next = j ∨ ahead maxProcesses next j < t.slotsTo j) := by
  have hshape := h.waits.shape
  have hfind := findReady_eq t maxProcesses t.currentProcess
  rcases findReady_cases t maxProcesses t.currentProcess with ⟨k, -, -, -, heq⟩ | ⟨hall, -⟩
  · rw [heq] at hfind
    refine ⟨_, Nat.mod_lt _ (Nat.zero_lt_of_lt hshape.current_lt), heq, ?_⟩
    exact ahead_of_find? hshape.next_le hshape.current_lt h.lt (by simp [h.ready]) hfind.symm
  · obtain ⟨k, hk, hk8, hmod⟩ := exists_step_to hshape.current_lt hshape.next_le h.lt
    exact absurd h.ready (hmod ▸ hall k hk hk8)

/-- What a call of `schedule` does for the slot. -/
theorem schedule (cpu : Saved) :
    ((schedule t cpu).2 = some ⟨j, ctx⟩ ∧ (MinimalistOS.schedule t cpu).1.currentProcess = j ∧
      ((MinimalistOS.schedule t cpu).1.proc j).state = .running) ∨
    (Queued j ctx (MinimalistOS.schedule t cpu).1 ∧
      (MinimalistOS.schedule t cpu).1.slotsTo j < t.slotsTo j) := by
  have hd := h.demote
  obtain ⟨next, hnext, hfind, hcloser⟩ := hd.search
  have hmany : ¬ (tick t).nextPid ≤ 1 := by
    have hlt := h.lt
    have hcurrent := h.waits.shape.current_lt
    have hother := h.waits.other
    show ¬ t.nextPid ≤ 1
    omega
  have heq : MinimalistOS.schedule t cpu = switchTo (MinimalistOS.demote (tick t)) cpu next := by
    simp only [MinimalistOS.schedule, if_neg hmany, hfind]
  have hcurrent := switchTo_currentProcess hd.waits.shape cpu next
  have hstate := (switchTo_proc hd.waits.shape cpu hnext j).1
  rw [heq]
  rcases hd.waits.switchTo cpu hnext with ⟨rfl, hto⟩ | ⟨hne, hwait, -⟩
  · rw [if_pos rfl] at hstate
    exact .inl ⟨hto, hcurrent, hstate⟩
  · rw [if_neg (Ne.symm hne), hd.ready] at hstate
    refine .inr ⟨⟨hwait, hstate⟩, ?_⟩
    have hfrom : (MinimalistOS.demote (tick t)).slotsTo j = t.slotsTo j := by
      unfold slotsTo
      rw [demote_currentProcess, tick_currentProcess]
    rw [← hfrom, slotsTo, hcurrent]
    exact hcloser.resolve_left hne

theorem create (name : List Byte) (entryPoint : Word) :
    Queued j ctx (processCreate t name entryPoint).1 ∧
      (processCreate t name entryPoint).1.slotsTo j = t.slotsTo j := by
  rcases processCreate_cases t name entryPoint with ⟨i, hi, hfree, -, heq⟩ | ⟨-, heq⟩
  · have hne : j ≠ i := by
      rintro rfl
      rw [h.ready] at hfree
      exact absurd hfree (by decide)
    have hret : (processCreate t name entryPoint).2 ≠ j := by
      rw [heq]
      exact fun hij => hne (Int.ofNat_inj.mp hij).symm
    have hwaits := h.waits.create name entryPoint hret
    rw [heq] at hwaits ⊢
    refine ⟨⟨hwaits, ?_⟩, ?_⟩
    · rw [proc_raise_modify t hi, if_neg hne]
      exact h.ready
    · unfold slotsTo
      rw [modify_currentProcess, raise_currentProcess]
  · rw [heq]
    exact ⟨h, rfl⟩

theorem bury : Queued j ctx (MinimalistOS.bury t) where
  waits := h.waits.onCurrent fun _ => rfl
  ready := by
    rw [MinimalistOS.bury, h.waits.shape.proc_onCurrent, if_neg h.waits.other]
    exact h.ready

/-- **A call that reschedules** chooses the slot or comes closer to it. -/
theorem step {call : ProcessCall} (hcall : call.reschedules = true) :
    Chooses j ctx t call ∨
      Queued j ctx (t.step call).1 ∧ (t.step call).1.slotsTo j < t.slotsTo j := by
  cases call with
  | create name entryPoint => exact absurd hcall Bool.false_ne_true
  | exit status cpu =>
    rcases h.bury.schedule cpu with ⟨hto, hcurrent, hrunning⟩ | ⟨hqueued, hcloser⟩
    · exact .inl ⟨hcurrent, hrunning, congrArg ProcessAnswer.switched hto⟩
    · refine .inr ⟨hqueued, ?_⟩
      rw [show (MinimalistOS.bury t).slotsTo j = t.slotsTo j by
        unfold slotsTo; rw [bury_currentProcess]] at hcloser
      exact hcloser
  | schedule cpu =>
    rcases h.schedule cpu with ⟨hto, hcurrent, hrunning⟩ | hcloser
    · exact .inl ⟨hcurrent, hrunning, congrArg ProcessAnswer.switched hto⟩
    · exact .inr hcloser

end Queued

/--
**Nobody waits for long.**

In every state after `process_init`, a slot that is ready while another one is current is chosen by
one of the next calls of `schedule` and `process_exit`, at the latest when there have been as many of
them as it is slots from the current one to it on the circle of all eight, so after seven of them in
any case: whatever is created and whoever exits in between. That call makes it current and running,
and the structure that it hands to `context_switch` is the one that the slot had all the time.
-/
theorem chosen_in_time (t₀ : ProcessTable) (calls : List ProcessCall) {t : ProcessTable}
    (ht : t = run step (processInit t₀) calls) {j : Nat} (hready : (t.proc j).state = .ready)
    (hother : j ≠ t.currentProcess) (more : List ProcessCall)
    (hmore : t.slotsTo j ≤ more.countP ProcessCall.reschedules) :
    t.slotsTo j ≤ 7 ∧
    ∃ front call back, more = front ++ call :: back ∧
      Chooses j (t.proc j).context (run step t front) call ∧
      (front ++ [call]).countP ProcessCall.reschedules ≤ t.slotsTo j := by
  have hshape := (run_shape t₀ calls).1
  rw [← ht] at hshape
  have hqueued : Queued j (t.proc j).context t := ⟨⟨hshape, hother, rfl⟩, hready⟩
  refine ⟨?_, bounded_response (fun s hs => hs.slotsTo_pos) ?_ ?_ more hqueued hmore⟩
  · have hlt := hqueued.lt
    have hcurrent := hshape.current_lt_max
    have hnext := hshape.next_le
    unfold slotsTo ahead maxProcesses at *
    split <;> omega
  · intro s call hs hcall
    cases call with
    | create name entryPoint =>
      obtain ⟨hkept, hsame⟩ := hs.create name entryPoint
      exact ⟨hkept, hsame.le⟩
    | exit status cpu => exact absurd hcall.symm Bool.false_ne_true
    | schedule cpu => exact absurd hcall.symm Bool.false_ne_true
  · exact fun s call hs hcall => hs.step hcall

/-- The kernel runs, and process 1 is ready. -/
def oneReady : ProcessTable := run step (processInit (.boot 0)) [.create [0x61] 0x200000]

/-- Process 2 is created, and process 1 is chosen when the kernel exits. -/
theorem chosen_in_time_exit :
    ∃ front call back,
      [.create [0x62] 0x300000, .exit 0 default, .schedule default] = front ++ call :: back ∧
      Chooses 1 (oneReady.proc 1).context (run step oneReady front) call ∧
      (front ++ [call]).countP ProcessCall.reschedules ≤ 1 := by
  have hone : oneReady.slotsTo 1 = 1 := by decide +kernel
  have hchosen := (chosen_in_time (.boot 0) [.create [0x61] 0x200000] (t := oneReady) (j := 1) rfl
    (by decide +kernel) (by decide +kernel)
    [.create [0x62] 0x300000, .exit 0 default, .schedule default] (by rw [hone]; decide)).2
  rwa [hone] at hchosen

end MinimalistOS
