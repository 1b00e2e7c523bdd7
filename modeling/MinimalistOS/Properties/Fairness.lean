import MinimalistOS.Infra.Cyclic
import MinimalistOS.Properties.Process
import Mathlib.Data.List.Find

/-!
# The scheduler takes turns

* `findReady_eq` — the loop of `schedule` as a search round the circle of slots
* `Turning` — the states between the calls of one turn
* `Turning.schedule` — one call goes to the next slot that can run
* `round_robin` — as many calls as there are slots that can run

Each call makes the process that runs ready again before it searches, so the slots that can run
are the same before and after it, and the search ends at the latest where it started.
-/

namespace MinimalistOS

open Infra ProcessTable

/-- A process that the scheduler may choose: it is ready, or it runs. -/
def ProcessTable.runnable (t : ProcessTable) (i : Nat) : Bool :=
  (t.proc i).state == .ready || (t.proc i).state == .running

/-- The slots that calls of `schedule` make current, one after the other. -/
def currents (t : ProcessTable) : List Saved → List Nat
  | [] => []
  | cpu :: cpus => (schedule t cpu).1.currentProcess :: currents (schedule t cpu).1 cpus

/-! ## One call -/

theorem findReady_eq (t : ProcessTable) (m : Nat) : ∀ next : Nat,
    findReady t next m = (cycle t.nextPid next m).find? fun i => (t.proc i).state == .ready := by
  induction m with
  | zero => intro next; rfl
  | succ m ih =>
    intro next
    rw [findReady, cycle, List.find?_cons, ih]
    cases hready : (t.proc ((next + 1) % t.nextPid)).state == .ready with
    | true => rw [if_pos (beq_iff_eq.mp hready)]
    | false => rw [if_neg (beq_eq_false_iff_ne.mp hready)]

/-- A state between the calls: the current process runs, and there is another slot. -/
structure Turning (t : ProcessTable) : Prop where
  shape : TableShape t
  runsCurrent : RunsCurrent t
  running : (t.proc t.currentProcess).state = .running
  two_le : 2 ≤ t.nextPid

namespace Turning

variable {t : ProcessTable} (h : Turning t)

include h

theorem runnable_current : t.runnable t.currentProcess = true := by
  simp [runnable, h.running]

/-- What is ready when the search starts is what can run. -/
theorem demote_ready {i : Nat} (hi : i < t.nextPid) :
    (((demote (tick t)).proc i).state == .ready) = t.runnable i := by
  rw [demote_state h.shape, runnable]
  by_cases hcurrent : i = t.currentProcess
  · subst hcurrent
    simp [h.running]
  · have hnot : (t.proc i).state ≠ .running := fun hrun =>
      hcurrent (h.runsCurrent i (Nat.lt_of_lt_of_le hi h.shape.next_le) hrun)
    rw [if_neg fun hand => hcurrent hand.1, beq_false_of_ne hnot, Bool.or_false]

/-- Making the process that runs ready again does not change what can run. -/
theorem runnable_demote (i : Nat) : (demote (tick t)).runnable i = t.runnable i := by
  rw [runnable, runnable, demote_state h.shape]
  by_cases hrun : i = t.currentProcess ∧ (t.proc i).state = .running
  · rw [if_pos hrun, hrun.2]
    rfl
  · rw [if_neg hrun]

/-- The search of the call. -/
theorem findReady_demote :
    findReady (demote (tick t)) (demote (tick t)).currentProcess maxProcesses
      = (cycle t.nextPid t.currentProcess t.nextPid).find? t.runnable := by
  have hcircle : (demote (tick t)).nextPid = t.nextPid := demote_nextPid (tick t)
  have hcurrent : (demote (tick t)).currentProcess = t.currentProcess :=
    demote_currentProcess (tick t)
  rw [findReady_eq, hcircle, hcurrent]
  have hready : ∀ m, (cycle t.nextPid t.currentProcess m).find?
        (fun i => ((demote (tick t)).proc i).state == .ready)
      = (cycle t.nextPid t.currentProcess m).find? t.runnable := by
    intro m
    exact List.find?_congr fun i hi =>
      h.demote_ready (lt_of_mem_cycle (Nat.zero_lt_of_lt h.shape.current_lt) hi)
  rw [hready, find?_cycle_of_le h.shape.current_lt h.runnable_current h.shape.next_le]

/-- **One call** goes to the next slot that can run, and leaves the same slots able to run. -/
theorem schedule (cpu : Saved) :
    ∃ d, (cycle t.nextPid t.currentProcess t.nextPid).find? t.runnable = some d ∧
      (MinimalistOS.schedule t cpu).1.currentProcess = d ∧
      (MinimalistOS.schedule t cpu).1.nextPid = t.nextPid ∧
      (∀ i, (MinimalistOS.schedule t cpu).1.runnable i = t.runnable i) ∧
      Turning (MinimalistOS.schedule t cpu).1 := by
  obtain ⟨d, hfind⟩ : ∃ d, (cycle t.nextPid t.currentProcess t.nextPid).find? t.runnable = some d :=
    Option.isSome_iff_exists.mp (List.find?_isSome.mpr ⟨t.currentProcess,
      (cycle_self_perm h.shape.current_lt).mem_iff.mpr (List.mem_range.mpr h.shape.current_lt),
      h.runnable_current⟩)
  have hd : d < t.nextPid :=
    lt_of_mem_cycle (Nat.zero_lt_of_lt h.shape.current_lt) (List.mem_of_find?_eq_some hfind)
  have hdemoted := h.shape.tick.demote
  have heq : MinimalistOS.schedule t cpu = switchTo (demote (tick t)) cpu d := by
    have hmany : ¬ (tick t).nextPid ≤ 1 := Nat.not_le.mpr h.two_le
    simp only [MinimalistOS.schedule, if_neg hmany, h.findReady_demote, hfind]
  obtain ⟨hshape, hruns⟩ := schedule_inv h.shape h.runsCurrent cpu
  have hcurrent : (MinimalistOS.schedule t cpu).1.currentProcess = d := by
    rw [heq, switchTo_currentProcess hdemoted]
  have hnext : (MinimalistOS.schedule t cpu).1.nextPid = t.nextPid := by
    rw [heq, switchTo_nextPid]
    exact demote_nextPid (tick t)
  have hstate : ∀ i, ((MinimalistOS.schedule t cpu).1.proc i).state
      = if i = d then .running else ((demote (tick t)).proc i).state := by
    intro i
    rw [heq]
    exact (switchTo_proc hdemoted cpu (by rw [demote_nextPid]; exact hd) i).1
  refine ⟨d, hfind, hcurrent, hnext, fun i => ?_, hshape, hruns, ?_, ?_⟩
  · rw [runnable, hstate]
    by_cases hi : i = d
    · rw [if_pos hi, hi, List.find?_some hfind]
      rfl
    · rw [if_neg hi, ← h.runnable_demote i]
      rfl
  · rw [hcurrent, hstate, if_pos rfl]
  · rw [hnext]
    exact h.two_le

/-! ## A whole turn -/

/-- The calls visit the slots that can run. -/
theorem currents_eq (cpus : List Saved) :
    currents t cpus = visits t.runnable t.nextPid cpus.length t.currentProcess := by
  induction cpus generalizing t with
  | nil => rfl
  | cons cpu cpus ih =>
    obtain ⟨d, hfind, hcurrent, hnext, hrunnable, hturning⟩ := h.schedule cpu
    rw [currents, ih hturning, List.length_cons, visits, hfind, hcurrent, hnext,
      funext hrunnable]

end Turning

/-- How many slots are ready or run. -/
def ProcessTable.runnableCount (t : ProcessTable) : Nat :=
  (List.range maxProcesses).countP t.runnable

/-- The slots after the current one, in cyclic order, with the current one at the end. -/
def ProcessTable.turn (t : ProcessTable) : List Nat :=
  List.range' (t.currentProcess + 1) (maxProcesses - (t.currentProcess + 1)) ++
    List.range (t.currentProcess + 1)

/-- The slots from `next_pid` on are empty: the circle that `schedule` goes round has everything
that can run on it. -/
theorem TableShape.filter_cycle {t : ProcessTable} (h : TableShape t) :
    (cycle t.nextPid t.currentProcess t.nextPid).filter t.runnable
      = t.turn.filter t.runnable := by
  have hlt := h.current_lt
  have hle := h.next_le
  have hsplit : List.range' (t.currentProcess + 1) (maxProcesses - (t.currentProcess + 1))
      = List.range' (t.currentProcess + 1) (t.nextPid - (t.currentProcess + 1)) ++
        List.range' t.nextPid (maxProcesses - t.nextPid) := by
    have happend := List.range'_append_1 (s := t.currentProcess + 1)
      (m := t.nextPid - (t.currentProcess + 1)) (n := maxProcesses - t.nextPid)
    rw [Nat.add_sub_cancel' hlt,
      show t.nextPid - (t.currentProcess + 1) + (maxProcesses - t.nextPid)
        = maxProcesses - (t.currentProcess + 1) by omega] at happend
    exact happend.symm
  have hbeyond : (List.range' t.nextPid (maxProcesses - t.nextPid)).filter t.runnable = [] := by
    rw [List.filter_eq_nil_iff]
    intro i hi
    rw [List.mem_range'_1] at hi
    rw [runnable, h.beyond i (by omega) hi.1]
    decide
  rw [turn, hsplit, List.append_assoc, List.filter_append, List.filter_append, hbeyond,
    List.nil_append, ← List.filter_append, cycle_self hlt]

theorem ProcessTable.turn_perm {t : ProcessTable} (h : t.currentProcess < maxProcesses) :
    t.turn.Perm (List.range maxProcesses) := by
  rw [turn, ← cycle_self h]
  exact cycle_self_perm h

/-- The last slot of a turn is the current one. -/
theorem ProcessTable.turn_eq_concat (t : ProcessTable) :
    ∃ front, t.turn = front ++ [t.currentProcess] := by
  rw [turn, List.range_succ, ← List.append_assoc]
  exact ⟨_, rfl⟩

/--
**Round robin.**

In every state after `process_init` in which the current process runs and `next_pid` is at least 2:
as many calls of `schedule` as there are slots that are ready or run make just these slots current,
each once, in cyclic order from the slot after the current one on. The last one is the slot that was
current before.
-/
theorem round_robin (t₀ : ProcessTable) (calls : List ProcessCall) {t : ProcessTable}
    (ht : t = run step (processInit t₀) calls)
    (hrunning : (t.proc t.currentProcess).state = .running) (htwo : 2 ≤ t.nextPid)
    {cpus : List Saved} (hcpus : cpus.length = t.runnableCount) :
    currents t cpus = t.turn.filter t.runnable ∧
    (currents t cpus).Perm ((List.range maxProcesses).filter t.runnable) ∧
    (currents t cpus).Nodup ∧
    (currents t cpus).getLast? = some t.currentProcess ∧
    ∀ i ∈ currents t cpus, (t.proc i).state ≠ .empty ∧ (t.proc i).state ≠ .blocked ∧
      (t.proc i).state ≠ .zombie := by
  obtain ⟨hshape, hruns⟩ := run_shape t₀ calls
  rw [← ht] at hshape hruns
  have h : Turning t := ⟨hshape, hruns, hrunning, htwo⟩
  have hperm : (t.turn.filter t.runnable).Perm ((List.range maxProcesses).filter t.runnable) :=
    (turn_perm hshape.current_lt_max).filter _
  have hlength : cpus.length = (t.turn.filter t.runnable).length := by
    rw [hcpus, runnableCount, List.countP_eq_length_filter, hperm.length_eq]
  have heq : currents t cpus = t.turn.filter t.runnable := by
    rw [h.currents_eq, hlength, ← hshape.filter_cycle]
    exact visits_eq_filter t.runnable t.nextPid hshape.current_lt
  refine ⟨heq, heq ▸ hperm, ?_, ?_, fun i hi => ?_⟩
  · rw [heq]
    exact ((turn_perm hshape.current_lt_max).nodup_iff.mpr List.nodup_range).filter _
  · obtain ⟨front, hturn⟩ := t.turn_eq_concat
    rw [heq, hturn, List.filter_append, List.filter_cons_of_pos h.runnable_current,
      List.filter_nil, List.getLast?_concat]
  · rw [heq, List.mem_filter, runnable, Bool.or_eq_true, beq_iff_eq, beq_iff_eq] at hi
    rcases hi.2 with hready | hrun
    · simp [hready]
    · simp [hrun]

/-- The kernel and two processes: each of them gets its turn, the kernel last. -/
theorem round_robin_two_processes :
    currents (run step (processInit (.boot 0)) [.create [0x61] 0, .create [0x62] 0])
      [default, default, default] = [1, 2, 0] :=
  (round_robin (.boot 0) [.create [0x61] 0, .create [0x62] 0] rfl (by decide +kernel)
    (by decide +kernel) (by decide +kernel)).1.trans (by decide +kernel)

end MinimalistOS
