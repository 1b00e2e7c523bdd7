import MinimalistOS.Infra.Turns
import MinimalistOS.Properties.Fairness

/-!
# Processor time is shared evenly

`schedule` charges a tick to the process that is current when it is called, and then lets the next
one run.

* `ProcessTable.queue` — the slots that can run, the current one first
* `Turning.queue_schedule` — a call turns the queue by one place
* `processor_time_is_shared` — so the shares of any number of ticks differ by one at most
-/

namespace MinimalistOS

open Infra

open ProcessTable

/-- The slots that are ready or run, in cyclic order from the current one on. -/
def ProcessTable.queue (t : ProcessTable) : List Nat :=
  ((List.range maxProcesses).rotate t.currentProcess).filter t.runnable

/-! ## The queue -/

/-- The turn of a table begins one slot later. -/
theorem ProcessTable.turn_eq_rotate {t : ProcessTable} (h : t.currentProcess < maxProcesses) :
    t.turn = ((List.range maxProcesses).rotate t.currentProcess).rotate 1 := by
  have hdrop : (List.range maxProcesses).drop (t.currentProcess + 1)
      = List.range' (t.currentProcess + 1) (maxProcesses - (t.currentProcess + 1)) := by
    rw [List.range_eq_range', List.drop_range', Nat.zero_add, Nat.mul_one]
  rw [List.rotate_rotate, List.rotate_eq_drop_append_take (by rw [List.length_range]; exact h),
    hdrop, List.take_range, Nat.min_eq_left h]
  rfl

namespace Turning

variable {t : ProcessTable} (h : Turning t)

include h

/-- The current slot is the first one. -/
theorem circle_eq_cons :
    ∃ rest, (List.range maxProcesses).rotate t.currentProcess = t.currentProcess :: rest := by
  have hlt := h.shape.current_lt_max
  refine ⟨(List.range maxProcesses).drop (t.currentProcess + 1)
    ++ (List.range maxProcesses).take t.currentProcess, ?_⟩
  rw [List.rotate_eq_drop_append_take (by rw [List.length_range]; exact hlt.le),
    List.drop_eq_getElem_cons (by rw [List.length_range]; exact hlt), List.getElem_range]
  rfl

theorem queue_head : t.queue.head? = some t.currentProcess := by
  obtain ⟨rest, hrest⟩ := h.circle_eq_cons
  rw [queue, hrest, List.filter_cons_of_pos h.runnable_current]
  rfl

/-- The slots that `schedule` goes round, from the one after the current one on. -/
theorem queue_rotate :
    t.queue.rotate 1 = (cycle t.nextPid t.currentProcess t.nextPid).filter t.runnable := by
  obtain ⟨rest, hrest⟩ := h.circle_eq_cons
  rw [h.shape.filter_cycle, turn_eq_rotate h.shape.current_lt_max, queue, hrest,
    List.rotate_cons_succ, List.rotate_zero, List.filter_append,
    List.filter_cons_of_pos h.runnable_current, List.filter_cons_of_pos h.runnable_current,
    List.filter_nil, List.rotate_cons_succ, List.rotate_zero]

/-- **A call of `schedule`** turns the queue by one place. -/
theorem queue_schedule (cpu : Saved) :
    (MinimalistOS.schedule t cpu).1.queue = t.queue.rotate 1 := by
  obtain ⟨d, hfind, hcurrent, hnext, hrunnable, hturning⟩ := h.schedule cpu
  apply List.rotate_injective 1
  show List.rotate _ 1 = List.rotate _ 1
  rw [hturning.queue_rotate, h.queue_rotate, hcurrent, hnext, funext hrunnable]
  exact filter_cycle_of_find? t.nextPid h.shape.current_lt hfind

end Turning

/-! ## Ticks -/

/-- An update that leaves the runtime alone. -/
theorem runtime_modify (t : ProcessTable) {k : Nat} (hk : k < maxProcesses)
    {f : Process → Process} (hf : ∀ p, (f p).runtime = p.runtime) (i : Nat) :
    ((t.modify k f).proc i).runtime = (t.proc i).runtime := by
  rw [proc_modify hk]
  split
  · next hi => rw [hf, hi]
  · rfl

theorem switchTo_runtime {t : ProcessTable} (h : TableShape t) (cpu : Saved) {next : Nat}
    (hnext : next < t.nextPid) (i : Nat) :
    ((switchTo t cpu next).1.proc i).runtime = (t.proc i).runtime := by
  have hn8 := Nat.lt_of_lt_of_le hnext h.next_le
  simp only [switchTo, h.ptr]
  split
  · refine (runtime_modify _ h.current_lt_max ?_ i).trans (runtime_modify _ hn8 ?_ i)
    · exact fun _ => rfl
    · exact fun _ => rfl
  · refine runtime_modify _ hn8 ?_ i
    exact fun _ => rfl

namespace Turning

variable {t : ProcessTable} (h : Turning t)

include h

/-- The current process is charged, and nobody else. -/
theorem runtime_schedule (cpu : Saved) (i : Nat) :
    ((MinimalistOS.schedule t cpu).1.proc i).runtime
      = (t.proc i).runtime + BitVec.ofNat 32 (if i = t.currentProcess then 1 else 0) := by
  have hmany : ¬ t.nextPid ≤ 1 := Nat.not_le.mpr h.two_le
  have hdemoted := h.shape.tick.demote
  rcases schedule_cases h.shape cpu with ⟨hfew, -⟩ | ⟨next, hnext, -, heq⟩ | ⟨hall, -⟩
  · exact absurd hfew hmany
  · rw [heq, switchTo_runtime hdemoted cpu hnext, demote, h.shape.tick.proc_onCurrent,
      tick_currentProcess, tick_proc]
    split
    · rfl
    · exact (BitVec.add_zero _).symm
  · have hready := h.demote_ready h.shape.current_lt
    rw [h.runnable_current] at hready
    exact absurd (by simpa using hready) (hall _ h.shape.current_lt)

/-- After some ticks. -/
theorem runtime_run (i : Nat) (cpus : List Saved) :
    ((run step t (cpus.map .schedule)).proc i).runtime
      = (t.proc i).runtime + BitVec.ofNat 32 ((rounds t.queue cpus.length).count i) := by
  induction cpus generalizing t with
  | nil => exact (BitVec.add_zero _).symm
  | cons cpu cpus ih =>
    obtain ⟨-, -, -, -, -, hturning⟩ := h.schedule cpu
    have hcount : (t.queue.head?.toList).count i = if i = t.currentProcess then 1 else 0 := by
      rw [h.queue_head, Option.toList_some]
      by_cases hi : i = t.currentProcess
      · rw [if_pos hi, hi, List.count_singleton_self]
      · rw [if_neg hi, List.count_eq_zero.mpr (by simpa using hi)]
    rw [List.map_cons, run_cons]
    show ((run step (MinimalistOS.schedule t cpu).1 _).proc i).runtime = _
    rw [ih hturning, h.runtime_schedule, h.queue_schedule, List.length_cons, rounds,
      List.count_append, hcount, BitVec.add_assoc, BitVec.ofNat_add]

end Turning

/--
**Processor time is shared evenly.**

In every state after `process_init` in which the current process runs and `next_pid` is at least 2:
of any number of ticks each slot that can run gets the same share, rounded up for the first slots in
the queue and down for the others. No other slot is charged.
-/
theorem processor_time_is_shared (t₀ : ProcessTable) (calls : List ProcessCall) {t : ProcessTable}
    (ht : t = run step (processInit t₀) calls)
    (hrunning : (t.proc t.currentProcess).state = .running) (htwo : 2 ≤ t.nextPid)
    (cpus : List Saved) :
    let t' := run step t (cpus.map .schedule)
    (∀ i ∈ t.queue, (t'.proc i).runtime = (t.proc i).runtime
      + BitVec.ofNat 32 (cpus.length / t.queue.length
        + if t.queue.idxOf i < cpus.length % t.queue.length then 1 else 0)) ∧
    ∀ i, t.runnable i = false → (t'.proc i).runtime = (t.proc i).runtime := by
  obtain ⟨hshape, hruns⟩ := run_shape t₀ calls
  rw [← ht] at hshape hruns
  have h : Turning t := ⟨hshape, hruns, hrunning, htwo⟩
  have hnodup : t.queue.Nodup := (List.nodup_rotate.mpr List.nodup_range).filter _
  refine ⟨fun i hi => ?_, fun i hi => ?_⟩
  · rw [h.runtime_run, count_rounds cpus.length hnodup hi]
  · have hnot : i ∉ t.queue := fun hmem =>
      absurd (List.mem_filter.mp hmem).2 (by rw [hi]; decide)
    rw [h.runtime_run, List.count_eq_zero.mpr fun hmem => hnot (mem_of_mem_rounds _ hmem)]
    exact BitVec.add_zero _

/-- The kernel and two processes share eight ticks. -/
theorem processor_time_is_shared_eight :
    [0, 1, 2].map (fun i => ((run step (run step (processInit (.boot 0))
        [.create [0x61] 0, .create [0x62] 0]) ((List.replicate 8 default).map .schedule)).proc
          i).runtime) = [3, 3, 2] := by
  have hshared := (processor_time_is_shared (.boot 0) [.create [0x61] 0, .create [0x62] 0] rfl
    (by decide +kernel) (by decide +kernel) (List.replicate 8 default)).1
  rw [List.map_cons, List.map_cons, List.map_cons, hshared 0 (by decide +kernel),
    hshared 1 (by decide +kernel), hshared 2 (by decide +kernel)]
  decide +kernel

end MinimalistOS
