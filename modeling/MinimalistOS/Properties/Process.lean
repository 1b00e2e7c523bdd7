import MinimalistOS.Kernel.Process

/-!
# The process table

* `processCreate_cases`, `schedule_cases` — everything the two functions can do
* `process_table_invariant` — the shape of the table after any calls

The scheduler walks the slots modulo `next_pid`. That walk stays inside the table and meets every
slot in use because `next_pid` is above all of them, and that in turn holds because
`process_create` takes the lowest free slot.
-/

namespace MinimalistOS

open Infra

/-! ## Slots -/

namespace ProcessTable

variable {t : ProcessTable} {i : Nat}

theorem proc_modify (hi : i < maxProcesses) (f : Process → Process) (j : Nat) :
    (t.modify i f).proc j = if j = i then f (t.proc i) else t.proc j :=
  slot_modifySlot t.processes hi f j

@[simp] theorem modify_nextPid (f : Process → Process) : (t.modify i f).nextPid = t.nextPid := rfl

@[simp] theorem modify_currentProcess (f : Process → Process) :
    (t.modify i f).currentProcess = t.currentProcess := rfl

end ProcessTable

open ProcessTable

theorem raise_eq (t : ProcessTable) (i : Nat) :
    raise t i = { t with nextPid := max t.nextPid (i + 1) } := by
  unfold raise
  split
  · next h => rw [Nat.max_eq_right (by omega)]
  · next h => rw [Nat.max_eq_left (by omega)]

@[simp] theorem raise_currentProcess (t : ProcessTable) (i : Nat) :
    (raise t i).currentProcess = t.currentProcess := by
  rw [raise_eq]

theorem proc_raise_modify (t : ProcessTable) {i : Nat} (hi : i < maxProcesses)
    (f : Process → Process) (j : Nat) :
    ((raise t i).modify i f).proc j = if j = i then f (t.proc i) else t.proc j := by
  rw [proc_modify hi, raise_eq]
  rfl

@[simp] theorem tick_currentProcess (t : ProcessTable) :
    (tick t).currentProcess = t.currentProcess := rfl

@[simp] theorem tick_proc (t : ProcessTable) (j : Nat) : (tick t).proc j = t.proc j := rfl

@[simp] theorem onCurrent_nextPid (t : ProcessTable) (f : Process → Process) :
    (onCurrent t f).nextPid = t.nextPid := by
  unfold onCurrent
  split <;> rfl

@[simp] theorem onCurrent_currentProcess (t : ProcessTable) (f : Process → Process) :
    (onCurrent t f).currentProcess = t.currentProcess := by
  unfold onCurrent
  split <;> rfl

@[simp] theorem demote_nextPid (t : ProcessTable) : (demote t).nextPid = t.nextPid :=
  onCurrent_nextPid t _

@[simp] theorem demote_currentProcess (t : ProcessTable) :
    (demote t).currentProcess = t.currentProcess := onCurrent_currentProcess t _

@[simp] theorem stay_currentProcess (t : ProcessTable) :
    (stay t).currentProcess = t.currentProcess := onCurrent_currentProcess t _

@[simp] theorem bury_nextPid (t : ProcessTable) : (bury t).nextPid = t.nextPid :=
  onCurrent_nextPid t _

@[simp] theorem bury_currentProcess (t : ProcessTable) :
    (bury t).currentProcess = t.currentProcess := onCurrent_currentProcess t _

@[simp] theorem switchTo_nextPid (t : ProcessTable) (cpu : Saved) (next : Nat) :
    (switchTo t cpu next).1.nextPid = t.nextPid := by
  unfold switchTo
  dsimp only
  split
  · rfl
  · split <;> rfl

/-! ## What the functions can do -/

theorem findFree_eq (t : ProcessTable) : ∀ n i : Nat,
    findFree t i n = (List.range' i n).find? fun k => (t.proc k).state.isFree
  | 0, _ => rfl
  | n + 1, i => by
    rw [findFree, List.range'_succ, List.find?_cons, findFree_eq t n (i + 1)]
    cases (t.proc i).state.isFree with
    | true => rfl
    | false => rfl

/-- `process_create` assigns the lowest free slot, or does nothing. -/
theorem processCreate_cases (t : ProcessTable) (name : List Byte) (entryPoint : Word) :
    (∃ i < maxProcesses, (t.proc i).state.isFree = true ∧
        (∀ j < i, (t.proc j).state.isFree = false) ∧
        processCreate t name entryPoint
          = ((raise t i).modify i (assign t i name entryPoint), (i : Int))) ∨
      ((∀ j < maxProcesses, (t.proc j).state.isFree = false) ∧
        processCreate t name entryPoint = (t, -1)) := by
  rw [processCreate, findFree_eq]
  cases hfind : (List.range' 0 maxProcesses).find? fun k => (t.proc k).state.isFree with
  | some i =>
    obtain ⟨hfree, hmem, hbelow⟩ := List.find?_range'_eq_some.mp hfind
    have hi : i < maxProcesses := by simpa using hmem
    exact Or.inl ⟨i, hi, hfree, fun j hj => by simpa using hbelow j (Nat.zero_le j) hj, rfl⟩
  | none =>
    have hall := List.find?_range'_eq_none.mp hfind
    exact Or.inr ⟨fun j hj => by simpa using hall j (Nat.zero_le j) (by omega), rfl⟩

/-- The search visits `next + 1`, …, `next + n` modulo `next_pid`. -/
theorem findReady_cases (t : ProcessTable) : ∀ (n next : Nat),
    (∃ k, 0 < k ∧ k ≤ n ∧ (t.proc ((next + k) % t.nextPid)).state = .ready ∧
        findReady t next n = some ((next + k) % t.nextPid)) ∨
      ((∀ k, 0 < k → k ≤ n → (t.proc ((next + k) % t.nextPid)).state ≠ .ready) ∧
        findReady t next n = none)
  | 0, next => Or.inr ⟨fun k h1 h2 => by omega, rfl⟩
  | n + 1, next => by
    -- the walk from the slot after `next` is the same walk, one step later
    have hshift : ∀ k, ((next + 1) % t.nextPid + k) % t.nextPid = (next + (k + 1)) % t.nextPid := by
      intro k
      rw [Nat.mod_add_mod, Nat.add_right_comm, Nat.add_assoc]
    simp only [findReady]
    by_cases hready : (t.proc ((next + 1) % t.nextPid)).state = .ready
    · rw [if_pos hready]
      exact Or.inl ⟨1, by omega, by omega, hready, rfl⟩
    · rw [if_neg hready]
      rcases findReady_cases t n ((next + 1) % t.nextPid) with ⟨k, h1, h2, hk, heq⟩ | ⟨hall, heq⟩
      · rw [hshift] at hk heq
        exact Or.inl ⟨k + 1, by omega, by omega, hk, heq⟩
      · refine Or.inr ⟨fun k h1 h2 => ?_, heq⟩
        cases k with
        | zero => omega
        | succ k =>
          rcases Nat.eq_zero_or_pos k with rfl | hk
          · exact hready
          · rw [← hshift]
            exact hall k hk (by omega)

/-- Eight steps modulo `next_pid` reach every slot below it. -/
theorem exists_step_to {c n j : Nat} (hc : c < n) (hn : n ≤ maxProcesses) (hj : j < n) :
    ∃ k, 0 < k ∧ k ≤ maxProcesses ∧ (c + k) % n = j := by
  by_cases h : c < j
  · exact ⟨j - c, by omega, by omega, by rw [show c + (j - c) = j by omega, Nat.mod_eq_of_lt hj]⟩
  · refine ⟨n - c + j, by omega, by omega, ?_⟩
    rw [show c + (n - c + j) = j + n by omega, Nat.add_mod_right, Nat.mod_eq_of_lt hj]

/-! ## The shape of the table -/

/-- What the three functions keep besides the states: the marks, and the pids of the slots below
`next_pid`. -/
structure TableShape (t : ProcessTable) : Prop where
  current_lt : t.currentProcess < t.nextPid
  next_le : t.nextPid ≤ maxProcesses
  ptr : t.currentProcessPtr = some t.currentProcess
  beyond : ∀ i < maxProcesses, t.nextPid ≤ i → (t.proc i).state = .empty
  pid : ∀ i < t.nextPid, (t.proc i).pid = i

namespace TableShape

variable {t : ProcessTable}

theorem current_lt_max (h : TableShape t) : t.currentProcess < maxProcesses :=
  Nat.lt_of_lt_of_le h.current_lt h.next_le

theorem onCurrent_eq (h : TableShape t) (f : Process → Process) :
    onCurrent t f = t.modify t.currentProcess f := by
  unfold onCurrent
  rw [h.ptr]

theorem proc_onCurrent (h : TableShape t) (f : Process → Process) (j : Nat) :
    (onCurrent t f).proc j = if j = t.currentProcess then f (t.proc j) else t.proc j := by
  rw [h.onCurrent_eq, proc_modify h.current_lt_max]
  split
  · next hj => rw [hj]
  · rfl

theorem modify (h : TableShape t) {i : Nat} (hi : i < t.nextPid) {f : Process → Process}
    (hf : ∀ p, (f p).pid = p.pid) : TableShape (t.modify i f) where
  current_lt := h.current_lt
  next_le := h.next_le
  ptr := h.ptr
  beyond j hj hle := by
    have hne : j ≠ i := by
      rintro rfl
      exact absurd hle (Nat.not_le_of_lt hi)
    rw [proc_modify (Nat.lt_of_lt_of_le hi h.next_le), if_neg hne]
    exact h.beyond j hj hle
  pid j hj := by
    rw [proc_modify (Nat.lt_of_lt_of_le hi h.next_le)]
    split
    · next hji => rw [hf, h.pid i hi, hji]
    · exact h.pid j hj

theorem onCurrent (h : TableShape t) {f : Process → Process} (hf : ∀ p, (f p).pid = p.pid) :
    TableShape (onCurrent t f) := by
  rw [h.onCurrent_eq]
  exact h.modify h.current_lt hf

theorem tick (h : TableShape t) : TableShape (tick t) := ⟨h.1, h.2, h.3, h.4, h.5⟩

theorem demote (h : TableShape t) : TableShape (demote t) := h.onCurrent fun _ => rfl

theorem stay (h : TableShape t) : TableShape (stay t) := h.onCurrent fun _ => rfl

theorem bury (h : TableShape t) : TableShape (bury t) := h.onCurrent fun _ => rfl

/-- Another slot below `next_pid` may become the current one. -/
theorem point (h : TableShape t) {next : Nat} (hnext : next < t.nextPid) :
    TableShape { t with currentProcess := next, currentProcessPtr := some next } :=
  ⟨hnext, h.next_le, rfl, h.beyond, h.pid⟩

theorem switchTo (h : TableShape t) (cpu : Saved) {next : Nat} (hnext : next < t.nextPid) :
    TableShape (switchTo t cpu next).1 := by
  have hstart := (h.point hnext).modify hnext (f := fun p => { p with state := .running })
    fun _ => rfl
  simp only [MinimalistOS.switchTo, h.ptr]
  split
  · exact hstart.modify h.current_lt fun _ => rfl
  · exact hstart

/-- Creation keeps the shape: the slot it assigns is below `next_pid` or the first above it. -/
theorem create (h : TableShape t) (name : List Byte) (entryPoint : Word) :
    TableShape (processCreate t name entryPoint).1 := by
  rcases processCreate_cases t name entryPoint with ⟨i, hi, hfree, hbelow, heq⟩ | ⟨-, heq⟩
  · -- the slot at `next_pid` is empty, so the lowest free slot is not above it
    have hle : i ≤ t.nextPid := by
      by_contra hgt
      have hused := hbelow t.nextPid (by omega)
      rw [h.beyond t.nextPid (by omega) le_rfl] at hused
      exact absurd hused (by decide)
    have hshape := h.next_le
    have hcurrent := h.current_lt
    rw [heq, raise_eq]
    refine ⟨?_, ?_, h.ptr, fun j hj hle' => ?_, fun j hj => ?_⟩
    · show t.currentProcess < max t.nextPid (i + 1)
      omega
    · show max t.nextPid (i + 1) ≤ maxProcesses
      omega
    · have hj' : max t.nextPid (i + 1) ≤ j := hle'
      rw [proc_modify hi, if_neg (by omega)]
      exact h.beyond j hj (by omega)
    · have hj' : j < max t.nextPid (i + 1) := hj
      rw [proc_modify hi]
      split
      · next hji => rw [hji]; rfl
      · exact h.pid j (by omega)
  · rw [heq]
    exact h

end TableShape

/-! ## The scheduler, slot by slot -/

section Scheduler

variable {t : ProcessTable} (h : TableShape t)

include h

/-- `schedule` returns at once, switches to a ready slot, or finds no slot ready. -/
theorem schedule_cases (cpu : Saved) :
    (t.nextPid ≤ 1 ∧ schedule t cpu = (tick t, none)) ∨
      (∃ next < (demote (tick t)).nextPid, ((demote (tick t)).proc next).state = .ready ∧
        schedule t cpu = switchTo (demote (tick t)) cpu next) ∨
      ((∀ i < t.nextPid, ((demote (tick t)).proc i).state ≠ .ready) ∧
        schedule t cpu = (stay (demote (tick t)), none)) := by
  have hd := h.tick.demote
  simp only [schedule]
  by_cases hone : (tick t).nextPid ≤ 1
  · rw [if_pos hone]
    exact Or.inl ⟨hone, rfl⟩
  · rw [if_neg hone]
    rcases findReady_cases (demote (tick t)) maxProcesses (demote (tick t)).currentProcess with
      ⟨k, -, -, hready, heq⟩ | ⟨hall, heq⟩
    · rw [heq]
      exact Or.inr (Or.inl ⟨_, Nat.mod_lt _ (Nat.zero_lt_of_lt hd.current_lt), hready, rfl⟩)
    · rw [heq]
      refine Or.inr (Or.inr ⟨fun i hi => ?_, rfl⟩)
      have hi' : i < (demote (tick t)).nextPid := by rwa [demote_nextPid]
      obtain ⟨k, hk, hk8, hmod⟩ := exists_step_to hd.current_lt hd.next_le hi'
      rw [← hmod]
      exact hall k hk hk8

theorem demote_state (j : Nat) :
    ((demote (tick t)).proc j).state
      = if j = t.currentProcess ∧ (t.proc j).state = .running then .ready
        else (t.proc j).state := by
  rw [demote, h.tick.proc_onCurrent]
  simp only [tick_currentProcess, tick_proc]
  by_cases hj : j = t.currentProcess
  · simp [hj]
  · simp [hj]

theorem switchTo_currentProcess (cpu : Saved) (next : Nat) :
    (switchTo t cpu next).1.currentProcess = next := by
  simp only [switchTo, h.ptr]
  split <;> rfl

theorem switchTo_proc (cpu : Saved) {next : Nat} (hnext : next < t.nextPid) (j : Nat) :
    ((switchTo t cpu next).1.proc j).state = (if j = next then .running else (t.proc j).state) ∧
      ((switchTo t cpu next).1.proc j).context
        = if j = t.currentProcess ∧ j ≠ next then
            (t.proc j).context.save cpu.esp cpu.eip cpu.eflags
          else (t.proc j).context := by
  have hn8 := Nat.lt_of_lt_of_le hnext h.next_le
  simp only [switchTo, h.ptr]
  by_cases hne : t.currentProcess ≠ next
  · rw [if_pos hne]
    simp only [proc_modify h.current_lt_max, proc_modify hn8]
    by_cases hj : j = t.currentProcess
    · subst hj
      simp [hne, proc]
    · by_cases hjn : j = next
      · subst hjn
        simp [hj, proc]
      · simp [hj, hjn, proc]
  · rw [if_neg hne]
    have heq : t.currentProcess = next := not_not.mp hne
    simp only [proc_modify hn8]
    by_cases hjn : j = next
    · subst hjn
      simp [proc]
    · have hjc : j ≠ t.currentProcess := fun hj => hjn (hj.trans heq)
      simp [hjn, hjc, proc]

end Scheduler

/-! ## The invariant -/

/-- The process table invariant. -/
structure TableInv (t : ProcessTable) : Prop where
  current_lt : t.currentProcess < t.nextPid
  next_le : t.nextPid ≤ maxProcesses
  ptr : t.currentProcessPtr = some t.currentProcess
  beyond : ∀ i < maxProcesses, t.nextPid ≤ i → (t.proc i).state = .empty
  pid : ∀ i < maxProcesses, (t.proc i).state ≠ .empty → (t.proc i).pid = i
  running : ∀ i < maxProcesses, (t.proc i).state = .running → i = t.currentProcess

/-- Only the current slot may be running. -/
def RunsCurrent (t : ProcessTable) : Prop :=
  ∀ i < maxProcesses, (t.proc i).state = .running → i = t.currentProcess

theorem TableInv.of_shape {t : ProcessTable} (h : TableShape t) (hrun : RunsCurrent t) :
    TableInv t where
  current_lt := h.current_lt
  next_le := h.next_le
  ptr := h.ptr
  beyond := h.beyond
  pid i hi hne := by
    refine h.pid i ?_
    by_contra hle
    exact hne (h.beyond i hi (by omega))
  running := hrun

theorem processInit_state (t : ProcessTable) {i : Nat} (hi : i < maxProcesses) :
    ((processInit t).proc i).state = if i = 0 then .running else .empty := by
  unfold processInit proc
  simp only [ProcessTable.modify]
  rw [slot_modifySlot _ (by decide)]
  split
  · rfl
  · rw [slot_map (n := 8) _ _ hi]

theorem processInit_shape (t : ProcessTable) : TableShape (processInit t) where
  current_lt := Nat.one_pos
  next_le := show 1 ≤ maxProcesses by decide
  ptr := rfl
  beyond i hi hle := by
    have hle' : 1 ≤ i := hle
    rw [processInit_state t hi, if_neg (by omega)]
  pid i hi := by
    obtain rfl : i = 0 := Nat.lt_one_iff.mp hi
    unfold processInit proc
    simp only [ProcessTable.modify]
    rw [slot_modifySlot _ (by decide), if_pos rfl]
    rfl

theorem processInit_runsCurrent (t : ProcessTable) : RunsCurrent (processInit t) := by
  intro i hi hrun
  rw [processInit_state t hi] at hrun
  split at hrun
  · next h0 => exact h0
  · exact ProcessState.noConfusion hrun

/-! ### One step -/

theorem create_runsCurrent {t : ProcessTable} (hrun : RunsCurrent t) (name : List Byte)
    (entryPoint : Word) : RunsCurrent (processCreate t name entryPoint).1 := by
  rcases processCreate_cases t name entryPoint with ⟨i, hi, -, -, heq⟩ | ⟨-, heq⟩
  · rw [heq]
    intro j hj hstate
    rw [modify_currentProcess, raise_currentProcess]
    rw [proc_raise_modify t hi] at hstate
    split at hstate
    · exact ProcessState.noConfusion hstate
    · exact hrun j hj hstate
  · rw [heq]
    exact hrun

/-- After `demote` no slot is running, so the scheduler may start any one. -/
theorem demote_not_running {t : ProcessTable} (h : TableShape t) (hrun : RunsCurrent t) {j : Nat}
    (hj : j < maxProcesses) : ((demote (tick t)).proc j).state ≠ .running := by
  rw [demote_state h]
  split
  · exact ProcessState.noConfusion
  · next hn => exact fun hs => hn ⟨hrun j hj hs, hs⟩

theorem schedule_inv {t : ProcessTable} (h : TableShape t) (hrun : RunsCurrent t) (cpu : Saved) :
    TableShape (schedule t cpu).1 ∧ RunsCurrent (schedule t cpu).1 := by
  have hd := h.tick.demote
  rcases schedule_cases h cpu with ⟨-, heq⟩ | ⟨next, hnext, -, heq⟩ | ⟨-, heq⟩
  · rw [heq]
    exact ⟨h.tick, hrun⟩
  · rw [heq]
    refine ⟨hd.switchTo cpu hnext, fun j hj hstate => ?_⟩
    rw [(switchTo_proc hd cpu hnext j).1] at hstate
    rw [switchTo_currentProcess hd]
    split at hstate
    · next hjn => exact hjn
    · exact absurd hstate (demote_not_running h hrun hj)
  · rw [heq]
    refine ⟨hd.stay, fun j hj hstate => ?_⟩
    rw [stay, hd.proc_onCurrent] at hstate
    rw [stay_currentProcess]
    split at hstate
    · next hjc => exact hjc
    · exact absurd hstate (demote_not_running h hrun hj)

theorem bury_runsCurrent {t : ProcessTable} (h : TableShape t) (hrun : RunsCurrent t) :
    RunsCurrent (bury t) := by
  intro j hj hstate
  rw [bury, h.proc_onCurrent] at hstate
  rw [bury_currentProcess]
  split at hstate
  · exact ProcessState.noConfusion hstate
  · exact hrun j hj hstate

theorem step_inv {t : ProcessTable} (call : ProcessCall)
    (h : TableShape t ∧ RunsCurrent t) :
    TableShape (t.step call).1 ∧ RunsCurrent (t.step call).1 := by
  obtain ⟨hshape, hrun⟩ := h
  cases call with
  | create name entryPoint =>
    exact ⟨hshape.create name entryPoint, create_runsCurrent hrun name entryPoint⟩
  | exit status cpu => exact schedule_inv hshape.bury (bury_runsCurrent hshape hrun) cpu
  | schedule cpu => exact schedule_inv hshape hrun cpu

/-- The inductive form of the invariant, after any calls. -/
theorem run_shape (t : ProcessTable) (calls : List ProcessCall) :
    TableShape (run step (processInit t) calls) ∧ RunsCurrent (run step (processInit t) calls) :=
  inv_run_of_forall step (I := fun t => TableShape t ∧ RunsCurrent t)
    (fun _ call h => step_inv call h) calls ⟨processInit_shape t, processInit_runsCurrent t⟩

/-- **The process table invariant holds in every state reached from `process_init`.** -/
theorem process_table_invariant (t : ProcessTable) (calls : List ProcessCall) :
    TableInv (run step (processInit t) calls) := by
  obtain ⟨hshape, hrun⟩ := run_shape t calls
  exact TableInv.of_shape hshape hrun

end MinimalistOS
