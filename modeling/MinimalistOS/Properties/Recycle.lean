import MinimalistOS.Properties.Process

/-!
# The slot in execution

* `Spares` — `process_create` does not assign the slot of the current process
* `create_spares_current_iff` — that is guaranteed exactly as long as every `process_exit` leaves
  somebody else to run

`process_exit` marks its caller as a zombie and calls the scheduler. If the scheduler finds no
other process it returns, and the caller goes on running in a slot that `process_create` regards
as free.
-/

namespace MinimalistOS

open Infra ProcessTable

/-- No `process_create` made now returns `current_process`. -/
def Spares (t : ProcessTable) : Prop :=
  ∀ name entryPoint, (processCreate t name entryPoint).2 ≠ t.currentProcess

/-- Some slot other than the current one is ready. -/
def OtherReady (t : ProcessTable) : Prop :=
  ∃ i < maxProcesses, i ≠ t.currentProcess ∧ (t.proc i).state = .ready

instance (t : ProcessTable) : Decidable (OtherReady t) :=
  inferInstanceAs (Decidable (∃ i < maxProcesses, _ ∧ _))

/-- A `process_exit` is made only when there is another process to run. -/
def ExitYields (t : ProcessTable) : ProcessCall → Prop
  | .exit _ _ => OtherReady t
  | _ => True

instance (t : ProcessTable) : ∀ call, Decidable (ExitYields t call)
  | .exit _ _ => inferInstanceAs (Decidable (OtherReady t))
  | .create _ _ => inferInstanceAs (Decidable True)
  | .schedule _ => inferInstanceAs (Decidable True)

/-- The call is a `process_create`. -/
def ProcessCall.isCreate : ProcessCall → Bool
  | .create _ _ => true
  | _ => false

theorem ProcessCall.exitYields_of_isCreate {call : ProcessCall} (h : call.isCreate = true)
    (t : ProcessTable) : ExitYields t call := by
  cases call with
  | create name entryPoint => trivial
  | exit status cpu => exact Bool.noConfusion h
  | schedule cpu => exact Bool.noConfusion h

/-! ## As long as the current process runs -/

/-- The shape of the table, with the current slot running. -/
structure CurrentRuns (t : ProcessTable) : Prop where
  shape : TableShape t
  only : RunsCurrent t
  current : (t.proc t.currentProcess).state = .running

theorem CurrentRuns.spares {t : ProcessTable} (h : CurrentRuns t) : Spares t := by
  intro name entryPoint
  rcases processCreate_cases t name entryPoint with ⟨i, -, hfree, -, heq⟩ | ⟨-, heq⟩
  · rw [heq]
    intro hret
    obtain rfl : i = t.currentProcess := Int.ofNat_inj.mp hret
    rw [h.current] at hfree
    exact Bool.noConfusion hfree
  · rw [heq]
    simp only
    omega

theorem CurrentRuns.create {t : ProcessTable} (h : CurrentRuns t) (name : List Byte)
    (entryPoint : Word) : CurrentRuns (processCreate t name entryPoint).1 where
  shape := h.shape.create name entryPoint
  only := create_runsCurrent h.only name entryPoint
  current := by
    rcases processCreate_cases t name entryPoint with ⟨i, hi, hfree, -, heq⟩ | ⟨-, heq⟩
    · have hne : t.currentProcess ≠ i := by
        rintro rfl
        rw [h.current] at hfree
        exact Bool.noConfusion hfree
      rw [heq, proc_raise_modify t hi, modify_currentProcess, raise_currentProcess, if_neg hne]
      exact h.current
    · rw [heq]
      exact h.current

/-- The scheduler ends with a running process whenever a slot is ready to run once the current
one has been demoted. -/
theorem schedule_currentRuns {t : ProcessTable} (h : TableShape t) (hrun : RunsCurrent t)
    (hready : ∃ i < t.nextPid, ((demote (tick t)).proc i).state = .ready)
    (hone : t.nextPid ≤ 1 → (t.proc t.currentProcess).state = .running) (cpu : Saved) :
    CurrentRuns (schedule t cpu).1 := by
  obtain ⟨hshape, honly⟩ := schedule_inv h hrun cpu
  refine ⟨hshape, honly, ?_⟩
  have hd := h.tick.demote
  rcases schedule_cases h cpu with ⟨hle, heq⟩ | ⟨next, hnext, -, heq⟩ | ⟨hall, -⟩
  · rw [heq]
    exact hone hle
  · rw [heq, (switchTo_proc hd cpu hnext _).1, switchTo_currentProcess hd, if_pos rfl]
  · obtain ⟨i, hi, hstate⟩ := hready
    exact absurd hstate (hall i hi)

theorem CurrentRuns.schedule {t : ProcessTable} (h : CurrentRuns t) (cpu : Saved) :
    CurrentRuns (schedule t cpu).1 := by
  refine schedule_currentRuns h.shape h.only ⟨t.currentProcess, h.shape.current_lt, ?_⟩
    (fun _ => h.current) cpu
  rw [demote_state h.shape, if_pos ⟨rfl, h.current⟩]

theorem CurrentRuns.exit {t : ProcessTable} (h : CurrentRuns t) (hother : OtherReady t)
    (status : Int) (cpu : Saved) : CurrentRuns (processExit t status cpu).1 := by
  obtain ⟨i, hi, hne, hready⟩ := hother
  have hb := h.shape.bury
  have hlt : i < t.nextPid := by
    by_contra hge
    rw [h.shape.beyond i hi (by omega)] at hready
    exact ProcessState.noConfusion hready
  refine schedule_currentRuns hb (bury_runsCurrent h.shape h.only) ⟨i, by rwa [bury_nextPid], ?_⟩
    (fun hone => ?_) cpu
  · rw [demote_state hb, bury_currentProcess, if_neg fun hc => hne hc.1, bury,
      h.shape.proc_onCurrent, if_neg hne]
    exact hready
  · -- two different slots are below `next_pid`
    have hcurrent := h.shape.current_lt
    rw [bury_nextPid] at hone
    omega

theorem CurrentRuns.step {t : ProcessTable} (h : CurrentRuns t) (call : ProcessCall)
    (hcall : ExitYields t call) : CurrentRuns (t.step call).1 := by
  cases call with
  | create name entryPoint => exact h.create name entryPoint
  | exit status cpu => exact h.exit hcall status cpu
  | schedule cpu => exact h.schedule cpu

theorem processInit_currentRuns (t : ProcessTable) : CurrentRuns (processInit t) where
  shape := processInit_shape t
  only := processInit_runsCurrent t
  current := processInit_state t (i := 0) (by decide)

/-! ## When the current process has exited alone -/

/-- The lowest free slot is the one `process_create` returns. -/
theorem processCreate_eq {t : ProcessTable} {k : Nat} (hk : k < maxProcesses)
    (hfree : (t.proc k).state.isFree = true) (hbelow : ∀ j < k, (t.proc j).state.isFree = false)
    (name : List Byte) (entryPoint : Word) :
    processCreate t name entryPoint
      = ((raise t k).modify k (assign t k name entryPoint), (k : Int)) := by
  rcases processCreate_cases t name entryPoint with ⟨i, hi, hfree', hbelow', heq⟩ | ⟨hall, -⟩
  · obtain hlt | rfl | hgt := Nat.lt_trichotomy i k
    · rw [hbelow i hlt] at hfree'
      exact Bool.noConfusion hfree'
    · exact heq
    · rw [hbelow' k hgt] at hfree
      exact Bool.noConfusion hfree
  · rw [hall k hk] at hfree
    exact Bool.noConfusion hfree

/-- Creations fill the free slots from below, so they get to a current slot that is free. -/
theorem exists_creations_to_current (d : Nat) : ∀ {t : ProcessTable},
    t.currentProcess < maxProcesses → (t.proc t.currentProcess).state.isFree = true →
    (∀ j, j + d < t.currentProcess → (t.proc j).state.isFree = false) →
    ∃ more : List ProcessCall, (∀ call ∈ more, call.isCreate = true) ∧
      ¬ Spares (run step t more) := by
  induction d with
  | zero =>
    intro t hcur hfree hbelow
    refine ⟨[], by simp, fun hspares => hspares [] 0 ?_⟩
    rw [run_nil, processCreate_eq hcur hfree fun j hj => hbelow j hj]
  | succ d ih =>
    intro t hcur hfree hbelow
    by_cases hd : t.currentProcess ≤ d
    · exact ih hcur hfree fun j hj => by omega
    -- `k` is the lowest slot that can be free: it is in use, or the next creation takes it
    obtain ⟨k, hk⟩ : ∃ k, t.currentProcess = k + d + 1 := ⟨t.currentProcess - (d + 1), by omega⟩
    by_cases hkfree : (t.proc k).state.isFree = true
    · have hcreate := processCreate_eq (t := t) (k := k) (by omega) hkfree
        (fun j hj => hbelow j (by omega)) [] 0
      have hproc : ∀ j, (processCreate t [] 0).1.proc j
          = if j = k then assign t k [] 0 (t.proc k) else t.proc j := by
        rw [hcreate]
        exact proc_raise_modify t (by omega) _
      have hsame : (processCreate t [] 0).1.currentProcess = t.currentProcess := by
        rw [hcreate, modify_currentProcess, raise_currentProcess]
      obtain ⟨more, hmore, hbad⟩ := ih (t := (processCreate t [] 0).1) (by rwa [hsame])
        (by rw [hsame, hproc, if_neg (by omega)]; exact hfree)
        (fun j hj => by
          rw [hproc]
          split
          · rfl
          · exact hbelow j (by omega))
      exact ⟨.create [] 0 :: more, by simpa [ProcessCall.isCreate] using hmore, hbad⟩
    · refine ih hcur hfree fun j hj => ?_
      by_cases hjk : j = k
      · rw [hjk]
        simpa using hkfree
      · exact hbelow j (by omega)

/-- A process that exits with nobody else ready comes back from the scheduler as a zombie. -/
theorem exit_alone {t : ProcessTable} (h : TableShape t) (hother : ¬ OtherReady t) (status : Int)
    (cpu : Saved) :
    (processExit t status cpu).1.currentProcess = t.currentProcess ∧
      ((processExit t status cpu).1.proc t.currentProcess).state = .zombie := by
  have hb := h.bury
  have hzombie : ((bury t).proc t.currentProcess).state = .zombie := by
    rw [bury, h.proc_onCurrent, if_pos rfl]
  have hkeep : ((demote (tick (bury t))).proc t.currentProcess).state = .zombie := by
    rw [demote_state hb, if_neg fun hc => by simp [hzombie] at hc]
    exact hzombie
  have hd := hb.tick.demote
  have hcur : (demote (tick (bury t))).currentProcess = t.currentProcess := by
    rw [demote_currentProcess, tick_currentProcess, bury_currentProcess]
  unfold processExit
  rcases schedule_cases hb cpu with ⟨-, heq⟩ | ⟨next, hnext, hready, -⟩ | ⟨-, heq⟩
  · rw [heq]
    exact ⟨bury_currentProcess t, hzombie⟩
  · -- the slot found ready is not the zombie, and it was ready before
    exfalso
    have hne : next ≠ t.currentProcess := by
      rintro rfl
      rw [hkeep] at hready
      exact ProcessState.noConfusion hready
    rw [demote_state hb, bury_currentProcess, if_neg fun hc => hne hc.1, bury, h.proc_onCurrent,
      if_neg hne] at hready
    exact hother ⟨next, Nat.lt_of_lt_of_le hnext hd.next_le, hne, hready⟩
  · rw [heq]
    refine ⟨by rw [stay_currentProcess, hcur], ?_⟩
    rw [stay, hd.proc_onCurrent, if_pos hcur.symm]
    simp [hkeep]

/-- **No creation assigns the slot of the current process, in any state of a run or after further
creations, exactly when every `process_exit` of the run leaves another process ready.** -/
theorem create_spares_current_iff (t : ProcessTable) (calls : List ProcessCall) :
    (∀ pre, pre <+: calls → ∀ more : List ProcessCall, (∀ call ∈ more, call.isCreate = true) →
        Spares (run step (processInit t) (pre ++ more))) ↔
      Along step ExitYields (processInit t) calls := by
  have key := safe_iff_along step (I := CurrentRuns) (Q := fun _ => True) (P := ExitYields)
    (S := fun t => ∀ more : List ProcessCall, (∀ call ∈ more, call.isCreate = true) →
      Spares (run step t more)) ?_ (fun t call _ h hP => h.step call hP) ?_
    (processInit_currentRuns t) (fun _ (_ : _ ∈ calls) => trivial)
  · simpa only [run_append] using key
  · intro t h more hmore
    refine (inv_run step (I := CurrentRuns) (fun t call h hP => h.step call hP) h ?_).spares
    exact along_of_forall step t fun _ hcall => ProcessCall.exitYields_of_isCreate (hmore _ hcall)
  · intro t call _ h hnot hsafe
    cases call with
    | create name entryPoint => exact hnot trivial
    | schedule cpu => exact hnot trivial
    | exit status cpu =>
      obtain ⟨hcur, hzombie⟩ := exit_alone h.shape hnot status cpu
      obtain ⟨more, hmore, hbad⟩ := exists_creations_to_current t.currentProcess
        (t := (processExit t status cpu).1) (by rw [hcur]; exact h.shape.current_lt_max)
        (by rw [hcur, hzombie]; rfl) (fun j hj => by omega)
      exact hbad (hsafe more hmore)

/-- The kernel process exits right after `process_init`: it runs on as a zombie, and the next
creation gets its slot. -/
theorem kernel_recycled_after_exit :
    let t := run step (processInit (.boot 0x200000)) [.exit 0 ⟨0x9000, 0x1000, 0x202⟩]
    (t.proc t.currentProcess).state = .zombie ∧
      (processCreate t [0x70] 0x100000).2 = t.currentProcess ∧
      ¬ Spares t := by
  have hret : (processCreate
      (run step (processInit (.boot 0x200000)) [.exit 0 ⟨0x9000, 0x1000, 0x202⟩])
      [0x70] 0x100000).2 = 0 := by decide +kernel
  exact ⟨by decide +kernel, hret, fun hspares => hspares _ _ hret⟩

end MinimalistOS
