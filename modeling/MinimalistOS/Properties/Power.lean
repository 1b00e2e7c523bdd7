import MinimalistOS.Kernel.Power

/-!
# Power management

* `Power.Sound` — the ranges, and the two copies of each quantity
* `Power.Sound.step` — every call keeps them, and a call that fails does nothing
* `power_sound` — every state after `power_init`
* `power_off_kept_iff` — exactly which events leave the system off

`power_request_wake` asks for the present state. A sleep event does not: it goes through
`power_request_sleep` to `power_set_state`, which enters every state from every other.
-/

namespace MinimalistOS

open Infra

/-- The ranges of the quantities, and their copies in `power_stats`. -/
structure Power.Sound (s : Power) : Prop where
  state : s.currentPowerState ∈ [powerStateOn, powerStateSleep, powerStateHibernate, powerStateOff]
  frequency : 100 ≤ s.cpuFrequency.toNat ∧ s.cpuFrequency.toNat ≤ 2000
  fan : 500 ≤ s.fanSpeed.toNat ∧ s.fanSpeed.toNat ≤ 5000
  thermal : 30 ≤ s.thermalState.toNat ∧ s.thermalState.toNat ≤ 80
  battery : s.batteryStatus.percentage.toNat ≤ 100
  frequency_eq : s.powerStats.cpuFrequency = s.cpuFrequency
  fan_eq : s.powerStats.fanSpeed = s.fanSpeed
  thermal_eq : s.powerStats.thermalState = s.thermalState

namespace Power

theorem sound_powerInit : (powerInit bootPower).Sound where
  state := by simp [powerInit]
  frequency := by decide
  fan := by decide
  thermal := by decide
  battery := by decide
  frequency_eq := rfl
  fan_eq := rfl
  thermal_eq := rfl

/-! ## Power states -/

@[simp] theorem enter_powerStats (s : Power) (state : Word) :
    (s.enter state).powerStats = s.powerStats := by
  simp only [enter, apply_ite powerStats, ite_self]

@[simp] theorem enter_thermalState (s : Power) (state : Word) :
    (s.enter state).thermalState = s.thermalState := by
  simp only [enter, apply_ite thermalState, ite_self]

@[simp] theorem enter_batteryStatus (s : Power) (state : Word) :
    (s.enter state).batteryStatus = s.batteryStatus := by
  simp only [enter, apply_ite batteryStatus, ite_self]

/-- A state comes with its frequency and fan speed, or with those of the one before. -/
theorem enter_cases (s : Power) (state : Word) :
    ((s.enter state).cpuFrequency, (s.enter state).fanSpeed)
      ∈ [(1000, 2000), (100, 1000), (s.cpuFrequency, s.fanSpeed)] ∧
    (s.enter state).currentPowerState
      ∈ [powerStateOn, powerStateSleep, powerStateHibernate, powerStateOff] := by
  unfold enter
  split
  · simp
  · split
    · simp
    · split
      · simp
      · simp

theorem Sound.setState {s : Power} (h : s.Sound) (state : Word) :
    (powerSetState s state).1.Sound := by
  unfold powerSetState
  split
  · exact h
  · obtain ⟨hspeeds, hstate⟩ := s.enter_cases state
    have hranges : (100 ≤ (s.enter state).cpuFrequency.toNat ∧
        (s.enter state).cpuFrequency.toNat ≤ 2000) ∧
        500 ≤ (s.enter state).fanSpeed.toNat ∧ (s.enter state).fanSpeed.toNat ≤ 5000 := by
      simp only [List.mem_cons, List.not_mem_nil, or_false, Prod.mk.injEq] at hspeeds
      rcases hspeeds with ⟨hf, hs⟩ | ⟨hf, hs⟩ | ⟨hf, hs⟩
      · simp [hf, hs]
      · simp [hf, hs]
      · rw [hf, hs]
        exact ⟨h.frequency, h.fan⟩
    refine ⟨hstate, hranges.1, hranges.2, ?_, ?_, rfl, rfl, ?_⟩
    · simpa using h.thermal
    · simpa using h.battery
    · simpa using h.thermal_eq

theorem Sound.requestSleep {s : Power} (h : s.Sound) (sleepState : Word) :
    (powerRequestSleep s sleepState).1.Sound := by
  unfold powerRequestSleep
  split_ifs
  · exact h
  · exact h.setState powerStateOn
  · exact h.setState powerStateSleep
  · exact h.setState powerStateHibernate
  · exact h.setState powerStateOff
  · exact h

theorem Sound.requestWake {s : Power} (h : s.Sound) : (powerRequestWake s).1.Sound := by
  unfold powerRequestWake
  split
  · exact h.setState powerStateOn
  · exact h

/-! ## Frequency and fan -/

theorem Sound.setCpuFrequency {s : Power} (h : s.Sound) (frequencyMhz : Word) :
    (powerSetCpuFrequency s frequencyMhz).1.Sound := by
  unfold powerSetCpuFrequency
  split
  · exact h
  · next hrange =>
    simp only [not_or, BitVec.not_lt, BitVec.le_def] at hrange
    exact { h with frequency := hrange, frequency_eq := rfl }

theorem Sound.throttleCpu {s : Power} (h : s.Sound) (percentage : Word) :
    (powerThrottleCpu s percentage).1.Sound := by
  unfold powerThrottleCpu
  split
  · exact h
  · exact h.setCpuFrequency _

theorem Sound.setFanSpeed {s : Power} (h : s.Sound) (speedRpm : Word) :
    (powerSetFanSpeed s speedRpm).1.Sound := by
  unfold powerSetFanSpeed
  split
  · exact h
  · next hrange =>
    simp only [not_or, BitVec.not_lt, BitVec.le_def] at hrange
    exact { h with fan := hrange, fan_eq := rfl }

theorem Sound.handleEvent {s : Power} (h : s.Sound) (event : Word) :
    (powerHandleEvent s event).1.Sound := by
  unfold powerHandleEvent
  split_ifs
  · exact h.requestSleep 3
  · exact h.requestWake
  · exact h.throttleCpu 50
  · exact h.requestSleep 4
  · exact h

/-! ## The battery -/

theorem Sound.discharge {s : Power} (h : s.Sound) : s.discharge.Sound := by
  unfold Power.discharge
  split_ifs
  · refine { h with battery := ?_ }
    have hle := h.battery
    simp only [BatteryStatus.drain]
    split
    · next hpos =>
      simp only [BitVec.lt_def] at hpos
      bv_omega
    · exact hle
  · exact { h with }
  · exact h

theorem Sound.charge {s : Power} (h : s.Sound) : s.charge.Sound := by
  unfold Power.charge
  split_ifs with hcharge
  · refine { h with battery := ?_ }
    have hlt := hcharge.2
    simp only
    bv_omega
  · exact { h with }
  · exact h

theorem Sound.getBatteryStatus {s : Power} (h : s.Sound) (status : Bool) :
    (powerGetBatteryStatus s status).1.Sound := by
  cases status with
  | false => simpa [powerGetBatteryStatus] using h
  | true => simpa [powerGetBatteryStatus] using h.discharge.charge

/-! ## Statistics -/

theorem Sound.countTime {s : Power} (h : s.Sound) : s.countTime.Sound := by
  unfold Power.countTime
  split_ifs
  · exact { h with }
  · exact { h with }
  · exact h

theorem Sound.nextThermalState {s : Power} (h : s.Sound) :
    30 ≤ s.nextThermalState.toNat ∧ s.nextThermalState.toNat ≤ 80 := by
  have hrange := h.thermal
  unfold Power.nextThermalState
  split_ifs
  · bv_omega
  · simp
  · bv_omega
  · simp

theorem Sound.fluctuate {s : Power} (h : s.Sound) : s.fluctuate.Sound := by
  unfold Power.fluctuate
  split
  · exact { h with thermal := h.nextThermalState, thermal_eq := rfl }
  · exact { h with }

theorem Sound.adjustFan {s : Power} (h : s.Sound) : s.adjustFan.Sound := by
  refine { h with fan := ?_, fan_eq := rfl }
  simp only [Power.adjustFan]
  split_ifs <;> simp

theorem Sound.consume {s : Power} (h : s.Sound) : s.consume.Sound :=
  { h with }

theorem Sound.updateStatistics {s : Power} (h : s.Sound) : (powerUpdateStatistics s).Sound :=
  h.countTime.fluctuate.adjustFan.consume

theorem Sound.getStatistics {s : Power} (h : s.Sound) (stats : Bool) :
    (powerGetStatistics s stats).1.Sound := by
  cases stats with
  | false => simpa [powerGetStatistics] using h
  | true => simpa [powerGetStatistics] using h.updateStatistics

theorem Sound.resetStatistics {s : Power} (h : s.Sound) : (powerResetStatistics s).Sound :=
  { h with frequency_eq := rfl, fan_eq := rfl, thermal_eq := rfl }

/-! ## Calls -/

/-- Every call keeps the ranges and the copies. -/
theorem Sound.step {s : Power} (h : s.Sound) (call : PowerCall) : (s.step call).1.Sound := by
  cases call with
  | setState state => exact h.setState state
  | requestSleep sleepState => exact h.requestSleep sleepState
  | requestWake => exact h.requestWake
  | handleEvent event => exact h.handleEvent event
  | getBatteryStatus status => exact h.getBatteryStatus status
  | getStatistics stats => exact h.getStatistics stats
  | updateStatistics => exact h.updateStatistics
  | resetStatistics => exact h.resetStatistics
  | setCpuFrequency frequencyMhz => exact h.setCpuFrequency frequencyMhz
  | throttleCpu percentage => exact h.throttleCpu percentage
  | setFanSpeed speedRpm => exact h.setFanSpeed speedRpm

theorem setState_of_failed {s : Power} {state : Word} (h : (powerSetState s state).2 = -1) :
    (powerSetState s state).1 = s := by
  unfold powerSetState at h ⊢
  split at h
  · rw [if_pos ‹_›]
  · simp at h

theorem requestSleep_of_failed {s : Power} {sleepState : Word}
    (h : (powerRequestSleep s sleepState).2 = -1) : (powerRequestSleep s sleepState).1 = s := by
  unfold powerRequestSleep at h ⊢
  split_ifs at h ⊢
  · rfl
  · exact setState_of_failed h
  · exact setState_of_failed h
  · exact setState_of_failed h
  · exact setState_of_failed h
  · rfl

theorem requestWake_of_failed {s : Power} (h : (powerRequestWake s).2 = -1) :
    (powerRequestWake s).1 = s := by
  unfold powerRequestWake at h ⊢
  split_ifs at h ⊢
  · exact setState_of_failed h
  · rfl

theorem setCpuFrequency_of_failed {s : Power} {frequencyMhz : Word}
    (h : (powerSetCpuFrequency s frequencyMhz).2 = -1) :
    (powerSetCpuFrequency s frequencyMhz).1 = s := by
  unfold powerSetCpuFrequency at h ⊢
  split at h
  · rw [if_pos ‹_›]
  · simp at h

theorem throttleCpu_of_failed {s : Power} {percentage : Word}
    (h : (powerThrottleCpu s percentage).2 = -1) : (powerThrottleCpu s percentage).1 = s := by
  unfold powerThrottleCpu at h ⊢
  split_ifs at h ⊢
  · rfl
  · exact setCpuFrequency_of_failed h

theorem setFanSpeed_of_failed {s : Power} {speedRpm : Word}
    (h : (powerSetFanSpeed s speedRpm).2 = -1) : (powerSetFanSpeed s speedRpm).1 = s := by
  unfold powerSetFanSpeed at h ⊢
  split at h
  · rw [if_pos ‹_›]
  · simp at h

theorem handleEvent_of_failed {s : Power} {event : Word} (h : (powerHandleEvent s event).2 = -1) :
    (powerHandleEvent s event).1 = s := by
  unfold powerHandleEvent at h ⊢
  split_ifs at h ⊢
  · exact requestSleep_of_failed h
  · exact requestWake_of_failed h
  · exact requestSleep_of_failed h
  · rfl

/-- A call that fails does nothing, whatever the state. -/
theorem step_of_failed {s : Power} {call : PowerCall} (h : (s.step call).2 = some (-1)) :
    (s.step call).1 = s := by
  cases call with
  | setState state => exact setState_of_failed (by simpa [step] using h)
  | requestSleep sleepState => exact requestSleep_of_failed (by simpa [step] using h)
  | requestWake => exact requestWake_of_failed (by simpa [step] using h)
  | handleEvent event => exact handleEvent_of_failed (by simpa [step] using h)
  | getBatteryStatus status =>
    cases status with
    | false => simp [step, powerGetBatteryStatus]
    | true => simp [step, powerGetBatteryStatus, statusCode] at h
  | getStatistics stats =>
    cases stats with
    | false => simp [step, powerGetStatistics]
    | true => simp [step, powerGetStatistics, statusCode] at h
  | updateStatistics => simp [step] at h
  | resetStatistics => simp [step] at h
  | setCpuFrequency frequencyMhz => exact setCpuFrequency_of_failed (by simpa [step] using h)
  | throttleCpu percentage => exact throttleCpu_of_failed (by simpa [step] using h)
  | setFanSpeed speedRpm => exact setFanSpeed_of_failed (by simpa [step] using h)

/--
**The power manager keeps its quantities in range and in step.**

In every state after `power_init`, whatever the calls: the power state is one of the four,
frequency, fan speed, temperature and charge are in their ranges, the statistics repeat them, and a
call that returns -1 leaves everything as it was, the counters included.
-/
theorem power_sound (calls : List PowerCall) :
    (run Power.step (powerInit bootPower) calls).Sound ∧
    ∀ call, ((run Power.step (powerInit bootPower) calls).step call).2 = some (-1) →
      ((run Power.step (powerInit bootPower) calls).step call).1
        = run Power.step (powerInit bootPower) calls :=
  ⟨inv_run_of_forall Power.step (fun _ call h => h.step call) calls sound_powerInit,
    fun _ h => step_of_failed h⟩

/-- A tenth of the frequency is the least there is: a throttle to less fails. -/
theorem power_sound_throttled :
    (run Power.step (powerInit bootPower) [.throttleCpu 10]).Sound ∧
    ((run Power.step (powerInit bootPower) [.throttleCpu 10]).step (.throttleCpu 9)).1
      = run Power.step (powerInit bootPower) [.throttleCpu 10] :=
  ⟨(power_sound [.throttleCpu 10]).1,
    (power_sound [.throttleCpu 10]).2 (.throttleCpu 9) (by decide)⟩

/-! ## Leaving the off state -/

/-- What reaches a system that is off: an event, or a request to wake. -/
inductive PowerRequest where
  | event (event : Word)
  | wake
  deriving DecidableEq, Repr

def PowerRequest.call : PowerRequest → PowerCall
  | .event e => .handleEvent e
  | .wake => .requestWake

def request (s : Power) (r : PowerRequest) : Power × Option Int := s.step r.call

/-- The events that `power_handle_event` hands to `power_request_sleep`. -/
def PowerRequest.Sleeps (r : PowerRequest) : Prop :=
  r = .event powerEventSleep ∨ r = .event powerEventCritical

instance (r : PowerRequest) : Decidable r.Sleeps := inferInstanceAs (Decidable (_ ∨ _))

@[simp] theorem setCpuFrequency_currentPowerState (s : Power) (frequencyMhz : Word) :
    (powerSetCpuFrequency s frequencyMhz).1.currentPowerState = s.currentPowerState := by
  unfold powerSetCpuFrequency
  split <;> rfl

@[simp] theorem throttleCpu_currentPowerState (s : Power) (percentage : Word) :
    (powerThrottleCpu s percentage).1.currentPowerState = s.currentPowerState := by
  unfold powerThrottleCpu
  split <;> simp

/-- Off, the system refuses to wake. -/
theorem requestWake_of_off {s : Power} (h : s.currentPowerState = powerStateOff) :
    powerRequestWake s = (s, -1) := by
  simp [powerRequestWake, h, powerStateOff, powerStateSleep, powerStateHibernate]

theorem currentPowerState_sleep (s : Power) :
    (powerRequestSleep s 3).1.currentPowerState = powerStateSleep := by
  simp [powerRequestSleep, powerSetState, Power.enter, powerStateSleep, powerStateOn, powerStateOff]

theorem currentPowerState_critical (s : Power) :
    (powerRequestSleep s 4).1.currentPowerState = powerStateHibernate := by
  simp [powerRequestSleep, powerSetState, Power.enter, powerStateHibernate, powerStateSleep,
    powerStateOn, powerStateOff]

/-- A request keeps the system off exactly when it is no sleep and no critical event. -/
theorem off_step_iff {s : Power} (h : s.currentPowerState = powerStateOff) (r : PowerRequest) :
    (s.request r).1.currentPowerState = powerStateOff ↔ ¬ r.Sleeps := by
  cases r with
  | wake => simp [request, PowerRequest.call, PowerRequest.Sleeps, step, requestWake_of_off h, h]
  | event e =>
    simp only [request, PowerRequest.call, PowerRequest.Sleeps, PowerRequest.event.injEq, step,
      powerHandleEvent]
    split_ifs with hsleep hwake hlow hcritical
    · rw [currentPowerState_sleep]
      simp [hsleep, powerStateSleep, powerStateOff]
    · simp [requestWake_of_off h, h, hwake, powerEventWake, powerEventSleep, powerEventCritical]
    · simp [h, hlow, powerEventBatteryLow, powerEventSleep, powerEventCritical]
    · rw [currentPowerState_critical]
      simp [hcritical, powerStateHibernate, powerStateOff]
    · simp [h, hsleep, hcritical]

/--
**Off is left by a sleep or a critical event, and by nothing else.**

From any state in which the system is off, it stays off in every state of a run of events and wake
requests if and only if none of the events is `POWER_EVENT_SLEEP` or `POWER_EVENT_CRITICAL`.
-/
theorem power_off_kept_iff {s : Power} (h : s.currentPowerState = powerStateOff)
    (requests : List PowerRequest) :
    (∀ pre, pre <+: requests → (run request s pre).currentPowerState = powerStateOff) ↔
      ∀ r ∈ requests, ¬ r.Sleeps := by
  have hexact := safe_iff_along request (I := fun s => s.currentPowerState = powerStateOff)
    (S := fun s => s.currentPowerState = powerStateOff) (Q := fun _ => True)
    (P := fun _ r => ¬ r.Sleeps) (fun _ hs => hs)
    (fun _ r _ hs hr => (off_step_iff hs r).mpr hr)
    (fun _ r _ hs hr hoff => hr ((off_step_iff hs r).mp hoff)) h
    (fun r (_ : r ∈ requests) => trivial)
  rw [hexact, along_iff_forall]

/-- Off, a low battery and a wake request change nothing of it. -/
theorem power_off_kept_iff_low_battery :
    (run request (powerSetState (powerInit bootPower) powerStateOff).1
      [.event powerEventBatteryLow, .wake]).currentPowerState = powerStateOff :=
  (power_off_kept_iff (s := (powerSetState (powerInit bootPower) powerStateOff).1) rfl
    [.event powerEventBatteryLow, .wake]).mpr (by decide) _ (List.prefix_rfl)

/-- Off, a sleep event puts the system to sleep, and the wake request after it turns it on. -/
theorem power_off_left_by_sleep :
    (powerSetState (powerInit bootPower) powerStateOff).1.currentPowerState = powerStateOff ∧
    (run request (powerSetState (powerInit bootPower) powerStateOff).1
      [.event powerEventSleep]).currentPowerState ≠ powerStateOff ∧
    (run request (powerSetState (powerInit bootPower) powerStateOff).1
      [.event powerEventSleep, .wake]).currentPowerState = powerStateOn := by
  refine ⟨rfl, ?_, ?_⟩
  · exact ne_of_eq_of_ne (currentPowerState_sleep _) (by decide)
  · decide

end Power

end MinimalistOS
