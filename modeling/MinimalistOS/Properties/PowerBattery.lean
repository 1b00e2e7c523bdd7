import MinimalistOS.Properties.Power

/-!
# A low battery and the consumption

* `Power.Below` — the same power state, with no more than the frequency
* `Power.Below.step` — every call keeps it, and is answered alike
* `Power.Below.consumption` — the consumption is no more either
* `low_battery_saves_iff` — exactly when the event for a low battery saves

The event throttles to half of the nominal 1000 MHz, whatever the frequency is.
-/

namespace MinimalistOS

open Infra

/-- What `power_update_statistics` computes. -/
def Power.consumption (s : Power) : Word := (powerUpdateStatistics s).powerStats.powerConsumption

/--
Handling `POWER_EVENT_BATTERY_LOW` raises neither the frequency nor the consumption that is computed
next, whatever is called in between.
-/
structure Power.LowBatterySaves (s : Power) : Prop where
  frequency : (powerHandleEvent s powerEventBatteryLow).1.cpuFrequency ≤ s.cpuFrequency
  consumption : ∀ calls,
    (run Power.step (powerHandleEvent s powerEventBatteryLow).1 calls).consumption
      ≤ (run Power.step s calls).consumption

/-- The same power state, with no more than the frequency. -/
structure Power.Below (s t : Power) : Prop where
  state : s.currentPowerState = t.currentPowerState
  frequency : s.cpuFrequency ≤ t.cpuFrequency

namespace Power

/-! ## What the other calls leave alone -/

@[simp] theorem discharge_currentPowerState (s : Power) :
    s.discharge.currentPowerState = s.currentPowerState := by
  unfold discharge
  split_ifs <;> rfl

@[simp] theorem discharge_cpuFrequency (s : Power) :
    s.discharge.cpuFrequency = s.cpuFrequency := by
  unfold discharge
  split_ifs <;> rfl

@[simp] theorem charge_currentPowerState (s : Power) :
    s.charge.currentPowerState = s.currentPowerState := by
  unfold charge
  split_ifs <;> rfl

@[simp] theorem charge_cpuFrequency (s : Power) : s.charge.cpuFrequency = s.cpuFrequency := by
  unfold charge
  split_ifs <;> rfl

@[simp] theorem countTime_currentPowerState (s : Power) :
    s.countTime.currentPowerState = s.currentPowerState := by
  unfold countTime
  split_ifs <;> rfl

@[simp] theorem countTime_cpuFrequency (s : Power) :
    s.countTime.cpuFrequency = s.cpuFrequency := by
  unfold countTime
  split_ifs <;> rfl

@[simp] theorem fluctuate_currentPowerState (s : Power) :
    s.fluctuate.currentPowerState = s.currentPowerState := by
  unfold fluctuate
  split <;> rfl

@[simp] theorem fluctuate_cpuFrequency (s : Power) :
    s.fluctuate.cpuFrequency = s.cpuFrequency := by
  unfold fluctuate
  split <;> rfl

theorem updateStatistics_currentPowerState (s : Power) :
    (powerUpdateStatistics s).currentPowerState = s.currentPowerState := by
  simp [powerUpdateStatistics, consume, adjustFan]

theorem updateStatistics_cpuFrequency (s : Power) :
    (powerUpdateStatistics s).cpuFrequency = s.cpuFrequency := by
  simp [powerUpdateStatistics, consume, adjustFan]

/-- The consumption is a function of the power state and the frequency. -/
theorem consumption_eq (s : Power) :
    s.consumption = if s.currentPowerState = powerStateOn then 3000 + s.cpuFrequency / 100 * 200
      else if s.currentPowerState = powerStateSleep then 500 else 100 := by
  simp [consumption, powerUpdateStatistics, consume, adjustFan]

/-- A frequency in range does not wrap the consumption. -/
theorem toNat_consumption {frequency : Word} (h : frequency.toNat ≤ 2000) :
    (3000 + frequency / 100 * 200).toNat = 3000 + frequency.toNat / 100 * 200 := by
  have hdiv : (frequency / 100).toNat = frequency.toNat / 100 := BitVec.toNat_udiv
  have htwenty : frequency.toNat / 100 ≤ 20 := by omega
  have hmul : (frequency / 100 * 200).toNat = frequency.toNat / 100 * 200 := by
    rw [BitVec.toNat_mul, hdiv]
    exact Nat.mod_eq_of_lt (lt_of_le_of_lt (Nat.mul_le_mul_right 200 htwenty) (by decide))
  rw [BitVec.toNat_add, hmul]
  exact Nat.mod_eq_of_lt (by simp; omega)

/-! ## The event -/

/-- A low battery sets the frequency to 500. -/
theorem cpuFrequency_batteryLow (s : Power) :
    (powerHandleEvent s powerEventBatteryLow).1.cpuFrequency = 500 := by
  have hthrottle : (powerThrottleCpu s 50).1.cpuFrequency = 500 := by
    simp [powerThrottleCpu, powerSetCpuFrequency]
  rw [powerHandleEvent, if_neg (by decide), if_neg (by decide), if_pos rfl]
  exact hthrottle

theorem currentPowerState_batteryLow (s : Power) :
    (powerHandleEvent s powerEventBatteryLow).1.currentPowerState = s.currentPowerState := by
  rw [powerHandleEvent, if_neg (by decide), if_neg (by decide), if_pos rfl]
  exact throttleCpu_currentPowerState s 50

/-! ## Two systems, one below the other -/

namespace Below

variable {s t : Power}

theorem setState (h : s.Below t) (state : Word) :
    (powerSetState s state).1.Below (powerSetState t state).1 ∧
      (powerSetState s state).2 = (powerSetState t state).2 := by
  unfold powerSetState
  split
  · exact ⟨h, rfl⟩
  · refine ⟨?_, rfl⟩
    -- a state sets the frequency, or leaves it
    simp only [Power.enter]
    split_ifs
    · exact ⟨rfl, BitVec.le_refl _⟩
    · exact ⟨rfl, BitVec.le_refl _⟩
    · exact ⟨rfl, h.frequency⟩
    · exact ⟨rfl, h.frequency⟩

theorem requestSleep (h : s.Below t) (sleepState : Word) :
    (powerRequestSleep s sleepState).1.Below (powerRequestSleep t sleepState).1 ∧
      (powerRequestSleep s sleepState).2 = (powerRequestSleep t sleepState).2 := by
  unfold powerRequestSleep
  split_ifs
  · exact ⟨h, rfl⟩
  · exact h.setState powerStateOn
  · exact h.setState powerStateSleep
  · exact h.setState powerStateHibernate
  · exact h.setState powerStateOff
  · exact ⟨h, rfl⟩

theorem requestWake (h : s.Below t) :
    (powerRequestWake s).1.Below (powerRequestWake t).1 ∧
      (powerRequestWake s).2 = (powerRequestWake t).2 := by
  unfold powerRequestWake
  rw [h.state]
  split
  · exact h.setState powerStateOn
  · exact ⟨h, rfl⟩

theorem setCpuFrequency (h : s.Below t) (frequencyMhz : Word) :
    (powerSetCpuFrequency s frequencyMhz).1.Below (powerSetCpuFrequency t frequencyMhz).1 ∧
      (powerSetCpuFrequency s frequencyMhz).2 = (powerSetCpuFrequency t frequencyMhz).2 := by
  unfold powerSetCpuFrequency
  split
  · exact ⟨h, rfl⟩
  · exact ⟨⟨h.state, BitVec.le_refl _⟩, rfl⟩

theorem throttleCpu (h : s.Below t) (percentage : Word) :
    (powerThrottleCpu s percentage).1.Below (powerThrottleCpu t percentage).1 ∧
      (powerThrottleCpu s percentage).2 = (powerThrottleCpu t percentage).2 := by
  unfold powerThrottleCpu
  split
  · exact ⟨h, rfl⟩
  · exact h.setCpuFrequency _

theorem setFanSpeed (h : s.Below t) (speedRpm : Word) :
    (powerSetFanSpeed s speedRpm).1.Below (powerSetFanSpeed t speedRpm).1 ∧
      (powerSetFanSpeed s speedRpm).2 = (powerSetFanSpeed t speedRpm).2 := by
  unfold powerSetFanSpeed
  split
  · exact ⟨h, rfl⟩
  · exact ⟨⟨h.state, h.frequency⟩, rfl⟩

theorem handleEvent (h : s.Below t) (event : Word) :
    (powerHandleEvent s event).1.Below (powerHandleEvent t event).1 ∧
      (powerHandleEvent s event).2 = (powerHandleEvent t event).2 := by
  unfold powerHandleEvent
  split_ifs
  · exact h.requestSleep 3
  · exact h.requestWake
  · exact ⟨(h.throttleCpu 50).1, rfl⟩
  · exact h.requestSleep 4
  · exact ⟨h, rfl⟩

theorem getBatteryStatus (h : s.Below t) (status : Bool) :
    (powerGetBatteryStatus s status).1.Below (powerGetBatteryStatus t status).1 ∧
      statusCode (powerGetBatteryStatus s status).2
        = statusCode (powerGetBatteryStatus t status).2 := by
  cases status with
  | false => exact ⟨h, rfl⟩
  | true =>
    refine ⟨⟨?_, ?_⟩, rfl⟩
    · simpa [powerGetBatteryStatus] using h.state
    · simpa [powerGetBatteryStatus] using h.frequency

theorem updateStatistics (h : s.Below t) :
    (powerUpdateStatistics s).Below (powerUpdateStatistics t) where
  state := by
    rw [updateStatistics_currentPowerState, updateStatistics_currentPowerState, h.state]
  frequency := by
    rw [updateStatistics_cpuFrequency, updateStatistics_cpuFrequency]
    exact h.frequency

theorem getStatistics (h : s.Below t) (stats : Bool) :
    (powerGetStatistics s stats).1.Below (powerGetStatistics t stats).1 ∧
      statusCode (powerGetStatistics s stats).2 = statusCode (powerGetStatistics t stats).2 := by
  cases stats with
  | false => exact ⟨h, rfl⟩
  | true => exact ⟨h.updateStatistics, rfl⟩

/-- Every call keeps the one below the other, and is answered alike. -/
theorem step (h : s.Below t) (call : PowerCall) :
    (s.step call).1.Below (t.step call).1 ∧ (s.step call).2 = (t.step call).2 := by
  cases call with
  | setState state => exact (h.setState state).imp_right (congrArg some)
  | requestSleep sleepState => exact (h.requestSleep sleepState).imp_right (congrArg some)
  | requestWake => exact h.requestWake.imp_right (congrArg some)
  | handleEvent event => exact (h.handleEvent event).imp_right (congrArg some)
  | getBatteryStatus status => exact (h.getBatteryStatus status).imp_right (congrArg some)
  | getStatistics stats => exact (h.getStatistics stats).imp_right (congrArg some)
  | updateStatistics => exact ⟨h.updateStatistics, rfl⟩
  | resetStatistics => exact ⟨⟨h.state, h.frequency⟩, rfl⟩
  | setCpuFrequency frequencyMhz => exact (h.setCpuFrequency frequencyMhz).imp_right (congrArg some)
  | throttleCpu percentage => exact (h.throttleCpu percentage).imp_right (congrArg some)
  | setFanSpeed speedRpm => exact (h.setFanSpeed speedRpm).imp_right (congrArg some)

/-- So does every run. -/
theorem run (h : s.Below t) (calls : List PowerCall) :
    (run Power.step s calls).Below (run Power.step t calls) :=
  (simulation Power.step (Q := fun _ => True) (fun _ _ call hbelow _ => hbelow.step call) h
    fun _ _ => trivial).1

/-- The one below consumes no more. -/
theorem consumption (h : s.Below t) (ht : t.Sound) : s.consumption ≤ t.consumption := by
  have hmax := ht.frequency.2
  have hle := h.frequency
  rw [consumption_eq, consumption_eq, h.state]
  split_ifs
  · rw [BitVec.le_def] at hle ⊢
    rw [toNat_consumption (hle.trans hmax), toNat_consumption hmax]
    omega
  · exact BitVec.le_refl _
  · exact BitVec.le_refl _

end Below

/-! ## Runs -/

/--
**A low battery saves exactly when the frequency is at least 500 MHz.**

In every state after `power_init`, whatever the calls: the event for a low battery raises neither
the frequency nor any consumption computed later, if and only if the frequency is not below the one
that the event sets.
-/
theorem low_battery_saves_iff (calls : List PowerCall) :
    (run Power.step (powerInit bootPower) calls).LowBatterySaves ↔
      500 ≤ (run Power.step (powerInit bootPower) calls).cpuFrequency := by
  have hsound : (Infra.run Power.step (powerInit bootPower) calls).Sound :=
    inv_run_of_forall Power.step (fun _ call h => h.step call) calls sound_powerInit
  generalize Infra.run Power.step (powerInit bootPower) calls = s at hsound ⊢
  constructor
  · intro hsaves
    have hle := hsaves.frequency
    rwa [cpuFrequency_batteryLow] at hle
  · intro hfrequency
    have hbelow : (powerHandleEvent s powerEventBatteryLow).1.Below s :=
      { state := currentPowerState_batteryLow s
        frequency := by rwa [cpuFrequency_batteryLow] }
    refine ⟨hbelow.frequency, fun later => (hbelow.run later).consumption ?_⟩
    exact inv_run_of_forall Power.step (fun _ call h => h.step call) later hsound

/-- At 200 MHz the event for a low battery raises the frequency to 500 MHz, and the consumption
from 3400 to 4000. -/
theorem low_battery_raises :
    (run Power.step (powerInit bootPower) [.setCpuFrequency 200]).consumption = 3400 ∧
    (powerHandleEvent (run Power.step (powerInit bootPower) [.setCpuFrequency 200])
      powerEventBatteryLow).1.consumption = 4000 ∧
    ¬ (run Power.step (powerInit bootPower) [.setCpuFrequency 200]).LowBatterySaves := by
  refine ⟨by decide, by decide, fun hsaves => ?_⟩
  have hle := hsaves.consumption []
  revert hle
  decide

end Power

end MinimalistOS
