import MinimalistOS.Infra.Run
import MinimalistOS.Infra.Word

/-!
# `kernel/power.c`: power management

The power state, the battery and a few quantities that are kept twice: as a variable of their own
and as a field of `power_stats`. The battery and the temperature are simulated, with a counter
each that lets every hundredth call count.
-/

namespace MinimalistOS

open Infra

/-- `POWER_STATE_ON`. -/
def powerStateOn : Word := 0

/-- `POWER_STATE_SLEEP`. -/
def powerStateSleep : Word := 1

/-- `POWER_STATE_HIBERNATE`. -/
def powerStateHibernate : Word := 2

/-- `POWER_STATE_OFF`. -/
def powerStateOff : Word := 3

/-- `POWER_EVENT_SLEEP`. -/
def powerEventSleep : Word := 1

/-- `POWER_EVENT_WAKE`. -/
def powerEventWake : Word := 2

/-- `POWER_EVENT_BATTERY_LOW`. -/
def powerEventBatteryLow : Word := 3

/-- `POWER_EVENT_CRITICAL`. -/
def powerEventCritical : Word := 4

/-- `battery_status_t`. -/
structure BatteryStatus where
  present : Word
  charging : Word
  percentage : Word
  remainingTime : Word
  voltage : Word
  current : Word
  deriving DecidableEq

/-- `power_stats_t`. -/
structure PowerStats where
  uptimeSeconds : Word
  sleepTimeSeconds : Word
  powerConsumption : Word
  thermalState : Word
  cpuFrequency : Word
  fanSpeed : Word
  deriving DecidableEq

/-- The static data of `power.c`, with the counters that are static in its functions. -/
structure Power where
  currentPowerState : Word
  batteryStatus : BatteryStatus
  powerStats : PowerStats
  cpuFrequency : Word
  thermalState : Word
  fanSpeed : Word
  dischargeCounter : Word
  chargeCounter : Word
  thermalCounter : Word
  deriving DecidableEq

/-- The static data before `power_init`. -/
def bootPower : Power where
  currentPowerState := powerStateOn
  batteryStatus := ⟨0, 0, 0, 0, 0, 0⟩
  powerStats := ⟨0, 0, 0, 0, 0, 0⟩
  cpuFrequency := 1000
  thermalState := 45
  fanSpeed := 2000
  dischargeCounter := 0
  chargeCounter := 0
  thermalCounter := 0

def powerInit (s : Power) : Power :=
  { s with
    currentPowerState := powerStateOn
    batteryStatus :=
      { present := 1
        charging := 0
        percentage := 75
        remainingTime := 180
        voltage := 3700
        current := 500 }
    powerStats :=
      { uptimeSeconds := 0
        sleepTimeSeconds := 0
        powerConsumption := 5000
        thermalState := s.thermalState
        cpuFrequency := s.cpuFrequency
        fanSpeed := s.fanSpeed } }

/-! ## Power states -/

/-- The `switch` of `power_set_state`. -/
def Power.enter (s : Power) (state : Word) : Power :=
  if state = powerStateOn then
    { s with currentPowerState := powerStateOn, cpuFrequency := 1000, fanSpeed := 2000 }
  else if state = powerStateSleep then
    { s with currentPowerState := powerStateSleep, cpuFrequency := 100, fanSpeed := 1000 }
  else if state = powerStateHibernate then { s with currentPowerState := powerStateHibernate }
  else { s with currentPowerState := powerStateOff }

def powerSetState (s : Power) (state : Word) : Power × Int :=
  if powerStateOff < state then (s, -1)
  else
    let s := s.enter state
    ({ s with
      powerStats := { s.powerStats with cpuFrequency := s.cpuFrequency, fanSpeed := s.fanSpeed } },
      0)

/-- `power_request_sleep`; the ACPI states are `S0`, `S1`, `S3`, `S4` and `S5`. -/
def powerRequestSleep (s : Power) (sleepState : Word) : Power × Int :=
  if 5 < sleepState then (s, -1)
  else if sleepState = 0 then powerSetState s powerStateOn
  else if sleepState = 1 ∨ sleepState = 3 then powerSetState s powerStateSleep
  else if sleepState = 4 then powerSetState s powerStateHibernate
  else if sleepState = 5 then powerSetState s powerStateOff
  else (s, -1)

def powerRequestWake (s : Power) : Power × Int :=
  if s.currentPowerState = powerStateSleep ∨ s.currentPowerState = powerStateHibernate then
    powerSetState s powerStateOn
  else (s, -1)

/-! ## Frequency and fan -/

def powerSetCpuFrequency (s : Power) (frequencyMhz : Word) : Power × Int :=
  if frequencyMhz < 100 ∨ 2000 < frequencyMhz then (s, -1)
  else
    ({ s with
      cpuFrequency := frequencyMhz
      powerStats := { s.powerStats with cpuFrequency := frequencyMhz } }, 0)

def powerThrottleCpu (s : Power) (percentage : Word) : Power × Int :=
  if 100 < percentage then (s, -1)
  else powerSetCpuFrequency s (1000 * percentage / 100)

def powerSetFanSpeed (s : Power) (speedRpm : Word) : Power × Int :=
  if speedRpm < 500 ∨ 5000 < speedRpm then (s, -1)
  else
    ({ s with
      fanSpeed := speedRpm
      powerStats := { s.powerStats with fanSpeed := speedRpm } }, 0)

/-- `power_handle_event`. What `power_throttle_cpu` returns is not looked at. -/
def powerHandleEvent (s : Power) (event : Word) : Power × Int :=
  if event = powerEventSleep then powerRequestSleep s 3
  else if event = powerEventWake then powerRequestWake s
  else if event = powerEventBatteryLow then ((powerThrottleCpu s 50).1, 0)
  else if event = powerEventCritical then powerRequestSleep s 4
  else (s, -1)

/-! ## The battery -/

/-- A hundredth of the battery less. -/
def BatteryStatus.drain (b : BatteryStatus) : BatteryStatus :=
  if 0 < b.percentage then
    { b with
      percentage := b.percentage - 1
      remainingTime := if 0 < b.remainingTime then b.remainingTime - 1 else b.remainingTime }
  else b

/-- "Simulate battery discharge". -/
def Power.discharge (s : Power) : Power :=
  if s.batteryStatus.present ≠ 0 ∧ s.batteryStatus.charging = 0 then
    if 100 ≤ s.dischargeCounter + 1 then
      { s with batteryStatus := s.batteryStatus.drain, dischargeCounter := 0 }
    else { s with dischargeCounter := s.dischargeCounter + 1 }
  else s

/-- "Simulate charging". -/
def Power.charge (s : Power) : Power :=
  if s.batteryStatus.charging ≠ 0 ∧ s.batteryStatus.percentage < 100 then
    if 50 ≤ s.chargeCounter + 1 then
      { s with
        batteryStatus := { s.batteryStatus with
          percentage := s.batteryStatus.percentage + 1
          remainingTime := 240 }
        chargeCounter := 0 }
    else { s with chargeCounter := s.chargeCounter + 1 }
  else s

/-- `power_get_battery_status`: what is left in `*status`, or `none` for `-1`. `status` says whether
the pointer is not null. -/
def powerGetBatteryStatus (s : Power) (status : Bool) : Power × Option BatteryStatus :=
  if status = false then (s, none)
  else (s.discharge.charge, some s.discharge.charge.batteryStatus)

/-! ## Statistics -/

/-- The time in the present state. -/
def Power.countTime (s : Power) : Power :=
  if s.currentPowerState = powerStateOn then
    { s with powerStats := { s.powerStats with uptimeSeconds := s.powerStats.uptimeSeconds + 1 } }
  else if s.currentPowerState = powerStateSleep then
    { s with
      powerStats := { s.powerStats with sleepTimeSeconds := s.powerStats.sleepTimeSeconds + 1 } }
  else s

/-- "Temperature fluctuates based on CPU load". -/
def Power.nextThermalState (s : Power) : Word :=
  if 800 < s.cpuFrequency then if s.thermalState < 80 then s.thermalState + 1 else 80
  else if 30 < s.thermalState then s.thermalState - 1 else 30

/-- "Simulate thermal changes". -/
def Power.fluctuate (s : Power) : Power :=
  if 100 ≤ s.thermalCounter + 1 then
    { s with
      thermalState := s.nextThermalState
      powerStats := { s.powerStats with thermalState := s.nextThermalState }
      thermalCounter := 0 }
  else { s with thermalCounter := s.thermalCounter + 1 }

/-- "Adjust fan speed based on temperature". -/
def Power.adjustFan (s : Power) : Power :=
  let fanSpeed : Word := if 60 < s.thermalState then 3000 else if 40 < s.thermalState then 2000
    else 1000
  { s with fanSpeed := fanSpeed, powerStats := { s.powerStats with fanSpeed := fanSpeed } }

/-- "Calculate power consumption based on CPU frequency and state". -/
def Power.consume (s : Power) : Power :=
  let powerConsumption : Word :=
    if s.currentPowerState = powerStateOn then 3000 + s.cpuFrequency / 100 * 200
    else if s.currentPowerState = powerStateSleep then 500
    else 100
  { s with powerStats := { s.powerStats with powerConsumption := powerConsumption } }

def powerUpdateStatistics (s : Power) : Power := s.countTime.fluctuate.adjustFan.consume

/-- `power_get_statistics`: what is left in `*stats`, or `none` for `-1`. -/
def powerGetStatistics (s : Power) (stats : Bool) : Power × Option PowerStats :=
  if stats = false then (s, none)
  else (powerUpdateStatistics s, some (powerUpdateStatistics s).powerStats)

def powerResetStatistics (s : Power) : Power :=
  { s with
    powerStats :=
      { uptimeSeconds := 0
        sleepTimeSeconds := 0
        powerConsumption := 0
        thermalState := s.thermalState
        cpuFrequency := s.cpuFrequency
        fanSpeed := s.fanSpeed } }

/-! ## Calls -/

inductive PowerCall where
  | setState (state : Word)
  | requestSleep (sleepState : Word)
  | requestWake
  | handleEvent (event : Word)
  | getBatteryStatus (status : Bool)
  | getStatistics (stats : Bool)
  | updateStatistics
  | resetStatistics
  | setCpuFrequency (frequencyMhz : Word)
  | throttleCpu (percentage : Word)
  | setFanSpeed (speedRpm : Word)
  deriving DecidableEq, Repr

/-- What a function with an output returns. -/
def statusCode {α : Type} : Option α → Int
  | some _ => 0
  | none => -1

/-- One call. The answer is the returned value, `none` for `void`. -/
def Power.step (s : Power) : PowerCall → Power × Option Int
  | .setState state => ((powerSetState s state).1, some (powerSetState s state).2)
  | .requestSleep sleepState =>
    ((powerRequestSleep s sleepState).1, some (powerRequestSleep s sleepState).2)
  | .requestWake => ((powerRequestWake s).1, some (powerRequestWake s).2)
  | .handleEvent event => ((powerHandleEvent s event).1, some (powerHandleEvent s event).2)
  | .getBatteryStatus status =>
    ((powerGetBatteryStatus s status).1, some (statusCode (powerGetBatteryStatus s status).2))
  | .getStatistics stats =>
    ((powerGetStatistics s stats).1, some (statusCode (powerGetStatistics s stats).2))
  | .updateStatistics => (powerUpdateStatistics s, none)
  | .resetStatistics => (powerResetStatistics s, none)
  | .setCpuFrequency frequencyMhz =>
    ((powerSetCpuFrequency s frequencyMhz).1, some (powerSetCpuFrequency s frequencyMhz).2)
  | .throttleCpu percentage =>
    ((powerThrottleCpu s percentage).1, some (powerThrottleCpu s percentage).2)
  | .setFanSpeed speedRpm => ((powerSetFanSpeed s speedRpm).1, some (powerSetFanSpeed s speedRpm).2)

end MinimalistOS
