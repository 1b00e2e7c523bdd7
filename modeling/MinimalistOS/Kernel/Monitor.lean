import MinimalistOS.Infra.Run
import MinimalistOS.Infra.Slots
import MinimalistOS.Infra.Word
import MinimalistOS.Kernel.String

/-!
# `kernel/monitor.c`: the log, the statistics and the timers

The log is a circular array of 256 entries that is written over when it is full. The statistics are
computed when they are asked for, with two divisions whose divisors are variables. The end of the
file is about who calls the monitor: `kmain` (`kernel/kmain.c`) and the `sys_` functions
(`kernel/syscall.c`).
-/

namespace MinimalistOS

open Infra

/-- `LOG_BUFFER_SIZE`. -/
def logBufferSize : Nat := 256

/-- `MAX_TIMERS`. -/
def maxTimers : Nat := 16

/-- `LOG_LEVEL_INFO`. -/
def logLevelInfo : Byte := 1

/-- `LOG_SOURCE_KERNEL`. -/
def logSourceKernel : Byte := 0

/-- `LOG_SOURCE_PROCESS`. -/
def logSourceProcess : Byte := 1

/-- `log_entry_t`. -/
structure LogEntry where
  timestamp : Word
  level : Byte
  source : Byte
  length : BitVec 16
  message : Vector Byte 256
  deriving DecidableEq, Inhabited

/-- `system_stats_t`. -/
structure SystemStats where
  totalProcesses : Word
  runningProcesses : Word
  sleepingProcesses : Word
  totalMemory : Word
  usedMemory : Word
  freeMemory : Word
  totalCpuTime : Word
  idleCpuTime : Word
  systemCallsCount : Word
  interruptsCount : Word
  deriving DecidableEq

/-- `performance_metrics_t`. -/
structure PerformanceMetrics where
  cpuUsagePercent : Word
  memoryUsagePercent : Word
  processCount : Word
  uptimeSeconds : Word
  contextSwitches : Word
  pageFaults : Word
  deriving DecidableEq

/-- `timer_entry_t`. -/
structure TimerEntry where
  name : Vector Byte 32
  startTime : Word
  totalTime : Word
  active : Word
  deriving DecidableEq, Inhabited

/-- The static data of `monitor.c`. -/
structure Monitor where
  logBuffer : Vector LogEntry 256
  logIndex : Word
  logCount : Word
  systemStats : SystemStats
  performanceMetrics : PerformanceMetrics
  timers : Vector TimerEntry 16
  uptimeSeconds : Word
  timestampCounter : Word
  deriving DecidableEq

/-- An entry of zeros. -/
def zeroLogEntry : LogEntry := ⟨0, 0, 0, 0, Vector.replicate 256 0⟩

/-- A timer of zeros. -/
def zeroTimerEntry : TimerEntry := ⟨Vector.replicate 32 0, 0, 0, 0⟩

/-- The static data at boot. -/
def bootMonitor : Monitor where
  logBuffer := Vector.replicate 256 zeroLogEntry
  logIndex := 0
  logCount := 0
  systemStats := ⟨0, 0, 0, 0, 0, 0, 0, 0, 0, 0⟩
  performanceMetrics := ⟨0, 0, 0, 0, 0, 0⟩
  timers := Vector.replicate 16 zeroTimerEntry
  uptimeSeconds := 0
  timestampCounter := 0

/-! ## The log -/

/-- What `monitor_log` makes of the entry at `log_index`. -/
def LogEntry.fill (entry : LogEntry) (timestamp : Word) (level source : Byte)
    (message : CString) : LogEntry :=
  let msgLen := if 255 < message.bytes.length then 255 else message.bytes.length
  { timestamp := timestamp
    level := level
    source := source
    length := BitVec.ofNat 16 msgLen
    message := (strncpy entry.message message.bytes msgLen).setIfInBounds msgLen 0 }

/-- `monitor_log`; a null message is `none`. -/
def monitorLog (s : Monitor) (level source : Byte) (message : Option CString) : Monitor :=
  match message with
  | none => s
  | some message =>
    { s with
      timestampCounter := s.timestampCounter + 1
      logBuffer := modifySlot s.logBuffer s.logIndex.toNat fun entry =>
        entry.fill (s.timestampCounter + 1) level source message
      logIndex := (s.logIndex + 1) % BitVec.ofNat 32 logBufferSize
      logCount := if s.logCount < BitVec.ofNat 32 logBufferSize then s.logCount + 1 else s.logCount
      systemStats := { s.systemStats with
        systemCallsCount := s.systemStats.systemCallsCount + 1 } }

/-- `"Monitoring system initialized"`. -/
def initializedMessage : CString where
  bytes := [0x4D, 0x6F, 0x6E, 0x69, 0x74, 0x6F, 0x72, 0x69, 0x6E, 0x67, 0x20, 0x73, 0x79, 0x73,
    0x74, 0x65, 0x6D, 0x20, 0x69, 0x6E, 0x69, 0x74, 0x69, 0x61, 0x6C, 0x69, 0x7A, 0x65, 0x64]
  nul_free := by simp

/-- What `monitor_init` clears before it logs its first message. -/
def Monitor.clear (s : Monitor) : Monitor :=
  { s with
    logBuffer := Vector.replicate 256 zeroLogEntry
    logIndex := 0
    logCount := 0
    systemStats := ⟨0, 0, 0, 1024 * 1024, 0, 1024 * 1024, 0, 0, 0, 0⟩
    performanceMetrics := ⟨0, 0, 0, 0, 0, 0⟩
    timers := Vector.replicate 16 zeroTimerEntry }

def monitorInit (s : Monitor) : Monitor :=
  monitorLog s.clear logLevelInfo logSourceKernel (some initializedMessage)

/-- `monitor_get_log_entry`: what is left in `*entry`, or `none` for `-1`. `entry` says whether the
pointer is not null. -/
def monitorGetLogEntry (s : Monitor) (index : Word) (entry : Bool) : Option LogEntry :=
  if entry = false ∨ s.logCount ≤ index then none
  else
    let actualIndex := (s.logIndex - s.logCount + index) % BitVec.ofNat 32 logBufferSize
    some (slot s.logBuffer actualIndex.toNat)

/-! ## Statistics -/

/-- A division of the processor: `none` is the exception it raises at a divisor of zero. -/
def divide (a b : Word) : Option Word := if b = 0 then none else some (a / b)

def monitorUpdateStats (s : Monitor) : Option Monitor := do
  let uptimeSeconds := s.uptimeSeconds + 1
  let usedMemory := s.systemStats.totalMemory - s.systemStats.freeMemory
  let totalCpuTime := uptimeSeconds * 100
  let idleCpuTime ← divide totalCpuTime 4
  let cpuUsagePercent ← divide ((totalCpuTime - idleCpuTime) * 100) (totalCpuTime + 1)
  let memoryUsagePercent ← divide (usedMemory * 100) s.systemStats.totalMemory
  let contextSwitches ← divide s.systemStats.systemCallsCount 10
  let pageFaults ← divide s.systemStats.interruptsCount 20
  some { s with
    uptimeSeconds := uptimeSeconds
    systemStats := { s.systemStats with
      totalProcesses := 8
      runningProcesses := 3
      sleepingProcesses := 5
      usedMemory := usedMemory
      totalCpuTime := totalCpuTime
      idleCpuTime := idleCpuTime }
    performanceMetrics :=
      { cpuUsagePercent := cpuUsagePercent
        memoryUsagePercent := memoryUsagePercent
        processCount := 8
        uptimeSeconds := uptimeSeconds
        contextSwitches := contextSwitches
        pageFaults := pageFaults } }

/-- `monitor_get_system_stats`: the state and what is left in `*stats`, nothing for a null pointer.
`none` is a divide exception. -/
def monitorGetSystemStats (s : Monitor) (stats : Bool) : Option (Monitor × Option SystemStats) :=
  if stats = false then some (s, none)
  else (monitorUpdateStats s).map fun s => (s, some s.systemStats)

/-- `monitor_get_performance_metrics`, likewise. -/
def monitorGetPerformanceMetrics (s : Monitor) (metrics : Bool) :
    Option (Monitor × Option PerformanceMetrics) :=
  if metrics = false then some (s, none)
  else (monitorUpdateStats s).map fun s => (s, some s.performanceMetrics)

/-! ## Timers -/

/-- `monitor_start_timer`: the first timer without a name or with this one. -/
def monitorStartTimer (s : Monitor) (name : Option CString) : Monitor :=
  match name with
  | none => s
  | some name =>
    match findSlot s.timers (fun t => slot t.name 0 == 0 ||
        strcmp t.name.toList name.bytes == 0) 0 maxTimers with
    | none => s
    | some i =>
      { s with
        timers := modifySlot s.timers i fun t =>
          { t with
            name := (strncpy t.name name.bytes 31).setIfInBounds 31 0
            startTime := s.timestampCounter
            active := 1 } }

/-- `monitor_end_timer`: the first timer that runs under this name. -/
def monitorEndTimer (s : Monitor) (name : Option CString) : Monitor :=
  match name with
  | none => s
  | some name =>
    match findSlot s.timers (fun t => t.active != 0 &&
        strcmp t.name.toList name.bytes == 0) 0 maxTimers with
    | none => s
    | some i =>
      { s with
        timers := modifySlot s.timers i fun t =>
          { t with
            totalTime := t.totalTime + (s.timestampCounter - t.startTime)
            active := 0 } }

def monitorGetTimerValue (s : Monitor) (name : Option CString) : Word :=
  match name with
  | none => 0
  | some name =>
    match findSlot s.timers (fun t => strcmp t.name.toList name.bytes == 0) 0 maxTimers with
    | none => 0
    | some i => (slot s.timers i).totalTime

/-! ## Boot -/

/-- The functions that set up a part of the kernel: those `kmain` calls, and `monitor_init`. -/
inductive KernelInit where
  | logInit
  | idtInit
  | memoryInit
  | pagingInit
  | vgaInit
  | serialInit
  | processInit
  | timerInit
  | fsInit
  | ramfsMount
  | syscallInit
  | keyboardInit
  | enableIrq
  | powerInit
  | programLoaderInit
  | vgaClear
  | shellInit
  | monitorInit
  deriving DecidableEq, Repr

/-- The initialisation sequence of `kmain`. -/
def kmainInit : List KernelInit :=
  [.logInit, .idtInit, .memoryInit, .pagingInit, .vgaInit, .serialInit, .processInit, .timerInit,
    .fsInit, .ramfsMount, .syscallInit, .keyboardInit, .enableIrq, .powerInit, .programLoaderInit,
    .vgaClear, .shellInit]

/-- What an initialisation does to the monitor. -/
def Monitor.setUp (s : Monitor) : KernelInit → Monitor
  | .monitorInit => monitorInit s
  | _ => s

/-- The monitor after an initialisation sequence. -/
def Monitor.boot (calls : List KernelInit) : Monitor := calls.foldl Monitor.setUp bootMonitor

/-! ## System calls -/

/-- The `sys_` functions of `syscall.c` that do not reach the monitor. -/
inductive OtherSys where
  | exit | write | read | fork | wait | exec | getpid | yield
  | open | close | seek | stat
  | ipcSend | ipcReceive
  | vmAlloc | vmFree | vmMap
  | powerState | getBatteryInfo | getPowerStats
  | networkSend | networkReceive
  | deviceOpen | deviceClose | deviceRead | deviceWrite | deviceIoctl
  | getuid | getgid | setuid | setgid | chmod | chown
  deriving DecidableEq, Repr

/-- The `sys_` functions of `syscall.c`. -/
inductive SysCall where
  | log (level : Byte) (message : Option CString)
  | getStats (type : Word) (buffer : Bool)
  | dumpLogs
  | other (function : OtherSys)
  deriving DecidableEq

/-- `sys_get_stats`, as far as the monitor is concerned. -/
def sysGetStats (s : Monitor) (type : Word) (buffer : Bool) : Option Monitor :=
  if type = 0 then (monitorGetSystemStats s buffer).map Prod.fst
  else if type = 1 then (monitorGetPerformanceMetrics s buffer).map Prod.fst
  else some s

/-- How a system call ends. -/
inductive SysOutcome where
  | returned
  | divideError
  deriving DecidableEq, Repr

/-- One system call. `monitor_dump_logs` only reads. -/
def Monitor.sysStep (s : Monitor) : SysCall → Monitor × SysOutcome
  | .log level message => (monitorLog s level logSourceProcess message, .returned)
  | .getStats type buffer =>
    match sysGetStats s type buffer with
    | some s => (s, .returned)
    | none => (s, .divideError)
  | .dumpLogs => (s, .returned)
  | .other _ => (s, .returned)

end MinimalistOS
