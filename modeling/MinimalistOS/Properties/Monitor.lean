import MinimalistOS.Infra.Ring
import MinimalistOS.Kernel.Monitor

/-!
# The log and the statistics

* `Monitor.Logs` — the buffer holds the end of the messages logged, with consecutive timestamps
* `monitor_log_keeps_last` — so it does after every sequence of `monitor_log` calls
* `monitorUpdateStats_eq_none` — the statistics divide by zero exactly when there is no memory
* `sys_stats_safe_iff` — what this means for the system calls after an initialisation sequence
* `kmain_stats_safe_iff` — and after that of `kmain`, which does not call `monitor_init`
-/

namespace MinimalistOS

open Infra

/-! ## Entries -/

/-- What is logged. -/
structure LogMessage where
  level : Byte
  source : Byte
  text : CString
  deriving DecidableEq

/-- The entry shows the message: its first 255 bytes, their number, and a terminator. -/
structure LogEntry.Shows (e : LogEntry) (m : LogMessage) : Prop where
  level : e.level = m.level
  source : e.source = m.source
  message : CString.ofArray e.message = m.text.truncate 255
  length : e.length.toNat = (m.text.truncate 255).bytes.length
  terminated : slot e.message e.length.toNat = 0

theorem shows_fill (e : LogEntry) (timestamp : Word) (m : LogMessage) :
    (e.fill timestamp m.level m.source m.text).Shows m := by
  have hlen : (if 255 < m.text.bytes.length then 255 else m.text.bytes.length)
      = min 255 m.text.bytes.length := by
    split <;> omega
  have hlength : (m.text.truncate 255).bytes.length = min 255 m.text.bytes.length := by
    simp [CString.truncate]
  have hcut : m.text.truncate (min 255 m.text.bytes.length) = m.text.truncate 255 := by
    ext1
    simp [CString.truncate, ← List.take_take]
  have hlt : min 255 m.text.bytes.length < 256 := by omega
  have hmod : (BitVec.ofNat 16 (min 255 m.text.bytes.length)).toNat
      = min 255 m.text.bytes.length := by
    rw [BitVec.toNat_ofNat, Nat.mod_eq_of_lt (by omega)]
  unfold LogEntry.fill
  rw [hlen]
  exact
    { level := rfl
      source := rfl
      message := (CString.ofArray_strncpy e.message m.text hlt).trans hcut
      length := hmod.trans hlength.symm
      terminated := by
        simp only [hmod]
        rw [slot_setIfInBounds _ hlt, if_pos rfl] }

/-! ## The buffer -/

/-- An entry shows a message and carries its timestamp. -/
def LogEntry.Records (e : LogEntry) (r : LogMessage × Word) : Prop :=
  e.Shows r.1 ∧ e.timestamp = r.2

/-- The messages with their timestamps, the first one after `t`. -/
def stamped (t : Word) (messages : List LogMessage) : List (LogMessage × Word) :=
  messages.mapIdx fun k m => (m, t + BitVec.ofNat 32 (k + 1))

@[simp] theorem length_stamped (t : Word) (messages : List LogMessage) :
    (stamped t messages).length = messages.length := by
  simp [stamped]

theorem stamped_append (t : Word) (messages : List LogMessage) (m : LogMessage) :
    stamped t (messages ++ [m])
      = stamped t messages ++ [(m, t + BitVec.ofNat 32 (messages.length + 1))] := by
  simp [stamped, List.mapIdx_append]

/-- The messages have been logged since the time `t`. -/
structure Monitor.Logs (s : Monitor) (t : Word) (messages : List LogMessage) : Prop where
  index : s.logIndex.toNat = messages.length % 256
  count : s.logCount.toNat = min messages.length 256
  clock : s.timestampCounter = t + BitVec.ofNat 32 messages.length
  keeps : Ring.Keeps LogEntry.Records s.logBuffer (stamped t messages)

namespace Monitor

theorem logs_clear (s : Monitor) : s.clear.Logs s.timestampCounter [] where
  index := rfl
  count := rfl
  clock := by simp [clear]
  keeps := Ring.keeps_nil _ _

theorem Logs.log {s : Monitor} {t : Word} {messages : List LogMessage} (h : s.Logs t messages)
    (m : LogMessage) :
    (monitorLog s m.level m.source (some m.text)).Logs t (messages ++ [m]) := by
  have hindex := h.index
  have hcount := h.count
  refine ⟨?_, ?_, ?_, ?_⟩
  · have hsize : (BitVec.ofNat 32 logBufferSize).toNat = 256 := rfl
    simp only [monitorLog, List.length_append, List.length_singleton]
    rw [BitVec.toNat_umod, BitVec.toNat_add, hindex, hsize, show (1 : Word).toNat = 1 from rfl]
    omega
  · have hsize : (BitVec.ofNat 32 logBufferSize).toNat = 256 := rfl
    simp only [monitorLog, List.length_append, List.length_singleton]
    by_cases hroom : s.logCount < BitVec.ofNat 32 logBufferSize
    · rw [if_pos hroom]
      rw [BitVec.lt_def, hsize] at hroom
      bv_omega
    · rw [if_neg hroom]
      rw [BitVec.lt_def, hsize] at hroom
      omega
  · simp only [monitorLog, h.clock, List.length_append, List.length_singleton]
    bv_omega
  · simp only [monitorLog, modifySlot]
    rw [stamped_append, hindex, ← length_stamped t messages]
    refine h.keeps.push (by decide) ⟨shows_fill _ _ m, ?_⟩
    rw [length_stamped, BitVec.ofNat_add, ← BitVec.add_assoc, ← h.clock]
    rfl

/-- The entry that `monitor_get_log_entry` reads is that of the `index`-th of the last messages:
the difference of the two counters wraps below zero, and 2^32 is a multiple of 256. -/
theorem Logs.getLogEntry {s : Monitor} {t : Word} {messages : List LogMessage}
    (h : s.Logs t messages) {index : Word} (hindex : index.toNat < min messages.length 256) :
    ∃ e m, monitorGetLogEntry s index true = some e ∧
      (messages.drop (messages.length - 256))[index.toNat]? = some m ∧ e.Shows m ∧
      e.timestamp
        = t + BitVec.ofNat 32 (messages.length - min messages.length 256 + index.toNat + 1) := by
  have hcount := h.count
  have hin : ¬ s.logCount ≤ index := by
    rw [BitVec.le_def]
    omega
  have hsize : (BitVec.ofNat 32 logBufferSize).toNat = 256 := rfl
  have hactual : ((s.logIndex - s.logCount + index) % BitVec.ofNat 32 logBufferSize).toNat
      = (messages.length - min messages.length 256 + index.toNat) % 256 := by
    rw [BitVec.toNat_umod, BitVec.toNat_add, BitVec.toNat_sub, h.index, hcount, hsize]
    omega
  have hk : messages.length - min messages.length 256 + index.toNat < messages.length := by omega
  have hkeeps := h.keeps (messages.length - min messages.length 256 + index.toNat)
    (by rw [length_stamped]; exact hk) (by rw [length_stamped]; omega)
  simp only [stamped, List.getElem_mapIdx] at hkeeps
  refine ⟨_, messages[messages.length - min messages.length 256 + index.toNat], ?_, ?_,
    hkeeps.1, hkeeps.2⟩
  · simp only [monitorGetLogEntry, hin, Bool.true_eq_false, or_self, if_false, hactual]
  · rw [List.getElem?_drop, show messages.length - 256 + index.toNat
      = messages.length - min messages.length 256 + index.toNat by omega,
      List.getElem?_eq_getElem hk]

/-! ## Runs -/

end Monitor

/-- The arguments of a `monitor_log` call. -/
structure LogCall where
  level : Byte
  source : Byte
  message : Option CString
  deriving DecidableEq

/-- What a call logs; a null message logs nothing. -/
def LogCall.logs (call : LogCall) : Option LogMessage :=
  call.message.map fun text => ⟨call.level, call.source, text⟩

def Monitor.logStep (s : Monitor) (call : LogCall) : Monitor × Unit :=
  (monitorLog s call.level call.source call.message, ())

/-- The messages logged since `monitor_init`, whose own is the first. -/
def logged (calls : List LogCall) : List LogMessage :=
  ⟨logLevelInfo, logSourceKernel, initializedMessage⟩ :: calls.filterMap LogCall.logs

namespace Monitor

theorem Logs.step {s : Monitor} {t : Word} {messages : List LogMessage} (h : s.Logs t messages)
    (call : LogCall) : (s.logStep call).1.Logs t (messages ++ [call].filterMap LogCall.logs) := by
  obtain ⟨level, source, message⟩ := call
  cases message with
  | none => simpa [logStep, monitorLog, List.filterMap_cons, LogCall.logs] using h
  | some text => simpa [logStep, LogCall.logs] using h.log ⟨level, source, text⟩

theorem Logs.run {s : Monitor} {t : Word} {messages : List LogMessage} (h : s.Logs t messages)
    (calls : List LogCall) :
    (run logStep s calls).Logs t (messages ++ calls.filterMap LogCall.logs) := by
  induction calls generalizing s messages with
  | nil => simpa using h
  | cons call calls ih =>
    have hrest := ih (h.step call)
    rw [List.append_assoc, ← List.filterMap_append, List.singleton_append] at hrest
    exact hrest

theorem logs_monitorInit (s : Monitor) (calls : List LogCall) :
    (Infra.run logStep (monitorInit s) calls).Logs s.timestampCounter (logged calls) :=
  ((logs_clear s).log ⟨logLevelInfo, logSourceKernel, initializedMessage⟩).run calls

/--
**The log keeps the last 256 messages.**

After `monitor_init` in any state and any sequence of `monitor_log` calls: `log_count` is the number
of messages logged, at most 256; the entries are those of the last messages from the oldest one on,
cut to 255 bytes; the timestamps go up by one; and there is no entry beyond `log_count`.
-/
theorem monitor_log_keeps_last (s : Monitor) (calls : List LogCall) :
    (Infra.run logStep (monitorInit s) calls).logCount.toNat = min (logged calls).length 256 ∧
    (∀ index : Word, index < (Infra.run logStep (monitorInit s) calls).logCount →
      ∃ e m, monitorGetLogEntry (Infra.run logStep (monitorInit s) calls) index true = some e ∧
        ((logged calls).drop ((logged calls).length - 256))[index.toNat]? = some m ∧
        e.Shows m) ∧
    (∀ (index : Word) (e e' : LogEntry),
      monitorGetLogEntry (Infra.run logStep (monitorInit s) calls) index true = some e →
      monitorGetLogEntry (Infra.run logStep (monitorInit s) calls) (index + 1) true = some e' →
      e'.timestamp = e.timestamp + 1) ∧
    (∀ index : Word, (Infra.run logStep (monitorInit s) calls).logCount ≤ index →
      monitorGetLogEntry (Infra.run logStep (monitorInit s) calls) index true = none) := by
  have hlogs := logs_monitorInit s calls
  generalize Infra.run logStep (monitorInit s) calls = final at hlogs ⊢
  have hcount := hlogs.count
  have hsome : ∀ (index : Word) (e : LogEntry), monitorGetLogEntry final index true = some e →
      index.toNat < min (logged calls).length 256 := by
    intro index e he
    by_contra hout
    have hle : final.logCount ≤ index := by
      rw [BitVec.le_def]
      omega
    simp [monitorGetLogEntry, hle] at he
  refine ⟨hcount, fun index hindex => ?_, fun index e e' he he' => ?_, fun index hindex => ?_⟩
  · rw [BitVec.lt_def, hcount] at hindex
    obtain ⟨e, m, he, hm, hshows, -⟩ := hlogs.getLogEntry hindex
    exact ⟨e, m, he, hm, hshows⟩
  · have hlt := hsome index e he
    obtain ⟨_, _, hget, -, -, htime⟩ := hlogs.getLogEntry hlt
    obtain ⟨_, _, hget', -, -, htime'⟩ := hlogs.getLogEntry (hsome (index + 1) e' he')
    obtain rfl := Option.some.inj (he.symm.trans hget)
    obtain rfl := Option.some.inj (he'.symm.trans hget')
    have hnext : (index + 1).toNat = index.toNat + 1 := by bv_omega
    rw [htime, htime', hnext]
    bv_omega
  · simp [monitorGetLogEntry, hindex]

/-- After one message of two bytes, the entry with index 1 shows it. -/
theorem monitor_log_keeps_last_hi :
    ∃ e m, monitorGetLogEntry
        (Infra.run logStep (monitorInit bootMonitor) [⟨2, 3, some ⟨[0x68, 0x69], by simp⟩⟩]) 1 true
        = some e ∧
      ((logged [⟨2, 3, some ⟨[0x68, 0x69], by simp⟩⟩]).drop
        ((logged [⟨2, 3, some ⟨[0x68, 0x69], by simp⟩⟩]).length - 256))[1]? = some m ∧
      e.Shows m := by
  have hkeeps := monitor_log_keeps_last bootMonitor [⟨2, 3, some ⟨[0x68, 0x69], by simp⟩⟩]
  refine hkeeps.2.1 1 ?_
  rw [BitVec.lt_def, hkeeps.1]
  simp [logged, LogCall.logs]

end Monitor

/-! ## Statistics -/

theorem divide_of_ne {a b : Word} (h : b ≠ 0) : divide a b = some (a / b) := if_neg h

/-- A hundred times the uptime is even, also after it has wrapped: one more is not zero. -/
theorem cpuTime_ne_zero (uptimeSeconds : Word) : uptimeSeconds * 100 + 1 ≠ 0 := by
  bv_omega

/-- The statistics divide by zero exactly when there is no memory. -/
theorem monitorUpdateStats_eq_none (s : Monitor) :
    monitorUpdateStats s = none ↔ s.systemStats.totalMemory = 0 := by
  simp only [monitorUpdateStats, divide_of_ne (cpuTime_ne_zero _),
    divide_of_ne (show (4 : Word) ≠ 0 by decide), divide_of_ne (show (10 : Word) ≠ 0 by decide),
    divide_of_ne (show (20 : Word) ≠ 0 by decide), Option.bind_eq_bind, Option.bind_some]
  by_cases h : s.systemStats.totalMemory = 0
  · simp [divide, h]
  · rw [divide_of_ne h]
    exact iff_of_false (by simp) h

theorem totalMemory_monitorUpdateStats {s s' : Monitor} (h : monitorUpdateStats s = some s') :
    s'.systemStats.totalMemory = s.systemStats.totalMemory := by
  simp only [monitorUpdateStats, Option.bind_eq_bind, Option.bind_eq_some_iff] at h
  obtain ⟨_, -, _, -, _, -, _, -, _, -, h⟩ := h
  rw [← Option.some.inj h]

@[simp] theorem totalMemory_monitorLog (s : Monitor) (level source : Byte)
    (message : Option CString) :
    (monitorLog s level source message).systemStats.totalMemory = s.systemStats.totalMemory := by
  cases message with
  | none => rfl
  | some message => rfl

/-! ## System calls -/

/-- The call executes `monitor_update_stats`. -/
def SysCall.Updates : SysCall → Prop
  | .getStats type buffer => (type = 0 ∨ type = 1) ∧ buffer = true
  | _ => False

/-- `sys_get_stats` does nothing, or it updates the statistics. -/
theorem sysGetStats_eq (s : Monitor) (type : Word) (buffer : Bool) :
    sysGetStats s type buffer
      = if (type = 0 ∨ type = 1) ∧ buffer = true then monitorUpdateStats s else some s := by
  unfold sysGetStats monitorGetSystemStats monitorGetPerformanceMetrics
  cases buffer with
  | false => simp
  | true =>
    by_cases h0 : type = 0
    · simp [h0, Option.map_map, Function.comp_def]
    · by_cases h1 : type = 1
      · simp [h1, Option.map_map, Function.comp_def]
      · simp only [h0, h1, if_false, or_self, false_and]

namespace Monitor

/-- A system call ends in a divide exception exactly when it updates the statistics of a system
without memory. -/
theorem sysStep_divideError (s : Monitor) (call : SysCall) :
    (s.sysStep call).2 = .divideError ↔ call.Updates ∧ s.systemStats.totalMemory = 0 := by
  cases call with
  | log level message => simp [sysStep, SysCall.Updates]
  | dumpLogs => simp [sysStep, SysCall.Updates]
  | other function => simp [sysStep, SysCall.Updates]
  | getStats type buffer =>
    simp only [sysStep, SysCall.Updates, sysGetStats_eq]
    split_ifs with hupdates
    · rw [← monitorUpdateStats_eq_none s]
      cases hstats : monitorUpdateStats s with
      | none => exact iff_of_true rfl ⟨hupdates, rfl⟩
      | some s' => simp
    · exact iff_of_false (by simp) fun h => hupdates h.1

@[simp] theorem totalMemory_sysStep (s : Monitor) (call : SysCall) :
    (s.sysStep call).1.systemStats.totalMemory = s.systemStats.totalMemory := by
  cases call with
  | log level message => simp [sysStep]
  | dumpLogs => rfl
  | other function => rfl
  | getStats type buffer =>
    simp only [sysStep, sysGetStats_eq]
    split_ifs with hupdates
    · cases hstats : monitorUpdateStats s with
      | none => rfl
      | some s' => exact totalMemory_monitorUpdateStats hstats
    · rfl

/-- Along every sequence of system calls: with memory nothing can go wrong, without it the first
update does. -/
theorem sysStep_safe_iff (s : Monitor) (calls : List SysCall) :
    Along sysStep (fun s call => (s.sysStep call).2 ≠ .divideError) s calls ↔
      s.systemStats.totalMemory ≠ 0 ∨ ∀ call ∈ calls, ¬ call.Updates := by
  have hexact := along_iff_along sysStep
    (I := fun s' => s'.systemStats.totalMemory = s.systemStats.totalMemory)
    (P := fun _ call => ¬ (call.Updates ∧ s.systemStats.totalMemory = 0))
    (Q := fun s call => (s.sysStep call).2 ≠ .divideError)
    (fun s' call hs' => by rw [Ne, sysStep_divideError, hs'])
    (fun s' call hs' _ => (totalMemory_sysStep s' call).trans hs') rfl calls
  rw [hexact, along_iff_forall]
  by_cases h : s.systemStats.totalMemory = 0
  · simp [h]
  · exact iff_of_true (fun _ _ hcall => h hcall.2) (Or.inl h)

theorem setUp_of_ne {call : KernelInit} (h : call ≠ .monitorInit) (s : Monitor) :
    s.setUp call = s := by
  unfold setUp
  split
  · exact absurd rfl h
  · rfl

theorem totalMemory_foldl_setUp (init : List KernelInit) (s : Monitor) :
    (init.foldl setUp s).systemStats.totalMemory
      = if .monitorInit ∈ init then 1024 * 1024 else s.systemStats.totalMemory := by
  induction init generalizing s with
  | nil => simp
  | cons call init ih =>
    rw [List.foldl_cons, ih]
    by_cases hin : .monitorInit ∈ init
    · simp [hin]
    · by_cases hcall : call = .monitorInit
      · subst hcall
        simp [hin, setUp, monitorInit, clear]
      · simp [hin, setUp_of_ne hcall, Ne.symm hcall]

/--
**The statistics need `monitor_init`.**

After an initialisation sequence, no system call of a sequence ends in a divide exception if and
only if `monitor_init` is part of the initialisation, or none of the calls asks for statistics. With
it they may be updated any number of times.
-/
theorem sys_stats_safe_iff (init : List KernelInit) (calls : List SysCall) :
    Along sysStep (fun s call => (s.sysStep call).2 ≠ .divideError) (boot init) calls ↔
      .monitorInit ∈ init ∨ ∀ call ∈ calls, ¬ call.Updates := by
  rw [sysStep_safe_iff, boot, totalMemory_foldl_setUp]
  by_cases h : .monitorInit ∈ init
  · simp [h]
  · simp [h, bootMonitor]

/-- **After `kmain`'s initialisation the first update of the statistics divides by zero**: a
sequence of system calls is free of divide exceptions if and only if none of its calls updates. -/
theorem kmain_stats_safe_iff (calls : List SysCall) :
    Along sysStep (fun s call => (s.sysStep call).2 ≠ .divideError) (boot kmainInit) calls ↔
      ∀ call ∈ calls, ¬ call.Updates := by
  rw [sys_stats_safe_iff]
  simp [kmainInit]

/-- The first `sys_get_stats` with a buffer. -/
theorem kmain_stats_divide_by_zero :
    ((boot kmainInit).sysStep (.getStats 0 true)).2 = .divideError := by
  rw [sysStep_divideError, boot, totalMemory_foldl_setUp]
  simp [SysCall.Updates, kmainInit, bootMonitor]

end Monitor

end MinimalistOS
