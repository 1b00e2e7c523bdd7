import MinimalistOS.Infra.Stopwatch
import MinimalistOS.Properties.Monitor

/-!
# The timers of the monitor

* `TimerCall.event` — what a call is to a stopwatch
* `Clocked` — the table of timers shows the stopwatches, one slot a name
* `Clocked.step` — every call keeps it
* `monitor_timers_accumulate` — a timer is the sum of its intervals

A name gets the first slot that is still empty, and keeps it: the slots in use come first, with
different names. So a search for a name meets its slot and no other.
-/

namespace MinimalistOS

open Infra

/-- A call of the timers, or of the log whose messages are the ticks of the clock. -/
inductive TimerCall where
  | start (name : Option CString)
  | stop (name : Option CString)
  | log (call : LogCall)

/-- A `monitor_log` with a message is a tick, one without does nothing. -/
def LogCall.ticks (call : LogCall) : Nat := if call.message.isSome then 1 else 0

namespace TimerCall

/-- The names that a call gives to a timer. -/
def names : TimerCall → Option CString
  | .start name => name
  | .stop name => name
  | .log _ => none

/-- What a call is to a stopwatch, when `monitor_log` counts as so many ticks. -/
def eventBy (ticks : LogCall → Nat) : TimerCall → Stopwatch.Event CString
  | .start (some name) => .start name
  | .stop (some name) => .stop name
  | .log call => .tick (ticks call)
  | .start none => .tick 0
  | .stop none => .tick 0

/-- What a call is to a stopwatch. -/
def event (call : TimerCall) : Stopwatch.Event CString := call.eventBy LogCall.ticks

end TimerCall

def Monitor.timerStep (s : Monitor) : TimerCall → Monitor × Unit
  | .start name => (monitorStartTimer s name, ())
  | .stop name => (monitorEndTimer s name, ())
  | .log call => s.logStep call

/-! ## The table -/

/-- The entry shows the stopwatch of a name. -/
structure TimerEntry.Shows (t : TimerEntry) (name : CString) (total : Word)
    (since : Option Word) : Prop where
  name_eq : CString.ofArray t.name = name
  total_eq : t.totalTime = total
  since_eq : since = if t.active = 0 then none else some t.startTime

/-- The entry has not been used. -/
structure TimerEntry.Unused (t : TimerEntry) : Prop where
  name_eq : (CString.ofArray t.name).bytes = []
  active_eq : t.active = 0
  total_eq : t.totalTime = 0

/-- The table shows the stopwatches: those of the names in `used` in this order, and behind them
entries that have not been used. -/
structure Clocked (names : Finset CString) (s : Monitor) (c : Stopwatch.State CString 32)
    (used : List CString) : Prop where
  now : s.timestampCounter = c.now
  nodup : used.Nodup
  subset : ∀ name ∈ used, name ∈ names
  shows : ∀ i name, used[i]? = some name →
    (slot s.timers i).Shows name (c.total name) (c.since name)
  unused : ∀ i, used.length ≤ i → i < 16 → (slot s.timers i).Unused
  fresh : ∀ name ∉ used, c.total name = 0 ∧ c.since name = none

/-- Names for at most sixteen timers, which are neither empty nor cut. -/
structure TimerNames (names : Finset CString) : Prop where
  card_le : names.card ≤ 16
  nonempty : ∀ name ∈ names, name.bytes ≠ []
  short : ∀ name ∈ names, name.bytes.length < 32

/-! ## Searching the table -/

/-- Without duplicates, names at different places are different. -/
theorem ne_of_index_ne {used : List CString} (hnodup : used.Nodup) {i j : Nat}
    {name name' : CString} (hi : used[i]? = some name) (hj : used[j]? = some name')
    (hij : j ≠ i) : name' ≠ name := by
  rintro rfl
  have hlt := (List.getElem?_eq_some_iff.mp hj).1
  exact hij ((List.getElem?_inj hlt hnodup).mp (hj.trans hi.symm))

theorem isNamed_eq (t : TimerEntry) (name : CString) :
    (strcmp t.name.toList name.bytes == 0) = decide (CString.ofArray t.name = name) := by
  rw [Bool.eq_iff_iff, decide_eq_true_eq, beq_iff_eq, strcmp_eq_zero, CString.ofBytes_bytes]
  rfl

theorem isEmpty_eq (t : TimerEntry) :
    (slot t.name 0 == 0) = decide ((CString.ofArray t.name).bytes = []) := by
  have hhead : t.name.toList.headD 0 = slot t.name 0 := by
    simp [slot, List.headD_eq_head?_getD, List.head?_eq_getElem?]
  rw [Bool.eq_iff_iff, decide_eq_true_eq, beq_iff_eq, CString.ofArray,
    CString.bytes_ofBytes_eq_nil, hhead]

namespace Clocked

variable {names : Finset CString} {s : Monitor} {c : Stopwatch.State CString 32}
  {used : List CString} (h : Clocked names s c used)

include h

theorem length_le (hnames : TimerNames names) : used.length ≤ 16 := by
  have hsub : used.toFinset ⊆ names := fun name hname => h.subset name (List.mem_toFinset.mp hname)
  calc used.length = used.toFinset.card := (List.toFinset_card_of_nodup h.nodup).symm
    _ ≤ names.card := Finset.card_le_card hsub
    _ ≤ 16 := hnames.card_le

/-- There is a slot for a name that has none yet. -/
theorem length_lt (hnames : TimerNames names) {name : CString} (hname : name ∈ names)
    (hnew : name ∉ used) : used.length < 16 := by
  have hsub : (name :: used).toFinset ⊆ names := by
    intro name' hname'
    rcases List.mem_cons.mp (List.mem_toFinset.mp hname') with rfl | hold
    · exact hname
    · exact h.subset name' hold
  have hcard := List.toFinset_card_of_nodup (List.nodup_cons.mpr ⟨hnew, h.nodup⟩)
  rw [List.length_cons] at hcard
  have hle := (Finset.card_le_card hsub).trans hnames.card_le
  omega

/-- A search that the slot of a name answers. -/
theorem findSlot_used (hnames : TimerNames names) {p : TimerEntry → Bool} {i : Nat} {name : CString}
    (hi : used[i]? = some name) (hp : p (slot s.timers i) = true)
    (hbefore : ∀ j name', used[j]? = some name' → name' ≠ name → p (slot s.timers j) = false) :
    findSlot s.timers p 0 maxTimers = some i := by
  have hilt := (List.getElem?_eq_some_iff.mp hi).1
  have hle := h.length_le hnames
  refine findSlot_eq_some.mpr ⟨?_, hp, fun j hj => ?_⟩
  · unfold maxTimers
    omega
  · have hj' : used[j]? = some used[j] := List.getElem?_eq_getElem (by omega)
    exact hbefore j _ hj' (ne_of_index_ne h.nodup hi hj' (by omega))

/-! ## Starting -/

/-- Starting the timer in a slot: one that is in use, or the first that is not. -/
theorem start_at (hnames : TimerNames names) {i : Nat} (hi : i < 16) {name : CString}
    (hname : name ∈ names) {used' : List CString} (hnodup : used'.Nodup)
    (hslot : used'[i]? = some name) (hkeep : ∀ j ≠ i, used'[j]? = used[j]?)
    (hold : ∀ name', used[i]? = some name' → name' = name)
    (htotal : (slot s.timers i).totalTime = c.total name) :
    Clocked names
      { s with
        timers := modifySlot s.timers i fun t =>
          { t with
            name := (strncpy t.name name.bytes 31).setIfInBounds 31 0
            startTime := s.timestampCounter
            active := 1 } }
      (Stopwatch.step c (.start name)).1 used' where
  now := h.now
  nodup := hnodup
  subset name' hname' := by
    obtain ⟨j, hj⟩ := List.mem_iff_getElem?.mp hname'
    by_cases hji : j = i
    · subst hji
      obtain rfl : name' = name := Option.some.inj (hj.symm.trans hslot)
      exact hname
    · exact h.subset name' (List.mem_iff_getElem?.mpr ⟨j, (hkeep j hji).symm.trans hj⟩)
  shows j name' hj := by
    rw [slot_modifySlot _ hi]
    by_cases hji : j = i
    · subst hji
      obtain rfl : name' = name := Option.some.inj (hj.symm.trans hslot)
      rw [if_pos rfl]
      refine ⟨?_, htotal, ?_⟩
      · have hshort := hnames.short name' hname
        exact (CString.ofArray_strncpy _ name' (by decide)).trans
          (CString.truncate_eq_self.mpr (by omega))
      · simp [Stopwatch.step, h.now]
    · have hj' : used[j]? = some name' := (hkeep j hji).symm.trans hj
      have hne := ne_of_index_ne hnodup hslot hj hji
      rw [if_neg hji]
      simp only [Stopwatch.step, Function.update_of_ne hne]
      exact h.shows j name' hj'
  unused j hj hj16 := by
    have hilt := (List.getElem?_eq_some_iff.mp hslot).1
    have hji : j ≠ i := by omega
    rw [slot_modifySlot _ hi, if_neg hji]
    refine h.unused j ?_ hj16
    rw [← List.getElem?_eq_none_iff, ← hkeep j hji]
    exact List.getElem?_eq_none hj
  fresh name' hname' := by
    have hne : name' ≠ name := by
      rintro rfl
      exact hname' (List.mem_iff_getElem?.mpr ⟨i, hslot⟩)
    simp only [Stopwatch.step, Function.update_of_ne hne]
    refine h.fresh name' fun hmem => ?_
    obtain ⟨j, hj⟩ := List.mem_iff_getElem?.mp hmem
    by_cases hji : j = i
    · subst hji
      exact hne (hold name' hj)
    · exact hname' (List.mem_iff_getElem?.mpr ⟨j, (hkeep j hji).trans hj⟩)

/-- **`monitor_start_timer`** starts the stopwatch of the name. -/
theorem start (hnames : TimerNames names) {name : CString} (hname : name ∈ names) :
    ∃ used', Clocked names (monitorStartTimer s (some name)) (Stopwatch.step c (.start name)).1
      used' := by
  -- the test of the search: no name yet, or this one
  have htest : ∀ i name', used[i]? = some name' →
      (slot (slot s.timers i).name 0 == 0 ||
        strcmp (slot s.timers i).name.toList name.bytes == 0) = decide (name' = name) := by
    intro i name' hi
    have hname_eq := (h.shows i name' hi).name_eq
    have hne := hnames.nonempty name' (h.subset name' (List.mem_iff_getElem?.mpr ⟨i, hi⟩))
    rw [isEmpty_eq, isNamed_eq, hname_eq, decide_eq_false hne, Bool.false_or]
  by_cases hold : name ∈ used
  · obtain ⟨i, hi⟩ := List.mem_iff_getElem?.mp hold
    have hilt := (List.getElem?_eq_some_iff.mp hi).1
    have hle := h.length_le hnames
    have hfind := h.findSlot_used hnames hi
      (p := fun t => slot t.name 0 == 0 || strcmp t.name.toList name.bytes == 0)
      ((htest i name hi).trans (decide_eq_true rfl))
      fun j name' hj hne => (htest j name' hj).trans (decide_eq_false hne)
    refine ⟨used, ?_⟩
    simp only [monitorStartTimer, hfind]
    exact h.start_at hnames (by omega) hname h.nodup hi (fun _ _ => rfl)
      (fun name' hi' => Option.some.inj (hi'.symm.trans hi)) (h.shows i name hi).total_eq
  · have hlt := h.length_lt hnames hname hold
    have hunused := h.unused used.length (Nat.le_refl _) hlt
    have hfind : findSlot s.timers
        (fun t => slot t.name 0 == 0 || strcmp t.name.toList name.bytes == 0) 0 maxTimers
          = some used.length := by
      refine findSlot_eq_some.mpr ⟨hlt, ?_, fun j hj => ?_⟩
      · rw [isEmpty_eq, decide_eq_true hunused.name_eq, Bool.true_or]
      · have hj' : used[j]? = some used[j] := List.getElem?_eq_getElem hj
        refine (htest j _ hj').trans (decide_eq_false ?_)
        rintro rfl
        exact hold (List.getElem_mem hj)
    refine ⟨used ++ [name], ?_⟩
    simp only [monitorStartTimer, hfind]
    refine h.start_at hnames hlt hname ?_ ?_ (fun j hj => ?_) (fun name' hi => ?_) ?_
    · rw [List.nodup_append]
      refine ⟨h.nodup, List.nodup_singleton name, fun a ha b hb => ?_⟩
      rw [List.mem_singleton.mp hb]
      rintro rfl
      exact hold ha
    · simp
    · rcases Nat.lt_or_gt_of_ne hj with hlt' | hgt
      · exact List.getElem?_append_left hlt'
      · rw [List.getElem?_eq_none (by simp; omega), List.getElem?_eq_none (by omega)]
    · rw [List.getElem?_eq_none (Nat.le_refl _)] at hi
      cases hi
    · rw [hunused.total_eq, (h.fresh name hold).1]

/-! ## Stopping -/

/-- Stopping a timer that runs. -/
theorem stop_at (hnames : TimerNames names) {i : Nat} {name : CString} (hi : used[i]? = some name)
    (hactive : (slot s.timers i).active ≠ 0) :
    Clocked names
      { s with
        timers := modifySlot s.timers i fun t =>
          { t with
            totalTime := t.totalTime + (s.timestampCounter - t.startTime)
            active := 0 } }
      (Stopwatch.step c (.stop name)).1 used := by
  have hilt := (List.getElem?_eq_some_iff.mp hi).1
  have hle := h.length_le hnames
  have hshows := h.shows i name hi
  have hsince : c.since name = some (slot s.timers i).startTime :=
    hshows.since_eq.trans (if_neg hactive)
  simp only [Stopwatch.step, hsince]
  refine ⟨h.now, h.nodup, h.subset, fun j name' hj => ?_, fun j hj hj16 => ?_, fun name' hnew => ?_⟩
  · rw [slot_modifySlot _ (by omega)]
    by_cases hji : j = i
    · subst hji
      obtain rfl : name' = name := Option.some.inj (hj.symm.trans hi)
      rw [if_pos rfl]
      refine ⟨hshows.name_eq, ?_, by simp⟩
      simp only [Function.update_self, hshows.total_eq, h.now]
    · have hne := ne_of_index_ne h.nodup hi hj hji
      rw [if_neg hji]
      simp only [Function.update_of_ne hne]
      exact h.shows j name' hj
  · rw [slot_modifySlot _ (by omega), if_neg (by omega)]
    exact h.unused j hj hj16
  · have hne : name' ≠ name := by
      rintro rfl
      exact hnew (List.mem_iff_getElem?.mpr ⟨i, hi⟩)
    simp only [Function.update_of_ne hne]
    exact h.fresh name' hnew

/-- **`monitor_end_timer`** stops the stopwatch of the name. -/
theorem stop (hnames : TimerNames names) (name : CString) :
    Clocked names (monitorEndTimer s (some name)) (Stopwatch.step c (.stop name)).1 used := by
  -- the test of the search: it runs, and has this name
  have htest : ∀ i name', used[i]? = some name' →
      ((slot s.timers i).active != 0 &&
        strcmp (slot s.timers i).name.toList name.bytes == 0)
        = ((slot s.timers i).active != 0 && decide (name' = name)) := by
    intro i name' hi
    rw [isNamed_eq, (h.shows i name' hi).name_eq]
  have hunused : ∀ i, used.length ≤ i → i < 16 →
      ((slot s.timers i).active != 0 &&
        strcmp (slot s.timers i).name.toList name.bytes == 0) = false := by
    intro i hi hi16
    rw [(h.unused i hi hi16).active_eq]
    simp
  by_cases hruns : ∃ i, used[i]? = some name ∧ (slot s.timers i).active ≠ 0
  · obtain ⟨i, hi, hactive⟩ := hruns
    have hfind := h.findSlot_used hnames hi
      (p := fun t => t.active != 0 && strcmp t.name.toList name.bytes == 0)
      ((htest i name hi).trans (by simpa using hactive))
      fun j name' hj hne => (htest j name' hj).trans (by simp [hne])
    simp only [monitorEndTimer, hfind]
    exact h.stop_at hnames hi hactive
  · -- nothing runs under this name, so nothing happens
    have hfind : findSlot s.timers
        (fun t => t.active != 0 && strcmp t.name.toList name.bytes == 0) 0 maxTimers = none := by
      refine findSlot_eq_none.mpr fun j hj => ?_
      rcases Nat.lt_or_ge j used.length with hlt | hge
      · have hj' : used[j]? = some used[j] := List.getElem?_eq_getElem hlt
        refine (htest j _ hj').trans ?_
        by_cases heq : used[j] = name
        · have hidle : (slot s.timers j).active = 0 := by
            by_contra hactive
            exact hruns ⟨j, heq ▸ hj', hactive⟩
          simp [hidle]
        · simp [heq]
      · exact hunused j hge hj
    have hsince : c.since name = none := by
      by_cases hold : name ∈ used
      · obtain ⟨i, hi⟩ := List.mem_iff_getElem?.mp hold
        have hidle : (slot s.timers i).active = 0 := by
          by_contra hactive
          exact hruns ⟨i, hi, hactive⟩
        exact (h.shows i name hi).since_eq.trans (if_pos hidle)
      · exact (h.fresh name hold).2
    simp only [monitorEndTimer, hfind, Stopwatch.step, hsince]
    exact h

/-! ## Reading -/

/-- **`monitor_get_timer_value`** returns the total of the name, whatever the name. -/
theorem value (hnames : TimerNames names) (name : CString) :
    monitorGetTimerValue s (some name) = c.total name := by
  by_cases hold : name ∈ used
  · obtain ⟨i, hi⟩ := List.mem_iff_getElem?.mp hold
    have hshows := h.shows i name hi
    have hfind := h.findSlot_used hnames hi
      (p := fun t => strcmp t.name.toList name.bytes == 0)
      (by rw [isNamed_eq, hshows.name_eq, decide_eq_true rfl])
      fun j name' hj hne => by rw [isNamed_eq, (h.shows j name' hj).name_eq, decide_eq_false hne]
    simp only [monitorGetTimerValue, hfind]
    exact hshows.total_eq
  · rw [(h.fresh name hold).1]
    cases hfind : findSlot s.timers (fun t => strcmp t.name.toList name.bytes == 0) 0 maxTimers with
    | none => simp only [monitorGetTimerValue, hfind]
    | some i =>
      obtain ⟨hi, htest, -⟩ := findSlot_eq_some.mp hfind
      have hge : used.length ≤ i := by
        by_contra hlt
        have hi' : used[i]? = some used[i] := List.getElem?_eq_getElem (by omega)
        rw [isNamed_eq, (h.shows i _ hi').name_eq, decide_eq_true_eq] at htest
        exact hold (htest ▸ List.getElem_mem _)
      simp only [monitorGetTimerValue, hfind]
      exact (h.unused i hge hi).total_eq

/-! ## Runs -/

theorem log (call : LogCall) :
    Clocked names (s.logStep call).1 (Stopwatch.step c (.tick call.ticks)).1 used := by
  obtain ⟨level, source, message⟩ := call
  cases message with
  | none =>
    exact { h with now := h.now.trans (BitVec.add_zero c.now).symm }
  | some text => exact { h with now := congrArg (· + 1) h.now }

/-- **Every call** is what it is to the stopwatches. -/
theorem step (hnames : TimerNames names) {call : TimerCall}
    (hcall : ∀ name ∈ call.names, name ∈ names) :
    ∃ used', Clocked names (s.timerStep call).1 (Stopwatch.step c call.event).1 used' := by
  have htick : Clocked names s (Stopwatch.step c (.tick 0)).1 used :=
    { h with now := h.now.trans (BitVec.add_zero c.now).symm }
  cases call with
  | start name =>
    cases name with
    | none => exact ⟨used, htick⟩
    | some name => exact h.start hnames (hcall name rfl)
  | stop name =>
    cases name with
    | none => exact ⟨used, htick⟩
    | some name => exact ⟨used, h.stop hnames name⟩
  | log call => exact ⟨used, h.log call⟩

theorem run (hnames : TimerNames names) {calls : List TimerCall}
    (hcalls : ∀ call ∈ calls, ∀ name ∈ call.names, name ∈ names) :
    ∃ used', Clocked names (Infra.run Monitor.timerStep s calls)
      (Infra.run Stopwatch.step c (calls.map TimerCall.event)) used' := by
  induction calls generalizing s c used with
  | nil => exact ⟨used, h⟩
  | cons call calls ih =>
    obtain ⟨used', hnext⟩ := h.step hnames (hcalls call List.mem_cons_self)
    exact ih hnext fun call' hcall' => hcalls call' (List.mem_cons_of_mem call hcall')

end Clocked

/-- After `monitor_init` no timer has been used. -/
theorem clocked_monitorInit (names : Finset CString) (s : Monitor) :
    Clocked names (monitorInit s)
      { now := s.timestampCounter + 1, total := fun _ => 0, since := fun _ => none } [] where
  now := rfl
  nodup := List.nodup_nil
  subset name hname := absurd hname List.not_mem_nil
  shows i name hi := by simp at hi
  unused i _ hi := by
    have hslot : slot (monitorInit s).timers i = zeroTimerEntry := slot_replicate _ hi
    rw [hslot]
    exact ⟨by decide, rfl, rfl⟩
  fresh _ _ := ⟨rfl, rfl⟩

/-- What is returned for a name after a run. -/
theorem monitorGetTimerValue_run (s : Monitor) {names : Finset CString} (hnames : TimerNames names)
    {calls : List TimerCall} (hcalls : ∀ call ∈ calls, ∀ name ∈ call.names, name ∈ names)
    (name : CString) :
    monitorGetTimerValue (run Monitor.timerStep (monitorInit s) calls) (some name)
      = BitVec.ofNat 32 (Stopwatch.intervals name (calls.map TimerCall.event)).sum := by
  obtain ⟨used, hend⟩ := (clocked_monitorInit names s).run hnames hcalls
  rw [hend.value hnames name, Stopwatch.total_run, Stopwatch.carried_of_since_none rfl]
  simp

/-- What `monitor_get_timer_value` returns is the sum of the completed intervals of the name, modulo
the size of the counter, when `monitor_log` counts as so many ticks. -/
def AccumulatesBy (ticks : LogCall → Nat) (s : Monitor) (calls : List TimerCall) (name : CString) :
    Prop :=
  monitorGetTimerValue (run Monitor.timerStep (monitorInit s) calls) (some name)
    = BitVec.ofNat 32 (Stopwatch.intervals name (calls.map (TimerCall.eventBy ticks))).sum

/--
**The timers accumulate independently.**

After `monitor_init` and any calls of the timers and of the log, with at most sixteen names that are
neither empty nor cut: what is returned for a name is the sum of its completed intervals, from the
last start to the next stop, in messages logged, modulo 2^32. The other timers do not matter.
-/
theorem monitor_timers_accumulate (s : Monitor) {names : Finset CString} (hnames : TimerNames names)
    {calls : List TimerCall} (hcalls : ∀ call ∈ calls, ∀ name ∈ call.names, name ∈ names)
    (name : CString) : AccumulatesBy LogCall.ticks s calls name :=
  monitorGetTimerValue_run s hnames hcalls name

/-- `"io"`. -/
def ioTimer : CString := ⟨[0x69, 0x6F], by simp⟩

/-- `"net"`. -/
def netTimer : CString := ⟨[0x6E, 0x65, 0x74], by simp⟩

/-- Two timers that overlap, one of which is started again: `io` gets one message. -/
theorem monitor_timers_accumulate_overlapping :
    AccumulatesBy LogCall.ticks bootMonitor
      [.start (some ioTimer), .log ⟨1, 0, some ioTimer⟩, .start (some netTimer),
        .start (some ioTimer), .log ⟨1, 0, some ioTimer⟩, .stop (some ioTimer), .log ⟨1, 0, none⟩,
        .log ⟨1, 0, some netTimer⟩, .stop (some netTimer), .stop (some ioTimer)] ioTimer :=
  have hnames : TimerNames {ioTimer, netTimer} := ⟨by decide, by decide, by decide⟩
  monitor_timers_accumulate bootMonitor hnames (by decide) ioTimer

/-- A `monitor_log` without a message is a call, but no time passes. -/
theorem monitor_log_null_no_time :
    ¬ AccumulatesBy (fun _ => 1) bootMonitor
      [.start (some ioTimer), .log ⟨1, 0, none⟩, .stop (some ioTimer)] ioTimer := by
  have hnames : TimerNames {ioTimer} := ⟨by decide, by decide, by decide⟩
  unfold AccumulatesBy
  rw [monitorGetTimerValue_run bootMonitor hnames (by decide) ioTimer]
  decide

end MinimalistOS
