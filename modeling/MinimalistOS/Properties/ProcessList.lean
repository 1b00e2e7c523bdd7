import MinimalistOS.Properties.Itoa
import MinimalistOS.Properties.Process
import MinimalistOS.Spec.ProcessReport
import Mathlib.Data.List.GetD

/-!
# The process list says what the table holds

* `Listable`, `run_listable` — what the slots in use have in common in every state reached
* `printed_itoa` — a number is printed as its decimal numeral when its array has room for it
* `readRow_line` — a line is read back
* `process_list_read_back` — so is the whole list, and `itoa` stays inside the three arrays

The array for the priority has room for three digits and no sign. That is enough because
`process_create` is the only place that sets one.
-/

namespace MinimalistOS

open Infra

open ProcessTable

/-! ## The slots in use -/

/-- What `process_init` and `process_create` leave in a slot and nothing changes. -/
structure Listable (p : Process) : Prop where
  priority : p.priority = 1
  terminated : slot p.name 31 = 0
  no_newline : (0x0A : Byte) ∉ (CString.ofArray p.name).bytes

/-- Name and priority of a slot are the same in both tables. -/
def SameLabel (t t' : ProcessTable) (j : Nat) : Prop :=
  (t'.proc j).name = (t.proc j).name ∧ (t'.proc j).priority = (t.proc j).priority

theorem Listable.congr {t t' : ProcessTable} {j : Nat} (h : Listable (t.proc j))
    (hlabel : SameLabel t t' j) : Listable (t'.proc j) where
  priority := hlabel.2.trans h.priority
  terminated := by rw [hlabel.1]; exact h.terminated
  no_newline := by rw [hlabel.1]; exact h.no_newline

theorem SameLabel.trans {t t' t'' : ProcessTable} {j : Nat} (h : SameLabel t t' j)
    (h' : SameLabel t' t'' j) : SameLabel t t'' j :=
  ⟨h'.1.trans h.1, h'.2.trans h.2⟩

/-- An update that leaves name and priority alone. -/
theorem sameLabel_modify (t : ProcessTable) {i : Nat} (hi : i < maxProcesses)
    {f : Process → Process} (hf : ∀ p, (f p).name = p.name ∧ (f p).priority = p.priority)
    (j : Nat) : SameLabel t (t.modify i f) j := by
  unfold SameLabel
  rw [proc_modify hi]
  split
  next hj => rw [hj]; exact hf _
  · exact ⟨rfl, rfl⟩

theorem sameLabel_demote {t : ProcessTable} (h : TableShape t) (j : Nat) :
    SameLabel t (demote t) j := by
  rw [demote, h.onCurrent_eq]
  refine sameLabel_modify t h.current_lt_max ?_ j
  exact fun _ => ⟨rfl, rfl⟩

theorem sameLabel_stay {t : ProcessTable} (h : TableShape t) (j : Nat) :
    SameLabel t (stay t) j := by
  rw [stay, h.onCurrent_eq]
  refine sameLabel_modify t h.current_lt_max ?_ j
  exact fun _ => ⟨rfl, rfl⟩

theorem sameLabel_bury {t : ProcessTable} (h : TableShape t) (j : Nat) :
    SameLabel t (bury t) j := by
  rw [bury, h.onCurrent_eq]
  refine sameLabel_modify t h.current_lt_max ?_ j
  exact fun _ => ⟨rfl, rfl⟩

theorem sameLabel_switchTo {t : ProcessTable} (h : TableShape t) (cpu : Saved) {next : Nat}
    (hnext : next < t.nextPid) (j : Nat) : SameLabel t (switchTo t cpu next).1 j := by
  have hpoint : SameLabel t { t with currentProcess := next, currentProcessPtr := some next } j :=
    ⟨rfl, rfl⟩
  have hn8 := Nat.lt_of_lt_of_le hnext h.next_le
  simp only [switchTo, h.ptr]
  split
  · refine (hpoint.trans (sameLabel_modify _ hn8 ?_ j)).trans
      (sameLabel_modify _ h.current_lt_max ?_ j)
    · exact fun _ => ⟨rfl, rfl⟩
    · exact fun _ => ⟨rfl, rfl⟩
  · refine hpoint.trans (sameLabel_modify _ hn8 ?_ j)
    exact fun _ => ⟨rfl, rfl⟩

theorem schedule_label {t : ProcessTable} (h : TableShape t) (cpu : Saved) (j : Nat) :
    SameLabel t (schedule t cpu).1 j ∧ (schedule t cpu).1.nextPid = t.nextPid := by
  have hd := h.tick.demote
  have hdemote : SameLabel t (demote (tick t)) j := sameLabel_demote h.tick j
  rcases schedule_cases h cpu with ⟨-, heq⟩ | ⟨next, hnext, -, heq⟩ | ⟨-, heq⟩
  · rw [heq]
    exact ⟨⟨rfl, rfl⟩, rfl⟩
  · rw [heq, switchTo_nextPid, demote_nextPid]
    exact ⟨hdemote.trans (sameLabel_switchTo hd cpu hnext j), rfl⟩
  · rw [heq]
    refine ⟨hdemote.trans (sameLabel_stay hd j), ?_⟩
    rw [stay, onCurrent_nextPid, demote_nextPid]
    rfl

/-! ### Names -/

/-- With a zero in the last byte, a string stored with `strncpy` is cut to the field. -/
theorem ofArray_strncpy_zero {dest : Vector Byte 32} (hlast : slot dest 31 = 0)
    (name : List Byte) :
    CString.ofArray (strncpy dest name 31) = (CString.ofBytes name).truncate 31 ∧
      slot (strncpy dest name 31) 31 = 0 := by
  have hslot : slot (strncpy dest name 31) 31 = 0 := by
    rw [strncpy, slot_strncpy_loop 31 31 0 name dest (by decide), if_neg (by decide)]
    exact hlast
  have hbytes : strncpy dest (CString.ofBytes name).bytes 31 = strncpy dest name 31 := by
    refine ext_slot fun j hj => ?_
    rw [strncpy, strncpy, slot_strncpy_loop j 31 0 _ dest (by decide),
      slot_strncpy_loop j 31 0 name dest (by decide), CString.ofBytes_bytes]
  have hend : strncpy dest name 31 = (strncpy dest name 31).setIfInBounds 31 0 := by
    refine ext_slot fun j hj => ?_
    rw [slot_setIfInBounds _ (by decide)]
    split
    next hj' => rw [hj', hslot]
    · rfl
  refine ⟨?_, hslot⟩
  rw [hend, ← hbytes]
  exact CString.ofArray_strncpy dest (CString.ofBytes name) (by decide)

/-- A process that has its priority and its name from the two functions is listable. -/
theorem listable_of_strncpy {p : Process} {name : List Byte} {dest : Vector Byte 32}
    (hpriority : p.priority = 1) (hname : p.name = strncpy dest name 31)
    (hlast : slot dest 31 = 0) (h : (0x0A : Byte) ∉ name) : Listable p := by
  obtain ⟨hcut, hzero⟩ := ofArray_strncpy_zero hlast name
  refine ⟨hpriority, hname ▸ hzero, ?_⟩
  rw [hname, hcut]
  exact fun hc => h (List.takeWhile_subset _ (List.mem_of_mem_take hc))

theorem slot_zeros : slot (Vector.replicate 32 (0 : Byte)) 31 = 0 :=
  slot_replicate 0 (by decide)

/-! ### Runs -/

/-- The slots below `next_pid` are listable. -/
structure ListInv (t : ProcessTable) : Prop where
  shape : TableShape t
  runs : RunsCurrent t
  listable : ∀ j < t.nextPid, Listable (t.proc j)

namespace ListInv

variable {t : ProcessTable}

theorem listable_bury (h : ListInv t) : ∀ j < (bury t).nextPid, Listable ((bury t).proc j) := by
  intro j hj
  rw [bury_nextPid] at hj
  exact (h.listable j hj).congr (sameLabel_bury h.shape j)

theorem listable_schedule (h : TableShape t) (hlist : ∀ j < t.nextPid, Listable (t.proc j))
    (cpu : Saved) :
    ∀ j < (schedule t cpu).1.nextPid, Listable ((schedule t cpu).1.proc j) := by
  intro j hj
  obtain ⟨hlabel, hnext⟩ := schedule_label h cpu j
  rw [hnext] at hj
  exact (hlist j hj).congr hlabel

theorem listable_create (h : ListInv t) {name : List Byte} (entryPoint : Word)
    (hname : (0x0A : Byte) ∉ name) :
    ∀ j < (processCreate t name entryPoint).1.nextPid,
      Listable ((processCreate t name entryPoint).1.proc j) := by
  intro j hj
  rcases processCreate_cases t name entryPoint with ⟨i, hi, -, hbelow, heq⟩ | ⟨-, heq⟩
  · rw [heq] at hj ⊢
    rw [proc_raise_modify t hi]
    split
    · exact listable_of_strncpy rfl rfl slot_zeros hname
    next hji =>
      -- the lowest free slot is not above `next_pid`
      have hle : i ≤ t.nextPid := by
        by_contra hgt
        have hused := hbelow t.nextPid (by omega)
        rw [h.shape.beyond t.nextPid (by omega) le_rfl] at hused
        exact absurd hused (by decide)
      have hj' : j < max t.nextPid (i + 1) := by
        rw [raise_eq] at hj
        exact hj
      exact h.listable j (by omega)
  · rw [heq] at hj ⊢
    exact h.listable j hj

end ListInv

/-- The processes that a call creates have names of one line. -/
def ProcessCall.OneLine : ProcessCall → Prop
  | .create name _ => (0x0A : Byte) ∉ name
  | _ => True

theorem ListInv.step {t : ProcessTable} (h : ListInv t) {call : ProcessCall}
    (hcall : call.OneLine) : ListInv (t.step call).1 where
  shape := (step_inv call ⟨h.shape, h.runs⟩).1
  runs := (step_inv call ⟨h.shape, h.runs⟩).2
  listable := by
    cases call with
    | create name entryPoint => exact h.listable_create entryPoint hcall
    | exit status cpu => exact listable_schedule h.shape.bury h.listable_bury cpu
    | schedule cpu => exact listable_schedule h.shape h.listable cpu

theorem listInv_init (base : Word) : ListInv (processInit (boot base)) where
  shape := processInit_shape _
  runs := processInit_runsCurrent _
  listable j hj := by
    obtain rfl : j = 0 := Nat.lt_one_iff.mp hj
    refine @listable_of_strncpy _ [0x6B, 0x65, 0x72, 0x6E, 0x65, 0x6C] (default : Process).name
      ?_ ?_ ?_ (by decide)
    · simp only [processInit, proc, ProcessTable.modify]
      rw [slot_modifySlot _ (by decide), if_pos rfl]
    · simp only [processInit, proc, ProcessTable.modify]
      rw [slot_modifySlot _ (by decide), if_pos rfl, slot_map (n := 8) _ _ (by decide)]
      rfl
    · rfl

/-- What the slots in use have in common, after any calls. -/
theorem run_listable (base : Word) {calls : List ProcessCall}
    (hcalls : ∀ call ∈ calls, call.OneLine) :
    ListInv (run ProcessTable.step (processInit (boot base)) calls) :=
  inv_run ProcessTable.step (P := fun _ call => call.OneLine) (fun _ _ h hcall => h.step hcall)
    (listInv_init base) (along_of_forall _ _ fun call hcall _ => hcalls call hcall)

/-! ## Numbers -/

theorem itoaText_no_space (value : Word) : (0x20 : Byte) ∉ itoaText value 10 := by
  intro h
  rcases List.mem_append.mp h with hsign | hnum
  · split at hsign
    · exact absurd (List.mem_singleton.mp hsign) (by decide)
    · exact List.not_mem_nil hsign
  · exact ne_of_mem_numeral (by decide) (by decide) hnum (by decide) rfl

theorem itoaText_no_newline (value : Word) : (0x0A : Byte) ∉ itoaText value 10 := by
  intro h
  rcases List.mem_append.mp h with hsign | hnum
  · split at hsign
    · exact absurd (List.mem_singleton.mp hsign) (by decide)
    · exact List.not_mem_nil hsign
  · exact ne_of_mem_numeral (by decide) (by decide) hnum (by decide) rfl

theorem evalInteger_itoaText (value : Word) : evalInteger 10 (itoaText value 10) = value.toInt := by
  have hnumeral := isNumeral_numeral (b := 10) (by decide) (by decide) value.toInt.natAbs
  show evalInteger 10 ((if value.toInt < 0 ∧ (10 : Word) = 10 then [0x2D] else []) ++
    numeral 10 value.toInt.natAbs) = value.toInt
  by_cases hneg : value.toInt < 0
  · rw [if_pos ⟨hneg, rfl⟩, List.singleton_append, hnumeral.evalInteger_minus]
    omega
  · rw [if_neg fun h => hneg h.1, List.nil_append, hnumeral.evalInteger_eq]
    omega

/-- What is printed of an array is the string in it. -/
theorem printed_of_holds {array : Buffer} {text : List Byte} (h : array.Holds text) {size : Nat}
    (hsize : text.length < size) : printed array size = text := by
  have hstring : CString.ofBytes ((List.range size).map array.bytes) = ⟨text, h.nul_free⟩ := by
    refine CString.ofBytes_eq_of_getElem? fun j hj => ?_
    have hj' : j < size := Nat.lt_of_le_of_lt hj hsize
    rw [List.getElem?_map, List.getElem?_range hj', Option.map_some, Option.some_inj]
    by_cases hlt : j < text.length
    · rw [h.bytes j hlt, List.getD_eq_getElem _ _ hlt]
    · obtain rfl : j = text.length := Nat.le_antisymm hj (Nat.not_lt.mp hlt)
      rw [h.terminated, List.getD_eq_default _ _ (le_refl _)]
  rw [printed, hstring]

/-- A number is printed as its numeral when its array has room for that and a terminator. -/
theorem printed_itoa (value : Word) (array : Buffer) {size : Nat}
    (hsize : (itoaText value 10).length < size) :
    printed (itoa value array 10) size = itoaText value 10 :=
  printed_of_holds (itoa_spec value (by decide) (by decide) array).1 hsize

theorem written_itoa (value : Word) (array : Buffer) {size : Nat}
    (hsize : (itoaText value 10).length < size) (h : ∀ j ∈ array.written, j < size) :
    ∀ j ∈ (itoa value array 10).written, j < size := by
  intro j hj
  rcases (@itoa_spec value 10 (by decide) (by decide) array).2 j hj with hle | hold
  · exact Nat.lt_of_le_of_lt hle hsize
  · exact h j hold

/-- A number of one digit. -/
theorem length_itoaText_digit {i : Nat} (hi : i < 10) :
    (itoaText (BitVec.ofInt 32 i) 10).length = 1 := by
  have hall : ∀ d : Fin 10, (itoaText (BitVec.ofInt 32 (d.1 : Int)) 10).length = 1 := by decide
  exact hall ⟨i, hi⟩

theorem toInt_ofInt_digit {i : Nat} (hi : i < 10) : (BitVec.ofInt 32 i).toInt = i := by
  rw [BitVec.toInt_ofInt_eq_self (by decide) (by omega) (by omega)]

/-! ## One line -/

namespace ProcessReport

theorem word_append {l : List Byte} (hl : (0x20 : Byte) ∉ l) (rest : List Byte) :
    word (l ++ 0x20 :: rest) = l ∧ afterWord (l ++ 0x20 :: rest) = 0x20 :: rest := by
  have hall : ∀ c ∈ l, (!isSpace c) = true := by
    intro c hc
    have hne : c ≠ 0x20 := fun h => hl (h ▸ hc)
    simpa [isSpace] using hne
  rw [word, afterWord, List.takeWhile_append_of_pos hall, List.dropWhile_append_of_pos hall]
  simp [isSpace]

theorem gap_eq : gap = [0x20, 0x20] := by decide

theorem wideGap_eq : wideGap = [0x20, 0x20, 0x20, 0x20, 0x20, 0x20] := by decide

@[simp] theorem length_column (s : ProcessState) : s.column.length = 8 := by
  cases s with
  | empty => decide
  | running => decide
  | ready => decide
  | blocked => decide
  | zombie => decide

theorem readState_column {s : ProcessState} (hs : s ≠ .empty) : readState s.column = some s := by
  cases s with
  | empty => exact absurd rfl hs
  | running => decide
  | ready => decide
  | blocked => decide
  | zombie => decide

/-- The text of a line without its newline. -/
def lineText (pid : List Byte) (s : ProcessState) (runtime priority name : List Byte) :
    List Byte :=
  gap ++ pid ++ gap ++ s.column ++ gap ++ runtime ++ gap ++ gap ++ priority ++ wideGap ++ name

theorem readRow_lineText {pid runtime priority name : List Byte} {s : ProcessState}
    (hs : s ≠ .empty) (hpid : (0x20 : Byte) ∉ pid) (hruntime : (0x20 : Byte) ∉ runtime)
    (hpriority : (0x20 : Byte) ∉ priority) :
    readRow (lineText pid s runtime priority name) =
      some ⟨evalInteger 10 pid, s, evalInteger 10 runtime, evalInteger 10 priority, name⟩ := by
  have hline : (lineText pid s runtime priority name).drop 2 =
      pid ++ 0x20 :: 0x20 :: (s.column ++ (gap ++ (runtime ++ 0x20 :: 0x20 :: 0x20 :: 0x20 ::
        (priority ++ 0x20 :: (wideGap.drop 1 ++ name))))) := by
    simp [lineText, gap_eq, wideGap_eq]
  have htake : ∀ rest : List Byte, (s.column ++ (gap ++ rest)).take 8 = s.column :=
    fun rest => List.take_left' (length_column s)
  have hdrop : ∀ rest : List Byte, (s.column ++ (gap ++ rest)).drop 10 = rest := by
    intro rest
    rw [← List.append_assoc]
    exact List.drop_left' (by rw [List.length_append, length_column, gap_eq]; rfl)
  simp only [readRow, hline, word_append hpid, List.drop_succ_cons, List.drop_zero, htake, hdrop,
    word_append hruntime, word_append hpriority, readState_column hs, Option.map_some]
  simp [wideGap_eq]

/-- The text of the line for slot `i`, without its newline. -/
def slotText (i : Nat) (p : Process) : List Byte :=
  lineText (itoaText (BitVec.ofInt 32 i) 10) p.state (itoaText p.runtime 10) (itoaText 1 10)
    (CString.ofArray p.name).bytes

end ProcessReport

/-- What the loop prints for a listable process. -/
theorem processLine_eq {p : Process} {i : Nat} (hi : i < maxProcesses) (hpid : p.pid = i)
    (h : Listable p) (l : ListLocals) :
    processLine p (l.fill p) = ProcessReport.slotText i p ++ [0x0A] := by
  have hpidlen := length_itoaText_digit (i := i) (by unfold maxProcesses at hi; omega)
  have hruntime := length_itoaText_ten p.runtime
  simp only [processLine, ListLocals.fill, hpid, h.priority, ProcessReport.slotText,
    ProcessReport.lineText]
  rw [printed_itoa _ l.pidStr (by rw [hpidlen]; decide),
    printed_itoa _ l.runtimeStr (by unfold runtimeStrSize; omega),
    printed_itoa _ l.priorityStr (by decide), show ascii "\n" = [0x0A] by decide]

/-- A line is read back as the process in the slot. -/
theorem readRow_line {p : Process} {i : Nat} (hi : i < maxProcesses) (hstate : p.state ≠ .empty)
    (h : Listable p) :
    ProcessReport.readRow (ProcessReport.slotText i p) = some (ProcessReport.Row.of i p) := by
  rw [ProcessReport.slotText, ProcessReport.readRow_lineText hstate (itoaText_no_space _)
    (itoaText_no_space _) (itoaText_no_space _), evalInteger_itoaText, evalInteger_itoaText,
    evalInteger_itoaText, toInt_ofInt_digit (by unfold maxProcesses at hi; omega),
    ProcessReport.Row.of, h.priority]

/-- The text of a line has no newline. -/
theorem slotText_no_newline {p : Process} {i : Nat} (h : Listable p) :
    (0x0A : Byte) ∉ ProcessReport.slotText i p := by
  have hgap : (0x0A : Byte) ∉ gap := by decide
  have hwide : (0x0A : Byte) ∉ wideGap := by decide
  have hcolumn : (0x0A : Byte) ∉ p.state.column := by cases p.state <;> decide
  simp only [ProcessReport.slotText, ProcessReport.lineText, List.mem_append, hgap, hwide, hcolumn,
    itoaText_no_newline, h.no_newline, or_self, not_false_eq_true]

/-! ## The whole list -/

/-- Lines that end with `c` are told apart by it. -/
theorem splitOn_flatMap {c : Byte} {lines : List (List Byte)} (h : ∀ line ∈ lines, c ∉ line) :
    (lines.flatMap fun line => line ++ [c]).splitOn c = lines ++ [[]] := by
  induction lines with
  | nil => rfl
  | cons line lines ih =>
    rw [List.flatMap_cons, List.append_assoc, List.singleton_append,
      List.splitOn_append_cons_self_of_not_mem (h line List.mem_cons_self),
      ih fun l hl => h l (List.mem_cons_of_mem line hl), List.cons_append]

/-- The lines of the slots from `i` on, and what they say. -/
theorem loop_lines {t : ProcessTable} (h : ListInv t) (n : Nat) :
    ∀ (i : Nat) (l : ListLocals), i + n ≤ t.nextPid →
      ∃ lines : List (List Byte),
        (processPrintList.loop t l i n).2 = (lines.flatMap fun line => line ++ [0x0A]) ∧
        (∀ line ∈ lines, (0x0A : Byte) ∉ line) ∧
        lines.mapM ProcessReport.readRow = some (ProcessReport.rowsFrom t i n) := by
  induction n with
  | zero => exact fun i l _ => ⟨[], rfl, fun _ hline => absurd hline List.not_mem_nil, rfl⟩
  | succ n ih =>
    intro i l hn
    rw [processPrintList.loop, ProcessReport.rowsFrom]
    by_cases hstate : (t.proc i).state = .empty
    · rw [if_pos hstate, if_pos hstate]
      exact ih (i + 1) l (by omega)
    · have hp := h.listable i (by omega)
      have hi : i < maxProcesses := Nat.lt_of_lt_of_le (by omega) h.shape.next_le
      obtain ⟨lines, htext, hlines, hread⟩ := ih (i + 1) (l.fill (t.proc i)) (by omega)
      rw [if_neg hstate, if_neg hstate]
      refine ⟨ProcessReport.slotText i (t.proc i) :: lines, ?_, ?_, ?_⟩
      · dsimp only
        rw [processLine_eq hi (h.shape.pid i (by omega)) hp, htext, List.flatMap_cons]
      · intro line hline
        rcases List.mem_cons.mp hline with rfl | hline
        · exact slotText_no_newline hp
        · exact hlines line hline
      · rw [List.mapM_cons, readRow_line hi hstate hp, hread]
        rfl

/-- The slots from `next_pid` on are empty, so the loop misses none. -/
theorem rowsFrom_next {t : ProcessTable} (h : TableShape t) :
    ProcessReport.rowsFrom t 0 t.nextPid = ProcessReport.rows t := by
  have hsplit : ∀ n i m, ProcessReport.rowsFrom t i (n + m)
      = ProcessReport.rowsFrom t i n ++ ProcessReport.rowsFrom t (i + n) m := by
    intro n
    induction n with
    | zero => intro i m; simp [ProcessReport.rowsFrom]
    | succ n ih =>
      intro i m
      rw [Nat.add_right_comm, ProcessReport.rowsFrom, ProcessReport.rowsFrom, ih,
        show i + 1 + n = i + (n + 1) by omega]
      split
      · rfl
      · rfl
  have hempty : ∀ n i, t.nextPid ≤ i → i + n ≤ maxProcesses →
      ProcessReport.rowsFrom t i n = [] := by
    intro n
    induction n with
    | zero => intro i _ _; rfl
    | succ n ih =>
      intro i hi hn
      rw [ProcessReport.rowsFrom, if_pos (h.beyond i (by omega) hi)]
      exact ih (i + 1) (by omega) (by omega)
  have hle := h.next_le
  have hrows := hsplit t.nextPid 0 (maxProcesses - t.nextPid)
  rw [Nat.add_sub_cancel' hle, Nat.zero_add, hempty _ _ (le_refl _) (by omega),
    List.append_nil] at hrows
  exact hrows.symm

/-! ### The arrays -/

/-- Every store is inside its array. -/
structure ListLocals.Inside (l : ListLocals) : Prop where
  pidStr : ∀ j ∈ l.pidStr.written, j < pidStrSize
  runtimeStr : ∀ j ∈ l.runtimeStr.written, j < runtimeStrSize
  priorityStr : ∀ j ∈ l.priorityStr.written, j < priorityStrSize

theorem ListLocals.Inside.fill {l : ListLocals} (hl : l.Inside) {p : Process} {i : Nat}
    (hi : i < maxProcesses) (hpid : p.pid = i) (h : Listable p) : (l.fill p).Inside where
  pidStr := by
    have hlen := length_itoaText_digit (i := i) (by unfold maxProcesses at hi; omega)
    simp only [ListLocals.fill, hpid]
    exact written_itoa _ _ (by rw [hlen]; decide) hl.pidStr
  runtimeStr := by
    have hlen := length_itoaText_ten p.runtime
    exact written_itoa _ _ (by unfold runtimeStrSize; omega) hl.runtimeStr
  priorityStr := by
    simp only [ListLocals.fill, h.priority]
    exact written_itoa _ _ (by decide) hl.priorityStr

theorem loop_inside {t : ProcessTable} (h : ListInv t) (n : Nat) :
    ∀ (i : Nat) (l : ListLocals), i + n ≤ t.nextPid → l.Inside →
      (processPrintList.loop t l i n).1.Inside := by
  induction n with
  | zero => exact fun _ _ _ hl => hl
  | succ n ih =>
    intro i l hn hl
    rw [processPrintList.loop]
    split
    · exact ih (i + 1) l (by omega) hl
    · have hi : i < maxProcesses := Nat.lt_of_lt_of_le (by omega) h.shape.next_le
      exact ih (i + 1) _ (by omega)
        (hl.fill hi (h.shape.pid i (by omega)) (h.listable i (by omega)))

/-- The list of a table whose slots are listable. -/
theorem printList_of_inv {t : ProcessTable} (h : ListInv t) {l : ListLocals} (hl : l.Inside) :
    ProcessReport.read (processPrintList t l).2 = some (ProcessReport.rows t) ∧
      (processPrintList t l).1.Inside := by
  have hfit : 0 + t.nextPid ≤ t.nextPid := (Nat.zero_add _).le
  refine ⟨?_, loop_inside h t.nextPid 0 l hfit hl⟩
  obtain ⟨lines, htext, hlines, hread⟩ := loop_lines h t.nextPid 0 l hfit
  have hhead : (processPrintList t l).2
      = (listHeader.dropLast :: listRule.dropLast :: lines).flatMap fun line => line ++ [0x0A] := by
    rw [processPrintList, htext, List.flatMap_cons, List.flatMap_cons, List.append_assoc]
    rfl
  have hall : ∀ line ∈ listHeader.dropLast :: listRule.dropLast :: lines,
      (0x0A : Byte) ∉ line := by
    intro line hline
    rcases List.mem_cons.mp hline with rfl | hline
    · decide
    rcases List.mem_cons.mp hline with rfl | hline
    · decide
    · exact hlines line hline
  rw [ProcessReport.read, hhead, splitOn_flatMap hall, List.cons_append, List.cons_append,
    List.drop_succ_cons, List.drop_succ_cons, List.drop_zero, List.dropLast_concat, hread,
    rowsFrom_next h.shape]

/--
**The process list says what the table holds.**

From `process_init` on, after any calls whose process names have no newline, and whatever the stack
holds: a reader of the printed list gets back exactly the slots in use of the whole table, in order,
each with its number, state, runtime, priority and name. The runtime is read back as the signed
number that `itoa` takes it for, so one of 2^31 and more comes out negative. The three calls of
`itoa` for each line store only inside their arrays of 8, 16 and 4 bytes, and each name that is
printed ends inside its field.
-/
theorem process_list_read_back (base : Word) {calls : List ProcessCall}
    (hcalls : ∀ call ∈ calls, call.OneLine) (stack : Nat → Nat → Byte) :
    let t := run ProcessTable.step (processInit (boot base)) calls
    let list := processPrintList t ⟨.fresh (stack 0), .fresh (stack 1), .fresh (stack 2)⟩
    ProcessReport.read list.2 = some (ProcessReport.rows t) ∧ list.1.Inside ∧
      ∀ j < t.nextPid, slot (t.proc j).name 31 = 0 := by
  have h := run_listable base hcalls
  have hfresh : ListLocals.Inside ⟨.fresh (stack 0), .fresh (stack 1), .fresh (stack 2)⟩ :=
    ⟨fun _ hj => absurd hj List.not_mem_nil, fun _ hj => absurd hj List.not_mem_nil,
      fun _ hj => absurd hj List.not_mem_nil⟩
  obtain ⟨hread, hinside⟩ := printList_of_inv h hfresh
  exact ⟨hread, hinside, fun j hj => (h.listable j hj).terminated⟩

/-- Two processes are created, the kernel exits, and the list has three lines. -/
theorem process_list_read_back_exit :
    ProcessReport.read (processPrintList
        (run ProcessTable.step (processInit (boot 0x100000))
          [.create [0x73, 0x68] 0x200000, .create [0x6E, 0x65, 0x74] 0, .exit 0 default])
        ⟨.fresh fun _ => 0xCC, .fresh fun _ => 0xCC, .fresh fun _ => 0xCC⟩).2 =
      some [⟨0, .zombie, 1, 1, [0x6B, 0x65, 0x72, 0x6E, 0x65, 0x6C]⟩,
        ⟨1, .running, 0, 1, [0x73, 0x68]⟩, ⟨2, .ready, 0, 1, [0x6E, 0x65, 0x74]⟩] :=
  (@process_list_read_back 0x100000
    [.create [0x73, 0x68] 0x200000, .create [0x6E, 0x65, 0x74] 0, .exit 0 default]
    (by simp [ProcessCall.OneLine]) fun _ _ => 0xCC).1.trans (by decide +kernel)

end MinimalistOS
