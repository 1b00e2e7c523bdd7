import MinimalistOS.Kernel.Shell
import MinimalistOS.Spec.Terminal
import Mathlib.Data.List.DropRight

/-!
# Reading commands

* `Holds` — the buffer as a list
* `Holds.input` — one character edits the list
* `shell_line_discipline_iff` — when the command is the one a line discipline makes
* `shell_serial_lossless_iff` — when the commands are the lines that arrive on the serial port

Two things go wrong. Trimming compares signed characters, so it takes bytes from 0x80 on for
blanks. And after a carriage return the next byte is read to see whether it is a newline; when it is
not, it is lost.
-/

namespace MinimalistOS

open Infra

namespace Shell

/-! ## The buffer as a list -/

/-- The buffer holds the line, and zeros behind it. -/
structure Holds (s : ShellLine) (line : List Byte) : Prop where
  length_le : line.length ≤ 255
  nul_free : ∀ b ∈ line, b ≠ 0
  pos : s.bufferPos = line.length
  bytes : ∀ i, slot s.inputBuffer i = line.getD i 0

theorem holds_empty : Holds .empty [] where
  length_le := by simp
  nul_free := by simp
  pos := rfl
  bytes i := by
    by_cases hi : i < 256
    · simp [ShellLine.empty, slot_replicate _ hi]
    · simp only [ShellLine.empty, slot, Vector.getElem?_eq_none (Nat.le_of_not_lt hi)]
      rfl

/-- The string in the buffer. -/
theorem Holds.ofArray {s : ShellLine} {line : List Byte} (h : Holds s line) :
    CString.ofArray s.inputBuffer = ⟨line, h.nul_free⟩ := by
  apply CString.ofBytes_eq_of_getElem?
  intro j hj
  have hlt : j < 256 := by
    have := h.length_le
    simp only at hj
    omega
  rw [← h.bytes j]
  simp [slot, hlt]

/-- One byte more in a line that is followed by zeros. -/
theorem getD_concat (line : List Byte) (c : Byte) (i : Nat) :
    (line ++ [c]).getD i 0 = if i = line.length then c else line.getD i 0 := by
  rcases lt_trichotomy i line.length with hlt | heq | hgt
  · simp [List.getElem?_append_left hlt, hlt.ne]
  · simp [heq]
  · have hout : (line ++ [c]).length ≤ i := by
      rw [List.length_append, List.length_singleton]
      omega
    rw [if_neg hgt.ne', List.getD_eq_getElem?_getD, List.getD_eq_getElem?_getD,
      List.getElem?_eq_none hout, List.getElem?_eq_none hgt.le]

theorem Holds.push {s : ShellLine} {line : List Byte} (h : Holds s line) (hroom : line.length < 255)
    {c : Byte} (hc : c ≠ 0) :
    Holds { s.put s.bufferPos c with bufferPos := s.bufferPos + 1 } (line ++ [c]) where
  length_le := by
    rw [List.length_append, List.length_singleton]
    omega
  nul_free b hb := by
    rcases List.mem_append.mp hb with hb | hb
    · exact h.nul_free b hb
    · rwa [List.mem_singleton.mp hb]
  pos := by simp [h.pos]
  bytes i := by
    simp only [ShellLine.put, h.pos, Int.toNat_natCast]
    rw [slot_setIfInBounds _ (by omega), h.bytes, getD_concat]

theorem Holds.pop {s : ShellLine} {line : List Byte} {c : Byte} (h : Holds s (line ++ [c])) :
    Holds { s.put (s.bufferPos - 1) 0 with bufferPos := s.bufferPos - 1 } line := by
  have hlen := h.length_le
  rw [List.length_append, List.length_singleton] at hlen
  have hpos : s.bufferPos - 1 = line.length := by
    rw [h.pos, List.length_append, List.length_singleton]
    omega
  refine ⟨by omega, fun b hb => h.nul_free b (List.mem_append_left _ hb), hpos, fun i => ?_⟩
  simp only [ShellLine.put, hpos, Int.toNat_natCast]
  rw [slot_setIfInBounds _ (by omega), h.bytes, getD_concat]
  by_cases hi : i = line.length
  · simp [hi]
  · simp [hi]

/-! ## Editing -/

/-- What trimming takes for a blank: a signed character of at most 32. -/
def trimmed (b : Byte) : Bool := decide (b.toInt ≤ 32)

theorem Holds.trimLoop {line : List Byte} {s : ShellLine} {n : Nat} (h : Holds s line)
    (hn : line.length ≤ n) : Holds (s.trimLoop n) (line.rdropWhile trimmed) := by
  induction line using List.reverseRecOn generalizing s n with
  | nil =>
    have hpos : ¬ 0 < s.bufferPos := by simp [h.pos]
    cases n with
    | zero => simpa [ShellLine.trimLoop] using h
    | succ n => simpa [ShellLine.trimLoop, hpos] using h
  | append_singleton line c ih =>
    rw [List.length_append, List.length_singleton] at hn
    obtain ⟨m, rfl⟩ : ∃ m, n = m + 1 := ⟨n - 1, by omega⟩
    have hpos : s.bufferPos - 1 = line.length := by
      rw [h.pos, List.length_append, List.length_singleton]
      omega
    have hlast : slot s.inputBuffer (s.bufferPos - 1).toNat = c := by
      rw [hpos, Int.toNat_natCast, h.bytes, getD_concat, if_pos rfl]
    rw [ShellLine.trimLoop, hlast, List.rdropWhile_concat]
    by_cases hc : c.toInt ≤ 32
    · rw [if_pos ⟨by omega, hc⟩, if_pos (by simpa [trimmed] using hc)]
      exact ih h.pop (by omega)
    · rw [if_neg fun hand => hc hand.2, if_neg (by simpa [trimmed] using hc)]
      exact h

theorem Holds.trim {s : ShellLine} {line : List Byte} (h : Holds s line) :
    Holds s.trim (line.rdropWhile trimmed) :=
  h.trimLoop (by rw [h.pos, Int.toNat_natCast])

/-- The terminator that is written at the end of the line is there already. -/
theorem Holds.terminate {s : ShellLine} {line : List Byte} (h : Holds s line) :
    Holds (s.put s.bufferPos 0) line := by
  have hlen := h.length_le
  refine ⟨hlen, h.nul_free, h.pos, fun i => ?_⟩
  simp only [ShellLine.put, h.pos, Int.toNat_natCast]
  rw [slot_setIfInBounds _ (by omega), h.bytes]
  by_cases hi : i = line.length
  · simp [hi]
  · simp [hi]

/-- A line as a command: an empty one is none. -/
def emit (line : List Byte) : List (List Byte) := if line = [] then [] else [line]

@[simp] theorem emit_nil : emit [] = [] := rfl

theorem emit_inj {l l' : List Byte} : emit l = emit l' ↔ l = l' := by
  unfold emit
  split_ifs with hl hl'
  · simp [hl, hl']
  · simpa [hl] using Ne.symm hl'
  · next hl' => simpa [hl'] using hl
  · simp

/-- What an observer sees of a turn: the string passed to `shell_execute_command`. -/
def executed (_ : Byte) (command : Option CString) : List (List Byte) :=
  (command.map CString.bytes).toList

/-- **At the end of a line** it is trimmed and executed, and a new line starts. -/
theorem Holds.input_end {s : ShellLine} {line : List Byte} (h : Holds s line) {c : Byte}
    (hc : c = newline ∨ c = carriageReturn) :
    (s.input c).1 = .empty ∧ executed c (s.input c).2 = emit (line.rdropWhile trimmed) := by
  have hne : c ≠ 0 := by
    rcases hc with rfl | rfl
    · decide
    · decide
  have htrim := h.terminate.trim
  simp only [ShellLine.input, if_neg hne, if_pos hc, true_and]
  rw [htrim.pos, htrim.ofArray]
  by_cases hnil : line.rdropWhile trimmed = []
  · simp [hnil, executed]
  · have hpos : (0 : Int) < (line.rdropWhile trimmed).length := by
      have := List.length_pos_iff.mpr hnil
      omega
    rw [if_pos hpos]
    simp [executed, emit, hnil]

/-! ## The line discipline -/

/-- One character edits a line of at most 255. -/
def editLine (line : List Byte) (c : Byte) : List Byte :=
  if c = 0 then line
  else if c = backspace ∨ c = delete then line.dropLast
  else if line.length < 255 then line ++ [c]
  else line

/-- **One character of a line** edits it as the line discipline does. -/
theorem Holds.input {s : ShellLine} {line : List Byte} (h : Holds s line) {c : Byte}
    (hc : ¬ (c = newline ∨ c = carriageReturn)) :
    Holds (s.input c).1 (editLine line c) ∧ (s.input c).2 = none := by
  unfold ShellLine.input editLine
  by_cases h0 : c = 0
  · simpa [h0] using h
  · rw [if_neg h0, if_neg hc, if_neg h0]
    by_cases hdel : c = backspace ∨ c = delete
    · rw [if_pos hdel, if_pos hdel]
      rcases List.eq_nil_or_concat line with rfl | ⟨front, last, rfl⟩
      · simpa [h.pos] using h
      · have hpos : 0 < s.bufferPos := by simp [h.pos]
        rw [if_pos hpos, List.concat_eq_append, List.dropLast_concat]
        exact ⟨Holds.pop (by simpa using h), rfl⟩
    · rw [if_neg hdel, if_neg hdel, h.pos]
      by_cases hroom : line.length < 255
      · rw [if_pos (by simp only [shellBufferSize]; omega), if_pos hroom, ← h.pos]
        exact ⟨h.push hroom h0, rfl⟩
      · rw [if_neg (by simp only [shellBufferSize]; omega), if_neg hroom]
        exact ⟨h, rfl⟩

theorem Holds.run {s : ShellLine} {line : List Byte} (h : Holds s line) {bytes : List Byte}
    (hbytes : ∀ b ∈ bytes, ¬ (b = newline ∨ b = carriageReturn)) :
    Holds (run ShellLine.input s bytes) (bytes.foldl editLine line) ∧
    observe ShellLine.input executed s bytes = [] := by
  induction bytes generalizing s line with
  | nil => exact ⟨h, rfl⟩
  | cons c bytes ih =>
    obtain ⟨hnext, hnone⟩ := h.input (hbytes c List.mem_cons_self)
    obtain ⟨hend, hempty⟩ := ih hnext fun b hb => hbytes b (List.mem_cons_of_mem c hb)
    refine ⟨hend, ?_⟩
    rw [observe_cons, hnone, hempty]
    rfl

/-- A blank or a control character. -/
def blank (b : Byte) : Bool := decide (1 ≤ b.toNat ∧ b.toNat ≤ 0x20)

/-- The line that the characters make, without blanks and control characters at its end. -/
def disciplined (bytes : List Byte) : List Byte := (bytes.foldl editLine []).rdropWhile blank

/-- Dropping more after dropping less. -/
theorem rdropWhile_rdropWhile {p q : Byte → Bool} (h : ∀ b, p b = true → q b = true)
    (l : List Byte) : (l.rdropWhile p).rdropWhile q = l.rdropWhile q := by
  induction l using List.reverseRecOn with
  | nil => rfl
  | append_singleton l c ih =>
    rw [List.rdropWhile_concat p]
    by_cases hc : p c = true
    · rw [if_pos hc, ih, List.rdropWhile_concat_pos q _ _ (h c hc)]
    · rw [if_neg hc]

theorem trimmed_of_blank {b : Byte} (h : blank b = true) : trimmed b = true := by
  simp only [blank, decide_eq_true_eq] at h
  simp only [trimmed, decide_eq_true_eq, BitVec.toInt_eq_toNat_cond]
  rw [if_pos (by omega)]
  omega

/-- Beside blanks, only bytes from 0x80 on are trimmed. -/
theorem trimmed_iff {b : Byte} (h0 : b ≠ 0) (h : ¬ blank b = true) :
    trimmed b = true ↔ ¬ b.toNat < 0x80 := by
  have hpos : 0 < b.toNat := by bv_omega
  simp only [blank, decide_eq_true_eq] at h
  simp only [trimmed, decide_eq_true_eq, BitVec.toInt_eq_toNat_cond]
  have hlt := b.isLt
  split <;> omega

/-- Trimming signed characters trims the same exactly when the last byte that is no blank is below
0x80. -/
theorem rdropWhile_trimmed_eq_iff {l : List Byte} (hl : ∀ b ∈ l, b ≠ 0) :
    l.rdropWhile trimmed = l.rdropWhile blank ↔
      ∀ b ∈ (l.rdropWhile blank).getLast?, b.toNat < 0x80 := by
  rw [← rdropWhile_rdropWhile (fun _ => trimmed_of_blank) l, List.rdropWhile_eq_self_iff]
  by_cases hnil : l.rdropWhile blank = []
  · simp [hnil]
  · have hlast := List.rdropWhile_last_not blank l hnil
    have hmem : (l.rdropWhile blank).getLast hnil ∈ l :=
      (List.rdropWhile_prefix blank l).subset (List.getLast_mem hnil)
    have hiff := trimmed_iff (hl _ hmem) hlast
    rw [List.getLast?_eq_some_getLast hnil]
    constructor
    · intro h b hb
      rw [← Option.some.inj hb]
      by_contra hge
      exact h hnil (hiff.mpr hge)
    · intro h _ htrim
      exact hiff.mp htrim (h _ rfl)

/-- What is executed of a line. -/
theorem observe_line {bytes : List Byte}
    (hbytes : ∀ b ∈ bytes, ¬ (b = newline ∨ b = carriageReturn)) :
    observe ShellLine.input executed .empty (bytes ++ [newline])
      = emit ((bytes.foldl editLine []).rdropWhile trimmed) := by
  obtain ⟨hline, hnone⟩ := holds_empty.run hbytes
  have hend := (hline.input_end (Or.inl rfl : newline = newline ∨ newline = carriageReturn)).2
  rw [observe_append, hnone, List.nil_append, observe_cons, hend]
  simp [observe]

/--
**When a line is edited as by the line discipline.**

For every sequence of characters without line ends, followed by a newline: the position in the
buffer is never outside of it, and the command executed is the line the characters make, without
blanks and control characters at its end (and none if that is empty), if and only if this line does
not end in a byte of at least 0x80.
-/
theorem shell_line_discipline_iff {bytes : List Byte}
    (hbytes : ∀ b ∈ bytes, ¬ (b = newline ∨ b = carriageReturn)) :
    (∀ pre, pre <+: bytes → 0 ≤ (run ShellLine.input .empty pre).bufferPos ∧
      (run ShellLine.input .empty pre).bufferPos ≤ 255) ∧
    (observe ShellLine.input executed .empty (bytes ++ [newline]) = emit (disciplined bytes) ↔
      ∀ b ∈ (disciplined bytes).getLast?, b.toNat < 0x80) := by
  constructor
  · intro pre hpre
    have hpos := (holds_empty.run fun b hb => hbytes b (hpre.subset hb)).1
    have hlen := hpos.length_le
    rw [hpos.pos]
    omega
  · rw [observe_line hbytes, emit_inj]
    exact rdropWhile_trimmed_eq_iff (holds_empty.run hbytes).1.nul_free

/-- A line with a typing error in it. -/
theorem shell_line_discipline_corrected :
    observe ShellLine.input executed .empty ([0x70, 0x78, 0x08, 0x73, 0x20] ++ [newline])
      = emit (disciplined [0x70, 0x78, 0x08, 0x73, 0x20]) := by
  have hbytes : ∀ b ∈ ([0x70, 0x78, 0x08, 0x73, 0x20] : List Byte),
      ¬ (b = newline ∨ b = carriageReturn) := by decide
  exact (shell_line_discipline_iff hbytes).2.mpr (by decide)

/-- A line of one byte from the upper half is trimmed to nothing. -/
theorem shell_line_upper_half_lost :
    observe ShellLine.input executed .empty ([0xC3] ++ [newline]) = [] ∧
    emit (disciplined [0xC3]) = [[0xC3]] := by
  constructor
  · rw [observe_line (by decide)]
    decide
  · decide

/-! ## The lines of a stream -/

/-- The byte ends a line. -/
def EndsLine (b : Byte) : Prop := b = carriageReturn ∨ b = newline

instance (b : Byte) : Decidable (EndsLine b) := inferInstanceAs (Decidable (_ ∨ _))

@[simp] theorem endsLine_carriageReturn : EndsLine carriageReturn := Or.inl rfl

@[simp] theorem endsLine_newline : EndsLine newline := Or.inr rfl

/-- The lines of a stream: what stands before each CR LF, CR or LF. `line` is what there is of the
first one already. -/
def lines (line : List Byte) : List Byte → List (List Byte)
  | [] => []
  | [c] => if EndsLine c then [line] else []
  | c :: d :: rest =>
    if c = carriageReturn ∧ d = newline then line :: lines [] rest
    else if EndsLine c then line :: lines [] (d :: rest)
    else lines (line ++ [c]) (d :: rest)

/-- A space. -/
def space (b : Byte) : Bool := b == 0x20

/-- The commands in a stream: its lines without trailing spaces, empty ones skipped. -/
def commands (stream : List Byte) : List (List Byte) :=
  (lines [] stream).flatMap fun line => emit (line.rdropWhile space)

/-- The same with an empty line between CR and LF, which makes no difference. -/
def pieces (line : List Byte) : List Byte → List (List Byte)
  | [] => []
  | c :: rest =>
    if EndsLine c then emit (line.rdropWhile space) ++ pieces [] rest
    else pieces (line ++ [c]) rest

theorem lines_eq_pieces (line stream : List Byte) :
    (lines line stream).flatMap (fun line => emit (line.rdropWhile space))
      = pieces line stream := by
  fun_induction lines line stream with
  | case1 line => rfl
  | case2 line c h => simp [pieces, h]
  | case3 line c h => simp [pieces, h]
  | case4 line c d rest h ih =>
    obtain ⟨rfl, rfl⟩ := h
    simp [pieces, ih]
  | case5 line c d rest h hend ih => simp [pieces, hend] at ih ⊢; rw [ih]
  | case6 line c d rest h hend ih => simp [pieces, hend] at ih ⊢; rw [ih]

/-- The commands that `shell_run` sees: after a carriage return it skips a byte. -/
def seen (line : List Byte) : List Byte → List (List Byte)
  | [] => []
  | [c] => if EndsLine c then emit (line.rdropWhile space) else []
  | c :: d :: rest =>
    if c = carriageReturn then emit (line.rdropWhile space) ++ seen [] rest
    else if c = newline then emit (line.rdropWhile space) ++ seen [] (d :: rest)
    else seen (line ++ [c]) (d :: rest)

/-- The first line of a stream, if it has an end. -/
def firstLine : List Byte → Option (List Byte)
  | [] => none
  | c :: rest => if EndsLine c then some [] else (firstLine rest).map (c :: ·)

/-- Nothing is lost: after each carriage return that ends a line, the stream goes on with a blank
line (as with LF), or with a line that does not end. The byte right after such a carriage return
does not end a line, also when it is one itself. -/
def Lossless : List Byte → Prop
  | [] => True
  | [_] => True
  | c :: d :: rest =>
    if c = carriageReturn then
      (∀ line ∈ firstLine (d :: rest), ∀ b ∈ line, space b = true) ∧ Lossless rest
    else Lossless (d :: rest)

/-! ### What is lost -/

/-- How many bytes the commands have together. -/
def total (commands : List (List Byte)) : Nat := commands.flatten.length

@[simp] theorem total_append (l l' : List (List Byte)) : total (l ++ l') = total l + total l' := by
  simp [total]

@[simp] theorem total_emit (line : List Byte) : total (emit line) = line.length := by
  unfold emit total
  split_ifs with h
  · simp [h]
  · simp

theorem rdropWhile_space_cons (c : Byte) (l : List Byte) :
    (c :: l).rdropWhile space
      = if ∀ b ∈ c :: l, space b = true then [] else c :: l.rdropWhile space := by
  induction l using List.reverseRecOn with
  | nil => simp [List.rdropWhile_singleton]
  | append_singleton l d ih =>
    rw [← List.cons_append, List.rdropWhile_concat, List.rdropWhile_concat, ih]
    by_cases hd : space d = true
    · simp only [hd, if_true, List.mem_cons, List.mem_append]
      congr 1
      simp [hd, or_imp, forall_and]
    · rw [if_neg hd, if_neg hd, if_neg]
      · rfl
      · intro hall
        exact hd (hall d (by simp))

/-- The first line, and the rest. -/
theorem pieces_of_firstLine {stream l : List Byte} (h : firstLine stream = some l) :
    ∃ rest, ∀ line, pieces line stream = emit ((line ++ l).rdropWhile space) ++ rest := by
  induction stream generalizing l with
  | nil => simp [firstLine] at h
  | cons c stream ih =>
    rw [firstLine] at h
    by_cases hc : EndsLine c
    · rw [if_pos hc, Option.some.injEq] at h
      subst h
      exact ⟨pieces [] stream, fun line => by rw [pieces, if_pos hc, List.append_nil]⟩
    · rw [if_neg hc, Option.map_eq_some_iff] at h
      obtain ⟨l', hl', rfl⟩ := h
      obtain ⟨rest, hrest⟩ := ih hl'
      refine ⟨rest, fun line => ?_⟩
      rw [pieces, if_neg hc, hrest, List.append_assoc, List.singleton_append]

theorem pieces_of_firstLine_none {stream : List Byte} (h : firstLine stream = none)
    (line : List Byte) : pieces line stream = [] := by
  induction stream generalizing line with
  | nil => rfl
  | cons c stream ih =>
    rw [firstLine] at h
    by_cases hc : EndsLine c
    · simp [hc] at h
    · rw [if_neg hc, Option.map_eq_none_iff] at h
      rw [pieces, if_neg hc, ih h]

/-- Without its first byte a stream has the same commands when its first line is blank or does not
end, and otherwise one byte less of them. -/
theorem pieces_cons (d : Byte) (rest : List Byte) :
    ((∀ line ∈ firstLine (d :: rest), ∀ b ∈ line, space b = true) ∧
      pieces [] (d :: rest) = pieces [] rest) ∨
    (¬ (∀ line ∈ firstLine (d :: rest), ∀ b ∈ line, space b = true) ∧
      total (pieces [] (d :: rest)) = total (pieces [] rest) + 1) := by
  rw [firstLine, pieces]
  by_cases hd : EndsLine d
  · left
    simp [hd]
  · rw [if_neg hd, if_neg hd, List.nil_append]
    cases hfirst : firstLine rest with
    | none =>
      left
      rw [pieces_of_firstLine_none hfirst, pieces_of_firstLine_none hfirst]
      simp
    | some l =>
      obtain ⟨tail, htail⟩ := pieces_of_firstLine hfirst
      rw [htail, htail, List.singleton_append, List.nil_append, rdropWhile_space_cons]
      by_cases hblank : ∀ b ∈ d :: l, space b = true
      · left
        have hl : l.rdropWhile space = [] := List.rdropWhile_eq_nil_iff.mpr
          fun b hb => hblank b (List.mem_cons_of_mem d hb)
        rw [if_pos hblank, hl]
        simpa using hblank
      · right
        rw [if_neg hblank]
        refine ⟨by simpa using hblank, ?_⟩
        simp only [total_append, total_emit, List.length_cons]
        omega

theorem total_seen_le (line stream : List Byte) :
    total (seen line stream) ≤ total (pieces line stream) := by
  fun_induction seen line stream with
  | case1 line => simp [pieces]
  | case2 line c h => simp [pieces, h]
  | case3 line c h => simp [total]
  | case4 line d rest ih =>
    have hcons := pieces_cons d rest
    rw [pieces, if_pos endsLine_carriageReturn, total_append, total_append]
    rcases hcons with ⟨-, heq⟩ | ⟨-, heq⟩
    · rw [heq]
      omega
    · omega
  | case5 line d rest h ih =>
    rw [pieces, if_pos endsLine_newline, total_append, total_append]
    omega
  | case6 line c d rest h h' ih =>
    rw [pieces, if_neg (by simp [EndsLine, h, h'])]
    exact ih

/-- **What is seen are the commands exactly when nothing is lost**: a byte that is lost is missing
in the sum of the lengths. -/
theorem seen_eq_pieces_iff (line stream : List Byte) :
    seen line stream = pieces line stream ↔ Lossless stream := by
  fun_induction seen line stream with
  | case1 line => simp [pieces, Lossless]
  | case2 line c h => simp [pieces, Lossless, h]
  | case3 line c h => simp [pieces, Lossless, h]
  | case4 line d rest ih =>
    rw [pieces, if_pos endsLine_carriageReturn, List.append_cancel_left_eq, Lossless, if_pos rfl]
    rcases pieces_cons d rest with ⟨hblank, heq⟩ | ⟨hblank, heq⟩
    · rw [heq, ih]
      exact ⟨fun h => ⟨hblank, h⟩, fun h => h.2⟩
    · refine iff_of_false (fun h => ?_) fun h => hblank h.1
      have hle := total_seen_le [] rest
      rw [h, heq] at hle
      omega
  | case5 line d rest h ih =>
    rw [pieces, if_pos endsLine_newline, List.append_cancel_left_eq, Lossless, if_neg h]
    exact ih
  | case6 line c d rest h h' ih =>
    rw [pieces, if_neg (by simp [EndsLine, h, h']), Lossless, if_neg h]
    exact ih

/-! ### The loops -/

/-- Every stretch of the stream without line ends fits into the buffer. -/
def Short (stream : List Byte) : Prop :=
  ∀ l, l <:+: stream → (∀ b ∈ l, ¬ EndsLine b) → l.length < shellBufferSize

theorem Short.of_suffix {stream stream' : List Byte} (h : Short stream) (hs : stream' <:+ stream) :
    Short stream' := fun l hl => h l (hl.trans hs.isInfix)

theorem rdropWhile_congr {p q : Byte → Bool} {l : List Byte} (h : ∀ b ∈ l, p b = q b) :
    l.rdropWhile p = l.rdropWhile q := by
  induction l using List.reverseRecOn with
  | nil => rfl
  | append_singleton l c ih =>
    rw [List.rdropWhile_concat, List.rdropWhile_concat, h c (by simp),
      ih fun b hb => h b (List.mem_append_left _ hb)]

/-- Of printable characters only spaces are trimmed. -/
theorem trimmed_eq_space {b : Byte} (h : Printable b) : trimmed b = space b := by
  have hlt : 2 * b.toNat < 2 ^ 8 := by
    have := h.2
    omega
  have hspace : b = 0x20 ↔ b.toNat = 0x20 := by bv_omega
  have hge := h.1
  rw [Bool.eq_iff_iff]
  simp only [trimmed, space, decide_eq_true_eq, BitVec.toInt_eq_toNat_cond, if_pos hlt, beq_iff_eq,
    hspace]
  omega

theorem editLine_of_printable {c : Byte} (h : Printable c) {line : List Byte}
    (hroom : line.length < 255) : editLine line c = line ++ [c] := by
  have h0 : c ≠ 0 := by
    rintro rfl
    exact absurd h.1 (by decide)
  have hb : ¬ (c = backspace ∨ c = delete) := by
    rintro (rfl | rfl)
    · exact absurd h.1 (by decide)
    · exact absurd h.2 (by decide)
  unfold editLine
  rw [if_neg h0, if_neg hb, if_pos hroom]

theorem not_endsLine_of_printable {c : Byte} (h : Printable c) : ¬ EndsLine c := by
  rintro (rfl | rfl)
  · exact absurd h.1 (by decide)
  · exact absurd h.1 (by decide)

/-- With nothing on the port the loop waits. -/
theorem turn_idle (line : ShellLine) : Shell.turn ⟨line, []⟩ 0 = (⟨line, []⟩, none) := by
  simp [Shell.turn, shellSerialGetchar, ShellLine.input, carriageReturn]

theorem shellSerialGetchar_fst (serial : List Byte) :
    (shellSerialGetchar serial).1 = serial.drop 1 := by
  cases serial with
  | nil => rfl
  | cons c serial => rfl

theorem turn_serial (line : ShellLine) (c : Byte) (serial : List Byte) :
    Shell.turn ⟨line, c :: serial⟩ 0
      = (⟨(line.input c).1, if c = carriageReturn then serial.drop 1 else serial⟩,
          (line.input c).2) := by
  simp only [Shell.turn, if_true, shellSerialGetchar_fst]
  rfl

theorem observe_idle (line : ShellLine) (n : Nat) :
    observe Shell.turn executed ⟨line, []⟩ (List.replicate n 0) = [] := by
  induction n with
  | zero => rfl
  | succ n ih =>
    rw [List.replicate_succ, observe_cons, turn_idle, ih]
    rfl

/-- One turn at the end of a line. -/
theorem Holds.observe_end {s : ShellLine} {line : List Byte} (h : Holds s line)
    (hline : ∀ b ∈ line, Printable b) {c : Byte} (hc : EndsLine c) (serial : List Byte) (n : Nat) :
    observe Shell.turn executed ⟨s, c :: serial⟩ (List.replicate (n + 1) 0)
      = emit (line.rdropWhile space) ++ observe Shell.turn executed
          ⟨.empty, if c = carriageReturn then serial.drop 1 else serial⟩ (List.replicate n 0) := by
  obtain ⟨hempty, hexec⟩ := h.input_end (Or.symm hc)
  rw [List.replicate_succ, observe_cons, turn_serial, hempty,
    ← rdropWhile_congr fun b hb => trimmed_eq_space (hline b hb), ← hexec]
  rfl

/-- One turn inside a line. -/
theorem Holds.observe_char {s : ShellLine} {line : List Byte} (h : Holds s line)
    (hroom : line.length < 255) {c : Byte} (hc : Printable c) (serial : List Byte) (n : Nat) :
    ∃ s', Holds s' (line ++ [c]) ∧
      observe Shell.turn executed ⟨s, c :: serial⟩ (List.replicate (n + 1) 0)
        = observe Shell.turn executed ⟨s', serial⟩ (List.replicate n 0) := by
  obtain ⟨hnext, hnone⟩ := h.input fun hend => not_endsLine_of_printable hc (Or.symm hend)
  rw [editLine_of_printable hc hroom] at hnext
  have hcr : c ≠ carriageReturn := fun heq => not_endsLine_of_printable hc (Or.inl heq)
  refine ⟨(s.input c).1, hnext, ?_⟩
  rw [List.replicate_succ, observe_cons, turn_serial, hnone, if_neg hcr]
  rfl

theorem Short.length_lt {line rest : List Byte} {c : Byte} (h : Short (line ++ c :: rest))
    (hline : ∀ b ∈ line, Printable b) (hc : Printable c) : line.length < 255 := by
  have hlt := h (line ++ [c]) ⟨[], rest, by simp⟩ (by
    intro b hb
    rcases List.mem_append.mp hb with hb | hb
    · exact not_endsLine_of_printable (hline b hb)
    · rw [List.mem_singleton.mp hb]
      exact not_endsLine_of_printable hc)
  rw [List.length_append, List.length_singleton] at hlt
  unfold shellBufferSize at hlt
  omega

/-- **A run of the loops** on a stream whose lines fit into the buffer. -/
theorem Holds.observe_stream {line stream : List Byte} {s : ShellLine} {n : Nat} (h : Holds s line)
    (hline : ∀ b ∈ line, Printable b) (hstream : ∀ b ∈ stream, Printable b ∨ EndsLine b)
    (hshort : Short (line ++ stream)) (hn : stream.length ≤ n) :
    observe Shell.turn executed ⟨s, stream⟩ (List.replicate n 0) = seen line stream := by
  have hnil : ∀ b ∈ ([] : List Byte), Printable b := by simp
  fun_induction seen line stream generalizing s n with
  | case1 line => exact observe_idle s n
  | case2 line c hc =>
    obtain ⟨m, rfl⟩ : ∃ m, n = m + 1 := ⟨n - 1, by simp at hn; omega⟩
    rw [h.observe_end hline hc, List.drop_nil, ite_self, observe_idle, List.append_nil]
  | case3 line c hc =>
    obtain ⟨m, rfl⟩ : ∃ m, n = m + 1 := ⟨n - 1, by simp at hn; omega⟩
    have hprint : Printable c := (hstream c (by simp)).resolve_right hc
    obtain ⟨s', -, heq⟩ := h.observe_char (hshort.length_lt hline hprint) hprint [] m
    rw [heq, observe_idle]
  | case4 line d rest ih =>
    obtain ⟨m, rfl⟩ : ∃ m, n = m + 1 := ⟨n - 1, by simp at hn; omega⟩
    have hrest := ih (n := m) holds_empty hnil (fun b hb => hstream b (by simp [hb]))
      (hshort.of_suffix ⟨line ++ [carriageReturn, d], by simp⟩) (by simp at hn; omega)
    rw [h.observe_end hline endsLine_carriageReturn, if_pos rfl, List.drop_one, List.tail_cons,
      hrest]
  | case5 line d rest hne ih =>
    obtain ⟨m, rfl⟩ : ∃ m, n = m + 1 := ⟨n - 1, by simp at hn; omega⟩
    have hrest := ih (n := m) holds_empty hnil
      (fun b hb => hstream b (List.mem_cons_of_mem _ hb))
      (hshort.of_suffix ⟨line ++ [newline], by simp⟩) (by simpa using hn)
    rw [h.observe_end hline endsLine_newline, if_neg hne, hrest]
  | case6 line c d rest hne hne' ih =>
    obtain ⟨m, rfl⟩ : ∃ m, n = m + 1 := ⟨n - 1, by simp at hn; omega⟩
    have hprint : Printable c := (hstream c (by simp)).resolve_right (by simp [EndsLine, hne, hne'])
    obtain ⟨s', hnext, heq⟩ := h.observe_char (hshort.length_lt hline hprint) hprint (d :: rest) m
    rw [heq]
    refine ih hnext ?_ (fun b hb => hstream b (List.mem_cons_of_mem _ hb)) ?_ (by simpa using hn)
    · intro b hb
      rcases List.mem_append.mp hb with hb | hb
      · exact hline b hb
      · rwa [List.mem_singleton.mp hb]
    · rwa [List.append_assoc, List.singleton_append]

/--
**When the shell loses no serial input.**

For every stream of printable characters, CR and LF whose lines fit into the buffer, with an idle
keyboard and at least as many turns of the loop as there are bytes: the strings passed to
`shell_execute_command` are the lines of the stream without trailing spaces, empty ones skipped, if
and only if the byte skipped after each carriage return is no part of a line that counts.
-/
theorem shell_serial_lossless_iff {stream : List Byte}
    (hstream : ∀ b ∈ stream, Printable b ∨ EndsLine b) (hshort : Short stream) {n : Nat}
    (hn : stream.length ≤ n) :
    observe Shell.turn executed ⟨.empty, stream⟩ (List.replicate n 0) = commands stream ↔
      Lossless stream := by
  rw [holds_empty.observe_stream (by simp) hstream hshort hn, commands, lines_eq_pieces]
  exact seen_eq_pieces_iff [] stream

/-- Two lines with CR LF, and a third one that ends in CR only. -/
theorem shell_serial_lossless_crlf :
    observe Shell.turn executed
      ⟨.empty, [0x70, 0x73, 0x0D, 0x0A, 0x61, 0x20, 0x0D, 0x0A, 0x62, 0x0D]⟩ (List.replicate 10 0)
      = commands [0x70, 0x73, 0x0D, 0x0A, 0x61, 0x20, 0x0D, 0x0A, 0x62, 0x0D] :=
  (shell_serial_lossless_iff (n := 10) (by decide)
    (fun l hl _ => (List.IsInfix.length_le hl).trans_lt (by decide)) (by decide)).mpr
    (by simp [Lossless, firstLine, EndsLine, carriageReturn, newline])

/-- A carriage return without a newline: the first byte of the next line is lost. -/
theorem shell_serial_byte_lost :
    observe Shell.turn executed ⟨.empty, [0x61, 0x0D, 0x62, 0x63, 0x0A]⟩ (List.replicate 5 0)
      = [[0x61], [0x63]] ∧
    commands [0x61, 0x0D, 0x62, 0x63, 0x0A] = [[0x61], [0x62, 0x63]] := by
  constructor
  · rw [holds_empty.observe_stream (by simp) (by decide)
      (fun l hl _ => (List.IsInfix.length_le hl).trans_lt (by decide)) (by decide)]
    decide
  · decide

end Shell

end MinimalistOS
