import MinimalistOS.Kernel.Log
import MinimalistOS.Properties.Itoa

/-!
# Bounded formatting is a prefix of unbounded formatting

`formatText` is what a format and its arguments stand for, without a buffer. `loop_spec` is one
induction over the format: from any point on, the loop appends the rest of that text as far as it
fits, and takes the arguments in order.

* `vsnprintf_bounded` — a buffer of any size gets the longest prefix that fits, and a terminator
-/

namespace MinimalistOS

open Infra

/-! ## What a format stands for -/

/-- The type of an argument. -/
inductive ArgKind where
  | int
  | str
  deriving DecidableEq

/-- An `int` and an `unsigned int` are taken alike. -/
def FormatArg.kind : FormatArg → ArgKind
  | .int _ => .int
  | .str _ => .str

namespace vsnprintf

/-- The argument a specifier takes, if it takes one. -/
def argKind (c : Byte) : Option ArgKind :=
  if c = 0x64 ∨ c = 0x75 ∨ c = 0x78 ∨ c = 0x58 ∨ c = 0x63 then some .int
  else if c = 0x73 then some .str
  else none

/-- What a specifier makes of its argument. -/
def argText (c : Byte) : FormatArg → List Byte
  | .int num =>
    if c = 0x64 ∨ c = 0x75 then itoaText num 10
    else if c = 0x78 then itoaText num 16
    else if c = 0x58 then (itoaText num 16).map toUpper
    else [num.setWidth 8]
  | .str str => (str.getD nullText).bytes

/-- What a specifier that takes no argument makes of itself. -/
def plainText (c : Byte) : List Byte := if c = 0x25 then [0x25] else [0x25, c]

/-- The text of a format with its arguments. -/
def formatText : List Byte → List FormatArg → List Byte
  | [], _ => []
  | [c], _ => if c ≠ 0x25 then [c] else []
  | c :: spec :: p, args =>
    if c ≠ 0x25 then c :: formatText (spec :: p) args
    else match argKind spec with
      | none => plainText spec ++ formatText p args
      | some _ => match args with
        | a :: args => argText spec a ++ formatText p args
        | [] => []

theorem formatText_cons (c spec : Byte) (p : List Byte) (args : List FormatArg) :
    formatText (c :: spec :: p) args =
      if c ≠ 0x25 then c :: formatText (spec :: p) args
      else match argKind spec with
        | none => plainText spec ++ formatText p args
        | some _ => match args with
          | a :: args => argText spec a ++ formatText p args
          | [] => [] := by
  cases args <;> rfl

/-- The types of the arguments a format takes, in order. -/
def argKinds : List Byte → List ArgKind
  | [] => []
  | [_] => []
  | c :: spec :: p =>
    if c ≠ 0x25 then argKinds (spec :: p) else (argKind spec).toList ++ argKinds p

/-- There is an argument of the right type for each conversion. -/
def Matches (format : List Byte) (args : List FormatArg) : Prop :=
  argKinds format <+: args.map FormatArg.kind

/-! ## What a stretch of the loop does -/

/-- Every access to a local array is inside it. -/
def LocalsInside (st : FormatState) : Prop := ∀ e ∈ st.locals, e.2 < e.1

/-- Between two states a text has been appended as far as it fits, and arguments taken. -/
structure Appends (size : Nat) (st st' : FormatState) (text : List Byte) (taken : List Taken) :
    Prop where
  out : st'.out = st.out.emit (size - 1) text
  taken : st'.taken = st.taken ++ taken
  locals : LocalsInside st → LocalsInside st'

variable {size : Nat} {st st' st'' : FormatState} {text text' : List Byte} {t t' : List Taken}

theorem Appends.refl (size : Nat) (st : FormatState) : Appends size st st [] [] where
  out := (Sink.emit_nil st.out (size - 1)).symm
  taken := (List.append_nil _).symm
  locals := id

theorem Appends.trans (h : Appends size st st' text t) (h' : Appends size st' st'' text' t') :
    Appends size st st'' (text ++ text') (t ++ t') where
  out := by rw [h'.out, h.out, Sink.emit_append]
  taken := by rw [h'.taken, h.taken, List.append_assoc]
  locals := h'.locals ∘ h.locals

/-- Where the text fits, the index has moved by its length. -/
theorem Appends.i_eq (h : Appends size st st' text t) (hfit : st.out.i + text.length ≤ size - 1) :
    st'.out.i = st.out.i + text.length := by
  rw [h.out]
  simp only [Sink.emit]
  omega

/-- One byte, where there is room. -/
theorem Appends.put (st : FormatState) (h : st.out.i < size - 1) (c : Byte) :
    Appends size st (st.put c) [c] [] where
  out := (Sink.emit_singleton h c).symm
  taken := (List.append_nil _).symm
  locals := id

/-- Where there is no room, any text has been appended as far as it fits. -/
theorem Appends.full (h : size - 1 ≤ st.out.i) (text : List Byte) : Appends size st st text [] where
  out := (Sink.emit_of_le h text).symm
  taken := (List.append_nil _).symm
  locals := id

theorem Appends.take (size : Nat) (st : FormatState) (place : List Byte) (a : FormatArg) :
    Appends size st (st.take place a) [] [⟨place, a, st.out.i⟩] where
  out := (Sink.emit_nil st.out (size - 1)).symm
  taken := rfl
  locals := id

theorem Appends.touch (size : Nat) (st : FormatState) (array : Nat) (indices : List Nat)
    (h : ∀ j ∈ indices, j < array) : Appends size st (st.touch array indices) [] [] where
  out := (Sink.emit_nil st.out (size - 1)).symm
  taken := (List.append_nil _).symm
  locals hin e he := by
    rcases List.mem_append.mp he with he | he
    · exact hin e he
    · obtain ⟨j, hj, rfl⟩ := List.mem_map.mp he
      exact h j hj

/-! ## The inner loops -/

theorem appends_copyNumber {array : Nat} (f : Byte → Byte) {num_str : Buffer}
    (hholds : num_str.Holds text) (hlen : text.length < array) {s : Nat} (hs : s ≤ text.length)
    (st : FormatState) :
    Appends size st (copyNumber size array f num_str s st) ((text.drop s).map f) [] := by
  induction s, st using copyNumber.induct size array f num_str with
  | case1 s st h ih =>
    have hs' : s < text.length := by
      refine lt_of_le_of_ne hs fun heq => h.1 ?_
      rw [heq, hholds.terminated]
    rw [copyNumber, if_pos h, List.drop_eq_getElem_cons hs', List.map_cons, ← hholds.bytes s hs']
    have htouch := Appends.touch size st array [s] (by simp; omega)
    exact (htouch.trans (Appends.put (st.touch array [s]) h.2 _)).trans (ih hs')
  | case2 s st h =>
    rw [copyNumber, if_neg h]
    have htouch := Appends.touch size st array [s] (by simp; omega)
    by_cases hs' : s < text.length
    · have hne : num_str.bytes s ≠ 0 := by
        rw [hholds.bytes s hs']
        exact hholds.nul_free _ (List.getElem_mem hs')
      exact htouch.trans (Appends.full (by have := not_and.mp h hne; exact Nat.not_lt.mp this) _)
    · rw [List.drop_eq_nil_of_le (by omega)]
      exact htouch

theorem appends_number {array : Nat} {num base : Word} (f : Byte → Byte) (stack : Nat → Byte)
    (h2 : 2 ≤ base.toInt) (h36 : base.toInt ≤ 36) (hlen : (itoaText num base).length < array)
    (st : FormatState) :
    Appends size st (number size array f stack num base st) ((itoaText num base).map f) [] := by
  obtain ⟨hholds, hwritten⟩ := itoa_spec num h2 h36 (.fresh stack)
  have htouch := Appends.touch size st array (itoa num (.fresh stack) base).written
    fun j hj => by
      have := (hwritten j hj).resolve_right List.not_mem_nil
      omega
  exact htouch.trans (appends_copyNumber f hholds hlen (Nat.zero_le _) _)

/-- A number copied as `itoa` wrote it. -/
theorem appends_number_id {array : Nat} {num base : Word} (stack : Nat → Byte)
    (h2 : 2 ≤ base.toInt) (h36 : base.toInt ≤ 36) (hlen : (itoaText num base).length < array)
    (st : FormatState) :
    Appends size st (number size array id stack num base st) (itoaText num base) [] := by
  have h : Appends size st _ _ _ := appends_number id stack h2 h36 hlen st
  rwa [List.map_id] at h

theorem appends_copyString (text : List Byte) (st : FormatState) :
    Appends size st (copyString size text st) text [] := by
  induction text generalizing st with
  | nil => exact Appends.refl size st
  | cons c text ih =>
    rw [copyString]
    split
    next h => exact (Appends.put st h c).trans (ih (st.put c))
    next h => exact Appends.full (Nat.not_lt.mp h) _

/-! ## The switch -/

/-- A conversion that takes an argument of its type. -/
theorem convert_argument {c : Byte} {a : FormatArg} (hkind : argKind c = some a.kind)
    (hi : st.out.i < size - 1) (stack : Nat → Byte) (place : List Byte) (args : List FormatArg) :
    ∃ st', convert size stack place c (a :: args) st = some (args, st') ∧
      Appends size st st' (argText c a) [⟨place, a, st.out.i⟩] := by
  have htake := Appends.take size st place a
  have hten : ∀ num, (itoaText num 10).length < 12 := fun num =>
    Nat.lt_succ_of_le (length_itoaText_ten num)
  have hsixteen : ∀ num, (itoaText num 16).length < 9 := fun num =>
    Nat.lt_succ_of_le (length_itoaText_sixteen num)
  cases a with
  | str str =>
    have hc : c = 0x73 := by
      unfold argKind at hkind
      split at hkind
      · simp [FormatArg.kind] at hkind
      · split at hkind
        · assumption
        · simp at hkind
    subst hc
    exact ⟨_, rfl, htake.trans (appends_copyString _ _)⟩
  | int num =>
    have hc : c = 0x64 ∨ c = 0x75 ∨ c = 0x78 ∨ c = 0x58 ∨ c = 0x63 := by
      unfold argKind at hkind
      split at hkind
      · assumption
      · split at hkind <;> simp [FormatArg.kind] at hkind
    rcases hc with rfl | rfl | rfl | rfl | rfl
    · exact ⟨_, rfl, htake.trans (appends_number_id stack (by decide) (by decide) (hten num) _)⟩
    · exact ⟨_, rfl, htake.trans (appends_number_id stack (by decide) (by decide) (hten num) _)⟩
    · exact ⟨_, rfl, htake.trans
        (appends_number_id stack (by decide) (by decide) (hsixteen num) _)⟩
    · exact ⟨_, rfl, htake.trans
        (appends_number toUpper stack (by decide) (by decide) (hsixteen num) _)⟩
    · exact ⟨_, rfl, htake.trans (Appends.put (st.take place (.int num)) hi _)⟩

/-- A specifier that takes no argument. -/
theorem convert_plain {c : Byte} (hkind : argKind c = none) (hi : st.out.i < size - 1)
    (stack : Nat → Byte) (place : List Byte) (args : List FormatArg) :
    ∃ st', convert size stack place c args st = some (args, st') ∧
      Appends size st st' (plainText c) [] := by
  unfold argKind at hkind
  split at hkind
  · exact absurd hkind (Option.some_ne_none _)
  split at hkind
  · exact absurd hkind (Option.some_ne_none _)
  next hint hstr =>
  simp only [not_or] at hint
  obtain ⟨hd, hu, hx, hX, hc⟩ := hint
  unfold convert plainText
  rw [if_neg hd, if_neg hu, if_neg hx, if_neg hX, if_neg hstr, if_neg hc]
  by_cases hpercent : c = 0x25
  · rw [if_pos hpercent, if_pos hpercent]
    exact ⟨_, rfl, Appends.put st hi 0x25⟩
  · rw [if_neg hpercent, if_neg hpercent]
    have hsecond : Appends size (st.put 0x25)
        (if (st.put 0x25).out.i < size - 1 then (st.put 0x25).put c else st.put 0x25) [c] [] := by
      split
      next hi' => exact Appends.put _ hi' c
      next hi' => exact Appends.full (Nat.not_lt.mp hi') [c]
    exact ⟨_, rfl, (Appends.put st hi 0x25).trans hsecond⟩

/-! ## The loop -/

/-- The arguments the loop takes when nothing is cut off, from index `i` on. -/
def takenBy : List Byte → List FormatArg → Nat → List Taken
  | [], _, _ => []
  | [_], _, _ => []
  | c :: spec :: p, args, i =>
    if c ≠ 0x25 then takenBy (spec :: p) args (i + 1)
    else match argKind spec with
      | none => takenBy p args (i + (plainText spec).length)
      | some _ => match args with
        | a :: args => ⟨spec :: p, a, i⟩ :: takenBy p args (i + (argText spec a).length)
        | [] => []

theorem takenBy_cons (c spec : Byte) (p : List Byte) (args : List FormatArg) (i : Nat) :
    takenBy (c :: spec :: p) args i =
      if c ≠ 0x25 then takenBy (spec :: p) args (i + 1)
      else match argKind spec with
        | none => takenBy p args (i + (plainText spec).length)
        | some _ => match args with
          | a :: args => ⟨spec :: p, a, i⟩ :: takenBy p args (i + (argText spec a).length)
          | [] => [] := by
  cases args <;> rfl

/-- The format and the arguments left after a conversion that takes one. -/
theorem Matches.argument {spec : Byte} {p : List Byte} {args : List FormatArg} {k : ArgKind}
    (h : Matches (0x25 :: spec :: p) args) (hk : argKind spec = some k) :
    ∃ a rest, args = a :: rest ∧ argKind spec = some a.kind ∧ Matches p rest := by
  rw [Matches, argKinds, if_neg (not_not.mpr rfl), hk, Option.toList_some, List.singleton_append]
    at h
  cases args with
  | nil => exact absurd h (by simp)
  | cons a rest =>
    rw [List.map_cons, List.cons_prefix_cons] at h
    exact ⟨a, rest, rfl, hk.trans (congrArg some h.1), h.2⟩

theorem Matches.plain {spec : Byte} {p : List Byte} {args : List FormatArg}
    (h : Matches (0x25 :: spec :: p) args) (hk : argKind spec = none) : Matches p args := by
  rwa [Matches, argKinds, if_neg (not_not.mpr rfl), hk] at h

theorem Matches.literal {c spec : Byte} {p : List Byte} {args : List FormatArg} (hc : c ≠ 0x25)
    (h : Matches (c :: spec :: p) args) : Matches (spec :: p) args := by
  rwa [Matches, argKinds, if_pos hc] at h

/-- From any point on, the loop appends the text of the rest of the format; if all of that fits it
takes the arguments of the rest as well. -/
theorem loop_spec (size : Nat) (stack : List Byte → Nat → Byte) :
    ∀ (p : List Byte) (args : List FormatArg) (st : FormatState), Matches p args →
      ∃ st' t, loop size stack p args st = some st' ∧
        Appends size st st' (formatText p args) t ∧
        (st.out.i + (formatText p args).length < size - 1 → t = takenBy p args st.out.i)
  | [], args, st, _ => ⟨st, [], rfl, Appends.refl size st, fun _ => rfl⟩
  | [c], args, st, _ => by
    rw [loop, formatText]
    by_cases hi : st.out.i < size - 1
    · rw [if_pos hi]
      by_cases hc : c ≠ 0x25
      · rw [if_pos hc, if_pos hc]
        exact ⟨_, _, rfl, Appends.put st hi c, fun _ => rfl⟩
      · rw [if_neg hc, if_neg hc]
        exact ⟨_, _, rfl, Appends.refl size st, fun _ => rfl⟩
    · rw [if_neg hi]
      exact ⟨_, _, rfl, Appends.full (Nat.not_lt.mp hi) _, fun _ => rfl⟩
  | c :: spec :: p, args, st, hm => by
    rw [loop]
    by_cases hi : st.out.i < size - 1
    swap
    · rw [if_neg hi]
      exact ⟨_, _, rfl, Appends.full (Nat.not_lt.mp hi) _, fun h => absurd h (by omega)⟩
    rw [if_pos hi]
    by_cases hc : c ≠ 0x25
    · obtain ⟨st', t, hrun, happ, htaken⟩ :=
        loop_spec size stack (spec :: p) args (st.put c) (hm.literal hc)
      rw [if_pos hc, formatText_cons, takenBy_cons, if_pos hc, if_pos hc]
      refine ⟨st', t, hrun, (Appends.put st hi c).trans happ, fun hfit => htaken ?_⟩
      rw [List.length_cons] at hfit
      show st.out.i + 1 + _ < _
      omega
    obtain rfl : c = 0x25 := not_not.mp hc
    rw [if_neg hc, formatText_cons, takenBy_cons, if_neg hc, if_neg hc]
    cases hk : argKind spec with
    | none =>
      obtain ⟨st₁, hconv, happ₁⟩ := convert_plain hk hi (stack (spec :: p)) (spec :: p) args
      obtain ⟨st', t, hrun, happ, htaken⟩ := loop_spec size stack p args st₁ (hm.plain hk)
      rw [hconv]
      refine ⟨st', t, hrun, happ₁.trans happ, fun hfit => ?_⟩
      rw [List.length_append] at hfit
      have hi₁ := happ₁.i_eq (by omega)
      rw [htaken (by omega), hi₁]
    | some k =>
      obtain ⟨a, rest, rfl, hka, hrest⟩ := hm.argument hk
      obtain ⟨st₁, hconv, happ₁⟩ := convert_argument hka hi (stack (spec :: p)) (spec :: p) rest
      obtain ⟨st', t, hrun, happ, htaken⟩ := loop_spec size stack p rest st₁ hrest
      rw [hconv]
      refine ⟨st', _, hrun, happ₁.trans happ, fun hfit => ?_⟩
      rw [List.length_append] at hfit
      have hi₁ := happ₁.i_eq (by omega)
      rw [htaken (by omega), hi₁]
      rfl

end vsnprintf

/-- What a call with room for at least the terminator returns and leaves. -/
theorem vsnprintf_spec {format : CString} {args : List FormatArg}
    (hargs : vsnprintf.Matches format.bytes args) (stack : List Byte → Nat → Byte) (buf : Buffer)
    {n : Nat} (hn : 1 ≤ n) :
    ∃ st t, vsnprintf stack (some buf) n format args
        = some (BitVec.ofNat 32 st.out.i, some st.terminate) ∧
      vsnprintf.Appends n ⟨⟨buf, 0⟩, [], []⟩ st (vsnprintf.formatText format.bytes args) t ∧
      ((vsnprintf.formatText format.bytes args).length < n - 1 →
        t = vsnprintf.takenBy format.bytes args 0) := by
  obtain ⟨st, t, hrun, happ, htaken⟩ :=
    vsnprintf.loop_spec n stack format.bytes args ⟨⟨buf, 0⟩, [], []⟩ hargs
  refine ⟨st, t, ?_, happ, fun h => htaken (by rw [Nat.zero_add]; exact h)⟩
  simp only [vsnprintf, if_neg (show n ≠ 0 by omega), hrun, Option.map_some]

/-- **Bounded formatting is a prefix of unbounded formatting.** -/
theorem vsnprintf_bounded {format : CString} {args : List FormatArg}
    (hargs : vsnprintf.Matches format.bytes args) :
    ∃ full : List Byte, ∀ (stack : List Byte → Nat → Byte) (bytes : Nat → Byte) (n : Nat), 1 ≤ n →
      ∃ ret st, vsnprintf stack (some (.fresh bytes)) n format args = some (ret, some st) ∧
        (∀ j ∈ st.out.buf.written, j < n) ∧
        (∀ e ∈ st.locals, e.2 < e.1) ∧
        st.out.i = min (n - 1) full.length ∧
        st.out.buf.bytes st.out.i = 0 ∧
        (∀ j < st.out.i, full[j]? = some (st.out.buf.bytes j)) ∧
        (n ≤ 2 ^ 32 → ret.toNat = st.out.i) ∧
        (n ≤ 2 ^ 31 → ret.toInt = st.out.i) := by
  refine ⟨vsnprintf.formatText format.bytes args, fun stack bytes n hn => ?_⟩
  obtain ⟨st, t, hrun, happ, -⟩ := vsnprintf_spec hargs stack (.fresh bytes) hn
  have hi : st.out.i = min (n - 1) (vsnprintf.formatText format.bytes args).length := by
    rw [happ.out]
    simp only [Sink.emit]
    omega
  refine ⟨_, _, hrun, fun j hj => ?_, happ.locals fun e he => absurd he List.not_mem_nil, hi,
    Buffer.set_bytes_self _ _ _, fun j (hj : j < st.out.i) => ?_, fun h32 => ?_, fun h31 => ?_⟩
  · rcases Buffer.mem_written_set.mp hj with rfl | hj
    · omega
    · rw [happ.out] at hj
      have := (Sink.mem_written_emit hj).resolve_right List.not_mem_nil
      omega
  · have hj' : j < (vsnprintf.formatText format.bytes args).length := by omega
    have hget := Sink.emit_bytes_add ⟨.fresh bytes, 0⟩ (n - 1) hj' (by simp only; omega)
    rw [FormatState.terminate, Buffer.set_bytes_of_ne _ _ (by omega),
      List.getElem?_eq_getElem hj', happ.out, ← hget, Nat.zero_add]
  · rw [BitVec.toNat_ofNat, FormatState.terminate_i, Nat.mod_eq_of_lt (by omega)]
  · rw [BitVec.toInt_ofNat', FormatState.terminate_i, Int.bmod_eq_of_le (by omega) (by omega)]

/-- `"%d"` cut after the minus sign. -/
theorem vsnprintf_bounded_cut :
    ∃ full : List Byte, ∀ n, 1 ≤ n → ∃ ret st, vsnprintf (fun _ _ => 0xFF)
      (some (.fresh fun _ => 0xFF)) n ⟨[0x25, 0x64], by decide⟩ [.int 0xFFFFFFFF] =
        some (ret, some st) ∧ st.out.i = min (n - 1) full.length := by
  obtain ⟨full, h⟩ :=
    @vsnprintf_bounded ⟨[0x25, 0x64], by decide⟩ [.int 0xFFFFFFFF] ⟨[], rfl⟩
  refine ⟨full, fun n hn => ?_⟩
  obtain ⟨ret, st, hrun, -, -, hi, -⟩ := h (fun _ _ => 0xFF) (fun _ => 0xFF) n hn
  exact ⟨ret, st, hrun, hi⟩

end MinimalistOS
