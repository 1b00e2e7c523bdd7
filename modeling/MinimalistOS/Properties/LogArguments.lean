import MinimalistOS.Properties.Log

/-!
# Which conversion takes which argument

A format is written as a list of items: characters, and conversions with an optional width. The
formatter does not know widths. It copies the `%` and the first digit of one, and goes on behind
them: the specifier is then a character like any other, and the argument that was meant for it is
there for the next conversion.

After `%%` with a width it is the second `%` that is left over, and it begins a conversion with
whatever comes next. `aligned` keeps this `%` in mind.

* `argumentsAligned_iff` — for which formats each conversion takes its own argument
-/

namespace MinimalistOS

open Infra vsnprintf

/-! ## Formats -/

/-- The specifiers. -/
inductive Spec where
  | d
  | u
  | x
  | X
  | s
  | c
  | percent
  deriving DecidableEq

/-- The character of a specifier. -/
def Spec.byte : Spec → Byte
  | .d => 0x64
  | .u => 0x75
  | .x => 0x78
  | .X => 0x58
  | .s => 0x73
  | .c => 0x63
  | .percent => 0x25

/-- A character of the text, or a conversion with the digits of its flag and its width. -/
inductive Item where
  | text (c : Byte) (hc : c ≠ 0x25 ∧ c ≠ 0)
  | conversion (width : List (Fin 10)) (spec : Spec)

/-- The digits as they stand in a format. -/
def widthBytes (width : List (Fin 10)) : List Byte := width.map fun d : Fin 10 => digitByte d.val

/-- What an item looks like in a format. -/
def Item.bytes : Item → List Byte
  | .text c _ => [c]
  | .conversion width spec => 0x25 :: (widthBytes width ++ [spec.byte])

/-- The bytes of a format. -/
def formatBytes (items : List Item) : List Byte := items.flatMap Item.bytes

theorem spec_byte_ne_zero (spec : Spec) : spec.byte ≠ 0 := by
  cases spec <;> decide

/-- A digit is copied as it is, by itself or after a `%`. -/
theorem digit_plain (d : Fin 10) :
    digitByte d.val ≠ 0 ∧ digitByte d.val ≠ 0x25 ∧ argKind (digitByte d.val) = none := by
  revert d
  decide

theorem Item.bytes_ne_zero (item : Item) : ∀ c ∈ item.bytes, c ≠ 0 := by
  intro c hc
  cases item with
  | text c' hc' =>
    rw [List.mem_singleton.mp hc]
    exact hc'.2
  | conversion width spec =>
    rcases List.mem_cons.mp hc with rfl | hc
    · decide
    rcases List.mem_append.mp hc with hc | hc
    · obtain ⟨d, -, rfl⟩ := List.mem_map.mp hc
      exact (digit_plain d).1
    · rw [List.mem_singleton.mp hc]
      exact spec_byte_ne_zero spec

/-- The format a list of items spells. -/
def formatOf (items : List Item) : CString where
  bytes := formatBytes items
  nul_free c hc := by
    obtain ⟨item, -, hc⟩ := List.mem_flatMap.mp hc
    exact item.bytes_ne_zero c hc

/-- The argument an item is meant to take. -/
def Item.kind : Item → Option ArgKind
  | .text _ _ => none
  | .conversion _ spec => argKind spec.byte

/-- An argument of the right type for each conversion but `%%`. -/
def ArgumentsFor (items : List Item) (args : List FormatArg) : Prop :=
  items.filterMap Item.kind <+: args.map FormatArg.kind

/-- Which argument is meant for which place: each conversion but `%%` takes one, in order. The place
is the rest of the format behind the `%`. -/
def intended : List Item → List FormatArg → List (List Byte × FormatArg)
  | [], _ => []
  | .text _ _ :: items, args => intended items args
  | .conversion width spec :: items, args =>
    match argKind spec.byte with
    | none => intended items args
    | some _ => match args with
      | a :: args =>
        (widthBytes width ++ spec.byte :: formatBytes items, a) :: intended items args
      | [] => []

/-- Each conversion but `%%` takes one argument, its own, and what a specifier takes it prints where
it stands; in any buffer with room for the whole text. -/
def ArgumentsAligned (items : List Item) (args : List FormatArg) : Prop :=
  ∃ room, ∀ size ≥ room, ∀ stack buf, ∃ ret st,
    vsnprintf stack (some buf) size (formatOf items) args = some (ret, some st) ∧
      st.taken.map (fun t => (t.place, t.arg)) = intended items args ∧
      ∀ t ∈ st.taken, ∃ spec rest, t.place = spec :: rest ∧
        ∀ (k : Nat) (h : k < (argText spec t.arg).length),
          st.out.buf.bytes (t.i + k) = (argText spec t.arg)[k]

/-- Nothing in the format disturbs a conversion; `pending` says that a `%` is left over from before
it. No conversion but `%%` has a width, and what comes next after a `%%` that has one, other than
more `%%`, is neither a conversion nor one of the letters that take an argument. -/
def aligned : Bool → List Item → Bool
  | _, [] => true
  | pending, .text c _ :: items => (!pending || (argKind c).isNone) && aligned false items
  | pending, .conversion width spec :: items =>
    if spec = .percent then aligned (pending || !width.isEmpty) items
    else !pending && width.isEmpty && aligned false items

/-! ## What the formatter takes -/

/-- The formatter takes the arguments of `l`, each at its place. -/
def FormatTakes (p : List Byte) (args : List FormatArg) (l : List (List Byte × FormatArg)) : Prop :=
  Matches p args ∧ (takenBy p args 0).map (fun t => (t.place, t.arg)) = l

variable {p : List Byte} {args : List FormatArg} {l : List (List Byte × FormatArg)}

/-- Where in the buffer the text starts does not matter. -/
theorem takenBy_index : ∀ (p : List Byte) (args : List FormatArg) (i j : Nat),
    (takenBy p args i).map (fun t => (t.place, t.arg))
      = (takenBy p args j).map (fun t => (t.place, t.arg))
  | [], _, _, _ => rfl
  | [_], _, _, _ => rfl
  | c :: spec :: p, args, i, j => by
    rw [takenBy_cons, takenBy_cons]
    split
    · exact takenBy_index (spec :: p) args _ _
    cases argKind spec with
    | none => exact takenBy_index p args _ _
    | some k =>
      cases args with
      | nil => rfl
      | cons a args =>
        rw [List.map_cons, List.map_cons, takenBy_index p args]

theorem takes_literal {c : Byte} (hc : c ≠ 0x25) :
    FormatTakes (c :: p) args l ↔ FormatTakes p args l := by
  cases p with
  | nil => exact Iff.rfl
  | cons spec p =>
    rw [FormatTakes, FormatTakes, Matches, Matches, argKinds, if_pos hc, takenBy_cons, if_pos hc,
      takenBy_index _ _ (0 + 1) 0]

theorem takes_plain {c : Byte} (hc : argKind c = none) :
    FormatTakes (0x25 :: c :: p) args l ↔ FormatTakes p args l := by
  rw [FormatTakes, FormatTakes, Matches, Matches, argKinds, if_neg (not_not.mpr rfl), takenBy_cons,
    if_neg (not_not.mpr rfl), hc, takenBy_index _ _ _ 0]
  exact Iff.rfl

theorem takes_argument {c : Byte} {k : ArgKind} (hc : argKind c = some k) :
    FormatTakes (0x25 :: c :: p) args l ↔ ∃ a rest l', args = a :: rest ∧ a.kind = k ∧
      l = (c :: p, a) :: l' ∧ FormatTakes p rest l' := by
  rw [FormatTakes, Matches, argKinds, if_neg (not_not.mpr rfl), takenBy_cons,
    if_neg (not_not.mpr rfl), hc, Option.toList_some, List.singleton_append]
  cases args with
  | nil =>
    refine iff_of_false (fun h => absurd h.1 (by simp)) ?_
    rintro ⟨a, rest, l', h, -⟩
    exact List.cons_ne_nil a rest h.symm
  | cons a rest =>
    rw [List.map_cons, List.map_cons, List.cons_prefix_cons, takenBy_index _ _ _ 0]
    constructor
    · rintro ⟨⟨hkind, hm⟩, rfl⟩
      exact ⟨a, rest, _, rfl, hkind.symm, rfl, hm, rfl⟩
    · rintro ⟨a', rest', l', h, hkind, rfl, hm, htaken⟩
      obtain ⟨rfl, rfl⟩ := List.cons.inj h
      exact ⟨⟨hkind.symm, hm⟩, by rw [htaken]⟩

/-- A conversion that takes the argument at the head. -/
theorem takes_given {c : Byte} {k : ArgKind} (hc : argKind c = some k) {a : FormatArg}
    (hkind : a.kind = k) :
    FormatTakes (0x25 :: c :: p) (a :: args) ((c :: p, a) :: l) ↔ FormatTakes p args l := by
  refine (takes_argument hc).trans ⟨?_, fun h => ⟨a, args, l, rfl, hkind, rfl, h⟩⟩
  rintro ⟨a', rest, l', h, -, hl, htakes⟩
  obtain ⟨rfl, rfl⟩ := List.cons.inj h
  obtain ⟨-, rfl⟩ := List.cons.inj hl
  exact htakes

theorem takes_literals {w : List Byte} (hw : ∀ c ∈ w, c ≠ 0x25) :
    FormatTakes (w ++ p) args l ↔ FormatTakes p args l := by
  induction w with
  | nil => exact Iff.rfl
  | cons c w ih =>
    rw [List.cons_append, takes_literal (hw c List.mem_cons_self)]
    exact ih fun e he => hw e (List.mem_cons_of_mem c he)

/-- Every argument is taken behind a `%` of the format. -/
theorem length_place_lt : ∀ (p : List Byte) (args : List FormatArg) (i : Nat),
    ∀ t ∈ takenBy p args i, t.place.length < p.length
  | [], _, _, t, ht => absurd ht List.not_mem_nil
  | [_], _, _, t, ht => absurd ht List.not_mem_nil
  | c :: spec :: p, args, i, t, ht => by
    rw [takenBy_cons] at ht
    simp only [List.length_cons]
    split at ht
    · have := length_place_lt (spec :: p) args _ t ht
      rw [List.length_cons] at this
      omega
    cases hk : argKind spec with
    | none =>
      rw [hk] at ht
      have := length_place_lt p args _ t ht
      omega
    | some k =>
      rw [hk] at ht
      cases args with
      | nil => exact absurd ht List.not_mem_nil
      | cons a args =>
        rcases List.mem_cons.mp ht with rfl | ht
        · exact Nat.lt_succ_self _
        · have := length_place_lt p args _ t ht
          omega

theorem FormatTakes.length_lt (h : FormatTakes p args l) : ∀ e ∈ l, e.1.length < p.length := by
  intro e he
  rw [← h.2] at he
  obtain ⟨t, ht, rfl⟩ := List.mem_map.mp he
  exact length_place_lt p args 0 t ht

/-! ## What the items mean -/

theorem formatBytes_cons (item : Item) (items : List Item) :
    formatBytes (item :: items) = item.bytes ++ formatBytes items := List.flatMap_cons

theorem intended_conversion (width : List (Fin 10)) (spec : Spec) (items : List Item)
    (args : List FormatArg) :
    intended (.conversion width spec :: items) args =
      match argKind spec.byte with
      | none => intended items args
      | some _ => match args with
        | a :: args =>
          (widthBytes width ++ spec.byte :: formatBytes items, a) :: intended items args
        | [] => [] := by
  cases args <;> rfl

theorem intended_argument {width : List (Fin 10)} {spec : Spec} {k : ArgKind}
    (hk : argKind spec.byte = some k) (items : List Item) (a : FormatArg) (args : List FormatArg) :
    intended (.conversion width spec :: items) (a :: args) =
      (widthBytes width ++ spec.byte :: formatBytes items, a) :: intended items args := by
  rw [intended_conversion, hk]

/-- An intended place is behind a `%` of the format too. -/
theorem length_intended_lt (items : List Item) (args : List FormatArg) :
    ∀ e ∈ intended items args, e.1.length < (formatBytes items).length := by
  induction items generalizing args with
  | nil => exact fun e he => absurd he List.not_mem_nil
  | cons item items ih =>
    intro e he
    rw [formatBytes_cons, List.length_append]
    cases item with
    | text c hc =>
      have := ih args e he
      omega
    | conversion width spec =>
      rw [intended_conversion] at he
      cases hk : argKind spec.byte with
      | none =>
        rw [hk] at he
        have := ih args e he
        omega
      | some k =>
        rw [hk] at he
        cases args with
        | nil => exact absurd he List.not_mem_nil
        | cons a args =>
          rcases List.mem_cons.mp he with rfl | he
          · simp only [Item.bytes, List.length_append, List.length_cons, List.length_nil]
            omega
          · have := ih args e he
            omega

/-- A conversion that is not `%%` takes an argument, and its letter is copied like any other. -/
theorem argKind_spec {spec : Spec} (h : spec ≠ .percent) :
    (∃ k, argKind spec.byte = some k) ∧ spec.byte ≠ 0x25 := by
  cases spec <;> first | exact absurd rfl h | exact ⟨⟨_, rfl⟩, by decide⟩

theorem ArgumentsFor.tail {item : Item} {items : List Item} (hkind : item.kind = none)
    (h : ArgumentsFor (item :: items) args) : ArgumentsFor items args := by
  rwa [ArgumentsFor, List.filterMap_cons_none hkind] at h

theorem ArgumentsFor.argument {item : Item} {items : List Item} {k : ArgKind}
    (hkind : item.kind = some k) (h : ArgumentsFor (item :: items) args) :
    ∃ a rest, args = a :: rest ∧ a.kind = k ∧ ArgumentsFor items rest := by
  rw [ArgumentsFor, List.filterMap_cons_some hkind] at h
  cases args with
  | nil => exact absurd h (by simp)
  | cons a rest =>
    rw [List.map_cons, List.cons_prefix_cons] at h
    exact ⟨a, rest, rfl, h.1.symm, h.2⟩

/-! ## The condition -/

/-- What is taken behind a `%` that is left over. -/
def behind (pending : Bool) (p : List Byte) : List Byte := if pending then 0x25 :: p else p

/-- The digits of a width are copied. -/
theorem takes_width (width : List (Fin 10)) {c : Byte} :
    FormatTakes (widthBytes width ++ [c] ++ p) args l ↔ FormatTakes (c :: p) args l := by
  rw [List.append_assoc]
  refine takes_literals fun e he => ?_
  obtain ⟨d, -, rfl⟩ := List.mem_map.mp he
  exact (digit_plain d).2.1

/-- A conversion whose `%` is gone gets nothing. -/
theorem not_takes_lost {width width' : List (Fin 10)} {c : Byte} (hc : c ≠ 0x25) {a : FormatArg} :
    ¬ FormatTakes (widthBytes width ++ [c] ++ p) args ((widthBytes width' ++ c :: p, a) :: l) := by
  intro h
  have := ((takes_literal hc).mp ((takes_width width).mp h)).length_lt _ List.mem_cons_self
  simp only [List.length_append, List.length_cons] at this
  omega

/-- A character that takes an argument behind a `%` that is left over takes it at a place that no
conversion is meant to take one. -/
theorem not_takes_early {c : Byte} {k : ArgKind} (hk : argKind c = some k) (items : List Item)
    (args : List FormatArg) :
    ¬ FormatTakes (0x25 :: c :: formatBytes items) args (intended items args) := by
  intro h
  obtain ⟨a, rest, l', -, -, hl, -⟩ := (takes_argument hk).mp h
  have hplace : (c :: formatBytes items, a) ∈ intended items args := hl ▸ List.mem_cons_self
  have := length_intended_lt items args _ hplace
  simp only [List.length_cons] at this
  omega

/-- The formatter takes what is intended exactly when nothing disturbs it. -/
theorem takes_intended_iff (items : List Item) : ∀ (pending : Bool) (args : List FormatArg),
    ArgumentsFor items args →
    (FormatTakes (behind pending (formatBytes items)) args (intended items args)
      ↔ aligned pending items = true) := by
  induction items with
  | nil =>
    intro pending args _
    refine iff_of_true ?_ rfl
    cases pending <;> exact ⟨List.nil_prefix, rfl⟩
  | cons item items ih =>
    intro pending args hargs
    rw [formatBytes_cons]
    cases item with
    | text c hc =>
      have hrest := ih false args (hargs.tail rfl)
      cases pending with
      | false =>
        rw [aligned, Bool.not_false, Bool.true_or, Bool.true_and, ← hrest]
        exact takes_literal hc.1
      | true =>
        rw [aligned, Bool.not_true, Bool.false_or]
        cases hk : argKind c with
        | none =>
          rw [Option.isNone_none, Bool.true_and, ← hrest]
          exact takes_plain hk
        | some k =>
          exact iff_of_false (not_takes_early hk items args) (by simp)
    | conversion width spec =>
      by_cases hspec : spec = .percent
      · subst hspec
        have hrest := fun pending => ih pending args (hargs.tail rfl)
        rw [aligned, if_pos rfl, ← hrest]
        cases pending with
        | false =>
          cases width with
          | nil => exact takes_plain rfl
          | cons d width =>
            exact (takes_plain (digit_plain d).2.2).trans (takes_width width)
        | true => exact (takes_plain rfl).trans (takes_width width)
      · obtain ⟨⟨k, hk⟩, hne⟩ := argKind_spec hspec
        have hitem : (Item.conversion width spec).kind = some k := hk
        obtain ⟨a, rest, rfl, hkind, hargs'⟩ := hargs.argument hitem
        rw [aligned, if_neg hspec, intended_argument hk]
        cases pending with
        | false =>
          cases width with
          | nil =>
            rw [Bool.not_false, List.isEmpty_nil, Bool.true_and, Bool.true_and,
              ← ih false rest hargs']
            exact takes_given hk hkind
          | cons d width =>
            refine iff_of_false (fun h => ?_) (by simp)
            exact not_takes_lost hne ((takes_plain (digit_plain d).2.2).mp h)
        | true =>
          refine iff_of_false (fun h => ?_) (by simp)
          exact not_takes_lost hne ((takes_plain rfl).mp h)

/-! ## The runs -/

/-- The next argument, if there is one, is not of type `k`. -/
def NoneOf (k : ArgKind) (args : List FormatArg) : Prop :=
  ∀ a rest, args = a :: rest → a.kind ≠ k

theorem vaInt_eq_none (h : NoneOf .int args) : vaInt args = none := by
  cases args with
  | nil => rfl
  | cons a rest =>
    cases a with
    | int num => exact absurd rfl (h _ rest rfl)
    | str str => rfl

theorem vaStr_eq_none (h : NoneOf .str args) : vaStr args = none := by
  cases args with
  | nil => rfl
  | cons a rest =>
    cases a with
    | int num => rfl
    | str str => exact absurd rfl (h _ rest rfl)

/-- Taking an argument of the wrong type is undefined. -/
theorem convert_none {c : Byte} {k : ArgKind} (hk : argKind c = some k) (h : NoneOf k args)
    (size : Nat) (stack : Nat → Byte) (place : List Byte) (st : FormatState) :
    convert size stack place c args st = none := by
  unfold argKind at hk
  split at hk
  next hc =>
    obtain rfl := Option.some.inj hk
    have hnone := vaInt_eq_none h
    rcases hc with rfl | rfl | rfl | rfl | rfl <;> simp [convert, hnone]
  · split at hk
    next hc =>
      obtain rfl := Option.some.inj hk
      subst hc
      simp [convert, vaStr_eq_none h]
    · exact absurd hk.symm (Option.some_ne_none k)

/-- With room for all of it, a format whose arguments do not match has no defined result. -/
theorem loop_none (size : Nat) (stack : List Byte → Nat → Byte) :
    ∀ (p : List Byte) (args : List FormatArg) (st : FormatState), ¬ Matches p args →
      st.out.i + (formatText p args).length < size - 1 → loop size stack p args st = none
  | [], _, _, hm, _ => absurd List.nil_prefix hm
  | [_], _, _, hm, _ => absurd List.nil_prefix hm
  | c :: spec :: p, args, st, hm, hroom => by
    rw [loop, if_pos (by omega)]
    rw [formatText_cons] at hroom
    by_cases hc : c ≠ 0x25
    · rw [if_pos hc, List.length_cons] at hroom
      rw [Matches, argKinds, if_pos hc] at hm
      rw [if_pos hc]
      refine loop_none size stack (spec :: p) args (st.put c) hm ?_
      show st.out.i + 1 + _ < _
      omega
    rw [if_neg hc] at hroom ⊢
    rw [Matches, argKinds, if_neg hc] at hm
    cases hk : argKind spec with
    | none =>
      rw [hk] at hm hroom
      have hi : st.out.i < size - 1 := by omega
      obtain ⟨st₁, hconv, happ⟩ := convert_plain hk hi (stack (spec :: p)) (spec :: p) args
      simp only [List.length_append] at hroom
      have hi₁ := happ.i_eq (by omega)
      rw [hconv]
      exact loop_none size stack p args st₁ hm (by omega)
    | some k =>
      rw [hk] at hm hroom
      by_cases hnone : NoneOf k args
      · rw [convert_none hk hnone]
        rfl
      · -- the argument is right, so it is a later one that is not
        simp only [NoneOf, not_forall, not_not] at hnone
        obtain ⟨a, rest, rfl, rfl⟩ := hnone
        have hi : st.out.i < size - 1 := by omega
        obtain ⟨st₁, hconv, happ⟩ := convert_argument hk hi (stack (spec :: p)) (spec :: p) rest
        simp only [List.length_append] at hroom
        have hi₁ := happ.i_eq (by omega)
        rw [hconv]
        refine loop_none size stack p rest st₁ (fun h => hm ?_) (by omega)
        rw [Option.toList_some, List.map_cons, List.singleton_append, List.cons_prefix_cons]
        exact ⟨rfl, h⟩

/-- What is taken stands in the text, in the form its specifier gives it. -/
theorem takenBy_text : ∀ (p : List Byte) (args : List FormatArg) (i : Nat), ∀ t ∈ takenBy p args i,
    ∃ spec rest before after, t.place = spec :: rest ∧
      formatText p args = before ++ argText spec t.arg ++ after ∧ t.i = i + before.length
  | [], _, _, t, ht => absurd ht List.not_mem_nil
  | [_], _, _, t, ht => absurd ht List.not_mem_nil
  | c :: spec :: p, args, i, t, ht => by
    rw [takenBy_cons] at ht
    rw [formatText_cons]
    split at ht
    next hc =>
      obtain ⟨s, rest, before, after, hplace, htext, hi⟩ := takenBy_text (spec :: p) args _ t ht
      refine ⟨s, rest, c :: before, after, hplace, ?_, by rw [hi, List.length_cons]; omega⟩
      rw [if_pos hc, htext]
      rfl
    next hc =>
    rw [if_neg hc]
    cases hk : argKind spec with
    | none =>
      rw [hk] at ht
      obtain ⟨s, rest, before, after, hplace, htext, hi⟩ := takenBy_text p args _ t ht
      refine ⟨s, rest, plainText spec ++ before, after, hplace, ?_, ?_⟩
      · simp only [htext, List.append_assoc]
      · rw [hi, List.length_append]
        omega
    | some k =>
      rw [hk] at ht
      cases args with
      | nil => exact absurd ht List.not_mem_nil
      | cons a args =>
        rcases List.mem_cons.mp ht with rfl | ht
        · exact ⟨spec, p, [], formatText p args, rfl, rfl, rfl⟩
        · obtain ⟨s, rest, before, after, hplace, htext, hi⟩ := takenBy_text p args _ t ht
          refine ⟨s, rest, argText spec a ++ before, after, hplace, ?_, ?_⟩
          · simp only [htext, List.append_assoc]
          · rw [hi, List.length_append]
            omega

theorem vsnprintf_none {format : CString} (hm : ¬ Matches format.bytes args)
    (stack : List Byte → Nat → Byte) (buf : Buffer) {n : Nat}
    (hn : (formatText format.bytes args).length < n - 1) :
    vsnprintf stack (some buf) n format args = none := by
  have hnone := loop_none n stack format.bytes args ⟨⟨buf, 0⟩, [], []⟩ hm
    (by simp only [Nat.zero_add]; exact hn)
  simp only [vsnprintf, if_neg (show n ≠ 0 by omega), hnone, Option.map_none]

/-- Of a run with room for the whole text: what is taken, and where it is printed. -/
theorem vsnprintf_taken {format : CString} (hm : Matches format.bytes args)
    (stack : List Byte → Nat → Byte) (buf : Buffer) {n : Nat}
    (hn : (formatText format.bytes args).length < n - 1) :
    ∃ ret st, vsnprintf stack (some buf) n format args = some (ret, some st) ∧
      st.taken = takenBy format.bytes args 0 ∧
      ∀ t ∈ st.taken, ∃ spec rest, t.place = spec :: rest ∧
        ∀ (k : Nat) (h : k < (argText spec t.arg).length),
          st.out.buf.bytes (t.i + k) = (argText spec t.arg)[k] := by
  obtain ⟨st, t, hrun, happ, ht⟩ := vsnprintf_spec hm stack buf (n := n) (by omega)
  have htaken : st.taken = takenBy format.bytes args 0 := by
    rw [happ.taken, ht hn]
    rfl
  have hlast := happ.i_eq (by simp only; omega)
  refine ⟨_, _, hrun, htaken, fun e he => ?_⟩
  obtain ⟨spec, rest, before, after, hplace, htext, hi⟩ :=
    takenBy_text format.bytes args 0 e (htaken ▸ he)
  refine ⟨spec, rest, hplace, fun k hk => ?_⟩
  have hlen := congrArg List.length htext
  simp only [List.length_append] at hlen hlast
  have hget : (formatText format.bytes args)[before.length + k] = (argText spec e.arg)[k] := by
    rw [List.getElem_of_eq htext, List.getElem_append_left (by rw [List.length_append]; omega),
      List.getElem_append_right (Nat.le_add_right _ _)]
    simp only [Nat.add_sub_cancel_left]
  have hin : before.length + k < (formatText format.bytes args).length := by omega
  have hbytes := Sink.emit_bytes_add ⟨buf, 0⟩ (n - 1) hin (by simp only; omega)
  rw [FormatState.terminate, Buffer.set_bytes_of_ne _ _ (by omega), happ.out, hi, ← hget, ← hbytes,
    Nat.add_assoc]

/-- The formatter takes what it takes, whatever the buffer has room for it. -/
theorem argumentsAligned_iff_takes (items : List Item) (args : List FormatArg) :
    ArgumentsAligned items args ↔ FormatTakes (formatBytes items) args (intended items args) := by
  constructor
  · rintro ⟨room, h⟩
    obtain ⟨n, hn⟩ : ∃ n, n = room + (formatText (formatBytes items) args).length + 2 := ⟨_, rfl⟩
    have hfit : (formatText (formatOf items).bytes args).length < n - 1 := by
      show (formatText (formatBytes items) args).length < n - 1
      omega
    obtain ⟨ret, st, hrun, hplaces, -⟩ := h n (by omega) (fun _ _ => 0) (.fresh fun _ => 0)
    have hm : Matches (formatOf items).bytes args := by
      by_contra hm
      rw [vsnprintf_none hm _ _ hfit] at hrun
      exact absurd hrun.symm (Option.some_ne_none _)
    obtain ⟨ret', st', hrun', htaken, -⟩ :=
      vsnprintf_taken hm (fun _ _ => 0) (.fresh fun _ => 0) hfit
    rw [hrun] at hrun'
    obtain rfl : st = st' := Option.some.inj (Prod.mk.inj (Option.some.inj hrun')).2
    exact ⟨hm, by rw [← hplaces, htaken]; rfl⟩
  · rintro ⟨hm, hplaces⟩
    refine ⟨(formatText (formatBytes items) args).length + 2, fun size hsize stack buf => ?_⟩
    have hm' : Matches (formatOf items).bytes args := hm
    have hfit : (formatText (formatOf items).bytes args).length < size - 1 := by
      show (formatText (formatBytes items) args).length < size - 1
      omega
    obtain ⟨ret, st, hrun, htaken, htext⟩ := vsnprintf_taken hm' stack buf hfit
    exact ⟨ret, st, hrun, by rw [htaken, ← hplaces]; rfl, htext⟩

/-- **Each conversion takes its own argument exactly when nothing in the format disturbs it.** -/
theorem argumentsAligned_iff {items : List Item} {args : List FormatArg}
    (hargs : ArgumentsFor items args) : ArgumentsAligned items args ↔ aligned false items = true :=
  (argumentsAligned_iff_takes items args).trans (takes_intended_iff items false args hargs)

/-- `"%d%%"`. -/
theorem argumentsAligned_percent :
    ArgumentsAligned [.conversion [] .d, .conversion [] .percent] [.int 7] :=
  (argumentsAligned_iff ⟨[], rfl⟩).mpr rfl

/-- `"%04x%d"`: the width takes away the `%` of the first conversion, and the second prints the
argument of the first. -/
theorem width_not_aligned :
    ArgumentsFor [.conversion [0, 4] .x, .conversion [] .d] [.int 0x8086, .int 7] ∧
      ¬ ArgumentsAligned [.conversion [0, 4] .x, .conversion [] .d] [.int 0x8086, .int 7] := by
  refine ⟨⟨[], rfl⟩, fun h => ?_⟩
  have htakes := (argumentsAligned_iff_takes _ _).mp h
  have haligned := takes_intended_iff [.conversion [0, 4] .x, .conversion [] .d] false
    [.int 0x8086, .int 7] ⟨[], rfl⟩
  exact absurd (haligned.mp htakes) (by decide)

end MinimalistOS
