import MinimalistOS.Infra.Word

/-!
# A byte buffer behind a pointer

A pointer alone does not say how much room there is behind it. A `Buffer` is what stands at and
after the pointer, without an end, together with the indices that have been stored to; that code
stays inside an array of a given size is then a statement about these indices.

`put` stores a list of bytes in order. `Holds` says which string a buffer holds. A `Sink` is a
buffer that is appended to; `emit` appends what fits below a limit, and `emit_append` is why
formatting piece by piece is formatting the whole.
-/

namespace Infra

/-- The bytes behind a pointer, and the indices stored to. -/
structure Buffer where
  bytes : Nat → Byte
  written : List Nat

namespace Buffer

/-- A buffer nobody has stored to yet, with whatever bytes it has. -/
def fresh (bytes : Nat → Byte) : Buffer := ⟨bytes, []⟩

/-- `b[i] = c`. -/
def set (b : Buffer) (i : Nat) (c : Byte) : Buffer where
  bytes j := if j = i then c else b.bytes j
  written := i :: b.written

/-- Stores of a list of bytes, one after the other from `i` on. -/
def put (b : Buffer) (i : Nat) : List Byte → Buffer
  | [] => b
  | c :: l => (b.set i c).put (i + 1) l

/-- The string in the buffer is `text`: its bytes, none of them zero, and a zero after them. -/
structure Holds (b : Buffer) (text : List Byte) : Prop where
  nul_free : ∀ c ∈ text, c ≠ 0
  bytes : ∀ i (h : i < text.length), b.bytes i = text[i]
  terminated : b.bytes text.length = 0

@[simp] theorem put_nil (b : Buffer) (i : Nat) : b.put i [] = b := rfl

@[simp] theorem put_cons (b : Buffer) (i : Nat) (c : Byte) (l : List Byte) :
    b.put i (c :: l) = (b.set i c).put (i + 1) l := rfl

@[simp] theorem set_bytes_self (b : Buffer) (i : Nat) (c : Byte) : (b.set i c).bytes i = c :=
  if_pos rfl

theorem set_bytes_of_ne (b : Buffer) {i j : Nat} (c : Byte) (h : j ≠ i) :
    (b.set i c).bytes j = b.bytes j :=
  if_neg h

theorem mem_written_set {b : Buffer} {i j : Nat} {c : Byte} :
    j ∈ (b.set i c).written ↔ j = i ∨ j ∈ b.written :=
  List.mem_cons

theorem put_append (b : Buffer) (i : Nat) (l r : List Byte) :
    b.put i (l ++ r) = (b.put i l).put (i + l.length) r := by
  induction l generalizing b i with
  | nil => rfl
  | cons c l ih =>
    rw [List.cons_append, put_cons, put_cons, ih, List.length_cons, Nat.add_right_comm,
      Nat.add_assoc]

/-- `put` does not reach below its start. -/
theorem put_bytes_of_lt (b : Buffer) (l : List Byte) {i j : Nat} (h : j < i) :
    (b.put i l).bytes j = b.bytes j := by
  induction l generalizing b i with
  | nil => rfl
  | cons c l ih => rw [put_cons, ih _ (by omega), set_bytes_of_ne _ _ (by omega)]

/-- The bytes `put` stores are read back. -/
theorem put_bytes_add (b : Buffer) (i : Nat) (l : List Byte) {k : Nat} (h : k < l.length) :
    (b.put i l).bytes (i + k) = l[k] := by
  induction l generalizing b i k with
  | nil => exact absurd h (Nat.not_lt_zero k)
  | cons c l ih =>
    rw [put_cons]
    cases k with
    | zero =>
      rw [put_bytes_of_lt _ _ (by omega)]
      exact set_bytes_self b i c
    | succ k =>
      have hk := ih (b.set i c) (i + 1) (Nat.lt_of_succ_lt_succ h)
      rw [Nat.add_right_comm, Nat.add_assoc] at hk
      rw [hk, List.getElem_cons_succ]

theorem mem_written_put {b : Buffer} {i j : Nat} {l : List Byte} :
    j ∈ (b.put i l).written ↔ (i ≤ j ∧ j < i + l.length) ∨ j ∈ b.written := by
  induction l generalizing b i with
  | nil => rw [put_nil, List.length_nil]; exact ⟨.inr, fun h => h.resolve_left (by omega)⟩
  | cons c l ih =>
    rw [put_cons, ih, mem_written_set, List.length_cons]
    constructor
    · rintro (h | rfl | h)
      · exact .inl (by omega)
      · exact .inl (by omega)
      · exact .inr h
    · rintro (h | h)
      · by_cases hj : j = i
        · exact .inr (.inl hj)
        · exact .inl (by omega)
      · exact .inr (.inr h)

end Buffer

/-! ## Appending -/

/-- A buffer and the index the next byte goes to. -/
structure Sink where
  buf : Buffer
  i : Nat

namespace Sink

/-- `buf[i++] = c`. -/
def put (o : Sink) (c : Byte) : Sink := ⟨o.buf.set o.i c, o.i + 1⟩

/-- Appends as much of a text as fits below `limit`. -/
def emit (o : Sink) (limit : Nat) (text : List Byte) : Sink :=
  ⟨o.buf.put o.i (text.take (limit - o.i)), o.i + min (limit - o.i) text.length⟩

variable {o : Sink} {limit : Nat}

@[simp] theorem put_i (o : Sink) (c : Byte) : (o.put c).i = o.i + 1 := rfl

@[simp] theorem emit_nil (o : Sink) (limit : Nat) : o.emit limit [] = o := by
  simp [emit]

/-- At the limit nothing is appended. -/
theorem emit_of_le (h : limit ≤ o.i) (text : List Byte) : o.emit limit text = o := by
  simp [emit, Nat.sub_eq_zero_of_le h]

/-- Below the limit the first byte goes in. -/
theorem emit_cons (h : o.i < limit) (c : Byte) (text : List Byte) :
    o.emit limit (c :: text) = (o.put c).emit limit text := by
  obtain ⟨k, hk⟩ : ∃ k, limit - o.i = k + 1 := ⟨limit - o.i - 1, by omega⟩
  have hk' : limit - (o.i + 1) = k := by omega
  simp only [emit, put, hk, hk', List.take_succ_cons, Buffer.put_cons, List.length_cons, mk.injEq,
    true_and]
  omega

theorem emit_singleton (h : o.i < limit) (c : Byte) : o.emit limit [c] = o.put c := by
  rw [emit_cons h, emit_nil]

theorem emit_append (o : Sink) (limit : Nat) (l r : List Byte) :
    o.emit limit (l ++ r) = (o.emit limit l).emit limit r := by
  induction l generalizing o with
  | nil => rw [List.nil_append, emit_nil]
  | cons c l ih =>
    by_cases h : o.i < limit
    · rw [List.cons_append, emit_cons h, emit_cons h, ih]
    · have ho : limit ≤ o.i := by omega
      rw [emit_of_le ho, emit_of_le ho (c :: l), emit_of_le ho]

/-- The bytes that fit are there. -/
theorem emit_bytes_add (o : Sink) (limit : Nat) {text : List Byte} {k : Nat} (h : k < text.length)
    (hk : o.i + k < limit) : (o.emit limit text).buf.bytes (o.i + k) = text[k] := by
  have hput := o.buf.put_bytes_add o.i (text.take (limit - o.i)) (k := k)
    (by rw [List.length_take]; omega)
  rw [List.getElem_take] at hput
  exact hput

/-- What fits can be read off the result. -/
theorem emit_inj {l r : List Byte} (h : o.emit limit l = o.emit limit r)
    (hl : o.i + l.length < limit) (hr : o.i + r.length < limit) : l = r := by
  have hlen : l.length = r.length := by
    have hi := congrArg Sink.i h
    simp only [emit] at hi
    omega
  apply List.ext_getElem hlen
  intro k h1 h2
  rw [← emit_bytes_add o limit h1 (by omega), ← emit_bytes_add o limit h2 (by omega), h]

theorem mem_written_emit {text : List Byte} {j : Nat} (h : j ∈ (o.emit limit text).buf.written) :
    j < limit ∨ j ∈ o.buf.written := by
  rcases Buffer.mem_written_put.mp h with h | h
  · rw [List.length_take] at h
    exact .inl (by omega)
  · exact .inr h

end Sink

end Infra
