import MinimalistOS.Infra.Memory
import MinimalistOS.Infra.Slots
import Mathlib.Data.List.TakeDrop
import Mathlib.Data.List.TakeWhile

/-!
# `kernel/string.c`: memory and strings

The byte loops the rest of the kernel is built on. Memory is a total function from 32-bit
addresses to bytes, and a pointer that is stepped past `0xFFFFFFFF` wraps to `0`, as on the
machine.

A string is a `CString`, a list of bytes without a zero. The kernel keeps strings in arrays of a
fixed size:

* `strcmp_eq_zero` — `strcmp` returns `0` on equal strings only
* `CString.ofArray_strncpy` — a string stored with `strncpy` and a terminator is cut to the field
-/

namespace MinimalistOS

open Infra

/-- `memset`: the loop `while (n--) *p++ = c`. -/
def memset (m : Mem) (p : Word) (c : Byte) : Nat → Mem
  | 0 => m
  | n + 1 => memset (m.set p c) (p + 1) c n

/-- `memset` writes the `n` bytes from `p` on and nothing else. -/
theorem memset_apply (c : Byte) (n : Nat) (hn : n ≤ 2 ^ 32) (m : Mem) (p a : Word) :
    memset m p c n a = if (a - p).toNat < n then c else m a := by
  induction n generalizing m p with
  | zero => simp [memset]
  | succ n ih =>
    rw [memset, ih (by omega), Mem.set]
    by_cases ha : a = p
    · subst ha
      simp
    · have hpos : 0 < (a - p).toNat := by bv_omega
      have hstep : (a - (p + 1)).toNat = (a - p).toNat - 1 := by bv_omega
      rw [hstep, if_neg ha]
      by_cases hlt : (a - p).toNat < n + 1
      · rw [if_pos hlt, if_pos (by omega)]
      · rw [if_neg hlt, if_neg (by omega)]

/-- `memcpy(p, src, n)` into memory: the loop `while (n--) *d++ = *s++`; `src` is what the source
pointer points at. -/
def memcpyTo (m : Mem) (p : Word) (src : Nat → Byte) : Nat → Mem
  | 0 => m
  | n + 1 => memcpyTo (m.set p (src 0)) (p + 1) (fun i => src (i + 1)) n

/-- `memcpyTo` writes the `n` bytes from `p` on and nothing else. -/
theorem memcpyTo_apply (n : Nat) (hn : n ≤ 2 ^ 32) (m : Mem) (p : Word) (src : Nat → Byte)
    (a : Word) :
    memcpyTo m p src n a = if (a - p).toNat < n then src (a - p).toNat else m a := by
  induction n generalizing m p src with
  | zero => simp [memcpyTo]
  | succ n ih =>
    rw [memcpyTo, ih (by omega), Mem.set]
    by_cases ha : a = p
    · subst ha
      rw [if_neg (by bv_omega), if_pos rfl, if_pos (by bv_omega)]
      simp
    · have hpos : 0 < (a - p).toNat := by bv_omega
      have hstep : (a - (p + 1)).toNat = (a - p).toNat - 1 := by bv_omega
      rw [hstep, if_neg ha, Nat.sub_add_cancel hpos]
      by_cases hlt : (a - p).toNat < n + 1
      · rw [if_pos hlt, if_pos (by omega)]
      · rw [if_neg hlt, if_neg (by omega)]

/-- The loop of `memcpy` into an array, from index `i` on. -/
def memcpy.loop {m : Nat} (dest : Vector Byte m) (src : Nat → Byte) (i : Nat) :
    Nat → Vector Byte m
  | 0 => dest
  | n + 1 => memcpy.loop (dest.setIfInBounds i (src i)) src (i + 1) n

/-- `memcpy(dest, src, n)` into an array; `src` is what the pointer points at. -/
def memcpy {m : Nat} (dest : Vector Byte m) (src : Nat → Byte) (n : Nat) : Vector Byte m :=
  memcpy.loop dest src 0 n

theorem slot_memcpy_loop {m : Nat} (src : Nat → Byte) (j n i : Nat) (dest : Vector Byte m)
    (h : i + n ≤ m) :
    slot (memcpy.loop dest src i n) j = if i ≤ j ∧ j < i + n then src j else slot dest j := by
  induction n generalizing i dest with
  | zero =>
    rw [memcpy.loop, if_neg (by omega)]
  | succ n ih =>
    rw [memcpy.loop, ih _ _ (by omega), slot_setIfInBounds _ (by omega)]
    by_cases hj : j = i
    · subst hj
      rw [if_neg (by omega), if_pos rfl, if_pos (by omega)]
    · rw [if_neg hj]
      by_cases hin : i + 1 ≤ j ∧ j < i + 1 + n
      · rw [if_pos hin, if_pos (by omega)]
      · rw [if_neg hin, if_neg (by omega)]

theorem slot_memcpy {m : Nat} (src : Nat → Byte) {n : Nat} (h : n ≤ m) (dest : Vector Byte m)
    (j : Nat) : slot (memcpy dest src n) j = if j < n then src j else slot dest j := by
  rw [memcpy, slot_memcpy_loop src j n 0 dest (by omega)]
  simp

/-- The loops of `strncpy` from index `i` on: copy up to the terminator, then pad with zeros. A
string is the list of its bytes; the end of the list is the terminator. -/
def strncpy.loop {m : Nat} (dest : Vector Byte m) (i : Nat) : List Byte → Nat → Vector Byte m
  | _, 0 => dest
  | [], n + 1 => strncpy.loop (dest.setIfInBounds i 0) (i + 1) [] n
  | c :: src, n + 1 =>
    if c = 0 then strncpy.loop (dest.setIfInBounds i 0) (i + 1) [] n
    else strncpy.loop (dest.setIfInBounds i c) (i + 1) src n

/-- `strncpy(dest, src, n)`. -/
def strncpy {m : Nat} (dest : Vector Byte m) (src : List Byte) (n : Nat) : Vector Byte m :=
  strncpy.loop dest 0 src n

/-! ## Strings -/

/-- The bytes of a literal of the source. -/
def ascii (literal : String) : List Byte := literal.toList.map fun c => BitVec.ofNat 8 c.toNat

/-- A string: the bytes before the terminator. -/
@[ext] structure CString where
  bytes : List Byte
  nul_free : ∀ b ∈ bytes, b ≠ 0
  deriving DecidableEq

namespace CString

/-- What a pointer to these bytes is as a string. -/
def ofBytes (l : List Byte) : CString where
  bytes := l.takeWhile (· ≠ 0)
  nul_free b hb := by simpa using List.mem_takeWhile_imp hb

/-- The string in an array. -/
def ofArray {m : Nat} (v : Vector Byte m) : CString := ofBytes v.toList

/-- The first `n` bytes. -/
def truncate (s : CString) (n : Nat) : CString where
  bytes := s.bytes.take n
  nul_free b hb := s.nul_free b (List.mem_of_mem_take hb)

@[simp] theorem ofBytes_bytes (s : CString) : ofBytes s.bytes = s := by
  ext1
  exact List.takeWhile_eq_self_iff.mpr fun b hb => by simpa using s.nul_free b hb

theorem truncate_eq_self {s : CString} {n : Nat} : s.truncate n = s ↔ s.bytes.length ≤ n := by
  rw [CString.ext_iff]
  exact List.take_eq_self_iff s.bytes

theorem bytes_ofBytes_cons (c : Byte) (l : List Byte) :
    (ofBytes (c :: l)).bytes = if c = 0 then [] else c :: (ofBytes l).bytes := by
  by_cases hc : c = 0
  · rw [if_pos hc]
    exact List.takeWhile_cons_of_neg (p := fun b : Byte => decide (b ≠ 0)) (by simpa using hc)
  · rw [if_neg hc]
    exact List.takeWhile_cons_of_pos (p := fun b : Byte => decide (b ≠ 0)) (by simpa using hc)

/-- A string is empty when its first byte is the terminator. -/
theorem bytes_ofBytes_eq_nil (l : List Byte) : (ofBytes l).bytes = [] ↔ l.headD 0 = 0 := by
  cases l with
  | nil => exact ⟨fun _ => rfl, fun _ => rfl⟩
  | cons c l =>
    rw [bytes_ofBytes_cons, List.headD_cons]
    by_cases hc : c = 0
    · exact iff_of_true (if_pos hc) hc
    · rw [if_neg hc]
      exact iff_of_false (List.cons_ne_nil _ _) hc

end CString

/-- A literal of the source as a string. -/
def literal (text : String) : CString := CString.ofBytes (ascii text)

/-- `strcmp`; the end of a list is the terminator. -/
def strcmp : List Byte → List Byte → Int
  | [], t => 0 - (t.headD 0).toNat
  | c :: s, t =>
    if c ≠ 0 ∧ c = t.headD 0 then strcmp s t.tail else (c.toNat : Int) - (t.headD 0).toNat

/-- `strcmp` returns `0` on equal strings only. -/
theorem strcmp_eq_zero (s t : List Byte) :
    strcmp s t = 0 ↔ CString.ofBytes s = CString.ofBytes t := by
  rw [CString.ext_iff]
  induction s generalizing t with
  | nil =>
    have hnil : ([] : List Byte) = (CString.ofBytes t).bytes ↔ t.headD 0 = 0 := by
      rw [← CString.bytes_ofBytes_eq_nil, eq_comm]
    refine Iff.trans ?_ hnil.symm
    rw [strcmp]
    bv_omega
  | cons c s ih =>
    rw [strcmp, CString.bytes_ofBytes_cons]
    by_cases hc : c = 0
    · rw [if_neg fun h => h.1 hc, if_pos hc, eq_comm (a := []), CString.bytes_ofBytes_eq_nil]
      bv_omega
    · rw [if_neg hc]
      cases t with
      | nil =>
        rw [if_neg fun h => hc h.2]
        refine iff_of_false (fun h => hc ?_) (List.cons_ne_nil _ _)
        rw [List.headD_nil] at h
        bv_omega
      | cons d t =>
        rw [CString.bytes_ofBytes_cons, List.headD_cons, List.tail_cons]
        by_cases hcd : c = d
        · subst hcd
          rw [if_pos ⟨hc, rfl⟩, if_neg hc, ih, List.cons_inj_right]
        · rw [if_neg fun h => hcd h.2]
          refine iff_of_false (fun h => hcd (by bv_omega)) fun h => ?_
          by_cases hd : d = 0
          · rw [if_pos hd] at h
            exact List.cons_ne_nil _ _ h
          · rw [if_neg hd] at h
            exact hcd (List.head_eq_of_cons_eq h)

/-- `strncmp`, with `n` turns to go; the end of a list is the terminator. -/
def strncmp : List Byte → List Byte → Nat → Int
  | _, _, 0 => 0
  | s, t, n + 1 =>
    if s.headD 0 ≠ t.headD 0 then ((s.headD 0).toNat : Int) - (t.headD 0).toNat
    else if s.headD 0 = 0 then 0
    else strncmp s.tail t.tail n

/-! ### Strings in arrays -/

theorem CString.length_ofArray_le {m : Nat} (v : Vector Byte m) :
    (CString.ofArray v).bytes.length ≤ m := by
  have h := (List.takeWhile_prefix (l := v.toList) fun b : Byte => decide (b ≠ 0)).length_le
  rw [Vector.length_toList] at h
  exact h

/-- A list that runs through the bytes of a string and then has a zero is that string. -/
theorem CString.ofBytes_eq_of_getElem? {l : List Byte} {s : CString}
    (hs : ∀ j ≤ s.bytes.length, l[j]? = some (s.bytes.getD j 0)) : CString.ofBytes l = s := by
  obtain ⟨bytes, hfree⟩ := s
  rw [CString.ext_iff]
  induction bytes generalizing l with
  | nil =>
    rw [CString.bytes_ofBytes_eq_nil]
    cases l with
    | nil => rfl
    | cons c l => simpa using hs 0 (by simp)
  | cons b bytes ih =>
    cases l with
    | nil => simpa using hs 0 (by simp)
    | cons c l =>
      obtain rfl : c = b := by simpa using hs 0 (by simp)
      rw [CString.bytes_ofBytes_cons, if_neg (hfree c List.mem_cons_self)]
      refine congrArg (c :: ·) (ih (fun x hx => hfree x (List.mem_cons_of_mem c hx)) ?_)
      intro j hj
      simpa using hs (j + 1) (by simpa using hj)

theorem slot_strncpy_loop {m : Nat} (j n : Nat) : ∀ (i : Nat) (src : List Byte)
    (dest : Vector Byte m), i + n ≤ m →
      slot (strncpy.loop dest i src n) j
        = if i ≤ j ∧ j < i + n then (CString.ofBytes src).bytes.getD (j - i) 0
          else slot dest j := by
  induction n with
  | zero =>
    intro i src dest _
    rw [strncpy.loop, if_neg (by omega)]
  | succ n ih =>
    -- the byte written at `i`, and what is left of the string
    have hstep : ∀ (i : Nat) (c : Byte) (rest : List Byte) (dest : Vector Byte m),
        i + (n + 1) ≤ m →
        slot (strncpy.loop (dest.setIfInBounds i c) (i + 1) rest n) j
          = if i ≤ j ∧ j < i + (n + 1) then
              (c :: (CString.ofBytes rest).bytes).getD (j - i) 0
            else slot dest j := by
      intro i c rest dest h
      rw [ih _ _ _ (by omega), slot_setIfInBounds _ (by omega)]
      by_cases hj : j = i
      · subst hj
        rw [if_neg (by omega), if_pos rfl, if_pos (by omega), Nat.sub_self]
        rfl
      · rw [if_neg hj]
        by_cases hin : i + 1 ≤ j ∧ j < i + 1 + n
        · rw [if_pos hin, if_pos (by omega), show j - i = (j - (i + 1)) + 1 by omega]
          rfl
        · rw [if_neg hin, if_neg (by omega)]
    have hpad : ∀ k, (0 :: (CString.ofBytes []).bytes).getD k 0
        = (CString.ofBytes []).bytes.getD k 0 := by
      intro k
      cases k with
      | zero => rfl
      | succ k => rfl
    intro i src dest h
    cases src with
    | nil => rw [strncpy.loop, hstep i 0 [] dest h, hpad]
    | cons c src =>
      rw [strncpy.loop, CString.bytes_ofBytes_cons]
      by_cases hc : c = 0
      · rw [if_pos hc, if_pos hc, hstep i 0 [] dest h, hpad]
        rfl
      · rw [if_neg hc, if_neg hc, hstep i c src dest h]

/-- A string stored with `strncpy(v, s, n); v[n] = 0` is cut after `n` bytes. -/
theorem CString.ofArray_strncpy {m n : Nat} (dest : Vector Byte m) (s : CString) (h : n < m) :
    CString.ofArray ((strncpy dest s.bytes n).setIfInBounds n 0) = s.truncate n := by
  apply CString.ofBytes_eq_of_getElem?
  intro j hj
  have hlen : (s.truncate n).bytes.length ≤ n := List.length_take_le n s.bytes
  have hjm : j < m := by omega
  have hget : ∀ v : Vector Byte m, v.toList[j]? = some (slot v j) := by
    intro v
    simp [slot, hjm]
  rw [hget, slot_setIfInBounds _ h]
  by_cases hjn : j = n
  · rw [if_pos hjn, List.getD_eq_getElem?_getD, List.getElem?_eq_none (by omega)]
    rfl
  · have hsrc := slot_strncpy_loop j n 0 s.bytes dest (by omega)
    rw [if_neg hjn, strncpy, hsrc, if_pos (by omega), CString.ofBytes_bytes]
    simp [truncate, show j < n by omega]

end MinimalistOS
