import MinimalistOS.Infra.ThreeWay
import MinimalistOS.Kernel.String

/-!
# The order of strings

* `strcmp_threeWay`, `strncmp_threeWay` — the loops compare in lexicographic order
* `string_order` — what the kernel relies on

A byte counts as a number from 1 to 255: the loops look for the first difference with the bytes as
they are, and subtract them as unsigned. A terminator is smaller than every byte, so a string comes
before those it is the beginning of.
-/

namespace MinimalistOS

open Infra

/-- The bytes of a string as numbers. -/
def CString.codes (s : CString) : List Nat := s.bytes.map BitVec.toNat

theorem codes_inj {s t : CString} : s.codes = t.codes ↔ s = t := by
  rw [CString.ext_iff, CString.codes, CString.codes, List.map_inj_right]
  exact fun _ _ => BitVec.eq_of_toNat_eq

theorem toNat_byte_pos {c : Byte} (hc : c ≠ 0) : 0 < c.toNat := by
  bv_omega

/-! ## The loops -/

/-- **`strcmp`** compares in lexicographic order. -/
theorem strcmp_threeWay (s t : List Byte) (hs : ∀ c ∈ s, c ≠ 0) (ht : ∀ c ∈ t, c ≠ 0) :
    ThreeWay (strcmp s t) (s.map BitVec.toNat) (t.map BitVec.toNat) := by
  induction s generalizing t with
  | nil =>
    rw [strcmp]
    cases t with
    | nil => exact ThreeWay.nil_nil
    | cons d t =>
      have hd := toNat_byte_pos (ht d List.mem_cons_self)
      exact ThreeWay.nil_cons (by simpa using hd)
  | cons c s ih =>
    have hc := hs c List.mem_cons_self
    rw [strcmp]
    cases t with
    | nil =>
      rw [if_neg fun h => hc h.2]
      have hpos := toNat_byte_pos hc
      exact ThreeWay.cons_nil (by simpa using hpos)
    | cons d t =>
      rw [List.headD_cons, List.tail_cons, List.map_cons, List.map_cons]
      by_cases hcd : c = d
      · subst hcd
        rw [if_pos ⟨hc, rfl⟩]
        have hrest := ih t (fun e he => hs e (List.mem_cons_of_mem c he))
          fun e he => ht e (List.mem_cons_of_mem c he)
        exact hrest.cons_self c.toNat
      · rw [if_neg fun h => hcd h.2]
        exact (ThreeWay.of_sub _ _).cons_of_ne (fun h => hcd (BitVec.eq_of_toNat_eq h)) _ _

/-- **`strncmp`** compares what is left of the strings when they are cut. -/
theorem strncmp_threeWay (n : Nat) (s t : List Byte) (hs : ∀ c ∈ s, c ≠ 0)
    (ht : ∀ c ∈ t, c ≠ 0) :
    ThreeWay (strncmp s t n) ((s.take n).map BitVec.toNat) ((t.take n).map BitVec.toNat) := by
  induction n generalizing s t with
  | zero =>
    rw [strncmp, List.take_zero, List.take_zero]
    exact ThreeWay.nil_nil
  | succ n ih =>
    rw [strncmp]
    cases s with
    | nil =>
      cases t with
      | nil => exact ThreeWay.nil_nil
      | cons d t =>
        have hd := ht d List.mem_cons_self
        have hpos := toNat_byte_pos hd
        rw [List.headD_nil, List.headD_cons, if_pos (Ne.symm hd)]
        exact ThreeWay.nil_cons (by simpa using hpos)
    | cons c s =>
      have hc := hs c List.mem_cons_self
      cases t with
      | nil =>
        have hpos := toNat_byte_pos hc
        rw [List.headD_nil, List.headD_cons, if_pos hc]
        exact ThreeWay.cons_nil (by simpa using hpos)
      | cons d t =>
        rw [List.headD_cons, List.headD_cons, List.tail_cons, List.tail_cons, List.take_succ_cons,
          List.take_succ_cons, List.map_cons, List.map_cons]
        by_cases hcd : c = d
        · subst hcd
          rw [if_neg (not_not.mpr rfl), if_neg hc]
          have hrest := ih s t (fun e he => hs e (List.mem_cons_of_mem c he))
            fun e he => ht e (List.mem_cons_of_mem c he)
          exact hrest.cons_self c.toNat
        · rw [if_pos hcd]
          exact (ThreeWay.of_sub _ _).cons_of_ne (fun h => hcd (BitVec.eq_of_toNat_eq h)) _ _

theorem CString.strcmp_threeWay (s t : CString) :
    ThreeWay (strcmp s.bytes t.bytes) s.codes t.codes :=
  MinimalistOS.strcmp_threeWay s.bytes t.bytes s.nul_free t.nul_free

theorem CString.strncmp_threeWay (s t : CString) (n : Nat) :
    ThreeWay (strncmp s.bytes t.bytes n) (s.truncate n).codes (t.truncate n).codes :=
  MinimalistOS.strncmp_threeWay n s.bytes t.bytes s.nul_free t.nul_free

/-! ## Stored names -/

/-- A string stored with `strncpy(d, s, n - 1); d[n - 1] = 0` compares equal to the string itself
when it is shorter than `n`. -/
theorem strcmp_strncpy {m n : Nat} (dest : Vector Byte m) (s : CString) (hn : 1 ≤ n) (hm : n ≤ m) :
    strcmp ((strncpy dest s.bytes (n - 1)).setIfInBounds (n - 1) 0).toList s.bytes = 0 ↔
      s.bytes.length < n := by
  have hstored := CString.ofArray_strncpy dest s (show n - 1 < m by omega)
  unfold CString.ofArray at hstored
  rw [strcmp_eq_zero, CString.ofBytes_bytes, hstored, CString.truncate_eq_self]
  omega

/-! ## The laws -/

/--
**String comparison is the lexicographic order.**

For all strings: the sign of `strcmp` is how they compare in the lexicographic order of their bytes
as unsigned numbers, so it is `0` on equal strings only, changes with the arguments exchanged, and
is transitive; `strncmp` has the sign of `strcmp` on the first `n` bytes; and a string stored in a
field of `n` bytes is equal to itself if and only if it is shorter than the field.
-/
theorem string_order (s t u : CString) {m n : Nat} (dest : Vector Byte m) (hn : 1 ≤ n)
    (hm : n ≤ m) :
    ThreeWay (strcmp s.bytes t.bytes) s.codes t.codes ∧
    (strcmp s.bytes t.bytes = 0 ↔ s = t) ∧
    (strcmp t.bytes s.bytes).sign = -(strcmp s.bytes t.bytes).sign ∧
    ((strcmp s.bytes t.bytes ≤ 0 → strcmp t.bytes u.bytes ≤ 0 → strcmp s.bytes u.bytes ≤ 0) ∧
      (strcmp s.bytes t.bytes < 0 → strcmp t.bytes u.bytes < 0 → strcmp s.bytes u.bytes < 0)) ∧
    (strncmp s.bytes t.bytes n).sign = (strcmp (s.truncate n).bytes (t.truncate n).bytes).sign ∧
    (strcmp ((strncpy dest s.bytes (n - 1)).setIfInBounds (n - 1) 0).toList s.bytes = 0 ↔
      s.bytes.length < n) := by
  have hst := s.strcmp_threeWay t
  refine ⟨hst, hst.zero.trans codes_inj, hst.sign_swap (t.strcmp_threeWay s),
    hst.trans (t.strcmp_threeWay u) (s.strcmp_threeWay u), ?_, strcmp_strncpy dest s hn hm⟩
  exact (s.strncmp_threeWay t n).sign_eq ((s.truncate n).strcmp_threeWay (t.truncate n))

/-- The byte `0x80` comes after `0x7F`, and a field of two bytes holds a string of one. -/
theorem string_order_high_byte :
    strcmp [0x80] [0x7F] = 1 ∧
      ThreeWay (strcmp [0x80] [0x7F]) [128] [127] ∧
      strcmp ((strncpy (Vector.replicate 4 0) [0x80] 1).setIfInBounds 1 0).toList [0x80] = 0 := by
  have horder := string_order ⟨[0x80], by simp⟩ ⟨[0x7F], by simp⟩ ⟨[], by simp⟩ (n := 2)
    (Vector.replicate 4 0) (by decide) (by decide)
  exact ⟨by decide, horder.1, horder.2.2.2.2.2.mpr (by decide)⟩

end MinimalistOS
