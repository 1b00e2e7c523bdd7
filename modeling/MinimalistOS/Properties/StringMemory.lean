import MinimalistOS.Kernel.StringMemory
import Mathlib.Data.List.GetD

/-!
# Strings in memory

* `strcpy_of_clear`, `strcpy_of_chase` — a copy that never overwrites what it has still to read,
  and one that overwrites the terminator before it gets there
* `strcpy_returns_iff` — when `strcpy` returns, and what it leaves
* `strings_appended` — a string put together with `strcpy` and `strcat`

Addresses wrap, so the distance from the source up to the destination decides: the copy runs ahead
of itself when the destination is inside the string that is copied.
-/

namespace MinimalistOS

open Infra

/-- There is this string at the address. -/
def HoldsBytes (m : Mem) (p : Word) : List Byte → Prop
  | [] => m p = 0
  | b :: bs => m p = b ∧ HoldsBytes m (p + 1) bs

def HoldsString (m : Mem) (p : Word) (s : CString) : Prop := HoldsBytes m p s.bytes

/-- The bytes of a string and its terminator. -/
def withNul (l : List Byte) (i : Nat) : Byte := l.getD i 0

theorem holdsBytes_iff {m : Mem} {p : Word} {l : List Byte} :
    HoldsBytes m p l ↔ ∀ i ≤ l.length, m (p + BitVec.ofNat 32 i) = withNul l i := by
  induction l generalizing p with
  | nil =>
    constructor
    · intro h i hi
      obtain rfl : i = 0 := by simpa using hi
      rw [show p + BitVec.ofNat 32 0 = p by bv_omega]
      exact h
    · intro h
      have h0 := h 0 (Nat.le_refl _)
      rw [show p + BitVec.ofNat 32 0 = p by bv_omega] at h0
      exact h0
  | cons b bs ih =>
    constructor
    · rintro ⟨hb, hbs⟩ i hi
      cases i with
      | zero =>
        rw [show p + BitVec.ofNat 32 0 = p by bv_omega]
        exact hb
      | succ i =>
        have hrest := ih.mp hbs i (by simpa using hi)
        rw [show p + 1 + BitVec.ofNat 32 i = p + BitVec.ofNat 32 (i + 1) by bv_omega] at hrest
        exact hrest
    · intro h
      constructor
      · have h0 := h 0 (Nat.zero_le _)
        rw [show p + BitVec.ofNat 32 0 = p by bv_omega] at h0
        exact h0
      · refine ih.mpr fun i hi => ?_
        have hrest := h (i + 1) (by simpa using hi)
        rw [show p + BitVec.ofNat 32 (i + 1) = p + 1 + BitVec.ofNat 32 i by bv_omega] at hrest
        exact hrest

/-- A string only depends on its own bytes. -/
theorem HoldsBytes.congr {m m' : Mem} {p : Word} {l : List Byte} (h : HoldsBytes m p l)
    (hm : ∀ a, (a - p).toNat ≤ l.length → m' a = m a) (hlen : l.length < 2 ^ 32) :
    HoldsBytes m' p l := by
  rw [holdsBytes_iff] at h ⊢
  intro i hi
  rw [hm _ (by rw [toNat_add_ofNat_sub _ (by omega)]; exact hi), h i hi]

/-- The terminator is not one of the bytes before it, so a string is shorter than memory. -/
theorem HoldsBytes.length_lt {m : Mem} {p : Word} {l : List Byte} (h : HoldsBytes m p l)
    (hfree : ∀ b ∈ l, b ≠ 0) : l.length < 2 ^ 32 := by
  by_contra hn
  rw [holdsBytes_iff] at h
  have hend := h l.length (Nat.le_refl _)
  -- 2 ^ 32 bytes before the terminator is the same address
  have hwrap := h (l.length - 2 ^ 32) (by omega)
  rw [show p + BitVec.ofNat 32 (l.length - 2 ^ 32) = p + BitVec.ofNat 32 l.length by bv_omega,
    hend] at hwrap
  have hlt : l.length - 2 ^ 32 < l.length := by omega
  unfold withNul at hwrap
  rw [List.getD_eq_default _ _ (Nat.le_refl _), List.getD_eq_getElem _ _ hlt] at hwrap
  exact hfree _ (List.getElem_mem hlt) hwrap.symm

/-! ## Copying -/

/-- The copy does not overwrite what it has still to read. -/
theorem strcpy_of_clear (l : List Byte) (hfree : ∀ b ∈ l, b ≠ 0) :
    ∀ {m : Mem} {d src : Word} {n : Nat}, HoldsBytes m src l → l.length < n →
      (d = src ∨ l.length < (d - src).toNat) →
      strcpy m d src n = some (memcpyTo m d (withNul l) (l.length + 1)) := by
  induction l with
  | nil =>
    intro m d src n h hn _
    cases n with
    | zero => omega
    | succ n =>
      have hc : m src = 0 := h
      simp only [strcpy, hc, ne_eq, not_true_eq_false, if_false]
      rfl
  | cons b bs ih =>
    intro m d src n h hn hclear
    have hlen := HoldsBytes.length_lt h hfree
    obtain ⟨hb, hbs⟩ := h
    cases n with
    | zero => omega
    | succ n =>
      rw [List.length_cons] at hn hclear hlen
      have hb0 : b ≠ 0 := hfree b List.mem_cons_self
      -- the byte that is written is not one of those still to be read
      have hkeep : HoldsBytes (m.set d b) (src + 1) bs := by
        refine HoldsBytes.congr hbs (fun a ha => ?_) (by omega)
        have hne : a ≠ d := by
          rcases hclear with rfl | hclear
          · bv_omega
          · bv_omega
        exact if_neg hne
      have hrest := ih (fun c hc => hfree c (List.mem_cons_of_mem b hc)) (d := d + 1) hkeep
        (by omega : bs.length < n) (by
          rcases hclear with rfl | hclear
          · exact Or.inl rfl
          · exact Or.inr (by bv_omega))
      simp only [strcpy, hb, if_pos hb0, hrest]
      rfl

/-- The copy overwrites the terminator before it reads it: `k` bytes from the source on are not
zero, and the destination is `k` bytes up. -/
theorem strcpy_of_chase (n : Nat) : ∀ {m : Mem} {d src : Word},
    0 < (d - src).toNat → (∀ a, (a - src).toNat < (d - src).toNat → m a ≠ 0) →
      strcpy m d src n = none := by
  induction n with
  | zero => intro m d src _ _; rfl
  | succ n ih =>
    intro m d src hpos hfree
    have hc : m src ≠ 0 := hfree src (by bv_omega)
    rw [strcpy]
    simp only [if_pos hc]
    refine ih (by bv_omega) fun a ha => ?_
    unfold Mem.set
    by_cases had : a = d
    · rw [if_pos had]
      exact hc
    · rw [if_neg had]
      exact hfree a (by bv_omega)

/-- More turns make no difference to a copy that has ended. -/
theorem strcpy_more {n k : Nat} : ∀ {m m' : Mem} {d src : Word}, strcpy m d src n = some m' →
    strcpy m d src (n + k) = some m' := by
  induction n with
  | zero => intro m m' d src h; cases h
  | succ n ih =>
    intro m m' d src h
    rw [Nat.add_right_comm, strcpy]
    rw [strcpy] at h
    split at h
    · rename_i hc
      rw [if_pos hc]
      exact ih h
    · rename_i hc
      rw [if_neg hc]
      exact h

/-- What the bytes of a string and its terminator leave behind. -/
theorem holds_memcpyTo (m : Mem) (d : Word) {l : List Byte} (hlen : l.length < 2 ^ 32) :
    HoldsBytes (memcpyTo m d (withNul l) (l.length + 1)) d l := by
  refine holdsBytes_iff.mpr fun i hi => ?_
  rw [memcpyTo_apply _ (by omega), toNat_add_ofNat_sub _ (by omega), if_pos (by omega)]

/-- **`strcpy` returns exactly when the destination is not inside the string.** It then leaves the
string at the destination and has changed nothing else. -/
theorem strcpy_returns_iff (m : Mem) (d src : Word) (s : CString) (h : HoldsString m src s) :
    ((∃ n m', strcpy m d src n = some m') ↔
      ¬ (1 ≤ (d - src).toNat ∧ (d - src).toNat ≤ s.bytes.length)) ∧
    ∀ n m', strcpy m d src n = some m' →
      HoldsString m' d s ∧ ∀ a, s.bytes.length < (a - d).toNat → m' a = m a := by
  have hlen := HoldsBytes.length_lt h s.nul_free
  have hchase : 1 ≤ (d - src).toNat ∧ (d - src).toNat ≤ s.bytes.length →
      ∀ n, strcpy m d src n = none := by
    rintro ⟨hpos, hle⟩ n
    refine strcpy_of_chase n hpos fun a ha => ?_
    have hbyte := holdsBytes_iff.mp h (a - src).toNat (by omega)
    rw [show src + BitVec.ofNat 32 (a - src).toNat = a by bv_omega] at hbyte
    have hlt : (a - src).toNat < s.bytes.length := by omega
    unfold withNul at hbyte
    rw [hbyte, List.getD_eq_getElem _ _ hlt]
    exact s.nul_free _ (List.getElem_mem hlt)
  have hclear : ¬ (1 ≤ (d - src).toNat ∧ (d - src).toNat ≤ s.bytes.length) →
      ∀ n, s.bytes.length < n →
        strcpy m d src n = some (memcpyTo m d (withNul s.bytes) (s.bytes.length + 1)) := by
    intro hn n hlt
    refine strcpy_of_clear s.bytes s.nul_free h hlt ?_
    by_cases heq : d = src
    · exact Or.inl heq
    · right
      have hpos : 1 ≤ (d - src).toNat := by bv_omega
      omega
  constructor
  · constructor
    · rintro ⟨n, m', hm'⟩ hover
      rw [hchase hover n] at hm'
      cases hm'
    · intro hn
      exact ⟨_, _, hclear hn _ (Nat.lt_succ_self _)⟩
  · intro n m' hm'
    have hn : ¬ (1 ≤ (d - src).toNat ∧ (d - src).toNat ≤ s.bytes.length) := by
      intro hover
      rw [hchase hover n] at hm'
      cases hm'
    have hmore := strcpy_more (k := s.bytes.length + 1) hm'
    rw [hclear hn _ (by omega)] at hmore
    obtain rfl := Option.some.inj hmore
    refine ⟨holds_memcpyTo m d hlen, fun a ha => ?_⟩
    rw [memcpyTo_apply _ (by omega), if_neg (by omega)]

/-- `hi` at `0x1000`. -/
def hiMem : Mem := fun a => if a = 0x1000 then 0x68 else if a = 0x1001 then 0x69 else 0

def hiText : CString := ⟨[0x68, 0x69], by decide⟩

theorem holdsString_hiMem : HoldsString hiMem 0x1000 hiText :=
  ⟨by decide, by decide, show hiMem (0x1000 + 1 + 1) = 0 by decide⟩

/-- A string copied one byte up never ends. -/
theorem strcpy_one_up : ¬ ∃ n m', strcpy hiMem 0x1001 0x1000 n = some m' := by
  rw [(strcpy_returns_iff hiMem 0x1001 0x1000 hiText holdsString_hiMem).1]
  decide

/-! ## Lengths and appending -/

theorem stringEnd_of_holds {m : Mem} {l : List Byte} (hfree : ∀ b ∈ l, b ≠ 0) :
    ∀ {p : Word} {n : Nat}, HoldsBytes m p l → l.length < n →
      stringEnd m p n = some (p + BitVec.ofNat 32 l.length) := by
  induction l with
  | nil =>
    intro p n h hn
    cases n with
    | zero => omega
    | succ n =>
      have hend : m p = 0 := h
      rw [stringEnd, if_neg (not_not.mpr hend)]
      simp
  | cons b bs ih =>
    intro p n h hn
    obtain ⟨hb, hbs⟩ := h
    cases n with
    | zero => omega
    | succ n =>
      have hne : m p ≠ 0 := by
        rw [hb]
        exact hfree b List.mem_cons_self
      rw [stringEnd, if_pos hne, ih (fun c hc => hfree c (List.mem_cons_of_mem b hc)) hbs
        (by simpa using hn), List.length_cons]
      exact congrArg some (by bv_omega)

theorem strlen_loop_of_holds {m : Mem} {p : Word} {l : List Byte} (hfree : ∀ b ∈ l, b ≠ 0) :
    ∀ {k : Nat} {n : Nat}, HoldsBytes m (p + BitVec.ofNat 32 k) l → l.length < n →
      strlen.loop m p (BitVec.ofNat 32 k) n = some (BitVec.ofNat 32 (k + l.length)) := by
  induction l with
  | nil =>
    intro k n h hn
    cases n with
    | zero => omega
    | succ n =>
      have hend : m (p + BitVec.ofNat 32 k) = 0 := h
      rw [strlen.loop, if_neg (not_not.mpr hend)]
      rfl
  | cons b bs ih =>
    intro k n h hn
    obtain ⟨hb, hbs⟩ := h
    cases n with
    | zero => omega
    | succ n =>
      have hne : m (p + BitVec.ofNat 32 k) ≠ 0 := by
        rw [hb]
        exact hfree b List.mem_cons_self
      have hnext : p + BitVec.ofNat 32 k + 1 = p + BitVec.ofNat 32 (k + 1) := by bv_omega
      rw [hnext] at hbs
      rw [strlen.loop, if_pos hne, show BitVec.ofNat 32 k + 1 = BitVec.ofNat 32 (k + 1) by bv_omega,
        ih (fun c hc => hfree c (List.mem_cons_of_mem b hc)) hbs (by simpa using hn),
        List.length_cons]
      exact congrArg some (by bv_omega)

theorem strlen_of_holds {m : Mem} {p : Word} {l : List Byte} (hfree : ∀ b ∈ l, b ≠ 0) {n : Nat}
    (h : HoldsBytes m p l) (hn : l.length < n) :
    strlen m p n = some (BitVec.ofNat 32 l.length) := by
  have hloop := strlen_loop_of_holds (k := 0) hfree (p := p)
    (by rw [show p + BitVec.ofNat 32 0 = p by bv_omega]; exact h) hn
  rw [Nat.zero_add] at hloop
  exact hloop

/-- A buffer of `cap` bytes, and a string that is nowhere in it. -/
def Outside (d : Word) (cap : Nat) (src : Word) (s : CString) : Prop :=
  ∀ i ≤ s.bytes.length, cap ≤ (src + BitVec.ofNat 32 i - d).toNat

/-- A string outside a buffer is not moved by changes in the buffer. -/
theorem Outside.holds {m m' : Mem} {d src : Word} {cap : Nat} {s : CString}
    (h : Outside d cap src s) (hs : HoldsString m src s)
    (hm : ∀ a, cap ≤ (a - d).toNat → m' a = m a) :
    HoldsString m' src s :=
  holdsBytes_iff.mpr fun i hi => (hm _ (h i hi)).trans (holdsBytes_iff.mp hs i hi)

/-- Inside a buffer is not inside a string that is outside it. -/
theorem Outside.clear {d src : Word} {cap k : Nat} {s : CString} (h : Outside d cap src s)
    (hk : k < cap) (hcap : cap ≤ 2 ^ 32) :
    d + BitVec.ofNat 32 k = src ∨ s.bytes.length < (d + BitVec.ofNat 32 k - src).toNat := by
  right
  by_contra hn
  have hin := h (d + BitVec.ofNat 32 k - src).toNat (by omega)
  rw [show src + BitVec.ofNat 32 (d + BitVec.ofNat 32 k - src).toNat - d = BitVec.ofNat 32 k by
    bv_omega, BitVec.toNat_ofNat] at hin
  have hmod := Nat.mod_le k (2 ^ 32)
  omega

/-- One append to the string in a buffer. -/
theorem strcat_in_buffer {m : Mem} {d src : Word} {cap n : Nat} {l : List Byte} {s : CString}
    (hfree : ∀ b ∈ l, b ≠ 0) (hl : HoldsBytes m d l) (hs : HoldsString m src s)
    (hout : Outside d cap src s) (hfit : l.length + s.bytes.length < cap) (hcap : cap ≤ 2 ^ 32)
    (hn : cap ≤ n) :
    ∃ m', strcat m d src n = some m' ∧ HoldsBytes m' d (l ++ s.bytes) ∧
      ∀ a, cap ≤ (a - d).toNat → m' a = m a := by
  have hcopy := strcpy_of_clear s.bytes s.nul_free hs (show s.bytes.length < n by omega)
    (hout.clear (k := l.length) (by omega) hcap)
  refine ⟨memcpyTo m (d + BitVec.ofNat 32 l.length) (withNul s.bytes) (s.bytes.length + 1), ?_,
    holdsBytes_iff.mpr fun i hi => ?_, fun a ha => ?_⟩
  · rw [strcat, stringEnd_of_holds hfree hl (by omega)]
    exact hcopy
  · rw [List.length_append] at hi
    rw [memcpyTo_apply _ (by omega)]
    unfold withNul
    by_cases hlow : i < l.length
    · -- in front of the old end
      rw [if_neg (by bv_omega), List.getD_append _ _ _ _ hlow]
      exact holdsBytes_iff.mp hl i (by omega)
    · have hdist : (d + BitVec.ofNat 32 i - (d + BitVec.ofNat 32 l.length)).toNat
          = i - l.length := by
        bv_omega
      rw [hdist, if_pos (by omega), List.getD_append_right _ _ _ _ (by omega)]
  · rw [memcpyTo_apply _ (by omega), if_neg (by bv_omega)]

/-! ## Putting a string together -/

/-- `strcpy(dest, s0); strcat(dest, s1); strcat(dest, s2); ...` -/
def assemble (m : Mem) (d first : Word) (rest : List Word) (n : Nat) : Option Mem :=
  match strcpy m d first n with
  | none => none
  | some m => rest.foldlM (fun m src => strcat m d src n) m

/-- The bytes of some strings one after the other. -/
def joined (parts : List (Word × CString)) : List Byte := parts.flatMap fun p => p.2.bytes

theorem joined_free (parts : List (Word × CString)) : ∀ b ∈ joined parts, b ≠ 0 := by
  intro b hb
  obtain ⟨p, -, hbp⟩ := List.mem_flatMap.mp hb
  exact p.2.nul_free b hbp

/-- The strings are in memory and not in the buffer. -/
def Sources (m : Mem) (d : Word) (cap : Nat) (parts : List (Word × CString)) : Prop :=
  ∀ p ∈ parts, HoldsString m p.1 p.2 ∧ Outside d cap p.1 p.2

theorem Sources.keep {m m' : Mem} {d : Word} {cap : Nat} {parts : List (Word × CString)}
    (h : Sources m d cap parts) (hm : ∀ a, cap ≤ (a - d).toNat → m' a = m a) :
    Sources m' d cap parts :=
  fun p hp => ⟨(h p hp).2.holds (h p hp).1 hm, (h p hp).2⟩

theorem appends_in_buffer {d : Word} {cap n : Nat} (hcap : cap ≤ 2 ^ 32) (hn : cap ≤ n)
    (parts : List (Word × CString)) : ∀ {m : Mem} {l : List Byte}, (∀ b ∈ l, b ≠ 0) →
      HoldsBytes m d l → Sources m d cap parts → l.length + (joined parts).length < cap →
      ∃ m', (parts.map Prod.fst).foldlM (fun m src => strcat m d src n) m = some m' ∧
        HoldsBytes m' d (l ++ joined parts) ∧ ∀ a, cap ≤ (a - d).toNat → m' a = m a := by
  induction parts with
  | nil =>
    intro m l _ hl _ _
    refine ⟨m, rfl, ?_, fun _ _ => rfl⟩
    rw [show joined [] = [] from rfl, List.append_nil]
    exact hl
  | cons p parts ih =>
    intro m l hfree hl hsources hfit
    have hjoined : joined (p :: parts) = p.2.bytes ++ joined parts := List.flatMap_cons
    rw [hjoined, List.length_append] at hfit
    obtain ⟨hp, hout⟩ := hsources p List.mem_cons_self
    obtain ⟨m₁, hcat, hl₁, hframe₁⟩ := strcat_in_buffer hfree hl hp hout (by omega) hcap hn
    have hsources₁ : Sources m₁ d cap parts :=
      Sources.keep (fun q hq => hsources q (List.mem_cons_of_mem p hq)) hframe₁
    have hfree₁ : ∀ b ∈ l ++ p.2.bytes, b ≠ 0 := by
      intro b hb
      rcases List.mem_append.mp hb with hb | hb
      · exact hfree b hb
      · exact p.2.nul_free b hb
    obtain ⟨m₂, hrest, hl₂, hframe₂⟩ := ih hfree₁ hl₁ hsources₁ (by rw [List.length_append]; omega)
    refine ⟨m₂, ?_, ?_, fun a ha => (hframe₂ a ha).trans (hframe₁ a ha)⟩
    · rw [List.map_cons, List.foldlM_cons, hcat]
      exact hrest
    · rw [hjoined, ← List.append_assoc]
      exact hl₂

/-- **Strings put together in a buffer.** `strcpy` and any number of `strcat` calls, with strings
outside the buffer that fit into it together, all return; they leave the strings one after the other
in the buffer, `strlen` gives the length of the whole, and no byte outside the buffer changes. -/
theorem strings_appended {m : Mem} {d : Word} {cap n : Nat} {first : Word × CString}
    {rest : List (Word × CString)} (hcap : cap ≤ 2 ^ 32) (hn : cap ≤ n)
    (hsources : Sources m d cap (first :: rest)) (hfit : (joined (first :: rest)).length < cap) :
    ∃ m', assemble m d first.1 (rest.map Prod.fst) n = some m' ∧
      HoldsBytes m' d (joined (first :: rest)) ∧
      strlen m' d n = some (BitVec.ofNat 32 (joined (first :: rest)).length) ∧
      ∀ a, cap ≤ (a - d).toNat → m' a = m a := by
  have hjoined : joined (first :: rest) = first.2.bytes ++ joined rest := List.flatMap_cons
  rw [hjoined, List.length_append] at hfit
  obtain ⟨hfirst, hout⟩ := hsources first List.mem_cons_self
  have hclear := hout.clear (k := 0) (by omega) hcap
  rw [show d + BitVec.ofNat 32 0 = d by bv_omega] at hclear
  have hcopy := strcpy_of_clear (n := n) first.2.bytes first.2.nul_free hfirst (by omega) hclear
  have hframe : ∀ a, cap ≤ (a - d).toNat →
      memcpyTo m d (withNul first.2.bytes) (first.2.bytes.length + 1) a = m a := by
    intro a ha
    rw [memcpyTo_apply _ (by omega), if_neg (by omega)]
  have hsources₁ := Sources.keep (fun q hq => hsources q (List.mem_cons_of_mem first hq)) hframe
  obtain ⟨m', hrest, hl, hframe'⟩ := appends_in_buffer hcap hn rest first.2.nul_free
    (holds_memcpyTo m d (by omega)) hsources₁ (by omega)
  rw [← hjoined] at hl
  refine ⟨m', ?_, hl, strlen_of_holds (joined_free _) hl ?_,
    fun a ha => (hframe' a ha).trans (hframe a ha)⟩
  · rw [assemble, hcopy]
    exact hrest
  · rw [hjoined, List.length_append]
    omega

/-- The same string twice. -/
theorem strings_appended_twice :
    ∃ m', assemble hiMem 0x2000 0x1000 [0x1000] 16 = some m' ∧
      HoldsBytes m' 0x2000 [0x68, 0x69, 0x68, 0x69] ∧ strlen m' 0x2000 16 = some 4 := by
  have hsources : Sources hiMem 0x2000 16 [(0x1000, hiText), (0x1000, hiText)] := by
    intro p hp
    obtain rfl : p = (0x1000, hiText) := by simpa using hp
    refine ⟨holdsString_hiMem, fun i hi => ?_⟩
    have hlen : hiText.bytes.length = 2 := rfl
    simp only at hi ⊢
    rw [hlen] at hi
    bv_omega
  obtain ⟨m', hrun, hholds, hlength, -⟩ := @strings_appended hiMem 0x2000 16 16 (0x1000, hiText)
    [(0x1000, hiText)] (by decide) (by decide) hsources (by decide)
  exact ⟨m', hrun, hholds, hlength⟩

end MinimalistOS
