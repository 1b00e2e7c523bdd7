import MinimalistOS.Infra.Memory

/-!
# Two-level paging

The translation of 32-bit addresses as the processor does it: the top ten bits of an address pick
an entry of the page directory, the next ten an entry of the page table it points to, and the low
twelve are the offset in the page. An entry holds the address of a page in its top twenty bits, and
bit 0 says whether it is present.

* `walk` — the translation; the directory is at a physical address
* `walk_add` — addresses in one page are translated alike
* `frame_or`, `present_or` — an entry built with `|` from an address and flags
* `apart_of_aligned` — different entries have no byte in common
-/

namespace Infra.Paging

/-- The index into the directory. -/
def dirIndex (v : Word) : Word := v >>> 22

/-- The index into the table. -/
def tableIndex (v : Word) : Word := (v >>> 12) &&& 0x3FF

/-- The offset in the page. -/
def offset (v : Word) : Word := v &&& 0xFFF

/-- The address an entry holds. -/
def frame (e : Word) : Word := e &&& ~~~0xFFF

/-- The entry is present. -/
def present (e : Word) : Bool := e &&& 1 != 0

/-- Entry `i` of the table at an address. -/
def entry (m : Mem) (table i : Word) : Word := m.read32 (table + 4 * i)

/-- The hardware walk: the physical address of `v`, if both entries are present. -/
def walk (m : Mem) (cr3 v : Word) : Option Word :=
  let pde := entry m cr3 (dirIndex v)
  if present pde then
    let pte := entry m (frame pde) (tableIndex v)
    if present pte then some (frame pte + offset v) else none
  else none

/-- A dword read through the translation. The dword lies in one page. -/
def load (m : Mem) (cr3 v : Word) : Option Word := (walk m cr3 v).map m.read32

/-- A dword store through the translation. -/
def store (m : Mem) (cr3 v x : Word) : Option Mem :=
  (walk m cr3 v).map fun a => m.write32 a x

/-! ## The parts of an address -/

theorem toNat_dirIndex (v : Word) : (dirIndex v).toNat = v.toNat / 2 ^ 22 := by
  rw [dirIndex, BitVec.toNat_ushiftRight, Nat.shiftRight_eq_div_pow]

theorem toNat_and_lowMask (v : Word) {k : Nat} (mask : Word) (hmask : mask.toNat = 2 ^ k - 1) :
    (v &&& mask).toNat = v.toNat % 2 ^ k := by
  rw [BitVec.toNat_and, hmask, Nat.and_two_pow_sub_one_eq_mod]

theorem toNat_tableIndex (v : Word) : (tableIndex v).toNat = v.toNat / 2 ^ 12 % 2 ^ 10 := by
  rw [tableIndex, toNat_and_lowMask _ 0x3FF (k := 10) rfl, BitVec.toNat_ushiftRight,
    Nat.shiftRight_eq_div_pow]

theorem toNat_offset (v : Word) : (offset v).toNat = v.toNat % 2 ^ 12 :=
  toNat_and_lowMask v 0xFFF rfl

theorem toNat_frame (e : Word) : (frame e).toNat = e.toNat / 2 ^ 12 * 2 ^ 12 :=
  toNat_and_not_lowMask (k := 12) e (by decide)

theorem dirIndex_lt (v : Word) : (dirIndex v).toNat < 1024 := by
  have := v.isLt
  rw [toNat_dirIndex]
  omega

theorem tableIndex_lt (v : Word) : (tableIndex v).toNat < 1024 := by
  rw [toNat_tableIndex]
  omega

/-- The start of a page. -/
def Aligned (a : Word) : Prop := a.toNat % 4096 = 0

instance (a : Word) : Decidable (Aligned a) := inferInstanceAs (Decidable (_ = _))

/-- Addresses in the page that starts at `a` differ from `a` in the offset only. -/
theorem parts_add {a i : Word} (ha : Aligned a) (hi : i.toNat < 4096) :
    dirIndex (a + i) = dirIndex a ∧ tableIndex (a + i) = tableIndex a ∧ offset (a + i) = i := by
  have hlt := a.isLt
  unfold Aligned at ha
  have hsum : (a + i).toNat = a.toNat + i.toNat := by
    rw [BitVec.toNat_add, Nat.mod_eq_of_lt (by omega)]
  refine ⟨BitVec.eq_of_toNat_eq ?_, BitVec.eq_of_toNat_eq ?_, BitVec.eq_of_toNat_eq ?_⟩
  · rw [toNat_dirIndex, toNat_dirIndex, hsum]
    omega
  · rw [toNat_tableIndex, toNat_tableIndex, hsum]
    omega
  · rw [toNat_offset, hsum]
    omega

/-- **Addresses in one page are translated alike.** -/
theorem walk_add {m : Mem} {cr3 a p i : Word} (ha : Aligned a) (hi : i.toNat < 4096)
    (h : walk m cr3 a = some p) : walk m cr3 (a + i) = some (p + i) := by
  obtain ⟨hdir, htable, hoffset⟩ := parts_add ha hi
  have hzero : offset a = 0 := by
    apply BitVec.eq_of_toNat_eq
    rw [toNat_offset]
    exact ha
  simp only [walk, hdir, htable, hoffset, hzero] at h ⊢
  split at h
  · next hpde =>
    rw [if_pos hpde]
    split at h
    · next hpte =>
      rw [if_pos hpte, ← Option.some.inj h]
      simp
    · simp at h
  · simp at h

/-! ## Entries -/

/-- An entry made of an address and flags holds the address. -/
theorem frame_or {p flags : Word} (hp : Aligned p) (hflags : flags.toNat < 4096) :
    frame (p ||| flags) = p := by
  apply BitVec.eq_of_toNat_eq
  unfold Aligned at hp
  have hor : (p ||| flags).toNat = p.toNat + flags.toNat := by
    have hdvd : p.toNat = p.toNat / 4096 * 2 ^ 12 := by omega
    rw [BitVec.toNat_or, hdvd, Nat.mul_comm, ← Nat.two_pow_add_eq_or_of_lt (by omega)]
  rw [toNat_frame, hor]
  omega

theorem present_or {p flags : Word} (hp : Aligned p) :
    present (p ||| flags) = present flags := by
  have hzero : p &&& 1 = 0#32 := by
    apply BitVec.eq_of_toNat_eq
    unfold Aligned at hp
    rw [toNat_and_lowMask p 1 (k := 1) rfl]
    show p.toNat % 2 ^ 1 = 0
    omega
  unfold present
  rw [BitVec.and_or_distrib_right, hzero, BitVec.zero_or]

/-- Two dwords at different multiples of four have no byte in common. -/
theorem apart_of_aligned {a b : Word} (ha : a.toNat % 4 = 0) (hb : b.toNat % 4 = 0) (h : a ≠ b) :
    Apart a 4 b 4 := by
  have hne : a.toNat ≠ b.toNat := fun heq => h (BitVec.eq_of_toNat_eq heq)
  have hlt := a.isLt
  have hlt' := b.isLt
  refine ⟨?_, ?_⟩
  · rw [BitVec.toNat_sub]
    omega
  · rw [BitVec.toNat_sub]
    omega

/-- Where entry `i` of a table lies. -/
theorem toNat_entryAddr {table i : Word} (ht : Aligned table) (hi : i.toNat < 1024) :
    (table + 4 * i).toNat = table.toNat + 4 * i.toNat := by
  have hlt := table.isLt
  unfold Aligned at ht
  rw [BitVec.toNat_add, BitVec.toNat_mul]
  show (table.toNat + 4 * i.toNat % 2 ^ 32) % 2 ^ 32 = _
  omega

/-- Different entries, of one table or of two. -/
theorem entryAddr_apart {table table' i j : Word} (ht : Aligned table) (ht' : Aligned table')
    (hi : i.toNat < 1024) (hj : j.toNat < 1024) (h : table ≠ table' ∨ i ≠ j) :
    Apart (table + 4 * i) 4 (table' + 4 * j) 4 := by
  have haddr := toNat_entryAddr ht hi
  have haddr' := toNat_entryAddr ht' hj
  unfold Aligned at ht ht'
  refine apart_of_aligned (by omega) (by omega) fun heq => ?_
  have heq' := congrArg BitVec.toNat heq
  rw [haddr, haddr'] at heq'
  rcases h with hne | hne
  · exact hne (BitVec.eq_of_toNat_eq (by omega))
  · exact hne (BitVec.eq_of_toNat_eq (by omega))

/-- A store to one entry, seen from another or from itself. -/
theorem entry_write32 {m : Mem} {table table' i j x : Word} (ht : Aligned table)
    (ht' : Aligned table') (hi : i.toNat < 1024) (hj : j.toNat < 1024) :
    entry (m.write32 (table + 4 * i) x) table' j
      = if table' = table ∧ j = i then x else entry m table' j := by
  by_cases hsame : table' = table ∧ j = i
  · obtain ⟨rfl, rfl⟩ := hsame
    rw [if_pos ⟨rfl, rfl⟩, entry, Mem.read32_write32_self]
  · rw [if_neg hsame]
    refine Mem.read32_write32_of_apart (entryAddr_apart ht ht' hi hj ?_)
    by_cases htable : table = table'
    · exact Or.inr fun hij => hsame ⟨htable.symm, hij.symm⟩
    · exact Or.inl htable

end Infra.Paging
