import MinimalistOS.Infra.Word

/-!
# Byte-addressed memory

Memory is a total function from 32-bit addresses to bytes, and addresses wrap. Dwords are four
bytes, little end first, at any address.

Two regions are `Apart` when neither reaches the other going up from its start. This is
disjointness on the circle of addresses; with it a read looks through a write.
-/

namespace Infra

/-- Byte-addressed memory. -/
abbrev Mem := Word → Byte

namespace Mem

/-- One byte store. -/
def set (m : Mem) (p : Word) (b : Byte) : Mem := fun a => if a = p then b else m a

/-- The dword at an address. -/
def read32 (m : Mem) (a : Word) : Word := m (a + 3) ++ m (a + 2) ++ m (a + 1) ++ m a

/-- A dword store. -/
def write32 (m : Mem) (a v : Word) : Mem := fun x =>
  if (x - a).toNat < 4 then v.extractLsb' (8 * (x - a).toNat) 8 else m x

end Mem

/-- The `n` bytes from `a` and the `k` bytes from `b` have no byte in common. -/
def Apart (a : Word) (n : Nat) (b : Word) (k : Nat) : Prop :=
  n ≤ (b - a).toNat ∧ k ≤ (a - b).toNat

instance (a : Word) (n : Nat) (b : Word) (k : Nat) : Decidable (Apart a n b k) :=
  inferInstanceAs (Decidable (_ ∧ _))

theorem Apart.symm {a b : Word} {n k : Nat} (h : Apart a n b k) : Apart b k a n := ⟨h.2, h.1⟩

/-- Parts of regions that are apart are apart. -/
theorem Apart.sub {a b : Word} {n k : Nat} (h : Apart a n b k) {i j : Word} {p q : Nat}
    (hn : i.toNat + p ≤ n) (hk : j.toNat + q ≤ k) (hp : 0 < p) (hq : 0 < q) :
    Apart (a + i) p (b + j) q := by
  obtain ⟨h1, h2⟩ := h
  constructor <;> bv_omega

namespace Mem

/-! ## Reading over a write -/

theorem write32_apply_of_le {m : Mem} {a v x : Word} (h : 4 ≤ (x - a).toNat) :
    m.write32 a v x = m x := by
  unfold write32
  rw [if_neg (by omega)]

theorem write32_add (m : Mem) (a v : Word) {i : Word} (hi : i.toNat < 4) :
    m.write32 a v (a + i) = v.extractLsb' (8 * i.toNat) 8 := by
  have hsub : a + i - a = i := by bv_omega
  unfold write32
  rw [hsub, if_pos hi]

/-- The four bytes of a dword, put back together. -/
theorem extract_append (v : Word) :
    v.extractLsb' 24 8 ++ v.extractLsb' 16 8 ++ v.extractLsb' 8 8 ++ v.extractLsb' 0 8 = v := by
  apply BitVec.eq_of_getLsbD_eq
  intro i hi
  simp only [BitVec.getLsbD_append, BitVec.getLsbD_extractLsb']
  by_cases h1 : i < 8
  · simp [h1]
  · by_cases h2 : i < 16
    · simp [h1, show i - 8 < 8 by omega, show 8 + (i - 8) = i by omega]
    · by_cases h3 : i < 24
      · simp [h1, show ¬ i - 8 < 8 by omega, show i - 8 - 8 < 8 by omega,
          show 16 + (i - 8 - 8) = i by omega]
      · simp [h1, show ¬ i - 8 < 8 by omega, show ¬ i - 8 - 8 < 8 by omega,
          show i - 8 - 8 - 8 < 8 by omega, show 24 + (i - 8 - 8 - 8) = i by omega]

@[simp] theorem read32_write32_self (m : Mem) (a v : Word) : (m.write32 a v).read32 a = v := by
  have h0 := write32_add m a v (i := 0) (by decide)
  have h1 := write32_add m a v (i := 1) (by decide)
  have h2 := write32_add m a v (i := 2) (by decide)
  have h3 := write32_add m a v (i := 3) (by decide)
  rw [show a + 0 = a by bv_omega] at h0
  unfold read32
  rw [h0, h1, h2, h3]
  exact extract_append v

/-- A dword read does not see a store that is apart from it. -/
theorem read32_write32_of_apart {m : Mem} {a b v : Word} (h : Apart a 4 b 4) :
    (m.write32 a v).read32 b = m.read32 b := by
  obtain ⟨h1, h2⟩ := h
  unfold read32
  rw [write32_apply_of_le (by bv_omega), write32_apply_of_le (by bv_omega),
    write32_apply_of_le (by bv_omega), write32_apply_of_le h1]

/-- A dword read looks at four bytes. -/
theorem read32_congr {m m' : Mem} {a : Word}
    (h : ∀ k : Word, k.toNat < 4 → m (a + k) = m' (a + k)) : m.read32 a = m'.read32 a := by
  have h0 := h 0 (by decide)
  rw [show a + 0 = a by bv_omega] at h0
  unfold read32
  rw [h 3 (by decide), h 2 (by decide), h 1 (by decide), h0]

/-! ## Several stores -/

/-- Dword stores, in order. -/
def writes (m : Mem) (l : List (Word × Word)) : Mem := l.foldl (fun m p => m.write32 p.1 p.2) m

@[simp] theorem writes_nil (m : Mem) : m.writes [] = m := rfl

@[simp] theorem writes_cons (m : Mem) (p : Word × Word) (l : List (Word × Word)) :
    m.writes (p :: l) = (m.write32 p.1 p.2).writes l := rfl

theorem writes_append (m : Mem) (l r : List (Word × Word)) :
    m.writes (l ++ r) = (m.writes l).writes r := List.foldl_append

/-- A dword read does not see stores that are all apart from it. -/
theorem read32_writes_of_apart {b : Word} : ∀ {l : List (Word × Word)} {m : Mem},
    (∀ p ∈ l, Apart p.1 4 b 4) → (m.writes l).read32 b = m.read32 b
  | [], _, _ => rfl
  | p :: l, m, h => by
    rw [writes_cons, read32_writes_of_apart fun q hq => h q (List.mem_cons_of_mem _ hq),
      read32_write32_of_apart (h p List.mem_cons_self)]

/-- A dword read sees the last store to its address, when the later ones are apart from it. -/
theorem read32_writes_last {m : Mem} {a v : Word} {l r : List (Word × Word)}
    (h : ∀ p ∈ r, Apart p.1 4 a 4) : (m.writes (l ++ (a, v) :: r)).read32 a = v := by
  rw [writes_append, writes_cons, read32_writes_of_apart h, read32_write32_self]

/-- A dword read sees `v` when every store is either of `v` to its address or apart from it, and
there is one of the first kind. -/
theorem read32_writes_of_mem {a v : Word} : ∀ {l : List (Word × Word)} {m : Mem}, (a, v) ∈ l →
    (∀ p ∈ l, p = (a, v) ∨ Apart p.1 4 a 4) → (m.writes l).read32 a = v
  | p :: l, m, hmem, hall => by
    have hrest : ∀ q ∈ l, q = (a, v) ∨ Apart q.1 4 a 4 :=
      fun q hq => hall q (List.mem_cons_of_mem _ hq)
    by_cases hl : (a, v) ∈ l
    · rw [writes_cons]
      exact read32_writes_of_mem hl hrest
    · obtain rfl : (a, v) = p := (List.mem_cons.mp hmem).resolve_right hl
      rw [writes_cons, read32_writes_of_apart, read32_write32_self]
      intro q hq
      rcases hrest q hq with rfl | hapart
      · exact absurd hq hl
      · exact hapart

end Mem

end Infra
