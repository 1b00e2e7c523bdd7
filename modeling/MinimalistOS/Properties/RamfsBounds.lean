import MinimalistOS.Properties.Ramfs

/-!
# How much the file system copies

* `clamp_le_iff` — the test of `ramfs_read` and `ramfs_write` cuts a copy to the limit exactly
  when the sum of offset and count does not wrap
* `Laid` — every entry in use has the bytes of its own index, and a size of at most 4096
* `ramfs_transfers_bounded_iff` — which arguments make a copy stay within its file

Here the calls have any arguments: null pointers, names of any length, and counts that are not the
length of anything.
-/

namespace MinimalistOS

open Infra

/-! ## The test -/

/-- **The test of `ramfs_read` and `ramfs_write`.** A count that wraps the sum is not cut. -/
theorem clamp_le_iff {limit offset : Word} (count : Word) (hlimit : limit.toNat ≤ maxFileSize)
    (h : offset.toNat < limit.toNat) :
    (if limit < offset + count then limit - offset else count).toNat
        ≤ min count.toNat (limit.toNat - offset.toNat) ↔
      offset.toNat + count.toNat < 2 ^ 32 := by
  have hcount := count.isLt
  have hsub : (limit - offset).toNat = limit.toNat - offset.toNat := by bv_omega
  have hsum : (offset + count).toNat = (offset.toNat + count.toNat) % 2 ^ 32 :=
    BitVec.toNat_add offset count
  unfold maxFileSize at hlimit
  constructor
  · intro hle
    by_contra hwrap
    -- the wrapped sum is below the offset, so the count is taken as it is
    have hnot : ¬ limit < offset + count := by
      rw [BitVec.lt_def, hsum]
      omega
    rw [if_neg hnot] at hle
    omega
  · intro hfit
    rw [Nat.mod_eq_of_lt hfit] at hsum
    split
    · next hlt =>
      rw [BitVec.lt_def, hsum] at hlt
      omega
    · next hge =>
      rw [BitVec.lt_def, hsum] at hge
      omega

/-! ## Copies within a file -/

/-- How many bytes are copied. -/
def copied : Option Transfer → Nat
  | none => 0
  | some t => t.count.toNat

/-- Nothing is copied from the limit on and at most what is left of it below, and every byte that is
touched is one of the 4096 bytes of entry `i`. -/
structure Bounded (d : Word) (i limit : Nat) (count offset : Word) (t : Option Transfer) :
    Prop where
  nothing : limit ≤ offset.toNat → copied t = 0
  at_most : offset.toNat < limit → copied t ≤ min count.toNat (limit - offset.toNat)
  own : ∀ t' ∈ t, ∀ k < t'.count.toNat, ∃ j < maxFileSize,
    t'.addr + BitVec.ofNat 32 k = dataAddr d i j

theorem Bounded.of_none (d : Word) (i limit : Nat) (count offset : Word) :
    Bounded d i limit count offset none :=
  ⟨fun _ => rfl, fun _ => Nat.zero_le _, fun t h => absurd h (Option.not_mem_none t)⟩

/-- A copy that starts at an offset below the limit. -/
theorem bounded_some_iff (d : Word) (i : Nat) {limit offset : Word} (count : Word)
    (hlimit : limit.toNat ≤ maxFileSize) (h : offset.toNat < limit.toNat) :
    Bounded d i limit.toNat count offset
        (some ⟨dataAddr d i offset.toNat,
          if limit < offset + count then limit - offset else count⟩) ↔
      offset.toNat + count.toNat < 2 ^ 32 := by
  constructor
  · intro hb
    exact (clamp_le_iff count hlimit h).mp (hb.at_most h)
  · intro hfit
    have hle := (clamp_le_iff count hlimit h).mpr hfit
    refine ⟨fun hge => absurd h (Nat.not_lt.mpr hge), fun _ => hle, ?_⟩
    intro t ht k hk
    obtain rfl := Option.mem_some_iff.mp ht
    refine ⟨offset.toNat + k, ?_, dataAddr_add d i offset.toNat k⟩
    change k < (if limit < offset + count then limit - offset else count).toNat at hk
    omega

/-! ## The layout -/

/-- The entries in use have the bytes of their own index, and sizes of at most 4096. -/
def Ramfs.Laid (r : Ramfs) : Prop :=
  ∀ i < maxFiles, (r.file i).inUse ≠ 0 →
    (r.file i).data = BitVec.ofNat 32 (i * maxFileSize) ∧ (r.file i).size.toNat ≤ maxFileSize

/-- The file system is initialised, with the contents from `d` on. -/
def Laid (d : Word) (s : RamfsState) : Prop :=
  ∃ r, s.ramfs = some r ∧ r.fileData = some d ∧ r.Laid

theorem Ramfs.Laid.modify {r : Ramfs} (h : r.Laid) {i : Nat} (hi : i < maxFiles)
    {f : RamfsFile → RamfsFile}
    (hf : (f (r.file i)).inUse ≠ 0 → (f (r.file i)).data = BitVec.ofNat 32 (i * maxFileSize) ∧
      (f (r.file i)).size.toNat ≤ maxFileSize) : (r.modify i f).Laid := by
  intro j hj huse
  rw [r.file_modify hi f j] at huse ⊢
  by_cases hji : j = i
  · subst hji
    rw [if_pos rfl] at huse ⊢
    exact hf huse
  · rw [if_neg hji] at huse ⊢
    exact h j hj huse

/-- A call with any arguments. `ramfs_read`, `ramfs_stat` and `ramfs_close` leave everything as it
is. -/
inductive RamfsCall where
  | init
  | create (name : Option CString) (data : Option (Nat → Byte)) (size : Word)
  | open' (path : Option CString) (flags : Word)
  | write (inode : Word) (buffer : Option (Nat → Byte)) (count offset : Word)

def RamfsCall.exec (s : RamfsState) : RamfsCall → RamfsState × Int
  | .init => ramfsInit s
  | .create name data size => ramfsCreateFile s name data size
  | .open' path flags => ramfsOpen s path flags
  | .write inode buffer count offset =>
    let result := ramfsWrite s inode buffer count offset
    (result.1, result.2.2)

theorem Laid.create {d : Word} {s : RamfsState} (h : Laid d s) (name : Option CString)
    (data : Option (Nat → Byte)) (size : Word) : Laid d (ramfsCreateFile s name data size).1 := by
  obtain ⟨r, hr, hd, hlaid⟩ := h
  cases name with
  | none =>
    simp only [ramfsCreateFile, hr]
    exact ⟨r, hr, hd, hlaid⟩
  | some name =>
    rw [ramfsCreateFile_eq hr]
    split
    · exact ⟨r, hr, hd, hlaid⟩
    · next hsize =>
      split
      · exact ⟨r, hr, hd, hlaid⟩
      · split
        · exact ⟨r, hr, hd, hlaid⟩
        · next i hfree =>
          have hi : i < maxFiles := (findSlot_eq_some.mp hfree).1
          exact ⟨_, rfl, hd, hlaid.modify hi fun _ => ⟨rfl, Nat.not_lt.mp hsize⟩⟩

theorem Laid.open' {d : Word} {s : RamfsState} (h : Laid d s) (path : Option CString)
    (flags : Word) : Laid d (ramfsOpen s path flags).1 := by
  have hcreate := h.create path none 0
  obtain ⟨r, hr, hd, hlaid⟩ := h
  cases path with
  | none =>
    simp only [ramfsOpen, hr]
    exact ⟨r, hr, hd, hlaid⟩
  | some name =>
    simp only [ramfsOpen, hr]
    split
    · exact ⟨r, hr, hd, hlaid⟩
    · split
      · split
        · split
          · exact hcreate
          · exact hcreate
        · exact hcreate
      · exact ⟨r, hr, hd, hlaid⟩

theorem writeTransfer_end_le (s : RamfsState) (r : Ramfs) (inode count : Word) {offset : Word}
    (ho : offset.toNat < maxFileSize) :
    (offset + (writeTransfer s r inode count offset).count).toNat ≤ maxFileSize := by
  unfold writeTransfer maxFileSize at *
  split
  · bv_omega
  · next hle => exact Nat.not_lt.mp hle

theorem Laid.write {d : Word} {s : RamfsState} (h : Laid d s) (inode : Word)
    (buffer : Option (Nat → Byte)) (count offset : Word) :
    Laid d (ramfsWrite s inode buffer count offset).1 := by
  obtain ⟨r, hr, hd, hlaid⟩ := h
  cases buffer with
  | none =>
    simp only [ramfsWrite, hr]
    exact ⟨r, hr, hd, hlaid⟩
  | some src =>
    rw [ramfsWrite_eq hr]
    split
    · next hvalid =>
      split
      · exact ⟨r, hr, hd, hlaid⟩
      · next ho =>
        simp only [Ramfs.valid, Bool.and_eq_true, decide_eq_true_eq, bne_iff_ne] at hvalid
        obtain ⟨⟨hpos, hmax⟩, huse⟩ := hvalid
        have hi : inode.toNat - 1 < maxFiles := by omega
        obtain ⟨hdata, hsize⟩ := hlaid _ hi huse
        obtain ⟨-, -, hgrow, -⟩ := grow_fields (r.file (inode.toNat - 1)) offset
          (writeTransfer s r inode count offset).count
        refine ⟨_, rfl, hd, hlaid.modify hi fun _ => ⟨hgrow.trans hdata, ?_⟩⟩
        unfold RamfsFile.grow
        split
        · exact writeTransfer_end_le s r inode count (Nat.not_le.mp ho)
        · exact hsize
    · exact ⟨r, hr, hd, hlaid⟩

theorem Laid.exec {d : Word} {s : RamfsState} (h : Laid d s) (call : RamfsCall) :
    Laid d (RamfsCall.exec s call).1 := by
  cases call with
  | init =>
    obtain ⟨r, hr, hrest⟩ := h
    simp only [RamfsCall.exec, ramfsInit, hr]
    exact ⟨r, hr, hrest⟩
  | create name data size => exact h.create name data size
  | open' path flags => exact h.open' path flags
  | write inode buffer count offset => exact h.write inode buffer count offset

theorem laid_ramfsSetup (s : RamfsState) {r : Ramfs} {d : Word} (hd : r.fileData = some d) :
    Laid d (ramfsSetup s r) := by
  have hformat : Laid d { s with ramfs := some r.format } := by
    refine ⟨r.format, rfl, hd, fun i hi huse => ?_⟩
    have hfile : r.format.file i = _ := slot_map r.files _ hi
    rw [hfile] at huse
    exact absurd rfl huse
  exact ((hformat.create _ _ _).create _ _ _).create _ _ _

/-! ## The arguments -/

/-- The sum of offset and count fits into a word wherever `ramfs_read` gets to its test. -/
def ReadFits (r : Ramfs) (inode : Word) (buffer : Bool) (count offset : Word) : Prop :=
  buffer = true → r.valid inode = true →
    offset.toNat < (r.file (inode.toNat - 1)).size.toNat → offset.toNat + count.toNat < 2 ^ 32

/-- The sum of offset and count fits into a word wherever `ramfs_write` gets to its test. -/
def WriteFits (r : Ramfs) (inode : Word) (buffer : Option (Nat → Byte)) (count offset : Word) :
    Prop :=
  buffer.isSome → r.valid inode = true →
    offset.toNat < maxFileSize → offset.toNat + count.toNat < 2 ^ 32

/-- The writes of a run up to some state have copied within their files. After one that has not,
the copy has gone over the structure itself, and nothing is known of it. -/
def RamfsCall.Fits (s : RamfsState) : RamfsCall → Prop
  | .write inode buffer count offset => ∀ r ∈ s.ramfs, WriteFits r inode buffer count offset
  | _ => True

/-- The entry of a valid inode number, and where its bytes lie. -/
theorem Ramfs.Laid.entry {r : Ramfs} (h : r.Laid) {inode : Word} (hvalid : r.valid inode = true)
    {d : Word} (hd : r.fileData = some d) (s : RamfsState) (offset : Word) :
    (r.file (inode.toNat - 1)).size.toNat ≤ maxFileSize ∧
      s.fileData r + (r.file (inode.toNat - 1)).data + offset
        = dataAddr d (inode.toNat - 1) offset.toNat := by
  simp only [Ramfs.valid, Bool.and_eq_true, decide_eq_true_eq, bne_iff_ne] at hvalid
  obtain ⟨⟨hpos, hmax⟩, huse⟩ := hvalid
  obtain ⟨hdata, hsize⟩ := h (inode.toNat - 1) (by omega) huse
  refine ⟨hsize, ?_⟩
  rw [hdata, RamfsState.fileData, hd, Option.getD_some, dataAddr, BitVec.ofNat_toNat,
    BitVec.setWidth_eq]

theorem read_bounded_iff {s : RamfsState} {r : Ramfs} {d : Word} (hr : s.ramfs = some r)
    (hd : r.fileData = some d) (hlaid : r.Laid) (inode : Word) (buffer : Bool)
    (count offset : Word) :
    Bounded d (inode.toNat - 1) (r.file (inode.toNat - 1)).size.toNat count offset
        (ramfsRead s inode buffer count offset).1 ↔
      ReadFits r inode buffer count offset := by
  cases buffer with
  | false =>
    simp only [ramfsRead, hr, Bool.false_and, Bool.false_eq_true, if_false]
    exact iff_of_true (Bounded.of_none _ _ _ _ _) fun hf => Bool.noConfusion hf
  | true =>
    rw [ramfsRead_eq hr]
    by_cases hvalid : r.valid inode = true
    · rw [if_pos hvalid]
      obtain ⟨hsize, haddr⟩ := hlaid.entry hvalid hd s offset
      by_cases ho : (r.file (inode.toNat - 1)).size ≤ offset
      · rw [if_pos ho]
        rw [BitVec.le_def] at ho
        exact iff_of_true (Bounded.of_none _ _ _ _ _) fun _ _ hlt => absurd hlt (by omega)
      · rw [if_neg ho, haddr]
        rw [BitVec.le_def, Nat.not_le] at ho
        rw [bounded_some_iff d (inode.toNat - 1) count hsize ho]
        exact ⟨fun h _ _ _ => h, fun h => h rfl hvalid ho⟩
    · rw [if_neg hvalid]
      exact iff_of_true (Bounded.of_none _ _ _ _ _) fun _ hv => absurd hv hvalid

theorem write_bounded_iff {s : RamfsState} {r : Ramfs} {d : Word} (hr : s.ramfs = some r)
    (hd : r.fileData = some d) (hlaid : r.Laid) (inode : Word) (buffer : Option (Nat → Byte))
    (count offset : Word) :
    Bounded d (inode.toNat - 1) maxFileSize count offset
        (ramfsWrite s inode buffer count offset).2.1 ↔
      WriteFits r inode buffer count offset := by
  cases buffer with
  | none =>
    simp only [ramfsWrite, hr]
    exact iff_of_true (Bounded.of_none _ _ _ _ _) fun hf => Bool.noConfusion hf
  | some src =>
    rw [ramfsWrite_eq hr]
    by_cases hvalid : r.valid inode = true
    · rw [if_pos hvalid]
      obtain ⟨-, haddr⟩ := hlaid.entry hvalid hd s offset
      by_cases ho : maxFileSize ≤ offset.toNat
      · rw [if_pos ho]
        exact iff_of_true (Bounded.of_none _ _ _ _ _) fun _ _ hlt => absurd hlt (by omega)
      · rw [if_neg ho]
        rw [Nat.not_le] at ho
        have hmax : (BitVec.ofNat 32 maxFileSize).toNat ≤ maxFileSize := Nat.le_refl maxFileSize
        have hiff := bounded_some_iff d (inode.toNat - 1) count hmax ho
        rw [← haddr] at hiff
        exact hiff.trans ⟨fun h _ _ _ => h, fun h => h rfl hvalid ho⟩
    · rw [if_neg hvalid]
      exact iff_of_true (Bounded.of_none _ _ _ _ _) fun _ hv => absurd hv hvalid

/--
**A copy stays within its file exactly when the sum of offset and count does not wrap.**

In every state that an initialised file system reaches, for every inode number, count and offset,
of a read and of a write alike: an invalid inode number, a null buffer and an offset beyond the
end copy nothing; below it the test adds offset and count as 32-bit words, and only a sum below
`2 ^ 32` is cut.
-/
theorem ramfs_transfers_bounded_iff (s : RamfsState) {r : Ramfs} {d : Word}
    (hd : r.fileData = some d) {calls : List RamfsCall}
    (hcalls : Along RamfsCall.exec RamfsCall.Fits (ramfsSetup s r) calls) :
    ∃ r', (Infra.run RamfsCall.exec (ramfsSetup s r) calls).ramfs = some r' ∧
      r'.fileData = some d ∧
      (∀ (inode : Word) (buffer : Bool) (count offset : Word),
        Bounded d (inode.toNat - 1) (r'.file (inode.toNat - 1)).size.toNat count offset
            (ramfsRead (Infra.run RamfsCall.exec (ramfsSetup s r) calls) inode buffer count
              offset).1 ↔
          ReadFits r' inode buffer count offset) ∧
      ∀ (inode : Word) (buffer : Option (Nat → Byte)) (count offset : Word),
        Bounded d (inode.toNat - 1) maxFileSize count offset
            (ramfsWrite (Infra.run RamfsCall.exec (ramfsSetup s r) calls) inode buffer count
              offset).2.1 ↔
          WriteFits r' inode buffer count offset := by
  obtain ⟨r', hr', hd', hlaid⟩ := inv_run RamfsCall.exec (I := Laid d)
    (fun _ call h _ => h.exec call) (laid_ramfsSetup s hd) hcalls
  exact ⟨r', hr', hd', read_bounded_iff hr' hd' hlaid, write_bounded_iff hr' hd' hlaid⟩

/-- A write of five bytes at the start of `hello.txt`, and then any read of it. -/
theorem ramfs_transfers_bounded_after_write :
    (Ramfs.ofBytes bootHeap.bytes 0 (some 17416)).fileData = some 17416 ∧
      Along RamfsCall.exec RamfsCall.Fits
        (ramfsSetup ⟨bootHeap, 0x20000, none⟩ (Ramfs.ofBytes bootHeap.bytes 0 (some 17416)))
        [.write 1 (some fun _ => 0x4A) 5 0] ∧
      ∃ r', (Infra.run RamfsCall.exec
          (ramfsSetup ⟨bootHeap, 0x20000, none⟩ (Ramfs.ofBytes bootHeap.bytes 0 (some 17416)))
          [.write 1 (some fun _ => 0x4A) 5 0]).ramfs = some r' ∧
        ∀ count offset,
          Bounded 17416 0 (r'.file 0).size.toNat count offset
              (ramfsRead (Infra.run RamfsCall.exec
                (ramfsSetup ⟨bootHeap, 0x20000, none⟩
                  (Ramfs.ofBytes bootHeap.bytes 0 (some 17416)))
                [.write 1 (some fun _ => 0x4A) 5 0]) 1 true count offset).1 ↔
            ReadFits r' 1 true count offset := by
  have hfits : Along RamfsCall.exec RamfsCall.Fits
      (ramfsSetup ⟨bootHeap, 0x20000, none⟩ (Ramfs.ofBytes bootHeap.bytes 0 (some 17416)))
      [.write 1 (some fun _ => 0x4A) 5 0] := by
    refine ⟨fun r _ _ _ _ => ?_, trivial⟩
    show (0 : Word).toNat + (5 : Word).toNat < 2 ^ 32
    decide
  obtain ⟨r', hr', -, hread, -⟩ :=
    ramfs_transfers_bounded_iff ⟨bootHeap, 0x20000, none⟩ rfl hfits
  exact ⟨rfl, hfits, r', hr', fun count offset => hread 1 true count offset⟩

/-- From byte 1 of `hello.txt`, a count of `2 ^ 32 - 1` is taken as it is. -/
theorem ramfs_transfers_overrun :
    ∃ r', (ramfsSetup ⟨bootHeap, 0x20000, none⟩
        (Ramfs.ofBytes bootHeap.bytes 0 (some 17416))).ramfs = some r' ∧
      ¬ Bounded 17416 0 (r'.file 0).size.toNat 0xFFFFFFFF 1
        (ramfsRead (ramfsSetup ⟨bootHeap, 0x20000, none⟩
          (Ramfs.ofBytes bootHeap.bytes 0 (some 17416))) 1 true 0xFFFFFFFF 1).1 ∧
      ¬ Bounded 17416 0 maxFileSize 0xFFFFFFFF 1
        (ramfsWrite (ramfsSetup ⟨bootHeap, 0x20000, none⟩
          (Ramfs.ofBytes bootHeap.bytes 0 (some 17416))) 1 (some fun _ => 0) 0xFFFFFFFF 1).2.1 := by
  have hd : (Ramfs.ofBytes bootHeap.bytes 0 (some 17416)).fileData = some 17416 := rfl
  obtain ⟨r', hr', hrep⟩ := stands_ramfsSetup ⟨bootHeap, 0x20000, none⟩ hd
  obtain ⟨r'', hr'', hd'', hlaid⟩ := laid_ramfsSetup ⟨bootHeap, 0x20000, none⟩ hd
  obtain rfl := Option.some.inj (hr'.symm.trans hr'')
  have hvalid : r'.valid 1 = true := (hrep.valid_iff 1).mpr ⟨by decide, by decide⟩
  have hsize : (r'.file 0).size.toNat = 14 := hrep.size 0 (by decide)
  refine ⟨r', hr', ?_, ?_⟩
  · have hiff := read_bounded_iff hr' hd'' hlaid 1 true 0xFFFFFFFF 1
    intro hb
    have hlt : (1 : Word).toNat < (r'.file 0).size.toNat := by
      rw [hsize]
      decide
    exact absurd (hiff.mp hb rfl hvalid hlt) (by decide)
  · have hiff := write_bounded_iff hr' hd'' hlaid 1 (some fun _ => 0) 0xFFFFFFFF 1
    intro hb
    exact absurd (hiff.mp hb rfl hvalid (by decide)) (by decide)

end MinimalistOS
