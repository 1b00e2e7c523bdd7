import MinimalistOS.Kernel.Filesystem
import MinimalistOS.Infra.Run

/-!
# The block file system

* `allocBlock_cases`, `allocBlocks_ok_iff`, `takenBlocks_freeBlocks` — the bitmap
* `fsCreate_cases`, `fsDelete_cases`, `fsWrite_cases` — what each call can do
* `Sound` — the entries lie inside `fs.data`, and the first four blocks are taken
* `fs_accesses_in_range_iff` — the accesses of `fs_read` and `fs_write`

The data of a file goes into the bytes from its first block on, whatever blocks `fs_write`
allocated for it. The space that `fs_write` asks for is that of the whole disk, the space it uses is
what is left behind the first block.
-/

namespace MinimalistOS

open Infra

namespace Filesystem

/-! ## The bitmap -/

theorem mem_word (bitmap : Vector Word 64) (i : Nat) {j : Nat} (hj : j < 32) :
    Bitmap.mem bitmap (i * 32 + j) = (Bitmap.word bitmap i).getLsbD j := by
  unfold Bitmap.mem
  rw [show (i * 32 + j) / 32 = i by omega, show (i * 32 + j) % 32 = j by omega]

theorem freeBit_eq (bitmap : Vector Word 64) (i n : Nat) : ∀ j, j + n ≤ 32 →
    (freeBit (Bitmap.word bitmap i) j n).map (i * 32 + ·)
      = (List.range' (i * 32 + j) n).find? fun k => !Bitmap.mem bitmap k := by
  induction n with
  | zero => intro j _; rfl
  | succ n ih =>
    intro j hle
    have htest := Bitmap.and_one_shiftLeft_eq_zero_iff (Bitmap.word bitmap i) (k := j) (by omega)
    rw [freeBit, List.range'_succ, List.find?_cons, mem_word bitmap i (by omega)]
    cases hbit : (Bitmap.word bitmap i).getLsbD j with
    | false =>
      rw [if_pos (htest.mpr hbit)]
      rfl
    | true =>
      rw [if_neg fun hzero => Bool.false_ne_true ((htest.mp hzero).symm.trans hbit)]
      exact ih (j + 1) (by omega)

/-- The test for a full word only saves the inner loop. -/
theorem findFreeBlock_succ (bitmap : Vector Word 64) (i n : Nat) :
    findFreeBlock bitmap i (n + 1)
      = ((freeBit (Bitmap.word bitmap i) 0 32).map (i * 32 + ·)).or
        (findFreeBlock bitmap (i + 1) n) := by
  have hnone : freeBit 0xFFFFFFFF 0 32 = none := by decide
  rw [findFreeBlock]
  by_cases hfull : Bitmap.word bitmap i = 0xFFFFFFFF
  · rw [if_neg (not_not.mpr hfull), hfull, hnone, Option.map_none, Option.none_or]
  · rw [if_pos hfull]
    cases freeBit (Bitmap.word bitmap i) 0 32 with
    | none => simp
    | some j => simp

/-- `alloc_block` stops at the first block whose bit is clear. -/
theorem findFreeBlock_eq (bitmap : Vector Word 64) (n : Nat) : ∀ i,
    findFreeBlock bitmap i n
      = (List.range' (i * 32) (n * 32)).find? fun k => !Bitmap.mem bitmap k := by
  induction n with
  | zero => intro i; simp [findFreeBlock]
  | succ n ih =>
    intro i
    have hword := freeBit_eq bitmap i 32 0 (by omega)
    rw [Nat.add_zero] at hword
    rw [findFreeBlock_succ, hword, ih, show (n + 1) * 32 = 32 + n * 32 by omega,
      ← List.range'_append_1, List.find?_append, show i * 32 + 32 = (i + 1) * 32 by omega]

/-- The number of blocks that are taken. -/
def takenBlocks (bitmap : Vector Word 64) : Nat := (Bitmap.members bitmap).card

/-- **`alloc_block`** takes the first free block, or does nothing. -/
theorem allocBlock_cases (bitmap : Vector Word 64) :
    (∃ k < 2048, Bitmap.mem bitmap k = false ∧ (∀ j < k, Bitmap.mem bitmap j = true) ∧
        allocBlock bitmap = (Bitmap.insert bitmap k, BitVec.ofNat 32 k)) ∨
      ((∀ k < 2048, Bitmap.mem bitmap k = true) ∧ allocBlock bitmap = (bitmap, 0)) := by
  unfold allocBlock
  rw [findFreeBlock_eq]
  cases hfind : (List.range' (0 * 32) (64 * 32)).find? fun k => !Bitmap.mem bitmap k with
  | some k =>
    rw [List.find?_range'_eq_some] at hfind
    obtain ⟨hfree, hk, hfirst⟩ := hfind
    rw [List.mem_range'_1] at hk
    refine .inl ⟨k, by omega, by simpa using hfree, ?_, rfl⟩
    intro j hj
    simpa using hfirst j (by omega) hj
  | none =>
    rw [List.find?_range'_eq_none] at hfind
    refine .inr ⟨?_, rfl⟩
    intro k hk
    simpa using hfind k (by omega) (by omega)

theorem takenBlocks_le (bitmap : Vector Word 64) : takenBlocks bitmap ≤ 2048 :=
  Bitmap.card_members_le bitmap

theorem takenBlocks_insert {bitmap : Vector Word 64} {k : Nat} (hk : k < 2048)
    (hfree : Bitmap.mem bitmap k = false) :
    takenBlocks (Bitmap.insert bitmap k) = takenBlocks bitmap + 1 :=
  Bitmap.card_members_insert (by decide) hk hfree

/-- All blocks are taken when there are so many. -/
theorem takenBlocks_eq_iff (bitmap : Vector Word 64) :
    takenBlocks bitmap = 2048 ↔ ∀ k < 2048, Bitmap.mem bitmap k = true := by
  have hsub : Bitmap.members bitmap ⊆ Finset.range 2048 := Finset.filter_subset _ _
  constructor
  · intro hcard k hk
    have heq := Finset.eq_of_subset_of_card_le hsub (by rw [Finset.card_range]; exact hcard.ge)
    have hmem : k ∈ Bitmap.members bitmap := by
      rw [heq]
      exact Finset.mem_range.mpr hk
    exact (Bitmap.mem_members.mp hmem).2
  · intro hall
    have heq : Bitmap.members bitmap = Finset.range 2048 := by
      apply Finset.Subset.antisymm hsub
      intro k hk
      have hlt := Finset.mem_range.mp hk
      exact Bitmap.mem_members.mpr ⟨hlt, hall k hlt⟩
    unfold takenBlocks
    rw [heq, Finset.card_range]

theorem mem_insertBlock {bitmap : Vector Word 64} {k : Nat} (hk : k < 2048) {j : Nat}
    (hj : Bitmap.mem bitmap j = true) : Bitmap.mem (Bitmap.insert bitmap k) j = true := by
  rw [Bitmap.mem_insert (by decide) bitmap hk, hj, Bool.or_true]

theorem ofNat_block_eq_zero {k : Nat} (hk : k < 2048) : BitVec.ofNat 32 k = 0 ↔ k = 0 := by
  rw [← BitVec.toNat_inj, BitVec.toNat_ofNat, Nat.mod_eq_of_lt (by omega)]
  rfl

/-- The loop of `fs_write` takes blocks and gives none back. -/
theorem mem_allocBlocks {j : Nat} (n : Nat) : ∀ {bitmap : Vector Word 64},
    Bitmap.mem bitmap j = true → Bitmap.mem (allocBlocks bitmap n).1 j = true := by
  induction n with
  | zero => intro bitmap hj; exact hj
  | succ n ih =>
    intro bitmap hj
    rw [allocBlocks]
    rcases allocBlock_cases bitmap with ⟨k, hk, -, -, heq⟩ | ⟨-, heq⟩
    · rw [heq]
      split
      · exact mem_insertBlock hk hj
      · exact ih (mem_insertBlock hk hj)
    · rw [heq, if_pos rfl]
      exact hj

/-- It takes as many as it was asked for, unless it fails. -/
theorem takenBlocks_allocBlocks (n : Nat) : ∀ bitmap : Vector Word 64,
    takenBlocks bitmap ≤ takenBlocks (allocBlocks bitmap n).1 ∧
      ((allocBlocks bitmap n).2 = true →
        takenBlocks (allocBlocks bitmap n).1 = takenBlocks bitmap + n) := by
  induction n with
  | zero => intro bitmap; simp [allocBlocks]
  | succ n ih =>
    intro bitmap
    rw [allocBlocks]
    rcases allocBlock_cases bitmap with ⟨k, hk, hfree, -, heq⟩ | ⟨-, heq⟩
    · have hcard := takenBlocks_insert hk hfree
      rw [heq]
      split
      · exact ⟨by simp only; omega, fun hok => absurd hok Bool.false_ne_true⟩
      · obtain ⟨hle, hok⟩ := ih (Bitmap.insert bitmap k)
        refine ⟨by simp only; omega, ?_⟩
        intro hall
        simp only at hall ⊢
        have := hok hall
        omega
    · rw [heq, if_pos rfl]
      exact ⟨Nat.le_refl _, fun hok => absurd hok Bool.false_ne_true⟩

/-- With block `0` taken, the loop fails exactly when there are too few free blocks. -/
theorem allocBlocks_ok_iff (n : Nat) : ∀ {bitmap : Vector Word 64},
    Bitmap.mem bitmap 0 = true →
      ((allocBlocks bitmap n).2 = true ↔ n ≤ 2048 - takenBlocks bitmap) := by
  induction n with
  | zero => intro bitmap _; exact iff_of_true rfl (Nat.zero_le _)
  | succ n ih =>
    intro bitmap hzero
    rw [allocBlocks]
    rcases allocBlock_cases bitmap with ⟨k, hk, hfree, -, heq⟩ | ⟨hall, heq⟩
    · have hne : k ≠ 0 := by
        rintro rfl
        rw [hzero] at hfree
        cases hfree
      have hcard := takenBlocks_insert hk hfree
      have hle := takenBlocks_le (Bitmap.insert bitmap k)
      rw [heq, if_neg (mt (ofNat_block_eq_zero hk).mp hne), ih (mem_insertBlock hk hzero)]
      omega
    · rw [heq, if_pos rfl, (takenBlocks_eq_iff bitmap).mpr hall]
      exact iff_of_false Bool.false_ne_true (by omega)

/-! ### Freeing -/

theorem takenBlocks_freeBlock (bitmap : Vector Word 64) (block : Word) :
    takenBlocks bitmap ≤ takenBlocks (freeBlock bitmap block) + 1 := by
  unfold freeBlock
  split
  · next hlt =>
    have hcard := Bitmap.card_members_erase (by decide) bitmap (i := block.toNat) (by omega)
    show (Bitmap.members bitmap).card
      ≤ (Bitmap.members (Bitmap.erase bitmap block.toNat)).card + 1
    split at hcard
    · omega
    · omega
  · exact Nat.le_succ _

/-- The loop of `fs_delete` gives back at most as many as it goes through. -/
theorem takenBlocks_freeBlocks (n : Nat) : ∀ (bitmap : Vector Word 64) (block : Word),
    takenBlocks bitmap ≤ takenBlocks (freeBlocks bitmap block n) + n := by
  induction n with
  | zero => intro bitmap block; simp [freeBlocks]
  | succ n ih =>
    intro bitmap block
    have hfirst := takenBlocks_freeBlock bitmap block
    have hrest := ih (freeBlock bitmap block) (block + 1)
    rw [freeBlocks]
    omega

theorem mem_freeBlock {bitmap : Vector Word 64} {block : Word} {k : Nat} (hne : k ≠ block.toNat) :
    Bitmap.mem (freeBlock bitmap block) k = Bitmap.mem bitmap k := by
  unfold freeBlock
  split
  · rw [Bitmap.mem_erase (by decide) bitmap (by omega)]
    simp [hne]
  · rfl

/-- The blocks below the first one stay as they are. -/
theorem mem_freeBlocks {k : Nat} (n : Nat) : ∀ {bitmap : Vector Word 64} {block : Word},
    k < block.toNat → block.toNat + n ≤ 2 ^ 32 →
      Bitmap.mem (freeBlocks bitmap block n) k = Bitmap.mem bitmap k := by
  induction n with
  | zero => intro bitmap block _ _; rfl
  | succ n ih =>
    intro bitmap block hlt hfit
    rw [freeBlocks]
    cases n with
    | zero => exact mem_freeBlock (by omega)
    | succ n =>
      have hnext : (block + 1).toNat = block.toNat + 1 := by
        rw [BitVec.toNat_add]
        exact Nat.mod_eq_of_lt (by simp; omega)
      rw [ih (by omega) (by omega)]
      exact mem_freeBlock (by omega)

/-! ## The table -/

/-- The name of an entry. -/
def nameAt (fs : Filesystem) (i : Int) : CString :=
  CString.ofArray (fs.files i).filename

theorem findFile_eq_some {fs : Filesystem} {filename : CString} {i : Nat} :
    findFile fs filename = some i ↔
      i < fs.fileCount.toNat ∧ fs.nameAt i = filename ∧ ∀ j < i, fs.nameAt j ≠ filename := by
  unfold findFile
  rw [List.find?_range_eq_some]
  simp only [beq_iff_eq, List.mem_range, strcmp_eq_zero, CString.ofBytes_bytes, Bool.not_eq_true',
    beq_eq_false_iff_ne, ne_eq]
  exact ⟨fun ⟨hname, hlt, hfirst⟩ => ⟨hlt, hname, hfirst⟩,
    fun ⟨hlt, hname, hfirst⟩ => ⟨hname, hlt, hfirst⟩⟩

theorem findFile_eq_none {fs : Filesystem} {filename : CString} :
    findFile fs filename = none ↔ ∀ i < fs.fileCount.toNat, fs.nameAt i ≠ filename := by
  unfold findFile
  rw [List.find?_range_eq_none]
  simp only [strcmp_eq_zero, CString.ofBytes_bytes, Bool.not_eq_true', beq_eq_false_iff_ne, ne_eq]
  exact Iff.rfl

/-- The loop of `fs_delete` moves the entries behind the first one down. -/
theorem shiftDown_apply (n : Nat) : ∀ (files : Int → FileEntry) (i : Nat) (j : Int),
    shiftDown files i n j = if i ≤ j ∧ j < i + n then files (j + 1) else files j := by
  induction n with
  | zero =>
    intro files i j
    rw [shiftDown, if_neg (by omega)]
  | succ n ih =>
    intro files i j
    rw [shiftDown, ih, Function.update_apply, Function.update_apply]
    by_cases hj : j = i
    · rw [if_neg (by omega), if_pos hj, if_pos (by omega), hj]
    · rw [if_neg hj]
      by_cases hin : ((i + 1 : Nat) : Int) ≤ j ∧ j < (i + 1 : Nat) + n
      · rw [if_pos hin, if_neg (by omega), if_pos (by omega)]
      · rw [if_neg hin, if_neg (by omega)]

/-! ## What each call can do -/

/-- What a call that fails leaves: the files of the table, with no block given back. -/
structure Refused (fs fs' : Filesystem) : Prop where
  data : fs'.data = fs.data
  count : fs'.fileCount = fs.fileCount
  files : ∀ i : Nat, i < fs.fileCount.toNat → fs'.files i = fs.files i
  taken : ∀ k, Bitmap.mem fs.bitmap k = true → Bitmap.mem fs'.bitmap k = true

theorem Refused.refl (fs : Filesystem) : Refused fs fs := ⟨rfl, rfl, fun _ _ => rfl, fun _ h => h⟩

/-- A new file, with its first block. -/
def add (fs : Filesystem) (k : Nat) (filename : CString) (type : Byte) : Filesystem :=
  { fs with
    bitmap := Bitmap.insert fs.bitmap k
    files := Function.update fs.files fs.fileCount.toNat
      ((fs.files fs.fileCount.toNat).fill filename type (BitVec.ofNat 32 k))
    fileCount := fs.fileCount + 1 }

/-- There is room for a file of this name, and the first free block is not block `0`. -/
structure CanAdd (fs : Filesystem) (k : Nat) (filename : CString) : Prop where
  room : fs.fileCount.toNat < fsMaxFiles
  new : findFile fs filename = none
  block : 0 < k ∧ k < 2048
  free : Bitmap.mem fs.bitmap k = false
  first : ∀ j < k, Bitmap.mem fs.bitmap j = true

/-- A file less. -/
def remove (fs : Filesystem) (index : Nat) : Filesystem :=
  { fs with
    bitmap := freeBlocks fs.bitmap (fs.files index).startBlock
      (blocksFor (fs.files index).size).toNat
    files := shiftDown fs.files index ((fs.fileCount - 1).toNat - index)
    fileCount := fs.fileCount - 1 }

/-- Bytes at the end of a file, with the bitmap after the allocation of its blocks. -/
def append (fs : Filesystem) (fd : Int) (buffer : Nat → Byte) (count : Word) : Filesystem :=
  { fs with
    data := memcpyTo fs.data ((fs.files fd).startBlock * blockSize + (fs.files fd).size) buffer
      count.toNat
    bitmap := (allocBlocks fs.bitmap ((fs.files fd).newBlocks count)).1
    files := Function.update fs.files fd
      { fs.files fd with size := (fs.files fd).size + count, modifyTime := 0 } }

theorem toNat_fileCount_add {fs : Filesystem} (h : fs.fileCount.toNat < fsMaxFiles) :
    (fs.fileCount + 1).toNat = fs.fileCount.toNat + 1 := by
  unfold fsMaxFiles at h
  rw [BitVec.toNat_add]
  exact Nat.mod_eq_of_lt (by simp; omega)

theorem CanAdd.unique {fs : Filesystem} {k k' : Nat} {filename : CString}
    (h : fs.CanAdd k filename) (hfree : Bitmap.mem fs.bitmap k' = false)
    (hfirst : ∀ j < k', Bitmap.mem fs.bitmap j = true) : k' = k := by
  rcases Nat.lt_trichotomy k' k with hlt | heq | hgt
  · rw [h.first k' hlt] at hfree
    cases hfree
  · exact heq
  · have hmem := hfirst k hgt
    rw [h.free] at hmem
    cases hmem

/-- **`fs_create`** where there is room. -/
theorem fsCreate_of_canAdd {fs : Filesystem} {k : Nat} {filename : CString}
    (h : fs.CanAdd k filename) (type : Byte) :
    fsCreate fs filename type = (fs.add k filename type, (fs.fileCount.toNat : Int)) := by
  have hroom := h.room
  have halloc : allocBlock fs.bitmap = (Bitmap.insert fs.bitmap k, BitVec.ofNat 32 k) := by
    rcases allocBlock_cases fs.bitmap with ⟨k', -, hfree, hfirst, halloc⟩ | ⟨hfull, -⟩
    · rw [halloc, h.unique hfree hfirst]
    · have hmem := hfull k h.block.2
      rw [h.free] at hmem
      cases hmem
  simp only [fsCreate]
  rw [if_neg (Nat.not_le.mpr hroom), h.new, Option.isSome_none, if_neg Bool.false_ne_true, halloc,
    if_neg (mt (ofNat_block_eq_zero h.block.2).mp (Nat.ne_of_gt h.block.1))]
  refine Prod.ext rfl ?_
  show (fs.fileCount + 1 - 1).toInt = fs.fileCount.toNat
  rw [BitVec.add_sub_cancel, BitVec.toInt_eq_toNat_of_lt]
  unfold fsMaxFiles at hroom
  omega

/-- `fs_create` where there is none. The entry behind the last file may be written all the same. -/
theorem fsCreate_refused {fs : Filesystem} {filename : CString}
    (h : ∀ k, ¬ fs.CanAdd k filename) (type : Byte) :
    fs.Refused (fsCreate fs filename type).1 ∧ (fsCreate fs filename type).2 = -1 := by
  by_cases hroom : fsMaxFiles ≤ fs.fileCount.toNat
  · have heq : fsCreate fs filename type = (fs, -1) := by rw [fsCreate, if_pos hroom]
    rw [heq]
    exact ⟨.refl fs, rfl⟩
  · cases hfind : findFile fs filename with
    | some i =>
      have heq : fsCreate fs filename type = (fs, -1) := by
        rw [fsCreate, if_neg hroom, hfind, Option.isSome_some, if_pos rfl]
      rw [heq]
      exact ⟨.refl fs, rfl⟩
    | none =>
      -- no block, or block `0`, which is taken for the sign of a full disk
      have hzero : (allocBlock fs.bitmap).2 = 0 ∧
          ∀ j, Bitmap.mem fs.bitmap j = true → Bitmap.mem (allocBlock fs.bitmap).1 j = true := by
        rcases allocBlock_cases fs.bitmap with ⟨k, hk, hfree, hfirst, halloc⟩ | ⟨-, halloc⟩
        · rw [halloc]
          refine ⟨(ofNat_block_eq_zero hk).mpr ?_, fun j hj => mem_insertBlock hk hj⟩
          by_contra hne
          exact h k ⟨by omega, hfind, ⟨by omega, hk⟩, hfree, hfirst⟩
        · rw [halloc]
          exact ⟨rfl, fun j hj => hj⟩
      simp only [fsCreate]
      rw [if_neg hroom, hfind, Option.isSome_none, if_neg Bool.false_ne_true, if_pos hzero.1]
      refine ⟨⟨rfl, rfl, ?_, hzero.2⟩, rfl⟩
      intro i hi
      exact Function.update_of_ne (by omega) _ _

/-- **`fs_create`** fails or adds a file. -/
theorem fsCreate_cases (fs : Filesystem) (filename : CString) (type : Byte) :
    ((∀ k, ¬ fs.CanAdd k filename) ∧ fs.Refused (fsCreate fs filename type).1 ∧
        (fsCreate fs filename type).2 = -1) ∨
      ∃ k, fs.CanAdd k filename ∧
        fsCreate fs filename type = (fs.add k filename type, (fs.fileCount.toNat : Int)) := by
  by_cases h : ∃ k, fs.CanAdd k filename
  · obtain ⟨k, hadd⟩ := h
    exact .inr ⟨k, hadd, fsCreate_of_canAdd hadd type⟩
  · have hnone : ∀ k, ¬ fs.CanAdd k filename := fun k hk => h ⟨k, hk⟩
    exact .inl ⟨hnone, fsCreate_refused hnone type⟩

theorem fsOpen_of_found {fs : Filesystem} {filename : CString} {i : Nat}
    (h : findFile fs filename = some i) (mode : Word) :
    fsOpen fs filename mode = (fs, (i : Int)) := by
  simp only [fsOpen, h]

/-- **`fs_open`** finds a file, fails, or adds one. -/
theorem fsOpen_cases (fs : Filesystem) (filename : CString) (mode : Word) :
    (∃ i, findFile fs filename = some i ∧ fsOpen fs filename mode = (fs, (i : Int))) ∨
      ((∀ k, ¬ (fs.CanAdd k filename ∧ mode &&& fileCreate ≠ 0)) ∧
        fs.Refused (fsOpen fs filename mode).1 ∧ (fsOpen fs filename mode).2 = -1) ∨
      ∃ k, fs.CanAdd k filename ∧ mode &&& fileCreate ≠ 0 ∧
        fsOpen fs filename mode
          = (fs.add k filename fileTypeRegular, (fs.fileCount.toNat : Int)) := by
  cases hfind : findFile fs filename with
  | some i => exact .inl ⟨i, rfl, fsOpen_of_found hfind mode⟩
  | none =>
    by_cases hmode : mode &&& fileCreate ≠ 0
    · rcases fsCreate_cases fs filename fileTypeRegular with ⟨hnot, hrefused, hret⟩ | ⟨k, hadd, heq⟩
      · have heq : fsOpen fs filename mode = ((fsCreate fs filename fileTypeRegular).1, -1) := by
          simp only [fsOpen, hfind]
          rw [if_pos hmode, hret, if_pos (by decide)]
        rw [heq]
        exact .inr (.inl ⟨fun k hk => hnot k hk.1, hrefused, rfl⟩)
      · refine .inr (.inr ⟨k, hadd, hmode, ?_⟩)
        simp only [fsOpen, hfind]
        rw [if_pos hmode, heq, if_neg (by simp)]
    · have heq : fsOpen fs filename mode = (fs, -1) := by
        simp only [fsOpen, hfind]
        rw [if_neg hmode]
      rw [heq]
      exact .inr (.inl ⟨fun k hk => hmode hk.2, .refl fs, rfl⟩)

theorem fsDelete_of_found {fs : Filesystem} {filename : CString} {i : Nat}
    (h : findFile fs filename = some i) : fsDelete fs filename = (fs.remove i, 0) := by
  simp only [fsDelete, h]
  rfl

/-- **`fs_delete`** finds no file or removes one. -/
theorem fsDelete_cases (fs : Filesystem) (filename : CString) :
    (findFile fs filename = none ∧ fsDelete fs filename = (fs, -1)) ∨
      ∃ i, findFile fs filename = some i ∧ fsDelete fs filename = (fs.remove i, 0) := by
  cases hfind : findFile fs filename with
  | none =>
    refine .inl ⟨rfl, ?_⟩
    simp only [fsDelete, hfind]
  | some i => exact .inr ⟨i, rfl, fsDelete_of_found hfind⟩

theorem fsWrite_of_invalid {fs : Filesystem} {fd : Int} (hfd : fs.invalid fd = true)
    (buffer : Nat → Byte) (count : Word) : fsWrite fs fd buffer count = (fs, [], -1) := by
  simp only [fsWrite]
  rw [if_pos hfd]

theorem fsWrite_of_blocks {fs : Filesystem} {fd : Int} {count : Word} (hfd : fs.invalid fd = false)
    (hok : (allocBlocks fs.bitmap ((fs.files fd).newBlocks count)).2 = true)
    (buffer : Nat → Byte) :
    fsWrite fs fd buffer count
      = (fs.append fd buffer count,
        [.entry fd, .bytes ((fs.files fd).startBlock * blockSize + (fs.files fd).size) count],
        count.toInt) := by
  simp only [fsWrite]
  rw [hfd, if_neg Bool.false_ne_true, if_neg (by simp [hok])]
  rfl

/-- **`fs_write`** refuses the descriptor, runs out of space, or appends. -/
theorem fsWrite_cases (fs : Filesystem) (fd : Int) (buffer : Nat → Byte) (count : Word) :
    (fs.invalid fd = true ∧ fsWrite fs fd buffer count = (fs, [], -1)) ∨
      (fs.invalid fd = false ∧
        (allocBlocks fs.bitmap ((fs.files fd).newBlocks count)).2 = false ∧
        fsWrite fs fd buffer count
          = ({ fs with bitmap := (allocBlocks fs.bitmap ((fs.files fd).newBlocks count)).1 },
            [.entry fd], -1)) ∨
      (fs.invalid fd = false ∧
        (allocBlocks fs.bitmap ((fs.files fd).newBlocks count)).2 = true ∧
        fsWrite fs fd buffer count
          = (fs.append fd buffer count,
            [.entry fd, .bytes ((fs.files fd).startBlock * blockSize + (fs.files fd).size) count],
            count.toInt)) := by
  cases hfd : fs.invalid fd with
  | true => exact .inl ⟨rfl, fsWrite_of_invalid hfd buffer count⟩
  | false =>
    cases hok : (allocBlocks fs.bitmap ((fs.files fd).newBlocks count)).2 with
    | false =>
      refine .inr (.inl ⟨rfl, rfl, ?_⟩)
      simp only [fsWrite]
      rw [hfd, if_neg Bool.false_ne_true, if_pos (by simp [hok])]
    | true => exact .inr (.inr ⟨rfl, rfl, fsWrite_of_blocks hfd hok buffer⟩)

theorem refused_outOfSpace (fs : Filesystem) (n : Nat) :
    fs.Refused { fs with bitmap := (allocBlocks fs.bitmap n).1 } :=
  ⟨rfl, rfl, fun _ _ => rfl, fun _ hk => mem_allocBlocks n hk⟩

/-! ## Entries inside the data -/

/-- The first four blocks are taken, and each file has its bytes inside `fs.data`. -/
structure Sound (fs : Filesystem) : Prop where
  reserved : ∀ k < 4, Bitmap.mem fs.bitmap k = true
  count_le : fs.fileCount.toNat ≤ fsMaxFiles
  start : ∀ i < fs.fileCount.toNat, 4 ≤ (fs.files i).startBlock.toNat ∧
    (fs.files i).startBlock.toNat < 2048
  fits : ∀ i < fs.fileCount.toNat,
    (fs.files i).startBlock.toNat * 512 + (fs.files i).size.toNat ≤ fsSize

theorem Sound.invalid_iff {fs : Filesystem} (h : fs.Sound) (fd : Int) :
    fs.invalid fd = true ↔ (fs.fileCount.toNat : Int) ≤ fd := by
  have hle := h.count_le
  unfold fsMaxFiles at hle
  rw [invalid, decide_eq_true_iff, BitVec.toInt_eq_toNat_of_lt (by omega)]

theorem Sound.refused {fs fs' : Filesystem} (h : fs.Sound) (hr : fs.Refused fs') : fs'.Sound where
  reserved k hk := hr.taken k (h.reserved k hk)
  count_le := by
    rw [hr.count]
    exact h.count_le
  start i hi := by
    rw [hr.count] at hi
    rw [hr.files i hi]
    exact h.start i hi
  fits i hi := by
    rw [hr.count] at hi
    rw [hr.files i hi]
    exact h.fits i hi

theorem files_add (fs : Filesystem) (k : Nat) (filename : CString) (type : Byte) (i : Nat) :
    (fs.add k filename type).files i
      = if i = fs.fileCount.toNat then
          (fs.files fs.fileCount.toNat).fill filename type (BitVec.ofNat 32 k)
        else fs.files i := by
  show Function.update fs.files fs.fileCount.toNat _ i = _
  rw [Function.update_apply]
  by_cases hi : i = fs.fileCount.toNat
  · rw [if_pos (by omega), if_pos hi]
  · rw [if_neg (by omega), if_neg hi]

theorem nameAt_add (fs : Filesystem) (k : Nat) (filename : CString) (type : Byte) (i : Nat) :
    (fs.add k filename type).nameAt i
      = if i = fs.fileCount.toNat then filename.truncate 255 else fs.nameAt i := by
  unfold nameAt
  rw [files_add]
  by_cases hi : i = fs.fileCount.toNat
  · rw [if_pos hi, if_pos hi]
    exact CString.ofArray_strncpy (fs.files fs.fileCount.toNat).filename filename (by decide)
  · rw [if_neg hi, if_neg hi]

/-- What holds of the entries of the table and of a new one holds when the new one is added. -/
theorem forall_files_add {fs : Filesystem} {k : Nat} {filename : CString}
    (hadd : fs.CanAdd k filename) (type : Byte) {P : FileEntry → Prop}
    (hold : ∀ i < fs.fileCount.toNat, P (fs.files i))
    (hnew : P ((fs.files fs.fileCount.toNat).fill filename type (BitVec.ofNat 32 k))) :
    ∀ i < (fs.add k filename type).fileCount.toNat, P ((fs.add k filename type).files i) := by
  intro i hi
  change i < (fs.fileCount + 1).toNat at hi
  rw [toNat_fileCount_add hadd.room] at hi
  rw [files_add]
  by_cases hlast : i = fs.fileCount.toNat
  · rw [if_pos hlast]
    exact hnew
  · rw [if_neg hlast]
    exact hold i (by omega)

theorem Sound.add {fs : Filesystem} (h : fs.Sound) {k : Nat} {filename : CString}
    (hadd : fs.CanAdd k filename) (type : Byte) : (fs.add k filename type).Sound := by
  obtain ⟨hpos, hlt⟩ := hadd.block
  have hk : 4 ≤ k := by
    by_contra hsmall
    have hmem := h.reserved k (by omega)
    rw [hadd.free] at hmem
    cases hmem
  have hblock : (BitVec.ofNat 32 k).toNat = k := by
    rw [BitVec.toNat_ofNat]
    exact Nat.mod_eq_of_lt (by omega)
  refine ⟨fun j hj => mem_insertBlock hlt (h.reserved j hj), ?_, ?_, ?_⟩
  · show (fs.fileCount + 1).toNat ≤ fsMaxFiles
    rw [toNat_fileCount_add hadd.room]
    exact hadd.room
  · refine forall_files_add hadd type
      (P := fun e => 4 ≤ e.startBlock.toNat ∧ e.startBlock.toNat < 2048) h.start ?_
    show 4 ≤ (BitVec.ofNat 32 k).toNat ∧ (BitVec.ofNat 32 k).toNat < 2048
    omega
  · refine forall_files_add hadd type
      (P := fun e => e.startBlock.toNat * 512 + e.size.toNat ≤ fsSize) h.fits ?_
    show (BitVec.ofNat 32 k).toNat * 512 + 0 ≤ fsSize
    unfold fsSize
    omega

theorem toNat_fileCount_sub {fs : Filesystem} {i : Nat} (h : i < fs.fileCount.toNat) :
    (fs.fileCount - 1).toNat = fs.fileCount.toNat - 1 := by
  rw [BitVec.toNat_sub_of_le]
  · rfl
  · rw [BitVec.le_def]
    show 1 ≤ fs.fileCount.toNat
    omega

theorem files_remove {fs : Filesystem} {i : Nat} (hi : i < fs.fileCount.toNat) {j : Nat}
    (hj : j < fs.fileCount.toNat - 1) :
    (fs.remove i).files j = if j < i then fs.files j else fs.files (j + 1 : Nat) := by
  show shiftDown fs.files i _ j = _
  rw [shiftDown_apply, toNat_fileCount_sub hi]
  by_cases hlt : j < i
  · rw [if_neg (by omega), if_pos hlt]
  · rw [if_pos (by omega), if_neg hlt]
    rfl

theorem toNat_blocksFor_le (size : Word) : (blocksFor size).toNat ≤ 2 ^ 23 := by
  unfold blocksFor blockSize
  rw [BitVec.toNat_udiv]
  have hlt := (size + 512 - 1).isLt
  have hdiv : (512 : Word).toNat = 512 := rfl
  rw [hdiv]
  omega

theorem Sound.remove {fs : Filesystem} (h : fs.Sound) {i : Nat} (hi : i < fs.fileCount.toNat) :
    (fs.remove i).Sound := by
  have hcount : (fs.remove i).fileCount.toNat = fs.fileCount.toNat - 1 := toNat_fileCount_sub hi
  have hle := h.count_le
  refine ⟨?_, by omega, ?_, ?_⟩
  · intro k hk
    have hblocks := toNat_blocksFor_le (fs.files i).size
    obtain ⟨hstart, hlt⟩ := h.start i hi
    show Bitmap.mem (freeBlocks fs.bitmap _ _) k = true
    rw [mem_freeBlocks _ (by omega) (by omega)]
    exact h.reserved k hk
  · intro j hj
    rw [files_remove hi (by omega)]
    split
    · exact h.start j (by omega)
    · exact h.start (j + 1) (by omega)
  · intro j hj
    rw [files_remove hi (by omega)]
    split
    · exact h.fits j (by omega)
    · exact h.fits (j + 1) (by omega)

theorem files_append (fs : Filesystem) (fd : Int) (buffer : Nat → Byte) (count : Word) (i : Int) :
    (fs.append fd buffer count).files i
      = if i = fd then { fs.files fd with size := (fs.files fd).size + count, modifyTime := 0 }
        else fs.files i :=
  Function.update_apply fs.files fd _ i

theorem nameAt_append (fs : Filesystem) (fd : Int) (buffer : Nat → Byte) (count : Word) (i : Int) :
    (fs.append fd buffer count).nameAt i = fs.nameAt i := by
  unfold nameAt
  rw [files_append]
  by_cases hi : i = fd
  · rw [if_pos hi, hi]
  · rw [if_neg hi]

/-- The bytes that a write puts into a file end inside `fs.data`. -/
def Room (fs : Filesystem) (fd : Int) (count : Word) : Prop :=
  (fs.files fd).startBlock.toNat * 512 + (fs.files fd).size.toNat + count.toNat ≤ fsSize

theorem Room.toNat_size {fs : Filesystem} {fd : Int} {count : Word} (h : fs.Room fd count) :
    ((fs.files fd).size + count).toNat = (fs.files fd).size.toNat + count.toNat := by
  unfold Room fsSize at h
  rw [BitVec.toNat_add]
  exact Nat.mod_eq_of_lt (by omega)

theorem Sound.append {fs : Filesystem} (h : fs.Sound) {fd : Int} {count : Word}
    (hroom : fs.Room fd count) (buffer : Nat → Byte) : (fs.append fd buffer count).Sound := by
  refine ⟨fun k hk => mem_allocBlocks _ (h.reserved k hk), h.count_le, ?_, ?_⟩
  · intro i hi
    rw [files_append]
    split
    · next heq =>
      rw [← heq]
      exact h.start i hi
    · exact h.start i hi
  · intro i hi
    rw [files_append]
    split
    · show (fs.files fd).startBlock.toNat * 512 + ((fs.files fd).size + count).toNat ≤ fsSize
      rw [hroom.toNat_size, ← Nat.add_assoc]
      exact hroom
    · exact h.fits i hi

/-- A write needs more blocks than are free. -/
def OutOfSpace (fs : Filesystem) (fd : Int) (count : Word) : Prop :=
  2048 - takenBlocks fs.bitmap < (fs.files fd).newBlocks count

theorem Sound.allocBlocks_failed_iff {fs : Filesystem} (h : fs.Sound) (fd : Int) (count : Word) :
    (allocBlocks fs.bitmap ((fs.files fd).newBlocks count)).2 = false ↔ fs.OutOfSpace fd count := by
  rw [← Bool.not_eq_true, allocBlocks_ok_iff _ (h.reserved 0 (by omega)), Nat.not_le]
  exact Iff.rfl

/-- The condition for accesses inside the arrays. -/
def InBounds (fs : Filesystem) : FsCall → Prop
  | .read fd _ => 0 ≤ fd
  | .write fd _ count =>
    (fs.fileCount.toNat : Int) ≤ fd ∨ 0 ≤ fd ∧ (fs.OutOfSpace fd count ∨ fs.Room fd count)
  | _ => True

/-! ### Runs -/

theorem Sound.create {fs : Filesystem} (h : fs.Sound) (filename : CString) (type : Byte) :
    (fsCreate fs filename type).1.Sound := by
  rcases fsCreate_cases fs filename type with ⟨-, hrefused, -⟩ | ⟨k, hadd, heq⟩
  · exact h.refused hrefused
  · rw [heq]
    exact h.add hadd type

theorem Sound.write {fs : Filesystem} (h : fs.Sound) {fd : Int} {buffer : Nat → Byte}
    {count : Word} (hin : fs.InBounds (.write fd buffer count)) :
    (fsWrite fs fd buffer count).1.Sound := by
  rcases fsWrite_cases fs fd buffer count with ⟨-, heq⟩ | ⟨-, -, heq⟩ | ⟨hfd, hok, heq⟩
  · rw [heq]
    exact h
  · rw [heq]
    exact h.refused (refused_outOfSpace fs _)
  · rw [heq]
    rcases hin with hge | ⟨-, hspace | hroom⟩
    · rw [(h.invalid_iff fd).mpr hge] at hfd
      cases hfd
    · rw [(h.allocBlocks_failed_iff fd count).mpr hspace] at hok
      cases hok
    · exact h.append hroom buffer

/-- **One call** inside the arrays keeps the files there. -/
theorem Sound.step {fs : Filesystem} (h : fs.Sound) {call : FsCall} (hin : fs.InBounds call) :
    (fs.step call).1.Sound := by
  cases call with
  | create filename type => exact h.create filename type
  | delete filename =>
    show (fsDelete fs filename).1.Sound
    rcases fsDelete_cases fs filename with ⟨-, heq⟩ | ⟨i, hfind, heq⟩
    · rw [heq]
      exact h
    · rw [heq]
      exact h.remove (findFile_eq_some.mp hfind).1
  | open' filename mode =>
    show (fsOpen fs filename mode).1.Sound
    rcases fsOpen_cases fs filename mode with ⟨i, -, heq⟩ | ⟨-, hrefused, -⟩ | ⟨k, hadd, -, heq⟩
    · rw [heq]
      exact h
    · exact h.refused hrefused
    · rw [heq]
      exact h.add hadd _
  | close fd => exact h
  | read fd count => exact h
  | write fd buffer count => exact h.write hin
  | seek fd position => exact h

theorem sound_fsClear (fs : Filesystem) : (fsClear fs).Sound where
  reserved k hk := by
    have hall : ∀ k < 4, Bitmap.mem ((Vector.replicate 64 (0 : Word)).setIfInBounds 0 0x0000000F) k
        = true := by
      decide
    exact hall k hk
  count_le := Nat.zero_le _
  start i hi := absurd hi (Nat.not_lt_zero i)
  fits i hi := absurd hi (Nat.not_lt_zero i)

/-- A new file has room for a text that fits into its first block. -/
theorem CanAdd.room_add {fs : Filesystem} {k : Nat} {filename : CString}
    (hadd : fs.CanAdd k filename) {text : List Byte} (htext : text.length ≤ 512) :
    (fs.add k filename fileTypeRegular).Room fs.fileCount.toNat
      (BitVec.ofNat 32 text.length) := by
  obtain ⟨-, hk⟩ := hadd.block
  unfold Room fsSize
  rw [files_add, if_pos rfl]
  show (BitVec.ofNat 32 k).toNat * 512 + 0 + (BitVec.ofNat 32 text.length).toNat ≤ _
  simp only [BitVec.toNat_ofNat]
  omega

/-- A file of `fs_init` has room in its first block. -/
theorem Sound.createWith {fs : Filesystem} (h : fs.Sound) (filename : CString) {text : List Byte}
    (htext : text.length ≤ 512) : (createWith fs filename text).Sound := by
  have hcreated := h.create filename fileTypeRegular
  simp only [Filesystem.createWith]
  rcases fsCreate_cases fs filename fileTypeRegular with ⟨-, -, hret⟩ | ⟨k, hadd, heq⟩
  · rw [hret, if_neg (by decide)]
    exact hcreated
  · rw [heq] at hcreated ⊢
    rw [if_pos (by simp)]
    exact hcreated.write (.inr ⟨by simp, .inr (hadd.room_add htext)⟩)

theorem sound_fsInit (fs : Filesystem) : (fsInit fs).Sound := by
  have hroot := (sound_fsClear fs).create rootName fileTypeDir
  exact (hroot.createWith testName (by decide)).createWith welcomeName (by decide)

/-! ### What `fs_init` leaves -/

theorem invalid_of_lt {fs : Filesystem} {i : Nat} (hi : i < fs.fileCount.toNat)
    (hle : fs.fileCount.toNat ≤ fsMaxFiles) : fs.invalid i = false := by
  unfold fsMaxFiles at hle
  rw [invalid, decide_eq_false_iff_not, BitVec.toInt_eq_toNat_of_lt (by omega)]
  omega

theorem newBlocks_add (fs : Filesystem) (k : Nat) (filename : CString) (type : Byte)
    (count : Word) :
    ((fs.add k filename type).files fs.fileCount.toNat).newBlocks count
      = (blocksFor count).toNat := by
  rw [files_add, if_pos rfl]
  show (blocksFor (0 + count)).toNat - (blocksFor 0).toNat = _
  rw [show 0 + count = count from BitVec.zero_add count, show (blocksFor 0).toNat = 0 by decide,
    Nat.sub_zero]

/-- A file of `fs_init`, when there is room. -/
theorem createWith_eq {fs : Filesystem} {k : Nat} {filename : CString} (hadd : fs.CanAdd k filename)
    {text : List Byte} {count : Word} (hcount : BitVec.ofNat 32 text.length = count)
    (hok : (allocBlocks (Bitmap.insert fs.bitmap k) (blocksFor count).toNat).2 = true) :
    createWith fs filename text
      = (fs.add k filename fileTypeRegular).append fs.fileCount.toNat (fun j => text.getD j 0)
          count := by
  have hroom := hadd.room
  have htotal : (fs.add k filename fileTypeRegular).fileCount.toNat = fs.fileCount.toNat + 1 :=
    toNat_fileCount_add hroom
  have hvalid : (fs.add k filename fileTypeRegular).invalid fs.fileCount.toNat = false :=
    invalid_of_lt (by omega) (by omega)
  have hblocks : (allocBlocks (fs.add k filename fileTypeRegular).bitmap
      (((fs.add k filename fileTypeRegular).files fs.fileCount.toNat).newBlocks count)).2
        = true := by
    rw [newBlocks_add]
    exact hok
  simp only [createWith]
  rw [fsCreate_of_canAdd hadd, if_pos (Int.natCast_nonneg _), hcount,
    fsWrite_of_blocks hvalid hblocks]

/-- A bitmap with blocks of the first word. -/
def bootBitmap (word : Word) : Vector Word 64 := (Vector.replicate 64 0).setIfInBounds 0 word

/-- The file system with the root directory. -/
def bootRoot (fs : Filesystem) : Filesystem := (fsClear fs).add 4 rootName fileTypeDir

/-- The same with `test.txt`. -/
def bootTest (fs : Filesystem) : Filesystem :=
  ((bootRoot fs).add 5 testName fileTypeRegular).append 1 (fun j => testText.getD j 0) 41

/-- The same with `welcome.txt`. -/
def bootWelcome (fs : Filesystem) : Filesystem :=
  ((bootTest fs).add 7 welcomeName fileTypeRegular).append 2 (fun j => welcomeText.getD j 0) 31

section

variable (fs : Filesystem)

theorem bitmap_bootRoot : (bootRoot fs).bitmap = bootBitmap 0x1F := by
  show Bitmap.insert (bootBitmap 0xF) 4 = _
  decide

theorem bitmap_bootTest : (bootTest fs).bitmap = bootBitmap 0x7F := by
  have hblocks := newBlocks_add (bootRoot fs) 5 testName fileTypeRegular 41
  show (allocBlocks (Bitmap.insert (bootRoot fs).bitmap 5)
    (((bootRoot fs).add 5 testName fileTypeRegular).files (bootRoot fs).fileCount.toNat |>.newBlocks
      41)).1 = _
  rw [hblocks, bitmap_bootRoot]
  decide

theorem bitmap_bootWelcome : (bootWelcome fs).bitmap = bootBitmap 0x1FF := by
  have hblocks := newBlocks_add (bootTest fs) 7 welcomeName fileTypeRegular 31
  show (allocBlocks (Bitmap.insert (bootTest fs).bitmap 7)
    (((bootTest fs).add 7 welcomeName fileTypeRegular).files (bootTest fs).fileCount.toNat
      |>.newBlocks 31)).1 = _
  rw [hblocks, bitmap_bootTest]
  decide

theorem nameAt_bootRoot : (bootRoot fs).nameAt (0 : Nat) = rootName := by
  rw [bootRoot, nameAt_add]
  show rootName.truncate 255 = rootName
  decide

theorem nameAt_bootTest (i : Nat) :
    (bootTest fs).nameAt i = if i = 1 then testName else (bootRoot fs).nameAt i := by
  rw [bootTest, nameAt_append, nameAt_add]
  congr 1

theorem nameAt_bootWelcome (i : Nat) :
    (bootWelcome fs).nameAt i = if i = 2 then welcomeName else (bootTest fs).nameAt i := by
  rw [bootWelcome, nameAt_append, nameAt_add]
  congr 1

theorem canAdd_root : (fsClear fs).CanAdd 4 rootName := by
  refine ⟨Nat.zero_lt_succ 63, findFile_eq_none.mpr ?_, by decide, ?_, ?_⟩
  · intro i hi
    exact absurd hi (Nat.not_lt_zero i)
  · show Bitmap.mem (bootBitmap 0xF) 4 = false
    decide
  · show ∀ j < 4, Bitmap.mem (bootBitmap 0xF) j = true
    decide

theorem canAdd_test : (bootRoot fs).CanAdd 5 testName := by
  refine ⟨?_, findFile_eq_none.mpr ?_, by decide, ?_, ?_⟩
  · show 1 < 64
    decide
  · intro i hi
    obtain rfl : i = 0 := Nat.lt_one_iff.mp hi
    rw [nameAt_bootRoot]
    decide
  · rw [bitmap_bootRoot]
    decide
  · rw [bitmap_bootRoot]
    decide

theorem canAdd_welcome : (bootTest fs).CanAdd 7 welcomeName := by
  refine ⟨?_, findFile_eq_none.mpr ?_, by decide, ?_, ?_⟩
  · show 2 < 64
    decide
  · intro i hi
    change i < 2 at hi
    rw [nameAt_bootTest]
    by_cases hone : i = 1
    · rw [if_pos hone]
      decide
    · obtain rfl : i = 0 := by omega
      rw [if_neg hone, nameAt_bootRoot]
      decide
  · rw [bitmap_bootTest]
    decide
  · rw [bitmap_bootTest]
    decide

/-- **`fs_init`** leaves three files, in the blocks from `4`, `5` and `7` on. -/
theorem fsInit_eq : fsInit fs = bootWelcome fs := by
  have hfirst : createWith (bootRoot fs) testName testText = bootTest fs := by
    refine createWith_eq (canAdd_test fs) (by decide) ?_
    rw [bitmap_bootRoot]
    decide
  have hsecond : createWith (bootTest fs) welcomeName welcomeText = bootWelcome fs := by
    refine createWith_eq (canAdd_welcome fs) (by decide) ?_
    rw [bitmap_bootTest]
    decide
  unfold fsInit
  simp only
  rw [fsCreate_of_canAdd (canAdd_root fs)]
  show createWith (createWith (bootRoot fs) testName testText) welcomeName welcomeText = _
  rw [hfirst, hsecond]

theorem fileCount_fsInit : (fsInit fs).fileCount.toNat = 3 := by
  rw [fsInit_eq]
  rfl

theorem bitmap_fsInit : (fsInit fs).bitmap = bootBitmap 0x1FF := by
  rw [fsInit_eq]
  exact bitmap_bootWelcome fs

theorem nameAt_fsInit_ne {filename : CString} (h : filename ∉ [rootName, testName, welcomeName])
    {i : Nat} (hi : i < 3) : (fsInit fs).nameAt i ≠ filename := by
  simp only [List.mem_cons, List.not_mem_nil, or_false, not_or] at h
  obtain ⟨hroot, htest, hwelcome⟩ := h
  rw [fsInit_eq, nameAt_bootWelcome, nameAt_bootTest]
  by_cases htwo : i = 2
  · rw [if_pos htwo]
    exact Ne.symm hwelcome
  · rw [if_neg htwo]
    by_cases hone : i = 1
    · rw [if_pos hone]
      exact Ne.symm htest
    · obtain rfl : i = 0 := by omega
      rw [if_neg hone, nameAt_bootRoot]
      exact Ne.symm hroot

/-- The next file of another name goes into block `9`. -/
theorem canAdd_fsInit {filename : CString} (h : filename ∉ [rootName, testName, welcomeName]) :
    (fsInit fs).CanAdd 9 filename := by
  refine ⟨?_, findFile_eq_none.mpr ?_, by decide, ?_, ?_⟩
  · rw [fileCount_fsInit]
    decide
  · rw [fileCount_fsInit]
    exact fun i hi => nameAt_fsInit_ne fs h hi
  · rw [bitmap_fsInit]
    decide
  · rw [bitmap_fsInit]
    decide

end

/-- `fs` before `fs_init`. -/
def bss : Filesystem := ⟨fun _ => 0, Vector.replicate 64 0, fun _ => .zero, 0⟩

/-! ## Accesses -/

/-- An entry of a file, or bytes of `fs.data`. -/
def FsAccess.InRange (fs : Filesystem) : FsAccess → Prop
  | .entry fd => 0 ≤ fd ∧ fd < fs.fileCount.toNat
  | .bytes first count => first.toNat + count.toNat ≤ fsSize

/-- A call returns `-1` and touches nothing, or stays in range. -/
def AccessesInRange (fs : Filesystem) (call : FsCall) : Prop :=
  (fs.step call).2.ret = -1 ∧ (fs.step call).2.touched = [] ∨
    ∀ access ∈ (fs.step call).2.touched, access.InRange fs

/-- Where the bytes of a file start. -/
theorem Sound.toNat_fileData {fs : Filesystem} (h : fs.Sound) {i : Nat}
    (hi : i < fs.fileCount.toNat) :
    ((fs.files i).startBlock * blockSize).toNat = (fs.files i).startBlock.toNat * 512 := by
  obtain ⟨-, hlt⟩ := h.start i hi
  unfold blockSize
  rw [BitVec.toNat_mul]
  show (fs.files i).startBlock.toNat * 512 % 2 ^ 32 = _
  exact Nat.mod_eq_of_lt (by omega)

/-- Where the bytes of a file end. -/
theorem Sound.toNat_fileEnd {fs : Filesystem} (h : fs.Sound) {i : Nat}
    (hi : i < fs.fileCount.toNat) :
    ((fs.files i).startBlock * blockSize + (fs.files i).size).toNat
      = (fs.files i).startBlock.toNat * 512 + (fs.files i).size.toNat := by
  have hfits := h.fits i hi
  unfold fsSize at hfits
  rw [BitVec.toNat_add, h.toNat_fileData hi]
  exact Nat.mod_eq_of_lt (by omega)

/-- A descriptor that passes the test of the code is one of a file, or negative. -/
theorem Sound.index_of_valid {fs : Filesystem} (h : fs.Sound) {fd : Int}
    (hfd : fs.invalid fd = false) : fd < 0 ∨ ∃ i : Nat, i < fs.fileCount.toNat ∧ fd = i := by
  by_cases hneg : fd < 0
  · exact .inl hneg
  · obtain ⟨i, rfl⟩ := Int.eq_ofNat_of_zero_le (Int.not_lt.mp hneg)
    refine .inr ⟨i, ?_, rfl⟩
    have hlt := mt (h.invalid_iff i).mpr (Bool.eq_false_iff.mp hfd)
    omega

theorem not_inRange_of_neg {fs : Filesystem} {fd : Int} (hneg : fd < 0) {ret : Int}
    {accesses : List FsAccess} : ¬ (ret = -1 ∧ FsAccess.entry fd :: accesses = [] ∨
      ∀ access ∈ FsAccess.entry fd :: accesses, access.InRange fs) := by
  rintro (⟨-, hnil⟩ | hall)
  · cases hnil
  · have hentry : 0 ≤ fd ∧ fd < fs.fileCount.toNat := hall _ List.mem_cons_self
    omega

theorem not_inBounds_of_neg {fs : Filesystem} {fd : Int} (hneg : fd < 0) {buffer : Nat → Byte}
    {count : Word} : ¬ fs.InBounds (.write fd buffer count) := by
  rintro (hge | ⟨hpos, -⟩)
  · omega
  · omega

/-- **`fs_read`** stays in range on a descriptor that is not negative. -/
theorem Sound.read_inRange_iff {fs : Filesystem} (h : fs.Sound) (fd : Int) (count : Word) :
    fs.AccessesInRange (.read fd count) ↔ 0 ≤ fd := by
  unfold AccessesInRange
  show (fsRead fs fd count).2.2 = -1 ∧ (fsRead fs fd count).1 = [] ∨
    (∀ access ∈ (fsRead fs fd count).1, access.InRange fs) ↔ _
  simp only [fsRead]
  cases hfd : fs.invalid fd with
  | true =>
    have hge := (h.invalid_iff fd).mp hfd
    rw [if_pos rfl]
    exact iff_of_true (.inl ⟨rfl, rfl⟩) (by omega)
  | false =>
    rw [if_neg Bool.false_ne_true]
    rcases h.index_of_valid hfd with hneg | ⟨i, hi, rfl⟩
    · exact iff_of_false (not_inRange_of_neg hneg) (by omega)
    · refine iff_of_true (.inr ?_) (by omega)
      have hfits := h.fits i hi
      have hmin : (if (fs.files i).size < count then (fs.files i).size else count).toNat
          ≤ (fs.files i).size.toNat := by
        split
        · exact Nat.le_refl _
        · next hge => exact BitVec.le_def.mp (BitVec.not_lt.mp hge)
      simp only [List.forall_mem_cons, List.not_mem_nil, false_imp_iff, implies_true, and_true]
      refine ⟨⟨by omega, by omega⟩, ?_⟩
      show ((fs.files i).startBlock * blockSize).toNat + _ ≤ fsSize
      rw [h.toNat_fileData hi]
      omega

/-- **`fs_write`** stays in range when it refuses, or on a descriptor that is not negative, when it
runs out of space or has the room. -/
theorem Sound.write_inRange_iff {fs : Filesystem} (h : fs.Sound) (fd : Int) (buffer : Nat → Byte)
    (count : Word) :
    fs.AccessesInRange (.write fd buffer count) ↔ fs.InBounds (.write fd buffer count) := by
  unfold AccessesInRange
  show (fsWrite fs fd buffer count).2.2 = -1 ∧ (fsWrite fs fd buffer count).2.1 = [] ∨
    (∀ access ∈ (fsWrite fs fd buffer count).2.1, access.InRange fs) ↔ _
  rcases fsWrite_cases fs fd buffer count with ⟨hfd, heq⟩ | ⟨hfd, hfull, heq⟩ | ⟨hfd, hok, heq⟩
  · rw [heq]
    exact iff_of_true (.inl ⟨rfl, rfl⟩) (.inl ((h.invalid_iff fd).mp hfd))
  · rw [heq]
    rcases h.index_of_valid hfd with hneg | ⟨i, hi, rfl⟩
    · exact iff_of_false (not_inRange_of_neg hneg) (not_inBounds_of_neg hneg)
    · have hspace := (h.allocBlocks_failed_iff i count).mp hfull
      refine iff_of_true (.inr ?_) (.inr ⟨by omega, .inl hspace⟩)
      intro access haccess
      rw [List.mem_singleton.mp haccess]
      exact ⟨by omega, by omega⟩
  · rw [heq]
    rcases h.index_of_valid hfd with hneg | ⟨i, hi, rfl⟩
    · exact iff_of_false (not_inRange_of_neg hneg) (not_inBounds_of_neg hneg)
    · have hspace : ¬ fs.OutOfSpace i count := by
        rw [← h.allocBlocks_failed_iff i count, hok]
        simp
      have hentry : (FsAccess.entry i).InRange fs := ⟨by omega, by omega⟩
      have hend := h.toNat_fileEnd hi
      have hbytes : (FsAccess.bytes ((fs.files i).startBlock * blockSize + (fs.files i).size)
          count).InRange fs ↔ fs.Room i count := by
        show ((fs.files i).startBlock * blockSize + (fs.files i).size).toNat + _ ≤ fsSize ↔ _
        rw [hend]
        exact Iff.rfl
      constructor
      · rintro (⟨-, hnil⟩ | hall)
        · cases hnil
        · have hlast := hall _ (List.mem_cons_of_mem _ List.mem_cons_self)
          exact .inr ⟨by omega, .inr (hbytes.mp hlast)⟩
      · rintro (hge | ⟨-, hout | hroom⟩)
        · omega
        · exact absurd hout hspace
        · refine .inr ?_
          simp only [List.forall_mem_cons, List.not_mem_nil, false_imp_iff, implies_true, and_true]
          exact ⟨hentry, hbytes.mpr hroom⟩

theorem Sound.inRange_iff {fs : Filesystem} (h : fs.Sound) (call : FsCall) :
    fs.AccessesInRange call ↔ fs.InBounds call := by
  have htrivial : ∀ ret : Int, ret = -1 ∧ ([] : List FsAccess) = [] ∨
      ∀ access ∈ ([] : List FsAccess), access.InRange fs :=
    fun _ => .inr fun _ hmem => absurd hmem List.not_mem_nil
  cases call with
  | create filename type => exact iff_of_true (htrivial _) trivial
  | delete filename => exact iff_of_true (htrivial _) trivial
  | open' filename mode => exact iff_of_true (htrivial _) trivial
  | close fd => exact iff_of_true (htrivial _) trivial
  | read fd count => exact h.read_inRange_iff fd count
  | write fd buffer count => exact h.write_inRange_iff fd buffer count
  | seek fd position => exact iff_of_true (htrivial _) trivial

/-- **Accesses stay in range** in every run whose descriptors are not negative and whose writes are
refused, run out of space or end inside `fs.data`, and in no other. -/
theorem fs_accesses_in_range_iff (fs : Filesystem) (calls : List FsCall) :
    Along step AccessesInRange (fsInit fs) calls ↔
      Along step InBounds (fsInit fs) calls :=
  along_iff_along step (I := Sound) (fun _ call hs => hs.inRange_iff call)
    (fun _ _ hs hin => hs.step hin) (sound_fsInit fs) calls

/-- `fs_read(-1, buffer, 1)`: the test lets a negative descriptor pass. -/
theorem fs_read_negative_descriptor :
    ¬ Along step AccessesInRange
      (fsInit bss) [.read (-1) 1] := by
  rintro ⟨hread, -⟩
  have hpos := ((sound_fsInit _).read_inRange_iff (-1) 1).mp hread
  omega

end Filesystem

end MinimalistOS
