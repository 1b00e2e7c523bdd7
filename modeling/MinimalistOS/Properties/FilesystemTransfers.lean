import MinimalistOS.Properties.FilesystemRuns

/-!
# What a transfer leaves, and where it starts

* `Sound.write_unchanged_iff` — a write that returns `-1` leaves the file system alone when it had
  no block to take
* `failed_write_no_effect_iff` — the same in every state that a run in bounds reaches
* `read_after_seek` — a read starts at the first byte, whatever `fs_seek` said before

`fs_write` takes its blocks one at a time and does not give them back when there are too few.
`fs_seek` checks the position and keeps it nowhere.
-/

namespace MinimalistOS

open Infra

namespace Filesystem

/-! ## A write that fails -/

/-- A state that is reached after `fs_init` by calls that stay inside the arrays. -/
def Reachable (fs : Filesystem) : Prop :=
  ∃ fs₀ calls, Along step InBounds (fsInit fs₀) calls ∧ run step (fsInit fs₀) calls = fs

theorem Reachable.sound {fs : Filesystem} (h : fs.Reachable) : fs.Sound := by
  obtain ⟨fs₀, calls, hin, rfl⟩ := h
  exact inv_run step (fun _ _ hs hcall => hs.step hcall) (sound_fsInit fs₀) hin

/-- The blocks that are free. -/
def blocksLeft (fs : Filesystem) : Nat := 2048 - takenBlocks fs.bitmap

/-- The loop of `fs_write` changes the bitmap, unless it has nothing to do or nothing to take. -/
theorem allocBlocks_eq_self_iff (bitmap : Vector Word 64) (n : Nat) :
    (allocBlocks bitmap n).1 = bitmap ↔ n = 0 ∨ takenBlocks bitmap = 2048 := by
  cases n with
  | zero => exact iff_of_true rfl (Or.inl rfl)
  | succ n =>
    rw [allocBlocks]
    rcases allocBlock_cases bitmap with ⟨k, hk, hfree, -, heq⟩ | ⟨hfull, heq⟩
    · have hcard := takenBlocks_insert hk hfree
      have hle := takenBlocks_le (Bitmap.insert bitmap k)
      refine iff_of_false (fun hsame => ?_) (by omega)
      have hmore : takenBlocks bitmap
          < takenBlocks (if (allocBlock bitmap).2 = 0 then ((allocBlock bitmap).1, false)
              else allocBlocks (allocBlock bitmap).1 n).1 := by
        rw [heq]
        split
        · simp only
          omega
        · have hmono := (takenBlocks_allocBlocks n (Bitmap.insert bitmap k)).1
          simp only
          omega
      rw [hsame] at hmore
      exact Nat.lt_irrefl _ hmore
    · rw [heq, if_pos rfl]
      exact iff_of_true rfl (Or.inr ((takenBlocks_eq_iff bitmap).mpr hfull))

theorem toNat_blocksFor (size : Word) :
    (blocksFor size).toNat = (size.toNat + 511) % 2 ^ 32 / 512 := by
  have hsum : size + blockSize - 1 = size + 511 := by
    unfold blockSize
    bv_omega
  unfold blocksFor
  rw [hsum, BitVec.toNat_udiv, BitVec.toNat_add]
  rfl

/-- With the largest count the sum wraps, and no block seems to be needed. -/
theorem newBlocks_max {file : FileEntry} (hsize : file.size.toNat ≤ fsSize) :
    file.newBlocks 0xFFFFFFFF = 0 := by
  unfold fsSize at hsize
  unfold FileEntry.newBlocks
  rw [toNat_blocksFor, toNat_blocksFor, BitVec.toNat_add]
  show ((file.size.toNat + 4294967295) % 2 ^ 32 + 511) % 2 ^ 32 / 512
    - (file.size.toNat + 511) % 2 ^ 32 / 512 = 0
  omega

theorem toInt_eq_neg_one_iff (count : Word) : count.toInt = -1 ↔ count = 0xFFFFFFFF := by
  rw [← BitVec.toInt_inj]
  exact Iff.rfl

/-- **When a write that returns `-1` has no effect.** -/
theorem Sound.write_unchanged_iff {fs : Filesystem} (h : fs.Sound) {i : Nat}
    (hi : i < fs.fileCount.toNat) (buffer : Nat → Byte) (count : Word) :
    ((fsWrite fs i buffer count).2.2 = -1 → (fsWrite fs i buffer count).1 = fs) ↔
      count ≠ 0xFFFFFFFF ∧
        (fs.blocksLeft = 0 ∨ (fs.files i).newBlocks count ≤ fs.blocksLeft) := by
  have hvalid := invalid_of_lt hi h.count_le
  have hle := takenBlocks_le fs.bitmap
  have hsize : (fs.files i).size.toNat ≤ fsSize := (Nat.le_add_left _ _).trans (h.fits i hi)
  rcases fsWrite_cases fs i buffer count with ⟨hinvalid, -⟩ | ⟨-, hfailed, heq⟩ | ⟨-, hok, heq⟩
  · rw [hvalid] at hinvalid
    cases hinvalid
  · have hspace : fs.blocksLeft < (fs.files i).newBlocks count :=
      (h.allocBlocks_failed_iff i count).mp hfailed
    have hmax : count ≠ 0xFFFFFFFF := by
      rintro rfl
      rw [newBlocks_max hsize] at hspace
      exact Nat.not_lt_zero _ hspace
    have hbitmap := allocBlocks_eq_self_iff fs.bitmap ((fs.files i).newBlocks count)
    have hleft : fs.blocksLeft = 0 ↔ takenBlocks fs.bitmap = 2048 := by
      unfold blocksLeft
      omega
    rw [heq]
    constructor
    · intro hsame
      have hsame' := congrArg Filesystem.bitmap (hsame rfl)
      refine ⟨hmax, Or.inl (hleft.mpr ((hbitmap.mp hsame').resolve_left ?_))⟩
      omega
    · rintro ⟨-, hnone | hfits⟩ _
      · have hsame := hbitmap.mpr (Or.inr (hleft.mp hnone))
        simp only [hsame]
      · exact absurd hfits (Nat.not_le.mpr hspace)
  · have hfits : (fs.files i).newBlocks count ≤ fs.blocksLeft :=
      (allocBlocks_ok_iff _ (h.reserved 0 (by omega))).mp hok
    have hret : (fsWrite fs i buffer count).2.2 = -1 ↔ count = 0xFFFFFFFF := by
      rw [heq]
      exact toInt_eq_neg_one_iff count
    rw [hret]
    constructor
    · refine fun hsame => ⟨?_, Or.inr hfits⟩
      rintro rfl
      -- the size has changed, by one less than `2 ^ 32`
      have hfile := congrArg (fun fs => (fs.files i).size) (hsame rfl)
      rw [heq] at hfile
      simp only [files_append, if_true] at hfile
      bv_omega
    · exact fun hne hmax => absurd hmax hne.1

/--
**A write that fails has no effect exactly when it has no block to take.**

In every state reached after `fs_init` by calls that stay inside the arrays, for the descriptor of
every file, every buffer and every count: if `fs_write` returns `-1` then the bitmap, the table and
the data are as before, if and only if the count is not the one that is `-1` itself, and either no
block is free or as many are free as the write needs.
-/
theorem failed_write_no_effect_iff {fs : Filesystem} (h : fs.Reachable) {fd : Int} (hfd : 0 ≤ fd)
    (hlt : fd < fs.fileCount.toNat) (buffer : Nat → Byte) (count : Word) :
    ((fsWrite fs fd buffer count).2.2 = -1 → (fsWrite fs fd buffer count).1 = fs) ↔
      count ≠ 0xFFFFFFFF ∧
        (fs.blocksLeft = 0 ∨ (fs.files fd).newBlocks count ≤ fs.blocksLeft) := by
  obtain ⟨i, rfl⟩ := Int.eq_ofNat_of_zero_le hfd
  exact h.sound.write_unchanged_iff (by omega) buffer count

theorem reachable_fsInit (fs : Filesystem) : (fsInit fs).Reachable :=
  ⟨fs, [], trivial, run_nil step (fsInit fs)⟩

/-- The file table of `fs_init` has an entry for `test.txt`. -/
theorem one_lt_fileCount_fsInit (fs : Filesystem) : 1 < (fsInit fs).fileCount.toNat := by
  rw [fileCount_fsInit]
  decide

/-- Right after `fs_init`, for `test.txt`. -/
theorem failed_write_no_effect_boot :
    (fsInit bss).Reachable ∧ (1 : Int) < (fsInit bss).fileCount.toNat ∧
      (((fsWrite (fsInit bss) 1 (fun _ => 0x41) 1).2.2 = -1 →
          (fsWrite (fsInit bss) 1 (fun _ => 0x41) 1).1 = fsInit bss) ↔
        (1 : Word) ≠ 0xFFFFFFFF ∧ ((fsInit bss).blocksLeft = 0 ∨
          ((fsInit bss).files 1).newBlocks 1 ≤ (fsInit bss).blocksLeft)) := by
  have hlt : (1 : Int) < (fsInit bss).fileCount.toNat :=
    Int.ofNat_lt.mpr (one_lt_fileCount_fsInit bss)
  exact ⟨reachable_fsInit bss, hlt,
    failed_write_no_effect_iff (reachable_fsInit bss) (by decide) hlt (fun _ => 0x41) 1⟩

/-- What a megabyte takes behind a text of 41 bytes. -/
theorem newBlocks_megabyte {file : FileEntry} (hsize : file.size = 41) :
    file.newBlocks 0x100000 = 2048 := by
  unfold FileEntry.newBlocks
  rw [hsize, toNat_blocksFor, toNat_blocksFor]
  decide

/-- A write that needs as many blocks as the disk has takes those that are free. -/
theorem Sound.write_takes_blocks {fs : Filesystem} (h : fs.Sound) {i : Nat}
    (hi : i < fs.fileCount.toNat) (hfree : takenBlocks fs.bitmap ≠ 2048) (buffer : Nat → Byte)
    {count : Word} (hneeds : (fs.files i).newBlocks count = 2048) :
    ¬ ((fsWrite fs i buffer count).2.2 = -1 → (fsWrite fs i buffer count).1 = fs) := by
  have htaken : 0 < takenBlocks fs.bitmap :=
    Finset.card_pos.mpr ⟨0, Bitmap.mem_members.mpr ⟨by decide, h.reserved 0 (by decide)⟩⟩
  have hle := takenBlocks_le fs.bitmap
  rw [h.write_unchanged_iff hi, hneeds]
  unfold blocksLeft
  rintro ⟨-, hnone | hfits⟩
  · omega
  · omega

/-- A write of one megabyte to `test.txt`: it returns `-1`, and has taken the blocks there were. -/
theorem failed_write_takes_blocks :
    ¬ ((fsWrite (fsInit bss) (1 : Nat) (fun _ => 0x41) 0x100000).2.2 = -1 →
        (fsWrite (fsInit bss) (1 : Nat) (fun _ => 0x41) 0x100000).1 = fsInit bss) := by
  have hone := one_lt_fileCount_fsInit bss
  have hsize : ((fsInit bss).files (1 : Nat)).size = 41 :=
    BitVec.eq_of_toNat_eq (stores_fsInit bss).2.1.size
  have hfree : takenBlocks (fsInit bss).bitmap ≠ 2048 := by
    rw [Ne, takenBlocks_eq_iff, bitmap_fsInit]
    intro hall
    exact absurd (hall 9 (by decide)) (by decide)
  exact (sound_fsInit bss).write_takes_blocks hone hfree _ (newBlocks_megabyte hsize)

/-! ## A read after a seek -/

/-- The bytes of a file. -/
def contents (fs : Filesystem) (i : Nat) : List Byte :=
  (List.range (fs.files i).size.toNat).map fun k =>
    fs.data ((fs.files i).startBlock * blockSize + BitVec.ofNat 32 k)

theorem stores_contents (fs : Filesystem) (i : Nat) : fs.Stores i (fs.contents i) where
  size := by rw [contents, List.length_map, List.length_range]
  data k hk := by
    unfold contents at hk ⊢
    rw [List.getD_eq_getElem?_getD, List.getElem?_eq_getElem hk, List.getElem_map,
      List.getElem_range]
    rfl

/-- What `Stores` says of a file is what there is. -/
theorem Stores.contents_eq {fs : Filesystem} {i : Nat} {bytes : List Byte}
    (h : fs.Stores i bytes) : fs.contents i = bytes := by
  have hlength : (fs.contents i).length = bytes.length :=
    (stores_contents fs i).size.symm.trans h.size
  refine List.ext_getElem hlength fun k hk hk' => ?_
  simp only [contents, List.getElem_map, List.getElem_range]
  rw [h.data k hk', List.getD_eq_getElem?_getD, List.getElem?_eq_getElem hk']
  rfl

/-- A seek answers, and what is read after it is read from the same state. -/
theorem step_seek (fs : Filesystem) (fd : Int) (position : Word) :
    (step fs (.seek fd position)).1 = fs ∧
      (step fs (.seek fd position)).2.ret = fsSeek fs fd position := ⟨rfl, rfl⟩

theorem step_read (fs : Filesystem) (fd : Int) (count : Word) :
    ((step fs (.read fd count)).2.bytes, (step fs (.read fd count)).2.ret)
      = (fsRead fs fd count).2 := rfl

/-- `fs_seek` returns the position exactly when it is one in the file, or right behind it. -/
theorem Sound.seek_eq_iff {fs : Filesystem} (h : fs.Sound) {i : Nat} (hi : i < fs.fileCount.toNat)
    (position : Word) :
    fsSeek fs i position = position.toNat ↔ position.toNat ≤ (fs.contents i).length := by
  have hfits := h.fits i hi
  unfold fsSize at hfits
  rw [← (stores_contents fs i).size, fsSeek, invalid_of_lt hi h.count_le,
    if_neg Bool.false_ne_true]
  by_cases hlt : (fs.files i).size < position
  · rw [if_pos hlt]
    rw [BitVec.lt_def] at hlt
    omega
  · rw [if_neg hlt]
    rw [BitVec.lt_def, Nat.not_lt] at hlt
    rw [BitVec.toInt_eq_toNat_of_lt (by omega)]
    exact iff_of_true rfl hlt

/--
**A read starts at the first byte of the file.**

In every state reached after `fs_init` by calls that stay inside the arrays, for the descriptor of
every file, every position for which `fs_seek` returns the position, and every count: the
`fs_read` that follows returns the first `min(count, size)` bytes of the file, whatever the
position.
-/
theorem read_after_seek {fs : Filesystem} (h : fs.Reachable) {i : Nat}
    (hi : i < fs.fileCount.toNat) {position : Word}
    (hseek : (step fs (.seek i position)).2.ret = position.toNat) (count : Word) :
    position.toNat ≤ (fs.contents i).length ∧
      (step (step fs (.seek i position)).1 (.read i count)).2.bytes
        = (fs.contents i).take count.toNat ∧
      (step (step fs (.seek i position)).1 (.read i count)).2.ret
        = (min count.toNat (fs.contents i).length : Nat) := by
  obtain ⟨hstate, hret⟩ := step_seek fs i position
  have hread := (stores_contents fs i).read h.sound hi count
  rw [hret] at hseek
  rw [← step_read, Prod.mk.injEq] at hread
  rw [hstate]
  exact ⟨(h.sound.seek_eq_iff hi position).mp hseek, hread⟩

/-- After `fs_init`, `fs_seek(1, 7)` returns `7`. -/
theorem seek_boot : (step (fsInit bss) (.seek (1 : Nat) 7)).2.ret = (7 : Word).toNat := by
  have hone := one_lt_fileCount_fsInit bss
  rw [(step_seek (fsInit bss) (1 : Nat) 7).2, (sound_fsInit bss).seek_eq_iff hone,
    (stores_fsInit bss).2.1.contents_eq]
  decide

theorem read_after_seek_boot :
    (fsInit bss).Reachable ∧ (1 : Nat) < (fsInit bss).fileCount.toNat ∧
      (step (fsInit bss) (.seek (1 : Nat) 7)).2.ret = (7 : Word).toNat ∧
      (step (step (fsInit bss) (.seek (1 : Nat) 7)).1 (.read (1 : Nat) 5)).2.bytes
        = ((fsInit bss).contents 1).take 5 := by
  have hone := one_lt_fileCount_fsInit bss
  exact ⟨reachable_fsInit bss, hone, seek_boot,
    (read_after_seek (reachable_fsInit bss) hone seek_boot 5).2.1⟩

/-- The five bytes that are read after it are `Hello` and not the ones from position `7` on. -/
theorem read_ignores_seek :
    (step (fsInit bss) (.seek (1 : Nat) 7)).2.ret = (7 : Word).toNat ∧
      (step (step (fsInit bss) (.seek (1 : Nat) 7)).1 (.read (1 : Nat) 5)).2.bytes
        ≠ (((fsInit bss).contents 1).drop 7).take 5 := by
  have hone := one_lt_fileCount_fsInit bss
  have htext := (stores_fsInit bss).2.1
  have hread := htext.read (sound_fsInit bss) hone 5
  rw [← step_read, Prod.mk.injEq] at hread
  refine ⟨seek_boot, ?_⟩
  rw [(step_seek (fsInit bss) (1 : Nat) 7).1, htext.contents_eq, hread.1]
  decide

end Filesystem

end MinimalistOS
