import MinimalistOS.Properties.Filesystem

/-!
# A block is left behind

* `Growing` — a new file, and the blocks that were taken for it
* `Growing.write` — a write takes what the file grows by
* `fs_block_leak` — `fs_delete` gives back one block less

`fs_create` takes the first block of a file. The writes take as many blocks as the size says, and
`fs_delete` frees as many: the first one is not among them.
-/

namespace MinimalistOS

open Infra

namespace Filesystem

/-- The writes of some buffers, one after another. -/
def writeAll (fs : Filesystem) (fd : Int) (buffers : List ((Nat → Byte) × Word)) : Filesystem :=
  buffers.foldl (fun fs b => (fsWrite fs fd b.1 b.2).1) fs

/-- The last file of the table is a new one, and a block more is taken than its size needs. -/
structure Growing (before fs : Filesystem) (filename : CString) : Prop where
  count : fs.fileCount.toNat = before.fileCount.toNat + 1
  others : ∀ i < before.fileCount.toNat, fs.nameAt i ≠ filename
  name : fs.nameAt before.fileCount.toNat = filename
  taken : takenBlocks before.bitmap + 1
    + (blocksFor (fs.files before.fileCount.toNat).size).toNat ≤ takenBlocks fs.bitmap

theorem growing_add {fs : Filesystem} {k : Nat} {filename : CString} (h : fs.CanAdd k filename)
    (hname : filename.bytes.length < 256) (type : Byte) :
    fs.Growing (fs.add k filename type) filename where
  count := toNat_fileCount_add h.room
  others i hi := by
    rw [nameAt_add, if_neg (by omega)]
    exact findFile_eq_none.mp h.new i hi
  name := by
    rw [nameAt_add, if_pos rfl]
    exact CString.truncate_eq_self.mpr (by omega)
  taken := by
    have hsize :
        (blocksFor ((fs.add k filename type).files fs.fileCount.toNat).size).toNat = 0 := by
      rw [files_add, if_pos rfl]
      show (blocksFor 0).toNat = 0
      decide
    have hcard : takenBlocks (fs.add k filename type).bitmap = takenBlocks fs.bitmap + 1 :=
      takenBlocks_insert h.block.2 h.free
    omega

/-- **A write** takes what the file grows by, or more when it fails. -/
theorem Growing.write {before fs : Filesystem} {filename : CString}
    (h : before.Growing fs filename) (buffer : Nat → Byte) (count : Word) :
    before.Growing (fsWrite fs before.fileCount.toNat buffer count).1 filename := by
  obtain ⟨hcount, hothers, hname, htaken⟩ := h
  obtain ⟨hmore, hexact⟩ := takenBlocks_allocBlocks
    ((fs.files before.fileCount.toNat).newBlocks count) fs.bitmap
  rcases fsWrite_cases fs before.fileCount.toNat buffer count with ⟨-, heq⟩ | ⟨-, -, heq⟩ |
    ⟨-, hok, heq⟩
  · rw [heq]
    exact ⟨hcount, hothers, hname, htaken⟩
  · rw [heq]
    exact ⟨hcount, hothers, hname, Nat.le_trans htaken hmore⟩
  · rw [heq]
    refine ⟨hcount, ?_, ?_, ?_⟩
    · intro i hi
      rw [nameAt_append]
      exact hothers i hi
    · rw [nameAt_append]
      exact hname
    · have hnew := hexact hok
      rw [files_append, if_pos rfl]
      show takenBlocks before.bitmap + 1
        + (blocksFor ((fs.files before.fileCount.toNat).size + count)).toNat
          ≤ takenBlocks (allocBlocks fs.bitmap _).1
      unfold FileEntry.newBlocks at hnew ⊢
      omega

theorem Growing.writeAll {before : Filesystem} {filename : CString}
    (buffers : List ((Nat → Byte) × Word)) : ∀ {fs : Filesystem}, before.Growing fs filename →
      before.Growing (fs.writeAll before.fileCount.toNat buffers) filename := by
  induction buffers with
  | nil => intro fs h; exact h
  | cons b buffers ih => intro fs h; exact ih (h.write b.1 b.2)

/-- **`fs_delete`** of the new file leaves a block taken. -/
theorem Growing.delete {before fs : Filesystem} {filename : CString}
    (h : before.Growing fs filename) :
    (fsDelete fs filename).2 = 0 ∧ (fsDelete fs filename).1.bitmap ≠ before.bitmap := by
  have hcount := h.count
  have hfind : findFile fs filename = some before.fileCount.toNat :=
    findFile_eq_some.mpr ⟨by omega, h.name, h.others⟩
  rw [fsDelete_of_found hfind]
  refine ⟨rfl, fun hsame => ?_⟩
  have htaken := h.taken
  have hfreed := takenBlocks_freeBlocks
    (blocksFor (fs.files before.fileCount.toNat).size).toNat fs.bitmap
    (fs.files before.fileCount.toNat).startBlock
  change freeBlocks fs.bitmap _ _ = before.bitmap at hsame
  rw [hsame] at hfreed
  omega

theorem delete_new {fs : Filesystem} {k : Nat} {filename : CString} (h : fs.CanAdd k filename)
    (hname : filename.bytes.length < 256) (type : Byte) (buffers : List ((Nat → Byte) × Word)) :
    (fsDelete ((fsCreate fs filename type).1.writeAll (fsCreate fs filename type).2 buffers)
        filename).2 = 0 ∧
      (fsDelete ((fsCreate fs filename type).1.writeAll (fsCreate fs filename type).2 buffers)
        filename).1.bitmap ≠ fs.bitmap := by
  rw [fsCreate_of_canAdd h]
  exact ((growing_add h hname type).writeAll buffers).delete

/-- **A block is lost** with every file that is created, written to and deleted: the bitmap is not
what it was, whatever was written. -/
theorem fs_block_leak (fs : Filesystem) {filename : CString} (hname : filename.bytes.length < 256)
    (type : Byte) (hcreate : 0 ≤ (fsCreate fs filename type).2)
    (buffers : List ((Nat → Byte) × Word)) :
    (fsDelete ((fsCreate fs filename type).1.writeAll (fsCreate fs filename type).2 buffers)
        filename).2 = 0 ∧
      (fsDelete ((fsCreate fs filename type).1.writeAll (fsCreate fs filename type).2 buffers)
        filename).1.bitmap ≠ fs.bitmap := by
  rcases fsCreate_cases fs filename type with ⟨-, -, hret⟩ | ⟨k, hadd, -⟩
  · omega
  · exact delete_new hadd hname type buffers

/-- `"a"`. -/
def aName : CString := ⟨[0x61], by simp⟩

theorem canAdd_aName : (fsInit bss).CanAdd 9 aName := canAdd_fsInit bss (by decide)

/-- `"a"`, with two bytes. -/
theorem fs_block_leak_two_bytes :
    (fsDelete ((fsCreate (fsInit bss) aName fileTypeRegular).1.writeAll
        (fsCreate (fsInit bss) aName fileTypeRegular).2 [(fun _ => 0x41, 2)]) aName).1.bitmap
      ≠ (fsInit bss).bitmap := by
  refine (fs_block_leak (fsInit bss) (by decide) fileTypeRegular ?_ _).2
  rw [fsCreate_of_canAdd canAdd_aName]
  exact Int.natCast_nonneg _

/-- `"a"`, created and deleted. -/
theorem fs_block_leak_empty_file :
    (fsCreate (fsInit bss) aName fileTypeRegular).2 = 3 ∧
      (fsDelete (fsCreate (fsInit bss) aName fileTypeRegular).1 aName).2 = 0 ∧
      (fsDelete (fsCreate (fsInit bss) aName fileTypeRegular).1 aName).1.bitmap
        ≠ (fsInit bss).bitmap := by
  have hdelete := delete_new canAdd_aName (by decide) fileTypeRegular []
  rw [writeAll, List.foldl_nil] at hdelete
  refine ⟨?_, hdelete⟩
  rw [fsCreate_of_canAdd canAdd_aName, fsInit_eq]
  rfl

end Filesystem

end MinimalistOS
