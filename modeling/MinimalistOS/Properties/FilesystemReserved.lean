import MinimalistOS.Properties.FilesystemRuns

/-!
# The reserved blocks of the file system

* `Filesystem.MetadataReserved` — the first four blocks are taken, and no file starts in one
* `Filesystem.Sound.staysInData_iff` — where a write ends, against the condition of `Sound.step`
* `fs_metadata_reserved` — every run whose writes end inside `fs.data`

`free_block` takes every block. What is freed starts with the first block of a file, so the reserved
blocks are safe as long as no file starts in one of them; and because block 0 stays taken,
`alloc_block` means "none" by its 0.
-/

namespace MinimalistOS

open Infra

namespace Filesystem

/-- The first four blocks are taken and no file starts there; the table is not overfull; and
`alloc_block` returns 0 exactly when every block is taken. -/
structure MetadataReserved (fs : Filesystem) : Prop where
  metadata : ∀ k < 4, Bitmap.mem fs.bitmap k = true
  start : ∀ i < fs.fileCount.toNat, 4 ≤ (fs.files i).startBlock.toNat ∧
    (fs.files i).startBlock.toNat < 2048
  count_le : fs.fileCount.toNat ≤ fsMaxFiles
  full_iff : (allocBlock fs.bitmap).2 = 0 ↔ ∀ k < 2048, Bitmap.mem fs.bitmap k = true

/-- A write has a descriptor that is not negative, and copies nothing past the end of `fs.data`. -/
def StaysInData (fs : Filesystem) : FsCall → Prop
  | .write fd buffer count => 0 ≤ fd ∧ ∀ first n : Word,
    FsAccess.bytes first n ∈ (fsWrite fs fd buffer count).2.1 → first.toNat + n.toNat ≤ fsSize
  | _ => True

/-- With block 0 taken, the 0 of `alloc_block` is never a block. -/
theorem allocBlock_eq_zero_iff {bitmap : Vector Word 64} (hzero : Bitmap.mem bitmap 0 = true) :
    (allocBlock bitmap).2 = 0 ↔ ∀ k < 2048, Bitmap.mem bitmap k = true := by
  rcases allocBlock_cases bitmap with ⟨k, hk, hfree, -, heq⟩ | ⟨hall, heq⟩
  · rw [heq]
    refine iff_of_false ?_ fun hall => ?_
    · rw [ofNat_block_eq_zero hk]
      rintro rfl
      rw [hzero] at hfree
      cases hfree
    · rw [hall k hk] at hfree
      cases hfree
  · rw [heq]
    exact iff_of_true rfl hall

theorem Sound.metadataReserved {fs : Filesystem} (h : fs.Sound) : fs.MetadataReserved where
  metadata := h.reserved
  start := h.start
  count_le := h.count_le
  full_iff := allocBlock_eq_zero_iff (h.reserved 0 (by decide))

/-- For a write, to stay in `fs.data` is to be refused, to run out of space or to have the room. -/
theorem Sound.staysInData_iff {fs : Filesystem} (h : fs.Sound) (fd : Int) (buffer : Nat → Byte)
    (count : Word) :
    fs.StaysInData (.write fd buffer count) ↔ fs.InBounds (.write fd buffer count) := by
  constructor
  · rintro ⟨hpos, hdata⟩
    rcases fsWrite_cases fs fd buffer count with ⟨hfd, -⟩ | ⟨-, hfull, -⟩ | ⟨hfd, -, heq⟩
    · exact .inl ((h.invalid_iff fd).mp hfd)
    · exact .inr ⟨hpos, .inl ((h.allocBlocks_failed_iff fd count).mp hfull)⟩
    · rcases h.index_of_valid hfd with hneg | ⟨i, hi, rfl⟩
      · omega
      · rw [heq] at hdata
        have hend := hdata _ _ (List.mem_cons_of_mem _ List.mem_cons_self)
        rw [h.toNat_fileEnd hi] at hend
        exact .inr ⟨hpos, .inr hend⟩
  · intro hin
    have hpos : 0 ≤ fd := by
      rcases hin with hge | ⟨hpos, -⟩
      · omega
      · exact hpos
    refine ⟨hpos, fun first n hmem => ?_⟩
    rcases (h.write_inRange_iff fd buffer count).mpr hin with ⟨-, hnil⟩ | hall
    · change (fsWrite fs fd buffer count).2.1 = [] at hnil
      rw [hnil] at hmem
      cases hmem
    · exact hall _ hmem

/-- **One call** whose copy ends inside `fs.data` keeps the files there. -/
theorem Sound.step_of_staysInData {fs : Filesystem} (h : fs.Sound) {call : FsCall}
    (hstays : fs.StaysInData call) : (fs.step call).1.Sound := by
  cases call with
  | create filename type =>
    have hin : fs.InBounds (.create filename type) := trivial
    exact h.step hin
  | delete filename =>
    have hin : fs.InBounds (.delete filename) := trivial
    exact h.step hin
  | open' filename mode =>
    have hin : fs.InBounds (.open' filename mode) := trivial
    exact h.step hin
  | close fd => exact h
  | read fd count => exact h
  | write fd buffer count => exact h.write ((h.staysInData_iff fd buffer count).mp hstays)
  | seek fd position => exact h

/--
**The metadata blocks are never allocated and never freed.**

After `fs_init` and any calls, of which the writes have descriptors that are not negative and copy
nothing past the end of `fs.data`: the first four blocks are taken, no file starts in one of them,
the table has at most 64 files, and `alloc_block` returns 0 if and only if all blocks are taken.
-/
theorem fs_metadata_reserved (fs : Filesystem) {calls : List FsCall}
    (hcalls : Along step StaysInData (fsInit fs) calls) :
    (run step (fsInit fs) calls).MetadataReserved :=
  (inv_run step (I := Sound) (fun _ _ h hstays => h.step_of_staysInData hstays) (sound_fsInit fs)
    hcalls).metadataReserved

/-- A kilobyte is written to `test.txt`, and the file is deleted with the blocks that it takes. -/
theorem fs_metadata_reserved_overrun :
    (run step (fsInit bss) [.write 1 (fun _ => 0x41) 1024, .delete testName]).MetadataReserved :=
  fs_metadata_reserved bss
    ⟨((sound_fsInit bss).staysInData_iff 1 _ 1024).mpr
      (.inr ⟨by decide, .inr (room_overrun bss)⟩), trivial, trivial⟩

end Filesystem

end MinimalistOS
