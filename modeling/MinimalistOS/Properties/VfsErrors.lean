import MinimalistOS.Kernel.Syscall
import MinimalistOS.Properties.Vfs

/-!
# What a negative result of a descriptor call says

* `VfsRequest.TellsFailure` — the error result says that the call failed, and only that
* `File.toRead_neg_iff` — how a read of the file comes to a negative count
* `errors_tell_failure_iff` — exactly which calls have a result that tells

Positions and counts are unsigned words, and come back in a signed one that also carries the error.
-/

namespace MinimalistOS

open Infra

/-- A call on a descriptor with a position or a count. -/
inductive VfsRequest where
  | sysSeek (fd : Int) (position : Word)
  | seek (fd : Int) (offset : Word)
  | read (fd : Int) (count : Word)
  | write (fd : Int) (count : Word)
  deriving DecidableEq, Repr

namespace VfsRequest

def descriptor : VfsRequest → Int
  | .sysSeek fd _ => fd
  | .seek fd _ => fd
  | .read fd _ => fd
  | .write fd _ => fd

/-- The error result says that the call failed, and only that. For `sys_seek` this is `SYS_ERROR`,
for the others a negative number, after which the table is as it was. -/
def TellsFailure (t : Descriptors) : VfsRequest → Prop
  | .sysSeek fd position => (MinimalistOS.sysSeek t fd position).2 = sysError ↔ ¬ IsOpen t fd
  | .seek fd offset => (fsSeek t fd offset).2 < 0 ↔ ¬ IsOpen t fd ∧ (fsSeek t fd offset).1 = t
  | .read fd count =>
    (fsRead sampleFile t fd count).2.2.2 < 0 ↔
      ¬ IsOpen t fd ∧ (fsRead sampleFile t fd count).1 = t
  | .write fd count => (fsWrite t fd count).2 < 0 ↔ ¬ IsOpen t fd ∧ (fsWrite t fd count).1 = t

/-- The position or the count is not taken for an error. A read inside the file must not wrap: then
it is cut to the bytes that are left. -/
def Fits (t : Descriptors) : VfsRequest → Prop
  | .sysSeek _ position => position.toNat < 2 ^ 31
  | .seek _ offset => offset.toNat < 2 ^ 31
  | .read fd count =>
    (slot t fd.toNat).offset.toNat < sampleFile.size.toNat →
      (slot t fd.toNat).offset.toNat + count.toNat < 2 ^ 32
  | .write _ count => count.toNat < 2 ^ 31

end VfsRequest

/-! ## Signs -/

theorem not_toInt_neg_iff {x : Word} : ¬ x.toInt < 0 ↔ x.toNat < 2 ^ 31 := by
  rw [BitVec.toInt_neg_iff]
  omega

/-- `sys_seek` hands on what is not negative, and `SYS_ERROR` is not among it. -/
theorem sysSeek_eq_sysError_iff (t : Descriptors) (fd : Int) (position : Word) :
    (sysSeek t fd position).2 = sysError ↔ (fsSeek t fd position).2 < 0 := by
  unfold sysSeek
  split
  · next hpos =>
    refine iff_of_false ?_ (by omega)
    unfold fsSeek at hpos ⊢
    split at hpos
    · rw [if_pos ‹_›, BitVec.ofInt_toInt]
      rintro rfl
      simp [sysError] at hpos
    · simp at hpos
  · next hneg => exact iff_of_true rfl (by omega)

/-- A read gets a negative count exactly when it starts inside the file and its end wraps. -/
theorem File.toRead_neg_iff {file : File} (hfile : file.size.toNat < 2 ^ 31) (offset count : Word) :
    (file.toRead offset count).toInt < 0 ↔
      offset.toNat < file.size.toNat ∧ 2 ^ 32 ≤ offset.toNat + count.toNat := by
  by_cases hwraps : offset.toNat + count.toNat < 2 ^ 32
  · refine iff_of_false ?_ (by omega)
    rw [not_toInt_neg_iff, file.toNat_toRead hwraps]
    omega
  · have hsum : (offset + count).toNat = offset.toNat + count.toNat - 2 ^ 32 := by
      bv_omega
    unfold File.toRead
    split_ifs with hend hcut
    · rw [BitVec.le_def] at hend
      exact iff_of_false (by decide) (by omega)
    · -- the sum has wrapped to less than the offset
      rw [BitVec.le_def, Nat.not_le] at hend
      rw [BitVec.lt_def, hsum] at hcut
      have hcount := count.isLt
      omega
    · rw [BitVec.le_def, Nat.not_le] at hend
      rw [BitVec.toInt_neg_iff]
      omega

/-! ## An open descriptor -/

variable {t : Descriptors} {fd : Int}

theorem IsOpen.fsSeek_snd (h : IsOpen t fd) (offset : Word) :
    (fsSeek t fd offset).2 = offset.toInt := by
  rw [fsSeek, if_pos h]

theorem IsOpen.fsWrite_snd (h : IsOpen t fd) (count : Word) :
    (fsWrite t fd count).2 = count.toInt := by
  rw [fsWrite, if_pos h]

theorem IsOpen.fsRead_result (h : IsOpen t fd) (file : File) (count : Word) :
    (fsRead file t fd count).2.2.2 = (file.toRead (slot t fd.toNat).offset count).toInt := by
  rw [fsRead, if_pos h]

/-- Open, a call does not fail: its result tells when it is not negative. -/
theorem IsOpen.tells_iff (h : IsOpen t fd) (result : Int) (t' : Descriptors) :
    (result < 0 ↔ ¬ IsOpen t fd ∧ t' = t) ↔ ¬ result < 0 :=
  iff_false_right fun hfailed => hfailed.1 h

/-- Open, a call tells exactly when its argument fits. -/
theorem VfsRequest.tellsFailure_of_isOpen {r : VfsRequest} (h : IsOpen t r.descriptor) :
    r.TellsFailure t ↔ r.Fits t := by
  cases r with
  | sysSeek fd position =>
    have hopen : IsOpen t fd := h
    rw [TellsFailure, sysSeek_eq_sysError_iff, iff_false_right (not_not_intro hopen),
      hopen.fsSeek_snd, not_toInt_neg_iff, Fits]
  | seek fd offset =>
    have hopen : IsOpen t fd := h
    rw [TellsFailure, hopen.tells_iff, hopen.fsSeek_snd, not_toInt_neg_iff, Fits]
  | read fd count =>
    have hopen : IsOpen t fd := h
    rw [TellsFailure, hopen.tells_iff, hopen.fsRead_result, File.toRead_neg_iff (by decide),
      not_and, Nat.not_le, Fits]
  | write fd count =>
    have hopen : IsOpen t fd := h
    rw [TellsFailure, hopen.tells_iff, hopen.fsWrite_snd, not_toInt_neg_iff, Fits]

/-- Not open, every call fails, says so and does nothing. -/
theorem VfsRequest.tellsFailure_of_not_isOpen {r : VfsRequest} (h : ¬ IsOpen t r.descriptor) :
    r.TellsFailure t := by
  cases r with
  | sysSeek fd position =>
    have hclosed : ¬ IsOpen t fd := h
    refine iff_of_true ?_ hclosed
    rw [sysSeek_eq_sysError_iff, fsSeek, if_neg hclosed]
    simp
  | seek fd offset =>
    have hclosed : ¬ IsOpen t fd := h
    rw [TellsFailure, fsSeek, if_neg hclosed]
    exact iff_of_true (by simp) ⟨hclosed, rfl⟩
  | read fd count =>
    have hclosed : ¬ IsOpen t fd := h
    rw [TellsFailure, fsRead, if_neg hclosed]
    exact iff_of_true (by simp) ⟨hclosed, rfl⟩
  | write fd count =>
    have hclosed : ¬ IsOpen t fd := h
    rw [TellsFailure, fsWrite, if_neg hclosed]
    exact iff_of_true (by simp) ⟨hclosed, rfl⟩

/-! ## All calls -/

/--
**An error result tells of a failure exactly when no result of a success looks like one.**

In every state of the descriptors, for every call: the descriptor is not open, or the position or
count of a seek or a write is below 2^31, or the read does not start inside the file and wrap.
-/
theorem errors_tell_failure_iff (t : Descriptors) (r : VfsRequest) :
    r.TellsFailure t ↔ ¬ IsOpen t r.descriptor ∨ r.Fits t := by
  by_cases hopen : IsOpen t r.descriptor
  · rw [VfsRequest.tellsFailure_of_isOpen hopen, or_iff_right (not_not_intro hopen)]
  · exact iff_of_true (VfsRequest.tellsFailure_of_not_isOpen hopen) (.inl hopen)

/-- A seek to 2^31 succeeds, and `sys_seek` answers `SYS_ERROR`. -/
theorem sys_seek_error_of_success :
    IsOpen (fsOpen (fsInit default)).1 0 ∧
    (slot (sysSeek (fsOpen (fsInit default)).1 0 0x80000000).1 0).offset = 0x80000000 ∧
    ¬ (VfsRequest.sysSeek 0 0x80000000).TellsFailure (fsOpen (fsInit default)).1 := by
  have hopen : IsOpen (fsOpen (fsInit default)).1 0 := by
    have h := isOpen_fsOpen (t := fsInit default) (Int.le_of_eq (fsOpen_fsInit default).symm)
    rwa [fsOpen_fsInit] at h
  refine ⟨hopen, (hopen.seek 0x80000000).2, ?_⟩
  rw [VfsRequest.tellsFailure_of_isOpen hopen]
  simp [VfsRequest.Fits]

end MinimalistOS
