import MinimalistOS.Infra.Run
import MinimalistOS.Infra.Slots
import MinimalistOS.Infra.Word

/-!
# `fs/vfs_simple.c`: file descriptors

Sixteen descriptors with an offset each. The source has one file behind every descriptor, a
literal of sixteen bytes; here the file is an argument of `fs_read`, and that literal is
`sampleFile`. A path is not looked at.
-/

namespace MinimalistOS

open Infra

/-- `MAX_OPEN_FILES`. -/
def maxOpenFiles : Nat := 16

/-- `simple_fd_t`, without the two function pointers, which nothing calls. -/
structure SimpleFd where
  inode : Word
  offset : Word
  inUse : Byte
  deriving DecidableEq, Repr, Inhabited

/-- `file_descriptors`. -/
abbrev Descriptors := Vector SimpleFd 16

/-- What a descriptor reads from: the bytes, and how many of them there are. What lies behind the
last one is memory all the same. -/
structure File where
  bytes : Nat → Byte
  size : Word

/-- `"Hello from VFS!\n"`. -/
def sampleFile : File where
  bytes k := [0x48, 0x65, 0x6C, 0x6C, 0x6F, 0x20, 0x66, 0x72, 0x6F, 0x6D, 0x20, 0x56, 0x46, 0x53,
    0x21, 0x0A].getD k 0
  size := 16

/-- The descriptor is open. -/
def IsOpen (t : Descriptors) (fd : Int) : Prop :=
  0 ≤ fd ∧ fd < maxOpenFiles ∧ (slot t fd.toNat).inUse ≠ 0

instance (t : Descriptors) (fd : Int) : Decidable (IsOpen t fd) :=
  inferInstanceAs (Decidable (_ ∧ _ ∧ _))

def fsInit (t : Descriptors) : Descriptors :=
  t.map fun d => { d with inUse := 0, inode := 0, offset := 0 }

def fsOpen (t : Descriptors) : Descriptors × Int :=
  match findSlot t (fun d => d.inUse == 0) 0 maxOpenFiles with
  | none => (t, -1)
  | some i => (t.setIfInBounds i { inode := 1, offset := 0, inUse := 1 }, i)

def fsClose (t : Descriptors) (fd : Int) : Descriptors × Int :=
  if IsOpen t fd then (modifySlot t fd.toNat fun d => { d with inUse := 0 }, 0) else (t, -1)

def fsSeek (t : Descriptors) (fd : Int) (offset : Word) : Descriptors × Int :=
  if IsOpen t fd then (modifySlot t fd.toNat fun d => { d with offset := offset }, offset.toInt)
  else (t, -1)

/-- How many bytes a read of `count` bytes gets at an offset. -/
def File.toRead (file : File) (offset count : Word) : Word :=
  if file.size ≤ offset then 0
  else if file.size < offset + count then file.size - offset
  else count

/-- `fs_read`: the descriptors, the bytes it copies into the buffer and their number, and the
answer. -/
def fsRead (file : File) (t : Descriptors) (fd : Int) (count : Word) :
    Descriptors × (Nat → Byte) × Word × Int :=
  if IsOpen t fd then
    let offset := (slot t fd.toNat).offset
    let toRead := file.toRead offset count
    (modifySlot t fd.toNat fun d => { d with offset := d.offset + toRead },
      fun k => file.bytes (offset.toNat + k), toRead, toRead.toInt)
  else (t, fun _ => 0, 0, -1)

/-- `fs_write`, which only moves the offset: the buffer is not looked at. -/
def fsWrite (t : Descriptors) (fd : Int) (count : Word) : Descriptors × Int :=
  if IsOpen t fd then
    (modifySlot t fd.toNat fun d => { d with offset := d.offset + count }, count.toInt)
  else (t, -1)

/-! ## Calls -/

inductive VfsCall where
  | open
  | close (fd : Int)
  | seek (fd : Int) (offset : Word)
  | read (fd : Int) (count : Word)
  deriving DecidableEq, Repr

/-- What a call returns, and the bytes it leaves in the caller's buffer. -/
structure VfsAnswer where
  result : Int
  bytes : List Byte
  deriving DecidableEq, Repr

def vfsStep (file : File) (t : Descriptors) : VfsCall → Descriptors × VfsAnswer
  | .open => ((fsOpen t).1, ⟨(fsOpen t).2, []⟩)
  | .close fd => ((fsClose t fd).1, ⟨(fsClose t fd).2, []⟩)
  | .seek fd offset => ((fsSeek t fd offset).1, ⟨(fsSeek t fd offset).2, []⟩)
  | .read fd count =>
    let r := fsRead file t fd count
    (r.1, ⟨r.2.2.2, (List.range r.2.2.1.toNat).map r.2.1⟩)

/-! ## An open descriptor -/

theorem File.toNat_toRead_le (file : File) (offset count : Word) :
    (file.toRead offset count).toNat ≤ count.toNat := by
  unfold File.toRead
  split
  · exact Nat.zero_le _
  · next hin =>
    split
    · next hcut =>
      rw [BitVec.le_def, Nat.not_le] at hin
      rw [BitVec.lt_def, BitVec.toNat_add] at hcut
      have hcount := count.isLt
      bv_omega
    · exact Nat.le_refl _

theorem IsOpen.toNat_lt {t : Descriptors} {fd : Int} (h : IsOpen t fd) : fd.toNat < 16 := by
  have := h.2.1
  unfold maxOpenFiles at this
  omega

/-- A descriptor that `fs_open` returns is open. -/
theorem isOpen_fsOpen {t : Descriptors} (h : 0 ≤ (fsOpen t).2) :
    IsOpen (fsOpen t).1 (fsOpen t).2 := by
  cases hfree : findSlot t (fun d => d.inUse == 0) 0 maxOpenFiles with
  | none =>
    simp only [fsOpen, hfree] at h
    omega
  | some i =>
    have hlt : i < maxOpenFiles := (findSlot_eq_some.mp hfree).1
    simp only [fsOpen, hfree] at h ⊢
    refine ⟨h, by omega, ?_⟩
    rw [Int.toNat_natCast, slot_setIfInBounds _ (show i < 16 from hlt), if_pos rfl]
    decide

/-- A descriptor that was given to `fs_close` is not open. -/
theorem not_isOpen_fsClose (t : Descriptors) (fd : Int) : ¬ IsOpen (fsClose t fd).1 fd := by
  unfold fsClose
  by_cases hopen : IsOpen t fd
  · rw [if_pos hopen]
    rintro ⟨-, -, hused⟩
    rw [slot_modifySlot _ hopen.toNat_lt, if_pos rfl] at hused
    exact hused rfl
  · rw [if_neg hopen]
    exact hopen

/-- A change that keeps `in_use` keeps the descriptor open. -/
theorem IsOpen.modify {t : Descriptors} {fd : Int} (h : IsOpen t fd) {f : SimpleFd → SimpleFd}
    (hf : ∀ d, (f d).inUse = d.inUse) : IsOpen (modifySlot t fd.toNat f) fd := by
  refine ⟨h.1, h.2.1, ?_⟩
  rw [slot_modifySlot _ h.toNat_lt, if_pos rfl, hf]
  exact h.2.2

theorem IsOpen.seek {t : Descriptors} {fd : Int} (h : IsOpen t fd) (offset : Word) :
    IsOpen (fsSeek t fd offset).1 fd ∧ (slot (fsSeek t fd offset).1 fd.toNat).offset = offset := by
  unfold fsSeek
  rw [if_pos h]
  refine ⟨h.modify fun _ => rfl, ?_⟩
  rw [slot_modifySlot _ h.toNat_lt, if_pos rfl]

theorem IsOpen.read {t : Descriptors} {fd : Int} (h : IsOpen t fd) (file : File) (count : Word) :
    IsOpen (fsRead file t fd count).1 fd := by
  unfold fsRead
  rw [if_pos h]
  exact h.modify fun _ => rfl

/-- What a read right after a seek gets. -/
theorem IsOpen.read_seek {t : Descriptors} {fd : Int} (h : IsOpen t fd) (file : File)
    (offset count : Word) :
    (fsRead file (fsSeek t fd offset).1 fd count).2
      = (fun k => file.bytes (offset.toNat + k), file.toRead offset count,
          (file.toRead offset count).toInt) := by
  obtain ⟨hopen, hoffset⟩ := h.seek offset
  unfold fsRead
  rw [if_pos hopen]
  simp only [hoffset]

end MinimalistOS
