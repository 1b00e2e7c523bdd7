import MinimalistOS.Kernel.Ramfs

/-!
# Starting the file system

* `ramfsInit_of_room` — with room for the structure, `ramfs_init` fails and leaves it behind
* `not_inert` — a structure that is left behind answers
* `ramfs_init_all_or_nothing_iff` — `ramfs_init` is all or nothing exactly when the heap has no
  room for the structure

The block for the contents is eight times as large as the whole heap, so the second allocation
fails whenever the first succeeds. `ramfs_init` then returns `-1` with `ramfs` set, and the next
call takes that for an initialised file system.
-/

namespace MinimalistOS

open Infra

/-! ## All or nothing -/

/-- The file system is there. -/
def RamfsState.Ready (s : RamfsState) : Prop :=
  ∃ r, s.ramfs = some r ∧ r.magic = ramfsMagic ∧ r.fileData ≠ none

/-- Every operation on files fails and leaves memory alone. -/
structure RamfsState.Inert (s : RamfsState) : Prop where
  create : ∀ name data size, ramfsCreateFile s name data size = (s, -1)
  open' : ∀ path flags, ramfsOpen s path flags = (s, -1)
  read : ∀ inode buffer count offset, ramfsRead s inode buffer count offset = (none, -1)
  write : ∀ inode buffer count offset, ramfsWrite s inode buffer count offset = (s, none, -1)
  stat : ∀ path stat, ramfsStat s path stat = none

/-- What `ramfs_init`, called in `s`, leaves is ready if it returns `0` and inert if it returns
`-1`. -/
def AllOrNothing (s : RamfsState) : Prop :=
  ((ramfsInit s).2 = 0 → (ramfsInit s).1.Ready) ∧ ((ramfsInit s).2 = -1 → (ramfsInit s).1.Inert)

inductive RamfsInitCall where
  | init
  | mount
  deriving DecidableEq, Repr

/-- Both calls run `ramfs_init`. -/
def RamfsInitCall.exec (s : RamfsState) : RamfsInitCall → RamfsState × Int
  | .init => ramfsInit s
  | .mount => ramfsMount s

/-- The state in which nothing has been called yet. -/
def RamfsState.start (heap : Heap) (heapBase : Word) : RamfsState where
  heap := heap
  heapBase := heapBase
  ramfs := none

theorem exec_state (s : RamfsState) (call : RamfsInitCall) :
    (call.exec s).1 = (ramfsInit s).1 := by
  cases call with
  | init => rfl
  | mount =>
    show (ramfsMount s).1 = _
    rw [ramfsMount]
    split
    · rfl
    · rfl

/-! ## The ways through `ramfs_init` -/

theorem ramfsInit_of_some {s : RamfsState} {r : Ramfs} (h : s.ramfs = some r) :
    ramfsInit s = (s, 0) := by
  simp only [ramfsInit, h]

-- the result of an allocation is named before the match on it is reduced: its size is a large
-- literal that must not be unfolded
theorem ramfsInit_of_no_structure {s : RamfsState} {heap : Heap} (h : s.ramfs = none)
    (h1 : kmalloc s.heap sizeofRamfs = (heap, none)) :
    ramfsInit s = ({ s with heap := heap }, -1) := by
  unfold ramfsInit
  generalize kmalloc s.heap sizeofRamfs = allocated at h1 ⊢
  subst h1
  simp only [h]

theorem ramfsInit_of_structure {s : RamfsState} {heap : Heap} {p : Word}
    (h : s.ramfs = none) (h1 : kmalloc s.heap sizeofRamfs = (heap, some p)) :
    ramfsInit s = ramfsInitAt s p (kmalloc heap ramfsDataSize) := by
  unfold ramfsInit
  generalize kmalloc s.heap sizeofRamfs = allocated at h1 ⊢
  subst h1
  simp only [h]

/-! ## Without room -/

theorem inert_of_null {s : RamfsState} (h : s.ramfs = none) : s.Inert where
  create name data size := by simp only [ramfsCreateFile, h]
  open' path flags := by simp only [ramfsOpen, h]
  read inode buffer count offset := by simp only [ramfsRead, h]
  write inode buffer count offset := by simp only [ramfsWrite, h]
  stat path stat := by simp only [ramfsStat, h]

theorem ramfsInit_of_no_room (heap : Heap) (heapBase : Word)
    (h : heapSize < (heap.pos + sizeofRamfs).toNat) :
    ramfsInit (.start heap heapBase) = (.start heap heapBase, -1) := by
  have hnone : kmalloc heap sizeofRamfs = (heap, none) := by rw [kmalloc, if_pos h]
  exact ramfsInit_of_no_structure rfl hnone

/-! ## With room -/

theorem kmalloc_sizeofRamfs {heap : Heap} (h : ¬ heapSize < (heap.pos + sizeofRamfs).toNat) :
    kmalloc heap sizeofRamfs = (⟨heap.pos + sizeofRamfs, heap.bytes⟩, some heap.pos) := by
  have hsize : (sizeofRamfs + 3) &&& ~~~3 = sizeofRamfs := by decide
  rw [kmalloc, if_neg h, hsize]

/-- The block for the contents does not fit behind the structure. -/
theorem kmalloc_ramfsDataSize {pos : Word} (h : ¬ heapSize < pos.toNat) (bytes : Mem) :
    kmalloc ⟨pos, bytes⟩ ramfsDataSize = (⟨pos, bytes⟩, none) := by
  rw [kmalloc, if_pos]
  unfold ramfsDataSize
  unfold heapSize at h ⊢
  bv_omega

theorem ramfsInit_of_room (heap : Heap) (heapBase : Word)
    (h : ¬ heapSize < (heap.pos + sizeofRamfs).toNat) :
    ∃ heap' r, ramfsInit (.start heap heapBase)
      = ({ heap := heap', heapBase := heapBase, ramfs := some r }, -1) ∧ r.fileData = none := by
  have hfirst := kmalloc_sizeofRamfs h
  have hsecond := kmalloc_ramfsDataSize h heap.bytes
  generalize heap.pos + sizeofRamfs = pos at hfirst hsecond
  have hinit := ramfsInit_of_structure (s := .start heap heapBase) rfl hfirst
  rw [hsecond] at hinit
  exact ⟨_, _, hinit, rfl⟩

/-- No entry has a name that does not fit into an entry. -/
theorem ramfsFindFile_of_long (r : Ramfs) {name : CString} (h : 256 < name.bytes.length) :
    ramfsFindFile r name = none := by
  rw [ramfsFindFile, findSlot_eq_none]
  intro i _
  rw [Bool.eq_false_iff, Ne, RamfsFile.named_iff]
  rintro ⟨-, hname⟩
  have hle := CString.length_ofArray_le (slot r.files i).name
  rw [hname] at hle
  omega

/-- A name of 257 bytes. -/
def longName : CString where
  bytes := List.replicate 257 1
  nul_free b hb := by
    rw [List.eq_of_mem_replicate hb]
    decide

theorem longName_long : 256 < longName.bytes.length := by
  show 256 < (List.replicate 257 (1 : Byte)).length
  rw [List.length_replicate]
  omega

/-- **A structure that is left behind answers**: its first entry is either free, and can be
created, or in use, and can be read. -/
theorem not_inert {s : RamfsState} {r : Ramfs} (h : s.ramfs = some r) : ¬ s.Inert := by
  intro hinert
  by_cases hfree : (r.file 0).inUse = 0
  · have hslot : ramfsFindFreeSlot r = some 0 := by
      rw [ramfsFindFreeSlot, findSlot_eq_some]
      exact ⟨by decide, beq_iff_eq.mpr hfree, fun j hj => absurd hj (Nat.not_lt_zero j)⟩
    have hcreate := congrArg Prod.snd (hinert.create (some longName) none 0)
    rw [ramfsCreateFile_eq h, if_neg (by decide), ramfsFindFile_of_long r longName_long,
      Option.isSome_none, if_neg Bool.false_ne_true, hslot] at hcreate
    simp at hcreate
  · have hvalid : r.valid 1 = true := by
      unfold Ramfs.valid
      rw [Bool.and_eq_true, bne_iff_ne]
      exact ⟨by decide, hfree⟩
    have hend : (r.file ((1 : Word).toNat - 1)).size ≤ -1 := by
      rw [BitVec.le_def]
      bv_omega
    have hread := congrArg Prod.snd (hinert.read 1 true 0 (-1))
    rw [ramfsRead_eq h, if_pos hvalid, if_pos hend] at hread
    simp at hread

/--
**All or nothing.**

For every heap and every sequence of `ramfs_init` and `ramfs_mount` calls: each run of
`ramfs_init` in it is all or nothing exactly when the heap has no room for the structure to begin
with, or nothing is called.
-/
theorem ramfs_init_all_or_nothing_iff (heap : Heap) (heapBase : Word)
    (calls : List RamfsInitCall) :
    Along RamfsInitCall.exec (fun s _ => AllOrNothing s) (.start heap heapBase) calls ↔
      calls = [] ∨ heapSize < (heap.pos + sizeofRamfs).toNat := by
  by_cases hroom : heapSize < (heap.pos + sizeofRamfs).toNat
  · refine iff_of_true ?_ (Or.inr hroom)
    have hinit := ramfsInit_of_no_room heap heapBase hroom
    have hnothing : AllOrNothing (.start heap heapBase) := by
      rw [AllOrNothing, hinit]
      exact ⟨fun h0 => absurd h0 (by simp), fun _ => inert_of_null rfl⟩
    -- no call changes anything
    induction calls with
    | nil => trivial
    | cons call calls ih =>
      refine ⟨hnothing, ?_⟩
      rw [exec_state, hinit]
      exact ih
  · cases calls with
    | nil => exact iff_of_true trivial (Or.inl rfl)
    | cons call calls =>
      refine iff_of_false (fun h => ?_) (fun h => h.elim (List.cons_ne_nil _ _) hroom)
      obtain ⟨heap', r, hinit, -⟩ := ramfsInit_of_room heap heapBase hroom
      have hnothing := h.1.2
      rw [hinit] at hnothing
      exact not_inert rfl (hnothing rfl)

/-- On the empty heap the first call fails, and the second one takes what it left for a file
system. -/
theorem ramfs_init_half_done :
    (ramfsInit (.start bootHeap 0x20000)).2 = -1 ∧
      (ramfsInit (ramfsInit (.start bootHeap 0x20000)).1).2 = 0 ∧
      ¬ (ramfsInit (ramfsInit (.start bootHeap 0x20000)).1).1.Ready ∧
      ¬ Along RamfsInitCall.exec (fun s _ => AllOrNothing s) (.start bootHeap 0x20000)
        [.init, .init] := by
  obtain ⟨heap, r, hinit, hnull⟩ := ramfsInit_of_room bootHeap 0x20000 (by decide)
  have hagain := ramfsInit_of_some (s := ⟨heap, 0x20000, some r⟩) rfl
  rw [hinit, hagain]
  refine ⟨rfl, rfl, ?_, fun h => ?_⟩
  · rintro ⟨r', hr', -, hdata⟩
    cases hr'
    exact hdata hnull
  · have hnothing := h.1.2
    rw [hinit] at hnothing
    exact not_inert rfl (hnothing rfl)

end MinimalistOS
