import MinimalistOS.Properties.RamfsInit
import MinimalistOS.Properties.Ramfs

/-!
# Names in the RAM file system

* `ramfsFindFile_iff` — with distinct names, the search finds the entry with the name
* `Ramfs.NamesDistinct.fill` — a new entry with a name that has room
* `Naming.step_of_fits`, `Naming.step_of_not_fits` — what the two calls can do
* `ramfs_naming_consistent_iff` — the names, over every run

An entry holds 255 bytes of a name, and `ramfs_find_file` compares with the whole of it. A file
that is created under a longer name is not found again under that name.
-/

namespace MinimalistOS

open Infra

/-- The name of an entry. -/
def Ramfs.nameAt (r : Ramfs) (i : Nat) : CString := CString.ofArray (r.file i).name

/-- `in_use`. -/
def Ramfs.Used (r : Ramfs) (i : Nat) : Prop := i < maxFiles ∧ (r.file i).inUse ≠ 0

/-- No two entries in use have the same name. -/
def Ramfs.NamesDistinct (r : Ramfs) : Prop :=
  ∀ i j, r.Used i → r.Used j → r.nameAt i = r.nameAt j → i = j

/-- The names in the table have room in it. -/
def Ramfs.NamesShort (r : Ramfs) : Prop := ∀ i, r.Used i → (r.nameAt i).bytes.length ≤ 255

/-! ## Lookup -/

theorem ramfsFindFile_eq_none {r : Ramfs} {name : CString} :
    ramfsFindFile r name = none ↔ ∀ i, r.Used i → r.nameAt i ≠ name := by
  rw [ramfsFindFile, findSlot_eq_none]
  constructor
  · rintro h i ⟨hi, huse⟩ hname
    exact Bool.eq_false_iff.mp (h i hi) (RamfsFile.named_iff.mpr ⟨huse, hname⟩)
  · intro h i hi
    rw [Bool.eq_false_iff, Ne, RamfsFile.named_iff]
    rintro ⟨huse, hname⟩
    exact h i ⟨hi, huse⟩ hname

/-- With distinct names, the first entry with the name is the only one. -/
theorem ramfsFindFile_iff {r : Ramfs} (h : r.NamesDistinct) {name : CString} {i : Nat} :
    ramfsFindFile r name = some i ↔ r.Used i ∧ r.nameAt i = name := by
  rw [ramfsFindFile, findSlot_eq_some]
  constructor
  · rintro ⟨hi, hnamed, -⟩
    obtain ⟨huse, hname⟩ := RamfsFile.named_iff.mp hnamed
    exact ⟨⟨hi, huse⟩, hname⟩
  · rintro ⟨⟨hi, huse⟩, hname⟩
    refine ⟨hi, RamfsFile.named_iff.mpr ⟨huse, hname⟩, ?_⟩
    intro j hj
    rw [Bool.eq_false_iff, Ne, RamfsFile.named_iff]
    rintro ⟨hjuse, hjname⟩
    have hij := h j i ⟨by omega, hjuse⟩ ⟨hi, huse⟩ (Eq.trans hjname hname.symm)
    omega

/-- A name that is too long for the table is not in it. -/
theorem Ramfs.NamesShort.findFile_long {r : Ramfs} (h : r.NamesShort) {name : CString}
    (hlong : 255 < name.bytes.length) : ramfsFindFile r name = none := by
  rw [ramfsFindFile_eq_none]
  intro i hi hname
  have hle := h i hi
  rw [hname] at hle
  omega

theorem ramfsFindFreeSlot_some {r : Ramfs} {i : Nat} (h : ramfsFindFreeSlot r = some i) :
    i < maxFiles ∧ ¬ r.Used i := by
  rw [ramfsFindFreeSlot, findSlot_eq_some] at h
  obtain ⟨hi, hfree, -⟩ := h
  exact ⟨hi, fun huse => huse.2 (beq_iff_eq.mp hfree)⟩

/-- `ramfs_open` of a name that does not exist, to create it, when it is not found after that. -/
theorem ramfsOpen_of_lost {s s' : RamfsState} {r r' : Ramfs} (hr : s.ramfs = some r)
    {name : CString} (hnone : ramfsFindFile r name = none) {flags : Word}
    (hflags : flags &&& oCreat ≠ 0) (hcreate : ramfsCreateFile s (some name) none 0 = (s', 0))
    (hr' : s'.ramfs = some r') (hlost : ramfsFindFile r' name = none) :
    ramfsOpen s (some name) flags = (s', -1) := by
  simp only [ramfsOpen, hr, hnone, hcreate, if_pos hflags, hr', Option.bind_some, hlost, if_true]

/-! ## A new entry -/

section

variable {r : Ramfs} {i : Nat} (hi : i < maxFiles) (name : CString) (size : Word)

include hi

theorem used_fill (j : Nat) :
    (r.modify i fun f => f.fill i name size).Used j ↔ j = i ∨ r.Used j := by
  unfold Ramfs.Used
  rw [Ramfs.file_modify r hi]
  by_cases hj : j = i
  · rw [if_pos hj]
    exact iff_of_true ⟨by omega, by simp [RamfsFile.fill]⟩ (.inl hj)
  · rw [if_neg hj]
    exact ⟨.inr, fun h => h.resolve_left hj⟩

theorem nameAt_fill (j : Nat) :
    (r.modify i fun f => f.fill i name size).nameAt j
      = if j = i then name.truncate 255 else r.nameAt j := by
  unfold Ramfs.nameAt
  rw [Ramfs.file_modify r hi]
  by_cases hj : j = i
  · rw [if_pos hj, if_pos hj]
    exact CString.ofArray_strncpy (r.file i).name name (by decide)
  · rw [if_neg hj, if_neg hj]

end

/-- The name is cut where it has no room. -/
theorem Ramfs.NamesShort.fill {r : Ramfs} (h : r.NamesShort) {i : Nat} (hi : i < maxFiles)
    (name : CString) (size : Word) : (r.modify i fun f => f.fill i name size).NamesShort := by
  intro j hj
  rw [nameAt_fill hi]
  by_cases hji : j = i
  · rw [if_pos hji]
    exact List.length_take_le 255 name.bytes
  · rw [if_neg hji]
    exact h j (((used_fill hi name size j).mp hj).resolve_left hji)

/-- **A new entry** under a name that fits keeps the names distinct. -/
theorem Ramfs.NamesDistinct.fill {r : Ramfs} (h : r.NamesDistinct) {i : Nat} (hi : i < maxFiles)
    {name : CString} (hname : name.bytes.length ≤ 255) (hnone : ramfsFindFile r name = none)
    (size : Word) : (r.modify i fun f => f.fill i name size).NamesDistinct := by
  have hnew := ramfsFindFile_eq_none.mp hnone
  have htrunc : name.truncate 255 = name := CString.truncate_eq_self.mpr hname
  intro j k hj hk heq
  rw [used_fill hi] at hj hk
  rw [nameAt_fill hi, nameAt_fill hi, htrunc] at heq
  by_cases hji : j = i
  · by_cases hki : k = i
    · rw [hji, hki]
    · rw [if_pos hji, if_neg hki] at heq
      exact absurd heq.symm (hnew k (hk.resolve_left hki))
  · by_cases hki : k = i
    · rw [if_neg hji, if_pos hki] at heq
      exact absurd heq (hnew j (hj.resolve_left hji))
    · rw [if_neg hji, if_neg hki] at heq
      exact h j k (hj.resolve_left hji) (hk.resolve_left hki) heq

/-! ## Calls and the inodes they give out -/

/-- The two calls that name a file, with any arguments. -/
inductive NameCall where
  | create (name : Option CString) (data : Option (Nat → Byte)) (size : Word)
  | open' (path : Option CString) (flags : Word)

/-- The file system, with the names that were created or opened so far and the inodes of these
files. -/
structure Naming where
  fs : RamfsState
  given : List (CString × Int)

namespace Naming

/-- A name and the inode of its file, if there is a name. -/
def note (name : Option CString) (inode : Int) : List (CString × Int) :=
  name.toList.map fun n => (n, inode)

/-- A call. The file that `ramfs_create_file` makes is the first that was free; the one that
`ramfs_open` opens is the one it returns. -/
def step (s : Naming) : NameCall → Naming × Int
  | .create name data size =>
    let created := ramfsCreateFile s.fs name data size
    let slot := (s.fs.ramfs.bind ramfsFindFreeSlot).getD 0
    let new := if created.2 = 0 then note name (slot + 1) else []
    (⟨created.1, s.given ++ new⟩, created.2)
  | .open' path flags =>
    let opened := ramfsOpen s.fs path flags
    let new := if opened.2 = -1 then [] else note path opened.2
    (⟨opened.1, s.given ++ new⟩, opened.2)

/-- What is promised of a call: after it the names are distinct and every name given out leads to
its file, and a call that fails changes nothing. -/
structure Consistent (s : Naming) (call : NameCall) : Prop where
  distinct : ∀ r, (s.step call).1.fs.ramfs = some r → r.NamesDistinct
  found : ∀ p ∈ (s.step call).1.given, (ramfsOpen (s.step call).1.fs (some p.1) 0).2 = p.2
  atomic : (s.step call).2 = -1 → (s.step call).1.fs = s.fs

/-- All entries are in use. -/
def Full (s : Naming) : Prop := ∀ r, s.fs.ramfs = some r → ∀ i < maxFiles, r.Used i

/-- A name that does not fit is not used to create a file. -/
def Fits (s : Naming) : NameCall → Prop
  | .create (some name) _ size =>
    name.bytes.length ≤ 255 ∨ maxFileSize < size.toNat ∨ s.Full
  | .open' (some path) flags => path.bytes.length ≤ 255 ∨ flags &&& oCreat = 0 ∨ s.Full
  | _ => True

/-- What the table is like after calls that fit. -/
structure Inv (s : Naming) (r : Ramfs) : Prop where
  ramfs : s.fs.ramfs = some r
  distinct : r.NamesDistinct
  short : r.NamesShort
  given : ∀ p ∈ s.given, ∃ i, r.Used i ∧ r.nameAt i = p.1 ∧ p.2 = (i : Int) + 1

theorem step_open_some {s : Naming} {path : CString} {flags : Word} {fs' : RamfsState} {i : Nat}
    (heq : ramfsOpen s.fs (some path) flags = (fs', (i : Int) + 1)) :
    s.step (.open' (some path) flags)
      = (⟨fs', s.given ++ [(path, (i : Int) + 1)]⟩, (i : Int) + 1) := by
  have hne : (i : Int) + 1 ≠ -1 := by omega
  simp [step, heq, hne, note]

theorem step_open_refused {s : Naming} {path : CString} {flags : Word} {fs' : RamfsState}
    (heq : ramfsOpen s.fs (some path) flags = (fs', -1)) :
    s.step (.open' (some path) flags) = (⟨fs', s.given⟩, -1) := by
  simp [step, heq]

section

variable {s : Naming} {r : Ramfs} (h : s.Inv r)

include h

theorem step_create_none (data : Option (Nat → Byte)) (size : Word) :
    s.step (.create none data size) = (s, -1) := by
  simp [step, ramfsCreateFile, h.ramfs]

theorem step_open_none (flags : Word) : s.step (.open' none flags) = (s, -1) := by
  simp [step, ramfsOpen, h.ramfs]

/-- `ramfs_create_file` that makes a file. -/
theorem step_create_new {name : CString} (data : Option (Nat → Byte)) {size : Word} {i : Nat}
    (hsize : ¬ maxFileSize < size.toNat) (hnone : ramfsFindFile r name = none)
    (hfree : ramfsFindFreeSlot r = some i) :
    s.step (.create (some name) data size)
      = (⟨createAt s.fs r i name data size, s.given ++ [(name, (i : Int) + 1)]⟩, 0) := by
  have hcreate := ramfsCreateFile_eq h.ramfs name data size
  rw [if_neg hsize, hnone, Option.isSome_none, if_neg Bool.false_ne_true, hfree] at hcreate
  simp [step, hcreate, h.ramfs, hfree, note]

/-- `ramfs_create_file` does nothing or makes a file. -/
theorem step_create (name : CString) (data : Option (Nat → Byte)) (size : Word) :
    s.step (.create (some name) data size) = (s, -1) ∨
      ∃ i, ¬ maxFileSize < size.toNat ∧ ramfsFindFile r name = none ∧
        ramfsFindFreeSlot r = some i := by
  have hcreate := ramfsCreateFile_eq h.ramfs name data size
  have hrefused : ramfsCreateFile s.fs (some name) data size = (s.fs, -1) →
      s.step (.create (some name) data size) = (s, -1) := by
    intro heq
    simp [step, heq]
  by_cases hsize : maxFileSize < size.toNat
  · rw [if_pos hsize] at hcreate
    exact .inl (hrefused hcreate)
  · rw [if_neg hsize] at hcreate
    cases hfind : ramfsFindFile r name with
    | some j =>
      rw [hfind, Option.isSome_some, if_pos rfl] at hcreate
      exact .inl (hrefused hcreate)
    | none =>
      rw [hfind, Option.isSome_none, if_neg Bool.false_ne_true] at hcreate
      cases hfree : ramfsFindFreeSlot r with
      | none =>
        rw [hfree] at hcreate
        exact .inl (hrefused hcreate)
      | some i => exact .inr ⟨i, hsize, rfl, rfl⟩

/-- The `ramfs_create_file` of `ramfs_open`. -/
theorem create_of_open {path : CString} {i : Nat} (hnone : ramfsFindFile r path = none)
    (hfree : ramfsFindFreeSlot r = some i) :
    ramfsCreateFile s.fs (some path) none 0 = (createAt s.fs r i path none 0, 0) := by
  rw [ramfsCreateFile_eq h.ramfs path none 0, if_neg (by decide), hnone, Option.isSome_none,
    if_neg Bool.false_ne_true, hfree]

/-- `ramfs_open` does nothing, opens a file that is there, or makes a file. -/
theorem step_open (path : CString) (flags : Word) :
    s.step (.open' (some path) flags) = (s, -1) ∨
      (∃ i, ramfsFindFile r path = some i ∧ s.step (.open' (some path) flags)
        = (⟨s.fs, s.given ++ [(path, (i : Int) + 1)]⟩, (i : Int) + 1)) ∨
      ∃ i, flags &&& oCreat ≠ 0 ∧ ramfsFindFile r path = none ∧
        ramfsFindFreeSlot r = some i := by
  cases hfind : ramfsFindFile r path with
  | some i => exact .inr (.inl ⟨i, rfl, step_open_some (ramfsOpen_of_found h.ramfs hfind flags)⟩)
  | none =>
    by_cases hflags : flags &&& oCreat ≠ 0
    · cases hfree : ramfsFindFreeSlot r with
      | none =>
        have hcreate := ramfsCreateFile_eq h.ramfs path none 0
        rw [if_neg (by decide), hfind, Option.isSome_none, if_neg Bool.false_ne_true, hfree]
          at hcreate
        exact .inl (step_open_refused (ramfsOpen_of_refused h.ramfs hfind fun _ => hcreate))
      | some i => exact .inr (.inr ⟨i, hflags, rfl, rfl⟩)
    · have hrefused := ramfsOpen_of_refused h.ramfs hfind fun hf => absurd hf hflags
      exact .inl (step_open_refused hrefused)

/-- A table that is full has no free entry. -/
theorem not_full {i : Nat} (hfree : ramfsFindFreeSlot r = some i) : ¬ s.Full := by
  intro hfull
  obtain ⟨hi, hunused⟩ := ramfsFindFreeSlot_some hfree
  exact hunused (hfull r h.ramfs i hi)

theorem exists_free (hfull : ¬ s.Full) : ∃ i, ramfsFindFreeSlot r = some i := by
  cases hslot : ramfsFindFreeSlot r with
  | some i => exact ⟨i, rfl⟩
  | none =>
    refine absurd ?_ hfull
    intro r' hr' i hi
    obtain rfl : r = r' := Option.some.inj (h.ramfs.symm.trans hr')
    rw [ramfsFindFreeSlot, findSlot_eq_none] at hslot
    exact ⟨hi, bne_iff_ne.mp (congrArg not (hslot i hi))⟩

/-- A new file is a change. -/
theorem createAt_ne {i : Nat} (hfree : ramfsFindFreeSlot r = some i) (name : CString)
    (data : Option (Nat → Byte)) (size : Word) : createAt s.fs r i name data size ≠ s.fs := by
  intro hsame
  obtain ⟨hi, hunused⟩ := ramfsFindFreeSlot_some hfree
  have huse := (used_fill (r := r) hi name size i).mpr (.inl rfl)
  have hramfs : some (r.modify i fun f => f.fill i name size) = s.fs.ramfs :=
    congrArg RamfsState.ramfs hsame
  rw [Option.some.inj (hramfs.trans h.ramfs)] at huse
  exact hunused huse

/-- `ramfs_open` makes a file under the first bytes of a long name, and does not find it. -/
theorem open_long {path : CString} (hname : 255 < path.bytes.length) (flags : Word)
    (hflags : flags &&& oCreat ≠ 0) {i : Nat} (hfree : ramfsFindFreeSlot r = some i) :
    ramfsOpen s.fs (some path) flags = (createAt s.fs r i path none 0, -1) := by
  have hnone := h.short.findFile_long hname
  have hlost := (h.short.fill (ramfsFindFreeSlot_some hfree).1 path 0).findFile_long hname
  exact ramfsOpen_of_lost h.ramfs hnone hflags (create_of_open h hnone hfree) rfl hlost

/-- The entry of a new file is the one that is found under its name. -/
theorem findFile_fill {name : CString} (hname : name.bytes.length ≤ 255)
    (hnone : ramfsFindFile r name = none) {i : Nat} (hfree : ramfsFindFreeSlot r = some i)
    (size : Word) : ramfsFindFile (r.modify i fun f => f.fill i name size) name = some i := by
  obtain ⟨hi, -⟩ := ramfsFindFreeSlot_some hfree
  rw [ramfsFindFile_iff (h.distinct.fill hi hname hnone size)]
  refine ⟨(used_fill hi name size i).mpr (.inl rfl), ?_⟩
  rw [nameAt_fill hi, if_pos rfl]
  exact CString.truncate_eq_self.mpr hname

/-- **A call that fits** does nothing, opens a file that is there, or makes one. -/
theorem step_of_fits {call : NameCall} (hfits : s.Fits call) :
    s.step call = (s, -1) ∨
      (∃ name i, ramfsFindFile r name = some i ∧
        s.step call = (⟨s.fs, s.given ++ [(name, (i : Int) + 1)]⟩, (i : Int) + 1)) ∨
      ∃ name i data size answer, name.bytes.length ≤ 255 ∧ ramfsFindFile r name = none ∧
        ramfsFindFreeSlot r = some i ∧ answer ≠ -1 ∧
        s.step call
          = (⟨createAt s.fs r i name data size, s.given ++ [(name, (i : Int) + 1)]⟩, answer) := by
  cases call with
  | create name data size =>
    cases name with
    | none => exact .inl (step_create_none h data size)
    | some name =>
      rcases step_create h name data size with hstep | ⟨i, hsize, hnone, hfree⟩
      · exact .inl hstep
      · have hstep := step_create_new h data hsize hnone hfree
        have hname : name.bytes.length ≤ 255 := by
          rcases hfits with hname | hlarge | hfull
          · exact hname
          · exact absurd hlarge hsize
          · exact absurd hfull (not_full h hfree)
        exact .inr (.inr ⟨name, i, data, size, 0, hname, hnone, hfree, by decide, hstep⟩)
  | open' path flags =>
    cases path with
    | none => exact .inl (step_open_none h flags)
    | some path =>
      rcases step_open h path flags with hstep | ⟨i, hfound, hstep⟩ |
        ⟨i, hflags, hnone, hfree⟩
      · exact .inl hstep
      · exact .inr (.inl ⟨path, i, hfound, hstep⟩)
      · have hname : path.bytes.length ≤ 255 := by
          rcases hfits with hname | hzero | hfull
          · exact hname
          · exact absurd hzero hflags
          · exact absurd hfull (not_full h hfree)
        have hopen := ramfsOpen_of_created h.ramfs hnone hflags (create_of_open h hnone hfree) rfl
          (findFile_fill h hname hnone hfree 0)
        have hstep := step_open_some hopen
        exact .inr (.inr ⟨path, i, none, 0, _, hname, hnone, hfree, by omega, hstep⟩)

/-- **A call that does not fit** makes a file, and says that it failed or gives out a name that is
not found. -/
theorem step_of_not_fits {call : NameCall} (hfits : ¬ s.Fits call) :
    ∃ name i data size, 255 < name.bytes.length ∧ ramfsFindFreeSlot r = some i ∧
      (s.step call).1.fs = createAt s.fs r i name data size ∧
      ((s.step call).2 = -1 ∨ (name, (i : Int) + 1) ∈ (s.step call).1.given) := by
  cases call with
  | create name data size =>
    cases name with
    | none => exact absurd trivial hfits
    | some name =>
      simp only [Fits, not_or, Nat.not_le] at hfits
      obtain ⟨hname, hsize, hfull⟩ := hfits
      obtain ⟨i, hi⟩ := exists_free h hfull
      have hstep := step_create_new h data hsize (h.short.findFile_long hname) hi
      rw [hstep]
      exact ⟨name, i, data, size, hname, hi, rfl, .inr (by simp)⟩
  | open' path flags =>
    cases path with
    | none => exact absurd trivial hfits
    | some path =>
      simp only [Fits, not_or, Nat.not_le] at hfits
      obtain ⟨hname, hflags, hfull⟩ := hfits
      obtain ⟨i, hi⟩ := exists_free h hfull
      rw [step_open_refused (open_long h hname _ hflags hi)]
      exact ⟨path, i, none, 0, hname, hi, rfl, .inl rfl⟩

/-- A name given out leads to its file. -/
theorem found {p : CString × Int} (hp : p ∈ s.given) : (ramfsOpen s.fs (some p.1) 0).2 = p.2 := by
  obtain ⟨i, huse, hname, hinode⟩ := h.given p hp
  rw [ramfsOpen_of_found h.ramfs ((ramfsFindFile_iff h.distinct).mpr ⟨huse, hname⟩), hinode]

/-- **A call that fits** keeps the invariant, and changes nothing if it fails. -/
theorem fits_spec {call : NameCall} (hfits : s.Fits call) :
    (∃ r', (s.step call).1.Inv r') ∧ ((s.step call).2 = -1 → (s.step call).1.fs = s.fs) := by
  rcases step_of_fits h hfits with hstep | ⟨name, i, hfound, hstep⟩ |
    ⟨name, i, data, size, answer, hname, hnone, hfree, hanswer, hstep⟩
  · rw [hstep]
    exact ⟨⟨r, h⟩, fun _ => rfl⟩
  · rw [hstep]
    refine ⟨⟨r, h.ramfs, h.distinct, h.short, ?_⟩, fun _ => rfl⟩
    intro p hp
    rcases List.mem_append.mp hp with hp | hp
    · exact h.given p hp
    · obtain ⟨huse, hat⟩ := (ramfsFindFile_iff h.distinct).mp hfound
      rw [List.mem_singleton.mp hp]
      exact ⟨i, huse, hat, rfl⟩
  · obtain ⟨hi, hunused⟩ := ramfsFindFreeSlot_some hfree
    have hdistinct := h.distinct.fill hi hname hnone size
    rw [hstep]
    refine ⟨⟨_, rfl, hdistinct, h.short.fill hi name size, ?_⟩, fun heq => absurd heq hanswer⟩
    intro p hp
    rcases List.mem_append.mp hp with hp | hp
    · -- the entry of an earlier file is not the one that was free
      obtain ⟨j, huse, hat, hinode⟩ := h.given p hp
      have hne : j ≠ i := fun hji => hunused (hji ▸ huse)
      refine ⟨j, (used_fill hi name size j).mpr (.inr huse), ?_, hinode⟩
      rw [nameAt_fill hi, if_neg hne]
      exact hat
    · obtain ⟨huse, hat⟩ :=
        (ramfsFindFile_iff hdistinct).mp (findFile_fill h hname hnone hfree size)
      rw [List.mem_singleton.mp hp]
      exact ⟨i, huse, hat, rfl⟩

/-- **One call** keeps its promise exactly when it fits. -/
theorem consistent_iff_fits (call : NameCall) : s.Consistent call ↔ s.Fits call := by
  constructor
  · intro hcons
    by_contra hfits
    obtain ⟨name, i, data, size, hname, hfree, hfs, hbroken⟩ := step_of_not_fits h hfits
    rcases hbroken with hfailed | hgiven
    · -- the call says it failed, and the entry is taken
      exact createAt_ne h hfree name data size (hfs.symm.trans (hcons.atomic hfailed))
    · have hopen := hcons.found _ hgiven
      have hlost := (h.short.fill (ramfsFindFreeSlot_some hfree).1 name size).findFile_long hname
      have hnone : ramfsOpen (createAt s.fs r i name data size) (some name) 0
          = (createAt s.fs r i name data size, -1) :=
        ramfsOpen_of_refused rfl hlost fun hzero => absurd rfl hzero
      rw [hfs, hnone] at hopen
      simp only at hopen
      omega
  · intro hfits
    obtain ⟨⟨r', hinv⟩, hatomic⟩ := fits_spec h hfits
    refine ⟨?_, fun p hp => found hinv hp, hatomic⟩
    intro r'' hr
    rw [← Option.some.inj (hinv.ramfs.symm.trans hr)]
    exact hinv.distinct

end

/-- The file system before the first call. -/
def start (s : RamfsState) (r : Ramfs) : Naming := ⟨ramfsSetup s r, []⟩

/-- The default files are the first three entries, and the only ones. -/
theorem start_entries (s : RamfsState) {r : Ramfs} {d : Word} (hd : r.fileData = some d) :
    ∃ r', (start s r).fs.ramfs = some r' ∧ ∀ i, r'.Used i →
      i < 3 ∧ [helloName, kernelName, readmeName][i]? = some (r'.nameAt i) := by
  obtain ⟨r', hr', hrep⟩ := stands_ramfsSetup s hd
  have hnames : (Files.initial fun i k => s.heap.bytes (dataAddr d i k)).names
      = [helloName, kernelName, readmeName] := rfl
  refine ⟨r', hr', ?_⟩
  rintro i ⟨hi, huse⟩
  have hlt := (hrep.used i hi).mp huse
  have hname := hrep.name i hlt
  rw [hnames] at hlt hname
  exact ⟨hlt, hname⟩

theorem inv_start (s : RamfsState) {r : Ramfs} {d : Word} (hd : r.fileData = some d) :
    ∃ r', (start s r).Inv r' := by
  obtain ⟨r', hr', hat⟩ := start_entries s hd
  refine ⟨r', hr', ?_, ?_, fun p hp => absurd hp List.not_mem_nil⟩
  · intro i j hi hj heq
    obtain ⟨hlt, hname⟩ := hat i hi
    obtain ⟨-, hname'⟩ := hat j hj
    have hnodup : [helloName, kernelName, readmeName].Nodup := by decide
    exact (List.getElem?_inj hlt hnodup).mp (by rw [hname, hname', heq])
  · intro i hi
    obtain ⟨-, hname⟩ := hat i hi
    have hshort : ∀ name ∈ [helloName, kernelName, readmeName], name.bytes.length ≤ 255 := by
      decide
    exact hshort _ (List.mem_of_getElem? hname)

theorem start_not_full (s : RamfsState) {r : Ramfs} {d : Word} (hd : r.fileData = some d) :
    ¬ (start s r).Full := by
  intro hfull
  obtain ⟨r', hr', hat⟩ := start_entries s hd
  have hlt := (hat 3 (hfull r' hr' 3 (by decide))).1
  omega

end Naming

/-- **Names are consistent and failures atomic**, in every run in which a name of more than 255
bytes is not used to create a file, and in no other. -/
theorem ramfs_naming_consistent_iff (s : RamfsState) {r : Ramfs} {d : Word}
    (hd : r.fileData = some d) (calls : List NameCall) :
    (∀ r', (ramfsSetup s r).ramfs = some r' → r'.NamesDistinct) ∧
        Along Naming.step Naming.Consistent (.start s r) calls ↔
      Along Naming.step Naming.Fits (.start s r) calls := by
  obtain ⟨r₀, hinv⟩ := Naming.inv_start s hd
  have hstart : ∀ r', (ramfsSetup s r).ramfs = some r' → r'.NamesDistinct := by
    intro r' hr'
    rw [← Option.some.inj (hinv.ramfs.symm.trans hr')]
    exact hinv.distinct
  rw [and_iff_right hstart]
  refine along_iff_along Naming.step (I := fun s => ∃ r, s.Inv r) ?_ ?_ ⟨r₀, hinv⟩ calls
  · rintro s call ⟨r, hinv⟩
    exact Naming.consistent_iff_fits hinv call
  · rintro s call ⟨r, hinv⟩ hfits
    exact (Naming.fits_spec hinv hfits).1

/-- The RAM file system as `ramfs_init` leaves it, in a heap with room for it. -/
def bootNaming : Naming :=
  .start ⟨bootHeap, 0x20000, none⟩ (Ramfs.ofBytes bootHeap.bytes 0 (some 17416))

/-- `"a"`, created, and opened with and without `O_CREAT`. -/
theorem ramfs_naming_consistent_short :
    Along Naming.step Naming.Consistent bootNaming
      [.create (some (CString.ofBytes [0x61])) none 0, .open' (some (CString.ofBytes [0x61])) 0,
        .open' (some (CString.ofBytes [0x61])) oCreat] := by
  refine ((ramfs_naming_consistent_iff _ rfl _).mpr ?_).2
  exact ⟨.inl (by decide), .inl (by decide), .inl (by decide), trivial⟩

/-- `ramfs_open` to create a file with a name of 257 bytes returns `-1`, and the file is there. -/
theorem ramfs_naming_long_name :
    (ramfsOpen bootNaming.fs (some longName) oCreat).2 = -1 ∧
      (ramfsOpen bootNaming.fs (some longName) oCreat).1 ≠ bootNaming.fs ∧
      ¬ Along Naming.step Naming.Consistent bootNaming [.open' (some longName) oCreat] := by
  obtain ⟨r, hinv⟩ : ∃ r, bootNaming.Inv r := Naming.inv_start _ rfl
  obtain ⟨i, hfree⟩ := Naming.exists_free hinv (Naming.start_not_full _ rfl)
  have hopen := Naming.open_long hinv (Nat.lt_of_succ_lt longName_long) oCreat (by decide) hfree
  have hchanged := Naming.createAt_ne hinv hfree longName none 0
  have hstep := Naming.step_open_refused hopen
  refine ⟨congrArg Prod.snd hopen, fun hsame => hchanged ?_, ?_⟩
  · exact (congrArg Prod.fst hopen).symm.trans hsame
  · rintro ⟨hcons, -⟩
    have hsame := hcons.atomic (congrArg Prod.snd hstep)
    exact hchanged ((congrArg (fun p => p.1.fs) hstep).symm.trans hsame)

end MinimalistOS
