import MinimalistOS.Properties.Filesystem

/-!
# The contents of files over runs

* `Stores` — the bytes of an entry, and `Stores.append`, `Stores.append_other` — after a write
* `Session` — the file system with what its callers know of it
* `Session.outcome` — what a call can do, and `Session.Tracks.next` — the order of the table
* `fs_contents_kept` — what `fs_read` returns, over every run that spares the other files

A write goes to the bytes behind the last ones of its file, whichever blocks it allocated. These
can be the bytes of another file.
-/

namespace MinimalistOS

open Infra

namespace Filesystem

/-! ## The bytes of a file -/

/-- The bytes of entry `i`. -/
structure Stores (fs : Filesystem) (i : Nat) (bytes : List Byte) : Prop where
  size : (fs.files i).size.toNat = bytes.length
  data : ∀ k < bytes.length,
    fs.data ((fs.files i).startBlock * blockSize + BitVec.ofNat 32 k) = bytes.getD k 0

/-- A copy that does not wrap, by the numbers of the bytes. -/
theorem memcpyTo_toNat (m : Mem) {p : Word} (src : Nat → Byte) {n : Nat}
    (hfit : p.toNat + n ≤ 2 ^ 32) (a : Word) :
    memcpyTo m p src n a
      = if p.toNat ≤ a.toNat ∧ a.toNat < p.toNat + n then src (a.toNat - p.toNat) else m a := by
  have hsub : (a - p).toNat = (2 ^ 32 - p.toNat + a.toNat) % 2 ^ 32 := BitVec.toNat_sub a p
  have ha := a.isLt
  rw [memcpyTo_apply n (by omega)]
  by_cases hin : p.toNat ≤ a.toNat ∧ a.toNat < p.toNat + n
  · rw [if_pos hin, if_pos (by omega), show (a - p).toNat = a.toNat - p.toNat by omega]
  · rw [if_neg hin, if_neg (by omega)]

/-- The number of a byte of a file. -/
theorem Sound.toNat_byte {fs : Filesystem} (h : fs.Sound) {i : Nat} (hi : i < fs.fileCount.toNat)
    {k : Nat} (hk : k < (fs.files i).size.toNat) :
    ((fs.files i).startBlock * blockSize + BitVec.ofNat 32 k).toNat
      = (fs.files i).startBlock.toNat * 512 + k := by
  have hfits := h.fits i hi
  unfold fsSize at hfits
  rw [BitVec.toNat_add, h.toNat_fileData hi, BitVec.toNat_ofNat]
  omega

theorem Stores.of_eq {fs fs' : Filesystem} {i j : Nat} {bytes : List Byte}
    (h : fs.Stores i bytes) (hdata : fs'.data = fs.data) (hfile : fs'.files j = fs.files i) :
    fs'.Stores j bytes := by
  constructor
  · rw [hfile]
    exact h.size
  · intro k hk
    rw [hfile, hdata]
    exact h.data k hk

theorem stores_add (fs : Filesystem) (k : Nat) (filename : CString) (type : Byte) :
    (fs.add k filename type).Stores fs.fileCount.toNat [] := by
  constructor
  · rw [files_add, if_pos rfl]
    rfl
  · intro j hj
    exact absurd hj (Nat.not_lt_zero j)

/-- The write goes over no byte of file `j`. -/
def SparesFile (fs : Filesystem) (fd : Int) (count : Word) (j : Nat) : Prop :=
  ∀ k < (fs.files j).size.toNat,
    (fs.files j).startBlock.toNat * 512 + k
        < (fs.files fd).startBlock.toNat * 512 + (fs.files fd).size.toNat ∨
      (fs.files fd).startBlock.toNat * 512 + (fs.files fd).size.toNat + count.toNat
        ≤ (fs.files j).startBlock.toNat * 512 + k

/-- The write goes over no byte of another file. -/
def Spares (fs : Filesystem) (fd : Int) (count : Word) : Prop :=
  ∀ j < fs.fileCount.toNat, (j : Int) ≠ fd → fs.SparesFile fd count j

section

variable {fs : Filesystem} (h : fs.Sound) {i : Nat} (hi : i < fs.fileCount.toNat) {count : Word}
  (hroom : fs.Room i count)

include h hi hroom

/-- What a write leaves in a byte. -/
theorem Sound.data_append (buffer : Nat → Byte) (a : Word) :
    (fs.append i buffer count).data a
      = if (fs.files i).startBlock.toNat * 512 + (fs.files i).size.toNat ≤ a.toNat ∧
            a.toNat < (fs.files i).startBlock.toNat * 512 + (fs.files i).size.toNat + count.toNat
        then buffer (a.toNat - ((fs.files i).startBlock.toNat * 512 + (fs.files i).size.toNat))
        else fs.data a := by
  have hend := h.toNat_fileEnd hi
  have hle : ((fs.files i).startBlock * blockSize + (fs.files i).size).toNat + count.toNat
      ≤ 2 ^ 32 := by
    unfold Room fsSize at hroom
    omega
  rw [← hend]
  exact memcpyTo_toNat fs.data buffer hle a

/-- **A write** leaves its bytes behind the ones that were there. -/
theorem Stores.append {bytes : List Byte} (hs : fs.Stores i bytes) (buffer : Nat → Byte) :
    (fs.append i buffer count).Stores i (bytes ++ (List.range count.toNat).map buffer) := by
  have hsize := hs.size
  constructor
  · rw [files_append, if_pos rfl]
    show ((fs.files i).size + count).toNat = _
    rw [hroom.toNat_size, hsize, List.length_append, List.length_map, List.length_range]
  · intro k hk
    rw [List.length_append, List.length_map, List.length_range] at hk
    have haddr : ((fs.files i).startBlock * blockSize + BitVec.ofNat 32 k).toNat
        = (fs.files i).startBlock.toNat * 512 + k := by
      unfold Room fsSize at hroom
      rw [BitVec.toNat_add, h.toNat_fileData hi, BitVec.toNat_ofNat]
      omega
    rw [files_append, if_pos rfl]
    show (fs.append i buffer count).data ((fs.files i).startBlock * blockSize + BitVec.ofNat 32 k)
      = _
    rw [h.data_append hi hroom, haddr]
    rw [List.getD_eq_getElem?_getD, List.getElem?_append]
    by_cases hold : k < bytes.length
    · rw [if_neg (by omega), if_pos hold, hs.data k hold, List.getD_eq_getElem?_getD]
    · rw [if_pos (by omega), if_neg hold, List.getElem?_map, List.getElem?_range (by omega), hsize]
      show buffer _ = buffer _
      congr 1
      omega

/-- **A write that spares another file** leaves it as it is. -/
theorem Stores.append_other {j : Nat} (hj : j < fs.fileCount.toNat) (hne : j ≠ i)
    (hspares : fs.SparesFile i count j) {bytes : List Byte} (hs : fs.Stores j bytes)
    (buffer : Nat → Byte) : (fs.append i buffer count).Stores j bytes := by
  have hfile : (fs.append i buffer count).files j = fs.files j := by
    rw [files_append, if_neg (by omega)]
  constructor
  · rw [hfile]
    exact hs.size
  · intro k hk
    have hlt : k < (fs.files j).size.toNat := by
      rw [hs.size]
      exact hk
    have hbyte := h.toNat_byte hj hlt
    have hout := hspares k hlt
    rw [hfile, h.data_append hi hroom, if_neg (by omega)]
    exact hs.data k hk

end

/-- **`fs_read`** returns the first bytes of a file. -/
theorem Stores.read {fs : Filesystem} (h : fs.Sound) {i : Nat} (hi : i < fs.fileCount.toNat)
    {bytes : List Byte} (hs : fs.Stores i bytes) (count : Word) :
    (fsRead fs i count).2
      = (bytes.take count.toNat, ((min count.toNat bytes.length : Nat) : Int)) := by
  have hvalid : fs.invalid i = false := invalid_of_lt hi h.count_le
  have hsize := hs.size
  have hfits := h.fits i hi
  have hmin : (if (fs.files i).size < count then (fs.files i).size else count).toNat
      = min count.toNat bytes.length := by
    split
    · next hlt =>
      rw [BitVec.lt_def] at hlt
      omega
    · next hge =>
      rw [BitVec.lt_def] at hge
      omega
  simp only [fsRead]
  rw [if_neg (by rw [hvalid]; decide)]
  refine Prod.ext ?_ ?_
  · simp only
    rw [hmin]
    apply List.ext_getElem
    · simp
    · intro k hk hk'
      rw [List.length_map, List.length_range] at hk
      rw [List.getElem_map, List.getElem_range, List.getElem_take, hs.data k (by omega),
        List.getD_eq_getElem?_getD, List.getElem?_eq_getElem (by omega)]
      rfl
  · simp only
    unfold fsSize at hfits
    rw [BitVec.toInt_eq_toNat_of_lt (by omega), hmin]

/-! ### The files of `fs_init` -/

theorem startBlock_append (fs : Filesystem) (fd : Int) (buffer : Nat → Byte) (count : Word)
    (i : Int) :
    ((fs.append fd buffer count).files i).startBlock = (fs.files i).startBlock := by
  rw [files_append]
  split
  · next hi => rw [hi]
  · rfl

/-- A new file with a text that fits into its first block. -/
def addText (fs : Filesystem) (k : Nat) (filename : CString) (text : List Byte) : Filesystem :=
  (fs.add k filename fileTypeRegular).append fs.fileCount.toNat (fun j => text.getD j 0)
    (BitVec.ofNat 32 text.length)

section

variable {fs : Filesystem} (h : fs.Sound) {k : Nat} {filename : CString}
  (hadd : fs.CanAdd k filename) (text : List Byte) (htext : text.length ≤ 512)

include h hadd htext

theorem Sound.addText : (fs.addText k filename text).Sound :=
  (h.add hadd _).append (hadd.room_add htext) _

theorem stores_addText : (fs.addText k filename text).Stores fs.fileCount.toNat text := by
  have hcount := toNat_fileCount_add hadd.room
  have hlt : fs.fileCount.toNat < (fs.add k filename fileTypeRegular).fileCount.toNat := by
    show fs.fileCount.toNat < (fs.fileCount + 1).toNat
    omega
  have happend := (stores_add fs k filename fileTypeRegular).append (h.add hadd _) hlt
    (hadd.room_add htext) fun j => text.getD j 0
  have hbytes : (List.range (BitVec.ofNat 32 text.length).toNat).map (fun j => text.getD j 0)
      = text := by
    rw [BitVec.toNat_ofNat, Nat.mod_eq_of_lt (by omega)]
    apply List.ext_getElem
    · simp
    · intro j hj hj'
      rw [List.getElem_map, List.getElem_range, List.getD_eq_getElem?_getD,
        List.getElem?_eq_getElem hj']
      rfl
  rw [List.nil_append, hbytes] at happend
  exact happend

/-- The files before the new block stay as they are. -/
theorem Stores.addText {j : Nat} (hj : j < fs.fileCount.toNat)
    (hbefore : (fs.files j).startBlock.toNat * 512 + (fs.files j).size.toNat ≤ k * 512)
    {bytes : List Byte} (hs : fs.Stores j bytes) :
    (fs.addText k filename text).Stores j bytes := by
  have hcount := toNat_fileCount_add hadd.room
  obtain ⟨-, hk⟩ := hadd.block
  have hfile : (fs.add k filename fileTypeRegular).files j = fs.files j := by
    rw [files_add, if_neg (by omega)]
  have hold : (fs.add k filename fileTypeRegular).Stores j bytes := hs.of_eq rfl hfile
  refine hold.append_other (h.add hadd _) ?_ (hadd.room_add htext) ?_ (by omega) ?_ _
  · show fs.fileCount.toNat < (fs.fileCount + 1).toNat
    omega
  · show j < (fs.fileCount + 1).toNat
    omega
  · intro b hb
    rw [hfile] at hb ⊢
    refine .inl ?_
    rw [files_add, if_pos rfl]
    show (fs.files j).startBlock.toNat * 512 + b < (BitVec.ofNat 32 k).toNat * 512 + 0
    rw [BitVec.toNat_ofNat]
    omega

end

section

variable (fs : Filesystem)

theorem sound_bootRoot : (bootRoot fs).Sound := (sound_fsClear fs).add (canAdd_root fs) _

theorem sound_bootTest : (bootTest fs).Sound :=
  (sound_bootRoot fs).addText (canAdd_test fs) testText (by decide)

theorem stores_bootTest : (bootTest fs).Stores 0 [] ∧ (bootTest fs).Stores 1 testText := by
  have hroot : (bootRoot fs).Stores 0 [] := stores_add (fsClear fs) 4 rootName fileTypeDir
  have hstart : ((bootRoot fs).files (0 : Nat)).startBlock = 4 := by
    rw [bootRoot, files_add]
    rfl
  refine ⟨?_, stores_addText (sound_bootRoot fs) (canAdd_test fs) testText (by decide)⟩
  refine hroot.addText (sound_bootRoot fs) (canAdd_test fs) testText (by decide)
    Nat.zero_lt_one ?_
  rw [hstart, hroot.size]
  decide

theorem startBlock_bootTest : ((bootTest fs).files (0 : Nat)).startBlock = 4 ∧
    ((bootTest fs).files (1 : Nat)).startBlock = 5 := by
  unfold bootTest
  rw [startBlock_append, startBlock_append, files_add, files_add]
  refine ⟨?_, rfl⟩
  show ((bootRoot fs).files (0 : Nat)).startBlock = 4
  rw [bootRoot, files_add]
  rfl

theorem startBlock_fsInit : ((fsInit fs).files (1 : Nat)).startBlock = 5 ∧
    ((fsInit fs).files (2 : Nat)).startBlock = 7 := by
  rw [fsInit_eq]
  unfold bootWelcome
  rw [startBlock_append, startBlock_append, files_add, files_add]
  exact ⟨(startBlock_bootTest fs).2, rfl⟩

theorem findFile_fsInit : findFile (fsInit fs) testName = some 1 ∧
    findFile (fsInit fs) welcomeName = some 2 := by
  have hname : ∀ i : Nat, (fsInit fs).nameAt i
      = if i = 2 then welcomeName else if i = 1 then testName else (bootRoot fs).nameAt i := by
    intro i
    rw [fsInit_eq, nameAt_bootWelcome, nameAt_bootTest]
  rw [findFile_eq_some, findFile_eq_some, fileCount_fsInit]
  refine ⟨⟨by decide, hname 1, ?_⟩, ⟨by decide, hname 2, ?_⟩⟩
  · intro j hj
    obtain rfl : j = 0 := by omega
    rw [hname, if_neg (by decide), if_neg (by decide), nameAt_bootRoot]
    decide
  · intro j hj
    rw [hname, if_neg (by omega)]
    by_cases hone : j = 1
    · rw [if_pos hone]
      decide
    · obtain rfl : j = 0 := by omega
      rw [if_neg hone, nameAt_bootRoot]
      decide

/-- The files of `fs_init` and their bytes. -/
theorem stores_fsInit : (fsInit fs).Stores 0 [] ∧ (fsInit fs).Stores 1 testText ∧
    (fsInit fs).Stores 2 welcomeText := by
  have hsound := sound_bootTest fs
  have hadd := canAdd_welcome fs
  obtain ⟨hroot, htest⟩ := stores_bootTest fs
  obtain ⟨hfirst, hsecond⟩ := startBlock_bootTest fs
  rw [fsInit_eq]
  refine ⟨?_, ?_, stores_addText hsound hadd welcomeText (by decide)⟩
  · refine hroot.addText hsound hadd welcomeText (by decide) Nat.zero_lt_two ?_
    rw [hfirst, hroot.size]
    decide
  · refine htest.addText hsound hadd welcomeText (by decide) Nat.one_lt_two ?_
    rw [hsecond, htest.size]
    decide

end

/-! ## Sessions -/

/--
The file system with what its callers know of it.

A file is a number. `live` has the files of the table, in its order; `names` and `contents` are the
name a file was created under and the bytes that were written to it. `handed` are the descriptors
that were returned, each with its file, and `recent` those of them since the last file was deleted.
-/
structure Session where
  fs : Filesystem
  live : List Nat
  names : Nat → CString
  contents : Nat → List Byte
  next : Nat
  handed : List (Int × Nat)
  recent : List (Int × Nat)

namespace Session

/-- A descriptor is returned for a file. -/
def hand (s : Session) (fd : Int) (file : Nat) : Session :=
  { s with handed := (fd, file) :: s.handed, recent := (fd, file) :: s.recent }

/-- A new file, empty. -/
def addFile (s : Session) (filename : CString) : Session :=
  { s with
    live := s.live ++ [s.next]
    names := Function.update s.names s.next filename
    contents := Function.update s.contents s.next []
    next := s.next + 1 }

/-- After `fs_create` or `fs_open` of a name with this result. A descriptor that was not one
before is that of a new file. -/
def opened (s : Session) (filename : CString) (fs : Filesystem) (ret : Int) : Session :=
  if ret < 0 then { s with fs := fs }
  else
    match s.live[ret.toNat]? with
    | some file => { s with fs := fs }.hand ret file
    | none => ({ s with fs := fs }.addFile filename).hand ret s.next

/-- After `fs_delete` of a name. -/
def deleted (s : Session) (filename : CString) (fs : Filesystem) : Session :=
  match findFile s.fs filename with
  | some i => { s with fs := fs, live := s.live.eraseIdx i, recent := [] }
  | none => { s with fs := fs }

/-- After `fs_write` with this result. The buffer was written when its count was returned. -/
def written (s : Session) (fd : Int) (buffer : Nat → Byte) (count : Word) (fs : Filesystem)
    (ret : Int) : Session :=
  match s.recent.lookup fd with
  | some file =>
    if ret = count.toNat then
      { s with
        fs := fs
        contents := Function.update s.contents file
          (s.contents file ++ (List.range count.toNat).map buffer) }
    else { s with fs := fs }
  | none => { s with fs := fs }

/-- One call. -/
def step (s : Session) (call : FsCall) : Session × FsAnswer :=
  let result := s.fs.step call
  (match call with
    | .create filename _ => s.opened filename result.1 result.2.ret
    | .open' filename _ => s.opened filename result.1 result.2.ret
    | .delete filename => s.deleted filename result.1
    | .write fd buffer count => s.written fd buffer count result.1 result.2.ret
    | .close _ => s
    | .read _ _ => s
    | .seek _ _ => s, result.2)

/-- After `fs_init`. -/
def start (fs : Filesystem) : Session where
  fs := fsInit fs
  live := [0, 1, 2]
  names := fun file => [rootName, testName, welcomeName].getD file rootName
  contents := fun file => [[], testText, welcomeText].getD file []
  next := 3
  handed := []
  recent := []

/-- The table has the files, in order. -/
structure Tracks (s : Session) : Prop where
  sound : s.fs.Sound
  length : s.live.length = s.fs.fileCount.toNat
  nodup : s.live.Nodup
  fresh : ∀ file ∈ s.live, file < s.next
  names : ∀ i file : Nat, s.live[i]? = some file →
    s.fs.nameAt i = (s.names file).truncate 255
  handed : ∀ p ∈ s.handed, 0 ≤ p.1 ∧ p.2 < s.next
  recent : ∀ p ∈ s.recent, 0 ≤ p.1 ∧ s.live[p.1.toNat]? = some p.2

/-! ### What a call can do -/

/-- A call that adds a file. -/
def Adds (fs : Filesystem) : FsCall → Prop
  | .create filename _ => ∃ k, fs.CanAdd k filename
  | .open' filename mode => (∃ k, fs.CanAdd k filename) ∧ mode &&& fileCreate ≠ 0
  | _ => False

/-- A call that removes the file in an entry. -/
def Removes (fs : Filesystem) (i : Nat) : FsCall → Prop
  | .delete filename => findFile fs filename = some i
  | _ => False

/-- A new file, and its descriptor. -/
def added (s : Session) (k : Nat) (filename : CString) (type : Byte) : Session :=
  ({ s with fs := s.fs.add k filename type }.addFile filename).hand s.fs.fileCount.toNat s.next

/-- A file less. -/
def removed (s : Session) (i : Nat) : Session :=
  { s with fs := s.fs.remove i, live := s.live.eraseIdx i, recent := [] }

/-- Bytes more in a file. -/
def appended (s : Session) (i : Nat) (buffer : Nat → Byte) (count : Word) : Session :=
  s.written i buffer count (s.fs.append i buffer count) count.toNat

/-- What a call inside the arrays can do. -/
inductive Outcome (s : Session) (call : FsCall) : Session → Prop
  | idle {fs : Filesystem} (hrefused : s.fs.Refused fs) : Outcome s call { s with fs := fs }
  | found {i file : Nat} (hfile : s.live[i]? = some file) : Outcome s call (s.hand i file)
  | added {k : Nat} {filename : CString} (type : Byte) (hadd : s.fs.CanAdd k filename)
      (hcall : Adds s.fs call) : Outcome s call (s.added k filename type)
  | removed {i : Nat} (hi : i < s.fs.fileCount.toNat) (hcall : Removes s.fs i call) :
      Outcome s call (s.removed i)
  | appended {i : Nat} {buffer : Nat → Byte} {count : Word} (hi : i < s.fs.fileCount.toNat)
      (hcall : call = .write i buffer count) (hspace : ¬ s.fs.OutOfSpace i count)
      (hroom : s.fs.Room i count) : Outcome s call (s.appended i buffer count)

theorem live_lt {s : Session} (h : s.Tracks) {i file : Nat} (hfile : s.live[i]? = some file) :
    i < s.fs.fileCount.toNat := by
  rw [← h.length]
  exact (List.getElem?_eq_some_iff.mp hfile).1

section

variable {s : Session} (h : s.Tracks)

include h

omit h in
theorem opened_failed (filename : CString) (fs : Filesystem) :
    s.opened filename fs (-1) = { s with fs := fs } := by
  simp only [opened]
  rw [if_pos (by decide)]

omit h in
theorem written_failed (fd : Int) (buffer : Nat → Byte) (count : Word) (fs : Filesystem) :
    s.written fd buffer count fs (-1) = { s with fs := fs } := by
  have hne : ¬ (-1 : Int) = count.toNat := by omega
  simp only [written, if_neg hne]
  cases s.recent.lookup fd with
  | none => rfl
  | some file => rfl

omit h in
/-- `fs_open` of a file that is there. -/
theorem step_open_found {filename : CString} {i file : Nat}
    (hfind : findFile s.fs filename = some i) (hfile : s.live[i]? = some file) (mode : Word) :
    (s.step (.open' filename mode)).1 = s.hand i file := by
  show s.opened filename (fsOpen s.fs filename mode).1 (fsOpen s.fs filename mode).2 = _
  rw [fsOpen_of_found hfind mode]
  simp only [opened]
  rw [if_neg (by omega), Int.toNat_natCast, hfile]

theorem opened_new (filename : CString) (fs : Filesystem) :
    s.opened filename fs s.fs.fileCount.toNat
      = ({ s with fs := fs }.addFile filename).hand s.fs.fileCount.toNat s.next := by
  simp only [opened]
  rw [if_neg (by omega), Int.toNat_natCast, List.getElem?_eq_none (by rw [h.length])]

/-- A call that adds a file. -/
theorem step_adds {call : FsCall} (hcall : Adds s.fs call) :
    ∃ k filename type, s.fs.CanAdd k filename ∧ (s.step call).1 = s.added k filename type := by
  cases call with
  | create filename type =>
    obtain ⟨k, hadd⟩ := hcall
    refine ⟨k, filename, type, hadd, ?_⟩
    show s.opened filename (fsCreate s.fs filename type).1 (fsCreate s.fs filename type).2 = _
    rw [fsCreate_of_canAdd hadd]
    exact opened_new h filename _
  | open' filename mode =>
    obtain ⟨⟨k, hadd⟩, hmode⟩ := hcall
    refine ⟨k, filename, fileTypeRegular, hadd, ?_⟩
    show s.opened filename (fsOpen s.fs filename mode).1 (fsOpen s.fs filename mode).2 = _
    rcases fsOpen_cases s.fs filename mode with ⟨i, hfind, -⟩ | ⟨hnot, -⟩ | ⟨k', hadd', -, heq⟩
    · rw [hadd.new] at hfind
      cases hfind
    · exact absurd ⟨hadd, hmode⟩ (hnot k)
    · rw [heq, hadd.unique hadd'.free hadd'.first]
      exact opened_new h filename _
  | delete filename => exact hcall.elim
  | close fd => exact hcall.elim
  | read fd count => exact hcall.elim
  | write fd buffer count => exact hcall.elim
  | seek fd position => exact hcall.elim

omit h in
theorem removes_iff {fs : Filesystem} {i : Nat} {call : FsCall} :
    Removes fs i call ↔ ∃ filename, call = .delete filename ∧ findFile fs filename = some i := by
  cases call <;> simp [Removes]

omit h in
/-- A call that removes a file. -/
theorem step_removes {call : FsCall} {i : Nat} (hcall : Removes s.fs i call) :
    (s.step call).1 = s.removed i := by
  obtain ⟨filename, rfl, hfind⟩ := removes_iff.mp hcall
  show s.deleted filename (fsDelete s.fs filename).1 = _
  rw [fsDelete_of_found hfind]
  simp only [deleted, hfind]
  rfl

/-- `fs_write` with the space and the room for it. -/
theorem step_write {i : Nat} (hi : i < s.fs.fileCount.toNat) {buffer : Nat → Byte} {count : Word}
    (hspace : ¬ s.fs.OutOfSpace i count) (hroom : s.fs.Room i count) :
    (s.step (.write i buffer count)).1 = s.appended i buffer count := by
  have hvalid : s.fs.invalid i = false := invalid_of_lt hi h.sound.count_le
  have hcount : count.toInt = count.toNat := by
    unfold Room fsSize at hroom
    exact BitVec.toInt_eq_toNat_of_lt (by omega)
  show s.written i buffer count (fsWrite s.fs i buffer count).1
    (fsWrite s.fs i buffer count).2.2 = _
  rw [← h.sound.allocBlocks_failed_iff, Bool.not_eq_false] at hspace
  rw [fsWrite_of_blocks hvalid hspace, hcount]
  rfl

theorem outcome_adds {call : FsCall} (hadds : Adds s.fs call) :
    Outcome s call (s.step call).1 := by
  obtain ⟨k, filename, type, hadd, heq⟩ := step_adds h hadds
  rw [heq]
  exact .added type hadd hadds

theorem outcome_create (filename : CString) (type : Byte) :
    Outcome s (.create filename type) (s.step (.create filename type)).1 := by
  rcases fsCreate_cases s.fs filename type with ⟨-, hrefused, hret⟩ | ⟨k, hadd, -⟩
  · show Outcome s _ (s.opened filename (fsCreate s.fs filename type).1
      (fsCreate s.fs filename type).2)
    rw [hret, opened_failed]
    exact .idle hrefused
  · exact outcome_adds h ⟨k, hadd⟩

theorem outcome_open (filename : CString) (mode : Word) :
    Outcome s (.open' filename mode) (s.step (.open' filename mode)).1 := by
  rcases fsOpen_cases s.fs filename mode with ⟨i, hfind, -⟩ | ⟨-, hrefused, hret⟩ |
    ⟨k, hadd, hmode, -⟩
  · have hlt : i < s.live.length := by
      rw [h.length]
      exact (findFile_eq_some.mp hfind).1
    have hfile : s.live[i]? = some s.live[i] := List.getElem?_eq_getElem hlt
    rw [step_open_found hfind hfile]
    exact .found hfile
  · show Outcome s _ (s.opened filename (fsOpen s.fs filename mode).1
      (fsOpen s.fs filename mode).2)
    rw [hret, opened_failed]
    exact .idle hrefused
  · exact outcome_adds h ⟨⟨k, hadd⟩, hmode⟩

omit h in
theorem outcome_delete (filename : CString) :
    Outcome s (.delete filename) (s.step (.delete filename)).1 := by
  rcases fsDelete_cases s.fs filename with ⟨hnone, heq⟩ | ⟨i, hfind, -⟩
  · have hstep : (s.step (.delete filename)).1 = { s with fs := s.fs } := by
      show s.deleted filename (fsDelete s.fs filename).1 = _
      simp only [deleted, hnone, heq]
    rw [hstep]
    exact .idle (.refl s.fs)
  · have hcall : Removes s.fs i (.delete filename) := hfind
    rw [step_removes hcall]
    exact .removed (findFile_eq_some.mp hfind).1 hcall

theorem outcome_write {fd : Int} {buffer : Nat → Byte} {count : Word}
    (hin : s.fs.InBounds (.write fd buffer count)) :
    Outcome s (.write fd buffer count) (s.step (.write fd buffer count)).1 := by
  have hstep : (s.step (.write fd buffer count)).1 = s.written fd buffer count
      (fsWrite s.fs fd buffer count).1 (fsWrite s.fs fd buffer count).2.2 := rfl
  rcases fsWrite_cases s.fs fd buffer count with ⟨-, heq⟩ | ⟨-, -, heq⟩ | ⟨hfd, hok, -⟩
  · rw [hstep, heq, written_failed]
    exact .idle (.refl s.fs)
  · rw [hstep, heq, written_failed]
    exact .idle (refused_outOfSpace s.fs _)
  · rcases h.sound.index_of_valid hfd with hneg | ⟨i, hi, rfl⟩
    · exact absurd hin (not_inBounds_of_neg hneg)
    · have hspace : ¬ s.fs.OutOfSpace i count := by
        rw [← h.sound.allocBlocks_failed_iff i count, hok]
        simp
      have hroom : s.fs.Room i count := by
        rcases hin with hge | ⟨-, hout | hroom⟩
        · omega
        · exact absurd hout hspace
        · exact hroom
      rw [step_write h hi hspace hroom]
      exact .appended hi rfl hspace hroom

/-- **One call.** -/
theorem outcome {call : FsCall} (hin : s.fs.InBounds call) : Outcome s call (s.step call).1 := by
  cases call with
  | create filename type => exact outcome_create h filename type
  | open' filename mode => exact outcome_open h filename mode
  | delete filename => exact outcome_delete filename
  | write fd buffer count => exact outcome_write h hin
  | close fd => exact .idle (.refl s.fs)
  | read fd count => exact .idle (.refl s.fs)
  | seek fd position => exact .idle (.refl s.fs)

end

theorem appended_of_lookup {s : Session} {i file : Nat}
    (hlookup : s.recent.lookup (i : Int) = some file) (buffer : Nat → Byte) (count : Word) :
    s.appended i buffer count = { s with
      fs := s.fs.append i buffer count
      contents := Function.update s.contents file
        (s.contents file ++ (List.range count.toNat).map buffer) } := by
  simp only [appended, written, hlookup, if_true]

/-- A write changes the bytes of a file and what is known of them. -/
theorem appended_eq (s : Session) (i : Nat) (buffer : Nat → Byte) (count : Word) :
    ∃ contents, s.appended i buffer count
      = { s with fs := s.fs.append i buffer count, contents := contents } := by
  cases hlookup : s.recent.lookup (i : Int) with
  | none =>
    refine ⟨s.contents, ?_⟩
    simp only [appended, written, hlookup]
  | some file => exact ⟨_, appended_of_lookup hlookup buffer count⟩

/-! ### The table and the files -/

theorem Tracks.idle {s : Session} (h : s.Tracks) {fs : Filesystem} (hr : s.fs.Refused fs) :
    { s with fs := fs }.Tracks where
  sound := h.sound.refused hr
  length := by
    show s.live.length = fs.fileCount.toNat
    rw [hr.count]
    exact h.length
  nodup := h.nodup
  fresh := h.fresh
  names i file hfile := by
    show CString.ofArray (fs.files i).filename = _
    rw [hr.files i (live_lt h hfile)]
    exact h.names i file hfile
  handed := h.handed
  recent := h.recent

theorem Tracks.hand {s : Session} (h : s.Tracks) {i file : Nat} (hfile : s.live[i]? = some file) :
    (s.hand i file).Tracks where
  sound := h.sound
  length := h.length
  nodup := h.nodup
  fresh := h.fresh
  names := h.names
  handed p hp := by
    rcases List.mem_cons.mp hp with rfl | hp
    · exact ⟨Int.natCast_nonneg i, h.fresh file (List.mem_of_getElem? hfile)⟩
    · exact h.handed p hp
  recent p hp := by
    rcases List.mem_cons.mp hp with rfl | hp
    · exact ⟨Int.natCast_nonneg i, hfile⟩
    · exact h.recent p hp

/-- The files with a new one: an old one in its place, or the new one at the end. -/
theorem live_addFile {s : Session} (h : s.Tracks) {i file : Nat}
    (hfile : (s.live ++ [s.next])[i]? = some file) :
    (s.live[i]? = some file ∧ file ≠ s.next) ∨ (i = s.fs.fileCount.toNat ∧ file = s.next) := by
  rw [List.getElem?_append, h.length] at hfile
  by_cases hlt : i < s.fs.fileCount.toNat
  · rw [if_pos hlt] at hfile
    exact .inl ⟨hfile, Nat.ne_of_lt (h.fresh file (List.mem_of_getElem? hfile))⟩
  · rw [if_neg hlt] at hfile
    obtain ⟨hi, hget⟩ := List.getElem?_eq_some_iff.mp hfile
    rw [List.length_singleton] at hi
    refine .inr ⟨by omega, ?_⟩
    simpa using hget.symm

/-- The files without one: each has the entry it had, at its old or its new place. -/
theorem live_removed {s : Session} (h : s.Tracks) {i : Nat} (hi : i < s.fs.fileCount.toNat)
    {j file : Nat} (hfile : (s.live.eraseIdx i)[j]? = some file) :
    ∃ k : Nat, s.live[k]? = some file ∧ (s.fs.remove i).files j = s.fs.files k := by
  have hj : j < s.fs.fileCount.toNat - 1 := by
    have hlt := (List.getElem?_eq_some_iff.mp hfile).1
    rw [List.length_eraseIdx_of_lt (by rw [h.length]; exact hi), h.length] at hlt
    exact hlt
  have hfiles := files_remove hi hj
  rw [List.getElem?_eraseIdx] at hfile
  by_cases hlt : j < i
  · rw [if_pos hlt] at hfile hfiles
    exact ⟨j, hfile, hfiles⟩
  · rw [if_neg hlt] at hfile hfiles
    exact ⟨j + 1, hfile, hfiles⟩

theorem Tracks.addFile {s : Session} (h : s.Tracks) {k : Nat} {filename : CString}
    (hadd : s.fs.CanAdd k filename) (type : Byte) :
    ({ s with fs := s.fs.add k filename type }.addFile filename).Tracks where
  sound := h.sound.add hadd type
  length := by
    show (s.live ++ [s.next]).length = (s.fs.fileCount + 1).toNat
    rw [toNat_fileCount_add hadd.room, List.length_append, h.length]
    rfl
  nodup := by
    have hnew : s.next ∉ s.live := fun hmem => Nat.lt_irrefl _ (h.fresh _ hmem)
    exact List.nodup_append.mpr ⟨h.nodup, List.nodup_singleton _, fun a ha b hb hab =>
      hnew (by rw [← List.mem_singleton.mp hb, ← hab]; exact ha)⟩
  fresh file hfile := by
    show file < s.next + 1
    rcases List.mem_append.mp hfile with hold | hnew
    · exact Nat.lt_succ_of_lt (h.fresh file hold)
    · rw [List.mem_singleton.mp hnew]
      exact Nat.lt_succ_self _
  names i file hfile := by
    change (s.live ++ [s.next])[i]? = some file at hfile
    show (s.fs.add k filename type).nameAt i
      = (Function.update s.names s.next filename file).truncate 255
    rw [nameAt_add]
    rcases live_addFile h hfile with ⟨hold, hne⟩ | ⟨rfl, rfl⟩
    · rw [if_neg (Nat.ne_of_lt (live_lt h hold)), Function.update_of_ne hne]
      exact h.names i file hold
    · rw [if_pos rfl, Function.update_self]
  handed p hp := ⟨(h.handed p hp).1, Nat.lt_succ_of_lt (h.handed p hp).2⟩
  recent p hp := by
    obtain ⟨hpos, hfile⟩ := h.recent p hp
    refine ⟨hpos, ?_⟩
    show (s.live ++ [s.next])[p.1.toNat]? = some p.2
    rw [List.getElem?_append_left (List.getElem?_eq_some_iff.mp hfile).1]
    exact hfile

theorem getElem?_addFile {s : Session} (h : s.Tracks) :
    (s.live ++ [s.next])[s.fs.fileCount.toNat]? = some s.next := by
  rw [← h.length]
  exact List.getElem?_concat_length

theorem Tracks.added {s : Session} (h : s.Tracks) {k : Nat} {filename : CString}
    (hadd : s.fs.CanAdd k filename) (type : Byte) : (s.added k filename type).Tracks :=
  (h.addFile hadd type).hand (getElem?_addFile h)

theorem Tracks.removed {s : Session} (h : s.Tracks) {i : Nat} (hi : i < s.fs.fileCount.toNat) :
    (s.removed i).Tracks where
  sound := h.sound.remove hi
  length := by
    show (s.live.eraseIdx i).length = (s.fs.fileCount - 1).toNat
    rw [toNat_fileCount_sub hi, List.length_eraseIdx_of_lt (by rw [h.length]; exact hi), h.length]
  nodup := h.nodup.sublist (List.eraseIdx_sublist s.live i)
  fresh file hfile := h.fresh file (List.mem_of_mem_eraseIdx hfile)
  names j file hfile := by
    change (s.live.eraseIdx i)[j]? = some file at hfile
    obtain ⟨k, hk, hfiles⟩ := live_removed h hi hfile
    show CString.ofArray ((s.fs.remove i).files j).filename = _
    rw [hfiles]
    exact h.names k file hk
  handed := h.handed
  recent p hp := absurd hp List.not_mem_nil

theorem Tracks.appended {s : Session} (h : s.Tracks) {i : Nat} {count : Word}
    (hroom : s.fs.Room i count) (buffer : Nat → Byte) : (s.appended i buffer count).Tracks := by
  obtain ⟨contents, heq⟩ := s.appended_eq i buffer count
  rw [heq]
  refine ⟨h.sound.append hroom buffer, h.length, h.nodup, h.fresh, ?_, h.handed, h.recent⟩
  intro j file hfile
  show (s.fs.append i buffer count).nameAt j = _
  rw [nameAt_append]
  exact h.names j file hfile

/-- **One call** keeps the files in their order. -/
theorem Tracks.next {s s' : Session} (h : s.Tracks) {call : FsCall} (ho : Outcome s call s') :
    s'.Tracks := by
  cases ho with
  | idle hrefused => exact h.idle hrefused
  | found hfile => exact h.hand hfile
  | added type hadd hcall => exact h.added hadd type
  | removed hi hcall => exact h.removed hi
  | appended hi hcall hspace hroom => exact h.appended hroom _

-- `fs_init` is not to be unfolded where only its result is passed on
theorem fs_start (fs : Filesystem) : (start fs).fs = fsInit fs := by
  unfold start
  rfl

theorem tracks_start (fs : Filesystem) : (start fs).Tracks where
  sound := by
    rw [fs_start]
    exact sound_fsInit fs
  length := by
    rw [fs_start, fileCount_fsInit]
    rfl
  nodup := by
    show [0, 1, 2].Nodup
    decide
  fresh := by
    show ∀ file ∈ [0, 1, 2], file < 3
    decide
  names i file hfile := by
    rw [fs_start, fsInit_eq, nameAt_bootWelcome, nameAt_bootTest]
    show _ = ([rootName, testName, welcomeName].getD file rootName).truncate 255
    rcases i with _ | _ | _ | i
    · obtain rfl : 0 = file := Option.some.inj hfile
      rw [if_neg (by decide), if_neg (by decide), nameAt_bootRoot]
      decide
    · obtain rfl : 1 = file := Option.some.inj hfile
      rw [if_neg (by decide), if_pos rfl]
      decide
    · obtain rfl : 2 = file := Option.some.inj hfile
      rw [if_pos rfl]
      decide
    · cases hfile
  handed p hp := absurd hp List.not_mem_nil
  recent p hp := absurd hp List.not_mem_nil

/-! ## Contents -/

/-- Every entry has the bytes that were written to its file. -/
def Holds (s : Session) : Prop :=
  ∀ i file, s.live[i]? = some file → s.fs.Stores i (s.contents file)

/-- The descriptor is a recent one. -/
def Uses (s : Session) : FsCall → Prop
  | .read fd _ => ∃ file, (fd, file) ∈ s.recent
  | .write fd _ _ => ∃ file, (fd, file) ∈ s.recent
  | _ => True

/-- A write runs out of space, or ends inside `fs.data` and goes over no byte of another file. -/
def SparesOthers (s : Session) : FsCall → Prop
  | .write fd _ count => s.fs.OutOfSpace fd count ∨ s.fs.Room fd count ∧ s.fs.Spares fd count
  | _ => True

theorem inBounds_of_uses {s : Session} (h : s.Tracks) {call : FsCall} (huses : s.Uses call)
    (hspares : s.SparesOthers call) : s.fs.InBounds call := by
  cases call with
  | read fd count =>
    obtain ⟨file, hfile⟩ := huses
    exact (h.recent _ hfile).1
  | write fd buffer count =>
    obtain ⟨file, hfile⟩ := huses
    exact .inr ⟨(h.recent _ hfile).1, hspares.imp_right And.left⟩
  | create filename type => trivial
  | delete filename => trivial
  | open' filename mode => trivial
  | close fd => trivial
  | seek fd position => trivial

/-- The file that a recent descriptor was returned for. -/
theorem lookup_recent {s : Session} (h : s.Tracks) {i : Nat}
    (hrecent : ∃ file, ((i : Int), file) ∈ s.recent) :
    ∃ file, s.recent.lookup (i : Int) = some file ∧ s.live[i]? = some file := by
  obtain ⟨file, hmem⟩ := hrecent
  have hsome : (s.recent.lookup (i : Int)).isSome :=
    List.lookup_isSome_iff.mpr ⟨_, hmem, beq_self_eq_true _⟩
  obtain ⟨found, hfound⟩ := Option.isSome_iff_exists.mp hsome
  obtain ⟨before, after, hsplit, -⟩ := List.lookup_eq_some_iff.mp hfound
  refine ⟨found, hfound, (h.recent ((i : Int), found) ?_).2⟩
  rw [hsplit]
  simp

theorem Holds.added {s : Session} (h : s.Tracks) (hs : s.Holds) (k : Nat) (filename : CString)
    (type : Byte) : (s.added k filename type).Holds := by
  intro i file hfile
  change (s.live ++ [s.next])[i]? = some file at hfile
  show (s.fs.add k filename type).Stores i (Function.update s.contents s.next [] file)
  rcases live_addFile h hfile with ⟨hold, hne⟩ | ⟨rfl, rfl⟩
  · rw [Function.update_of_ne hne]
    refine (hs i file hold).of_eq rfl ?_
    rw [files_add, if_neg (Nat.ne_of_lt (live_lt h hold))]
  · rw [Function.update_self]
    exact stores_add s.fs k filename type

theorem Holds.removed {s : Session} (h : s.Tracks) (hs : s.Holds) {i : Nat}
    (hi : i < s.fs.fileCount.toNat) : (s.removed i).Holds := by
  intro j file hfile
  change (s.live.eraseIdx i)[j]? = some file at hfile
  obtain ⟨k, hk, hfiles⟩ := live_removed h hi hfile
  exact (hs k file hk).of_eq rfl hfiles

/-- **A write** to a recent descriptor that spares the other files. -/
theorem Holds.appended {s : Session} (h : s.Tracks) (hs : s.Holds) {i : Nat}
    (hi : i < s.fs.fileCount.toNat) {count : Word} (hroom : s.fs.Room i count)
    (hspares : s.fs.Spares i count) (hrecent : ∃ file, ((i : Int), file) ∈ s.recent)
    (buffer : Nat → Byte) : (s.appended i buffer count).Holds := by
  obtain ⟨file, hlookup, hfile⟩ := lookup_recent h hrecent
  rw [appended_of_lookup hlookup]
  intro j other hother
  change s.live[j]? = some other at hother
  show (s.fs.append i buffer count).Stores j (Function.update s.contents file _ other)
  by_cases hij : j = i
  · subst hij
    obtain rfl : file = other := Option.some.inj (hfile.symm.trans hother)
    rw [Function.update_self]
    exact Stores.append h.sound hi hroom (hs j file hfile) buffer
  · have hne : other ≠ file := by
      intro hsame
      rw [hsame] at hother
      have hlt := (List.getElem?_eq_some_iff.mp hother).1
      exact hij ((List.getElem?_inj hlt h.nodup).mp (hother.trans hfile.symm))
    rw [Function.update_of_ne hne]
    have hj := live_lt h hother
    exact Stores.append_other h.sound hi hroom hj hij (hspares j hj (by omega)) (hs j other hother)
      buffer

/-- **One call** that spares the other files keeps all of them. -/
theorem Holds.next {s s' : Session} (h : s.Tracks) (hs : s.Holds) {call : FsCall}
    (huses : s.Uses call) (hspares : s.SparesOthers call) (ho : Outcome s call s') : s'.Holds := by
  cases ho with
  | idle hrefused =>
    intro i file hfile
    exact (hs i file hfile).of_eq hrefused.data (hrefused.files i (live_lt h hfile))
  | found hfile => exact hs
  | added type hadd hcall => exact hs.added h _ _ type
  | removed hi hcall => exact hs.removed h hi
  | appended hi hcall hspace hroom =>
    subst hcall
    exact hs.appended h hi hroom (hspares.resolve_left hspace).2 huses _

theorem holds_start (fs : Filesystem) : (start fs).Holds := by
  obtain ⟨hroot, htest, hwelcome⟩ := stores_fsInit fs
  intro i file hfile
  rw [fs_start]
  rcases i with _ | _ | _ | i
  · obtain rfl : 0 = file := Option.some.inj hfile
    exact hroot
  · obtain rfl : 1 = file := Option.some.inj hfile
    exact htest
  · obtain rfl : 2 = file := Option.some.inj hfile
    exact hwelcome
  · cases hfile

/-- What `fs_read` returns of a recent descriptor are the first bytes that were written to its
file. -/
def Readable (s : Session) : Prop :=
  ∀ p ∈ s.recent, ∀ count : Word, (fsRead s.fs p.1 count).2
    = ((s.contents p.2).take count.toNat, ((min count.toNat (s.contents p.2).length : Nat) : Int))

theorem Holds.readable {s : Session} (h : s.Tracks) (hs : s.Holds) : s.Readable := by
  intro p hp count
  obtain ⟨hpos, hfile⟩ := h.recent p hp
  have hread := (hs _ _ hfile).read h.sound (live_lt h hfile) count
  rw [Int.toNat_of_nonneg hpos] at hread
  exact hread

end Session

/-! ## A write over another file -/

/-- One byte of a file that is not empty. -/
theorem fsRead_one {fs : Filesystem} (h : fs.Sound) {i : Nat} (hi : i < fs.fileCount.toNat)
    (hsize : 0 < (fs.files i).size.toNat) :
    (fsRead fs i 1).2.1 = [fs.data ((fs.files i).startBlock * blockSize)] := by
  have hvalid : fs.invalid i = false := invalid_of_lt hi h.count_le
  have hone : ¬ (fs.files i).size < 1 := by
    rw [BitVec.lt_def]
    exact Nat.not_lt.mpr hsize
  simp only [fsRead]
  rw [if_neg (by rw [hvalid]; decide), if_neg hone]
  show [fs.data ((fs.files i).startBlock * blockSize + 0)] = _
  rw [show (fs.files i).startBlock * blockSize + 0 = _ from BitVec.add_zero _]

theorem size_fsInit (fs : Filesystem) : ((fsInit fs).files (1 : Nat)).size = 41 ∧
    ((fsInit fs).files (2 : Nat)).size = 31 := by
  obtain ⟨-, htest, hwelcome⟩ := stores_fsInit fs
  exact ⟨BitVec.eq_of_toNat_eq htest.size, BitVec.eq_of_toNat_eq hwelcome.size⟩

/-- **A write over the first byte of another file** is what is read there. -/
theorem fsRead_append {fs : Filesystem} (h : fs.Sound) {i j : Nat} (hi : i < fs.fileCount.toNat)
    (hj : j < fs.fileCount.toNat) (hne : j ≠ i) {count : Word} (hroom : fs.Room i count)
    (hsize : 0 < (fs.files j).size.toNat)
    (hfrom : (fs.files i).startBlock.toNat * 512 + (fs.files i).size.toNat
      ≤ (fs.files j).startBlock.toNat * 512)
    (hto : (fs.files j).startBlock.toNat * 512
      < (fs.files i).startBlock.toNat * 512 + (fs.files i).size.toNat + count.toNat)
    (buffer : Nat → Byte) :
    (fsRead (fs.append i buffer count) j 1).2.1
      = [buffer ((fs.files j).startBlock.toNat * 512
          - ((fs.files i).startBlock.toNat * 512 + (fs.files i).size.toNat))] := by
  have hfile : (fs.append i buffer count).files j = fs.files j := by
    rw [files_append, if_neg (by omega)]
  have hone := fsRead_one (h.append hroom buffer) (i := j) hj (by rw [hfile]; exact hsize)
  rw [hone, hfile, h.data_append hi hroom, h.toNat_fileData hj, if_pos ⟨hfrom, hto⟩]

/-- `test.txt` and `welcome.txt` are opened, and a byte is written to the second. -/
def oneByte : List FsCall :=
  [.open' testName 0, .open' welcomeName 0, .write 2 (fun _ => 0x21) 1]

/-- The same with a kilobyte to the first. -/
def overrun : List FsCall :=
  [.open' testName 0, .open' welcomeName 0, .write 1 (fun _ => 0x41) 1024]

section

variable (fs : Filesystem)

theorem room_overrun : (fsInit fs).Room (1 : Nat) 1024 := by
  unfold Room
  rw [(startBlock_fsInit fs).1, (size_fsInit fs).1]
  decide

theorem space_overrun : ¬ (fsInit fs).OutOfSpace (1 : Nat) 1024 := by
  rw [← (sound_fsInit fs).allocBlocks_failed_iff]
  unfold FileEntry.newBlocks
  rw [(size_fsInit fs).1, bitmap_fsInit]
  decide

/-- The kilobyte goes over the first byte of `welcome.txt`. -/
theorem fsRead_overrun (buffer : Nat → Byte) :
    (fsRead ((fsInit fs).append (1 : Nat) buffer 1024) (2 : Nat) 1).2.1 = [buffer 983] := by
  have hcount := fileCount_fsInit fs
  obtain ⟨htest, hwelcome⟩ := startBlock_fsInit fs
  obtain ⟨hsize, hsize'⟩ := size_fsInit fs
  have hread := fsRead_append (sound_fsInit fs) (i := 1) (j := 2) (by omega) (by omega) (by decide)
    (room_overrun fs) (by rw [hsize']; decide) (by rw [htest, hwelcome, hsize]; decide)
    (by rw [htest, hwelcome, hsize]; decide) buffer
  rw [htest, hwelcome, hsize] at hread
  exact hread

open Session

/-- The session after `test.txt` is opened. -/
def openedTest : Session := (start fs).hand (1 : Nat) 1

/-- The same with `welcome.txt`. -/
def openedBoth : Session := (openedTest fs).hand (2 : Nat) 2

theorem fs_openedTest : (openedTest fs).fs = fsInit fs := by
  rw [openedTest, hand, fs_start]

theorem fs_openedBoth : (openedBoth fs).fs = fsInit fs := by
  rw [openedBoth, hand, fs_openedTest]

theorem step_openedTest : ((start fs).step (.open' testName 0)).1 = openedTest fs := by
  refine step_open_found ?_ rfl 0
  rw [fs_start]
  exact (findFile_fsInit fs).1

theorem tracks_openedTest : (openedTest fs).Tracks := (tracks_start fs).hand rfl

theorem step_openedBoth : ((openedTest fs).step (.open' welcomeName 0)).1 = openedBoth fs := by
  refine step_open_found ?_ rfl 0
  rw [fs_openedTest]
  exact (findFile_fsInit fs).2

theorem recent_openedBoth : (openedBoth fs).recent = [(2, 2), (1, 1)] := rfl

theorem tracks_openedBoth : (openedBoth fs).Tracks := (tracks_openedTest fs).hand rfl

/-- A call after the two files are opened. -/
theorem along_openedBoth {P : Session → FsCall → Prop} {call : FsCall}
    (htest : P (start fs) (.open' testName 0)) (hwelcome : P (openedTest fs) (.open' welcomeName 0))
    (hcall : P (openedBoth fs) call) :
    Along Session.step P (start fs) [.open' testName 0, .open' welcomeName 0, call] := by
  refine ⟨htest, ?_⟩
  rw [step_openedTest]
  refine ⟨hwelcome, ?_⟩
  rw [step_openedBoth]
  exact ⟨hcall, trivial⟩

/-- A byte at the end of `welcome.txt` is none of the others. -/
theorem spares_welcome : (fsInit fs).Room (2 : Nat) 1 ∧ (fsInit fs).Spares (2 : Nat) 1 := by
  obtain ⟨hroot, htest, -⟩ := stores_fsInit fs
  obtain ⟨hfirst, hsecond⟩ := startBlock_fsInit fs
  have hsize := (size_fsInit fs).2
  refine ⟨?_, ?_⟩
  · unfold Room
    rw [hsecond, hsize]
    decide
  · intro j hj hne k hk
    rw [fileCount_fsInit] at hj
    by_cases hone : j = 1
    · subst hone
      rw [htest.size, show testText.length = 41 from rfl] at hk
      rw [hfirst, hsecond, hsize]
      refine .inl ?_
      simp only [BitVec.reduceToNat]
      omega
    · obtain rfl : j = 0 := by omega
      rw [hroot.size] at hk
      exact absurd hk (Nat.not_lt_zero k)

theorem uses_overrun : Along Session.step Uses (start fs) overrun := by
  rw [overrun]
  refine along_openedBoth fs trivial trivial ⟨1, ?_⟩
  rw [recent_openedBoth]
  decide

theorem uses_oneByte : Along Session.step Uses (start fs) oneByte := by
  rw [oneByte]
  refine along_openedBoth fs trivial trivial ⟨2, ?_⟩
  rw [recent_openedBoth]
  decide

theorem sparesOthers_oneByte : Along Session.step SparesOthers (start fs) oneByte := by
  rw [oneByte]
  refine along_openedBoth fs trivial trivial (.inr ?_)
  rw [fs_openedBoth]
  exact spares_welcome fs

theorem run_overrun :
    run Session.step (start fs) overrun = (openedBoth fs).appended 1 (fun _ => 0x41) 1024 := by
  have hlt : 1 < (openedBoth fs).fs.fileCount.toNat := by
    rw [fs_openedBoth, fileCount_fsInit]
    decide
  have hspace : ¬ (openedBoth fs).fs.OutOfSpace (1 : Nat) 1024 := by
    rw [fs_openedBoth]
    exact space_overrun fs
  have hroom : (openedBoth fs).fs.Room (1 : Nat) 1024 := by
    rw [fs_openedBoth]
    exact room_overrun fs
  rw [overrun, run_cons, step_openedTest, run_cons, step_openedBoth, run_cons, run_nil]
  exact step_write (tracks_openedBoth fs) hlt hspace hroom

theorem not_readable_overrun : ¬ (run Session.step (start fs) overrun).Readable := by
  have hlookup : (openedBoth fs).recent.lookup ((1 : Nat) : Int) = some 1 := by
    rw [recent_openedBoth]
    rfl
  rw [run_overrun, appended_of_lookup hlookup, fs_openedBoth]
  intro hreadable
  have hread := congrArg Prod.fst (hreadable ((2 : Nat), 2) List.mem_cons_self 1)
  simp only at hread
  rw [fsRead_overrun, Function.update_of_ne (by decide)] at hread
  change [0x41] = welcomeText.take 1 at hread
  exact absurd hread (by decide)

end

/-! ## Runs -/

open Session in
/-- **Contents are kept** in every run that uses recent descriptors and in which no write goes over
the bytes of another file or out of `fs.data`. -/
theorem fs_contents_kept (fs : Filesystem) {calls : List FsCall}
    (huses : Along Session.step Uses (start fs) calls)
    (hspares : Along Session.step SparesOthers (start fs) calls) :
    ∀ pre, pre <+: calls → (run Session.step (start fs) pre).Readable := by
  rintro pre ⟨post, rfl⟩
  have hboth := ((along_append Session.step _ pre post).mp (huses.and _ hspares)).1
  have hinv := inv_run Session.step (I := fun s => s.Tracks ∧ s.Holds)
    (fun s call hs hcall => ?_) ⟨tracks_start fs, holds_start fs⟩ hboth
  · exact hinv.2.readable hinv.1
  · obtain ⟨htracks, hholds⟩ := hs
    obtain ⟨huse, hspare⟩ := hcall
    have ho := outcome htracks (inBounds_of_uses htracks huse hspare)
    exact ⟨htracks.next ho, hholds.next htracks huse hspare ho⟩

open Session in
/-- A byte more in `welcome.txt`. -/
theorem fs_contents_kept_one_byte :
    Along Session.step Uses (start bss) oneByte ∧
      Along Session.step SparesOthers (start bss) oneByte ∧
      (run Session.step (start bss) oneByte).Readable :=
  ⟨uses_oneByte bss, sparesOthers_oneByte bss,
    fs_contents_kept bss (uses_oneByte bss) (sparesOthers_oneByte bss) _ List.prefix_rfl⟩

open Session in
/-- With a kilobyte in `test.txt`, `fs_read` of `welcome.txt` does not return what was written to
it. -/
theorem fs_contents_overwritten :
    Along Session.step Uses (start bss) overrun ∧
      ¬ (run Session.step (start bss) overrun).Readable :=
  ⟨uses_overrun bss, not_readable_overrun bss⟩

end Filesystem

end MinimalistOS
