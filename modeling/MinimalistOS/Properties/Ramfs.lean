import MinimalistOS.Spec.Files

/-!
# The file system is a directory of files

* `memcpyTo_dataAddr` — a copy into the array of one file, seen from any array
* `Represents` — the structure and the bytes of the heap stand for a directory of files
* `Stands.step` — a call with real buffers answers and acts as it does on the directory
* `Stands.sameView` — a call that does not concern a name leaves what is seen of it alone
* `ramfs_refines_files` — so does every sequence of calls

The arrays of all files lie in one block, entry `i` from `i * 4096` on. As long as the sum of the
offset and the length of a buffer does not wrap, every copy is cut to the end of the array.
-/

namespace MinimalistOS

open Infra

/-! ## The arrays in the block -/

/-- Where byte `k` of the array of entry `i` lies. -/
def dataAddr (d : Word) (i k : Nat) : Word :=
  d + BitVec.ofNat 32 (i * maxFileSize) + BitVec.ofNat 32 k

theorem dataAddr_sub {d : Word} {i j k offset : Nat} (hi : i < maxFiles) (hj : j < maxFiles)
    (hk : k < maxFileSize) (ho : offset < maxFileSize) :
    (dataAddr d j k - dataAddr d i offset).toNat
      = (j * maxFileSize + k + 2 ^ 32 - (i * maxFileSize + offset)) % 2 ^ 32 := by
  unfold dataAddr maxFiles maxFileSize at *
  simp only [BitVec.toNat_sub, BitVec.toNat_add, BitVec.toNat_ofNat]
  omega

/-- A copy of `n` bytes that ends inside the array of entry `i`. -/
theorem memcpyTo_dataAddr (m : Mem) (src : Nat → Byte) {d : Word} {i j k offset n : Nat}
    (hi : i < maxFiles) (hj : j < maxFiles) (hk : k < maxFileSize) (ho : offset < maxFileSize)
    (hn : offset + n ≤ maxFileSize) :
    memcpyTo m (dataAddr d i offset) src n (dataAddr d j k)
      = if j = i ∧ offset ≤ k ∧ k < offset + n then src (k - offset)
        else m (dataAddr d j k) := by
  have hsub := dataAddr_sub (d := d) hi hj hk ho
  rw [memcpyTo_apply n (by unfold maxFileSize at hn; omega), hsub]
  unfold maxFiles maxFileSize at *
  by_cases hji : j = i
  · subst hji
    by_cases hle : offset ≤ k
    · rw [show (j * 4096 + k + 2 ^ 32 - (j * 4096 + offset)) % 2 ^ 32 = k - offset by omega]
      by_cases hlt : k < offset + n
      · rw [if_pos (by omega), if_pos ⟨rfl, hle, hlt⟩]
      · rw [if_neg (by omega), if_neg fun h => hlt h.2.2]
    · rw [if_neg (by omega), if_neg fun h => hle h.2.1]
  · rw [if_neg (by omega), if_neg fun h => hji h.1]

/-! ## What stands for a directory -/

/-- The structure `r`, with the contents from `d` on, stands for the directory `a`. -/
structure Represents (m : Mem) (r : Ramfs) (d : Word) (a : Files) : Prop where
  fileData : r.fileData = some d
  length_le : a.names.length ≤ maxFiles
  used : ∀ i < maxFiles, (r.file i).inUse ≠ 0 ↔ i < a.names.length
  name : ∀ i < a.names.length, a.names[i]? = some (CString.ofArray (r.file i).name)
  size : ∀ i < a.names.length, (r.file i).size.toNat = (a.file i).size
  data : ∀ i < a.names.length, (r.file i).data = BitVec.ofNat 32 (i * maxFileSize)
  mode : ∀ i < a.names.length, (r.file i).mode = 0o644
  bytes : ∀ i < maxFiles, ∀ k < maxFileSize, m (dataAddr d i k) = (a.file i).bytes k

namespace Represents

variable {m : Mem} {r : Ramfs} {d : Word} {a : Files}

theorem named (h : Represents m r d a) (name : CString) {i : Nat} (hi : i < maxFiles) :
    (r.file i).named name = true ↔ a.names[i]? = some name := by
  rw [RamfsFile.named_iff, h.used i hi]
  constructor
  · rintro ⟨hlt, hname⟩
    rw [h.name i hlt, hname]
  · intro hname
    have hlt : i < a.names.length := (List.getElem?_eq_some_iff.mp hname).1
    exact ⟨hlt, Option.some.inj ((h.name i hlt).symm.trans hname)⟩

/-- `ramfs_find_file` finds the position of the name. -/
theorem findFile (h : Represents m r d a) (name : CString) :
    ramfsFindFile r name = a.names.idxOf? name := by
  cases hidx : a.names.idxOf? name with
  | none =>
    rw [ramfsFindFile, findSlot_eq_none]
    intro i hi
    rw [Bool.eq_false_iff, Ne]
    intro hnamed
    have hget := (h.named name hi).mp hnamed
    exact List.idxOf?_eq_none_iff.mp hidx (List.mem_of_getElem? hget)
  | some i =>
    obtain ⟨hlt, hget, hfirst⟩ := List.findIdx?_eq_some_iff_getElem.mp hidx
    have hle := h.length_le
    rw [ramfsFindFile, findSlot_eq_some]
    refine ⟨by omega, ?_, fun j hj => ?_⟩
    · exact (h.named name (by omega)).mpr (by simpa [hlt] using hget)
    · rw [Bool.eq_false_iff, Ne]
      intro hnamed
      have hjget := (h.named name (by omega)).mp hnamed
      obtain ⟨hjlt, hjeq⟩ := List.getElem?_eq_some_iff.mp hjget
      exact hfirst j hj (by simpa using hjeq)

/-- `ramfs_find_free_slot` finds the end of the directory. -/
theorem findFreeSlot (h : Represents m r d a) :
    ramfsFindFreeSlot r = if a.names.length < maxFiles then some a.names.length else none := by
  split
  · next hlt =>
    rw [ramfsFindFreeSlot, findSlot_eq_some]
    refine ⟨hlt, ?_, fun j hj => ?_⟩
    · have := (h.used _ hlt).not.mpr (Nat.lt_irrefl _)
      exact beq_iff_eq.mpr (not_not.mp this)
    · exact beq_eq_false_iff_ne.mpr ((h.used j (by omega)).mpr hj)
  · next hge =>
    rw [ramfsFindFreeSlot, findSlot_eq_none]
    intro j hj
    exact beq_eq_false_iff_ne.mpr ((h.used j hj).mpr (by omega))

theorem valid_iff (h : Represents m r d a) (inode : Word) :
    r.valid inode = true ↔ a.Has inode := by
  have hle := h.length_le
  unfold Ramfs.valid Files.Has
  rw [Bool.and_eq_true, Bool.and_eq_true, decide_eq_true_iff, decide_eq_true_iff, bne_iff_ne]
  constructor
  · rintro ⟨⟨hpos, hmax⟩, huse⟩
    have := (h.used (inode.toNat - 1) (by omega)).mp huse
    omega
  · rintro ⟨hpos, hmax⟩
    exact ⟨⟨hpos, by omega⟩, (h.used (inode.toNat - 1) (by omega)).mpr (by omega)⟩

end Represents

/-! ## Creating and opening -/

theorem dataAddr_zero (d : Word) (i : Nat) :
    dataAddr d i 0 = d + BitVec.ofNat 32 (i * maxFileSize) := by
  simp [dataAddr]

theorem dataAddr_add (d : Word) (i offset k : Nat) :
    dataAddr d i offset + BitVec.ofNat 32 k = dataAddr d i (offset + k) := by
  unfold dataAddr
  rw [BitVec.add_assoc, ← BitVec.ofNat_add]

theorem Ramfs.file_modify (r : Ramfs) {i : Nat} (hi : i < maxFiles)
    (f : RamfsFile → RamfsFile) (j : Nat) :
    (r.modify i f).file j = if j = i then f (r.file i) else r.file j :=
  slot_modifySlot r.files hi f j

/-- One entry changed, with the file it stands for. -/
theorem Represents.modify {m m' : Mem} {r : Ramfs} {d : Word} {a a' : Files}
    (h : Represents m r d a) {i : Nat} {g : RamfsFile → RamfsFile}
    (hlength : a'.names.length ≤ maxFiles) (hi : i < a'.names.length)
    (hother : ∀ j, j ≠ i → (j < a'.names.length ↔ j < a.names.length) ∧
      a'.names[j]? = a.names[j]? ∧ (a'.file j).size = (a.file j).size)
    (huse : (g (r.file i)).inUse ≠ 0)
    (hname : a'.names[i]? = some (CString.ofArray (g (r.file i)).name))
    (hsize : (g (r.file i)).size.toNat = (a'.file i).size)
    (hdata : (g (r.file i)).data = BitVec.ofNat 32 (i * maxFileSize))
    (hmode : (g (r.file i)).mode = 0o644)
    (hbytes : ∀ j < maxFiles, ∀ k < maxFileSize, m' (dataAddr d j k) = (a'.file j).bytes k) :
    Represents m' (r.modify i g) d a' := by
  have hfile := r.file_modify (Nat.lt_of_lt_of_le hi hlength) g
  -- what holds of the changed entry and of the others holds of all
  have hall : ∀ {P : Nat → RamfsFile → Prop}, P i (g (r.file i)) →
      (∀ j, j ≠ i → j < a.names.length → P j (r.file j)) →
      ∀ j, j < a'.names.length → P j ((r.modify i g).file j) := by
    intro P hnew hold j hj
    rw [hfile]
    by_cases hji : j = i
    · rw [if_pos hji, hji]
      exact hnew
    · rw [if_neg hji]
      exact hold j hji ((hother j hji).1.mp hj)
  refine
    { fileData := h.fileData
      length_le := hlength
      used := fun j hj => ?_
      name := hall (P := fun j f => a'.names[j]? = some (CString.ofArray f.name)) hname ?_
      size := hall (P := fun j f => f.size.toNat = (a'.file j).size) hsize ?_
      data := hall (P := fun j f => f.data = BitVec.ofNat 32 (j * maxFileSize)) hdata ?_
      mode := hall (P := fun _ f => f.mode = 0o644) hmode ?_
      bytes := hbytes }
  · rw [hfile]
    by_cases hji : j = i
    · rw [if_pos hji, hji]
      exact iff_of_true huse hi
    · rw [if_neg hji, h.used j hj, (hother j hji).1]
  · exact fun j hji hj => (hother j hji).2.1.trans (h.name j hj)
  · exact fun j hji hj => (h.size j hj).trans (hother j hji).2.2.symm
  · exact fun j _ hj => h.data j hj
  · exact fun j _ hj => h.mode j hj

/-- A new entry at the end. -/
theorem Represents.add {m : Mem} {r : Ramfs} {d : Word} {a : Files} (h : Represents m r d a)
    (hlt : a.names.length < maxFiles) {name : CString} (hname : name.bytes.length < 256)
    {data : List Byte} (hdata : data.length ≤ maxFileSize) :
    Represents (memcpyTo m (dataAddr d a.names.length 0) (bufferOf data) data.length)
      (r.modify a.names.length fun f =>
        f.fill a.names.length name (BitVec.ofNat 32 data.length)) d
      (a.add name ((a.file a.names.length).create data hdata)) := by
  have hlen := a.length_names_add name ((a.file a.names.length).create data hdata)
  have hsize : (BitVec.ofNat 32 data.length).toNat = data.length := by
    rw [BitVec.toNat_ofNat, Nat.mod_eq_of_lt]
    unfold maxFileSize at hdata
    omega
  refine h.modify (by omega) (by omega) (fun j hj => ⟨by omega, ?_, ?_⟩) ?_ ?_ ?_ rfl rfl
    fun j hj k hk => ?_
  · rcases Nat.lt_or_gt_of_ne hj with hbelow | habove
    · exact List.getElem?_append_left hbelow
    · rw [List.getElem?_eq_none (by omega), List.getElem?_eq_none (by omega)]
  · rw [Files.file_add, if_neg hj]
  · simp [RamfsFile.fill]
  · rw [RamfsFile.fill, CString.ofArray_strncpy _ _ (by omega),
      CString.truncate_eq_self.mpr (by omega)]
    exact List.getElem?_concat_length
  · rw [Files.file_add, if_pos rfl]
    exact hsize
  · rw [memcpyTo_dataAddr m (bufferOf data) hlt hj hk (by decide) (by omega), h.bytes j hj k hk,
      Files.file_add]
    by_cases hin : j = a.names.length
    · subst hin
      rw [if_pos rfl]
      simp only [FileImage.create, FileImage.overwrite, true_and]
    · rw [if_neg fun hh => hin hh.1, if_neg hin]

/-- The state stands for the directory `a`, with the contents from `d` on. -/
def Stands (s : RamfsState) (d : Word) (a : Files) : Prop :=
  ∃ r, s.ramfs = some r ∧ Represents s.heap.bytes r d a

theorem createAt_bytes (s : RamfsState) (r : Ramfs) (i : Nat) (name : CString)
    (src : Nat → Byte) (size : Word) :
    (createAt s r i name (some src) size).heap.bytes
      = memcpyTo s.heap.bytes (s.fileData r + BitVec.ofNat 32 (i * maxFileSize)) src
          size.toNat := by
  simp only [createAt]
  split
  · rfl
  · next hzero =>
    have h0 : size.toNat = 0 := by omega
    rw [h0]
    rfl

/-- `ramfs_create_file` with the contents in a buffer. -/
theorem Stands.create {s : RamfsState} {d : Word} {a : Files} (h : Stands s d a)
    {name : CString} (hname : name.bytes.length < 256) {data : List Byte}
    (hdata : data.length < 2 ^ 32) :
    Stands (ramfsCreateFile s (some name) (some (bufferOf data))
        (BitVec.ofNat 32 data.length)).1 d (a.create name data).1 ∧
      (ramfsCreateFile s (some name) (some (bufferOf data)) (BitVec.ofNat 32 data.length)).2
        = (a.create name data).2 := by
  obtain ⟨r, hr, hrep⟩ := h
  have hsize : (BitVec.ofNat 32 data.length).toNat = data.length := by
    rw [BitVec.toNat_ofNat, Nat.mod_eq_of_lt hdata]
  have hbase : s.fileData r = d := by rw [RamfsState.fileData, hrep.fileData]; rfl
  rw [ramfsCreateFile_eq hr, hsize, hrep.findFile, hrep.findFreeSlot, Files.create]
  by_cases hle : data.length ≤ maxFileSize
  · rw [if_neg (by omega), dif_pos hle]
    by_cases hmem : name ∈ a.names
    · rw [if_pos (List.isSome_idxOf?.mpr hmem), if_pos (Or.inl hmem)]
      exact ⟨⟨r, hr, hrep⟩, rfl⟩
    · rw [if_neg fun hsome => hmem (List.isSome_idxOf?.mp hsome)]
      by_cases hlt : a.names.length < maxFiles
      · rw [if_pos hlt, if_neg (not_or.mpr ⟨hmem, by omega⟩)]
        have hadd := hrep.add hlt hname hle
        rw [dataAddr_zero] at hadd
        refine ⟨⟨_, rfl, ?_⟩, rfl⟩
        rw [createAt_bytes, hbase, hsize]
        exact hadd
      · rw [if_neg hlt, if_pos (Or.inr (by omega))]
        exact ⟨⟨r, hr, hrep⟩, rfl⟩
  · rw [if_pos (by omega), dif_neg hle]
    exact ⟨⟨r, hr, hrep⟩, rfl⟩

/-- `ramfs_open` of a name that exists. -/
theorem ramfsOpen_of_found {s : RamfsState} {r : Ramfs} (hr : s.ramfs = some r) {name : CString}
    {i : Nat} (hi : ramfsFindFile r name = some i) (flags : Word) :
    ramfsOpen s (some name) flags = (s, (i : Int) + 1) := by
  simp only [ramfsOpen, hr, hi]

/-- `ramfs_open` of a name that does not exist, to create it. -/
theorem ramfsOpen_of_created {s s' : RamfsState} {r r' : Ramfs} (hr : s.ramfs = some r)
    {name : CString} (hnone : ramfsFindFile r name = none) {flags : Word}
    (hflags : flags &&& oCreat ≠ 0) (hcreate : ramfsCreateFile s (some name) none 0 = (s', 0))
    (hr' : s'.ramfs = some r') {i : Nat} (hi : ramfsFindFile r' name = some i) :
    ramfsOpen s (some name) flags = (s', (i : Int) + 1) := by
  simp only [ramfsOpen, hr, hnone, hcreate, if_pos hflags, hr', Option.bind_some, hi, if_true]

/-- `ramfs_open` of a name that does not exist and is not created. -/
theorem ramfsOpen_of_refused {s : RamfsState} {r : Ramfs} (hr : s.ramfs = some r)
    {name : CString} (hnone : ramfsFindFile r name = none) {flags : Word}
    (h : flags &&& oCreat ≠ 0 → ramfsCreateFile s (some name) none 0 = (s, -1)) :
    ramfsOpen s (some name) flags = (s, -1) := by
  by_cases hflags : flags &&& oCreat ≠ 0
  · simp only [ramfsOpen, hr, hnone, if_pos hflags, h hflags]
    rfl
  · simp only [ramfsOpen, hr, hnone, if_neg hflags]

theorem Stands.open' {s : RamfsState} {d : Word} {a : Files} (h : Stands s d a)
    {name : CString} (hname : name.bytes.length < 256) (flags : Word) :
    Stands (ramfsOpen s (some name) flags).1 d (a.open' name flags).1 ∧
      (ramfsOpen s (some name) flags).2 = (a.open' name flags).2 := by
  obtain ⟨r, hr, hrep⟩ := h
  have hfind := hrep.findFile name
  unfold Files.open' Files.inode
  cases hidx : a.names.idxOf? name with
  | some i =>
    rw [ramfsOpen_of_found hr (hfind.trans hidx)]
    exact ⟨⟨r, hr, hrep⟩, by simp⟩
  | none =>
    have hnone : ramfsFindFile r name = none := hfind.trans hidx
    have hmem : name ∉ a.names := List.idxOf?_eq_none_iff.mp hidx
    have hcreate := ramfsCreateFile_eq hr name none 0
    rw [if_neg (by decide), hnone, Option.isSome_none, if_neg Bool.false_ne_true,
      hrep.findFreeSlot] at hcreate
    rw [Option.map_none]
    by_cases hlt : a.names.length < maxFiles
    · by_cases hflags : flags &&& oCreat ≠ 0
      · rw [if_pos hlt] at hcreate
        -- the entry is filled and nothing is copied
        have hempty : ([] : List Byte).length ≤ maxFileSize := Nat.zero_le _
        have hadd := hrep.add hlt hname hempty
        have hagain := hadd.findFile name
        have hpos := Files.idxOf?_add_self hmem
          ((a.file a.names.length).create [] (Nat.zero_le _))
        rw [ramfsOpen_of_created hr hnone hflags hcreate rfl (hagain.trans hpos),
          if_pos ⟨hflags, hlt⟩]
        exact ⟨⟨_, rfl, hadd⟩, by simp⟩
      · rw [ramfsOpen_of_refused hr hnone fun hf => absurd hf hflags,
          if_neg fun hh => hflags hh.1]
        exact ⟨⟨r, hr, hrep⟩, rfl⟩
    · rw [if_neg hlt] at hcreate
      rw [ramfsOpen_of_refused hr hnone fun _ => hcreate, if_neg fun hh => hlt hh.2]
      exact ⟨⟨r, hr, hrep⟩, rfl⟩

/-! ## Reading and writing -/

/-- The entry of an inode number of the directory, and where its bytes lie. -/
theorem Represents.entry {m : Mem} {r : Ramfs} {d : Word} {a : Files} (h : Represents m r d a)
    {inode : Word} (hhas : a.Has inode) (s : RamfsState) (offset : Word) :
    inode.toNat - 1 < a.names.length ∧
      s.fileData r + (r.file (inode.toNat - 1)).data + offset
        = dataAddr d (inode.toNat - 1) offset.toNat := by
  obtain ⟨hpos, hle⟩ := hhas
  have hlt : inode.toNat - 1 < a.names.length := by omega
  refine ⟨hlt, ?_⟩
  rw [h.data _ hlt, RamfsState.fileData, h.fileData, Option.getD_some, dataAddr,
    BitVec.ofNat_toNat, BitVec.setWidth_eq]

/-- The number of bytes `ramfs_write` copies. -/
theorem toNat_writeTransfer_count (s : RamfsState) (r : Ramfs) (inode : Word) {offset : Word}
    (ho : offset.toNat < maxFileSize) {n : Nat} (hn : offset.toNat + n < 2 ^ 32) :
    (writeTransfer s r inode (BitVec.ofNat 32 n) offset).count.toNat
      = FileImage.stored offset.toNat n := by
  have hsum : (offset + BitVec.ofNat 32 n).toNat = offset.toNat + n := by
    rw [BitVec.toNat_add, BitVec.toNat_ofNat]
    omega
  unfold writeTransfer FileImage.stored
  rw [hsum]
  unfold maxFileSize at *
  split
  · have hsub : (BitVec.ofNat 32 4096 - offset).toNat = 4096 - offset.toNat := by bv_omega
    rw [hsub]
    omega
  · rw [BitVec.toNat_ofNat]
    omega

theorem toNat_grow_size (f : RamfsFile) {offset written : Word}
    (h : offset.toNat + written.toNat < 2 ^ 32) :
    (f.grow offset written).size.toNat = max f.size.toNat (offset.toNat + written.toNat) := by
  have hsum : (offset + written).toNat = offset.toNat + written.toNat := by
    rw [BitVec.toNat_add, Nat.mod_eq_of_lt h]
  unfold RamfsFile.grow
  split
  · next hlt =>
    rw [BitVec.lt_def, hsum] at hlt
    rw [Nat.max_eq_right (Nat.le_of_lt hlt)]
    exact hsum
  · next hge =>
    rw [BitVec.lt_def, hsum] at hge
    rw [Nat.max_eq_left (Nat.le_of_not_lt hge)]

/-- What `ramfs_write` leaves of an entry but for its size. -/
theorem grow_fields (f : RamfsFile) (offset written : Word) :
    (f.grow offset written).inUse = f.inUse ∧ (f.grow offset written).name = f.name ∧
      (f.grow offset written).data = f.data ∧ (f.grow offset written).mode = f.mode := by
  unfold RamfsFile.grow
  split
  · exact ⟨rfl, rfl, rfl, rfl⟩
  · exact ⟨rfl, rfl, rfl, rfl⟩

theorem toInt_of_small {x : Word} (h : x.toNat ≤ maxFileSize) : x.toInt = x.toNat := by
  unfold maxFileSize at h
  rw [BitVec.toInt_eq_toNat_cond]
  split
  · rfl
  · omega

/-- Bytes stored in one array. -/
theorem Represents.write {m : Mem} {r : Ramfs} {d : Word} {a : Files} (h : Represents m r d a)
    {i : Nat} (hi : i < a.names.length) {offset written : Word} (ho : offset.toNat < maxFileSize)
    {buffer : List Byte} (hw : written.toNat = FileImage.stored offset.toNat buffer.length) :
    Represents (memcpyTo m (dataAddr d i offset.toNat) (bufferOf buffer) written.toNat)
      (r.modify i fun f => f.grow offset written) d
      (a.set i ((a.file i).write offset.toNat ho buffer)) := by
  have hle := h.length_le
  have hi' : i < maxFiles := by omega
  have hfit : offset.toNat + written.toNat ≤ maxFileSize := by
    unfold FileImage.stored at hw
    omega
  obtain ⟨huse, hname, hdata, hmode⟩ := grow_fields (r.file i) offset written
  refine h.modify hle hi (fun j hj => ⟨Iff.rfl, rfl, ?_⟩) ?_ ?_ ?_ ?_ ?_ fun j hj k hk => ?_
  · rw [Files.file_set, if_neg hj]
  · rw [huse]
    exact (h.used i hi').mpr hi
  · rw [hname]
    exact h.name i hi
  · rw [toNat_grow_size _ (by unfold maxFileSize at hfit; omega), hw, h.size i hi, Files.file_set,
      if_pos rfl]
    rfl
  · rw [hdata, h.data i hi]
  · rw [hmode, h.mode i hi]
  · rw [memcpyTo_dataAddr m (bufferOf buffer) hi' hj hk ho hfit, h.bytes j hj k hk,
      Files.file_set]
    by_cases hji : j = i
    · subst hji
      rw [if_pos rfl]
      simp only [FileImage.write, FileImage.overwrite, hw, true_and]
    · rw [if_neg fun hh => hji hh.1, if_neg hji]

theorem Stands.write {s : RamfsState} {d : Word} {a : Files} (h : Stands s d a) (inode : Word)
    {buffer : List Byte} {offset : Word} (hproper : offset.toNat + buffer.length < 2 ^ 32) :
    Stands (ramfsWrite s inode (some (bufferOf buffer)) (BitVec.ofNat 32 buffer.length) offset).1
        d (a.write inode buffer offset).1 ∧
      (ramfsWrite s inode (some (bufferOf buffer)) (BitVec.ofNat 32 buffer.length) offset).2.2
        = (a.write inode buffer offset).2 := by
  obtain ⟨r, hr, hrep⟩ := h
  rw [ramfsWrite_eq hr, Files.write]
  by_cases hhas : a.Has inode
  · rw [if_pos ((hrep.valid_iff inode).mpr hhas), if_pos hhas]
    by_cases ho : offset.toNat < maxFileSize
    · rw [if_neg (by omega), dif_pos ho]
      obtain ⟨hlt, haddr⟩ := hrep.entry hhas s offset
      have hcount := toNat_writeTransfer_count s r inode ho hproper
      have hwrite := hrep.write hlt ho hcount
      refine ⟨⟨_, rfl, ?_⟩, ?_⟩
      · show Represents (memcpyTo s.heap.bytes _ _ _) _ _ _
        rw [show (writeTransfer s r inode (BitVec.ofNat 32 buffer.length) offset).addr
          = dataAddr d (inode.toNat - 1) offset.toNat from haddr]
        exact hwrite
      · show BitVec.toInt _ = _
        rw [toInt_of_small (by rw [hcount]; unfold FileImage.stored; omega), hcount]
    · rw [if_pos (by omega), dif_neg ho]
      exact ⟨⟨r, hr, hrep⟩, rfl⟩
  · rw [if_neg (mt (hrep.valid_iff inode).mp hhas), if_neg hhas]
    exact ⟨⟨r, hr, hrep⟩, rfl⟩

/-- The number of bytes `ramfs_read` copies. -/
theorem toNat_read_count {size offset : Word} (count : Word) (ho : offset.toNat < size.toNat)
    (hn : offset.toNat + count.toNat < 2 ^ 32) :
    (if size < offset + count then size - offset else count).toNat
      = min (offset.toNat + count.toNat) size.toNat - offset.toNat := by
  have hsum : (offset + count).toNat = offset.toNat + count.toNat := by
    rw [BitVec.toNat_add, Nat.mod_eq_of_lt hn]
  split
  · next hlt =>
    rw [BitVec.lt_def, hsum] at hlt
    bv_omega
  · next hge =>
    rw [BitVec.lt_def, hsum] at hge
    omega

/-- A transfer out of one array is a part of the file. -/
theorem Represents.transfer_bytes {m : Mem} {r : Ramfs} {d : Word} {a : Files}
    (h : Represents m r d a) {i : Nat} (hi : i < a.names.length) {offset : Nat} {count : Word}
    (hfit : offset + count.toNat ≤ maxFileSize) :
    (Transfer.mk (dataAddr d i offset) count).bytes m
      = (List.range' offset count.toNat).map (a.file i).bytes := by
  have hle := h.length_le
  rw [List.range'_eq_map_range, List.map_map, Transfer.bytes]
  refine List.map_congr_left fun k hk => ?_
  have hk' : k < count.toNat := List.mem_range.mp hk
  rw [dataAddr_add]
  exact h.bytes i (by omega) (offset + k) (by omega)

theorem Stands.read {s : RamfsState} {d : Word} {a : Files} (h : Stands s d a) (inode : Word)
    {count offset : Word} (hproper : offset.toNat + count.toNat < 2 ^ 32) :
    (s.step (.read inode count offset)).2 = (a.step (.read inode count offset)).2 := by
  obtain ⟨r, hr, hrep⟩ := h
  show FileAnswer.bytes _ _ = .bytes _ _
  rw [ramfsRead_eq hr, Files.read]
  by_cases hhas : a.Has inode
  · obtain ⟨hlt, haddr⟩ := hrep.entry hhas s offset
    have hsize := hrep.size _ hlt
    have hle := (a.file (inode.toNat - 1)).size_le
    rw [if_pos ((hrep.valid_iff inode).mpr hhas), if_pos hhas]
    by_cases ho : (r.file (inode.toNat - 1)).size ≤ offset
    · rw [BitVec.le_def, hsize] at ho
      have hempty : min (offset.toNat + count.toNat) (a.file (inode.toNat - 1)).size
          - offset.toNat = 0 := by omega
      rw [if_pos (by rw [BitVec.le_def, hsize]; exact ho), FileImage.read, hempty]
      rfl
    · rw [BitVec.le_def, hsize] at ho
      have hlt' : offset.toNat < (r.file (inode.toNat - 1)).size.toNat := by omega
      have hcount := toNat_read_count count hlt' hproper
      rw [if_neg (by rw [BitVec.le_def, hsize]; exact ho)]
      simp only [haddr, Option.map_some, Option.getD_some]
      rw [hrep.transfer_bytes hlt (by omega), toInt_of_small (by omega), hcount, hsize]
      simp [FileImage.read]
  · rw [if_neg (mt (hrep.valid_iff inode).mp hhas), if_neg hhas]
    rfl

theorem Stands.stat {s : RamfsState} {d : Word} {a : Files} (h : Stands s d a) (name : CString) :
    ramfsStat s (some name) true = a.stat name := by
  obtain ⟨r, hr, hrep⟩ := h
  have hfind := hrep.findFile name
  simp only [ramfsStat, hr, if_true, hfind, Files.stat, Files.inode, Option.map_map]
  cases hidx : a.names.idxOf? name with
  | none => rfl
  | some i =>
    have hlt : i < a.names.length := (List.findIdx?_eq_some_iff_getElem.mp hidx).1
    simp only [Option.map_some, Function.comp_apply, Nat.add_sub_cancel, ← hrep.size i hlt,
      BitVec.ofNat_toNat, BitVec.setWidth_eq, hrep.mode i hlt]

/-! ## Runs -/

/-- **A call with real buffers answers and acts as it does on the directory.** -/
theorem Stands.step {s : RamfsState} {d : Word} {a : Files} (h : Stands s d a) {call : FileCall}
    (hcall : call.Proper) :
    Stands (s.step call).1 d (a.step call).1 ∧ (s.step call).2 = (a.step call).2 := by
  cases call with
  | create name data =>
    obtain ⟨hstands, hret⟩ := h.create hcall.1 hcall.2
    exact ⟨hstands, congrArg FileAnswer.ret hret⟩
  | open' name flags =>
    obtain ⟨hstands, hret⟩ := h.open' hcall flags
    exact ⟨hstands, congrArg FileAnswer.ret hret⟩
  | write inode buffer offset =>
    obtain ⟨hstands, hret⟩ := h.write inode hcall
    exact ⟨hstands, congrArg FileAnswer.ret hret⟩
  | read inode count offset => exact ⟨h, h.read inode hcall⟩
  | stat name => exact ⟨h, congrArg FileAnswer.stat (h.stat name)⟩

theorem Stands.run {s : RamfsState} {d : Word} {a : Files} (h : Stands s d a)
    {calls : List FileCall} (hcalls : ∀ call ∈ calls, call.Proper) :
    Stands (Infra.run RamfsState.step s calls) d (Infra.run Files.step a calls) ∧
      trace RamfsState.step s calls = trace Files.step a calls :=
  simulation RamfsState.step (R := fun s a => Stands s d a) (fun _ _ _ hs hc => hs.step hc) h
    hcalls

/-- The entries as `ramfs_init` clears them are the empty directory. -/
theorem represents_format (m : Mem) {r : Ramfs} {d : Word} (hd : r.fileData = some d) :
    Represents m r.format d
      ⟨[], fun i => ⟨fun k => m (dataAddr d i k), 0, Nat.zero_le _⟩⟩ where
  fileData := hd
  length_le := Nat.zero_le _
  used i hi := by
    have hfile : r.format.file i = _ := slot_map r.files _ hi
    rw [hfile]
    exact iff_of_false (fun hne => hne rfl) (Nat.not_lt_zero i)
  name i hi := absurd hi (Nat.not_lt_zero i)
  size i hi := absurd hi (Nat.not_lt_zero i)
  data i hi := absurd hi (Nat.not_lt_zero i)
  mode i hi := absurd hi (Nat.not_lt_zero i)
  bytes _ _ _ _ := rfl

/-- What `ramfs_init` leaves stands for the directory with the three default files. -/
theorem stands_ramfsSetup (s : RamfsState) {r : Ramfs} {d : Word} (hd : r.fileData = some d) :
    Stands (ramfsSetup s r) d (Files.initial fun i k => s.heap.bytes (dataAddr d i k)) := by
  have hempty : Stands { s with ramfs := some r.format } d
      ⟨[], fun i => ⟨fun k => s.heap.bytes (dataAddr d i k), 0, Nat.zero_le _⟩⟩ :=
    ⟨r.format, rfl, represents_format s.heap.bytes hd⟩
  have hdefault : ∀ call ∈ [FileCall.create helloName helloText,
      .create kernelName kernelText, .create readmeName readmeText], call.Proper := by
    intro call hcall
    simp only [List.mem_cons, List.not_mem_nil, or_false] at hcall
    rcases hcall with rfl | rfl | rfl
    · exact ⟨by decide, by decide⟩
    · exact ⟨by decide, by decide⟩
    · exact ⟨by decide, by decide⟩
  exact (hempty.run hdefault).1

/-! ## Isolation -/

/-- The call is about the file of this name: it creates or opens it, or writes to its inode. -/
def FileCall.Concerns (s : RamfsState) (name : CString) : FileCall → Prop
  | .create n _ => n = name
  | .open' n _ => n = name
  | .write inode _ _ => (ramfsOpen s (some name) 0).2 = inode.toNat
  | .read _ _ _ => False
  | .stat _ => False

/-- The call makes no new file. -/
def FileCall.CreatesNothing (s : RamfsState) : FileCall → Prop
  | .create name data => (s.step (.create name data)).1 = s
  | .open' name flags => (s.step (.open' name flags)).1 = s
  | _ => True

/-- What is seen of a name is the same before and after a call: the answer of `ramfs_stat`, the
answers of `ramfs_open`, and what `ramfs_read` returns of its inode. An `ramfs_open` that would
make the file is left out where the call has made another, for the new file then gets the next
inode number, if there is one left. -/
structure SameView (call : FileCall) (s s' : RamfsState) (name : CString) : Prop where
  stat : ramfsStat s' (some name) true = ramfsStat s (some name) true
  open' : ∀ flags, call.CreatesNothing s ∨ flags &&& oCreat = 0 ∨
    (ramfsOpen s (some name) 0).2 ≠ -1 →
    (ramfsOpen s' (some name) flags).2 = (ramfsOpen s (some name) flags).2
  read : ∀ inode : Word, (ramfsOpen s (some name) 0).2 = inode.toNat → ∀ count offset,
    offset.toNat + count.toNat < 2 ^ 32 →
    (s'.step (.read inode count offset)).2 = (s.step (.read inode count offset)).2

/-- A call that does not concern a name leaves its position and its file alone. -/
theorem Files.step_frame (a : Files) (call : FileCall) (name : CString)
    (hcreate : ∀ n data, call = .create n data → n ≠ name)
    (hopen : ∀ n flags, call = .open' n flags → n ≠ name)
    (hwrite : ∀ inode buffer offset, call = .write inode buffer offset →
      a.inode name ≠ some inode.toNat) :
    (a.step call).1.names.idxOf? name = a.names.idxOf? name ∧
      ∀ i, a.names.idxOf? name = some i → (a.step call).1.file i = a.file i := by
  have hadd : ∀ n f, n ≠ name → (a.add n f).names.idxOf? name = a.names.idxOf? name ∧
      ∀ i, a.names.idxOf? name = some i → (a.add n f).file i = a.file i := by
    intro n f hn
    refine ⟨a.idxOf?_add_of_ne (Ne.symm hn) f, fun i hi => ?_⟩
    have hlt : i < a.names.length := (List.findIdx?_eq_some_iff_getElem.mp hi).1
    rw [a.file_add, if_neg (by omega)]
  cases call with
  | create n data =>
    show (a.create n data).1.names.idxOf? name = _ ∧ _
    rw [show (a.step (.create n data)).1 = (a.create n data).1 from rfl, Files.create]
    split
    · split
      · exact ⟨rfl, fun _ _ => rfl⟩
      · exact hadd n _ (hcreate n data rfl)
    · exact ⟨rfl, fun _ _ => rfl⟩
  | open' n flags =>
    rw [show (a.step (.open' n flags)).1 = (a.open' n flags).1 from rfl, Files.open']
    split
    · exact ⟨rfl, fun _ _ => rfl⟩
    · split
      · exact hadd n _ (hopen n flags rfl)
      · exact ⟨rfl, fun _ _ => rfl⟩
  | write inode buffer offset =>
    rw [show (a.step (.write inode buffer offset)).1 = (a.write inode buffer offset).1 from rfl,
      Files.write]
    split
    · next hhas =>
      split
      · refine ⟨rfl, fun i hi => ?_⟩
        have hne : i ≠ inode.toNat - 1 := by
          intro heq
          refine hwrite inode buffer offset rfl ?_
          rw [Files.inode, hi, Option.map_some, heq, Nat.sub_add_cancel hhas.1]
        rw [a.file_set, if_neg hne]
      · exact ⟨rfl, fun _ _ => rfl⟩
    · exact ⟨rfl, fun _ _ => rfl⟩
  | read inode count offset => exact ⟨rfl, fun _ _ => rfl⟩
  | stat n => exact ⟨rfl, fun _ _ => rfl⟩

/-- `ramfs_open` without `O_CREAT` tells the inode number. -/
theorem Files.open'_zero (a : Files) (name : CString) (i : Nat) :
    (a.open' name 0).2 = i ↔ a.inode name = some i := by
  unfold Files.open'
  cases a.inode name with
  | some j =>
    simp only [Option.some.injEq]
    omega
  | none =>
    have hflags : ¬ ((0 : Word) &&& oCreat ≠ 0 ∧ a.names.length < maxFiles) := by
      simp
    rw [if_neg hflags]
    simp only [reduceCtorEq]

/-- What `ramfs_open` answers depends on the names only, and for a name that exists, or is not to
be created, on its position only. -/
theorem Files.open'_congr {a a' : Files} {name : CString} {flags : Word}
    (hinode : a'.inode name = a.inode name)
    (h : a'.names = a.names ∨ flags &&& oCreat = 0 ∨ (a.open' name 0).2 ≠ -1) :
    (a'.open' name flags).2 = (a.open' name flags).2 := by
  unfold Files.open' at h ⊢
  rw [hinode]
  cases hi : a.inode name with
  | some i => rfl
  | none =>
    rw [hi] at h
    rcases h with h | h | h
    · simp only [h]
      split <;> rfl
    · simp only [h, ne_eq, not_true_eq_false, false_and, if_false]
    · exact absurd (by simp) h

/-- A call that does not concern a name changes nothing that is seen of it. -/
theorem Stands.sameView {s : RamfsState} {d : Word} {a : Files} (h : Stands s d a)
    {call : FileCall} (hcall : call.Proper) {name : CString} (hname : name.bytes.length < 256)
    (hconcerns : ¬ call.Concerns s name) : SameView call s (s.step call).1 name := by
  have hopen := (h.open' hname 0).2
  have hnext := (h.step hcall).1
  obtain ⟨hidx, hfile⟩ := a.step_frame call name
    (fun n data heq hn => hconcerns (by rw [heq]; exact hn))
    (fun n flags heq hn => hconcerns (by rw [heq]; exact hn))
    (fun inode buffer offset heq hn => hconcerns (by
      rw [heq]
      exact hopen.trans ((a.open'_zero name inode.toNat).mpr hn)))
  have hinode : (a.step call).1.inode name = a.inode name := by
    rw [Files.inode, Files.inode, hidx]
  refine ⟨?_, fun flags hflags => ?_, fun inode hin count offset hproper => ?_⟩
  · rw [hnext.stat, h.stat, Files.stat, Files.stat, hinode]
    cases hi : a.names.idxOf? name with
    | none => simp [Files.inode, hi]
    | some i => simp [Files.inode, hi, hfile i hi]
  · rcases hflags with hnothing | hflags
    · cases call with
      | create n data => rw [show (s.step (.create n data)).1 = s from hnothing]
      | open' n flags => rw [show (s.step (.open' n flags)).1 = s from hnothing]
      | write inode buffer offset =>
        rw [(hnext.open' hname flags).2, (h.open' hname flags).2]
        refine Files.open'_congr hinode (Or.inl ?_)
        show (a.write inode buffer offset).1.names = a.names
        unfold Files.write
        split
        · split
          · rfl
          · rfl
        · rfl
      | read inode count offset => rfl
      | stat n => rfl
    · rw [(hnext.open' hname flags).2, (h.open' hname flags).2]
      exact Files.open'_congr hinode (Or.inr (by rwa [← hopen]))
  · rw [hnext.read inode hproper, h.read inode hproper]
    have hin' := (a.open'_zero name inode.toNat).mp (hopen.symm.trans hin)
    obtain ⟨i, hi, hi1⟩ := Option.map_eq_some_iff.mp hin'
    have hlt : i < a.names.length := (List.findIdx?_eq_some_iff_getElem.mp hi).1
    have hlt' : i < (a.step call).1.names.length :=
      (List.findIdx?_eq_some_iff_getElem.mp (hidx.trans hi)).1
    have hsub : inode.toNat - 1 = i := by omega
    have hhas : a.Has inode := ⟨by omega, by omega⟩
    have hhas' : (a.step call).1.Has inode := ⟨by omega, by omega⟩
    have hread : (a.step call).1.read inode count offset = a.read inode count offset := by
      simp only [Files.read, if_pos hhas, if_pos hhas', hsub, hfile i hi]
    show FileAnswer.bytes _ _ = FileAnswer.bytes _ _
    rw [hread]

/-! ## Refinement -/

/--
**The file system is a directory of independent files.**

From an initialised file system, whatever the heap held before, every sequence of calls with real
buffers gets the answers it gets from the directory of files, and the file system still stands for
that directory at the end. There a call that does not concern a name leaves what is seen of it as
it was.
-/
theorem ramfs_refines_files (s : RamfsState) {r : Ramfs} {d : Word} (hd : r.fileData = some d)
    {calls : List FileCall} (hcalls : ∀ call ∈ calls, call.Proper) :
    trace RamfsState.step (ramfsSetup s r) calls
        = trace Files.step (Files.initial fun i k => s.heap.bytes (dataAddr d i k)) calls ∧
      Stands (Infra.run RamfsState.step (ramfsSetup s r) calls) d
        (Infra.run Files.step (Files.initial fun i k => s.heap.bytes (dataAddr d i k)) calls) ∧
      ∀ (call : FileCall) (name : CString), call.Proper → name.bytes.length < 256 →
        ¬ call.Concerns (Infra.run RamfsState.step (ramfsSetup s r) calls) name →
        SameView call (Infra.run RamfsState.step (ramfsSetup s r) calls)
          ((Infra.run RamfsState.step (ramfsSetup s r) calls).step call).1 name := by
  obtain ⟨hstands, htrace⟩ := (stands_ramfsSetup s hd).run hcalls
  exact ⟨htrace, hstands, fun call name hcall hname hconcerns =>
    hstands.sameView hcall hname hconcerns⟩

theorem ramfs_refines_files_two_calls :
    (Ramfs.ofBytes bootHeap.bytes 0 (some 17416)).fileData = some 17416 ∧
      (∀ call ∈ [FileCall.write 1 [0x4A] 0, .read 1 5 0], call.Proper) ∧
      trace RamfsState.step
          (ramfsSetup ⟨bootHeap, 0x20000, none⟩ (Ramfs.ofBytes bootHeap.bytes 0 (some 17416)))
          [.write 1 [0x4A] 0, .read 1 5 0]
        = trace Files.step (Files.initial fun i k => bootHeap.bytes (dataAddr 17416 i k))
          [.write 1 [0x4A] 0, .read 1 5 0] := by
  have hproper : ∀ call ∈ [FileCall.write 1 [0x4A] 0, .read 1 5 0], call.Proper := by
    intro call hcall
    simp only [List.mem_cons, List.not_mem_nil, or_false] at hcall
    rcases hcall with rfl | rfl
    · show (0 : Word).toNat + 1 < 2 ^ 32
      decide
    · show (0 : Word).toNat + (5 : Word).toNat < 2 ^ 32
      decide
  exact ⟨rfl, hproper, (ramfs_refines_files ⟨bootHeap, 0x20000, none⟩ rfl hproper).1⟩

end MinimalistOS
