import MinimalistOS.Properties.Loader
import MinimalistOS.Properties.Process

/-!
# Where a program ends up

* `placed` — the segments of a file, each with what has been handed out before it
* `loadSegments_ok` — what the loop leaves in memory
* `program_load_places_segments` — every segment stands in its own block, at its virtual address
* `programLoad_mem_outside` — nothing is written outside `program_memory`
* `lowest_address_not_written` — nothing is written where the program should begin
* `inPlace_of_no_bytes`, `not_inPlace_of_outside` — a program with a byte outside `program_memory`
  stands where it is started only if the byte was there before
* `image_preserved_iff` — when the program as a whole stands where it is started

Every segment is put at its virtual address counted from the start of its own block, and the process
is started at the entry point as the file has it.
-/

namespace MinimalistOS

open Infra

/-! ## The layout -/

/-- The segments from entry `i` on in the order they are loaded, each with the number of bytes
handed out before it. -/
def placed (file : File) (header : ElfHeader) (i used : Nat) : Nat → List (Nat × Phdr)
  | 0 => []
  | n + 1 =>
    if (file.phdr header i).type = ptLoad then
      (used, file.phdr header i) :: placed file header (i + 1) ((file.phdr header i).top used) n
    else placed file header (i + 1) used n

/-- The number of bytes handed out after the segments from entry `i` on. -/
def usedAfter (file : File) (header : ElfHeader) (i used : Nat) : Nat → Nat
  | 0 => used
  | n + 1 =>
    if (file.phdr header i).type = ptLoad then
      usedAfter file header (i + 1) ((file.phdr header i).top used) n
    else usedAfter file header (i + 1) used n

/-- Memory with segments put in place, one after another. -/
def imageMem (file : File) (m : Mem) (l : List (Nat × Phdr)) : Mem :=
  l.foldl (fun m q => q.2.place file m (q.2.dest q.1)) m

theorem imageMem_cons (file : File) (m : Mem) (q : Nat × Phdr) (l : List (Nat × Phdr)) :
    imageMem file m (q :: l) = imageMem file (q.2.place file m (q.2.dest q.1)) l := rfl

theorem cover_fields (info : ProgramInfo) (vaddr memsz : Word) :
    (info.cover vaddr memsz).entryPoint = info.entryPoint ∧
      (info.cover vaddr memsz).stackSize = info.stackSize := by
  unfold ProgramInfo.cover
  dsimp only
  split
  · split
    · exact ⟨rfl, rfl⟩
    · exact ⟨rfl, rfl⟩
  · split
    · exact ⟨rfl, rfl⟩
    · exact ⟨rfl, rfl⟩

/-- What a loop that has gone to its end leaves, with the segments in `l`. -/
structure LoopDone (s : LoaderState) (file : File) (info : ProgramInfo) (l : List (Nat × Phdr))
    (used : Nat) (r : Loading) : Prop where
  fits : ∀ q ∈ l, q.2.Granted q.1 ∧ q.2.Fits q.1
  mem_eq : r.state.mem = imageMem file s.mem l
  base_eq : r.state.base = s.base
  processes_eq : r.state.processes = s.processes
  used_eq : r.state.used.toNat = used
  entryPoint_eq : r.info.entryPoint = info.entryPoint
  stackSize_eq : r.info.stackSize = info.stackSize

theorem loadSegments_ok {file : File} {fd : Int} {header : ElfHeader} {phdrs : Word} (n : Nat)
    {s : LoaderState} {i : Nat} {info : ProgramInfo} (h : LoopInv s file fd header phdrs)
    (hfit : SegmentsFit file header i s.used.toNat n)
    (hok : (loadSegments s file fd info ⟨phdrs, header.phSize⟩ i n).ok = true) :
    LoopDone s file info (placed file header i s.used.toNat n)
      (usedAfter file header i s.used.toNat n)
      (loadSegments s file fd info ⟨phdrs, header.phSize⟩ i n) := by
  induction n generalizing s i info with
  | zero => exact ⟨List.forall_mem_nil _, rfl, rfl, rfl, rfl, rfl, rfl⟩
  | succ n ih =>
    have hentry := hfit.1
    unfold placed usedAfter
    by_cases htype : (file.phdr header i).type = ptLoad
    · simp only [if_pos htype]
      obtain ⟨hg, hc, hfits, hnext⟩ := hfit.segment_of_ok h htype hok
      obtain ⟨fds, hinv, htop, hround⟩ := h.round_fits hentry info n htype hg hc hfits
      rw [hround] at hok ⊢
      rw [← htop] at hnext ⊢
      obtain ⟨hentryPoint, hstack⟩ :=
        cover_fields info (file.phdr header i).vaddr (file.phdr header i).memsz
      have hdone := ih hinv hnext hok
      exact
        { fits := List.forall_mem_cons.mpr ⟨⟨hg, hfits⟩, hdone.fits⟩
          mem_eq := hdone.mem_eq
          base_eq := hdone.base_eq
          processes_eq := hdone.processes_eq
          used_eq := hdone.used_eq
          entryPoint_eq := hdone.entryPoint_eq.trans hentryPoint
          stackSize_eq := hdone.stackSize_eq.trans hstack }
    · simp only [if_neg htype]
      rw [h.round_skip hentry info n htype] at hok ⊢
      have hdone := ih h (hfit.skip htype) hok
      exact ⟨hdone.fits, hdone.mem_eq, hdone.base_eq, hdone.processes_eq, hdone.used_eq,
        hdone.entryPoint_eq, hdone.stackSize_eq⟩

/-! ## Each segment in its block -/

theorem Phdr.le_top (p : Phdr) (used : Nat) : used ≤ p.top used := by
  have := le_segmentStart used
  unfold Phdr.top
  omega

theorem le_of_mem_placed {file : File} {header : ElfHeader} {n i used : Nat} {q : Nat × Phdr}
    (hq : q ∈ placed file header i used n) : used ≤ q.1 := by
  induction n generalizing i used with
  | zero => exact absurd hq List.not_mem_nil
  | succ n ih =>
    unfold placed at hq
    split at hq
    · rcases List.mem_cons.mp hq with rfl | hq
      · exact Nat.le_refl used
      · exact Nat.le_trans (Phdr.le_top _ used) (ih hq)
    · exact ih hq

/-- The place of a segment that fits, as a number. -/
theorem Phdr.Fits.toNat_dest {p : Phdr} {used : Nat} (h : p.Fits used) :
    (p.dest used).toNat = segmentStart used + p.vaddr.toNat := by
  have htop := h.2
  unfold Phdr.top at htop
  rw [Phdr.toNat_dest, Nat.mod_eq_of_lt (by omega)]

/-- Segments that do not reach an offset do not change what is there. -/
theorem imageMem_frame {file : File} {x : Word} {l : List (Nat × Phdr)} {m : Mem}
    (h : ∀ q ∈ l, max q.2.filesz.toNat q.2.memsz.toNat ≤ (x - q.2.dest q.1).toNat) :
    imageMem file m l x = m x := by
  induction l generalizing m with
  | nil => rfl
  | cons q l ih =>
    obtain ⟨hq, hl⟩ := List.forall_mem_cons.mp h
    rw [imageMem_cons, ih hl]
    exact if_neg (Nat.not_lt.mpr hq)

/-- Segments above an offset do not change what is there. -/
theorem imageMem_of_lt {file : File} {x : Word} {l : List (Nat × Phdr)} {m : Mem}
    (hfits : ∀ q ∈ l, q.2.Fits q.1) (habove : ∀ q ∈ l, x.toNat < q.1) :
    imageMem file m l x = m x := by
  refine imageMem_frame fun q hq => ?_
  have hdest := (hfits q hq).toNat_dest
  have hstart := le_segmentStart q.1
  have hlt := habove q hq
  obtain ⟨hle, htop⟩ := hfits q hq
  unfold Phdr.top at htop
  rw [BitVec.toNat_sub, hdest]
  omega

theorem imageMem_placed {file : File} {header : ElfHeader} {n i used : Nat} {m : Mem}
    (hfits : ∀ q ∈ placed file header i used n, q.2.Fits q.1) {q : Nat × Phdr}
    (hq : q ∈ placed file header i used n) {k : Nat} (hk : k < q.2.memsz.toNat) :
    imageMem file m (placed file header i used n) (q.2.dest q.1 + BitVec.ofNat 32 k)
      = q.2.byte file k := by
  induction n generalizing i used m with
  | zero => exact absurd hq List.not_mem_nil
  | succ n ih =>
    unfold placed at hfits hq ⊢
    by_cases htype : (file.phdr header i).type = ptLoad
    · rw [if_pos htype] at hfits hq ⊢
      obtain ⟨hhead, htail⟩ := List.forall_mem_cons.mp hfits
      rcases List.mem_cons.mp hq with rfl | hq
      · have hdest := hhead.toNat_dest
        have htop := hhead.2
        have hmem := (file.phdr header i).memsz.isLt
        dsimp only at hk hdest htop ⊢
        have haddr : ((file.phdr header i).dest used + BitVec.ofNat 32 k).toNat
            < (file.phdr header i).top used := by
          unfold Phdr.top at *
          rw [BitVec.toNat_add, BitVec.toNat_ofNat, hdest]
          omega
        rw [imageMem_cons, imageMem_of_lt htail fun q hq =>
          Nat.lt_of_lt_of_le haddr (le_of_mem_placed hq), Phdr.place,
          toNat_add_ofNat_sub _ (by omega), if_pos (Nat.lt_of_lt_of_le hk (Nat.le_max_right _ _))]
      · exact ih htail hq
    · rw [if_neg htype] at hfits hq ⊢
      exact ih hfits hq

/-! ## A load that succeeds -/

/-- Memory with the header table read. -/
def tableMem (s : LoaderState) (file : File) (header : ElfHeader) : Mem :=
  (s.withTable file header s.fds).mem

/-- The segments of the file, for a load in this state. -/
def layout (s : LoaderState) (file : File) (header : ElfHeader) : List (Nat × Phdr) :=
  placed file header 0 (wordStart s.used.toNat + header.phSize.toNat) header.phnum.toNat

/-- The number of bytes handed out after the segments of the file. -/
def layoutEnd (s : LoaderState) (file : File) (header : ElfHeader) : Nat :=
  usedAfter file header 0 (wordStart s.used.toNat + header.phSize.toNat) header.phnum.toNat

/-- What a load that succeeds leaves. The header table is given back if no segment lies above
it. -/
structure LoadDone (s : LoaderState) (file : File) (header : ElfHeader) (r : Loading) : Prop where
  fits : ∀ q ∈ layout s file header, q.2.Granted q.1 ∧ q.2.Fits q.1
  mem_eq : r.state.mem = imageMem file (tableMem s file header) (layout s file header)
  base_eq : r.state.base = s.base
  processes_eq : r.state.processes = s.processes
  used_eq : r.state.used.toNat
    = if wordStart s.used.toNat + header.phSize.toNat = layoutEnd s file header
      then wordStart s.used.toNat else layoutEnd s file header
  entryPoint_eq : r.info.entryPoint = header.entry
  stackSize_eq : r.info.stackSize = 8192
  isLoaded : r.info.isLoaded = 1

theorem programFreeMemory_fields (s : LoaderState) (ptr size : Word) :
    (programFreeMemory s ptr size).mem = s.mem ∧ (programFreeMemory s ptr size).base = s.base ∧
      (programFreeMemory s ptr size).processes = s.processes := by
  unfold programFreeMemory
  split
  · exact ⟨rfl, rfl, rfl⟩
  · exact ⟨rfl, rfl, rfl⟩

/-- The header table lies right below the end, or something lies above it. -/
theorem toNat_used_programFreeMemory {s : LoaderState} {start : Nat} {size : Word}
    (hfit : start + size.toNat ≤ maxProgramSize) :
    (programFreeMemory s (BitVec.ofNat 32 start) size).used.toNat
      = if start + size.toNat = s.used.toNat then start else s.used.toNat := by
  have hsum := toNat_ofNat_add hfit
  unfold programFreeMemory
  by_cases hlast : start + size.toNat = s.used.toNat
  · rw [if_pos (BitVec.eq_of_toNat_eq (hsum.trans hlast)), if_pos hlast]
    show (s.used - size).toNat = start
    have := s.used.isLt
    rw [BitVec.toNat_sub]
    omega
  · rw [if_neg fun h => hlast (hsum.symm.trans (congrArg BitVec.toNat h)), if_neg hlast]

/-- The end of a load after a loop that has gone to its end. -/
theorem LoopDone.finish {s s' : LoaderState} {file : File} {header : ElfHeader} {fd : Int}
    {log : List Access} {r : Loading}
    (h : LoopDone s' file header.info (layout s file header) (layoutEnd s file header) r)
    (hmem : s'.mem = tableMem s file header) (hbase : s'.base = s.base)
    (hprocesses : s'.processes = s.processes) (hread : TableRead file header s.used.toNat)
    (hok : r.ok = true) :
    LoadDone s file header (finishLoad fd (tableBlock header s.used.toNat) log r) := by
  have hend : r.state.used.toNat = layoutEnd s file header := h.used_eq
  have hfree := toNat_used_programFreeMemory (s := r.state) hread.1
  obtain ⟨hmem', hbase', hprocesses'⟩ := programFreeMemory_fields r.state
    (BitVec.ofNat 32 (wordStart s.used.toNat)) header.phSize
  have hinfo : (finishLoad fd (tableBlock header s.used.toNat) log r).info
      = { r.info with isLoaded := 1 } := if_pos hok
  exact
    { fits := h.fits
      mem_eq := hmem'.trans (h.mem_eq.trans (by rw [hmem]))
      base_eq := hbase'.trans (h.base_eq.trans hbase)
      processes_eq := hprocesses'.trans (h.processes_eq.trans hprocesses)
      used_eq := hfree.trans (by rw [hend])
      entryPoint_eq := by rw [hinfo]; exact h.entryPoint_eq
      stackSize_eq := by rw [hinfo]; exact h.stackSize_eq
      isLoaded := by rw [hinfo] }

theorem programLoad_ok {s : LoaderState} (hused : s.used.toNat ≤ maxProgramSize) {file : File}
    {header : ElfHeader} (helf : file.elf = some header) {info : ProgramInfo}
    (hfits : LoadFits s file) (hok : (programLoad s (some file) info).ok = true) :
    LoadDone s file header (programLoad s (some file) info) := by
  obtain ⟨hopen, hread, fds, hinv, hload⟩ := programLoad_of_ok hused helf hok
  have hused' := withTable_used hread fds
  have hsegments := hfits hopen header helf hread
  rw [← hused'] at hsegments
  rw [hload] at hok ⊢
  have hdone := loadSegments_ok header.phnum.toNat hinv hsegments hok
  rw [hused'] at hdone
  exact LoopDone.finish hdone rfl rfl rfl hread hok

/-- Every segment lies in `program_memory`, at its virtual address from the start of its block. -/
theorem LoadDone.segment_le {s : LoaderState} {file : File} {header : ElfHeader} {r : Loading}
    (h : LoadDone s file header r) {q : Nat × Phdr} (hq : q ∈ layout s file header) :
    q.2.filesz.toNat ≤ q.2.memsz.toNat ∧
      (q.2.dest q.1).toNat = segmentStart q.1 + q.2.vaddr.toNat ∧
      segmentStart q.1 + q.2.vaddr.toNat + q.2.memsz.toNat ≤ maxProgramSize := by
  obtain ⟨hg, hfit⟩ := h.fits q hq
  have htop := hfit.2
  unfold Phdr.Granted at hg
  unfold Phdr.top at htop
  rw [Nat.mod_eq_of_lt htop] at hg
  exact ⟨hfit.1, hfit.toNat_dest, hg⟩

/-! ## The image -/

/-- An executable with entries of 32 bytes, whose segments are no longer in the file than in memory
and end inside `MAX_PROGRAM_SIZE`. -/
structure WellFormed (file : File) (header : ElfHeader) : Prop where
  elf : file.elf = some header
  phentsize : header.phentsize = 32
  segments : ∀ i < header.phnum.toNat, (file.phdr header i).type = ptLoad →
    (file.phdr header i).filesz.toNat ≤ (file.phdr header i).memsz.toNat ∧
      (file.phdr header i).vaddr.toNat + (file.phdr header i).memsz.toNat ≤ maxProgramSize

theorem WellFormed.toNat_phSize {file : File} {header : ElfHeader} (h : WellFormed file header) :
    header.phSize.toNat = sizeofPhdr * header.phnum.toNat := by
  have := header.phnum.isLt
  rw [ElfHeader.phSize, h.phentsize, BitVec.toNat_mul, BitVec.toNat_setWidth,
    BitVec.toNat_setWidth]
  unfold sizeofPhdr
  show (32 % 2 ^ 32) * _ % 2 ^ 32 = _
  omega

theorem WellFormed.segmentsFit {file : File} {header : ElfHeader} (h : WellFormed file header)
    {n i used : Nat} (hn : i + n ≤ header.phnum.toNat) (hused : used ≤ maxProgramSize) :
    SegmentsFit file header i used n := by
  induction n generalizing i used with
  | zero => trivial
  | succ n ih =>
    have hsize := h.toNat_phSize
    have hsegment := h.segments i (by omega)
    refine ⟨by rw [hsize]; exact Nat.mul_le_mul_left _ (by omega), ?_⟩
    by_cases htype : (file.phdr header i).type = ptLoad
    · rw [if_pos htype]
      intro hg
      obtain ⟨hfile, hmem⟩ := hsegment htype
      have hstart := segmentStart_le hused
      have hread := file.toNat_toRead_le (file.phdr header i).offset (file.phdr header i).filesz
      unfold Phdr.Granted at hg
      unfold Phdr.Fits Phdr.ShortFits Phdr.top
      unfold maxProgramSize at *
      by_cases hc : (file.phdr header i).Complete file
      · rw [if_pos hc]
        exact ⟨⟨hfile, by omega⟩, ih (by omega) (by omega)⟩
      · rw [if_neg hc]
        right
        omega
    · rw [if_neg htype]
      exact ih (by omega) hused

theorem WellFormed.loadFits {file : File} {header : ElfHeader} (h : WellFormed file header)
    (s : LoaderState) : LoadFits s file := by
  intro _ header' helf hread
  obtain rfl := Option.some.inj (h.elf.symm.trans helf)
  exact h.segmentsFit (by omega) hread.1

theorem programAllocMemory_fields (s : LoaderState) (size alignment : Word) :
    (programAllocMemory s size alignment).1.mem = s.mem ∧
      (programAllocMemory s size alignment).1.base = s.base ∧
      (programAllocMemory s size alignment).1.processes = s.processes := by
  unfold programAllocMemory
  dsimp only
  split
  · exact ⟨rfl, rfl, rfl⟩
  · exact ⟨rfl, rfl, rfl⟩

/-- What `program_execute_from_info` has done when it returns a process. -/
theorem programExecuteFromInfo_started {s : LoaderState} {info : ProgramInfo}
    (h : 0 ≤ (programExecuteFromInfo s info).2.2) :
    (programExecuteFromInfo s info).1.mem = s.mem ∧
      (programExecuteFromInfo s info).1.base = s.base ∧
      (programExecuteFromInfo s info).1.processes
        = (processCreate s.processes userProgram info.entryPoint).1 ∧
      (programExecuteFromInfo s info).2.2
        = (processCreate s.processes userProgram info.entryPoint).2 := by
  have hfail : ¬ (0 : Int) ≤ -1 := by decide
  obtain ⟨hmem, hbase, hprocesses⟩ := programAllocMemory_fields s info.stackSize 4
  unfold programExecuteFromInfo at h ⊢
  by_cases hloaded : info.isLoaded = 0
  · rw [if_pos hloaded] at h
    exact absurd h hfail
  · rw [if_neg hloaded] at h ⊢
    cases halloc : programAllocMemory s info.stackSize 4 with
    | mk s' stack =>
      simp only [halloc] at h hmem hbase hprocesses ⊢
      cases stack with
      | none => exact absurd h hfail
      | some stack =>
        simp only [hprocesses] at h ⊢
        by_cases hpid : (processCreate s.processes userProgram info.entryPoint).2 < 0
        · rw [if_pos hpid] at h
          exact absurd h hfail
        · rw [if_neg hpid]
          exact ⟨hmem, hbase, rfl, rfl⟩

/-- Where a process that `process_create` makes with this entry point begins. Without one the slot
keeps the address it had. -/
def startAddress (t : ProcessTable) (entryPoint : Word) : Word :=
  if entryPoint ≠ 0 then entryPoint
  else (t.proc ((findFree t 0 maxProcesses).getD 0)).context.eip

theorem processCreate_eip {t : ProcessTable} {name : List Byte} {entryPoint : Word}
    (h : 0 ≤ (processCreate t name entryPoint).2) :
    ((processCreate t name entryPoint).1.proc
        (processCreate t name entryPoint).2.toNat).context.eip = startAddress t entryPoint := by
  unfold startAddress
  rw [processCreate] at h ⊢
  cases hfree : findFree t 0 maxProcesses with
  | none =>
    rw [hfree] at h
    exact absurd h (show ¬ (0 : Int) ≤ -1 by decide)
  | some i =>
    have hi : i < maxProcesses := by
      rw [findFree_eq] at hfree
      simpa using (List.find?_range'_eq_some.mp hfree).2.1
    show (((raise t i).modify i (assign t i name entryPoint)).proc i).context.eip = _
    rw [proc_raise_modify t hi, if_pos rfl, Option.getD_some, assign]
    by_cases hentry : entryPoint ≠ 0
    · simp only [if_pos hentry, CpuContext.init]
    · simp only [if_neg hentry]

/-- The program stands in memory from the address `b` on: every segment at its virtual address. -/
def ImageAt (s : LoaderState) (file : File) (header : ElfHeader) (b : Word) : Prop :=
  ∀ i < header.phnum.toNat, (file.phdr header i).type = ptLoad →
    ∀ k < (file.phdr header i).memsz.toNat,
      s.mem (b + (file.phdr header i).vaddr + BitVec.ofNat 32 k - s.base)
        = (file.phdr header i).byte file k

/-- What memory holds after the load, with the segments in their blocks over the header table over
what was there before, is right at the virtual addresses themselves, counted from where the process
begins less the entry point. With an entry point that is not null this is from address `0`. -/
def InPlace (s : LoaderState) (file : File) (header : ElfHeader) : Prop :=
  ∀ i < header.phnum.toNat, (file.phdr header i).type = ptLoad →
    ∀ k < (file.phdr header i).memsz.toNat,
      imageMem file (tableMem s file header) (layout s file header)
          (startAddress s.processes header.entry - header.entry + (file.phdr header i).vaddr
            + BitVec.ofNat 32 k - s.base)
        = (file.phdr header i).byte file k

/-- **Every segment of a file that is loaded stands in its own block, at its virtual address.** -/
theorem program_load_places_segments {s : LoaderState} (hused : s.used.toNat ≤ maxProgramSize)
    {file : File} {header : ElfHeader} (helf : file.elf = some header) (hfits : LoadFits s file)
    {info : ProgramInfo} (hok : (programLoad s (some file) info).ok = true) {q : Nat × Phdr}
    (hq : q ∈ layout s file header) {k : Nat} (hk : k < q.2.memsz.toNat) :
    (programLoad s (some file) info).state.mem (q.2.dest q.1 + BitVec.ofNat 32 k)
      = q.2.byte file k := by
  have hdone := programLoad_ok hused helf hfits hok
  rw [hdone.mem_eq]
  exact imageMem_placed (fun q hq => (hdone.fits q hq).2) hq hk

/-- **A load that succeeds writes nothing outside `program_memory`.** -/
theorem programLoad_mem_outside {s : LoaderState} (hused : s.used.toNat ≤ maxProgramSize)
    {file : File} {header : ElfHeader} (helf : file.elf = some header) (hfits : LoadFits s file)
    {info : ProgramInfo} (hok : (programLoad s (some file) info).ok = true) {x : Word}
    (hx : maxProgramSize ≤ x.toNat) :
    (programLoad s (some file) info).state.mem x = s.mem x := by
  obtain ⟨-, hread, -⟩ := programLoad_of_ok hused helf hok
  have hdone := programLoad_ok hused helf hfits hok
  rw [hdone.mem_eq]
  refine (imageMem_frame fun q hq => ?_).trans ?_
  · obtain ⟨hle, hdest, hend⟩ := hdone.segment_le hq
    rw [BitVec.toNat_sub, hdest]
    omega
  · have htable := hread.1
    have hstart := toNat_wordStart hused
    show memcpyTo s.mem _ _ _ x = s.mem x
    rw [memcpyTo_apply _ (Nat.le_of_lt header.phSize.isLt), if_neg]
    rw [BitVec.toNat_sub, hstart]
    omega

/--
**No segment is written to the lowest virtual address.**

Every segment is moved up by the address of `program_memory` and the start of its block, so the
address at which the program begins is left as it was, but for the header table.
-/
theorem lowest_address_not_written {s : LoaderState} (hused : s.used.toNat ≤ maxProgramSize)
    {file : File} {header : ElfHeader} (helf : file.elf = some header) (hfits : LoadFits s file)
    {info : ProgramInfo} (hok : (programLoad s (some file) info).ok = true)
    (hbase : 0 < s.base.toNat) (hroom : s.base.toNat + maxProgramSize ≤ 2 ^ 32) {lowest : Word}
    (hlowest : ∀ q ∈ layout s file header, 0 < q.2.memsz.toNat →
      lowest.toNat ≤ q.2.vaddr.toNat) :
    (programLoad s (some file) info).state.mem (lowest - s.base)
      = tableMem s file header (lowest - s.base) := by
  have hdone := programLoad_ok hused helf hfits hok
  rw [hdone.mem_eq]
  refine imageMem_frame fun q hq => ?_
  obtain ⟨hle, hdest, hend⟩ := hdone.segment_le hq
  rcases Nat.eq_zero_or_pos q.2.memsz.toNat with hzero | hpos
  · omega
  · have hlow := hlowest q hq hpos
    rw [BitVec.toNat_sub, BitVec.toNat_sub, hdest]
    omega

/-- Without a byte to load there is nothing that could stand in a wrong place. -/
theorem inPlace_of_no_bytes (s : LoaderState) {file : File} {header : ElfHeader}
    (h : ∀ i < header.phnum.toNat, (file.phdr header i).type = ptLoad →
      (file.phdr header i).memsz = 0) : InPlace s file header := by
  intro i hi htype k hk
  rw [h i hi htype] at hk
  exact absurd hk (Nat.not_lt_zero k)

theorem startAddress_of_ne_zero (t : ProcessTable) {entryPoint : Word} (h : entryPoint ≠ 0) :
    startAddress t entryPoint = entryPoint := if_pos h

/-- **A program with a byte outside `program_memory`** does not stand where it is started, unless
the byte was there before. -/
theorem not_inPlace_of_outside {s : LoaderState} (hused : s.used.toNat ≤ maxProgramSize)
    {file : File} {header : ElfHeader} (hwf : WellFormed file header) (hentry : header.entry ≠ 0)
    {info : ProgramInfo} (hload : (programLoad s (some file) info).ok = true) {i : Nat}
    (hi : i < header.phnum.toNat) (htype : (file.phdr header i).type = ptLoad) {k : Nat}
    (hk : k < (file.phdr header i).memsz.toNat)
    (hout : maxProgramSize ≤ ((file.phdr header i).vaddr + BitVec.ofNat 32 k - s.base).toNat)
    (hbyte : s.mem ((file.phdr header i).vaddr + BitVec.ofNat 32 k - s.base)
      ≠ (file.phdr header i).byte file k) : ¬ InPlace s file header := by
  intro hplace
  have hfits := hwf.loadFits s
  have hmem := programLoad_mem_outside hused hwf.elf hfits hload hout
  rw [(programLoad_ok hused hwf.elf hfits hload).mem_eq] at hmem
  have hheld := hplace i hi htype k hk
  rw [startAddress_of_ne_zero s.processes hentry, BitVec.sub_self, BitVec.zero_add, hmem] at hheld
  exact hbyte hheld

/--
**When a program stands where it is started.**

The entry point goes to `process_create` as the file has it, so there is one address from which the
program would have to stand; the segments stand in blocks of their own.
-/
theorem image_preserved_iff (s : LoaderState) (hused : s.used.toNat ≤ maxProgramSize)
    {file : File} {header : ElfHeader} (hwf : WellFormed file header) (info : ProgramInfo)
    (hload : (programLoad s (some file) info).ok = true)
    (hpid : 0 ≤ (programExecuteFromInfo (programLoad s (some file) info).state
      (programLoad s (some file) info).info).2.2) :
    (∃ b, ImageAt (programExecuteFromInfo (programLoad s (some file) info).state
          (programLoad s (some file) info).info).1 file header b ∧
        ((programExecuteFromInfo (programLoad s (some file) info).state
            (programLoad s (some file) info).info).1.processes.proc
          (programExecuteFromInfo (programLoad s (some file) info).state
            (programLoad s (some file) info).info).2.2.toNat).context.eip = b + header.entry) ↔
      InPlace s file header := by
  have hdone := programLoad_ok hused hwf.elf (hwf.loadFits s) hload
  obtain ⟨hmem, hbase, hprocesses, hret⟩ := programExecuteFromInfo_started hpid
  rw [hret] at hpid
  have heip := processCreate_eip hpid
  rw [hret, hprocesses, heip, hdone.processes_eq, hdone.entryPoint_eq]
  unfold ImageAt InPlace
  rw [hmem, hbase, hdone.mem_eq, hdone.base_eq]
  constructor
  · rintro ⟨b, himage, hstart⟩
    rw [hstart, BitVec.add_sub_cancel]
    exact himage
  · intro hplace
    exact ⟨startAddress s.processes header.entry - header.entry, hplace,
      (BitVec.sub_add_cancel _ _).symm⟩

/-- The header of `tinyElf`. -/
def tinyHeader : ElfHeader where
  magic := 0x464C457F
  class' := 1
  data := 1
  type := 2
  machine := 3
  entry := 0x1000
  phoff := 52
  phentsize := 32
  phnum := 1

theorem wellFormed_tinyElf : WellFormed (tinyElf 1 1) tinyHeader where
  elf := by decide
  phentsize := rfl
  segments i hi _ := by
    obtain rfl : i = 0 := Nat.lt_one_iff.mp hi
    decide

/-- `tinyElf`, loaded after boot with `program_memory` at `0x20000`. -/
def tinyLoaded : Loading := programLoad (.boot 0x20000 0x10000) (some (tinyElf 1 1)) default

theorem image_preserved_iff_tiny :
    tinyLoaded.ok = true ∧ 0 ≤ (programExecuteFromInfo tinyLoaded.state tinyLoaded.info).2.2 ∧
      ((∃ b, ImageAt (programExecuteFromInfo tinyLoaded.state tinyLoaded.info).1 (tinyElf 1 1)
            tinyHeader b ∧
          ((programExecuteFromInfo tinyLoaded.state tinyLoaded.info).1.processes.proc
            (programExecuteFromInfo tinyLoaded.state tinyLoaded.info).2.2.toNat).context.eip
              = b + tinyHeader.entry) ↔
        InPlace (.boot 0x20000 0x10000) (tinyElf 1 1) tinyHeader) :=
  ⟨by decide, by decide +kernel, image_preserved_iff (.boot 0x20000 0x10000) (by decide)
    wellFormed_tinyElf default (by decide) (by decide +kernel)⟩

/-- The segment at `0x1000` is put at `0x22000`, and the process begins at `0x1000`. -/
theorem image_not_preserved :
    WellFormed (tinyElf 1 1) tinyHeader ∧ tinyLoaded.ok = true ∧
      0 ≤ (programExecuteFromInfo tinyLoaded.state tinyLoaded.info).2.2 ∧
      ¬ ∃ b, ImageAt (programExecuteFromInfo tinyLoaded.state tinyLoaded.info).1 (tinyElf 1 1)
          tinyHeader b ∧
        ((programExecuteFromInfo tinyLoaded.state tinyLoaded.info).1.processes.proc
          (programExecuteFromInfo tinyLoaded.state tinyLoaded.info).2.2.toNat).context.eip
            = b + tinyHeader.entry := by
  refine ⟨wellFormed_tinyElf, by decide, by decide +kernel, ?_⟩
  rintro ⟨b, himage, hstart⟩
  have heip : ((programExecuteFromInfo tinyLoaded.state tinyLoaded.info).1.processes.proc
      (programExecuteFromInfo tinyLoaded.state tinyLoaded.info).2.2.toNat).context.eip
        = 0 + tinyHeader.entry := by decide +kernel
  obtain rfl : (0 : Word) = b := (BitVec.add_left_inj _).mp (heip.symm.trans hstart)
  have hbyte := himage 0 (by decide) (by decide) 0 (by decide)
  exact absurd hbyte (by decide +kernel)

end MinimalistOS
