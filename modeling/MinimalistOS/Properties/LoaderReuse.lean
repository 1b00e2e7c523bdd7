import MinimalistOS.Properties.LoaderImage

/-!
# The memory of programs that run

* `ProgramState` — the loader, and which bytes belong to which process
* `demand` — the blocks that `program_execute` takes for a file
* `live_programs_not_reused` — as long as these are apart from the bytes of every live program, no
  live program is overwritten

`program_execute` ends with `program_cleanup`, which starts the allocation again from the bottom
while the new process waits to run. So nothing but the sizes of the files keeps two programs apart.
-/

namespace MinimalistOS

open Infra

/-! ## Programs and their bytes -/

/-- A program whose process has not exited, and the ranges of bytes its segments were written to. -/
structure LiveProgram where
  pid : Nat
  ranges : List (Word × Nat)
  deriving DecidableEq, Repr

/-- The loader and the programs it has started. -/
structure ProgramState where
  loader : LoaderState
  live : List LiveProgram

inductive ProgramCall where
  | execute (file : Option File)
  | schedule (cpu : Saved)
  | exit (status : Int) (cpu : Saved)

/-- The ranges of bytes that were written for segments. -/
def segmentRanges (log : List Access) : List (Word × Nat) :=
  log.filterMap fun
    | .segment _ p n => some (p, n)
    | _ => none

/-- A call, and what it does to memory. The process that `process_exit` ends is the current one. -/
def ProgramCall.exec (s : ProgramState) : ProgramCall → ProgramState × List Access
  | .execute file =>
    let (loader, log, pid) := programExecute s.loader file
    ({ loader := loader
       live := if 0 ≤ pid then ⟨pid.toNat, segmentRanges log⟩ :: s.live else s.live }, log)
  | .schedule cpu =>
    ({ s with
        loader := { s.loader with processes := (MinimalistOS.schedule s.loader.processes cpu).1 } },
      [])
  | .exit status cpu =>
    ({ loader := { s.loader with processes := (processExit s.loader.processes status cpu).1 }
       live := s.live.filter fun p => some p.pid ≠ s.loader.processes.currentProcessPtr }, [])

/-- The byte is one of the `n` bytes from `p` on. -/
def InRange (p : Word) (n : Nat) (x : Word) : Prop := (x - p).toNat < n

instance (p : Word) (n : Nat) (x : Word) : Decidable (InRange p n x) :=
  inferInstanceAs (Decidable (_ < _))

def Region.Contains (block : Region) (x : Word) : Prop := InRange block.start block.size.toNat x

/-- The byte of `program_memory` belongs to a live program. -/
def ProgramState.Lives (s : ProgramState) (x : Word) : Prop :=
  x.toNat < maxProgramSize ∧ ∃ program ∈ s.live, ∃ r ∈ program.ranges, InRange r.1 r.2 x

/-- The access hands the byte out or writes it. -/
def Access.Takes (x : Word) : Access → Prop
  | .alloc block => block.Contains x
  | .table p n => InRange p n x
  | .phdr _ _ => False
  | .segment _ p n => InRange p n x

/-- The call neither hands out nor writes a byte of a live program. -/
def NoReuse (s : ProgramState) (call : ProgramCall) : Prop :=
  ∀ x, s.Lives x → ∀ access ∈ (ProgramCall.exec s call).2, ¬ access.Takes x

/-! ## What a file takes -/

/-- The block for the stack, if there is room. -/
def stackDemand (used : Nat) : List Region :=
  if wordStart used + 8192 ≤ maxProgramSize then [⟨BitVec.ofNat 32 (wordStart used), 8192⟩] else []

/-- The blocks for the segments from entry `i` on, and for the stack. -/
def segmentsDemand (file : File) (header : ElfHeader) (start i used : Nat) : Nat → List Region
  | 0 => stackDemand (if start + header.phSize.toNat = used then start else used)
  | n + 1 =>
    if (file.phdr header i).type = ptLoad then
      if (file.phdr header i).Granted used then
        (file.phdr header i).block used ::
          if (file.phdr header i).Complete file then
            segmentsDemand file header start (i + 1) ((file.phdr header i).top used) n
          else []
      else []
    else segmentsDemand file header start (i + 1) used n

/-- The blocks that `program_execute` takes for a file. -/
def demand (s : LoaderState) (file : File) : List Region :=
  if 0 ≤ (fsOpen s.fds).2 then
    match file.elf with
    | none => []
    | some header =>
      if TableGranted header s.used.toNat then
        tableBlock header s.used.toNat ::
          if TableRead file header s.used.toNat then
            segmentsDemand file header (wordStart s.used.toNat) 0
              (wordStart s.used.toNat + header.phSize.toNat) header.phnum.toNat
          else []
      else []
  else []

/-- No program is live, or the file fits and takes no byte of a live program. -/
def StaysApart (s : ProgramState) : ProgramCall → Prop
  | .execute (some file) => (∀ x, ¬ s.Lives x) ∨
      (LoadFits s.loader file ∧ ∀ x, s.Lives x → ∀ block ∈ demand s.loader file, ¬ block.Contains x)
  | _ => True

/-! ## What a load takes -/

/-- A byte written in bounds is one of the block. -/
theorem contains_of_inBounds {block : Region} {p : Word} {n : Nat}
    (h : (Access.segment block p n).InBounds) {x : Word} (hx : InRange p n x) :
    block.Contains x := by
  unfold InRange at hx
  obtain ⟨hstart, hend, -⟩ := h (x - p).toNat hx
  have haddr : p + BitVec.ofNat 32 (x - p).toNat = x := by
    rw [BitVec.ofNat_toNat, BitVec.setWidth_eq]
    bv_omega
  rw [haddr] at hstart hend
  unfold Region.Contains InRange
  bv_omega

theorem Phdr.mem_writes {p : Phdr} {used : Nat} {x : Access} (h : x ∈ p.writes used) :
    ∃ q n, x = .segment (p.block used) q n := by
  unfold Phdr.writes at h
  rcases List.mem_append.mp h with h | h
  · split at h
    · exact ⟨_, _, List.mem_singleton.mp h⟩
    · exact absurd h List.not_mem_nil
  · split at h
    · exact ⟨_, _, List.mem_singleton.mp h⟩
    · exact absurd h List.not_mem_nil

/-- What the loop takes is part of what the file takes, and so is the stack after a loop that has
gone to its end. -/
theorem loadSegments_demand {file : File} {fd : Int} {header : ElfHeader} (start : Nat)
    {phdrs : Word} (n : Nat) {s : LoaderState} {i : Nat} (info : ProgramInfo)
    (h : LoopInv s file fd header phdrs) (hfit : SegmentsFit file header i s.used.toNat n) :
    (∀ access ∈ (loadSegments s file fd info ⟨phdrs, header.phSize⟩ i n).log, ∀ x,
      access.Takes x →
        ∃ block ∈ segmentsDemand file header start i s.used.toNat n, block.Contains x) ∧
      ((loadSegments s file fd info ⟨phdrs, header.phSize⟩ i n).ok = true →
        ∀ block ∈ stackDemand (if start + header.phSize.toNat
            = usedAfter file header i s.used.toNat n then start
          else usedAfter file header i s.used.toNat n),
          block ∈ segmentsDemand file header start i s.used.toNat n) := by
  induction n generalizing s i info with
  | zero => exact ⟨List.forall_mem_nil _, fun _ _ hblock => hblock⟩
  | succ n ih =>
    obtain ⟨hentry, hrest⟩ := hfit
    -- reading the table takes nothing
    have hphdr : ∀ l : List Region, ∀ x, (Access.phdr ⟨phdrs, header.phSize⟩ i).Takes x →
        ∃ block ∈ l, block.Contains x := fun _ _ hfalse => hfalse.elim
    unfold segmentsDemand usedAfter
    by_cases htype : (file.phdr header i).type = ptLoad
    · simp only [if_pos htype] at hrest ⊢
      by_cases hg : (file.phdr header i).Granted s.used.toNat
      · rw [if_pos hg]
        have hsegment := hrest hg
        by_cases hc : (file.phdr header i).Complete file
        · rw [if_pos hc] at hsegment ⊢
          obtain ⟨hfits, hnext⟩ := hsegment
          obtain ⟨fds, hinv, htop, hround⟩ := h.round_fits hentry info n htype hg hc hfits
          have hin := ((file.phdr header i).writes_inBounds_iff h.used_le hg).mpr (Or.inr hfits)
          rw [← htop] at hnext ⊢
          obtain ⟨htakes, hstack⟩ := ih _ hinv hnext
          rw [hround]
          simp only [List.cons_append, List.forall_mem_cons, List.forall_mem_append]
          refine ⟨⟨hphdr _, ?_, ?_, ?_⟩, fun hok block hblock => ?_⟩
          · exact fun x hx => ⟨_, List.mem_cons_self, hx⟩
          · intro access haccess x hx
            obtain ⟨q, k, rfl⟩ := Phdr.mem_writes haccess
            exact ⟨_, List.mem_cons_self, contains_of_inBounds (hin _ haccess) hx⟩
          · intro access haccess x hx
            obtain ⟨block, hblock, hcontains⟩ := htakes access haccess x hx
            exact ⟨block, List.mem_cons_of_mem _ hblock, hcontains⟩
          · exact List.mem_cons_of_mem _ (hstack hok block hblock)
        · rw [if_neg hc] at hsegment ⊢
          obtain ⟨hfail, hlog⟩ := h.round_short hentry info n htype hg hc
          have hin := (Phdr.shortFits_iff h.used_le file).mpr hsegment
          rw [hfail, hlog]
          simp only [List.forall_mem_cons]
          refine ⟨⟨hphdr _, ?_, ?_, List.forall_mem_nil _⟩,
            fun hok => Bool.noConfusion hok⟩
          · exact fun x hx => ⟨_, List.mem_cons_self, hx⟩
          · exact fun x hx => ⟨_, List.mem_cons_self, contains_of_inBounds hin hx⟩
      · obtain ⟨hfail, hlog⟩ := h.round_refused hentry info n htype hg
        rw [hfail, hlog]
        exact ⟨List.forall_mem_singleton.mpr (hphdr _), fun hok => Bool.noConfusion hok⟩
    · simp only [if_neg htype] at hrest ⊢
      obtain ⟨htakes, hstack⟩ := ih info h hrest
      rw [h.round_skip hentry info n htype]
      exact ⟨List.forall_mem_cons.mpr ⟨hphdr _, htakes⟩, hstack⟩

/-- The stack, when it is taken. -/
theorem programExecuteFromInfo_log {s : LoaderState} (hused : s.used.toNat ≤ maxProgramSize)
    {info : ProgramInfo} (hstack : info.stackSize = 8192) :
    ∀ access ∈ (programExecuteFromInfo s info).2.1, ∃ block ∈ stackDemand s.used.toNat,
      access = .alloc block := by
  have hle := roundUp_le_maxProgramSize (k := 2) hused (by decide)
  have halloc := programAllocMemory_words hused info.stackSize
  unfold programExecuteFromInfo
  by_cases hloaded : info.isLoaded = 0
  · rw [if_pos hloaded]
    exact List.forall_mem_nil _
  · rw [if_neg hloaded, halloc, hstack]
    by_cases hfull : maxProgramSize < (wordStart s.used.toNat + (8192 : Word).toNat) % 2 ^ 32
    · rw [if_pos hfull]
      exact List.forall_mem_nil _
    · have hroom : wordStart s.used.toNat + 8192 ≤ maxProgramSize := by
        have hmod : (8192 : Word).toNat = 8192 := rfl
        have hstart : wordStart s.used.toNat ≤ maxProgramSize := hle
        unfold maxProgramSize at *
        omega
      rw [if_neg hfull]
      unfold stackDemand
      rw [if_pos hroom]
      dsimp only
      split
      · exact fun access haccess => ⟨_, List.mem_singleton_self _, List.mem_singleton.mp haccess⟩
      · exact fun access haccess => ⟨_, List.mem_singleton_self _, List.mem_singleton.mp haccess⟩

theorem demand_of_elf {s : LoaderState} (hopen : 0 ≤ (fsOpen s.fds).2) {file : File}
    {header : ElfHeader} (helf : file.elf = some header) :
    demand s file =
      if TableGranted header s.used.toNat then
        tableBlock header s.used.toNat ::
          if TableRead file header s.used.toNat then
            segmentsDemand file header (wordStart s.used.toNat) 0
              (wordStart s.used.toNat + header.phSize.toNat) header.phnum.toNat
          else []
      else [] := by
  unfold demand
  rw [if_pos hopen, helf]

/-- What `program_load` takes is part of what the file takes, and so is the stack after it. -/
theorem programLoad_demand {s : LoaderState} (hused : s.used.toNat ≤ maxProgramSize) {file : File}
    (hfits : LoadFits s file) (info : ProgramInfo) :
    (∀ access ∈ (programLoad s (some file) info).log, ∀ x, access.Takes x →
      ∃ block ∈ demand s file, block.Contains x) ∧
      ((programLoad s (some file) info).ok = true →
        (programLoad s (some file) info).info.stackSize = 8192 ∧
          ∀ block ∈ stackDemand (programLoad s (some file) info).state.used.toNat,
            block ∈ demand s file) := by
  rcases programLoad_cases hused file info with
    ⟨-, hfail, hlog⟩ | ⟨header, hopen, helf, hread, hfail, hlog⟩ |
      ⟨header, fds, hopen, helf, hread, hinv, hload⟩
  · rw [hlog, hfail]
    exact ⟨List.forall_mem_nil _, fun hok => Bool.noConfusion hok⟩
  · rw [demand_of_elf hopen helf, if_neg hread, hlog, hfail]
    refine ⟨?_, fun hok => Bool.noConfusion hok⟩
    split
    · have hn := file.toNat_toRead_le header.phoff header.phSize
      simp only [List.forall_mem_cons]
      exact ⟨fun x hx => ⟨_, List.mem_cons_self, hx⟩,
        fun x hx => ⟨_, List.mem_cons_self, Nat.lt_of_lt_of_le hx hn⟩, List.forall_mem_nil _⟩
    · exact List.forall_mem_nil _
  · have hused' := withTable_used hread fds
    have hsegments := hfits hopen header helf hread
    rw [← hused'] at hsegments
    obtain ⟨htakes, hstack⟩ := loadSegments_demand (wordStart s.used.toNat)
      header.phnum.toNat header.info hinv hsegments
    rw [hused'] at htakes hstack
    rw [demand_of_elf hopen helf, if_pos hread.granted, if_pos hread]
    constructor
    · rw [hload]
      simp only [finishLoad, List.cons_append, List.nil_append, List.forall_mem_cons]
      refine ⟨fun x hx => ⟨_, List.mem_cons_self, hx⟩,
        fun x hx => ⟨_, List.mem_cons_self, hx⟩, fun access haccess x hx => ?_⟩
      obtain ⟨block, hblock, hcontains⟩ := htakes access haccess x hx
      exact ⟨block, List.mem_cons_of_mem _ hblock, hcontains⟩
    · intro hok
      have hdone := programLoad_ok hused helf hfits hok
      refine ⟨hdone.stackSize_eq, fun block hblock => List.mem_cons_of_mem _ ?_⟩
      rw [hdone.used_eq] at hblock
      rw [hload] at hok
      exact hstack hok block hblock

/-! ## The counter stays inside -/

/-- At most all of `program_memory` is handed out. -/
def LoaderState.Inside (s : LoaderState) : Prop := s.used.toNat ≤ maxProgramSize

theorem programAllocMemory_inside {s : LoaderState} (h : s.Inside) (size alignment : Word) :
    (programAllocMemory s size alignment).1.Inside := by
  unfold programAllocMemory
  dsimp only
  split
  · exact h
  · next hle => exact Nat.not_lt.mp hle

/-- Giving back a block puts the counter at its start. -/
theorem programFreeMemory_inside {s : LoaderState} (h : s.Inside) {ptr : Word}
    (hptr : ptr.toNat ≤ maxProgramSize) (size : Word) : (programFreeMemory s ptr size).Inside := by
  unfold programFreeMemory
  split
  · next heq =>
    show (s.used - size).toNat ≤ maxProgramSize
    rw [← heq, BitVec.add_sub_cancel]
    exact hptr
  · exact h

theorem readSegment_used (s : LoaderState) (file : File) (fd : Int) (block : Region)
    (dest : Word) (p : Phdr) : (readSegment s file fd block dest p).1.used = s.used := by
  unfold readSegment
  split
  · rfl
  · rfl

theorem zeroBss_used (s : LoaderState) (block : Region) (dest : Word) (p : Phdr) :
    (zeroBss s block dest p).1.used = s.used := by
  unfold zeroBss
  split
  · rfl
  · rfl

theorem loadSegment_inside {s : LoaderState} (h : s.Inside) (file : File) (fd : Int)
    (info : ProgramInfo) (p : Phdr) : (loadSegment s file fd info p).state.Inside := by
  have halloc := programAllocMemory_inside h (p.vaddr + p.memsz) 4096
  unfold loadSegment
  cases hresult : programAllocMemory s (p.vaddr + p.memsz) 4096 with
  | mk s' ptr =>
    rw [hresult] at halloc
    cases ptr with
    | none => exact halloc
    | some ptr =>
      dsimp only
      unfold LoaderState.Inside at *
      split
      · rw [zeroBss_used, readSegment_used]
        exact halloc
      · rw [readSegment_used]
        exact halloc

theorem loadSegments_inside (file : File) (fd : Int) (table : Region) (n : Nat) {s : LoaderState}
    (h : s.Inside) (info : ProgramInfo) (i : Nat) :
    (loadSegments s file fd info table i n).state.Inside := by
  induction n generalizing s info i with
  | zero => exact h
  | succ n ih =>
    unfold loadSegments
    dsimp only
    have hsegment := loadSegment_inside h file fd info (phdrAt s.mem table.start i)
    split
    · split
      · exact ih hsegment _ _
      · exact hsegment
    · exact ih h _ _

theorem loadTable_inside {s : LoaderState} (h : s.Inside) (file : File) (fd : Int)
    (header : ElfHeader) (info : ProgramInfo) : (loadTable s file fd header info).state.Inside := by
  have hwords := programAllocMemory_words h header.phSize
  have halloc := programAllocMemory_inside h header.phSize 4
  unfold loadTable
  cases hresult : programAllocMemory s header.phSize 4 with
  | mk s' phdrs =>
    rw [hresult] at halloc hwords
    cases phdrs with
    | none => exact halloc
    | some phdrs =>
      have hphdrs : phdrs.toNat ≤ maxProgramSize := by
        split at hwords
        · cases hwords
        · obtain rfl := Option.some.inj (Prod.mk.inj hwords).2
          exact Nat.le_trans (Nat.mod_le _ _) (wordStart_le h)
      have hread : (s'.seekRead file fd header.phoff phdrs header.phSize).1.Inside := halloc
      dsimp only
      split
      · exact programFreeMemory_inside hread hphdrs _
      · exact programFreeMemory_inside (loadSegments_inside _ _ _ _ hread _ _) hphdrs _

theorem programLoad_inside {s : LoaderState} (h : s.Inside) (file : Option File)
    (info : ProgramInfo) : (programLoad s file info).state.Inside := by
  cases file with
  | none => exact h
  | some file =>
    unfold programLoad loadOpened
    dsimp only
    split
    · exact h
    · split
      · exact h
      · split
        · exact h
        · refine loadTable_inside ?_ _ _ _ _
          exact h

theorem programExecute_inside {s : LoaderState} (h : s.Inside) (file : Option File) :
    (programExecute s file).1.Inside := by
  have hload := programLoad_inside h file default
  unfold programExecute
  dsimp only
  split
  · unfold programCleanup
    by_cases hloaded : (programLoad s file default).info.isLoaded = 0
    · rw [if_neg (not_not.mpr hloaded), programExecuteFromInfo, if_pos hloaded]
      exact hload
    · rw [if_pos hloaded]
      exact Nat.zero_le _
  · exact hload

/-! ## Runs -/

/-- What `program_execute` takes for a file that fits is what the file takes. -/
theorem programExecute_demand {s : LoaderState} (hused : s.Inside) {file : File}
    (hfits : LoadFits s file) : ∀ access ∈ (programExecute s (some file)).2.1, ∀ x,
      access.Takes x → ∃ block ∈ demand s file, block.Contains x := by
  obtain ⟨htakes, hstack⟩ := programLoad_demand hused hfits default
  unfold programExecute
  dsimp only
  split
  · next hok =>
    obtain ⟨hsize, hblocks⟩ := hstack hok
    intro access haccess x hx
    rcases List.mem_append.mp haccess with haccess | haccess
    · exact htakes access haccess x hx
    · obtain ⟨block, hblock, rfl⟩ :=
        programExecuteFromInfo_log (programLoad_inside hused _ _) hsize access haccess
      exact ⟨block, hblocks block hblock, hx⟩
  · exact htakes

theorem ProgramCall.exec_inside {s : ProgramState} (h : s.loader.Inside) (call : ProgramCall) :
    (ProgramCall.exec s call).1.loader.Inside := by
  cases call with
  | execute file => exact programExecute_inside h file
  | schedule cpu => exact h
  | exit status cpu => exact h

/-- A null path takes nothing. -/
theorem programExecute_none (s : LoaderState) : (programExecute s none).2.1 = [] := rfl

theorem noReuse_of_staysApart {s : ProgramState} (h : s.loader.Inside) {call : ProgramCall}
    (hcall : StaysApart s call) : NoReuse s call := by
  cases call with
  | execute file =>
    cases file with
    | none =>
      intro x _ access haccess
      change access ∈ (programExecute s.loader none).2.1 at haccess
      rw [programExecute_none] at haccess
      exact absurd haccess List.not_mem_nil
    | some file =>
      intro x hx access haccess htakes
      rcases hcall with hnone | ⟨hfits, hapart⟩
      · exact hnone x hx
      · obtain ⟨block, hblock, hcontains⟩ :=
          programExecute_demand h hfits access haccess x htakes
        exact hapart x hx block hblock hcontains
  | schedule cpu => exact fun x _ => List.forall_mem_nil _
  | exit status cpu => exact fun x _ => List.forall_mem_nil _

/--
**The memory of a live program is not reused as long as every file is apart from it.**

After `program_loader_init`, in any sequence of calls in which every file that is executed while a
program is live fits, and takes no byte of a live program: no call hands out such a byte or writes
it.
-/
theorem live_programs_not_reused (s : LoaderState) {calls : List ProgramCall}
    (h : Along ProgramCall.exec StaysApart ⟨programLoaderInit s, []⟩ calls) :
    Along ProgramCall.exec NoReuse ⟨programLoaderInit s, []⟩ calls :=
  along_of_inv ProgramCall.exec (I := fun s => s.loader.Inside)
    (fun _ _ hinside hcall => noReuse_of_staysApart hinside hcall)
    (fun _ call hinside _ => ProgramCall.exec_inside hinside call) (Nat.zero_le _) h

/-- A program, executed again after its process has exited. -/
theorem live_programs_not_reused_after_exit :
    Along ProgramCall.exec StaysApart ⟨programLoaderInit (.boot 0x20000 0x10000), []⟩
        [.execute (some (tinyElf 1 1)), .schedule default, .exit 0 default,
          .execute (some (tinyElf 1 1))] ∧
      Along ProgramCall.exec NoReuse ⟨programLoaderInit (.boot 0x20000 0x10000), []⟩
        [.execute (some (tinyElf 1 1)), .schedule default, .exit 0 default,
          .execute (some (tinyElf 1 1))] := by
  have hapart : Along ProgramCall.exec StaysApart ⟨programLoaderInit (.boot 0x20000 0x10000), []⟩
      [.execute (some (tinyElf 1 1)), .schedule default, .exit 0 default,
        .execute (some (tinyElf 1 1))] := by
    have hdead : ∀ s : ProgramState, s.live = [] → ∀ x, ¬ s.Lives x := by
      rintro s hs x ⟨-, program, hprogram, -⟩
      rw [hs] at hprogram
      exact absurd hprogram List.not_mem_nil
    exact ⟨Or.inl (hdead _ rfl), trivial, trivial, Or.inl (hdead _ (by decide +kernel)), trivial⟩
  exact ⟨hapart, live_programs_not_reused _ hapart⟩

/-- A program, executed twice: the second time its own bytes are handed out again. -/
theorem live_program_reused :
    ¬ Along ProgramCall.exec NoReuse ⟨programLoaderInit (.boot 0x20000 0x10000), []⟩
      [.execute (some (tinyElf 1 1)), .execute (some (tinyElf 1 1))] := by
  rintro ⟨-, hsecond, -⟩
  have hlive : (ProgramCall.exec ⟨programLoaderInit (.boot 0x20000 0x10000), []⟩
      (.execute (some (tinyElf 1 1)))).1.live = [⟨1, [(0x2000, 1)]⟩] := by decide +kernel
  have hlives : (ProgramCall.exec ⟨programLoaderInit (.boot 0x20000 0x10000), []⟩
      (.execute (some (tinyElf 1 1)))).1.Lives 0x2000 := by
    refine ⟨by decide, ⟨1, [(0x2000, 1)]⟩, ?_, (0x2000, 1), List.mem_singleton_self _, ?_⟩
    · rw [hlive]
      exact List.mem_singleton_self _
    · decide
  have hagain : Access.segment ⟨0x1000, 0x1001⟩ 0x2000 1
      ∈ (ProgramCall.exec (ProgramCall.exec ⟨programLoaderInit (.boot 0x20000 0x10000), []⟩
        (.execute (some (tinyElf 1 1)))).1 (.execute (some (tinyElf 1 1)))).2 := by
    decide +kernel
  exact hsecond 0x2000 hlives _ hagain (show InRange 0x2000 1 0x2000 by decide)

end MinimalistOS
