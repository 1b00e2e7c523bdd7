import MinimalistOS.Properties.LoaderReuse

/-!
# What a failed load leaves behind

* `not_isOpen_programLoad` — the descriptor is closed on every way out
* `LoopInv.round_stops` — where the position is after the segment that a load stops at
* `program_load_leaks_nothing` — which files are given back completely

`program_free_memory` takes back the last block only, and without the padding below it. So the
header table is given back as long as no segment lies above it, and nothing else ever is.
-/

namespace MinimalistOS

open Infra

/-! ## The descriptor -/

theorem not_isOpen_close (s : LoaderState) (fd : Int) : ¬ IsOpen (s.close fd).fds fd :=
  not_isOpen_fsClose s.fds fd

theorem not_isOpen_loadTable (s : LoaderState) (file : File) (fd : Int) (header : ElfHeader)
    (info : ProgramInfo) : ¬ IsOpen (loadTable s file fd header info).state.fds fd := by
  unfold loadTable
  split
  · exact not_isOpen_close _ fd
  · dsimp only
    split
    · exact not_isOpen_close _ fd
    · exact not_isOpen_close _ fd

/-- **The file is closed** on every way out of `program_load`. -/
theorem not_isOpen_programLoad (s : LoaderState) (file : File) (info : ProgramInfo) :
    ¬ IsOpen (programLoad s (some file) info).state.fds (fsOpen s.fds).2 := by
  by_cases hopen : 0 ≤ (fsOpen s.fds).2
  · obtain ⟨fds, -, hload⟩ := programLoad_opened hopen file info
    cases helf : file.elf with
    | none =>
      simp only [helf] at hload
      rw [hload]
      exact not_isOpen_close _ _
    | some header =>
      simp only [helf] at hload
      rw [hload]
      exact not_isOpen_loadTable _ file _ header info
  · exact fun h => hopen h.1

/-! ## The position -/

/-- A segment that gets a block moves the position, whether its data is there or not. -/
theorem loadSegment_used {s : LoaderState} (hused : s.used.toNat ≤ maxProgramSize) (file : File)
    (fd : Int) (info : ProgramInfo) (p : Phdr) :
    (loadSegment s file fd info p).state.used.toNat
      = if p.Granted s.used.toNat then p.top s.used.toNat % 2 ^ 32 else s.used.toNat := by
  have halloc := programAllocMemory_segment hused p
  unfold loadSegment
  rw [halloc]
  by_cases hg : p.Granted s.used.toNat
  · rw [if_pos hg, if_pos hg, ← p.toNat_stop]
    dsimp only
    split
    · rw [zeroBss_used, readSegment_used]
    · rw [readSegment_used]
  · rw [if_neg hg, if_neg hg]

namespace LoopInv

variable {s : LoaderState} {file : File} {fd : Int} {header : ElfHeader} {phdrs : Word}

/-- The round that a load stops in: there is no block for the segment, or its data is not there. -/
theorem round_stops (h : LoopInv s file fd header phdrs) {i : Nat}
    (hi : sizeofPhdr * (i + 1) ≤ header.phSize.toNat) (info : ProgramInfo) (n : Nat)
    (htype : (file.phdr header i).type = ptLoad)
    (hstop : ¬ ((file.phdr header i).Granted s.used.toNat ∧ (file.phdr header i).Complete file)) :
    (loadSegments s file fd info ⟨phdrs, header.phSize⟩ i (n + 1)).ok = false ∧
      (loadSegments s file fd info ⟨phdrs, header.phSize⟩ i (n + 1)).state.used.toNat
        = if (file.phdr header i).Granted s.used.toNat
          then (file.phdr header i).top s.used.toNat % 2 ^ 32 else s.used.toNat := by
  rw [← loadSegment_ok_iff h.used_le file info _ h.isOpen] at hstop
  have hfail := Bool.eq_false_iff.mpr hstop
  rw [← loadSegment_used h.used_le file fd info]
  simp only [loadSegments, h.phdrAt_eq hi, if_pos htype, hfail, Bool.false_eq_true, if_false]
  exact ⟨trivial, trivial⟩

end LoopInv

/-! ## The condition -/

/-- Every segment from entry `i` on is loaded. -/
def SegmentsLoad (file : File) (header : ElfHeader) (i used : Nat) : Nat → Prop
  | 0 => True
  | n + 1 =>
    sizeofPhdr * (i + 1) ≤ header.phSize.toNat ∧
      if (file.phdr header i).type = ptLoad then
        (file.phdr header i).Granted used ∧ (file.phdr header i).Complete file ∧
          (file.phdr header i).Fits used ∧
          SegmentsLoad file header (i + 1) ((file.phdr header i).top used) n
      else SegmentsLoad file header (i + 1) used n

/-- The segments from entry `i` on take no room, up to the first that is not loaded. -/
def SegmentsEmpty (file : File) (header : ElfHeader) (i used : Nat) : Nat → Prop
  | 0 => True
  | n + 1 =>
    sizeofPhdr * (i + 1) ≤ header.phSize.toNat ∧
      if (file.phdr header i).type = ptLoad then
        (file.phdr header i).Granted used →
          (file.phdr header i).top used % 2 ^ 32 = used ∧
            ((file.phdr header i).Complete file →
              (file.phdr header i).Fits used ∧ SegmentsEmpty file header (i + 1) used n)
      else SegmentsEmpty file header (i + 1) used n

/-- No end of a segment among the `n` entries from `i` on wraps, wherever its block starts. -/
def EndsFit (file : File) (header : ElfHeader) (i n : Nat) : Prop :=
  ∀ j, i ≤ j → j < i + n → (file.phdr header j).type = ptLoad →
    maxProgramSize + (file.phdr header j).vaddr.toNat + (file.phdr header j).memsz.toNat < 2 ^ 32

theorem EndsFit.tail {file : File} {header : ElfHeader} {i n : Nat}
    (h : EndsFit file header i (n + 1)) : EndsFit file header (i + 1) n :=
  fun j hij hjn => h j (by omega) (by omega)

section

variable {s : LoaderState} {file : File} {fd : Int} {header : ElfHeader} {phdrs : Word}

theorem loadSegments_ok_of_load (n : Nat) {i : Nat} (info : ProgramInfo)
    (h : LoopInv s file fd header phdrs) (hload : SegmentsLoad file header i s.used.toNat n) :
    (loadSegments s file fd info ⟨phdrs, header.phSize⟩ i n).ok = true := by
  induction n generalizing s i info with
  | zero => rfl
  | succ n ih =>
    obtain ⟨hentry, hrest⟩ := hload
    by_cases htype : (file.phdr header i).type = ptLoad
    · rw [if_pos htype] at hrest
      obtain ⟨hg, hc, hfits, hnext⟩ := hrest
      obtain ⟨fds, hinv, htop, hround⟩ := h.round_fits hentry info n htype hg hc hfits
      rw [← htop] at hnext
      rw [hround]
      exact ih _ hinv hnext
    · rw [if_neg htype] at hrest
      rw [h.round_skip hentry info n htype]
      exact ih info h hrest

/-- Segments that take no room leave the position where it was. -/
theorem used_of_segmentsEmpty (n : Nat) {i : Nat} (info : ProgramInfo)
    (h : LoopInv s file fd header phdrs) (hempty : SegmentsEmpty file header i s.used.toNat n) :
    (loadSegments s file fd info ⟨phdrs, header.phSize⟩ i n).state.used.toNat = s.used.toNat := by
  induction n generalizing s i info with
  | zero => rfl
  | succ n ih =>
    obtain ⟨hentry, hrest⟩ := hempty
    by_cases htype : (file.phdr header i).type = ptLoad
    · rw [if_pos htype] at hrest
      by_cases hloaded : (file.phdr header i).Granted s.used.toNat ∧
          (file.phdr header i).Complete file
      · obtain ⟨hg, hc⟩ := hloaded
        obtain ⟨hstays, hnext⟩ := hrest hg
        obtain ⟨hfits, hnext⟩ := hnext hc
        obtain ⟨fds, hinv, htop, hround⟩ := h.round_fits hentry info n htype hg hc hfits
        rw [Nat.mod_eq_of_lt hfits.2, ← htop] at hstays
        rw [← hstays] at hnext
        rw [hround]
        exact (ih _ hinv hnext).trans hstays
      · rw [(h.round_stops hentry info n htype hloaded).2]
        split
        · next hg => exact (hrest hg).1
        · rfl
    · rw [if_neg htype] at hrest
      rw [h.round_skip hentry info n htype]
      exact ih info h hrest

theorem segmentsLoad_of_ok (n : Nat) {i : Nat} (info : ProgramInfo)
    (h : LoopInv s file fd header phdrs) (hfit : SegmentsFit file header i s.used.toNat n)
    (hok : (loadSegments s file fd info ⟨phdrs, header.phSize⟩ i n).ok = true) :
    SegmentsLoad file header i s.used.toNat n := by
  induction n generalizing s i info with
  | zero => trivial
  | succ n ih =>
    have hentry := hfit.1
    refine ⟨hentry, ?_⟩
    by_cases htype : (file.phdr header i).type = ptLoad
    · rw [if_pos htype]
      obtain ⟨hg, hc, hfits, hnext⟩ := hfit.segment_of_ok h htype hok
      obtain ⟨fds, hinv, htop, hround⟩ := h.round_fits hentry info n htype hg hc hfits
      rw [hround] at hok
      rw [← htop] at hnext ⊢
      exact ⟨hg, hc, hfits, ih _ hinv hnext hok⟩
    · rw [if_neg htype]
      rw [h.round_skip hentry info n htype] at hok
      exact ih info h (hfit.skip htype) hok

/-- Where no end wraps, the position never moves back, and a load that stops where it was has taken
no room. -/
theorem segmentsEmpty_of_used (n : Nat) {i : Nat} (info : ProgramInfo)
    (h : LoopInv s file fd header phdrs) (hfit : SegmentsFit file header i s.used.toNat n)
    (hends : EndsFit file header i n) :
    s.used.toNat
        ≤ (loadSegments s file fd info ⟨phdrs, header.phSize⟩ i n).state.used.toNat ∧
      ((loadSegments s file fd info ⟨phdrs, header.phSize⟩ i n).state.used.toNat = s.used.toNat →
        SegmentsEmpty file header i s.used.toNat n) := by
  induction n generalizing s i info with
  | zero => exact ⟨Nat.le_refl _, fun _ => trivial⟩
  | succ n ih =>
    have hentry := hfit.1
    have hle := (file.phdr header i).le_top s.used.toNat
    by_cases htype : (file.phdr header i).type = ptLoad
    · have hstart := segmentStart_le h.used_le
      have hend := hends i (Nat.le_refl i) (by omega) htype
      have htop : (file.phdr header i).top s.used.toNat % 2 ^ 32
          = (file.phdr header i).top s.used.toNat := by
        unfold Phdr.top
        exact Nat.mod_eq_of_lt (by omega)
      by_cases hloaded : (file.phdr header i).Granted s.used.toNat ∧
          (file.phdr header i).Complete file
      · obtain ⟨hg, hc⟩ := hloaded
        obtain ⟨hfits, hnext⟩ := hfit.segment htype hg hc
        obtain ⟨fds, hinv, hused, hround⟩ := h.round_fits hentry info n htype hg hc hfits
        rw [← hused] at hnext hle
        obtain ⟨hmono, hempty⟩ := ih
          (info.cover (file.phdr header i).vaddr (file.phdr header i).memsz) hinv hnext hends.tail
        rw [hround]
        dsimp only at hmono hempty ⊢
        refine ⟨hle.trans hmono, fun hsame => ?_⟩
        have hstays := Nat.le_antisymm (hmono.trans (Nat.le_of_eq hsame)) hle
        refine ⟨hentry, ?_⟩
        rw [if_pos htype]
        refine fun _ => ⟨by rw [htop, ← hused, hstays], fun _ => ⟨hfits, ?_⟩⟩
        rw [hstays] at hempty
        exact hempty hsame
      · rw [(h.round_stops hentry info n htype hloaded).2]
        by_cases hg : (file.phdr header i).Granted s.used.toNat
        · rw [if_pos hg, htop]
          refine ⟨hle, fun hsame => ⟨hentry, ?_⟩⟩
          rw [if_pos htype]
          exact fun _ => ⟨htop.trans hsame, fun hc => absurd ⟨hg, hc⟩ hloaded⟩
        · rw [if_neg hg]
          refine ⟨Nat.le_refl _, fun _ => ⟨hentry, ?_⟩⟩
          rw [if_pos htype]
          exact fun hg' => absurd hg' hg
    · rw [h.round_skip hentry info n htype]
      obtain ⟨hmono, hempty⟩ := ih info h (hfit.skip htype) hends.tail
      refine ⟨hmono, fun hsame => ⟨hentry, ?_⟩⟩
      rw [if_neg htype]
      exact hempty hsame

end

/-! ## The whole load -/

theorem wordStart_eq_self_iff (used : Nat) : wordStart used = used ↔ 4 ∣ used := by
  unfold wordStart roundUp
  omega

/-- What is promised of a load that fails: `program_memory_used` is as before, and the descriptor
that was opened is closed. -/
structure LeaksNothing (s : LoaderState) (r : Loading) : Prop where
  used : r.ok = false → r.state.used = s.used
  closed : r.ok = false → ¬ IsOpen r.state.fds (fsOpen s.fds).2

/-- A load of the file takes nothing, or does not fail, or fails with nothing but the header table
taken and no padding below it. -/
def LoadGivesBack (s : LoaderState) (file : File) : Prop :=
  0 ≤ (fsOpen s.fds).2 → ∀ header ∈ file.elf, TableGranted header s.used.toNat →
    (TableRead file header s.used.toNat ∧
      SegmentsLoad file header 0 (wordStart s.used.toNat + header.phSize.toNat)
        header.phnum.toNat) ∨
    (4 ∣ s.used.toNat ∧ (TableRead file header s.used.toNat →
      SegmentsEmpty file header 0 (wordStart s.used.toNat + header.phSize.toNat)
        header.phnum.toNat))

/-- The end of some segment does not fit in 32 bits. -/
def EndWraps (file : File) : Prop :=
  ∃ header ∈ file.elf, ∃ i < header.phnum.toNat, (file.phdr header i).type = ptLoad ∧
    2 ^ 32 ≤ maxProgramSize + (file.phdr header i).vaddr.toNat + (file.phdr header i).memsz.toNat

theorem endsFit_of_not_endWraps {file : File} {header : ElfHeader} (helf : file.elf = some header)
    (h : ¬ EndWraps file) : EndsFit file header 0 header.phnum.toNat := by
  intro j _ hj htype
  by_contra hwrap
  exact h ⟨header, helf, j, by omega, htype, Nat.not_lt.mp hwrap⟩

theorem loadGivesBack_of_elf {s : LoaderState} {file : File} {header : ElfHeader}
    (helf : file.elf = some header)
    (h : TableGranted header s.used.toNat →
      (TableRead file header s.used.toNat ∧
        SegmentsLoad file header 0 (wordStart s.used.toNat + header.phSize.toNat)
          header.phnum.toNat) ∨
      (4 ∣ s.used.toNat ∧ (TableRead file header s.used.toNat →
        SegmentsEmpty file header 0 (wordStart s.used.toNat + header.phSize.toNat)
          header.phnum.toNat))) : LoadGivesBack s file := by
  intro _ header' helf'
  obtain rfl := Option.some.inj (helf.symm.trans helf')
  exact h

/-- The position after a load that got to the loop. -/
theorem finishLoad_used {file : File} {header : ElfHeader} {used : Nat}
    (hread : TableRead file header used) (fd : Int) (log : List Access) (r : Loading) :
    (finishLoad fd (tableBlock header used) log r).state.used.toNat
      = if wordStart used + header.phSize.toNat = r.state.used.toNat then wordStart used
        else r.state.used.toNat :=
  toNat_used_programFreeMemory hread.1

section

variable {s : LoaderState} {file : File} {fd : Int} {header : ElfHeader}
  (hread : TableRead file header s.used.toNat)

include hread

/-- The condition is enough for a load that gets to the loop. -/
theorem finishLoad_gives_back {log : List Access} {fds : Descriptors}
    (hinv : LoopInv (s.withTable file header fds) file fd header
      (BitVec.ofNat 32 (wordStart s.used.toNat))) (info : ProgramInfo)
    (haligned : 4 ∣ s.used.toNat)
    (hempty : SegmentsEmpty file header 0 (wordStart s.used.toNat + header.phSize.toNat)
      header.phnum.toNat) :
    (finishLoad fd (tableBlock header s.used.toNat) log
        (loadSegments (s.withTable file header fds) file fd info
          (tableBlock header s.used.toNat) 0 header.phnum.toNat)).state.used.toNat
      = s.used.toNat := by
  have htable := withTable_used hread fds
  rw [← htable] at hempty
  have hsame := used_of_segmentsEmpty header.phnum.toNat info hinv hempty
  rw [finishLoad_used hread]
  refine (if_pos ?_).trans ((wordStart_eq_self_iff _).mpr haligned)
  exact (hsame.trans htable).symm

/-- It is also necessary, for a load in bounds. -/
theorem segmentsEmpty_of_finishLoad {log : List Access} {fds : Descriptors}
    (hinv : LoopInv (s.withTable file header fds) file fd header
      (BitVec.ofNat 32 (wordStart s.used.toNat))) (info : ProgramInfo)
    (hfit : SegmentsFit file header 0 (wordStart s.used.toNat + header.phSize.toNat)
      header.phnum.toNat)
    (hends : EndsFit file header 0 header.phnum.toNat)
    (hsame : (finishLoad fd (tableBlock header s.used.toNat) log
        (loadSegments (s.withTable file header fds) file fd info
          (tableBlock header s.used.toNat) 0 header.phnum.toNat)).state.used.toNat
      = s.used.toNat) :
    4 ∣ s.used.toNat ∧
      SegmentsEmpty file header 0 (wordStart s.used.toNat + header.phSize.toNat)
        header.phnum.toNat := by
  have htable := withTable_used hread fds
  rw [← htable] at hfit ⊢
  obtain ⟨hmono, hempty⟩ := segmentsEmpty_of_used header.phnum.toNat info hinv hfit hends
  have hstart : s.used.toNat ≤ wordStart s.used.toNat := le_roundUp (by decide)
  rw [finishLoad_used hread] at hsame
  rw [htable] at hmono hempty
  by_cases hlast : wordStart s.used.toNat + header.phSize.toNat
      = (loadSegments (s.withTable file header fds) file fd info
          (tableBlock header s.used.toNat) 0 header.phnum.toNat).state.used.toNat
  · rw [if_pos hlast] at hsame
    rw [htable]
    exact ⟨(wordStart_eq_self_iff _).mp hsame, hempty hlast.symm⟩
  · -- the position has not moved back, so it is where it was only if nothing lies above
    rw [if_neg hlast] at hsame
    refine absurd (Nat.le_antisymm hmono ?_) hlast
    exact (Nat.le_of_eq hsame).trans (hstart.trans (Nat.le_add_right _ _))

end

/--
**Which files a failed load gives back.**

The descriptor is closed in any case. `program_memory_used` is as before when the load does not get
a block for the header table, when it does not fail at all, or when it fails with the position
aligned and no room taken by any segment before the one it stops at. A load that stays in bounds,
of segments whose ends do not wrap, leaves the position as it was in no other case.
-/
theorem program_load_leaks_nothing (s : LoaderState) (hused : s.used.toNat ≤ maxProgramSize)
    (file : File) (info : ProgramInfo) :
    ¬ IsOpen (programLoad s (some file) info).state.fds (fsOpen s.fds).2 ∧
      (LoadGivesBack s file → LeaksNothing s (programLoad s (some file) info)) ∧
      (LeaksNothing s (programLoad s (some file) info) → LoadFits s file →
        LoadGivesBack s file ∨ EndWraps file) := by
  have hclosed := not_isOpen_programLoad s file info
  refine ⟨hclosed, ?_⟩
  have hleaks : LeaksNothing s (programLoad s (some file) info) ↔
      ((programLoad s (some file) info).ok = false →
        (programLoad s (some file) info).state.used.toNat = s.used.toNat) := by
    constructor
    · exact fun h hfail => congrArg BitVec.toNat (h.used hfail)
    · exact fun h => ⟨fun hfail => BitVec.eq_of_toNat_eq (h hfail), fun _ => hclosed⟩
  rw [hleaks]
  rcases programLoad_ways hused file info with
    ⟨hnone, fds, hload⟩ | ⟨header, fds, hopen, helf, hread, hfds, hload⟩ |
      ⟨header, fds, hopen, helf, hread, hinv, hload⟩
  · rw [hload]
    refine ⟨fun _ _ => rfl, fun _ _ => Or.inl fun hopen header helf => ?_⟩
    rw [hnone hopen] at helf
    cases helf
  · obtain ⟨hfail, -, hleft⟩ :=
      loadTable_of_not_read (s := { s with fds := fds }) hused hfds hread info
    rw [hload, hfail, hleft]
    constructor
    · intro hback _
      split
      · next hg =>
        rcases hback hopen header helf hg with ⟨hread', -⟩ | ⟨haligned, -⟩
        · exact absurd hread' hread
        · exact (wordStart_eq_self_iff _).mpr haligned
      · rfl
    · intro hsame _
      refine Or.inl (loadGivesBack_of_elf helf fun hg => Or.inr ⟨?_, fun h => absurd h hread⟩)
      have hsame' := hsame rfl
      rw [if_pos hg] at hsame'
      exact (wordStart_eq_self_iff _).mp hsame'
  · have htable := withTable_used hread fds
    rw [hload]
    constructor
    · intro hback hfail
      rcases hback hopen header helf hread.granted with ⟨-, hsegments⟩ | ⟨haligned, hempty⟩
      · rw [← htable] at hsegments
        have hok := loadSegments_ok_of_load header.phnum.toNat header.info hinv hsegments
        exact absurd (hok.symm.trans hfail) (by decide)
      · exact finishLoad_gives_back hread hinv header.info haligned (hempty hread)
    · intro hsame hfits
      have hfit := hfits hopen header helf hread
      cases hok : (loadSegments (s.withTable file header fds) file (fsOpen s.fds).2 header.info
          (tableBlock header s.used.toNat) 0 header.phnum.toNat).ok with
      | true =>
        rw [← htable] at hfit
        have hsegments := segmentsLoad_of_ok header.phnum.toNat header.info hinv hfit hok
        rw [htable] at hsegments
        exact Or.inl (loadGivesBack_of_elf helf fun _ => Or.inl ⟨hread, hsegments⟩)
      | false =>
        by_cases hwraps : EndWraps file
        · exact Or.inr hwraps
        · have hends := endsFit_of_not_endWraps helf hwraps
          obtain ⟨haligned, hempty⟩ :=
            segmentsEmpty_of_finishLoad hread hinv header.info hfit hends (hsame hok)
          exact Or.inl (loadGivesBack_of_elf helf fun _ => Or.inr ⟨haligned, fun _ => hempty⟩)

/-- A file that ends in its header table: the block for the table is given back. -/
theorem program_load_leaks_nothing_short_table :
    (LoaderState.boot 0x20000 0x10000).used.toNat ≤ maxProgramSize ∧
      (programLoad (.boot 0x20000 0x10000) (some { tinyElf 1 1 with size := 60 }) default).ok
        = false ∧
      LeaksNothing (.boot 0x20000 0x10000)
        (programLoad (.boot 0x20000 0x10000) (some { tinyElf 1 1 with size := 60 }) default) := by
  refine ⟨by decide, by decide, (program_load_leaks_nothing (.boot 0x20000 0x10000) (by decide)
    { tinyElf 1 1 with size := 60 } default).2.1 ?_⟩
  refine loadGivesBack_of_elf
    (show _ = some (ElfHeader.ofBytes (tinyElf 1 1).bytes) by decide)
    fun _ => Or.inr ⟨by decide, ?_⟩
  exact fun hread => absurd hread (by decide)

/-- A segment of two bytes of which the file has one: the load fails, and the block for the segment
stays taken. -/
theorem program_load_leaks :
    (programLoad (.boot 0x20000 0x10000) (some (tinyElf 2 2)) default).ok = false ∧
      (programLoad (.boot 0x20000 0x10000) (some (tinyElf 2 2)) default).state.used = 0x2002 ∧
      ¬ LeaksNothing (.boot 0x20000 0x10000)
        (programLoad (.boot 0x20000 0x10000) (some (tinyElf 2 2)) default) := by
  have hfail : (programLoad (.boot 0x20000 0x10000) (some (tinyElf 2 2)) default).ok = false := by
    decide
  have hused : (programLoad (.boot 0x20000 0x10000) (some (tinyElf 2 2)) default).state.used
      = 0x2002 := by decide
  refine ⟨hfail, hused, fun h => ?_⟩
  have hsame := h.used hfail
  rw [hused] at hsame
  exact absurd hsame (by decide)

end MinimalistOS
