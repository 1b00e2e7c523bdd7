import MinimalistOS.Infra.Hull
import MinimalistOS.Properties.LoaderImage

/-!
# The addresses that a load reports

* `cover_bounds` — the update for one segment is a step of the sweep of `Infra/Hull.lean`
* `headersRead` — the headers as the loop reads them; those of the file, if the load stays in
  bounds
* `hull_reported_iff` — for which orders of the headers `base_address` and `size` are the hull of
  the segments

`size` is stored relative to `base_address`. A later segment that moves the base down leaves the
size as it is, so the end of the segments before it is lost.
-/

namespace MinimalistOS

open Infra

/-! ## One segment -/

/-- The addresses from `base_address` to the end, in exact arithmetic. -/
def ProgramInfo.bounds (info : ProgramInfo) : Nat × Nat :=
  (info.baseAddress.toNat, info.baseAddress.toNat + info.size.toNat)

/-- The addresses of a segment. -/
def Phdr.span (p : Phdr) : Nat × Nat := (p.vaddr.toNat, p.vaddr.toNat + p.memsz.toNat)

/-- The second half of the update, with the base already moved. -/
theorem bounds_of_size {info : ProgramInfo} (hinfo : info.bounds.2 < 2 ^ 32) {p : Phdr}
    (hp : p.span.2 < 2 ^ 32) (hbase : info.baseAddress.toNat ≤ p.vaddr.toNat) :
    (if info.baseAddress + info.size < p.vaddr + p.memsz then
        { info with size := p.vaddr + p.memsz - info.baseAddress } else info).bounds
      = (info.baseAddress.toNat, max info.bounds.2 p.span.2) := by
  unfold ProgramInfo.bounds Phdr.span at *
  have hend : (p.vaddr + p.memsz).toNat = p.vaddr.toNat + p.memsz.toNat := by
    rw [BitVec.toNat_add, Nat.mod_eq_of_lt hp]
  have htop : (info.baseAddress + info.size).toNat
      = info.baseAddress.toNat + info.size.toNat := by
    rw [BitVec.toNat_add, Nat.mod_eq_of_lt hinfo]
  by_cases hlt : info.baseAddress + info.size < p.vaddr + p.memsz
  · rw [if_pos hlt]
    rw [BitVec.lt_def, htop, hend] at hlt
    have hsize : (p.vaddr + p.memsz - info.baseAddress).toNat
        = p.vaddr.toNat + p.memsz.toNat - info.baseAddress.toNat := by
      rw [BitVec.toNat_sub_of_le (by rw [BitVec.le_def, hend]; omega), hend]
    dsimp only
    rw [hsize, Nat.max_eq_right (Nat.le_of_lt hlt), Nat.add_sub_cancel' (by omega)]
  · rw [if_neg hlt]
    rw [BitVec.lt_def, htop, hend, Nat.not_lt] at hlt
    rw [Nat.max_eq_left hlt]

/-- **The update for one segment** whose end does not wrap. -/
theorem cover_bounds {info : ProgramInfo} (hinfo : info.bounds.2 < 2 ^ 32) {p : Phdr}
    (hp : p.span.2 < 2 ^ 32) :
    (info.cover p.vaddr p.memsz).bounds = Hull.step info.bounds p.span ∧
      (info.cover p.vaddr p.memsz).bounds.2 < 2 ^ 32 := by
  have hsize : info.bounds.2 - info.bounds.1 = info.size.toNat := Nat.add_sub_cancel_left _ _
  have hbounds : (info.cover p.vaddr p.memsz).bounds = Hull.step info.bounds p.span := by
    unfold ProgramInfo.cover Hull.step
    rw [hsize]
    by_cases hlow : p.vaddr < info.baseAddress
    · have hlow' : p.vaddr.toNat < info.baseAddress.toNat := hlow
      have hmin : min info.bounds.1 p.span.1 = p.vaddr.toNat := Nat.min_eq_right hlow'.le
      have hinfo' : info.baseAddress.toNat + info.size.toNat < 2 ^ 32 := hinfo
      rw [hmin]
      simp only [if_pos hlow]
      have hmoved : ({ info with baseAddress := p.vaddr } : ProgramInfo).bounds.2 < 2 ^ 32 := by
        show p.vaddr.toNat + info.size.toNat < 2 ^ 32
        omega
      exact bounds_of_size hmoved hp (Nat.le_refl _)
    · have hlow' : info.baseAddress.toNat ≤ p.vaddr.toNat := Nat.not_lt.mp hlow
      have hmin : min info.bounds.1 p.span.1 = info.baseAddress.toNat := Nat.min_eq_left hlow'
      rw [hmin]
      simp only [if_neg hlow]
      exact bounds_of_size hinfo hp hlow'
  refine ⟨hbounds, ?_⟩
  rw [hbounds]
  show max (min info.bounds.1 p.span.1 + (info.bounds.2 - info.bounds.1)) p.span.2 < 2 ^ 32
  have hle : info.bounds.1 ≤ info.bounds.2 := Nat.le_add_right _ _
  omega

/-- The updates for a list of segments. -/
def ProgramInfo.coverAll (info : ProgramInfo) (l : List Phdr) : ProgramInfo :=
  l.foldl (fun info p => info.cover p.vaddr p.memsz) info

theorem coverAll_bounds {l : List Phdr} (hl : ∀ p ∈ l, p.span.2 < 2 ^ 32) :
    ∀ {info : ProgramInfo}, info.bounds.2 < 2 ^ 32 →
      (info.coverAll l).bounds = Hull.sweep info.bounds (l.map Phdr.span) := by
  induction l with
  | nil => exact fun _ => rfl
  | cons p l ih =>
    intro info hinfo
    obtain ⟨hp, hl⟩ := List.forall_mem_cons.mp hl
    obtain ⟨hbounds, hlt⟩ := cover_bounds hinfo hp
    show ((info.cover p.vaddr p.memsz).coverAll l).bounds = _
    rw [ih hl hlt, hbounds]
    rfl

/-! ## The headers -/

/-- The `PT_LOAD` headers as the loop reads them from entry `i` on, in memory that holds the header
table at `phdrs`, with `used` bytes handed out. Each segment is put in place before the next header
is read. -/
def headersRead (file : File) (m : Mem) (phdrs : Word) (i used : Nat) : Nat → List Phdr
  | 0 => []
  | n + 1 =>
    let p := phdrAt m phdrs i
    if p.type = ptLoad then
      p :: headersRead file (p.place file m (p.dest used)) phdrs (i + 1) (p.top used % 2 ^ 32) n
    else headersRead file m phdrs (i + 1) used n

/-- The `PT_LOAD` headers of the file, from entry `i` on. -/
def File.loadHeaders (file : File) (header : ElfHeader) (i : Nat) : Nat → List Phdr
  | 0 => []
  | n + 1 =>
    if (file.phdr header i).type = ptLoad then
      file.phdr header i :: file.loadHeaders header (i + 1) n
    else file.loadHeaders header (i + 1) n

section

variable {s : LoaderState} {file : File} {fd : Int}

/-- **What the loop reports**, whether it stays in bounds or not. -/
theorem loadSegments_info (table : Region) (n : Nat) {i : Nat} {info : ProgramInfo}
    (hused : s.used.toNat ≤ maxProgramSize) (hopen : IsOpen s.fds fd)
    (hok : (loadSegments s file fd info table i n).ok = true) :
    (loadSegments s file fd info table i n).info
      = info.coverAll (headersRead file s.mem table.start i s.used.toNat n) := by
  induction n generalizing s i info with
  | zero => rfl
  | succ n ih =>
    unfold loadSegments at hok ⊢
    unfold headersRead
    dsimp only at hok ⊢
    by_cases htype : (phdrAt s.mem table.start i).type = ptLoad
    · simp only [if_pos htype] at hok ⊢
      cases hsegment : (loadSegment s file fd info (phdrAt s.mem table.start i)).ok with
      | false =>
        simp only [hsegment, Bool.false_eq_true, if_false] at hok
      | true =>
        obtain ⟨hg, hc⟩ := (loadSegment_ok_iff hused file info _ hopen).mp hsegment
        obtain ⟨fds, hopen', heq⟩ :=
          loadSegment_complete hused file info (phdrAt s.mem table.start i) hopen hg hc
        have hstop := (phdrAt s.mem table.start i).toNat_stop s.used.toNat
        simp only [heq, if_true] at hok ⊢
        have hinfo := ih (s := ⟨s.base, _, _, fds, s.processes⟩) ?_ hopen' hok
        · rw [hinfo, hstop]
          rfl
        · rw [hstop]
          exact hg
    · simp only [if_neg htype] at hok ⊢
      exact ih hused hopen hok

/-- In bounds, the headers are those of the file. -/
theorem headersRead_eq {header : ElfHeader} {phdrs : Word} (n : Nat) {i : Nat}
    {info : ProgramInfo} (h : LoopInv s file fd header phdrs)
    (hfit : SegmentsFit file header i s.used.toNat n)
    (hok : (loadSegments s file fd info ⟨phdrs, header.phSize⟩ i n).ok = true) :
    headersRead file s.mem phdrs i s.used.toNat n = file.loadHeaders header i n := by
  induction n generalizing s i info with
  | zero => rfl
  | succ n ih =>
    have hentry := hfit.1
    unfold headersRead File.loadHeaders
    simp only [h.phdrAt_eq hentry]
    by_cases htype : (file.phdr header i).type = ptLoad
    · rw [if_pos htype, if_pos htype]
      obtain ⟨hg, hc, hfits, hnext⟩ := hfit.segment_of_ok h htype hok
      obtain ⟨fds, hinv, htop, hround⟩ := h.round_fits hentry info n htype hg hc hfits
      rw [hround] at hok
      rw [← htop] at hnext
      have hnext' := ih hinv hnext hok
      rw [s.toNat_used_loaded] at hnext'
      exact congrArg _ hnext'
    · rw [if_neg htype, if_neg htype]
      rw [h.round_skip hentry info n htype] at hok
      exact ih h (hfit.skip htype) hok

end

/-! ## The whole load -/

/-- The `PT_LOAD` headers that a load in this state reads. -/
def headers (s : LoaderState) (file : File) (header : ElfHeader) : List Phdr :=
  headersRead file (tableMem s file header) (BitVec.ofNat 32 (wordStart s.used.toNat)) 0
    (wordStart s.used.toNat + header.phSize.toNat) header.phnum.toNat

/-- A load that succeeds reports what the headers amount to, and in bounds these are the headers of
the file. -/
theorem programLoad_info {s : LoaderState} (hused : s.used.toNat ≤ maxProgramSize) {file : File}
    {header : ElfHeader} (helf : file.elf = some header) {info : ProgramInfo}
    (hok : (programLoad s (some file) info).ok = true) :
    (programLoad s (some file) info).info
        = { header.info.coverAll (headers s file header) with isLoaded := 1 } ∧
      (LoadFits s file → headers s file header = file.loadHeaders header 0 header.phnum.toNat) := by
  obtain ⟨hopen, hread, fds, hinv, hload⟩ := programLoad_of_ok hused helf hok
  have htable := withTable_used hread fds
  rw [hload] at hok ⊢
  have hloop : (loadSegments (s.withTable file header fds) file (fsOpen s.fds).2 header.info
      (tableBlock header s.used.toNat) 0 header.phnum.toNat).ok = true := hok
  have hinfo := loadSegments_info _ header.phnum.toNat hinv.used_le hinv.isOpen hloop
  rw [htable] at hinfo
  constructor
  · simp only [finishLoad, hloop, if_true, hinfo]
    rfl
  · intro hfits
    have hsegments := hfits hopen header helf hread
    rw [← htable] at hsegments
    have heq := headersRead_eq header.phnum.toNat hinv hsegments hloop
    rw [htable] at heq
    exact heq

/-- `base_address` is the least address of the segments, and `base_address + size` the greatest
end. -/
structure ReportsHull (info : ProgramInfo) (l : List Phdr) : Prop where
  base : IsLeast {a | ∃ p ∈ l, p.vaddr.toNat = a} info.baseAddress.toNat
  stop : IsGreatest {e | ∃ p ∈ l, p.vaddr.toNat + p.memsz.toNat = e}
    (info.baseAddress.toNat + info.size.toNat)

theorem reportsHull_iff {info : ProgramInfo} {l : List Phdr} :
    ReportsHull info l ↔
      IsLeast {a | ∃ x ∈ l.map Phdr.span, x.1 = a} info.bounds.1 ∧
        IsGreatest {e | ∃ x ∈ l.map Phdr.span, x.2 = e} info.bounds.2 := by
  simp only [List.mem_map, exists_exists_and_eq_and]
  exact ⟨fun h => ⟨h.base, h.stop⟩, fun h => ⟨h.1, h.2⟩⟩

/--
**The reported addresses are the hull for some orders of the headers.**

For every load that succeeds with at least one `PT_LOAD` header, where no end wraps:
`base_address` and `size` are the hull of the segments if and only if a header with the greatest end
stands at or after one with the least address. The headers are taken as the loop reads them; if the
load stays in bounds, they are the headers of the file.
-/
theorem hull_reported_iff (s : LoaderState) (hused : s.used.toNat ≤ maxProgramSize) (file : File)
    {header : ElfHeader} (helf : file.elf = some header) (info : ProgramInfo)
    (hok : (programLoad s (some file) info).ok = true) (hne : headers s file header ≠ [])
    (hends : ∀ p ∈ headers s file header, p.vaddr.toNat + p.memsz.toNat < 2 ^ 32) :
    (ReportsHull (programLoad s (some file) info).info (headers s file header) ↔
        Hull.EndAfterStart ((headers s file header).map Phdr.span)) ∧
      (LoadFits s file →
        headers s file header = file.loadHeaders header 0 header.phnum.toNat) := by
  obtain ⟨hinfo, hheaders⟩ := programLoad_info hused helf hok
  refine ⟨?_, hheaders⟩
  have hbounds : (programLoad s (some file) info).info.bounds
      = Hull.sweep (0xFFFFFFFF, 0xFFFFFFFF) ((headers s file header).map Phdr.span) := by
    rw [hinfo]
    have hstart : header.info.bounds = (0xFFFFFFFF, 0xFFFFFFFF) := rfl
    have hlt : header.info.bounds.2 < 2 ^ 32 := by
      rw [hstart]
      decide
    rw [← hstart]
    exact coverAll_bounds hends hlt
  have hswept : Hull.Swept ((headers s file header).map Phdr.span)
      (programLoad s (some file) info).info.bounds := by
    rw [hbounds]
    refine Hull.sweep_spec (mt List.map_eq_nil_iff.mp hne) ?_
    rintro x hx
    obtain ⟨p, -, rfl⟩ := List.mem_map.mp hx
    have hlt := p.vaddr.isLt
    exact ⟨Nat.le_add_right _ _, Nat.le_of_lt_succ hlt⟩
  rw [reportsHull_iff, hswept.isGreatest_iff]
  exact and_iff_right hswept.start

/-- An executable of 116 bytes: the header, and two entries of the header table for segments of one
byte at multiples of `0x100`, with no data. -/
def twoSegments (first second : Byte) : File where
  bytes k := [0x7F, 0x45, 0x4C, 0x46, 1, 1, 1, 0, 0, 0, 0, 0, 0, 0, 0, 0, 2, 0, 3, 0, 1, 0, 0, 0,
    0, 0x10, 0, 0, 52, 0, 0, 0, 0, 0, 0, 0, 0, 0, 0, 0, 52, 0, 32, 0, 2, 0, 0, 0, 0, 0, 0, 0,
    1, 0, 0, 0, 0, 0, 0, 0, 0, first, 0, 0, 0, 0, 0, 0, 0, 0, 0, 0, 1, 0, 0, 0, 5, 0, 0, 0, 0, 16,
    0, 0, 1, 0, 0, 0, 0, 0, 0, 0, 0, second, 0, 0, 0, 0, 0, 0, 0, 0, 0, 0, 1, 0, 0, 0, 5, 0, 0, 0,
    0, 16, 0, 0].getD k 0
  size := 116

def twoSegmentsHeader : ElfHeader where
  magic := 0x464C457F
  class' := 1
  data := 1
  type := 2
  machine := 3
  entry := 0x1000
  phoff := 52
  phentsize := 32
  phnum := 2

theorem hull_reported_ascending :
    headers (.boot 0x20000 0x10000) (twoSegments 0x10 0x20) twoSegmentsHeader ≠ [] ∧
      ((ReportsHull
          (programLoad (.boot 0x20000 0x10000) (some (twoSegments 0x10 0x20)) default).info
          (headers (.boot 0x20000 0x10000) (twoSegments 0x10 0x20) twoSegmentsHeader) ↔
        Hull.EndAfterStart ((headers (.boot 0x20000 0x10000) (twoSegments 0x10 0x20)
          twoSegmentsHeader).map Phdr.span)) ∧
      (LoadFits (.boot 0x20000 0x10000) (twoSegments 0x10 0x20) →
        headers (.boot 0x20000 0x10000) (twoSegments 0x10 0x20) twoSegmentsHeader
          = (twoSegments 0x10 0x20).loadHeaders twoSegmentsHeader 0
            twoSegmentsHeader.phnum.toNat)) := by
  have hne : headers (.boot 0x20000 0x10000) (twoSegments 0x10 0x20) twoSegmentsHeader ≠ [] := by
    decide +kernel
  exact ⟨hne, hull_reported_iff (.boot 0x20000 0x10000) (by decide) (twoSegments 0x10 0x20)
    (by decide +kernel) default (by decide +kernel) hne (by decide +kernel)⟩

/-- The segments the other way round: the load reports `[0x1000, 0x1001)`, and the segment at
`0x2000` is not in it. -/
theorem hull_not_reported_descending :
    (programLoad (.boot 0x20000 0x10000) (some (twoSegments 0x20 0x10)) default).ok = true ∧
      (headers (.boot 0x20000 0x10000) (twoSegments 0x20 0x10) twoSegmentsHeader).map Phdr.span
        = [(0x2000, 0x2001), (0x1000, 0x1001)] ∧
      ¬ ReportsHull
        (programLoad (.boot 0x20000 0x10000) (some (twoSegments 0x20 0x10)) default).info
        (headers (.boot 0x20000 0x10000) (twoSegments 0x20 0x10) twoSegmentsHeader) := by
  have hspans : (headers (.boot 0x20000 0x10000) (twoSegments 0x20 0x10) twoSegmentsHeader).map
      Phdr.span = [(0x2000, 0x2001), (0x1000, 0x1001)] := by
    decide +kernel
  have hbounds : (programLoad (.boot 0x20000 0x10000) (some (twoSegments 0x20 0x10))
      default).info.bounds = (0x1000, 0x1001) := by
    decide +kernel
  refine ⟨by decide +kernel, hspans, fun h => ?_⟩
  have hstop := (reportsHull_iff.mp h).2
  rw [hspans, hbounds] at hstop
  have hle := hstop.2 ⟨(0x2000, 0x2001), List.mem_cons_self, rfl⟩
  revert hle
  decide

end MinimalistOS
