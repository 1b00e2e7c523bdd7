import MinimalistOS.Kernel.Loader

/-!
# Loading stays in bounds

* `programAllocMemory_eq` — where a block lies, and when there is one
* `loadSegment_refused`, `loadSegment_short`, `loadSegment_complete` — one segment
* `Access.InBounds` — an access lies where it belongs
* `LoopInv` — what the loop over the header table keeps; `LoopInv.round_skip` and the lemmas after
  it say what one round does
* `programLoad_cases` — everything `program_load` can do
* `program_load_in_bounds` — which files are loaded in bounds

All the sizes come from the file and are added up as 32-bit words. The condition is a walk over the
header table of the file in exact arithmetic.
-/

namespace MinimalistOS

open Infra

/-! ## Allocation -/

/-- Where a block for an alignment of `2 ^ k` starts. -/
theorem roundUp_le_maxProgramSize {used k : Nat} (h : used ≤ maxProgramSize) (hk : k ≤ 12) :
    roundUp used (2 ^ k) ≤ maxProgramSize := by
  have hsplit : maxProgramSize = 2 ^ (20 - k) * 2 ^ k := by
    rw [← Nat.pow_add, Nat.sub_add_cancel (by omega)]
    rfl
  rw [hsplit] at h ⊢
  exact roundUp_le (Nat.two_pow_pos k) h

/-- `program_alloc_memory` in a state where at most all of `program_memory` is used. -/
theorem programAllocMemory_eq {s : LoaderState} (h : s.used.toNat ≤ maxProgramSize) {k : Nat}
    (hk : k ≤ 12) (size : Word) :
    programAllocMemory s size (BitVec.twoPow 32 k)
      = if maxProgramSize < (roundUp s.used.toNat (2 ^ k) + size.toNat) % 2 ^ 32 then (s, none)
        else ({ s with used := BitVec.ofNat 32 (roundUp s.used.toNat (2 ^ k)) + size },
          some (BitVec.ofNat 32 (roundUp s.used.toNat (2 ^ k)))) := by
  have hpow : 2 ^ k ≤ 2 ^ 12 := Nat.pow_le_pow_right (by decide) hk
  have hround := toNat_roundUp s.used (k := k) (by omega) (by unfold maxProgramSize at h; omega)
  have haligned : (s.used + BitVec.twoPow 32 k - 1) &&& ~~~(BitVec.twoPow 32 k - 1)
      = BitVec.ofNat 32 (roundUp s.used.toNat (2 ^ k)) := by
    rw [← hround, BitVec.ofNat_toNat, BitVec.setWidth_eq]
  have hsum : (BitVec.ofNat 32 (roundUp s.used.toNat (2 ^ k)) + size).toNat
      = (roundUp s.used.toNat (2 ^ k) + size.toNat) % 2 ^ 32 := by
    rw [BitVec.toNat_add, BitVec.toNat_ofNat, Nat.mod_add_mod]
  simp only [programAllocMemory, haligned, hsum]

/-- The end of a block inside `program_memory`. -/
theorem toNat_ofNat_add {start : Nat} {size : Word} (h : start + size.toNat ≤ maxProgramSize) :
    (BitVec.ofNat 32 start + size).toNat = start + size.toNat := by
  unfold maxProgramSize at h
  rw [BitVec.toNat_add, BitVec.toNat_ofNat]
  omega

/-! ## One segment -/

/-- The start of the block for a segment. -/
def segmentStart (used : Nat) : Nat := roundUp used 4096

theorem segmentStart_le {used : Nat} (h : used ≤ maxProgramSize) :
    segmentStart used ≤ maxProgramSize := roundUp_le_maxProgramSize (k := 12) h (by decide)

theorem le_segmentStart (used : Nat) : used ≤ segmentStart used := le_roundUp (by decide)

namespace Phdr

/-- There is a block for the segment, as `program_alloc_memory` adds things up. -/
def Granted (p : Phdr) (used : Nat) : Prop :=
  (segmentStart used + p.vaddr.toNat + p.memsz.toNat) % 2 ^ 32 ≤ maxProgramSize

instance (p : Phdr) (used : Nat) : Decidable (p.Granted used) := inferInstanceAs (Decidable (_ ≤ _))

/-- The block for the segment. -/
def block (p : Phdr) (used : Nat) : Region :=
  ⟨BitVec.ofNat 32 (segmentStart used), p.vaddr + p.memsz⟩

/-- Where the segment starts in its block. -/
def dest (p : Phdr) (used : Nat) : Word := BitVec.ofNat 32 (segmentStart used) + p.vaddr

/-- The file holds the data of the segment, as `fs_read` adds things up. -/
def Complete (p : Phdr) (file : File) : Prop := file.toRead p.offset p.filesz = p.filesz

instance (p : Phdr) (file : File) : Decidable (p.Complete file) :=
  inferInstanceAs (Decidable (_ = _))

/-- Byte `k` of the segment. -/
def byte (p : Phdr) (file : File) (k : Nat) : Byte :=
  if k < p.filesz.toNat then file.bytes (p.offset.toNat + k) else 0

/-- Memory with the segment at `dest`. -/
def place (p : Phdr) (file : File) (m : Mem) (dest : Word) : Mem := fun x =>
  if (x - dest).toNat < max p.filesz.toNat p.memsz.toNat then p.byte file (x - dest).toNat
  else m x

/-- The writes for a segment that is loaded completely. -/
def writes (p : Phdr) (used : Nat) : List Access :=
  (if 0 < p.filesz.toNat then [.segment (p.block used) (p.dest used) p.filesz.toNat] else []) ++
    if p.filesz.toNat < p.memsz.toNat then
      [.segment (p.block used) (p.dest used + p.filesz) (p.memsz - p.filesz).toNat]
    else []

end Phdr

theorem programAllocMemory_segment {s : LoaderState} (h : s.used.toNat ≤ maxProgramSize)
    (p : Phdr) :
    programAllocMemory s (p.vaddr + p.memsz) 4096
      = if p.Granted s.used.toNat then
          ({ s with used := p.dest s.used.toNat + p.memsz },
            some (BitVec.ofNat 32 (segmentStart s.used.toNat)))
        else (s, none) := by
  have halloc := programAllocMemory_eq h (k := 12) (by decide) (p.vaddr + p.memsz)
  have hsum : (roundUp s.used.toNat (2 ^ 12) + (p.vaddr + p.memsz).toNat) % 2 ^ 32
      = (segmentStart s.used.toNat + p.vaddr.toNat + p.memsz.toNat) % 2 ^ 32 := by
    rw [BitVec.toNat_add]
    show (segmentStart s.used.toNat + _) % 2 ^ 32 = _
    omega
  rw [hsum] at halloc
  have hstart : roundUp s.used.toNat (2 ^ 12) = segmentStart s.used.toNat := rfl
  rw [hstart, ← BitVec.add_assoc] at halloc
  rw [show (4096 : Word) = BitVec.twoPow 32 12 from rfl, halloc]
  by_cases hg : p.Granted s.used.toNat
  · rw [if_pos hg, if_neg (Nat.not_lt.mpr hg)]
    rfl
  · rw [if_neg hg, if_pos (Nat.not_le.mp hg)]

/-- A read at an offset through an open descriptor. -/
theorem seekRead_eq {s : LoaderState} {fd : Int} (h : IsOpen s.fds fd) (file : File)
    (offset dest count : Word) : ∃ fds, IsOpen fds fd ∧
      s.seekRead file fd offset dest count
        = ({ s with
              fds := fds
              mem := memcpyTo s.mem dest (fun k => file.bytes (offset.toNat + k))
                (file.toRead offset count).toNat },
            (file.toRead offset count).toNat, (file.toRead offset count).toInt) := by
  have hread := h.read_seek file offset count
  refine ⟨_, (h.seek offset).1.read file count, ?_⟩
  simp only [LoaderState.seekRead, hread]

/-- The data of a segment, copied. -/
theorem readSegment_eq {s : LoaderState} {fd : Int} (h : IsOpen s.fds fd) (file : File)
    (block : Region) (dest : Word) (p : Phdr) : ∃ fds, IsOpen fds fd ∧
      readSegment s file fd block dest p
        = ({ s with
              fds := fds
              mem := memcpyTo s.mem dest (fun k => file.bytes (p.offset.toNat + k))
                (file.toRead p.offset p.filesz).toNat },
            if 0 < p.filesz.toNat then
              [.segment block dest (file.toRead p.offset p.filesz).toNat] else [],
            decide (p.Complete file)) := by
  unfold readSegment
  by_cases hpos : 0 < p.filesz.toNat
  · obtain ⟨fds, hopen, hread⟩ := seekRead_eq h file p.offset dest p.filesz
    refine ⟨fds, hopen, ?_⟩
    have hok : decide (BitVec.ofInt 32 (file.toRead p.offset p.filesz).toInt = p.filesz)
        = decide (p.Complete file) := by
      rw [decide_eq_decide, BitVec.ofInt_toInt]
      rfl
    rw [if_pos hpos, if_pos hpos, hread, ← hok]
  · refine ⟨s.fds, h, ?_⟩
    have hnone := file.toNat_toRead_le p.offset p.filesz
    have hzero : (file.toRead p.offset p.filesz).toNat = 0 := by omega
    have hcomplete : p.Complete file := BitVec.eq_of_toNat_eq (by omega)
    rw [if_neg hpos, if_neg hpos, hzero, decide_eq_true hcomplete]
    rfl

theorem zeroBss_eq (s : LoaderState) (block : Region) (dest : Word) (p : Phdr) :
    zeroBss s block dest p
      = ({ s with mem := memset s.mem (dest + p.filesz) 0 (p.memsz.toNat - p.filesz.toNat) },
          if p.filesz.toNat < p.memsz.toNat then
            [.segment block (dest + p.filesz) (p.memsz - p.filesz).toNat] else []) := by
  unfold zeroBss
  by_cases hlt : p.filesz.toNat < p.memsz.toNat
  · have hsub : (p.memsz - p.filesz).toNat = p.memsz.toNat - p.filesz.toNat := by bv_omega
    rw [if_pos hlt, if_pos hlt, hsub]
  · rw [if_neg hlt, if_neg hlt, Nat.sub_eq_zero_of_le (Nat.le_of_not_lt hlt)]
    rfl

/-- The two copies of a complete segment put it in place. -/
theorem memset_memcpyTo_eq_place (p : Phdr) (file : File) (m : Mem) (dest : Word) :
    memset (memcpyTo m dest (fun k => file.bytes (p.offset.toNat + k)) p.filesz.toNat)
        (dest + p.filesz) 0 (p.memsz.toNat - p.filesz.toNat)
      = p.place file m dest := by
  have hf := p.filesz.isLt
  have hm := p.memsz.isLt
  funext x
  rw [memset_apply _ _ (by omega), memcpyTo_apply _ (by omega), Phdr.place, Phdr.byte]
  have hsub : (x - (dest + p.filesz)).toNat
      = ((x - dest).toNat + 2 ^ 32 - p.filesz.toNat) % 2 ^ 32 := by
    bv_omega
  rw [hsub]
  generalize hy : (x - dest).toNat = y
  have hlt : y < 2 ^ 32 := hy ▸ (x - dest).isLt
  by_cases hyf : y < p.filesz.toNat
  · rw [if_neg (by omega), if_pos hyf, if_pos (by omega), if_pos hyf]
  · by_cases hym : y < p.memsz.toNat
    · rw [if_pos (by omega), if_pos (by omega), if_neg hyf]
    · rw [if_neg (by omega), if_neg hyf, if_neg (by omega)]

section

variable {s : LoaderState} {fd : Int} (hused : s.used.toNat ≤ maxProgramSize) (file : File)
  (info : ProgramInfo) (p : Phdr)

include hused

/-- There is no block for the segment. -/
theorem loadSegment_refused (fd : Int) (hg : ¬ p.Granted s.used.toNat) :
    loadSegment s file fd info p = ⟨s, info.cover p.vaddr p.memsz, [], false⟩ := by
  simp only [loadSegment, programAllocMemory_segment hused, if_neg hg]

/-- The file ends before the data of the segment does. -/
theorem loadSegment_short (hopen : IsOpen s.fds fd) (hg : p.Granted s.used.toNat)
    (hc : ¬ p.Complete file) :
    (loadSegment s file fd info p).ok = false ∧
      (loadSegment s file fd info p).log
        = [.alloc (p.block s.used.toNat),
            .segment (p.block s.used.toNat) (p.dest s.used.toNat)
              (file.toRead p.offset p.filesz).toNat] := by
  have hpos : 0 < p.filesz.toNat := by
    by_contra hzero
    have hle := file.toNat_toRead_le p.offset p.filesz
    exact hc (BitVec.eq_of_toNat_eq (by omega))
  have halloc := programAllocMemory_segment hused p
  rw [if_pos hg] at halloc
  obtain ⟨fds, -, hread⟩ := readSegment_eq
    (s := { s with used := p.dest s.used.toNat + p.memsz }) hopen file (p.block s.used.toNat)
    (p.dest s.used.toNat) p
  rw [if_pos hpos, decide_eq_false hc] at hread
  unfold Phdr.dest Phdr.block at hread
  unfold loadSegment
  rw [halloc]
  simp only [Phdr.dest, hread]
  exact ⟨rfl, rfl⟩

/-- The segment is put in place. -/
theorem loadSegment_complete (hopen : IsOpen s.fds fd) (hg : p.Granted s.used.toNat)
    (hc : p.Complete file) : ∃ fds, IsOpen fds fd ∧
      loadSegment s file fd info p
        = ⟨{ s with
              used := p.dest s.used.toNat + p.memsz
              fds := fds
              mem := p.place file s.mem (p.dest s.used.toNat) },
            info.cover p.vaddr p.memsz, .alloc (p.block s.used.toNat) :: p.writes s.used.toNat,
            true⟩ := by
  have halloc := programAllocMemory_segment hused p
  rw [if_pos hg] at halloc
  obtain ⟨fds, hopen', hread⟩ := readSegment_eq
    (s := { s with used := p.dest s.used.toNat + p.memsz }) hopen file (p.block s.used.toNat)
    (p.dest s.used.toNat) p
  have hn : file.toRead p.offset p.filesz = p.filesz := hc
  rw [decide_eq_true hc, hn] at hread
  have hplace := memset_memcpyTo_eq_place p file s.mem (p.dest s.used.toNat)
  refine ⟨fds, hopen', ?_⟩
  unfold Phdr.dest Phdr.block at hread
  unfold Phdr.dest at hplace
  unfold loadSegment
  rw [halloc]
  simp only [Phdr.dest, hread, if_true, zeroBss_eq, hplace]
  rfl

/-- A segment is loaded when there is a block for it and its data is there. -/
theorem loadSegment_ok_iff (hopen : IsOpen s.fds fd) :
    (loadSegment s file fd info p).ok = true ↔ p.Granted s.used.toNat ∧ p.Complete file := by
  by_cases hg : p.Granted s.used.toNat
  · by_cases hc : p.Complete file
    · obtain ⟨fds, -, heq⟩ := loadSegment_complete hused file info p hopen hg hc
      rw [heq]
      exact iff_of_true rfl ⟨hg, hc⟩
    · rw [(loadSegment_short hused file info p hopen hg hc).1]
      exact iff_of_false Bool.false_ne_true fun h => hc h.2
  · rw [loadSegment_refused hused file info p fd hg]
    exact iff_of_false Bool.false_ne_true fun h => hg h.1

end

/-! ## In bounds -/

/-- An entry of the header table is read inside the bytes of the table, and every byte written for a
segment lies inside its block and inside `program_memory`. -/
def Access.InBounds : Access → Prop
  | .alloc _ => True
  | .table _ _ => True
  | .phdr headers i => sizeofPhdr * (i + 1) ≤ headers.size.toNat
  | .segment block p n => ∀ k < n, block.start.toNat ≤ (p + BitVec.ofNat 32 k).toNat ∧
      (p + BitVec.ofNat 32 k).toNat < block.start.toNat + block.size.toNat ∧
      (p + BitVec.ofNat 32 k).toNat < maxProgramSize

/-- A range of bytes in bounds has not wrapped. -/
theorem inBounds_segment_iff (block : Region) (p : Word) {n : Nat} (hn : n ≤ 2 ^ 32) :
    (Access.segment block p n).InBounds ↔
      n = 0 ∨ (block.start.toNat ≤ p.toNat ∧ p.toNat + n ≤ block.start.toNat + block.size.toNat ∧
        p.toNat + n ≤ maxProgramSize) := by
  have hadd : ∀ k, k < n → p.toNat + k < 2 ^ 32 → (p + BitVec.ofNat 32 k).toNat = p.toNat + k := by
    intro k hk hlt
    rw [BitVec.toNat_add, BitVec.toNat_ofNat]
    omega
  have hmax : maxProgramSize < 2 ^ 32 := by decide
  constructor
  · intro h
    rcases Nat.eq_zero_or_pos n with hzero | hpos
    · exact Or.inl hzero
    · right
      have hp : p.toNat < maxProgramSize := by
        have := (h 0 hpos).2.2
        rwa [hadd 0 hpos (by omega), Nat.add_zero] at this
      have hfit : p.toNat + n ≤ maxProgramSize := by
        by_contra hover
        -- the byte right behind `program_memory` would be written
        have := (h (maxProgramSize - p.toNat) (by omega)).2.2
        rw [hadd _ (by omega) (by omega)] at this
        omega
      have hfirst := (h 0 hpos).1
      have hlast := (h (n - 1) (by omega)).2.1
      rw [hadd 0 hpos (by omega)] at hfirst
      rw [hadd _ (by omega) (by omega)] at hlast
      exact ⟨hfirst, by omega, hfit⟩
  · rintro (rfl | ⟨hstart, hend, hfit⟩) k hk
    · exact absurd hk (Nat.not_lt_zero k)
    · rw [hadd k hk (by omega)]
      omega

namespace Phdr

/-- The end of the segment's block in exact arithmetic. -/
def top (p : Phdr) (used : Nat) : Nat := segmentStart used + p.vaddr.toNat + p.memsz.toNat

/-- The segment is no longer in the file than in memory, and its end does not wrap. -/
def Fits (p : Phdr) (used : Nat) : Prop := p.filesz.toNat ≤ p.memsz.toNat ∧ p.top used < 2 ^ 32

instance (p : Phdr) (used : Nat) : Decidable (p.Fits used) := inferInstanceAs (Decidable (_ ∧ _))

/-- What the file has of the segment fits. -/
def ShortFits (p : Phdr) (file : File) (used : Nat) : Prop :=
  (file.toRead p.offset p.filesz).toNat = 0 ∨
    (p.vaddr.toNat + (file.toRead p.offset p.filesz).toNat
        ≤ (p.vaddr.toNat + p.memsz.toNat) % 2 ^ 32 ∧
      segmentStart used + p.vaddr.toNat + (file.toRead p.offset p.filesz).toNat ≤ maxProgramSize)

instance (p : Phdr) (file : File) (used : Nat) : Decidable (p.ShortFits file used) :=
  inferInstanceAs (Decidable (_ ∨ (_ ∧ _)))

variable {p : Phdr} {used : Nat} (hused : used ≤ maxProgramSize)

theorem toNat_block_size (p : Phdr) (used : Nat) :
    (p.block used).size.toNat = (p.vaddr.toNat + p.memsz.toNat) % 2 ^ 32 :=
  BitVec.toNat_add p.vaddr p.memsz

theorem toNat_dest (p : Phdr) (used : Nat) :
    (p.dest used).toNat = (segmentStart used + p.vaddr.toNat) % 2 ^ 32 := by
  rw [dest, BitVec.toNat_add, BitVec.toNat_ofNat, Nat.mod_add_mod]

/-- The end of a segment's block, as it is added up. -/
theorem toNat_stop (p : Phdr) (used : Nat) :
    (p.dest used + p.memsz).toNat = p.top used % 2 ^ 32 := by
  rw [BitVec.toNat_add, toNat_dest, Nat.mod_add_mod]
  rfl

include hused

theorem toNat_block_start : (p.block used).start.toNat = segmentStart used := by
  have hle := segmentStart_le hused
  unfold maxProgramSize at hle
  exact Nat.mod_eq_of_lt (by omega)

theorem shortFits_iff (file : File) :
    (Access.segment (p.block used) (p.dest used)
        (file.toRead p.offset p.filesz).toNat).InBounds ↔ p.ShortFits file used := by
  have hle := segmentStart_le hused
  have hv := p.vaddr.isLt
  rw [inBounds_segment_iff _ _ (by omega), toNat_block_start hused, toNat_block_size, toNat_dest]
  unfold ShortFits maxProgramSize at *
  omega

/-- The writes of a complete segment are in bounds when there are none, and otherwise exactly when
it fits. -/
theorem writes_inBounds_iff (hg : p.Granted used) :
    (∀ x ∈ p.writes used, x.InBounds) ↔
      (p.filesz.toNat = 0 ∧ p.memsz.toNat = 0) ∨ p.Fits used := by
  have hle := segmentStart_le hused
  have hv := p.vaddr.isLt
  have hf := p.filesz.isLt
  have hm := p.memsz.isLt
  have hbss : (p.dest used + p.filesz).toNat
      = (segmentStart used + p.vaddr.toNat + p.filesz.toNat) % 2 ^ 32 := by
    rw [BitVec.toNat_add, toNat_dest, Nat.mod_add_mod]
  have hdata := inBounds_segment_iff (p.block used) (p.dest used) (Nat.le_of_lt hf)
  have hzero := inBounds_segment_iff (p.block used) (p.dest used + p.filesz)
    (Nat.le_of_lt (p.memsz - p.filesz).isLt)
  rw [toNat_block_start hused, toNat_block_size] at hdata hzero
  rw [toNat_dest] at hdata
  rw [hbss] at hzero
  unfold Granted maxProgramSize at *
  unfold writes Fits top
  by_cases hpos : 0 < p.filesz.toNat
  · by_cases hlt : p.filesz.toNat < p.memsz.toNat
    · have hsub : (p.memsz - p.filesz).toNat = p.memsz.toNat - p.filesz.toNat := by bv_omega
      rw [hsub] at hzero
      simp only [if_pos hpos, if_pos hlt, hsub, List.cons_append, List.nil_append,
        List.mem_cons, List.not_mem_nil, or_false, forall_eq_or_imp, forall_eq, hdata, hzero]
      omega
    · simp only [if_pos hpos, if_neg hlt, List.append_nil, List.mem_cons, List.not_mem_nil,
        or_false, forall_eq, hdata]
      omega
  · by_cases hlt : p.filesz.toNat < p.memsz.toNat
    · have hsub : (p.memsz - p.filesz).toNat = p.memsz.toNat - p.filesz.toNat := by bv_omega
      rw [hsub] at hzero
      simp only [if_neg hpos, if_pos hlt, hsub, List.nil_append, List.mem_cons,
        List.not_mem_nil, or_false, forall_eq, hzero]
      omega
    · simp only [if_neg hpos, if_neg hlt, List.append_nil, List.not_mem_nil, false_implies,
        implies_true, true_iff]
      omega

end Phdr

/-! ## The header table -/

/-- Entry `i` of the header table as it stands in the file. -/
def File.phdr (file : File) (header : ElfHeader) (i : Nat) : Phdr :=
  Phdr.ofBytes fun k => file.bytes (header.phoff.toNat + (sizeofPhdr * i + k))

theorem Phdr.ofBytes_congr {b b' : Nat → Byte} (h : ∀ k < sizeofPhdr, b k = b' k) :
    Phdr.ofBytes b = Phdr.ofBytes b' := by
  have hle : ∀ k, k + 3 < sizeofPhdr → le32 b k = le32 b' k := by
    intro k hk
    unfold le32
    rw [h _ hk, h (k + 2) (by omega), h (k + 1) (by omega), h k (by omega)]
  unfold Phdr.ofBytes
  rw [hle 0 (by decide), hle 4 (by decide), hle 8 (by decide), hle 16 (by decide),
    hle 20 (by decide)]

/-- What the loop over the header table keeps: the file is open, and the table lies untouched below
everything that is still to be handed out. -/
structure LoopInv (s : LoaderState) (file : File) (fd : Int) (header : ElfHeader) (phdrs : Word) :
    Prop where
  used_le : s.used.toNat ≤ maxProgramSize
  isOpen : IsOpen s.fds fd
  below : phdrs.toNat + header.phSize.toNat ≤ s.used.toNat
  bytes : ∀ j < header.phSize.toNat,
    s.mem (phdrs + BitVec.ofNat 32 j) = file.bytes (header.phoff.toNat + j)

/-- The state after a segment has been put into memory. -/
def LoaderState.loaded (s : LoaderState) (file : File) (p : Phdr) (fds : Descriptors) :
    LoaderState :=
  { s with
    used := p.dest s.used.toNat + p.memsz
    fds := fds
    mem := p.place file s.mem (p.dest s.used.toNat) }

theorem LoaderState.toNat_used_loaded (s : LoaderState) (file : File) (p : Phdr)
    (fds : Descriptors) :
    (s.loaded file p fds).used.toNat = p.top s.used.toNat % 2 ^ 32 :=
  p.toNat_stop s.used.toNat

namespace LoopInv

variable {s : LoaderState} {file : File} {fd : Int} {header : ElfHeader} {phdrs : Word}

/-- An entry inside the table is read as it stands in the file. -/
theorem phdrAt_eq (h : LoopInv s file fd header phdrs) {i : Nat}
    (hi : sizeofPhdr * (i + 1) ≤ header.phSize.toNat) :
    phdrAt s.mem phdrs i = file.phdr header i := by
  refine Phdr.ofBytes_congr fun k hk => h.bytes _ ?_
  unfold sizeofPhdr at *
  omega

/-- A segment that fits is put above the table. -/
theorem place (h : LoopInv s file fd header phdrs) {p : Phdr} (hg : p.Granted s.used.toNat)
    (hfits : p.Fits s.used.toNat) {fds : Descriptors} (hfds : IsOpen fds fd) :
    LoopInv (s.loaded file p fds) file fd header phdrs ∧
      (s.loaded file p fds).used.toNat = p.top s.used.toNat := by
  obtain ⟨hused, -, hbelow, hbytes⟩ := h
  obtain ⟨hle, htop⟩ := hfits
  have hstart := le_segmentStart s.used.toNat
  unfold Phdr.Granted at hg
  unfold Phdr.top at htop ⊢
  rw [Nat.mod_eq_of_lt htop] at hg
  have hdest : (p.dest s.used.toNat).toNat = segmentStart s.used.toNat + p.vaddr.toNat := by
    rw [Phdr.toNat_dest, Nat.mod_eq_of_lt (by omega)]
  have hend : (p.dest s.used.toNat + p.memsz).toNat
      = segmentStart s.used.toNat + p.vaddr.toNat + p.memsz.toNat := by
    rw [BitVec.toNat_add, hdest, Nat.mod_eq_of_lt htop]
  refine ⟨⟨hend ▸ hg, hfds, ?_, fun j hj => ?_⟩, hend⟩
  · show _ ≤ (p.dest s.used.toNat + p.memsz).toNat
    omega
  · rw [← hbytes j hj]
    -- the table is below the segment, so it is far above it on the circle of addresses
    have hfar : ¬ (phdrs + BitVec.ofNat 32 j - p.dest s.used.toNat).toNat
        < max p.filesz.toNat p.memsz.toNat := by
      unfold maxProgramSize at hg
      rw [BitVec.toNat_sub, BitVec.toNat_add, BitVec.toNat_ofNat, hdest]
      omega
    exact if_neg hfar

/-! One round of the loop, for an entry inside the table. -/

section

variable (h : LoopInv s file fd header phdrs) {i : Nat}
  (hi : sizeofPhdr * (i + 1) ≤ header.phSize.toNat) (info : ProgramInfo) (n : Nat)

include h hi

theorem round_skip (htype : (file.phdr header i).type ≠ ptLoad) :
    loadSegments s file fd info ⟨phdrs, header.phSize⟩ i (n + 1) =
      let rest := loadSegments s file fd info ⟨phdrs, header.phSize⟩ (i + 1) n
      { rest with log := .phdr ⟨phdrs, header.phSize⟩ i :: rest.log } := by
  simp only [loadSegments, h.phdrAt_eq hi, if_neg htype]

theorem round_refused (htype : (file.phdr header i).type = ptLoad)
    (hg : ¬ (file.phdr header i).Granted s.used.toNat) :
    (loadSegments s file fd info ⟨phdrs, header.phSize⟩ i (n + 1)).ok = false ∧
      (loadSegments s file fd info ⟨phdrs, header.phSize⟩ i (n + 1)).log
        = [.phdr ⟨phdrs, header.phSize⟩ i] := by
  have hsegment := loadSegment_refused h.used_le file info (file.phdr header i) fd hg
  simp only [loadSegments, h.phdrAt_eq hi, if_pos htype, hsegment, Bool.false_eq_true, if_false]
  exact ⟨trivial, trivial⟩

theorem round_short (htype : (file.phdr header i).type = ptLoad)
    (hg : (file.phdr header i).Granted s.used.toNat) (hc : ¬ (file.phdr header i).Complete file) :
    (loadSegments s file fd info ⟨phdrs, header.phSize⟩ i (n + 1)).ok = false ∧
      (loadSegments s file fd info ⟨phdrs, header.phSize⟩ i (n + 1)).log
        = [.phdr ⟨phdrs, header.phSize⟩ i, .alloc ((file.phdr header i).block s.used.toNat),
            .segment ((file.phdr header i).block s.used.toNat)
              ((file.phdr header i).dest s.used.toNat)
              (file.toRead (file.phdr header i).offset (file.phdr header i).filesz).toNat] := by
  obtain ⟨hok, hlog⟩ := loadSegment_short h.used_le file info (file.phdr header i) h.isOpen hg hc
  simp only [loadSegments, h.phdrAt_eq hi, if_pos htype, hok, Bool.false_eq_true, if_false, hlog]
  exact ⟨trivial, trivial⟩

theorem round_complete (htype : (file.phdr header i).type = ptLoad)
    (hg : (file.phdr header i).Granted s.used.toNat) (hc : (file.phdr header i).Complete file) :
    ∃ fds, IsOpen fds fd ∧
      loadSegments s file fd info ⟨phdrs, header.phSize⟩ i (n + 1) =
        let rest := loadSegments (s.loaded file (file.phdr header i) fds) file fd
          (info.cover (file.phdr header i).vaddr (file.phdr header i).memsz)
          ⟨phdrs, header.phSize⟩ (i + 1) n
        { rest with
          log := .phdr ⟨phdrs, header.phSize⟩ i :: .alloc ((file.phdr header i).block s.used.toNat)
            :: (file.phdr header i).writes s.used.toNat ++ rest.log } := by
  obtain ⟨fds, hopen, hsegment⟩ :=
    loadSegment_complete h.used_le file info (file.phdr header i) h.isOpen hg hc
  refine ⟨fds, hopen, ?_⟩
  simp only [loadSegments, h.phdrAt_eq hi, if_pos htype, hsegment, if_true, LoaderState.loaded]

/-- **One round** with a segment that fits: it is put above the table, and the loop goes on. -/
theorem round_fits (htype : (file.phdr header i).type = ptLoad)
    (hg : (file.phdr header i).Granted s.used.toNat) (hc : (file.phdr header i).Complete file)
    (hfits : (file.phdr header i).Fits s.used.toNat) :
    ∃ fds, LoopInv (s.loaded file (file.phdr header i) fds) file fd header phdrs ∧
      (s.loaded file (file.phdr header i) fds).used.toNat
        = (file.phdr header i).top s.used.toNat ∧
      loadSegments s file fd info ⟨phdrs, header.phSize⟩ i (n + 1) =
        let rest := loadSegments (s.loaded file (file.phdr header i) fds) file fd
          (info.cover (file.phdr header i).vaddr (file.phdr header i).memsz)
          ⟨phdrs, header.phSize⟩ (i + 1) n
        { rest with
          log := .phdr ⟨phdrs, header.phSize⟩ i :: .alloc ((file.phdr header i).block s.used.toNat)
            :: (file.phdr header i).writes s.used.toNat ++ rest.log } := by
  obtain ⟨fds, hopen, hround⟩ := h.round_complete hi info n htype hg hc
  obtain ⟨hinv, htop⟩ := h.place hg hfits hopen
  exact ⟨fds, hinv, htop, hround⟩

/-- A load that succeeds has loaded the segment. -/
theorem loaded_of_ok (htype : (file.phdr header i).type = ptLoad)
    (hok : (loadSegments s file fd info ⟨phdrs, header.phSize⟩ i (n + 1)).ok = true) :
    (file.phdr header i).Granted s.used.toNat ∧ (file.phdr header i).Complete file := by
  rw [← loadSegment_ok_iff h.used_le file info _ h.isOpen]
  by_contra hnot
  have hfail := Bool.eq_false_iff.mpr hnot
  simp only [loadSegments, h.phdrAt_eq hi, if_pos htype, hfail, Bool.false_eq_true, if_false]
    at hok

end

end LoopInv

/-- The segments from entry `i` on fit, with `used` bytes handed out before them: each entry lies
in the table; a segment that gets a block fits there, or what the file has of it does. -/
def SegmentsFit (file : File) (header : ElfHeader) (i used : Nat) : Nat → Prop
  | 0 => True
  | n + 1 =>
    sizeofPhdr * (i + 1) ≤ header.phSize.toNat ∧
      if (file.phdr header i).type = ptLoad then
        (file.phdr header i).Granted used →
          if (file.phdr header i).Complete file then
            (file.phdr header i).Fits used ∧
              SegmentsFit file header (i + 1) ((file.phdr header i).top used) n
          else (file.phdr header i).ShortFits file used
      else SegmentsFit file header (i + 1) used n

instance SegmentsFit.decidable (file : File) (header : ElfHeader) :
    ∀ n i used : Nat, Decidable (SegmentsFit file header i used n)
  | 0, _, _ => inferInstanceAs (Decidable True)
  | n + 1, i, used =>
    have := SegmentsFit.decidable file header n (i + 1) ((file.phdr header i).top used)
    have := SegmentsFit.decidable file header n (i + 1) used
    inferInstanceAs (Decidable (sizeofPhdr * (i + 1) ≤ header.phSize.toNat ∧
      if (file.phdr header i).type = ptLoad then
        (file.phdr header i).Granted used →
          if (file.phdr header i).Complete file then
            (file.phdr header i).Fits used ∧
              SegmentsFit file header (i + 1) ((file.phdr header i).top used) n
          else (file.phdr header i).ShortFits file used
      else SegmentsFit file header (i + 1) used n))

theorem SegmentsFit.segment {file : File} {header : ElfHeader} {i used n : Nat}
    (h : SegmentsFit file header i used (n + 1)) (htype : (file.phdr header i).type = ptLoad)
    (hg : (file.phdr header i).Granted used) (hc : (file.phdr header i).Complete file) :
    (file.phdr header i).Fits used ∧
      SegmentsFit file header (i + 1) ((file.phdr header i).top used) n := by
  obtain ⟨-, hrest⟩ := h
  rw [if_pos htype] at hrest
  have hsegment := hrest hg
  rw [if_pos hc] at hsegment
  exact hsegment

/-- A load that succeeds has loaded the segment, and it fits. -/
theorem SegmentsFit.segment_of_ok {s : LoaderState} {file : File} {fd : Int} {header : ElfHeader}
    {phdrs : Word} {i n : Nat} {info : ProgramInfo}
    (hfit : SegmentsFit file header i s.used.toNat (n + 1)) (h : LoopInv s file fd header phdrs)
    (htype : (file.phdr header i).type = ptLoad)
    (hok : (loadSegments s file fd info ⟨phdrs, header.phSize⟩ i (n + 1)).ok = true) :
    (file.phdr header i).Granted s.used.toNat ∧ (file.phdr header i).Complete file ∧
      (file.phdr header i).Fits s.used.toNat ∧
      SegmentsFit file header (i + 1) ((file.phdr header i).top s.used.toNat) n := by
  obtain ⟨hg, hc⟩ := h.loaded_of_ok hfit.1 info n htype hok
  exact ⟨hg, hc, hfit.segment htype hg hc⟩

theorem SegmentsFit.skip {file : File} {header : ElfHeader} {i used n : Nat}
    (h : SegmentsFit file header i used (n + 1)) (htype : (file.phdr header i).type ≠ ptLoad) :
    SegmentsFit file header (i + 1) used n := by
  obtain ⟨-, hrest⟩ := h
  rw [if_neg htype] at hrest
  exact hrest

section

variable {s : LoaderState} {file : File} {fd : Int} {header : ElfHeader} {phdrs : Word}

theorem loadSegments_inBounds (n : Nat) {i : Nat} (info : ProgramInfo)
    (h : LoopInv s file fd header phdrs) (hfit : SegmentsFit file header i s.used.toNat n) :
    ∀ x ∈ (loadSegments s file fd info ⟨phdrs, header.phSize⟩ i n).log, x.InBounds := by
  induction n generalizing s i info with
  | zero => exact List.forall_mem_nil _
  | succ n ih =>
    obtain ⟨hentry, hrest⟩ := hfit
    have hphdr : (Access.phdr ⟨phdrs, header.phSize⟩ i).InBounds := hentry
    by_cases htype : (file.phdr header i).type = ptLoad
    · rw [if_pos htype] at hrest
      by_cases hg : (file.phdr header i).Granted s.used.toNat
      · have hsegment := hrest hg
        by_cases hc : (file.phdr header i).Complete file
        · rw [if_pos hc] at hsegment
          obtain ⟨hfits, hnext⟩ := hsegment
          obtain ⟨fds, hinv, htop, hround⟩ := h.round_fits hentry info n htype hg hc hfits
          rw [← htop] at hnext
          have hwrites := ((file.phdr header i).writes_inBounds_iff h.used_le hg).mpr (Or.inr hfits)
          rw [hround]
          simp only [List.cons_append, List.forall_mem_cons, List.forall_mem_append]
          exact ⟨hphdr, trivial, hwrites, ih _ hinv hnext⟩
        · rw [if_neg hc] at hsegment
          rw [(h.round_short hentry info n htype hg hc).2]
          simp only [List.forall_mem_cons]
          exact ⟨hphdr, trivial, (Phdr.shortFits_iff h.used_le file).mpr hsegment,
            List.forall_mem_nil _⟩
      · rw [(h.round_refused hentry info n htype hg).2]
        exact List.forall_mem_singleton.mpr hphdr
    · rw [if_neg htype] at hrest
      rw [h.round_skip hentry info n htype]
      exact List.forall_mem_cons.mpr ⟨hphdr, ih info h hrest⟩

/-- An empty segment whose block wraps: nothing is written for it, and the blocks after it start
again from the bottom. -/
def Phdr.Rewinds (p : Phdr) : Prop :=
  p.type = ptLoad ∧ p.filesz = 0 ∧ p.memsz = 0 ∧ 2 ^ 32 ≤ maxProgramSize + p.vaddr.toNat

/-- Whatever the body of the loop does, the entry has been read. -/
theorem phdr_mem_loadSegments (s : LoaderState) (file : File) (fd : Int) (info : ProgramInfo)
    (table : Region) (i n : Nat) :
    .phdr table i ∈ (loadSegments s file fd info table i (n + 1)).log := by
  unfold loadSegments
  dsimp only
  split
  · split
    · exact List.mem_cons_self
    · exact List.mem_cons_self
  · exact List.mem_cons_self

/-- A segment that does not fit, with its writes in bounds: nothing is written, so only the end of
the block can have wrapped. -/
theorem Phdr.rewinds_of_writes {p : Phdr} {used : Nat} (hused : used ≤ maxProgramSize)
    (htype : p.type = ptLoad) (hg : p.Granted used) (hfits : ¬ p.Fits used)
    (hwrites : ∀ x ∈ p.writes used, x.InBounds) : p.Rewinds := by
  obtain ⟨hf, hm⟩ := ((p.writes_inBounds_iff hused hg).mp hwrites).resolve_right hfits
  have hstart := segmentStart_le hused
  unfold Phdr.Fits Phdr.top at hfits
  exact ⟨htype, BitVec.eq_of_toNat_eq hf, BitVec.eq_of_toNat_eq hm, by omega⟩

theorem segmentsFit_of_inBounds (n : Nat) {i : Nat} (info : ProgramInfo)
    (h : LoopInv s file fd header phdrs)
    (hlog : ∀ x ∈ (loadSegments s file fd info ⟨phdrs, header.phSize⟩ i n).log, x.InBounds) :
    SegmentsFit file header i s.used.toNat n ∨
      ∃ j, i ≤ j ∧ j < i + n ∧ (file.phdr header j).Rewinds := by
  induction n generalizing s i info with
  | zero => exact Or.inl trivial
  | succ n ih =>
    have hentry : sizeofPhdr * (i + 1) ≤ header.phSize.toNat :=
      hlog _ (phdr_mem_loadSegments s file fd info ⟨phdrs, header.phSize⟩ i n)
    have hlater : (∃ j, i + 1 ≤ j ∧ j < i + 1 + n ∧ (file.phdr header j).Rewinds) →
        ∃ j, i ≤ j ∧ j < i + (n + 1) ∧ (file.phdr header j).Rewinds :=
      fun ⟨j, hij, hjn, hj⟩ => ⟨j, by omega, by omega, hj⟩
    by_cases htype : (file.phdr header i).type = ptLoad
    · by_cases hg : (file.phdr header i).Granted s.used.toNat
      · by_cases hc : (file.phdr header i).Complete file
        · obtain ⟨fds, hopen, hround⟩ := h.round_complete hentry info n htype hg hc
          rw [hround] at hlog
          simp only [List.cons_append, List.forall_mem_cons, List.forall_mem_append] at hlog
          obtain ⟨-, -, hwrites, hrest⟩ := hlog
          by_cases hfits : (file.phdr header i).Fits s.used.toNat
          · obtain ⟨hinv, htop⟩ := h.place hg hfits hopen
            rcases ih _ hinv hrest with hnext | hrewinds
            · left
              refine ⟨hentry, ?_⟩
              rw [if_pos htype, if_pos hc]
              exact fun _ => ⟨hfits, htop ▸ hnext⟩
            · exact Or.inr (hlater hrewinds)
          · have hrewinds := Phdr.rewinds_of_writes h.used_le htype hg hfits hwrites
            exact Or.inr ⟨i, Nat.le_refl i, by omega, hrewinds⟩
        · rw [(h.round_short hentry info n htype hg hc).2] at hlog
          simp only [List.forall_mem_cons] at hlog
          left
          refine ⟨hentry, ?_⟩
          rw [if_pos htype, if_neg hc]
          exact fun _ => (Phdr.shortFits_iff h.used_le file).mp hlog.2.2.1
      · left
        refine ⟨hentry, ?_⟩
        rw [if_pos htype]
        exact fun hg' => absurd hg' hg
    · rw [h.round_skip hentry info n htype] at hlog
      rcases ih info h (List.forall_mem_cons.mp hlog).2 with hnext | hrewinds
      · left
        refine ⟨hentry, ?_⟩
        rw [if_neg htype]
        exact hnext
      · exact Or.inr (hlater hrewinds)

end

/-! ## The whole load -/

/-- The start of a block for the header table or the stack. -/
def wordStart (used : Nat) : Nat := roundUp used 4

theorem wordStart_le {used : Nat} (h : used ≤ maxProgramSize) :
    wordStart used ≤ maxProgramSize := roundUp_le_maxProgramSize (k := 2) h (by decide)

theorem toNat_wordStart {used : Nat} (h : used ≤ maxProgramSize) :
    (BitVec.ofNat 32 (wordStart used)).toNat = wordStart used := by
  have hle := wordStart_le h
  unfold maxProgramSize at hle
  exact Nat.mod_eq_of_lt (by omega)

/-- There is a block for the header table, as `program_alloc_memory` adds things up. -/
def TableGranted (header : ElfHeader) (used : Nat) : Prop :=
  (wordStart used + header.phSize.toNat) % 2 ^ 32 ≤ maxProgramSize

instance (header : ElfHeader) (used : Nat) : Decidable (TableGranted header used) :=
  inferInstanceAs (Decidable (_ ≤ _))

/-- The header table fits and is read. -/
def TableRead (file : File) (header : ElfHeader) (used : Nat) : Prop :=
  wordStart used + header.phSize.toNat ≤ maxProgramSize ∧
    file.toRead header.phoff header.phSize = header.phSize

instance (file : File) (header : ElfHeader) (used : Nat) : Decidable (TableRead file header used) :=
  inferInstanceAs (Decidable (_ ∧ _))

theorem TableRead.granted {file : File} {header : ElfHeader} {used : Nat}
    (h : TableRead file header used) : TableGranted header used := by
  have hfit := h.1
  unfold TableGranted
  rw [Nat.mod_eq_of_lt]
  · exact hfit
  · unfold maxProgramSize at hfit
    omega

/-- The block of the header table. -/
def tableBlock (header : ElfHeader) (used : Nat) : Region :=
  ⟨BitVec.ofNat 32 (wordStart used), header.phSize⟩

/-- The header of a file that `program_load` takes for an executable. -/
def File.elf (file : File) : Option ElfHeader :=
  if sizeofHeader.toNat ≤ file.size.toNat ∧ programValidateElf (ElfHeader.ofBytes file.bytes) = 0
  then some (ElfHeader.ofBytes file.bytes) else none

/-- `prog_info` before the loop. -/
def ElfHeader.info (header : ElfHeader) : ProgramInfo where
  entryPoint := header.entry
  baseAddress := 0xFFFFFFFF
  size := 0
  stackSize := 8192
  isLoaded := 0

/-- The state with the header table read. -/
def LoaderState.withTable (s : LoaderState) (file : File) (header : ElfHeader)
    (fds : Descriptors) : LoaderState :=
  { s with
    used := BitVec.ofNat 32 (wordStart s.used.toNat) + header.phSize
    fds := fds
    mem := memcpyTo s.mem (BitVec.ofNat 32 (wordStart s.used.toNat))
      (fun k => file.bytes (header.phoff.toNat + k)) header.phSize.toNat }

/-- `program_alloc_memory` with the alignment of the header table and of the stack. -/
theorem programAllocMemory_words {s : LoaderState} (h : s.used.toNat ≤ maxProgramSize)
    (size : Word) :
    programAllocMemory s size 4
      = if maxProgramSize < (wordStart s.used.toNat + size.toNat) % 2 ^ 32 then (s, none)
        else ({ s with used := BitVec.ofNat 32 (wordStart s.used.toNat) + size },
          some (BitVec.ofNat 32 (wordStart s.used.toNat))) :=
  programAllocMemory_eq h (k := 2) (by decide) size

/-- The test of `bytes_read`: a table so large that its block wraps is read as a negative number of
bytes. -/
theorem tableRead_iff {file : File} {header : ElfHeader} {used : Nat}
    (hused : used ≤ maxProgramSize) (hg : TableGranted header used) :
    ¬ ((file.toRead header.phoff header.phSize).toInt < 0 ∨
        BitVec.ofInt 32 (file.toRead header.phoff header.phSize).toInt ≠ header.phSize) ↔
      TableRead file header used := by
  have hle := wordStart_le hused
  have hsize := header.phSize.isLt
  unfold TableRead
  rw [BitVec.ofInt_toInt, not_or, not_not]
  refine and_congr_left fun hread => ?_
  rw [hread, BitVec.toInt_eq_toNat_cond]
  unfold TableGranted maxProgramSize at *
  split
  · omega
  · omega

/-- A load that reads its header table. -/
theorem loadTable_of_read {s : LoaderState} {fd : Int} (hused : s.used.toNat ≤ maxProgramSize)
    (hopen : IsOpen s.fds fd) {file : File} {header : ElfHeader}
    (hread : TableRead file header s.used.toNat) (info : ProgramInfo) : ∃ fds,
      LoopInv (s.withTable file header fds) file fd header
        (BitVec.ofNat 32 (wordStart s.used.toNat)) ∧
      loadTable s file fd header info =
        finishLoad fd (tableBlock header s.used.toNat)
          [.alloc (tableBlock header s.used.toNat),
            .table (BitVec.ofNat 32 (wordStart s.used.toNat)) header.phSize.toNat]
          (loadSegments (s.withTable file header fds) file fd header.info
            (tableBlock header s.used.toNat) 0 header.phnum.toNat) := by
  have hg := hread.granted
  obtain ⟨hfit, hall⟩ := hread
  have halloc := programAllocMemory_words hused header.phSize
  rw [if_neg (Nat.not_lt.mpr hg)] at halloc
  obtain ⟨fds, hfds, hseek⟩ := seekRead_eq
    (s := { s with used := BitVec.ofNat 32 (wordStart s.used.toNat) + header.phSize }) hopen file
    header.phoff (BitVec.ofNat 32 (wordStart s.used.toNat)) header.phSize
  have htest := (tableRead_iff hused hg).mpr ⟨hfit, hall⟩
  rw [hall] at hseek htest
  have hused' := toNat_ofNat_add hfit
  refine ⟨fds, ⟨hused' ▸ hfit, hfds, ?_, fun j hj => ?_⟩, ?_⟩
  · rw [toNat_wordStart hused]
    exact Nat.le_of_eq hused'.symm
  · have hlt := header.phSize.isLt
    show memcpyTo _ _ _ _ _ = _
    rw [memcpyTo_apply _ (Nat.le_of_lt hlt), toNat_add_ofNat_sub _ (by omega), if_pos hj]
  · unfold loadTable
    rw [halloc]
    simp only [hseek, if_neg htest]
    rfl

/-- A load that stops before the loop has at most been given the block for the table, and gives it
back without the padding below it. -/
theorem loadTable_of_not_read {s : LoaderState} {fd : Int}
    (hused : s.used.toNat ≤ maxProgramSize) (hopen : IsOpen s.fds fd) {file : File}
    {header : ElfHeader} (hread : ¬ TableRead file header s.used.toNat) (info : ProgramInfo) :
    (loadTable s file fd header info).ok = false ∧
      (loadTable s file fd header info).log =
        (if TableGranted header s.used.toNat then
          [.alloc (tableBlock header s.used.toNat),
            .table (BitVec.ofNat 32 (wordStart s.used.toNat))
              (file.toRead header.phoff header.phSize).toNat]
        else []) ∧
      (loadTable s file fd header info).state.used.toNat
        = if TableGranted header s.used.toNat then wordStart s.used.toNat else s.used.toNat := by
  have halloc := programAllocMemory_words hused header.phSize
  by_cases hg : TableGranted header s.used.toNat
  · rw [if_neg (Nat.not_lt.mpr hg)] at halloc
    rw [if_pos hg, if_pos hg]
    obtain ⟨fds, -, hseek⟩ := seekRead_eq
      (s := { s with used := BitVec.ofNat 32 (wordStart s.used.toNat) + header.phSize }) hopen
      file header.phoff (BitVec.ofNat 32 (wordStart s.used.toNat)) header.phSize
    have htest := not_not.mp (mt (tableRead_iff hused hg).mp hread)
    unfold loadTable
    rw [halloc]
    simp only [hseek, if_pos htest, LoaderState.close, programFreeMemory, if_true,
      BitVec.add_sub_cancel]
    exact ⟨trivial, rfl, toNat_wordStart hused⟩
  · rw [if_pos (Nat.not_le.mp hg)] at halloc
    rw [if_neg hg, if_neg hg]
    unfold loadTable
    rw [halloc]
    exact ⟨rfl, rfl, rfl⟩

/-- `program_load` of a file that can be opened: only an executable gets further. -/
theorem programLoad_opened {s : LoaderState} (hopen : 0 ≤ (fsOpen s.fds).2) (file : File)
    (info : ProgramInfo) : ∃ fds, IsOpen fds (fsOpen s.fds).2 ∧
      programLoad s (some file) info =
        match file.elf with
        | none => ⟨{ s with fds := fds }.close (fsOpen s.fds).2, info, [], false⟩
        | some header => loadTable { s with fds := fds } file (fsOpen s.fds).2 header info := by
  have hfd := isOpen_fsOpen hopen
  have hread := hfd.read_seek file 0 sizeofHeader
  have hzero : ∀ k, file.bytes ((0 : Word).toNat + k) = file.bytes k := fun k => by
    rw [show (0 : Word).toNat = 0 from rfl, Nat.zero_add]
  have hsize : file.toRead 0 sizeofHeader = sizeofHeader ↔
      sizeofHeader.toNat ≤ file.size.toNat := by
    unfold File.toRead sizeofHeader
    constructor
    · intro h
      by_contra hlt
      split at h
      · exact absurd h (by decide)
      · split at h
        · bv_omega
        · bv_omega
    · intro h
      rw [if_neg (by bv_omega), if_neg (by bv_omega)]
  refine ⟨_, (hfd.seek 0).1.read file sizeofHeader, ?_⟩
  simp only [programLoad, if_neg (Int.not_lt.mpr hopen), loadOpened, hread, BitVec.ofInt_toInt,
    hzero]
  unfold File.elf
  by_cases hlen : sizeofHeader.toNat ≤ file.size.toNat
  · rw [if_neg (not_not.mpr (hsize.mpr hlen))]
    by_cases hvalid : programValidateElf (ElfHeader.ofBytes file.bytes) = 0
    · rw [if_neg (not_not.mpr hvalid), if_pos ⟨hlen, hvalid⟩]
    · rw [if_pos hvalid, if_neg fun h => hvalid h.2]
  · rw [if_pos (mt hsize.mp hlen), if_neg fun h => hlen h.1]

/-- Without a free descriptor nothing happens. -/
theorem programLoad_not_opened {s : LoaderState} (hopen : ¬ 0 ≤ (fsOpen s.fds).2) (file : File)
    (info : ProgramInfo) :
    programLoad s (some file) info = ⟨{ s with fds := (fsOpen s.fds).1 }, info, [], false⟩ := by
  simp only [programLoad, if_pos (Int.not_le.mp hopen)]

/-- The segments of the file fit, if the load gets as far as to them. -/
def LoadFits (s : LoaderState) (file : File) : Prop :=
  0 ≤ (fsOpen s.fds).2 → ∀ header ∈ file.elf, TableRead file header s.used.toNat →
    SegmentsFit file header 0 (wordStart s.used.toNat + header.phSize.toNat) header.phnum.toNat

theorem withTable_used {s : LoaderState} {file : File} {header : ElfHeader}
    (hread : TableRead file header s.used.toNat) (fds : Descriptors) :
    (s.withTable file header fds).used.toNat
      = wordStart s.used.toNat + header.phSize.toNat :=
  toNat_ofNat_add hread.1

/-- **What `program_load` can do.** It stops before it has allocated anything, or with the header
table, or it runs the loop over the header table. -/
theorem programLoad_ways {s : LoaderState} (hused : s.used.toNat ≤ maxProgramSize) (file : File)
    (info : ProgramInfo) :
    ((0 ≤ (fsOpen s.fds).2 → file.elf = none) ∧
        ∃ fds, programLoad s (some file) info = ⟨{ s with fds := fds }, info, [], false⟩) ∨
      (∃ header fds, 0 ≤ (fsOpen s.fds).2 ∧ file.elf = some header ∧
        ¬ TableRead file header s.used.toNat ∧ IsOpen fds (fsOpen s.fds).2 ∧
        programLoad s (some file) info
          = loadTable { s with fds := fds } file (fsOpen s.fds).2 header info) ∨
      ∃ header fds, 0 ≤ (fsOpen s.fds).2 ∧ file.elf = some header ∧
        TableRead file header s.used.toNat ∧
        LoopInv (s.withTable file header fds) file (fsOpen s.fds).2 header
          (BitVec.ofNat 32 (wordStart s.used.toNat)) ∧
        programLoad s (some file) info =
          finishLoad (fsOpen s.fds).2 (tableBlock header s.used.toNat)
            [.alloc (tableBlock header s.used.toNat),
              .table (BitVec.ofNat 32 (wordStart s.used.toNat)) header.phSize.toNat]
            (loadSegments (s.withTable file header fds) file (fsOpen s.fds).2 header.info
              (tableBlock header s.used.toNat) 0 header.phnum.toNat) := by
  by_cases hopen : 0 ≤ (fsOpen s.fds).2
  · obtain ⟨fds, hfds, hload⟩ := programLoad_opened hopen file info
    cases helf : file.elf with
    | none =>
      simp only [helf] at hload
      exact Or.inl ⟨fun _ => rfl, _, hload⟩
    | some header =>
      simp only [helf] at hload
      right
      by_cases hread : TableRead file header s.used.toNat
      · obtain ⟨fds', hinv, htable⟩ :=
          loadTable_of_read (s := { s with fds := fds }) hused hfds hread info
        exact Or.inr ⟨header, fds', hopen, rfl, hread, hinv, hload.trans htable⟩
      · exact Or.inl ⟨header, fds, hopen, rfl, hread, hfds, hload⟩
  · exact Or.inl ⟨fun h => absurd h hopen, _, programLoad_not_opened hopen file info⟩

/-- The accesses of a load, for each of the ways it can go. -/
theorem programLoad_cases {s : LoaderState} (hused : s.used.toNat ≤ maxProgramSize) (file : File)
    (info : ProgramInfo) :
    ((0 ≤ (fsOpen s.fds).2 → file.elf = none) ∧ (programLoad s (some file) info).ok = false ∧
        (programLoad s (some file) info).log = []) ∨
      (∃ header, 0 ≤ (fsOpen s.fds).2 ∧ file.elf = some header ∧
        ¬ TableRead file header s.used.toNat ∧ (programLoad s (some file) info).ok = false ∧
        (programLoad s (some file) info).log =
          if TableGranted header s.used.toNat then
            [.alloc (tableBlock header s.used.toNat),
              .table (BitVec.ofNat 32 (wordStart s.used.toNat))
                (file.toRead header.phoff header.phSize).toNat]
          else []) ∨
      ∃ header fds, 0 ≤ (fsOpen s.fds).2 ∧ file.elf = some header ∧
        TableRead file header s.used.toNat ∧
        LoopInv (s.withTable file header fds) file (fsOpen s.fds).2 header
          (BitVec.ofNat 32 (wordStart s.used.toNat)) ∧
        programLoad s (some file) info =
          finishLoad (fsOpen s.fds).2 (tableBlock header s.used.toNat)
            [.alloc (tableBlock header s.used.toNat),
              .table (BitVec.ofNat 32 (wordStart s.used.toNat)) header.phSize.toNat]
            (loadSegments (s.withTable file header fds) file (fsOpen s.fds).2 header.info
              (tableBlock header s.used.toNat) 0 header.phnum.toNat) := by
  rcases programLoad_ways hused file info with
    ⟨hnone, fds, hload⟩ | ⟨header, fds, hopen, helf, hread, hfds, hload⟩ | hloop
  · rw [hload]
    exact Or.inl ⟨hnone, rfl, rfl⟩
  · obtain ⟨hfail, hlog, -⟩ :=
      loadTable_of_not_read (s := { s with fds := fds }) hused hfds hread info
    rw [hload]
    exact Or.inr (Or.inl ⟨header, hopen, helf, hread, hfail, hlog⟩)
  · exact Or.inr (Or.inr hloop)

/-- A load that succeeds has gone through the loop. -/
theorem programLoad_of_ok {s : LoaderState} (hused : s.used.toNat ≤ maxProgramSize) {file : File}
    {header : ElfHeader} (helf : file.elf = some header) {info : ProgramInfo}
    (hok : (programLoad s (some file) info).ok = true) :
    0 ≤ (fsOpen s.fds).2 ∧ TableRead file header s.used.toNat ∧
      ∃ fds, LoopInv (s.withTable file header fds) file (fsOpen s.fds).2 header
          (BitVec.ofNat 32 (wordStart s.used.toNat)) ∧
        programLoad s (some file) info =
          finishLoad (fsOpen s.fds).2 (tableBlock header s.used.toNat)
            [.alloc (tableBlock header s.used.toNat),
              .table (BitVec.ofNat 32 (wordStart s.used.toNat)) header.phSize.toNat]
            (loadSegments (s.withTable file header fds) file (fsOpen s.fds).2 header.info
              (tableBlock header s.used.toNat) 0 header.phnum.toNat) := by
  rcases programLoad_cases hused file info with
    ⟨-, hfail, -⟩ | ⟨_, -, -, -, hfail, -⟩ | ⟨header', fds, hopen, helf', hread, hinv, hload⟩
  · rw [hfail] at hok
    exact Bool.noConfusion hok
  · rw [hfail] at hok
    exact Bool.noConfusion hok
  · obtain rfl := Option.some.inj (helf.symm.trans helf')
    exact ⟨hopen, hread, fds, hinv, hload⟩

/--
**Which files are loaded in bounds.**

Of an executable whose header table fits and is there, every entry that the loop gets to lies inside
the table, and every segment that gets a block is no longer in the file than in memory and ends
below `2 ^ 32`; of a segment that the file ends in, what there is of it lies in its block. Such a
file is loaded in bounds, and no other, but for files with an empty segment that rewinds the
allocation.
-/
theorem program_load_in_bounds (s : LoaderState) (hused : s.used.toNat ≤ maxProgramSize)
    (file : File) (info : ProgramInfo) :
    (LoadFits s file → ∀ x ∈ (programLoad s (some file) info).log, x.InBounds) ∧
      ((∀ x ∈ (programLoad s (some file) info).log, x.InBounds) → LoadFits s file ∨
        ∃ header ∈ file.elf, ∃ i < header.phnum.toNat, (file.phdr header i).Rewinds) := by
  rcases programLoad_cases hused file info with
    ⟨hnone, -, hlog⟩ | ⟨header, hopen, helf, hread, -, hlog⟩ |
      ⟨header, fds, hopen, helf, hread, hinv, hload⟩
  · rw [hlog]
    refine ⟨fun _ => List.forall_mem_nil _, fun _ => Or.inl fun hopen header helf => ?_⟩
    rw [hnone hopen] at helf
    cases helf
  · rw [hlog]
    refine ⟨fun _ => ?_, fun _ => Or.inl fun _ header' helf' hread' => ?_⟩
    · split
      · simp only [List.forall_mem_cons]
        exact ⟨trivial, trivial, List.forall_mem_nil _⟩
      · exact List.forall_mem_nil _
    · obtain rfl := Option.some.inj (helf.symm.trans helf')
      exact absurd hread' hread
  · have hused' := withTable_used hread fds
    rw [hload]
    simp only [finishLoad, List.cons_append, List.nil_append, List.forall_mem_cons]
    constructor
    · intro hfits
      have hsegments := hfits hopen header helf hread
      rw [← hused'] at hsegments
      exact ⟨trivial, trivial, loadSegments_inBounds _ header.info hinv hsegments⟩
    · rintro ⟨-, -, hlog⟩
      rcases segmentsFit_of_inBounds _ header.info hinv hlog with hsegments | hrewinds
      · left
        intro _ header' helf' _
        obtain rfl := Option.some.inj (helf.symm.trans helf')
        rw [← hused']
        exact hsegments
      · obtain ⟨i, -, hi, hp⟩ := hrewinds
        exact Or.inr ⟨header, helf, i, by omega, hp⟩

/-- The static data after `process_init` and `program_loader_init`. -/
def LoaderState.boot (base processesBase : Word) : LoaderState where
  base := base
  mem := fun _ => 0
  used := 0
  fds := Vector.replicate 16 default
  processes := processInit (.boot processesBase)

/-- An executable of 85 bytes: the header, one entry of the header table and one byte of data, for
a segment at `0x1000` with the entry point there. -/
def tinyElf (filesz memsz : Byte) : File where
  bytes k := [0x7F, 0x45, 0x4C, 0x46, 1, 1, 1, 0, 0, 0, 0, 0, 0, 0, 0, 0, 2, 0, 3, 0, 1, 0, 0, 0,
    0, 0x10, 0, 0, 52, 0, 0, 0, 0, 0, 0, 0, 0, 0, 0, 0, 52, 0, 32, 0, 1, 0, 0, 0, 0, 0, 0, 0,
    1, 0, 0, 0, 84, 0, 0, 0, 0, 0x10, 0, 0, 0, 0, 0, 0, filesz, 0, 0, 0, memsz, 0, 0, 0,
    5, 0, 0, 0, 0, 0x10, 0, 0, 0x90].getD k 0
  size := 85

theorem program_load_in_bounds_tiny :
    (LoaderState.boot 0x20000 0x10000).used.toNat ≤ maxProgramSize ∧
      (programLoad (.boot 0x20000 0x10000) (some (tinyElf 1 1)) default).ok = true ∧
      ∀ x ∈ (programLoad (.boot 0x20000 0x10000) (some (tinyElf 1 1)) default).log,
        x.InBounds := by
  have hfits : LoadFits (.boot 0x20000 0x10000) (tinyElf 1 1) := by
    intro _ header hheader _
    obtain rfl := Option.some.inj
      ((show (tinyElf 1 1).elf = some (ElfHeader.ofBytes (tinyElf 1 1).bytes) by decide).symm.trans
        hheader)
    decide
  exact ⟨by decide, by decide,
    (program_load_in_bounds (.boot 0x20000 0x10000) (by decide) (tinyElf 1 1) default).1 hfits⟩

/-- A segment of one byte in the file and none in memory gets an empty block and is read all the
same. -/
theorem program_load_out_of_bounds :
    ¬ ∀ x ∈ (programLoad (.boot 0x20000 0x10000) (some (tinyElf 1 0)) default).log,
      x.InBounds := by
  intro h
  have hmem : Access.segment ⟨0x1000, 0x1000⟩ 0x2000 1
      ∈ (programLoad (.boot 0x20000 0x10000) (some (tinyElf 1 0)) default).log := by decide
  exact absurd (h _ hmem 0 (by decide)).2.1 (by decide)

end MinimalistOS
