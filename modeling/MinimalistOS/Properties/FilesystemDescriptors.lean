import MinimalistOS.Properties.FilesystemRuns

/-!
# What a descriptor denotes

* `Session.Stable` — descriptors denote their files, and nothing after that
* `Session.Stable.next`, `Session.not_stable_next` — one call
* `fs_descriptors_stable_iff` — every run

A descriptor is a position in the table. `fs_delete` moves the entries behind the deleted one down,
and `fs_create` uses the positions at the end again.
-/

namespace MinimalistOS

open Infra

namespace Filesystem

namespace Session

/-- The entry at a descriptor is that of a file, under its name. -/
def Denotes (s : Session) (fd : Int) (file : Nat) : Prop :=
  0 ≤ fd ∧ s.live[fd.toNat]? = some file ∧ s.fs.nameAt fd = (s.names file).truncate 255

/-- The calls on a descriptor return `-1`. -/
def Refuses (s : Session) (fd : Int) : Prop :=
  ∀ (buffer : Nat → Byte) (count : Word), (fsRead s.fs fd count).2.2 = -1 ∧
    (fsWrite s.fs fd buffer count).2.2 = -1 ∧ fsSeek s.fs fd count = -1

/-- Each descriptor denotes the file it was returned for while the file exists, and nothing after
that. -/
def Stable (s : Session) : Prop :=
  ∀ p ∈ s.handed, (p.2 ∈ s.live → s.Denotes p.1 p.2) ∧ (p.2 ∉ s.live → s.Refuses p.1)

/-- No descriptor that was returned gets another meaning: a file is added where none points to, and
removed from the end of the table or from before no descriptor. -/
def KeepsDescriptors (s : Session) (call : FsCall) : Prop :=
  (Adds s.fs call → ∀ p ∈ s.handed, p.1 ≠ s.fs.fileCount.toNat) ∧
    ∀ i, Removes s.fs i call → i + 1 = s.fs.fileCount.toNat ∨
      ∀ p ∈ s.handed, p.1 < i ∨ (s.fs.fileCount.toNat : Int) ≤ p.1

theorem refuses_iff {s : Session} (h : s.Tracks) (fd : Int) :
    s.Refuses fd ↔ (s.fs.fileCount.toNat : Int) ≤ fd := by
  rw [← h.sound.invalid_iff fd]
  constructor
  · intro hrefuses
    by_contra hvalid
    -- a read of no bytes returns `0`
    have hread := (hrefuses (fun _ => 0) 0).1
    simp only [fsRead] at hread
    rw [if_neg hvalid] at hread
    have hnone : ¬ (s.fs.files fd).size < 0 := fun hlt => by
      rw [BitVec.lt_def] at hlt
      exact Nat.not_lt_zero _ hlt
    rw [if_neg hnone] at hread
    cases hread
  · intro hinvalid buffer count
    refine ⟨?_, ?_, ?_⟩
    · simp only [fsRead]
      rw [if_pos hinvalid]
    · rw [fsWrite_of_invalid hinvalid]
    · simp only [fsSeek]
      rw [if_pos hinvalid]

/-- Where the descriptors point to. -/
theorem stable_iff {s : Session} (h : s.Tracks) :
    s.Stable ↔ ∀ p ∈ s.handed, (p.2 ∈ s.live → s.live[p.1.toNat]? = some p.2) ∧
      (p.2 ∉ s.live → (s.fs.fileCount.toNat : Int) ≤ p.1) := by
  refine forall₂_congr fun p hp => and_congr (imp_congr_right fun _ => ?_)
    (imp_congr_right fun _ => refuses_iff h p.1)
  constructor
  · exact fun hdenotes => hdenotes.2.1
  · intro hfile
    have hpos := (h.handed p hp).1
    refine ⟨hpos, hfile, ?_⟩
    have hname := h.names _ _ hfile
    rw [Int.toNat_of_nonneg hpos] at hname
    exact hname

/-! ## One call -/

/-- A file removed at the end of the table, or before no descriptor. -/
theorem Stable.removed {s : Session} (h : s.Tracks) (hs : s.Stable) {i : Nat}
    (hi : i < s.fs.fileCount.toNat)
    (hkeeps : i + 1 = s.fs.fileCount.toNat ∨
      ∀ p ∈ s.handed, p.1 < i ∨ (s.fs.fileCount.toNat : Int) ≤ p.1) : (s.removed i).Stable := by
  have hcount : (s.removed i).fs.fileCount.toNat = s.fs.fileCount.toNat - 1 :=
    toNat_fileCount_sub hi
  rw [stable_iff h] at hs
  rw [stable_iff (h.removed hi), hcount]
  intro p hp
  obtain ⟨hlive, hdead⟩ := hs p hp
  have hpos := (h.handed p hp).1
  -- a descriptor of a file that is there is below `i`, or it is that of the last entry
  have hplace : p.2 ∈ s.live → p.1.toNat < i ∨ p.1.toNat = i ∧ i + 1 = s.fs.fileCount.toNat := by
    intro hmem
    have hlt := live_lt h (hlive hmem)
    rcases hkeeps with hlast | hnone
    · omega
    · rcases hnone p hp with hbelow | hbeyond
      · omega
      · omega
  constructor
  · intro hmem
    change p.2 ∈ s.live.eraseIdx i at hmem
    obtain ⟨j, hji, hj⟩ := List.mem_eraseIdx_iff_getElem?.mp hmem
    have hfile := hlive (List.mem_of_mem_eraseIdx hmem)
    show (s.live.eraseIdx i)[p.1.toNat]? = some p.2
    rw [List.getElem?_eraseIdx]
    rcases hplace (List.mem_of_mem_eraseIdx hmem) with hbelow | ⟨hself, -⟩
    · rw [if_pos hbelow]
      exact hfile
    · rw [hself] at hfile
      have hlt := (List.getElem?_eq_some_iff.mp hj).1
      exact absurd ((List.getElem?_inj hlt h.nodup).mp (hj.trans hfile.symm)) hji
  · intro hnot
    change p.2 ∉ s.live.eraseIdx i at hnot
    by_cases hmem : p.2 ∈ s.live
    · rcases hplace hmem with hbelow | ⟨hself, hlast⟩
      · refine absurd (List.mem_eraseIdx_iff_getElem?.mpr ⟨_, ?_, hlive hmem⟩) hnot
        omega
      · omega
    · have := hdead hmem
      omega

/-- A file added where no descriptor points to. -/
theorem Stable.added {s : Session} (h : s.Tracks) (hs : s.Stable) {k : Nat} {filename : CString}
    (hadd : s.fs.CanAdd k filename) (type : Byte)
    (hkeeps : ∀ p ∈ s.handed, p.1 ≠ s.fs.fileCount.toNat) : (s.added k filename type).Stable := by
  have hcount : (s.added k filename type).fs.fileCount.toNat = s.fs.fileCount.toNat + 1 :=
    toNat_fileCount_add hadd.room
  rw [stable_iff h] at hs
  rw [stable_iff (h.added hadd type), hcount]
  show ∀ p ∈ ((s.fs.fileCount.toNat : Int), s.next) :: s.handed,
    (p.2 ∈ s.live ++ [s.next] → (s.live ++ [s.next])[p.1.toNat]? = some p.2) ∧
      (p.2 ∉ s.live ++ [s.next] → ((s.fs.fileCount.toNat + 1 : Nat) : Int) ≤ p.1)
  intro p hp
  rcases List.mem_cons.mp hp with rfl | hp
  · refine ⟨fun _ => getElem?_addFile h, fun hnot => absurd ?_ hnot⟩
    simp
  · obtain ⟨hlive, hdead⟩ := hs p hp
    have hne : p.2 ≠ s.next := Nat.ne_of_lt (h.handed p hp).2
    constructor
    · intro hmem
      have hold : p.2 ∈ s.live := by simpa [hne] using hmem
      have hfile := hlive hold
      rw [List.getElem?_append_left (List.getElem?_eq_some_iff.mp hfile).1]
      exact hfile
    · intro hnot
      have hbeyond := hdead fun hmem => hnot (List.mem_append_left _ hmem)
      have := hkeeps p hp
      omega

/-- **One call** that keeps the descriptors. -/
theorem Stable.next {s s' : Session} (h : s.Tracks) (hs : s.Stable) {call : FsCall}
    (hkeeps : s.KeepsDescriptors call) (ho : Outcome s call s') : s'.Stable := by
  have hsame : ∀ t : Session, t.Tracks → t.handed = s.handed → t.live = s.live →
      t.fs.fileCount = s.fs.fileCount → t.Stable := by
    intro t ht hhanded hlive hcount
    rw [stable_iff ht, hhanded, hlive, hcount]
    exact (stable_iff h).mp hs
  have hnext := h.next ho
  cases ho with
  | idle hrefused => exact hsame _ hnext rfl rfl hrefused.count
  | found hfile =>
    rw [stable_iff hnext]
    intro p hp
    rcases List.mem_cons.mp hp with rfl | hp
    · exact ⟨fun _ => hfile, fun hnot => absurd (List.mem_of_getElem? hfile) hnot⟩
    · exact (stable_iff h).mp hs p hp
  | added type hadd hcall => exact hs.added h hadd type (hkeeps.1 hcall)
  | removed hi hcall => exact hs.removed h hi (hkeeps.2 _ hcall)
  | @appended i buffer count hi hcall hspace hroom =>
    obtain ⟨contents, heq⟩ := s.appended_eq i buffer count
    rw [heq] at hnext ⊢
    exact hsame _ hnext rfl rfl rfl

/-- A file added where a descriptor points to: the descriptor of a file that was deleted. -/
theorem not_stable_added {s : Session} (h : s.Tracks) (hs : s.Stable) {k : Nat}
    {filename : CString} (hadd : s.fs.CanAdd k filename) (type : Byte) {p : Int × Nat}
    (hp : p ∈ s.handed) (hat : p.1 = s.fs.fileCount.toNat) :
    ¬ (s.added k filename type).Stable := by
  have hcount : (s.added k filename type).fs.fileCount.toNat = s.fs.fileCount.toNat + 1 :=
    toNat_fileCount_add hadd.room
  obtain ⟨hlive, -⟩ := (stable_iff h).mp hs p hp
  have hdead : p.2 ∉ s.live := by
    intro hmem
    have hlt := live_lt h (hlive hmem)
    omega
  rw [stable_iff (h.added hadd type), hcount]
  intro hnext
  have hne : p.2 ≠ s.next := Nat.ne_of_lt (h.handed p hp).2
  have hbeyond := (hnext p (List.mem_cons_of_mem _ hp)).2 (by
    show p.2 ∉ s.live ++ [s.next]
    simp [hdead, hne])
  omega

/-- A file removed before a descriptor: what the descriptor denoted has moved down, or is the
file itself. -/
theorem not_stable_removed {s : Session} (h : s.Tracks) (hs : s.Stable) {i : Nat}
    (hi : i + 1 < s.fs.fileCount.toNat) {p : Int × Nat} (hp : p ∈ s.handed) (hge : i ≤ p.1)
    (hlt : p.1 < s.fs.fileCount.toNat) : ¬ (s.removed i).Stable := by
  have hcount : (s.removed i).fs.fileCount.toNat = s.fs.fileCount.toNat - 1 :=
    toNat_fileCount_sub (i := i) (by omega)
  obtain ⟨hlive, hdead⟩ := (stable_iff h).mp hs p hp
  have hfile : s.live[p.1.toNat]? = some p.2 := by
    by_cases hmem : p.2 ∈ s.live
    · exact hlive hmem
    · have := hdead hmem
      omega
  have hindex : p.1.toNat < s.live.length := (List.getElem?_eq_some_iff.mp hfile).1
  rw [stable_iff (h.removed (by omega)), hcount]
  intro hnext
  obtain ⟨hlive', hdead'⟩ := hnext p hp
  change p.2 ∈ s.live.eraseIdx i → (s.live.eraseIdx i)[p.1.toNat]? = some p.2 at hlive'
  change p.2 ∉ s.live.eraseIdx i → _ at hdead'
  by_cases hself : p.1.toNat = i
  · have hgone : p.2 ∉ s.live.eraseIdx i := by
      intro hmem
      obtain ⟨j, hji, hj⟩ := List.mem_eraseIdx_iff_getElem?.mp hmem
      have := (List.getElem?_inj hindex h.nodup).mp (hfile.trans hj.symm)
      omega
    have := hdead' hgone
    omega
  · have hmoved := hlive' (List.mem_eraseIdx_iff_getElem?.mpr ⟨_, hself, hfile⟩)
    rw [List.getElem?_eraseIdx, if_neg (by omega)] at hmoved
    have := (List.getElem?_inj hindex h.nodup).mp (hfile.trans hmoved.symm)
    omega

/-- **One call** that does not keep the descriptors. -/
theorem not_stable_next {s : Session} (h : s.Tracks) (hs : s.Stable) {call : FsCall}
    (hkeeps : ¬ s.KeepsDescriptors call) : ¬ (s.step call).1.Stable := by
  rcases not_and_or.mp hkeeps with hadds | hremoves
  · rw [Classical.not_imp] at hadds
    obtain ⟨hcall, hhanded⟩ := hadds
    push Not at hhanded
    obtain ⟨p, hp, hat⟩ := hhanded
    obtain ⟨k, filename, type, hadd, heq⟩ := step_adds h hcall
    rw [heq]
    exact not_stable_added h hs hadd type hp hat
  · push Not at hremoves
    obtain ⟨i, hcall, hlast, p, hp, hge, hlt⟩ := hremoves
    obtain ⟨filename, -, hfind⟩ := removes_iff.mp hcall
    have hi : i + 1 < s.fs.fileCount.toNat := by
      have := (findFile_eq_some.mp hfind).1
      omega
    rw [step_removes hcall]
    exact not_stable_removed h hs hi hp hge hlt

end Session

/-! ## `fs_delete` with open files -/

/-- `test.txt` and `welcome.txt` are opened, and the second is deleted. -/
def deleteLast : List FsCall :=
  [.open' testName 0, .open' welcomeName 0, .delete welcomeName]

/-- The same with the first. -/
def deleteFirst : List FsCall :=
  [.open' testName 0, .open' welcomeName 0, .delete testName]

section

variable (fs : Filesystem)

open Session

theorem handed_openedBoth : (openedBoth fs).handed = [(2, 2), (1, 1)] := rfl

theorem live_openedBoth : (openedBoth fs).live = [0, 1, 2] := rfl

theorem stable_openedBoth : (openedBoth fs).Stable := by
  rw [stable_iff (tracks_openedBoth fs), handed_openedBoth, live_openedBoth]
  intro p hp
  rcases List.mem_cons.mp hp with rfl | hp
  · exact ⟨fun _ => rfl, fun hnot => absurd (by decide) hnot⟩
  · obtain rfl := List.mem_singleton.mp hp
    exact ⟨fun _ => rfl, fun hnot => absurd (by decide) hnot⟩

/-- `fs_open` of a file without `FILE_CREATE` adds and removes none. -/
theorem keepsDescriptors_open (s : Session) (filename : CString) :
    s.KeepsDescriptors (.open' filename 0) := by
  refine ⟨?_, fun i hremoves => hremoves.elim⟩
  rintro ⟨-, hmode⟩
  exact absurd (by decide) hmode

theorem keepsDescriptors_deleteLast :
    Along Session.step KeepsDescriptors (start fs) deleteLast := by
  rw [deleteLast]
  refine along_openedBoth fs (keepsDescriptors_open _ _) (keepsDescriptors_open _ _)
    ⟨fun hadds => hadds.elim, ?_⟩
  intro i hremoves
  rw [fs_openedBoth] at hremoves ⊢
  obtain rfl : 2 = i := Option.some.inj ((findFile_fsInit fs).2.symm.trans hremoves)
  exact .inl (fileCount_fsInit fs).symm

theorem inBounds_delete (filename : CString) :
    Along Session.step (fun s call => s.fs.InBounds call) (start fs)
      [.open' testName 0, .open' welcomeName 0, .delete filename] :=
  along_openedBoth fs trivial trivial trivial

theorem not_stable_deleteFirst : ¬ (run Session.step (start fs) deleteFirst).Stable := by
  have hcount : (openedBoth fs).fs.fileCount.toNat = 3 := by
    rw [fs_openedBoth, fileCount_fsInit]
  have hremoves : Removes (openedBoth fs).fs 1 (.delete testName) := by
    rw [fs_openedBoth]
    exact (findFile_fsInit fs).1
  rw [deleteFirst, run_cons, step_openedTest, run_cons, step_openedBoth, run_cons, run_nil,
    step_removes hremoves]
  -- `welcome.txt` was at 2 and is at 1
  have hhanded : ((2 : Int), 2) ∈ (openedBoth fs).handed := by
    rw [handed_openedBoth]
    decide
  exact not_stable_removed (tracks_openedBoth fs) (stable_openedBoth fs) (by omega) hhanded
    (by decide) (by omega)

end

/-! ## Runs -/

open Session in
/-- **Descriptors are stable** in a run, as long as its writes stay inside `fs.data`, exactly when
no file is added where a descriptor points to, and none is removed before one. -/
theorem fs_descriptors_stable_iff (fs : Filesystem) {calls : List FsCall}
    (hbounds : Along Session.step (fun s call => s.fs.InBounds call) (start fs) calls) :
    (∀ pre, pre <+: calls → (run Session.step (start fs) pre).Stable) ↔
      Along Session.step KeepsDescriptors (start fs) calls := by
  have hstart : (start fs).Stable := fun p hp => absurd hp List.not_mem_nil
  refine safe_iff_along_of Session.step (I := fun s => s.Tracks ∧ s.Stable) (fun s hs => hs.2)
    ?_ ?_ ⟨tracks_start fs, hstart⟩ hbounds
  · rintro s call hin ⟨htracks, hstable⟩ hkeeps
    have ho := outcome htracks hin
    exact ⟨htracks.next ho, hstable.next htracks hkeeps ho⟩
  · rintro s call - ⟨htracks, hstable⟩ hkeeps
    exact not_stable_next htracks hstable hkeeps

open Session in
/-- `welcome.txt` has the last entry, and no other moves. -/
theorem fs_descriptors_stable_delete_last :
    Along Session.step (fun s call => s.fs.InBounds call) (start bss) deleteLast ∧
      Along Session.step KeepsDescriptors (start bss) deleteLast ∧
      (run Session.step (start bss) deleteLast).Stable :=
  ⟨inBounds_delete bss welcomeName, keepsDescriptors_deleteLast bss,
    (fs_descriptors_stable_iff bss (inBounds_delete bss welcomeName)).mpr
      (keepsDescriptors_deleteLast bss) _ List.prefix_rfl⟩

open Session in
/-- After `test.txt` is deleted, its descriptor is that of `welcome.txt`, and the one of
`welcome.txt` is refused. -/
theorem fs_descriptors_moved :
    Along Session.step (fun s call => s.fs.InBounds call) (start bss) deleteFirst ∧
      ¬ (run Session.step (start bss) deleteFirst).Stable :=
  ⟨inBounds_delete bss testName, not_stable_deleteFirst bss⟩

end Filesystem

end MinimalistOS
