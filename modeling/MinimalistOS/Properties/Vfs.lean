import MinimalistOS.Kernel.Vfs

/-!
# File descriptors do not share anything

* `fsOpen_eq_neg_one`, `fsOpen_lowest` — which descriptor is opened
* `vfsStep_of_not_isOpen` — a call on a descriptor that is not open
* `vfsStep_other` — a call leaves all the other descriptors as they are
* `not_isOpen_close_run` — what is closed stays closed until `fs_open` returns it
* `At.step`, `At.run` — where the offset of a descriptor goes, and what is read on the way
* `vfs_descriptors_independent` — all of this over runs, for the file in the source

A read adds at most the rest of the file to the offset, so with positions below 2^31 nothing wraps.
-/

namespace MinimalistOS

open Infra

/-! ## Opening -/

theorem isOpen_natCast {t : Descriptors} {i : Nat} (hi : i < maxOpenFiles) :
    IsOpen t i ↔ (slot t i).inUse ≠ 0 := by
  unfold IsOpen
  simp only [Int.toNat_natCast]
  exact ⟨fun h => h.2.2, fun h => ⟨by omega, by omega, h⟩⟩

theorem fsOpen_eq_neg_one (t : Descriptors) :
    (fsOpen t).2 = -1 ↔ ∀ fd : Int, 0 ≤ fd → fd < maxOpenFiles → IsOpen t fd := by
  cases hfree : findSlot t (fun d => d.inUse == 0) 0 maxOpenFiles with
  | none =>
    simp only [fsOpen, hfree, true_iff]
    intro fd h0 hlt
    have hused := findSlot_eq_none.mp hfree fd.toNat (by omega)
    exact ⟨h0, hlt, by simpa using hused⟩
  | some i =>
    obtain ⟨hi, hunused, -⟩ := findSlot_eq_some.mp hfree
    simp only [fsOpen, hfree]
    refine iff_of_false (by omega) fun hall => ?_
    exact (isOpen_natCast hi).mp (hall i (by omega) (by omega)) (by simpa using hunused)

/-- `fs_open` takes the lowest descriptor that is not open. -/
theorem fsOpen_lowest {t : Descriptors} (h : (fsOpen t).2 ≠ -1) :
    0 ≤ (fsOpen t).2 ∧ (fsOpen t).2 < maxOpenFiles ∧ ¬ IsOpen t (fsOpen t).2 ∧
      ∀ fd : Int, 0 ≤ fd → fd < (fsOpen t).2 → IsOpen t fd := by
  cases hfree : findSlot t (fun d => d.inUse == 0) 0 maxOpenFiles with
  | none => exact absurd (by simp only [fsOpen, hfree]) h
  | some i =>
    obtain ⟨hi, hunused, hbefore⟩ := findSlot_eq_some.mp hfree
    simp only [fsOpen, hfree]
    refine ⟨by omega, by omega, ?_, fun fd h0 hlt => ?_⟩
    · rw [isOpen_natCast hi]
      simpa using hunused
    · have hused := hbefore fd.toNat (by omega)
      exact ⟨h0, by omega, by simpa using hused⟩

/-- Right after `fs_init` it is the first one. -/
theorem fsOpen_fsInit (t : Descriptors) : (fsOpen (fsInit t)).2 = 0 := by
  have hfree : findSlot (fsInit t) (fun d => d.inUse == 0) 0 maxOpenFiles = some 0 := by
    refine findSlot_eq_some.mpr ⟨by decide, ?_, fun j hj => by omega⟩
    rw [fsInit, slot_map t _ (by decide)]
    rfl
  simp only [fsOpen, hfree]
  rfl

/-! ## One descriptor -/

/-- The descriptor a call is about: for `fs_open` the one it returns. -/
def VfsCall.descriptor : VfsCall → VfsAnswer → Int
  | .open, answer => answer.result
  | .close fd, _ => fd
  | .seek fd _, _ => fd
  | .read fd _, _ => fd

/-- A call on a descriptor that is not open fails and does nothing. -/
theorem vfsStep_of_not_isOpen (file : File) {t : Descriptors} {call : VfsCall}
    (hcall : call ≠ .open) (h : ¬ IsOpen t (call.descriptor (vfsStep file t call).2)) :
    vfsStep file t call = (t, ⟨-1, []⟩) := by
  cases call with
  | «open» => exact absurd rfl hcall
  | close fd => simp [vfsStep, fsClose, show ¬ IsOpen t fd from h]
  | seek fd offset => simp [vfsStep, fsSeek, show ¬ IsOpen t fd from h]
  | read fd count => simp [vfsStep, fsRead, show ¬ IsOpen t fd from h]

/-- A change to an open descriptor is none to the others. -/
theorem IsOpen.slot_modify {t : Descriptors} {fd : Int} (h : IsOpen t fd) (f : SimpleFd → SimpleFd)
    {j : Nat} (hj : (j : Int) ≠ fd) : slot (modifySlot t fd.toNat f) j = slot t j := by
  rw [slot_modifySlot _ h.toNat_lt, if_neg]
  intro heq
  have := h.1
  omega

/-- A call leaves all the other descriptors as they are. -/
theorem vfsStep_other (file : File) (t : Descriptors) (call : VfsCall) {j : Nat}
    (hj : (j : Int) ≠ call.descriptor (vfsStep file t call).2) :
    slot (vfsStep file t call).1 j = slot t j := by
  cases call with
  | «open» =>
    cases hfree : findSlot t (fun d => d.inUse == 0) 0 maxOpenFiles with
    | none => simp only [vfsStep, fsOpen, hfree]
    | some i =>
      have hi : i < 16 := (findSlot_eq_some.mp hfree).1
      simp only [vfsStep, fsOpen, hfree, VfsCall.descriptor] at hj ⊢
      rw [slot_setIfInBounds _ hi, if_neg (by omega)]
  | close fd =>
    by_cases h : IsOpen t fd
    · simpa [vfsStep, fsClose, h] using h.slot_modify _ hj
    · simp [vfsStep, fsClose, h]
  | seek fd offset =>
    by_cases h : IsOpen t fd
    · simpa [vfsStep, fsSeek, h] using h.slot_modify _ hj
    · simp [vfsStep, fsSeek, h]
  | read fd count =>
    by_cases h : IsOpen t fd
    · simpa [vfsStep, fsRead, h] using h.slot_modify _ hj
    · simp [vfsStep, fsRead, h]

theorem vfsStep_slot_of_ne (file : File) (t : Descriptors) {call : VfsCall} {fd : Int}
    (h0 : 0 ≤ fd) (hcall : call.descriptor (vfsStep file t call).2 ≠ fd) :
    slot (vfsStep file t call).1 fd.toNat = slot t fd.toNat :=
  vfsStep_other file t call (by rw [Int.toNat_of_nonneg h0]; exact Ne.symm hcall)

/-- Only an `fs_open` that returns the descriptor makes it open. -/
theorem not_isOpen_vfsStep (file : File) {t : Descriptors} {fd : Int} (h : ¬ IsOpen t fd)
    {call : VfsCall} (hcall : call = .open → (fsOpen t).2 ≠ fd) :
    ¬ IsOpen (vfsStep file t call).1 fd := by
  by_cases hd : call.descriptor (vfsStep file t call).2 = fd
  · have hne : call ≠ .open := by
      rintro rfl
      exact hcall rfl hd
    rw [vfsStep_of_not_isOpen file hne (hd ▸ h)]
    exact h
  · rintro ⟨h0, hlt, hused⟩
    rw [vfsStep_slot_of_ne file t h0 hd] at hused
    exact h ⟨h0, hlt, hused⟩

/-- **What is closed stays closed** until `fs_open` returns it again. -/
theorem not_isOpen_close_run (file : File) (t : Descriptors) (fd : Int) {calls : List VfsCall}
    (hcalls : Along (vfsStep file) (fun t call => call = .open → (fsOpen t).2 ≠ fd)
      (vfsStep file t (.close fd)).1 calls) :
    ¬ IsOpen (run (vfsStep file) t (.close fd :: calls)) fd := by
  rw [run_cons]
  exact inv_run (vfsStep file) (I := fun t => ¬ IsOpen t fd)
    (fun _ _ h hcall => not_isOpen_vfsStep file h hcall) (not_isOpen_fsClose t fd) hcalls

/-! ## Reading -/

/-- The bytes of the file. -/
def File.content (file : File) : List Byte := (List.range file.size.toNat).map file.bytes

@[simp] theorem File.length_content (file : File) : file.content.length = file.size.toNat := by
  simp [File.content]

/-- A read gets what it asks for, or the rest of the file. -/
theorem File.toNat_toRead (file : File) {offset count : Word}
    (h : offset.toNat + count.toNat < 2 ^ 32) :
    (file.toRead offset count).toNat = min count.toNat (file.size.toNat - offset.toNat) := by
  unfold File.toRead
  split_ifs with hend hcut
  · rw [BitVec.le_def] at hend
    rw [show (0 : Word).toNat = 0 from rfl]
    omega
  · rw [BitVec.lt_def] at hcut
    bv_omega
  · rw [BitVec.lt_def] at hcut
    bv_omega

theorem File.map_bytes_eq (file : File) (a n : Nat) :
    (List.range (min n (file.size.toNat - a))).map (fun k => file.bytes (a + k))
      = (file.content.drop a).take n := by
  apply List.ext_getElem
  · simp
  · intro k hk _
    simp [File.content]

/-- Beyond the end there is nothing to drop. -/
theorem File.drop_content_min (file : File) (a n : Nat) :
    file.content.drop (a + min n (file.size.toNat - a)) = file.content.drop (a + n) := by
  by_cases hin : n ≤ file.size.toNat - a
  · rw [Nat.min_eq_left hin]
  · rw [List.drop_eq_nil_of_le (by rw [File.length_content]; omega),
      List.drop_eq_nil_of_le (by rw [File.length_content]; omega)]

/-- The descriptor is open and at this offset. -/
structure At (t : Descriptors) (fd : Int) (a : Nat) : Prop where
  isOpen : IsOpen t fd
  offset : (slot t fd.toNat).offset.toNat = a

/-- How many bytes a call asks for on a descriptor. -/
def VfsCall.asks (fd : Int) : VfsCall → Nat
  | .read fd' count => if fd' = fd then count.toNat else 0
  | _ => 0

/-- How many bytes the calls of a sequence ask for on a descriptor together. -/
def VfsCall.asksAll (fd : Int) : List VfsCall → Nat
  | [] => 0
  | call :: calls => call.asks fd + VfsCall.asksAll fd calls

/-- The bytes that a call reads on a descriptor. -/
def VfsCall.reads (fd : Int) : VfsCall → VfsAnswer → List Byte
  | .read fd' _, answer => if fd' = fd then answer.bytes else []
  | _, _ => []

/-- The call neither closes the descriptor nor moves its offset other than by reading. -/
def VfsCall.Continues (fd : Int) : VfsCall → Prop
  | .close fd' => fd' ≠ fd
  | .seek fd' _ => fd' ≠ fd
  | _ => True

/-- Positions and counts are below 2^31. -/
def VfsCall.Small : VfsCall → Prop
  | .seek _ offset => offset.toNat < 2 ^ 31
  | .read _ count => count.toNat < 2 ^ 31
  | _ => True

theorem At.read (file : File) {t : Descriptors} {fd : Int} {a : Nat} (h : At t fd a) (count : Word)
    (ha : a + count.toNat < 2 ^ 32) :
    At (vfsStep file t (.read fd count)).1 fd (a + min count.toNat (file.size.toNat - a)) ∧
    (vfsStep file t (.read fd count)).2.bytes = (file.content.drop a).take count.toNat := by
  have hfits : (slot t fd.toNat).offset.toNat + count.toNat < 2 ^ 32 := by
    rw [h.offset]
    exact ha
  have hread := file.toNat_toRead hfits
  rw [h.offset] at hread
  refine ⟨⟨h.isOpen.read file count, ?_⟩, ?_⟩
  · simp only [vfsStep, fsRead, if_pos h.isOpen]
    rw [slot_modifySlot _ h.isOpen.toNat_lt, if_pos rfl, BitVec.toNat_add, hread, h.offset]
    omega
  · simp only [vfsStep, fsRead, if_pos h.isOpen, hread, h.offset]
    exact file.map_bytes_eq a count.toNat

/-- A call that is about another descriptor leaves this one where it is. -/
theorem At.other (file : File) {t : Descriptors} {fd : Int} {a : Nat} (h : At t fd a)
    (call : VfsCall) (hcall : call.descriptor (vfsStep file t call).2 ≠ fd) :
    At (vfsStep file t call).1 fd a := by
  have h0 := h.isOpen.1
  have hslot := vfsStep_slot_of_ne file t h0 hcall
  exact ⟨⟨h0, h.isOpen.2.1, by rw [hslot]; exact h.isOpen.2.2⟩, by rw [hslot]; exact h.offset⟩

/-- `fs_open` does not return a descriptor that is open. -/
theorem fsOpen_ne_of_isOpen {t : Descriptors} {fd : Int} (h : IsOpen t fd) : (fsOpen t).2 ≠ fd := by
  intro heq
  by_cases hfail : (fsOpen t).2 = -1
  · have := h.1
    omega
  · exact (fsOpen_lowest hfail).2.2.1 (heq ▸ h)

/-- **One call**: the offset moves over what is read, and never beyond the end of the file. -/
theorem At.step (file : File) {t : Descriptors} {fd : Int} {a : Nat} (h : At t fd a)
    (ha : a < 2 ^ 31) {call : VfsCall} (hcall : call.Continues fd) (hsmall : call.Small) :
    At (vfsStep file t call).1 fd (a + min (call.asks fd) (file.size.toNat - a)) ∧
    call.reads fd (vfsStep file t call).2 = (file.content.drop a).take (call.asks fd) := by
  cases call with
  | «open» =>
    refine ⟨?_, by simp [VfsCall.reads, VfsCall.asks]⟩
    simpa [VfsCall.asks] using h.other file .open (fsOpen_ne_of_isOpen h.isOpen)
  | close fd' =>
    refine ⟨?_, by simp [VfsCall.reads, VfsCall.asks]⟩
    simpa [VfsCall.asks] using h.other file (.close fd') hcall
  | seek fd' offset =>
    refine ⟨?_, by simp [VfsCall.reads, VfsCall.asks]⟩
    simpa [VfsCall.asks] using h.other file (.seek fd' offset) hcall
  | read fd' count =>
    by_cases hfd : fd' = fd
    · subst hfd
      have hcount : count.toNat < 2 ^ 31 := hsmall
      simpa [VfsCall.asks, VfsCall.reads] using h.read file count (by omega)
    · have hother := h.other file (.read fd' count) hfd
      simpa [VfsCall.asks, VfsCall.reads, hfd] using hother

/-- **A run**: however the reads are split, together they read the file from the offset on. -/
theorem At.run (file : File) (hfile : file.size.toNat < 2 ^ 31) {t : Descriptors} {fd : Int}
    {a : Nat} (h : At t fd a) (ha : a < 2 ^ 31) {calls : List VfsCall}
    (hcalls : ∀ call ∈ calls, call.Continues fd ∧ call.Small) :
    At (run (vfsStep file) t calls) fd
      (a + min (VfsCall.asksAll fd calls) (file.size.toNat - a)) ∧
    observe (vfsStep file) (VfsCall.reads fd) t calls
      = (file.content.drop a).take (VfsCall.asksAll fd calls) := by
  induction calls generalizing t a with
  | nil => exact ⟨by simpa [VfsCall.asksAll] using h, by simp [observe, VfsCall.asksAll]⟩
  | cons call calls ih =>
    obtain ⟨hcall, hsmall⟩ := hcalls call List.mem_cons_self
    obtain ⟨hnext, hbytes⟩ := h.step file ha hcall hsmall
    obtain ⟨hend, hrest⟩ := ih hnext (by omega) fun c hc => hcalls c (List.mem_cons_of_mem call hc)
    rw [VfsCall.asksAll]
    constructor
    · rw [run_cons]
      convert hend using 1
      omega
    · rw [observe_cons, hbytes, hrest, file.drop_content_min, List.take_add, List.drop_drop]

/-! ## Whole runs -/

/-- A call that puts a descriptor at an offset: an `fs_open` that returns it, or an `fs_seek` when
it is open. -/
def VfsCall.Starts (t : Descriptors) (fd : Int) (a : Nat) : VfsCall → Prop
  | .open => (fsOpen t).2 = fd ∧ fd ≠ -1 ∧ a = 0
  | .seek fd' offset => fd' = fd ∧ IsOpen t fd ∧ a = offset.toNat
  | _ => False

theorem At.of_starts (file : File) {t : Descriptors} {fd : Int} {a : Nat} {call : VfsCall}
    (h : call.Starts t fd a) : At (vfsStep file t call).1 fd a := by
  cases call with
  | «open» =>
    obtain ⟨rfl, hne, rfl⟩ := h
    refine ⟨isOpen_fsOpen (fsOpen_lowest hne).1, ?_⟩
    cases hfree : findSlot t (fun d => d.inUse == 0) 0 maxOpenFiles with
    | none => exact absurd (by simp only [fsOpen, hfree]) hne
    | some i =>
      have hi : i < 16 := (findSlot_eq_some.mp hfree).1
      simp only [vfsStep, fsOpen, hfree, Int.toNat_natCast]
      rw [slot_setIfInBounds _ hi, if_pos rfl]
      rfl
  | seek fd' offset =>
    obtain ⟨rfl, hopen, rfl⟩ := h
    obtain ⟨hstill, hoffset⟩ := hopen.seek offset
    exact ⟨hstill, congrArg BitVec.toNat hoffset⟩
  | close fd' => exact h.elim
  | read fd' count => exact h.elim

/-- At the end of the file a read returns 0. -/
theorem At.read_end (file : File) {t : Descriptors} {fd : Int} {a : Nat} (h : At t fd a)
    (hend : file.size.toNat ≤ a) (count : Word) :
    (vfsStep file t (.read fd count)).2 = ⟨0, []⟩ := by
  have hzero : file.toRead (slot t fd.toNat).offset count = 0 := by
    unfold File.toRead
    rw [if_pos (by rw [BitVec.le_def, h.offset]; exact hend)]
  simp only [vfsStep, fsRead, if_pos h.isOpen, hzero]
  rfl

/-- What the descriptors promise each other in a state. -/
structure Independent (file : File) (t : Descriptors) : Prop where
  /-- `fs_open` fails when all sixteen are open -/
  open_fails : (fsOpen t).2 = -1 ↔ ∀ fd : Int, 0 ≤ fd → fd < maxOpenFiles → IsOpen t fd
  /-- and otherwise takes the lowest one that is not -/
  open_lowest : (fsOpen t).2 ≠ -1 →
    0 ≤ (fsOpen t).2 ∧ (fsOpen t).2 < maxOpenFiles ∧ ¬ IsOpen t (fsOpen t).2 ∧
      ∀ fd : Int, 0 ≤ fd → fd < (fsOpen t).2 → IsOpen t fd
  not_open : ∀ call : VfsCall, call ≠ .open →
    ¬ IsOpen t (call.descriptor (vfsStep file t call).2) →
      vfsStep file t call = (t, ⟨-1, []⟩)
  other : ∀ (call : VfsCall) (j : Nat), (j : Int) ≠ call.descriptor (vfsStep file t call).2 →
    slot (vfsStep file t call).1 j = slot t j
  /-- from an open or a seek on, the reads together get the file from the offset on -/
  reads : ∀ (start : VfsCall) (fd : Int) (a : Nat), start.Starts t fd a → start.Small →
    ∀ rest : List VfsCall, (∀ call ∈ rest, call.Continues fd ∧ call.Small) →
      observe (vfsStep file) (VfsCall.reads fd) (vfsStep file t start).1 rest
        = (file.content.drop a).take (VfsCall.asksAll fd rest) ∧
      (file.content.length ≤ a + VfsCall.asksAll fd rest → ∀ count : Word,
        (vfsStep file (run (vfsStep file) (vfsStep file t start).1 rest) (.read fd count)).2
          = ⟨0, []⟩)

theorem VfsCall.Starts.lt {t : Descriptors} {fd : Int} {a : Nat} {call : VfsCall}
    (h : call.Starts t fd a) (hsmall : call.Small) : a < 2 ^ 31 := by
  cases call with
  | «open» =>
    obtain ⟨-, -, rfl⟩ := h
    decide
  | seek fd' offset =>
    obtain ⟨-, -, rfl⟩ := h
    exact hsmall
  | close fd' => exact h.elim
  | read fd' count => exact h.elim

theorem independent_of_size_lt (file : File) (hfile : file.size.toNat < 2 ^ 31) (t : Descriptors) :
    Independent file t where
  open_fails := fsOpen_eq_neg_one t
  open_lowest := fsOpen_lowest
  not_open _ := vfsStep_of_not_isOpen file
  other call _ := vfsStep_other file t call
  reads start fd a hstart hsmall rest hrest := by
    obtain ⟨hat, hbytes⟩ := (At.of_starts file hstart).run file hfile (hstart.lt hsmall) hrest
    refine ⟨hbytes, fun hend count => hat.read_end file ?_ count⟩
    rw [File.length_content] at hend
    omega

/--
**The descriptors are independent.**

After `fs_init` and any calls: `fs_open` returns the lowest descriptor that is not open, or -1 when
all sixteen are; a call on a descriptor that is not open returns -1 and changes nothing; a call on
one descriptor changes no other. From an open or a seek on, whatever else is called, the reads on a
descriptor get the file from that offset on, cut only by the sum of their counts; and when that has
reached the end, a read returns 0. Positions and counts are below 2^31.
-/
theorem vfs_descriptors_independent (t : Descriptors) (calls : List VfsCall) :
    Independent sampleFile (run (vfsStep sampleFile) (fsInit t) calls) :=
  independent_of_size_lt sampleFile (by decide) _

/-- Two reads, split anywhere, and a third one at the end. -/
theorem vfs_descriptors_independent_hello :
    observe (vfsStep sampleFile) (VfsCall.reads 0)
      (vfsStep sampleFile (run (vfsStep sampleFile) (fsInit default) []) .open).1
      [.read 0 5, .open, .read 0 20] = sampleFile.content :=
  ((vfs_descriptors_independent default []).reads .open 0 0
    ⟨fsOpen_fsInit default, by decide, rfl⟩ trivial [.read 0 5, .open, .read 0 20]
    (by simp [VfsCall.Continues, VfsCall.Small])).1

end MinimalistOS
