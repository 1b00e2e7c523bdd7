import MinimalistOS.Kernel.Device
import MinimalistOS.Properties.Page
import Mathlib.Data.List.Find

/-!
# The device registry

* `Entry` — what is registered, beside the pages
* `Registry` — the linked list is that of the entries, in pages that are in use
* `Registry.register`, `Registry.unregister` — the two changes
* `device_registry` — the registry in every state

The entries are kept as a list beside the machine (`Devices.track`), the last one registered first.
That this list is what the links go through is the invariant.
-/

namespace MinimalistOS

open Infra
open PageSet

/-! ## Entries -/

/-- A device that is registered, and the address of its page. -/
structure Entry where
  addr : Word
  name : CString
  type : Word
  major : Word
  minor : Word
  ops : Word
  deriving DecidableEq

/-- The node shows the entry. -/
structure Device.Shows (dev : Device) (e : Entry) : Prop where
  name : CString.ofArray dev.name = e.name
  type : dev.type = e.type
  major : dev.major = e.major
  minor : dev.minor = e.minor
  ops : dev.ops = e.ops

/-- The page at an address is in use. -/
def PageUsed (pages : PageAllocator) (addr : Word) : Prop :=
  ∃ n < totalPages, addr = BitVec.ofNat 32 (n * pageSize) ∧ Bitmap.mem pages.pageBitmap n = true

/-- The page at an address is free. -/
def PageFree (pages : PageAllocator) (addr : Word) : Prop :=
  ∃ n < totalPages, addr = BitVec.ofNat 32 (n * pageSize) ∧ Bitmap.mem pages.pageBitmap n = false

/-- The registry. The first page of memory is never free, so `alloc_page` returns `0` only when it
fails. -/
structure Registry (s : Devices) (entries : List Entry) : Prop where
  linked : Linked s.next 0 s.deviceList (entries.map Entry.addr)
  nodup : (entries.map Entry.addr).Nodup
  used : ∀ e ∈ entries, PageUsed s.pages e.addr
  shows : ∀ e ∈ entries, (s.nodes e.addr).Shows e
  reserved : PageUsed s.pages 0

/-! ## Pages -/

theorem pageAddr_inj {n k : Nat} (hn : n < totalPages) (hk : k < totalPages)
    (h : BitVec.ofNat 32 (n * pageSize) = BitVec.ofNat 32 (k * pageSize)) : n = k := by
  have htoNat := congrArg BitVec.toNat h
  rw [toNat_pageAddr hn, toNat_pageAddr hk] at htoNat
  exact Nat.eq_of_mul_eq_mul_left (by decide) htoNat

/-- Freeing a page by its address clears its bit. -/
theorem freePage_pageAddr (pages : PageAllocator) {k : Nat} (hk : k < totalPages) :
    freePage pages (BitVec.ofNat 32 (k * pageSize))
      = { pageBitmap := clearPageBit pages.pageBitmap k, usedPages := pages.usedPages - 1 } := by
  have hdiv : (BitVec.ofNat 32 (k * pageSize)).toNat / pageSize = k := by
    rw [toNat_pageAddr hk, Nat.mul_div_cancel_left _ (by decide)]
  rw [freePage_of_lt (by rw [hdiv]; exact hk), hdiv]

/-- Pages in use stay in use when another one is taken. -/
theorem PageUsed.take {pages : PageAllocator} {addr : Word} (h : PageUsed pages addr) {k : Nat}
    (hk : k < totalPages) : PageUsed (takePage pages k) addr := by
  obtain ⟨n, hn, haddr, hmem⟩ := h
  exact ⟨n, hn, haddr, by simp [takePage, mem_setPageBit _ hk, hmem]⟩

/-- A page in use is not the one that is taken. -/
theorem PageUsed.ne_take {pages : PageAllocator} {addr : Word} (h : PageUsed pages addr) {k : Nat}
    (hk : k ∈ freePages pages) : addr ≠ BitVec.ofNat 32 (k * pageSize) := by
  obtain ⟨n, hn, rfl, hmem⟩ := h
  intro heq
  rw [pageAddr_inj hn hk.1 heq, hk.2] at hmem
  simp at hmem

/-- Pages in use stay in use when another one is freed. -/
theorem PageUsed.free {pages : PageAllocator} {addr addr' : Word} (h : PageUsed pages addr)
    (h' : PageUsed pages addr') (hne : addr ≠ addr') : PageUsed (freePage pages addr') addr := by
  obtain ⟨n, hn, rfl, hmem⟩ := h
  obtain ⟨k, hk, rfl, -⟩ := h'
  have hnk : n ≠ k := fun heq => hne (by rw [heq])
  refine ⟨n, hn, rfl, ?_⟩
  rw [freePage_pageAddr pages hk]
  simp [mem_clearPageBit _ hk, hnk, hmem]

theorem PageUsed.free_self {pages : PageAllocator} {addr : Word} (h : PageUsed pages addr) :
    PageFree (freePage pages addr) addr := by
  obtain ⟨k, hk, rfl, -⟩ := h
  refine ⟨k, hk, rfl, ?_⟩
  rw [freePage_pageAddr pages hk]
  simp [mem_clearPageBit _ hk]

/-! ## Looking for a device -/

namespace Registry

variable {s : Devices} {entries : List Entry} (h : Registry s entries)

include h

theorem addr_ne_zero {e : Entry} (he : e ∈ entries) : e.addr ≠ 0 :=
  h.linked.ne_null e.addr (List.mem_map_of_mem he)

theorem isNamed_eq {e : Entry} (he : e ∈ entries) (name : CString) :
    s.isNamed name e.addr = decide (e.name = name) := by
  rw [Bool.eq_iff_iff, decide_eq_true_eq, Devices.isNamed, beq_iff_eq, strcmp_eq_zero,
    CString.ofBytes_bytes, ← (h.shows e he).name]
  rfl

theorem isNumbered_eq {e : Entry} (he : e ∈ entries) (major minor : Word) :
    s.isNumbered major minor e.addr = decide (e.major = major ∧ e.minor = minor) := by
  rw [Bool.eq_iff_iff, decide_eq_true_eq, Devices.isNumbered, Bool.and_eq_true, beq_iff_eq,
    beq_iff_eq, (h.shows e he).major, (h.shows e he).minor]

/-- There are no more devices than pages: a walk always ends. -/
theorem length_le : (entries.map Entry.addr).length ≤ totalPages := by
  have hsub : (entries.map Entry.addr).toFinset
      ⊆ (Finset.range totalPages).image fun n => BitVec.ofNat 32 (n * pageSize) := by
    intro a ha
    rw [List.mem_toFinset, List.mem_map] at ha
    obtain ⟨e, he, rfl⟩ := ha
    obtain ⟨n, hn, haddr, -⟩ := h.used e he
    rw [Finset.mem_image]
    exact ⟨n, Finset.mem_range.mpr hn, haddr.symm⟩
  calc (entries.map Entry.addr).length
      = (entries.map Entry.addr).toFinset.card := (List.toFinset_card_of_nodup h.nodup).symm
    _ ≤ ((Finset.range totalPages).image fun n => BitVec.ofNat 32 (n * pageSize)).card :=
      Finset.card_le_card hsub
    _ ≤ (Finset.range totalPages).card := Finset.card_image_le
    _ = totalPages := Finset.card_range totalPages

/-- **A search finds the first entry** that meets what is tested of the nodes. -/
theorem walk_eq {p : Word → Bool} {q : Entry → Bool} (hpq : ∀ e ∈ entries, p e.addr = q e) :
    walkTo s.next 0 p totalPages s.deviceList
      = some (((entries.find? q).map Entry.addr).getD 0) := by
  have hfind : entries.find? (p ∘ Entry.addr) = entries.find? q := List.find?_congr hpq
  rw [h.linked.walkTo_eq p h.length_le, List.find?_map, hfind]

theorem find_eq (name : CString) :
    deviceFind s name
      = some (((entries.find? fun e => decide (e.name = name)).map Entry.addr).getD 0) :=
  h.walk_eq fun _ he => h.isNamed_eq he name

theorem findByNumber_eq (major minor : Word) :
    deviceFindByNumber s major minor
      = some (((entries.find? fun e => decide (e.major = major ∧ e.minor = minor)).map
          Entry.addr).getD 0) :=
  h.walk_eq fun _ he => h.isNumbered_eq he major minor

/-- `alloc_page` does not return the page of a device. -/
theorem allocPage_ne {e : Entry} (he : e ∈ entries) : (allocPage s.pages).2 ≠ e.addr := by
  rcases allocPage_cases s.pages with ⟨k, hleast, heq⟩ | ⟨-, heq⟩
  · rw [heq]
    exact ((h.used e he).ne_take hleast.1).symm
  · rw [heq]
    exact (h.addr_ne_zero he).symm

/-! ## Registering -/

theorem allocPage : Registry { s with pages := (MinimalistOS.allocPage s.pages).1 } entries := by
  rcases allocPage_cases s.pages with ⟨k, hleast, heq⟩ | ⟨-, heq⟩
  · rw [heq]
    exact
      { linked := h.linked
        nodup := h.nodup
        used := fun e he => (h.used e he).take hleast.1.1
        shows := h.shows
        reserved := h.reserved.take hleast.1.1 }
  · rw [heq]
    exact h

/-- **A device that is registered comes first**, and its page is a new one. -/
theorem register {name : CString} (hname : name.bytes.length < 32) (type major minor ops : Word) :
    ((deviceRegister s name type major minor ops).2 = 0 ∧
      Registry (deviceRegister s name type major minor ops).1
        (⟨(deviceRegister s name type major minor ops).1.deviceList, name, type, major, minor, ops⟩
          :: entries)) ∨
    ((deviceRegister s name type major minor ops).2 = -1 ∧
      Registry (deviceRegister s name type major minor ops).1 entries) := by
  rcases allocPage_cases s.pages with ⟨k, hleast, heq⟩ | ⟨-, heq⟩
  · left
    have hne : BitVec.ofNat 32 (k * pageSize) ≠ 0 := (h.reserved.ne_take hleast.1).symm
    simp only [deviceRegister, heq, if_neg hne, true_and]
    have hfresh : BitVec.ofNat 32 (k * pageSize) ∉ entries.map Entry.addr := by
      intro hmem
      obtain ⟨e, he, haddr⟩ := List.mem_map.mp hmem
      exact (h.used e he).ne_take hleast.1 haddr
    refine ⟨?_, List.nodup_cons.mpr ⟨hfresh, h.nodup⟩, ?_, ?_, h.reserved.take hleast.1.1⟩
    · refine Linked.congr (h.linked.push hne hfresh) fun a _ => ?_
      simp only [Devices.next, Function.update_apply]
      split <;> rfl
    · intro e he
      rcases List.mem_cons.mp he with rfl | he
      · exact ⟨k, hleast.1.1, rfl, by simp [takePage, mem_setPageBit _ hleast.1.1]⟩
      · exact (h.used e he).take hleast.1.1
    · intro e he
      rcases List.mem_cons.mp he with rfl | he
      · simp only [Function.update_self]
        exact
          { name := (CString.ofArray_strncpy _ name (by decide)).trans
              (CString.truncate_eq_self.mpr (by omega))
            type := rfl
            major := rfl
            minor := rfl
            ops := rfl }
      · have haddr : e.addr ≠ BitVec.ofNat 32 (k * pageSize) :=
          (h.used e he).ne_take hleast.1
        simp only [Function.update_of_ne haddr]
        exact h.shows e he
  · right
    simp only [deviceRegister, heq, if_true, true_and]
    exact h

/-! ## Unregistering -/

/-- Nothing with this name is registered. -/
theorem unregister_of_none {name : CString} (hnone : ∀ e ∈ entries, e.name ≠ name) :
    deviceUnregister s name = some (s, -1) := by
  have hwalk := h.linked.walkPrev_of_forall (p := s.isNamed name) (n := totalPages)
    (by
      intro a ha
      obtain ⟨e, he, rfl⟩ := List.mem_map.mp ha
      rw [h.isNamed_eq he]
      simpa using hnone e he) h.length_le 0
  simp only [deviceUnregister, hwalk, if_true]

/-- The other entries are in other pages, and no two of them in the same. -/
theorem others {pre post : List Entry} {e : Entry} (hsplit : entries = pre ++ e :: post) :
    ((pre ++ post).map Entry.addr).Nodup ∧
    ∀ e' ∈ pre ++ post, e' ∈ entries ∧ e'.addr ≠ e.addr := by
  subst hsplit
  have hnodup := h.nodup
  rw [List.map_append, List.map_cons, List.nodup_middle, ← List.map_append,
    List.nodup_cons] at hnodup
  refine ⟨hnodup.2, fun e' he' => ⟨?_, fun heq => ?_⟩⟩
  · rcases List.mem_append.mp he' with he' | he'
    · exact List.mem_append_left _ he'
    · exact List.mem_append_right _ (List.mem_cons_of_mem e he')
  · exact hnodup.1 (heq ▸ List.mem_map_of_mem he')

/-- The node before a device is one of the list, if the device is not the first. -/
theorem unlink {pre post : List Entry} {e : Entry} (hsplit : entries = pre ++ e :: post) :
    Linked (s.remove ((pre.map Entry.addr).getLastD 0) e.addr).next 0
      (s.remove ((pre.map Entry.addr).getLastD 0) e.addr).deviceList
      ((pre ++ post).map Entry.addr) := by
  subst hsplit
  have hlinked := h.linked
  have hnodup := h.nodup
  rcases List.eq_nil_or_concat pre with rfl | ⟨front, p, rfl⟩
  · have hremove : s.remove 0 e.addr
        = { s with deviceList := s.next e.addr, pages := freePage s.pages e.addr } := by
      simp only [Devices.remove, ne_eq, not_true_eq_false, if_false]
    simp only [List.map_nil, List.getLastD_nil, List.nil_append, hremove]
    exact Linked.tail hlinked
  · have hp : p.addr ≠ 0 := h.addr_ne_zero (by simp)
    have hlast : ((front.concat p).map Entry.addr).getLastD 0 = p.addr := by simp
    simp only [List.concat_eq_append, List.append_assoc, List.map_append, List.map_cons,
      List.singleton_append] at hlinked hnodup
    have hcut := hlinked.unlink hnodup
    rw [hlast]
    simp only [Devices.remove, if_pos hp, List.concat_eq_append, List.append_assoc,
      List.map_append, List.map_cons, List.singleton_append]
    refine hcut.congr fun a _ => ?_
    simp only [Devices.next, Function.update_apply]
    split <;> rfl

omit h in
@[simp] theorem remove_pages (prev current : Word) :
    (s.remove prev current).pages = freePage s.pages current := by
  unfold Devices.remove
  split <;> rfl

omit h in
/-- Removing a device changes no more than a link in the others. -/
theorem remove_shows (prev current : Word) (a : Word) (e : Entry) :
    ((s.remove prev current).nodes a).Shows e ↔ (s.nodes a).Shows e := by
  unfold Devices.remove
  split
  · by_cases ha : a = prev
    · subst ha
      simp only [Function.update_self]
      exact ⟨fun hs => ⟨hs.name, hs.type, hs.major, hs.minor, hs.ops⟩,
        fun hs => ⟨hs.name, hs.type, hs.major, hs.minor, hs.ops⟩⟩
    · simp only [Function.update_of_ne ha]
  · exact Iff.rfl

/-- **A device is unregistered**: the first one with the name, no other, and its page is free. -/
theorem unregister {name : CString} {e : Entry}
    (hfind : (entries.find? fun e => decide (e.name = name)) = some e) :
    ∃ s', deviceUnregister s name = some (s', 0) ∧
      Registry s' (entries.eraseP fun e => decide (e.name = name)) ∧ PageFree s'.pages e.addr := by
  obtain ⟨hname, pre, post, rfl, hpre⟩ := List.find?_eq_some_iff_append.mp hfind
  have herase : ((pre ++ e :: post).eraseP fun e => decide (e.name = name)) = pre ++ post := by
    rw [List.eraseP_append_right _ (by simpa using hpre),
      List.eraseP_cons_of_pos (p := fun e : Entry => decide (e.name = name)) hname]
  have he : e ∈ pre ++ e :: post := by simp
  have hmap : (pre ++ e :: post).map Entry.addr
      = pre.map Entry.addr ++ e.addr :: post.map Entry.addr := by
    rw [List.map_append, List.map_cons]
  have hwalk := Linked.walkPrev_of_find (p := s.isNamed name) (n := totalPages)
    (by rw [← hmap]; exact h.linked)
    (by
      intro a ha
      obtain ⟨e', he', rfl⟩ := List.mem_map.mp ha
      rw [h.isNamed_eq (List.mem_append_left _ he')]
      simpa using hpre e' he')
    (by rw [h.isNamed_eq he]; exact hname) (by rw [← hmap]; exact h.length_le) 0
  refine ⟨s.remove ((pre.map Entry.addr).getLastD 0) e.addr, ?_, ?_, ?_⟩
  · simp only [deviceUnregister, hwalk, if_neg (h.addr_ne_zero he)]
  · obtain ⟨hnodup, hothers⟩ := h.others rfl
    rw [herase]
    refine ⟨h.unlink rfl, hnodup, fun e' he' => ?_, fun e' he' => ?_, ?_⟩
    · obtain ⟨hmem, hne⟩ := hothers e' he'
      rw [remove_pages]
      exact (h.used e' hmem).free (h.used e he) hne
    · exact (remove_shows _ _ _ _).mpr (h.shows e' (hothers e' he').1)
    · rw [remove_pages]
      exact h.reserved.free (h.used e he) (h.addr_ne_zero he).symm
  · rw [remove_pages]
    exact (h.used e he).free_self

end Registry

/-! ## Runs -/

/-- The name that is registered fits into a node. -/
def DeviceCall.ShortName : DeviceCall → Prop
  | .register name _ _ _ _ => name.bytes.length < 32
  | _ => True

/-- The entries after a call: what was registered goes in front, what was unregistered is the
first entry with the name. -/
def logEntries (entries : List Entry) (after : Devices) : DeviceCall → DeviceAnswer → List Entry
  | .register name type major minor ops, .result value =>
    if value = 0 then ⟨after.deviceList, name, type, major, minor, ops⟩ :: entries else entries
  | .unregister name, .result value =>
    if value = 0 then entries.eraseP fun e => decide (e.name = name) else entries
  | _, _ => entries

/-- A call, with the entries kept beside it. -/
def Devices.track (t : Devices × List Entry) (call : DeviceCall) :
    (Devices × List Entry) × DeviceAnswer :=
  let r := t.1.step call
  ((r.1, logEntries t.2 r.1 call r.2), r.2)

/-- After `memory_init` and `device_init`. -/
def bootDevices (s : Devices) (m : Memory) : Devices × List Entry :=
  (deviceInit { s with pages := (memoryInit m).pages }, [])

theorem registry_boot (s : Devices) (m : Memory) :
    Registry (bootDevices s m).1 (bootDevices s m).2 where
  linked := rfl
  nodup := List.nodup_nil
  used := by simp [bootDevices]
  shows := by simp [bootDevices]
  reserved := ⟨0, by decide, rfl, by simp [bootDevices, deviceInit, mem_memoryInit]⟩

/-- **One call** keeps the registry, and returns. -/
theorem Registry.step {t : Devices × List Entry} (h : Registry t.1 t.2) {call : DeviceCall}
    (hcall : call.ShortName) :
    Registry (Devices.track t call).1.1 (Devices.track t call).1.2 ∧
    (Devices.track t call).2 ≠ .endless := by
  cases call with
  | register name type major minor ops =>
    refine ⟨?_, by simp [Devices.track, Devices.step]⟩
    simp only [Devices.track, Devices.step, logEntries]
    rcases h.register hcall type major minor ops with ⟨hvalue, hnext⟩ | ⟨hvalue, hnext⟩
    · rw [if_pos hvalue]
      exact hnext
    · rw [if_neg (by rw [hvalue]; decide)]
      exact hnext
  | unregister name =>
    simp only [Devices.track, Devices.step]
    cases hfind : t.2.find? fun e => decide (e.name = name) with
    | none =>
      have hnone : ∀ e ∈ t.2, e.name ≠ name := by simpa using List.find?_eq_none.mp hfind
      rw [h.unregister_of_none hnone]
      exact ⟨by simpa [logEntries] using h, by simp⟩
    | some e =>
      obtain ⟨s', heq, hnext, -⟩ := h.unregister hfind
      rw [heq]
      exact ⟨by simpa [logEntries] using hnext, by simp⟩
  | allocPage => exact ⟨h.allocPage, by simp [Devices.track, Devices.step]⟩

/-- What the registry promises in a state. -/
structure Laws (s : Devices) (entries : List Entry) : Prop where
  /-- the list is finite and its nodes are those of the entries, in pages that are in use -/
  linked : Linked s.next 0 s.deviceList (entries.map Entry.addr)
  nodup : (entries.map Entry.addr).Nodup
  used : ∀ e ∈ entries, PageUsed s.pages e.addr
  shows : ∀ e ∈ entries, (s.nodes e.addr).Shows e
  not_allocated : ∀ e ∈ entries, (allocPage s.pages).2 ≠ e.addr
  /-- a search finds the last device registered of those that match -/
  find : ∀ name, deviceFind s name
    = some (((entries.find? fun e => decide (e.name = name)).map Entry.addr).getD 0)
  find_null : ∀ name, deviceFind s name = some 0 ↔ ∀ e ∈ entries, e.name ≠ name
  find_by_number : ∀ major minor, deviceFindByNumber s major minor
    = some (((entries.find? fun e => decide (e.major = major ∧ e.minor = minor)).map
        Entry.addr).getD 0)
  find_by_number_null : ∀ major minor, deviceFindByNumber s major minor = some 0 ↔
    ∀ e ∈ entries, ¬ (e.major = major ∧ e.minor = minor)
  /-- and so does `device_unregister`, which leaves the others in their order -/
  unregister : ∀ name s', deviceUnregister s name = some (s', 0) →
    ∃ e, (entries.find? fun e => decide (e.name = name)) = some e ∧
      Linked s'.next 0 s'.deviceList
        ((entries.eraseP fun e => decide (e.name = name)).map Entry.addr) ∧
      PageFree s'.pages e.addr
  unregister_fails : ∀ name, (∀ e ∈ entries, e.name ≠ name) →
    deviceUnregister s name = some (s, -1)

namespace Registry

variable {s : Devices} {entries : List Entry} (h : Registry s entries)

include h

/-- A search comes back with nothing when no entry matches: no device is at address 0. -/
theorem getD_find?_eq_zero_iff (q : Entry → Bool) :
    ((entries.find? q).map Entry.addr).getD 0 = 0 ↔ ∀ e ∈ entries, q e = false := by
  cases hfind : entries.find? q with
  | none =>
    have hnone := List.find?_eq_none.mp hfind
    simpa using hnone
  | some e =>
    refine iff_of_false (h.addr_ne_zero (List.mem_of_find?_eq_some hfind)) fun hall => ?_
    have hq := List.find?_some hfind
    rw [hall e (List.mem_of_find?_eq_some hfind)] at hq
    exact Bool.false_ne_true hq

theorem laws : Laws s entries where
  linked := h.linked
  nodup := h.nodup
  used := h.used
  shows := h.shows
  not_allocated _ := h.allocPage_ne
  find := h.find_eq
  find_null name := by
    rw [h.find_eq, Option.some.injEq, h.getD_find?_eq_zero_iff]
    simp
  find_by_number := h.findByNumber_eq
  find_by_number_null major minor := by
    rw [h.findByNumber_eq, Option.some.injEq, h.getD_find?_eq_zero_iff]
    simp
  unregister name s' hs' := by
    cases hfind : entries.find? fun e => decide (e.name = name) with
    | none =>
      have hnone : ∀ e ∈ entries, e.name ≠ name := by simpa using List.find?_eq_none.mp hfind
      rw [h.unregister_of_none hnone] at hs'
      simp at hs'
    | some e =>
      obtain ⟨s'', heq, hnext, hfree⟩ := h.unregister hfind
      rw [heq] at hs'
      obtain rfl : s'' = s' := (Prod.mk.inj (Option.some.inj hs')).1
      exact ⟨e, rfl, hnext.linked, hfree⟩
  unregister_fails _ := h.unregister_of_none

end Registry

/-- **A run** keeps the registry, and all its calls return. -/
theorem Registry.run {t : Devices × List Entry} (h : Registry t.1 t.2) {calls : List DeviceCall}
    (hcalls : ∀ call ∈ calls, call.ShortName) :
    Registry (run Devices.track t calls).1 (run Devices.track t calls).2 ∧
    ∀ answer ∈ trace Devices.track t calls, answer ≠ .endless := by
  induction calls generalizing t with
  | nil => exact ⟨h, by simp [trace]⟩
  | cons call calls ih =>
    obtain ⟨hnext, hanswer⟩ := h.step (hcalls call List.mem_cons_self)
    obtain ⟨hend, hrest⟩ := ih hnext fun c hc => hcalls c (List.mem_cons_of_mem call hc)
    refine ⟨hend, fun answer ha => ?_⟩
    rcases List.mem_cons.mp ha with rfl | ha
    · exact hanswer
    · exact hrest answer ha

/--
**The device registry.**

After `memory_init`, `device_init` and any registrations, unregistrations and page allocations, with
names that fit: every call has returned, and the devices that are registered, the last one first,
are what the list in memory goes through. Its nodes are different pages in use that `alloc_page`
does not give out; a search finds the last device registered that matches; and unregistering takes
out exactly that one and frees its page.
-/
theorem device_registry (s : Devices) (m : Memory) {calls : List DeviceCall}
    (hcalls : ∀ call ∈ calls, call.ShortName) :
    Laws (run Devices.track (bootDevices s m) calls).1
      (run Devices.track (bootDevices s m) calls).2 ∧
    ∀ answer ∈ trace Devices.track (bootDevices s m) calls, answer ≠ .endless := by
  obtain ⟨hend, hanswers⟩ := (registry_boot s m).run hcalls
  exact ⟨hend.laws, hanswers⟩

/-- Two devices of the same name, one of which is taken out again. -/
theorem device_registry_same_name :
    Laws (run Devices.track
        (bootDevices ⟨0, fun _ => default, ⟨Vector.replicate 32 0, 0⟩⟩
          ⟨⟨Vector.replicate 32 0, 0⟩, bootHeap⟩)
        [.register ⟨[0x61], by simp⟩ 2 1 0 0, .register ⟨[0x61], by simp⟩ 2 1 1 0, .allocPage,
          .unregister ⟨[0x61], by simp⟩]).1
      (run Devices.track
        (bootDevices ⟨0, fun _ => default, ⟨Vector.replicate 32 0, 0⟩⟩
          ⟨⟨Vector.replicate 32 0, 0⟩, bootHeap⟩)
        [.register ⟨[0x61], by simp⟩ 2 1 0 0, .register ⟨[0x61], by simp⟩ 2 1 1 0, .allocPage,
          .unregister ⟨[0x61], by simp⟩]).2 :=
  (device_registry _ _ (by simp [DeviceCall.ShortName])).1

end MinimalistOS
