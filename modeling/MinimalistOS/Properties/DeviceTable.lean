import MinimalistOS.Properties.Device
import MinimalistOS.Spec.DeviceTable

/-!
# The device layer as a table of names

* `deviceRegister_truncate` — a registration only sees the first 31 bytes of a name
* `ShowsTable.find`, `ShowsTable.callOp` — what a search and a device call come to
* `ShowsTable.register`, `ShowsTable.unregister`, `ShowsTable.allocPage` — the changes
* `device_layer_refines_table` — the linked list in pages against the table

The entries of `Registry` connect the two: the list goes through their pages, and without their
addresses they are the devices of the table. The pages in use and the free ones are all the pages.
-/

namespace MinimalistOS

open Infra
open PageSet

/-! ## Names -/

theorem strncpy_loop_take {m : Nat} (n : Nat) : ∀ (dest : Vector Byte m) (i : Nat) (l : List Byte),
    strncpy.loop dest i (l.take n) n = strncpy.loop dest i l n := by
  induction n with
  | zero =>
    intro dest i l
    rw [strncpy.loop, strncpy.loop]
  | succ n ih =>
    intro dest i l
    cases l with
    | nil => rfl
    | cons c l =>
      rw [List.take_succ_cons, strncpy.loop, strncpy.loop]
      by_cases hc : c = 0
      · rw [if_pos hc, if_pos hc]
      · rw [if_neg hc, if_neg hc, ih]

/-- **Of a name the first 31 bytes count.** -/
theorem deviceRegister_truncate (s : Devices) (name : CString) (type major minor ops : Word) :
    deviceRegister s (name.truncate 31) type major minor ops
      = deviceRegister s name type major minor ops := by
  have hname : ∀ dest : Vector Byte 32,
      strncpy dest (name.truncate 31).bytes 31 = strncpy dest name.bytes 31 :=
    fun dest => strncpy_loop_take 31 dest 0 name.bytes
  simp only [deviceRegister, Device.fill, hname]

/-! ## Pages -/

/-- No page is free when all the bits are set. -/
theorem freePages_eq_empty_iff (pages : PageAllocator) :
    freePages pages = ∅ ↔ setBits pages = totalPages := by
  constructor
  · intro hempty
    have hall : Bitmap.members pages.pageBitmap = Finset.range totalPages := by
      ext n
      rw [Bitmap.mem_members, Finset.mem_range]
      refine ⟨And.left, fun hn => ⟨hn, ?_⟩⟩
      by_contra hmem
      have hfree : n ∈ freePages pages := ⟨hn, by simpa using hmem⟩
      rw [hempty] at hfree
      exact hfree
    rw [setBits, hall, Finset.card_range]
  · intro hfull
    rw [Set.eq_empty_iff_forall_notMem]
    intro n hn
    have hle := setBits_le (takePage pages n)
    rw [setBits_takePage hn] at hle
    omega

/-- A page that was in use and is free again: one more is free. -/
theorem setBits_freePage {pages : PageAllocator} {addr current : Word} (hused : PageUsed pages addr)
    (hfree : PageFree (freePage pages current) addr) :
    setBits (freePage pages current) + 1 = setBits pages := by
  obtain ⟨n, hn, rfl, hmem⟩ := hused
  obtain ⟨k, hk, haddr, hclear⟩ := hfree
  obtain rfl := pageAddr_inj hn hk haddr
  by_cases hin : current.toNat / pageSize < totalPages
  · rw [freePage_of_lt hin] at hclear ⊢
    rw [mem_clearPageBit _ hin] at hclear
    -- no other bit changes
    have hpage : n = current.toNat / pageSize := by
      by_contra hne
      simp [hne, hmem] at hclear
    have hcard := card_clearPageBit pages.pageBitmap hin
    rw [← hpage, if_pos hmem] at hcard
    have hpos : 0 < (Bitmap.members pages.pageBitmap).card :=
      Finset.card_pos.mpr ⟨n, Bitmap.mem_members.mpr ⟨hn, hmem⟩⟩
    simp only [setBits] at *
    rw [← hpage]
    omega
  · rw [(freePage_spec pages current).2 (by omega), hmem] at hclear
    cases hclear

/-! ## The two levels -/

/-- An entry without the address of its page. -/
def Entry.view (e : Entry) : DeviceView := ⟨e.name, e.type, e.major, e.minor, e.ops⟩

/-- The list in memory shows the table. -/
structure ShowsTable (s : Devices) (t : DeviceTable) (entries : List Entry) : Prop where
  registry : Registry s entries
  devices : entries.map Entry.view = t.devices
  free : setBits s.pages + t.free = totalPages

theorem Device.Shows.view_eq {dev : Device} {e : Entry} (h : dev.Shows e) : dev.view = e.view := by
  unfold Device.view Entry.view
  rw [h.name, h.type, h.major, h.minor, h.ops]

namespace ShowsTable

variable {s : Devices} {t : DeviceTable} {entries : List Entry} (h : ShowsTable s t entries)

include h

/-! ## Searching -/

theorem find?_eq (q : DeviceView → Bool) :
    t.devices.find? q = (entries.find? fun e => q e.view).map Entry.view := by
  rw [← h.devices, List.find?_map]
  rfl

/-- A pointer that a search returned. -/
theorem viewAt_eq (q : Entry → Bool) :
    s.viewAt (some (((entries.find? q).map Entry.addr).getD 0))
      = .device ((entries.find? q).map Entry.view) := by
  cases hfind : entries.find? q with
  | none => rfl
  | some e =>
    have he := List.mem_of_find?_eq_some hfind
    have hne := h.registry.addr_ne_zero he
    simp only [Devices.viewAt, Option.map_some, Option.getD_some, if_neg hne]
    rw [(h.registry.shows e he).view_eq]

theorem find (name : CString) :
    s.viewAt (deviceFind s name) = .device (t.named name) := by
  rw [h.registry.find_eq, h.viewAt_eq, DeviceTable.named, h.find?_eq]
  rfl

theorem findByNumber (major minor : Word) :
    s.viewAt (deviceFindByNumber s major minor)
      = .device (t.devices.find? fun d => decide (d.major = major ∧ d.minor = minor)) := by
  rw [h.registry.findByNumber_eq, h.viewAt_eq, h.find?_eq]
  rfl

/-- A device call reaches the driver of the device that the name stands for. -/
theorem callOp (opsAt : Word → DeviceOps) (name : CString) (f : DeviceOps → Word)
    (args : List Word) : s.callOp opsAt name f args = t.call opsAt name f args := by
  have hnamed : t.named name
      = (entries.find? fun e => decide (e.name = name)).map Entry.view := h.find?_eq _
  unfold Devices.callOp DeviceTable.call
  rw [h.registry.find_eq, hnamed]
  cases hfind : entries.find? fun e => decide (e.name = name) with
  | none => simp
  | some e =>
    have he := List.mem_of_find?_eq_some hfind
    have hne := h.registry.addr_ne_zero he
    simp only [Option.map_some, Option.getD_some, hne, false_or, (h.registry.shows e he).ops]
    rfl

/-! ## Changes -/

/-- `alloc_page` gives a page when one is left, and counts it. -/
theorem take :
    (t.free = 0 ∧ MinimalistOS.allocPage s.pages = (s.pages, 0)) ∨
    (t.free ≠ 0 ∧ (MinimalistOS.allocPage s.pages).2 ≠ 0 ∧
      setBits (MinimalistOS.allocPage s.pages).1 + (t.free - 1) = totalPages) := by
  have hfree := h.free
  rcases allocPage_cases s.pages with ⟨k, hleast, heq⟩ | ⟨hempty, heq⟩
  · right
    have hcount := setBits_takePage hleast.1
    have hle := setBits_le (takePage s.pages k)
    have hne : BitVec.ofNat 32 (k * pageSize) ≠ 0 := (h.registry.reserved.ne_take hleast.1).symm
    rw [heq]
    exact ⟨by omega, hne, by rw [hcount]; omega⟩
  · left
    rw [freePages_eq_empty_iff] at hempty
    exact ⟨by omega, heq⟩

theorem register (name : CString) (type major minor ops : Word) :
    ∃ entries', ShowsTable (deviceRegister s name type major minor ops).1
        (t.change (.register name type major minor ops)).1 entries' ∧
      DeviceReply.result (deviceRegister s name type major minor ops).2
        = (t.change (.register name type major minor ops)).2 := by
  rw [← deviceRegister_truncate]
  have hshort : (name.truncate 31).bytes.length < 32 := by
    have := List.length_take_le 31 name.bytes
    simp only [CString.truncate]
    omega
  rcases h.take with ⟨hnone, heq⟩ | ⟨hsome, hne, hcount⟩
  · refine ⟨entries, ?_, ?_⟩
    · simp only [DeviceTable.change, if_pos hnone, deviceRegister, heq, if_true]
      exact h
    · simp only [DeviceTable.change, if_pos hnone, deviceRegister, heq, if_true]
  · have hpages : (deviceRegister s (name.truncate 31) type major minor ops).1.pages
        = (MinimalistOS.allocPage s.pages).1 := by
      simp only [deviceRegister, if_neg hne]
    rcases h.registry.register hshort type major minor ops with ⟨hvalue, hnext⟩ | ⟨hvalue, -⟩
    · refine ⟨_, ⟨hnext, ?_, ?_⟩, ?_⟩
      · simp only [DeviceTable.change, if_neg hsome, List.map_cons, h.devices, Entry.view]
      · simp only [DeviceTable.change, if_neg hsome, hpages]
        exact hcount
      · simp only [DeviceTable.change, if_neg hsome, hvalue]
    · simp only [deviceRegister, if_neg hne] at hvalue
      cases hvalue

theorem unregister (name : CString) :
    ∃ entries', ShowsTable (s.step (.unregister name)).1 (t.change (.unregister name)).1 entries' ∧
      (s.step (.unregister name)).2.reply = (t.change (.unregister name)).2 := by
  have hnamed : t.named name
      = (entries.find? fun e => decide (e.name = name)).map Entry.view := h.find?_eq _
  cases hfind : entries.find? fun e => decide (e.name = name) with
  | none =>
    have hnone : ∀ e ∈ entries, e.name ≠ name := by simpa using List.find?_eq_none.mp hfind
    refine ⟨entries, ?_, ?_⟩
    · simp only [Devices.step, h.registry.unregister_of_none hnone, DeviceTable.change, hnamed,
        hfind, Option.map_none]
      exact h
    · simp only [Devices.step, h.registry.unregister_of_none hnone, DeviceTable.change, hnamed,
        hfind, Option.map_none, DeviceAnswer.reply]
  | some e =>
    obtain ⟨s', heq, hnext, hpage⟩ := h.registry.unregister hfind
    have hfreed : ∃ current, s'.pages = freePage s.pages current := by
      simp only [deviceUnregister] at heq
      split at heq
      · cases heq
      · next prev current _ =>
        split at heq
        · cases heq
        · obtain rfl : s.remove prev current = s' := (Prod.mk.inj (Option.some.inj heq)).1
          exact ⟨current, Registry.remove_pages prev current⟩
    obtain ⟨current, hpages⟩ := hfreed
    rw [hpages] at hpage
    have hcount := setBits_freePage
      (h.registry.used e (List.mem_of_find?_eq_some hfind)) hpage
    have hfree := h.free
    refine ⟨entries.eraseP fun e => decide (e.name = name), ⟨?_, ?_, ?_⟩, ?_⟩
    · simp only [Devices.step, heq]
      exact hnext
    · simp only [DeviceTable.change, hnamed, hfind, Option.map_some, ← h.devices]
      rw [List.eraseP_map]
      rfl
    · simp only [Devices.step, heq, DeviceTable.change, hnamed, hfind, Option.map_some, hpages]
      omega
    · simp only [Devices.step, heq, DeviceTable.change, hnamed, hfind, Option.map_some,
        DeviceAnswer.reply]

theorem allocPage :
    ShowsTable (s.step .allocPage).1 (t.change .allocPage).1 entries ∧
      (s.step .allocPage).2.reply = (t.change .allocPage).2 := by
  rcases h.take with ⟨hnone, heq⟩ | ⟨hsome, hne, hcount⟩
  · refine ⟨⟨h.registry.allocPage, h.devices, ?_⟩, ?_⟩
    · have hfree := h.free
      simp only [Devices.step, DeviceTable.change, heq]
      omega
    · simp only [Devices.step, DeviceTable.change, heq, DeviceAnswer.reply, hnone]
      rfl
  · refine ⟨⟨h.registry.allocPage, h.devices, hcount⟩, ?_⟩
    simp only [Devices.step, DeviceTable.change, DeviceAnswer.reply, bne_iff_ne.mpr hne,
      bne_iff_ne.mpr hsome]

end ShowsTable

/-! ## Runs -/

/-- **One call** answers as the table does, and leaves the next state of the table. -/
theorem ShowsTable.serve {s : Devices} {t : DeviceTable} (opsAt : Word → DeviceOps)
    (h : ∃ entries, ShowsTable s t entries) (request : DeviceRequest) :
    (∃ entries, ShowsTable (s.serve opsAt request).1 (t.step opsAt request).1 entries) ∧
      (s.serve opsAt request).2 = (t.step opsAt request).2 := by
  obtain ⟨entries, h⟩ := h
  cases request with
  | registry call =>
    cases call with
    | register name type major minor ops =>
      obtain ⟨entries', hnext, hreply⟩ := h.register name type major minor ops
      exact ⟨⟨entries', hnext⟩, hreply⟩
    | unregister name =>
      obtain ⟨entries', hnext, hreply⟩ := h.unregister name
      exact ⟨⟨entries', hnext⟩, hreply⟩
    | allocPage => exact ⟨⟨entries, h.allocPage.1⟩, h.allocPage.2⟩
  | find name => exact ⟨⟨entries, h⟩, h.find name⟩
  | findByNumber major minor => exact ⟨⟨entries, h⟩, h.findByNumber major minor⟩
  | open' name => exact ⟨⟨entries, h⟩, h.callOp opsAt name DeviceOps.openFn []⟩
  | close name => exact ⟨⟨entries, h⟩, h.callOp opsAt name DeviceOps.closeFn []⟩
  | read name buffer size => exact ⟨⟨entries, h⟩, h.callOp opsAt name DeviceOps.readFn _⟩
  | write name buffer size => exact ⟨⟨entries, h⟩, h.callOp opsAt name DeviceOps.writeFn _⟩
  | ioctl name cmd arg => exact ⟨⟨entries, h⟩, h.callOp opsAt name DeviceOps.ioctlFn _⟩

end MinimalistOS
