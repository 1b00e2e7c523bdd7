import MinimalistOS.Properties.Device

/-!
# A device and its name

* `allocPage_eq_zero_iff` — when `alloc_page` has no page for a device
* `deviceFind_register`, `deviceUnregister_register` — a short name, right after the registration
* `deviceFind_register_ne` — a long name is stored cut, and nothing compares equal to it
* `device_round_trip_iff` — exactly which names can be found and taken out again

The registration keeps 31 bytes of a name. `device_find` and `device_unregister` compare the whole
name, so a device with a longer one stays in the list for good. Nothing here needs an invariant: the
device that was just registered is the first one of the list, whatever comes behind it.
-/

namespace MinimalistOS

open Infra
open PageSet

/-- What is promised of a registration that returns `0`: the device is found by its name, and
unregistering it gives the list and the bitmap of before. -/
structure Devices.RoundTrips (s : Devices) (name : CString) (type major minor ops : Word) :
    Prop where
  found : (deviceRegister s name type major minor ops).2 = 0 →
    deviceFind (deviceRegister s name type major minor ops).1 name = some (allocPage s.pages).2
  restored : (deviceRegister s name type major minor ops).2 = 0 →
    ∃ s', deviceUnregister (deviceRegister s name type major minor ops).1 name = some (s', 0) ∧
      s'.deviceList = s.deviceList ∧ s'.pages.pageBitmap = s.pages.pageBitmap

variable {s : Devices} {name : CString} {type major minor ops : Word}

/-! ## The page -/

/-- `alloc_page` returns `0` when no page is free, and when the first page of memory is. -/
theorem allocPage_eq_zero_iff (pages : PageAllocator) :
    (allocPage pages).2 = 0 ↔ freePages pages = ∅ ∨ 0 ∈ freePages pages := by
  rcases allocPage_cases pages with ⟨k, hleast, heq⟩ | ⟨hempty, heq⟩
  · have hne : freePages pages ≠ ∅ := Set.nonempty_iff_ne_empty.mp ⟨k, hleast.1⟩
    rw [heq, or_iff_right hne]
    constructor
    · intro hzero
      have hk := (toNat_pageAddr hleast.1.1).symm.trans (congrArg BitVec.toNat hzero)
      obtain rfl : k = 0 := (Nat.mul_eq_zero.mp hk).resolve_left (by decide)
      exact hleast.1
    · intro hfree
      obtain rfl : k = 0 := Nat.le_zero.mp (hleast.2 hfree)
      rfl
  · rw [heq]
    exact iff_of_true rfl (.inl hempty)

theorem deviceRegister_eq_zero_iff :
    (deviceRegister s name type major minor ops).2 = 0 ↔ (allocPage s.pages).2 ≠ 0 := by
  simp only [deviceRegister]
  by_cases hdev : (allocPage s.pages).2 = 0
  · rw [if_pos hdev]
    exact iff_of_false (by simp) (not_not.mpr hdev)
  · rw [if_neg hdev]
    exact iff_of_true rfl hdev

/-- What a registration that returns `0` leaves. -/
theorem deviceRegister_of_page (hdev : (allocPage s.pages).2 ≠ 0) :
    deviceRegister s name type major minor ops
      = ({ deviceList := (allocPage s.pages).2
           nodes := Function.update s.nodes (allocPage s.pages).2
             ((s.nodes (allocPage s.pages).2).fill name type major minor ops s.deviceList)
           pages := (allocPage s.pages).1 }, 0) := by
  simp only [deviceRegister]
  rw [if_neg hdev]

/-- Freeing the page that `alloc_page` gave clears the bit that it set. -/
theorem freePage_allocPage {pages : PageAllocator} (hdev : (allocPage pages).2 ≠ 0) :
    (freePage (allocPage pages).1 (allocPage pages).2).pageBitmap = pages.pageBitmap := by
  rcases allocPage_cases pages with ⟨k, hleast, heq⟩ | ⟨-, heq⟩
  · rw [heq, freePage_pageAddr _ hleast.1.1]
    exact Bitmap.erase_insert hleast.1.1 hleast.1.2
  · rw [heq] at hdev
    exact absurd rfl hdev

/-! ## The name -/

/-- The node of the new device compares equal to the names that are not cut, and to no other. -/
theorem isNamed_register (hdev : (allocPage s.pages).2 ≠ 0) :
    (deviceRegister s name type major minor ops).1.isNamed name (allocPage s.pages).2
      = decide (name.bytes.length ≤ 31) := by
  have hstored := CString.ofArray_strncpy (s.nodes (allocPage s.pages).2).name name
    (show 31 < 32 by decide)
  unfold CString.ofArray at hstored
  rw [deviceRegister_of_page hdev, Bool.eq_iff_iff, decide_eq_true_eq, Devices.isNamed, beq_iff_eq,
    strcmp_eq_zero, CString.ofBytes_bytes]
  dsimp only
  rw [Function.update_self, Device.fill, hstored, CString.truncate_eq_self]

theorem isNamed_of_short (hdev : (allocPage s.pages).2 ≠ 0) (hname : name.bytes.length ≤ 31) :
    (deviceRegister s name type major minor ops).1.isNamed name (allocPage s.pages).2 = true := by
  rw [isNamed_register hdev, decide_eq_true hname]

theorem deviceList_register (hdev : (allocPage s.pages).2 ≠ 0) :
    (deviceRegister s name type major minor ops).1.deviceList = (allocPage s.pages).2 := by
  rw [deviceRegister_of_page hdev]

theorem deviceFind_register (hdev : (allocPage s.pages).2 ≠ 0) (hname : name.bytes.length ≤ 31) :
    deviceFind (deviceRegister s name type major minor ops).1 name
      = some (allocPage s.pages).2 := by
  unfold deviceFind totalPages
  rw [deviceList_register hdev, walkTo, if_neg hdev, if_pos (isNamed_of_short hdev hname)]

theorem deviceUnregister_register (hdev : (allocPage s.pages).2 ≠ 0)
    (hname : name.bytes.length ≤ 31) :
    ∃ s', deviceUnregister (deviceRegister s name type major minor ops).1 name = some (s', 0) ∧
      s'.deviceList = s.deviceList ∧ s'.pages.pageBitmap = s.pages.pageBitmap := by
  refine ⟨(deviceRegister s name type major minor ops).1.remove 0 (allocPage s.pages).2, ?_, ?_, ?_⟩
  · unfold deviceUnregister totalPages
    rw [deviceList_register hdev, walkPrev, if_neg hdev, if_pos (isNamed_of_short hdev hname)]
    simp only [if_neg hdev]
  · rw [deviceRegister_of_page hdev]
    simp [Devices.remove, Devices.next, Device.fill]
  · rw [deviceRegister_of_page hdev]
    exact freePage_allocPage hdev

/-- With a longer name the device is not the one that is found. -/
theorem deviceFind_register_ne (hdev : (allocPage s.pages).2 ≠ 0)
    (hname : ¬ name.bytes.length ≤ 31) :
    deviceFind (deviceRegister s name type major minor ops).1 name
      ≠ some (allocPage s.pages).2 := by
  intro hfind
  have htested := walkTo_some hdev hfind
  rw [isNamed_register hdev, decide_eq_true_eq] at htested
  exact hname htested

/-! ## The round trip -/

/--
**A device can be found and removed exactly when its name is at most 31 bytes long.**

In any state of the registry and of the page allocator, for any name: a registration either fails,
because there is no page for it, or the device is found by its name and can be taken out again,
which restores the list and the bitmap, if and only if the name is not cut.
-/
theorem device_round_trip_iff (s : Devices) (name : CString) (type major minor ops : Word) :
    s.RoundTrips name type major minor ops ↔
      name.bytes.length ≤ 31 ∨ freePages s.pages = ∅ ∨ 0 ∈ freePages s.pages := by
  rw [← allocPage_eq_zero_iff]
  by_cases hdev : (allocPage s.pages).2 = 0
  · have hfails : (deviceRegister s name type major minor ops).2 ≠ 0 :=
      fun hret => deviceRegister_eq_zero_iff.mp hret hdev
    exact iff_of_true ⟨fun hret => absurd hret hfails, fun hret => absurd hret hfails⟩ (.inr hdev)
  · rw [or_iff_left hdev]
    constructor
    · intro htrips
      by_contra hlong
      exact deviceFind_register_ne hdev hlong (htrips.found (deviceRegister_eq_zero_iff.mpr hdev))
    · intro hname
      exact ⟨fun _ => deviceFind_register hdev hname,
        fun _ => deviceUnregister_register hdev hname⟩

/-- Thirty-two letters `a`. -/
def thirtyTwoLetters : CString := ⟨List.replicate 32 0x61, by simp⟩

/-- After the initialisation a device with a name of 32 bytes is registered, and cannot be found. -/
theorem device_long_name_lost :
    (deviceRegister (bootDevices ⟨0, fun _ => default, ⟨Vector.replicate 32 0, 0⟩⟩
        ⟨⟨Vector.replicate 32 0, 0⟩, bootHeap⟩).1 thirtyTwoLetters 2 1 0 0).2 = 0 ∧
      ¬ (bootDevices ⟨0, fun _ => default, ⟨Vector.replicate 32 0, 0⟩⟩
        ⟨⟨Vector.replicate 32 0, 0⟩, bootHeap⟩).1.RoundTrips thirtyTwoLetters 2 1 0 0 := by
  have hused : Bitmap.mem (memoryInit ⟨⟨Vector.replicate 32 0, 0⟩, bootHeap⟩).pages.pageBitmap 0
      = true := by simp [mem_memoryInit]
  have hfree : Bitmap.mem (memoryInit ⟨⟨Vector.replicate 32 0, 0⟩, bootHeap⟩).pages.pageBitmap 256
      = false := by simp [mem_memoryInit]
  have hdev : (allocPage (bootDevices ⟨0, fun _ => default, ⟨Vector.replicate 32 0, 0⟩⟩
      ⟨⟨Vector.replicate 32 0, 0⟩, bootHeap⟩).1.pages).2 ≠ 0 := by
    rw [Ne, allocPage_eq_zero_iff]
    rintro (hempty | ⟨-, hzero⟩)
    · exact Set.notMem_empty 256 (hempty ▸ ⟨by decide, hfree⟩)
    · exact Bool.false_ne_true (hzero.symm.trans hused)
  have hret : (deviceRegister (bootDevices ⟨0, fun _ => default, ⟨Vector.replicate 32 0, 0⟩⟩
      ⟨⟨Vector.replicate 32 0, 0⟩, bootHeap⟩).1 thirtyTwoLetters 2 1 0 0).2 = 0 :=
    deviceRegister_eq_zero_iff.mpr hdev
  exact ⟨hret, fun htrips =>
    deviceFind_register_ne hdev (by simp [thirtyTwoLetters]) (htrips.found hret)⟩

end MinimalistOS
