import MinimalistOS.Kernel.Paging

/-!
# Paging

* `Windows` — the directory as `paging_init` leaves it: two entries, both for the one table
* `Windows.walk_eq` — the translation is then that of the table, in two windows of 4 MiB
* `map_page_translates_iff` — `map_page` establishes a translation in the windows, and nowhere else
* `kernel_windows` — any sequence of calls in the windows

`map_page` takes the address of the table out of the directory entry without looking at its
present bit. Outside the windows the entry is zero, and so is the address of the table: the new
entry is written into the page at address `0`, and the translation stays undefined.
-/

namespace MinimalistOS

open Infra Paging

/-! ## What `paging_init` leaves -/

/-- A page of zeros, seen from the entries of a table. -/
theorem entry_memset (m : Mem) {page table j : Word} (hp : Aligned page) (ht : Aligned table)
    (hj : j.toNat < 1024) :
    entry (memset m page 0 4096) table j = if table = page then 0 else entry m table j := by
  have haddr := toNat_entryAddr ht hj
  have hlt := page.isLt
  unfold Aligned at hp ht
  -- the four bytes of the entry are in the page or outside it together
  have hbyte : ∀ c : Word, c.toNat < 4 →
      ((table + 4 * j + c - page).toNat < 4096 ↔ table = page) := by
    intro c hc
    have hsum : (table + 4 * j + c).toNat = table.toNat + 4 * j.toNat + c.toNat := by
      have hlt' := table.isLt
      rw [BitVec.toNat_add, haddr, Nat.mod_eq_of_lt (by omega)]
    rw [BitVec.toNat_sub, hsum]
    constructor
    · intro hin
      exact BitVec.eq_of_toNat_eq (by omega)
    · intro heq
      rw [heq]
      omega
  have h0 := hbyte 0 (by decide)
  rw [show table + 4 * j + 0 = table + 4 * j from BitVec.add_zero _] at h0
  simp only [entry, Mem.read32, memset_apply 0 4096 (by decide), h0, hbyte 1 (by decide),
    hbyte 2 (by decide), hbyte 3 (by decide)]
  by_cases heq : table = page
  · simp only [if_pos heq]
    rfl
  · simp only [if_neg heq]

/-- The loop writes the entries from `i` to `i + n`. -/
theorem entry_fillTable {table table' : Word} (ht : Aligned table) (ht' : Aligned table')
    {j : Word} (hj : j.toNat < 1024) (n : Nat) : ∀ (i : Nat) (m : Mem), i + n ≤ 1024 →
    entry (fillTable table m i n) table' j
      = if table' = table ∧ i ≤ j.toNat ∧ j.toNat < i + n then identityEntry j.toNat
        else entry m table' j := by
  induction n with
  | zero =>
    intro i m _
    rw [fillTable, if_neg (by omega)]
  | succ n ih =>
    intro i m hle
    have hi : (BitVec.ofNat 32 i).toNat = i := by
      rw [BitVec.toNat_ofNat, Nat.mod_eq_of_lt (by omega)]
    have hij : j = BitVec.ofNat 32 i ↔ j.toNat = i := by
      rw [← BitVec.toNat_inj, hi]
    rw [fillTable, ih (i + 1) _ (by omega), entry_write32 ht ht' (by omega) hj]
    by_cases htable : table' = table
    · by_cases hhere : j.toNat = i
      · rw [if_neg (by omega), if_pos ⟨htable, hij.mpr hhere⟩, if_pos ⟨htable, by omega⟩, hhere]
      · rw [if_neg (c := table' = table ∧ j = BitVec.ofNat 32 i) fun h => hhere (hij.mp h.2)]
        by_cases hin : i + 1 ≤ j.toNat ∧ j.toNat < i + 1 + n
        · rw [if_pos ⟨htable, hin⟩, if_pos ⟨htable, by omega⟩]
        · rw [if_neg (fun h => hin h.2), if_neg (by omega)]
    · rw [if_neg (fun h => htable h.1), if_neg (fun h => htable h.1),
        if_neg (fun h => htable h.1)]

/-- The directory has the two entries of `paging_init` and no others. -/
def Windows (k : KernelTables) (m : Mem) : Prop :=
  ∀ i : Word, i.toNat < 1024 →
    entry m k.directory i = if i = 0 ∨ i = 768 then k.directoryEntry else 0

theorem windows_pagingInit (k : KernelTables) (m : Mem) : Windows k (pagingInit k m) := by
  intro i hi
  have hd := k.directory_aligned
  have ht := k.table_aligned
  have hne := k.directory_ne_table
  have hcleared : entry (fillTable k.table
      (memset (memset m k.directory 0 4096) k.table 0 4096) 0 1024) k.directory i = 0 := by
    rw [entry_fillTable ht hd hi 1024 0 _ (by omega), if_neg (fun h => hne h.1),
      entry_memset _ ht hd hi, if_neg hne, entry_memset _ hd hd hi, if_pos rfl]
  simp only [pagingInit]
  rw [entry_write32 hd hd (by decide) hi, entry_write32 hd hd (by decide) hi, hcleared]
  by_cases h768 : i = 768
  · rw [if_pos ⟨rfl, h768⟩, if_pos (Or.inr h768)]
  · rw [if_neg (fun h => h768 h.2)]
    by_cases h0 : i = 0
    · rw [if_pos ⟨rfl, h0⟩, if_pos (Or.inl h0)]
    · rw [if_neg (fun h => h0 h.2), if_neg (not_or.mpr ⟨h0, h768⟩)]

/-- The table maps every page to itself. -/
theorem table_pagingInit (k : KernelTables) (m : Mem) {i : Word} (hi : i.toNat < 1024) :
    entry (pagingInit k m) k.table i = identityEntry i.toNat := by
  have hd := k.directory_aligned
  have ht := k.table_aligned
  have hne := k.directory_ne_table
  simp only [pagingInit]
  rw [entry_write32 hd ht (by decide) hi, if_neg (fun h => hne h.1.symm),
    entry_write32 hd ht (by decide) hi, if_neg (fun h => hne h.1.symm),
    entry_fillTable ht ht hi 1024 0 _ (by omega), if_pos ⟨rfl, by omega⟩]

/-! ## The translation -/

/-- The address is in `[0, 4 MiB)` or in `[0xC0000000, 0xC0000000 + 4 MiB)`. -/
def InWindow (v : Word) : Prop :=
  v.toNat < 2 ^ 22 ∨ (0xC0000000 ≤ v.toNat ∧ v.toNat < 0xC0000000 + 2 ^ 22)

instance (v : Word) : Decidable (InWindow v) := inferInstanceAs (Decidable (_ ∨ _ ∧ _))

theorem inWindow_iff (v : Word) : dirIndex v = 0 ∨ dirIndex v = 768 ↔ InWindow v := by
  have hdir := toNat_dirIndex v
  rw [← BitVec.toNat_inj, ← BitVec.toNat_inj, hdir]
  show v.toNat / 2 ^ 22 = 0 ∨ v.toNat / 2 ^ 22 = 768 ↔ _
  unfold InWindow
  omega

/-- What a table entry makes of an address. -/
def translate (e v : Word) : Option Word :=
  if present e then some (frame e + offset v) else none

theorem frame_directoryEntry (k : KernelTables) : frame k.directoryEntry = k.table := by
  rw [KernelTables.directoryEntry, BitVec.or_assoc]
  exact frame_or k.table_aligned (by decide)

theorem present_directoryEntry (k : KernelTables) : present k.directoryEntry = true := by
  rw [KernelTables.directoryEntry, BitVec.or_assoc, present_or k.table_aligned]
  rfl

/-- **The translation is that of the table, in the two windows.** -/
theorem Windows.walk_eq {k : KernelTables} {m : Mem} (h : Windows k m) (v : Word) :
    walk m k.directory v
      = if InWindow v then translate (entry m k.table (tableIndex v)) v else none := by
  have hpde := h (dirIndex v) (dirIndex_lt v)
  by_cases hin : InWindow v
  · rw [if_pos ((inWindow_iff v).mpr hin)] at hpde
    simp only [walk, hpde, present_directoryEntry, frame_directoryEntry, if_pos hin, if_true]
    rfl
  · rw [if_neg (mt (inWindow_iff v).mp hin)] at hpde
    simp only [walk, hpde, if_neg hin]
    rfl

/-- The directory and the table as `paging_init` leaves them, whatever the rest of memory holds. -/
structure BootTables (k : KernelTables) (m : Mem) : Prop where
  windows : Windows k m
  table : ∀ i : Word, i.toNat < 1024 → entry m k.table i = identityEntry i.toNat

theorem bootTables_pagingInit (k : KernelTables) (m : Mem) : BootTables k (pagingInit k m) :=
  ⟨windows_pagingInit k m, fun _ hi => table_pagingInit k m hi⟩

/-- A page of identity-mapped memory, translated. -/
theorem BootTables.walk_eq {k : KernelTables} {m : Mem} (h : BootTables k m) {v : Word}
    (hv : v.toNat < 2 ^ 22) : walk m k.directory v = some v := by
  have hindex := toNat_tableIndex v
  have hoffset := toNat_offset v
  have haligned : Aligned (BitVec.ofNat 32 ((tableIndex v).toNat * 4096)) := by
    unfold Aligned
    rw [BitVec.toNat_ofNat]
    omega
  have hin : InWindow v := Or.inl hv
  rw [h.windows.walk_eq, if_pos hin, h.table _ (tableIndex_lt v)]
  unfold translate identityEntry
  rw [BitVec.or_assoc, present_or haligned, frame_or haligned (by decide)]
  show some _ = _
  congr 1
  apply BitVec.eq_of_toNat_eq
  rw [BitVec.toNat_add, BitVec.toNat_ofNat, hindex, hoffset]
  omega

/-! ## The operations -/

/-- The pages that hold the directory and the table are mapped to themselves. -/
structure Identity (k : KernelTables) (m : Mem) : Prop where
  directory : walk m k.directory k.directory = some k.directory
  table : walk m k.directory k.table = some k.table

theorem BootTables.identity {k : KernelTables} {m : Mem} (h : BootTables k m) : Identity k m where
  directory := h.walk_eq k.directory_low
  table := h.walk_eq k.table_low

theorem identity_pagingInit (k : KernelTables) (m : Mem) : Identity k (pagingInit k m) :=
  (bootTables_pagingInit k m).identity

theorem toNat_four_mul {i : Word} (hi : i.toNat < 1024) : (4 * i).toNat < 4096 := by
  rw [BitVec.toNat_mul]
  show 4 * i.toNat % 2 ^ 32 < 4096
  omega

/-- A store outside the directory leaves it alone. -/
theorem Windows.write {k : KernelTables} {m : Mem} (h : Windows k m) {table i : Word}
    (ht : Aligned table) (hne : table ≠ k.directory) (hi : i.toNat < 1024) (x : Word) :
    Windows k (m.write32 (table + 4 * i) x) := by
  intro j hj
  rw [entry_write32 ht k.directory_aligned hi hj, if_neg fun heq => hne heq.1.symm]
  exact h j hj

/-- The pointer that `map_page` takes out of the directory: outside the windows it is null. -/
theorem pageTableOf_eq {k : KernelTables} {m : Mem} (h : Windows k m) (hid : Identity k m)
    (v : Word) : pageTableOf k m v = some (if InWindow v then k.table else 0) := by
  have hwalk := walk_add k.directory_aligned (toNat_four_mul (dirIndex_lt v)) hid.directory
  have hpde := h (dirIndex v) (dirIndex_lt v)
  unfold pageTableOf load
  rw [hwalk, Option.map_some, Option.map_some]
  show some (frame (entry m k.directory (dirIndex v))) = _
  rw [hpde]
  by_cases hin : InWindow v
  · rw [if_pos ((inWindow_iff v).mpr hin), if_pos hin, frame_directoryEntry]
  · rw [if_neg (mt (inWindow_iff v).mp hin), if_neg hin]
    rfl

section InWindow

variable {k : KernelTables} {m : Mem} (h : Windows k m) (hid : Identity k m) {v : Word}
  (hv : InWindow v)

include h hid hv

/-- `map_page` in the windows writes the entry of the table. -/
theorem mapPage_eq (physAddr flags : Word) :
    mapPage k m v physAddr flags
      = some (m.write32 (k.table + 4 * tableIndex v) (physAddr ||| flags)) := by
  have hwalk := walk_add k.table_aligned (toNat_four_mul (tableIndex_lt v)) hid.table
  unfold mapPage store
  rw [pageTableOf_eq h hid, if_pos hv, Option.bind_some, hwalk, Option.map_some]

theorem unmapPage_eq :
    unmapPage k m v = some (m.write32 (k.table + 4 * tableIndex v) 0) := by
  have hwalk := walk_add k.table_aligned (toNat_four_mul (tableIndex_lt v)) hid.table
  unfold unmapPage store
  rw [pageTableOf_eq h hid, if_pos hv, Option.bind_some, hwalk, Option.map_some]

/-- `get_phys_addr` in the windows reads it. -/
theorem getPhysAddr_eq :
    getPhysAddr k m v = some (frame (entry m k.table (tableIndex v)) + offset v) := by
  have hwalk := walk_add k.table_aligned (toNat_four_mul (tableIndex_lt v)) hid.table
  unfold getPhysAddr load
  rw [pageTableOf_eq h hid, if_pos hv, Option.bind_some, hwalk, Option.map_some, Option.map_some]
  rfl

end InWindow

/-- Arguments of `map_page`: a page and flags that contain `PAGE_PRESENT`. -/
structure Mappable (physAddr flags : Word) : Prop where
  aligned : Aligned physAddr
  low : flags.toNat < 4096
  present : present flags = true

/-- What a new entry makes of an address. -/
theorem Mappable.translate {physAddr flags : Word} (h : Mappable physAddr flags) (v : Word) :
    translate (physAddr ||| flags) v = some (physAddr + offset v) := by
  unfold MinimalistOS.translate
  rw [present_or h.aligned, frame_or h.aligned h.low, if_pos h.present]

theorem aligned_zero : Aligned 0 := rfl

theorem KernelTables.zero_ne_directory (k : KernelTables) : (0 : Word) ≠ k.directory := by
  intro heq
  have hpos := k.directory_pos
  rw [← heq] at hpos
  exact Nat.lt_irrefl 0 hpos

theorem KernelTables.zero_ne_table (k : KernelTables) : (0 : Word) ≠ k.table := by
  intro heq
  have hpos := k.table_pos
  rw [← heq] at hpos
  exact Nat.lt_irrefl 0 hpos

/-- Outside the windows the entry goes to the page at address `0`. -/
theorem mapPage_null {k : KernelTables} {m : Mem} (h : BootTables k m) {v : Word}
    (hv : ¬ InWindow v) (physAddr flags : Word) :
    mapPage k m v physAddr flags
      = some (m.write32 (0 + 4 * tableIndex v) (physAddr ||| flags)) := by
  have hlow : ((0 : Word) + 4 * tableIndex v).toNat < 2 ^ 22 := by
    have hlt := tableIndex_lt v
    rw [toNat_entryAddr aligned_zero hlt]
    show 0 + 4 * (tableIndex v).toNat < 2 ^ 22
    omega
  unfold mapPage store
  rw [pageTableOf_eq h.windows h.identity, if_neg hv, Option.bind_some, h.walk_eq hlow,
    Option.map_some]

/-- A store to the page at address `0` leaves the directory and the table as they are. -/
theorem BootTables.write_null {k : KernelTables} {m : Mem} (h : BootTables k m) {i : Word}
    (hi : i.toNat < 1024) (x : Word) : BootTables k (m.write32 (0 + 4 * i) x) where
  windows := h.windows.write aligned_zero k.zero_ne_directory hi x
  table := by
    intro j hj
    rw [entry_write32 aligned_zero k.table_aligned hi hj,
      if_neg fun heq => k.zero_ne_table heq.1.symm]
    exact h.table j hj

/-- Where the tables are as `paging_init` left them, so are the translations. -/
theorem BootTables.walk_congr {k : KernelTables} {m m' : Mem} (h : BootTables k m)
    (h' : BootTables k m') (v : Word) : walk m k.directory v = walk m' k.directory v := by
  rw [h.windows.walk_eq, h'.windows.walk_eq, h.table _ (tableIndex_lt v),
    h'.table _ (tableIndex_lt v)]

/-- Outside the windows the translation stays undefined. -/
theorem mapPage_outside {k : KernelTables} {m m' : Mem} {v physAddr flags : Word}
    (hv : ¬ InWindow v) (hmap : mapPage k (pagingInit k m) v physAddr flags = some m') :
    walk m' k.directory v = none := by
  have hboot := bootTables_pagingInit k m
  rw [mapPage_null hboot hv] at hmap
  have hboot' := hboot.write_null (tableIndex_lt v) (physAddr ||| flags)
  rw [← Option.some.inj hmap, hboot'.windows.walk_eq, if_neg hv]

/-- A new entry, seen from any address. -/
theorem Windows.walk_write {k : KernelTables} {m : Mem} (h : Windows k m) (v e x : Word) :
    walk (m.write32 (k.table + 4 * tableIndex v) e) k.directory x
      = if InWindow x ∧ tableIndex x = tableIndex v then translate e x
        else walk m k.directory x := by
  have hwin := h.write k.table_aligned k.directory_ne_table.symm (tableIndex_lt v) e
  rw [hwin.walk_eq, h.walk_eq,
    entry_write32 k.table_aligned k.table_aligned (tableIndex_lt v) (tableIndex_lt x)]
  by_cases hx : InWindow x
  · by_cases hindex : tableIndex x = tableIndex v
    · rw [if_pos hx, if_pos ⟨rfl, hindex⟩, if_pos ⟨hx, hindex⟩]
    · rw [if_pos hx, if_neg fun heq => hindex heq.2, if_neg fun heq => hindex heq.2, if_pos hx]
  · rw [if_neg hx, if_neg fun heq => hx heq.1, if_neg hx]

/--
**`map_page` establishes a translation in the two windows, and nowhere else.**

Right after `paging_init`, for every address, every page and all flags that contain
`PAGE_PRESENT`.
-/
theorem map_page_translates_iff (k : KernelTables) (m : Mem) (v : Word) {physAddr flags : Word}
    (h : Mappable physAddr flags) :
    (∃ m', mapPage k (pagingInit k m) v physAddr flags = some m' ∧
        walk m' k.directory v = some (physAddr + offset v)) ↔ InWindow v := by
  have hwin := windows_pagingInit k m
  constructor
  · rintro ⟨m', hmap, hwalk⟩
    by_contra hv
    rw [mapPage_outside hv hmap] at hwalk
    cases hwalk
  · intro hv
    refine ⟨_, mapPage_eq hwin (identity_pagingInit k m) hv physAddr flags, ?_⟩
    rw [hwin.walk_write, if_pos ⟨hv, rfl⟩, h.translate]

/-- A place for the two tables. -/
def linkedTables : KernelTables where
  directory := 0x20000
  table := 0x21000
  directory_aligned := rfl
  table_aligned := rfl
  directory_low := by decide
  table_low := by decide
  directory_pos := by decide
  table_pos := by decide
  directory_ne_table := by decide

theorem mappable_present_write : Mappable 0x100000 3 where
  aligned := rfl
  low := by decide
  present := rfl

theorem map_page_translates_low :
    Mappable 0x100000 3 ∧
      ((∃ m', mapPage linkedTables (pagingInit linkedTables fun _ => 0) 0x1000 0x100000 3
            = some m' ∧
          walk m' linkedTables.directory 0x1000 = some (0x100000 + offset 0x1000)) ↔
        InWindow 0x1000) :=
  ⟨mappable_present_write,
    map_page_translates_iff linkedTables (fun _ => 0) 0x1000 mappable_present_write⟩

/-- The address that the memory test maps. -/
theorem map_page_no_translation :
    Mappable 0x100000 3 ∧
      ¬ ∃ m', mapPage linkedTables (pagingInit linkedTables fun _ => 0) 0x10000000 0x100000 3
            = some m' ∧
          walk m' linkedTables.directory 0x10000000 = some (0x100000 + offset 0x10000000) := by
  refine ⟨mappable_present_write, ?_⟩
  rintro ⟨m', hmap, hwalk⟩
  rw [mapPage_outside (by decide) hmap] at hwalk
  cases hwalk

/-! ## Runs in the windows -/

/-- The call is in the windows, and what it maps is a page. -/
def MapCall.Proper : MapCall → Prop
  | .map virtAddr physAddr flags => InWindow virtAddr ∧ Mappable physAddr flags
  | .unmap virtAddr => InWindow virtAddr

/-- The entry that the call writes. -/
def MapCall.entry : MapCall → Word
  | .map _ physAddr flags => physAddr ||| flags
  | .unmap _ => 0

theorem MapCall.Proper.inWindow {call : MapCall} (h : call.Proper) : InWindow call.virtAddr := by
  cases call with
  | map virtAddr physAddr flags => exact h.1
  | unmap virtAddr => exact h

/-- What a call in the windows does. -/
theorem MapCall.exec_eq (call : MapCall) {k : KernelTables} {m : Mem} (h : Windows k m)
    (hid : Identity k m) (hcall : InWindow call.virtAddr) :
    call.exec k m = (m.write32 (k.table + 4 * tableIndex call.virtAddr) call.entry, true) := by
  cases call with
  | map virtAddr physAddr flags =>
    have hmap := mapPage_eq h hid (v := virtAddr) hcall physAddr flags
    simp only [MapCall.exec, MapCall.apply, hmap]
    rfl
  | unmap virtAddr =>
    have hunmap := unmapPage_eq h hid (v := virtAddr) hcall
    simp only [MapCall.exec, MapCall.apply, hunmap]
    rfl

/-- The call is proper, and the directory and the table stay mapped to themselves. -/
def Keeps (k : KernelTables) (m : Mem) (call : MapCall) : Prop :=
  call.Proper ∧ Identity k (call.exec k m).1

theorem Keeps.step {k : KernelTables} {m : Mem} (h : Windows k m ∧ Identity k m) {call : MapCall}
    (hcall : Keeps k m call) :
    Windows k (call.exec k m).1 ∧ Identity k (call.exec k m).1 := by
  obtain ⟨hwin, hid⟩ := h
  refine ⟨?_, hcall.2⟩
  rw [call.exec_eq hwin hid hcall.1.inWindow]
  exact hwin.write k.table_aligned k.directory_ne_table.symm (tableIndex_lt _) _

/-- A call for another page keeps the directory and the table where they are. -/
theorem Identity.exec {k : KernelTables} {m : Mem} (h : Windows k m) (hid : Identity k m)
    (call : MapCall) (hcall : InWindow call.virtAddr)
    (hd : tableIndex k.directory ≠ tableIndex call.virtAddr)
    (ht : tableIndex k.table ≠ tableIndex call.virtAddr) : Identity k (call.exec k m).1 := by
  rw [call.exec_eq h hid hcall]
  refine ⟨?_, ?_⟩
  · rw [h.walk_write, if_neg fun heq => hd heq.2, hid.directory]
  · rw [h.walk_write, if_neg fun heq => ht heq.2, hid.table]

/-- The two addresses are in one page. -/
def SamePage (x y : Word) : Prop := x.toNat / 4096 = y.toNat / 4096

/-- The address of the same byte in the other window. -/
def otherWindow (v : Word) : Word := if v.toNat < 2 ^ 22 then v + 0xC0000000 else v - 0xC0000000

/-- Two addresses in the windows that share an entry of the table. -/
theorem samePage_or_other {x v : Word} (hx : InWindow x) (hv : InWindow v)
    (h : tableIndex x = tableIndex v) : SamePage x v ∨ SamePage x (otherWindow v) := by
  have hindex := congrArg BitVec.toNat h
  rw [toNat_tableIndex, toNat_tableIndex] at hindex
  unfold InWindow at hx hv
  unfold SamePage otherWindow
  by_cases hlow : v.toNat < 2 ^ 22
  · have hother : (v + 0xC0000000).toNat = v.toNat + 0xC0000000 := by
      rw [BitVec.toNat_add]
      show (v.toNat + 0xC0000000) % 2 ^ 32 = _
      omega
    rw [if_pos hlow, hother]
    omega
  · have hother : (v - 0xC0000000).toNat = v.toNat - 0xC0000000 := by
      rw [BitVec.toNat_sub]
      show (2 ^ 32 - 0xC0000000 + v.toNat) % 2 ^ 32 = _
      omega
    rw [if_neg hlow, hother]
    omega

/-- An address below 4 MiB and its alias have the same entry and offset. -/
theorem parts_high {x : Word} (hx : x.toNat < 2 ^ 22) :
    InWindow (x + 0xC0000000) ∧ tableIndex (x + 0xC0000000) = tableIndex x ∧
      offset (x + 0xC0000000) = offset x := by
  have hsum : (x + 0xC0000000).toNat = x.toNat + 0xC0000000 := by
    rw [BitVec.toNat_add]
    show (x.toNat + 0xC0000000) % 2 ^ 32 = _
    omega
  refine ⟨?_, BitVec.eq_of_toNat_eq ?_, BitVec.eq_of_toNat_eq ?_⟩
  · unfold InWindow
    omega
  · rw [toNat_tableIndex, toNat_tableIndex, hsum]
    omega
  · rw [toNat_offset, toNat_offset, hsum]
    omega

/--
**Mapping in the two windows.**

After `paging_init` and any calls in the windows that leave the directory and the table mapped to
themselves: `get_phys_addr` of a mapped address is its translation; an address below 4 MiB and the
one `0xC0000000` above it are translated alike; a further call changes the translation of its page
and of the alias of its page only; and `get_phys_addr` right after `map_page` is the address just
mapped.
-/
theorem kernel_windows (k : KernelTables) (m : Mem) {calls : List MapCall}
    (h : Along (MapCall.exec k) (Keeps k) (pagingInit k m) calls) :
    (∀ x a, InWindow x → walk (run (MapCall.exec k) (pagingInit k m) calls) k.directory x = some a →
        getPhysAddr k (run (MapCall.exec k) (pagingInit k m) calls) x = some a) ∧
      (∀ x : Word, x.toNat < 2 ^ 22 →
        walk (run (MapCall.exec k) (pagingInit k m) calls) k.directory (x + 0xC0000000)
          = walk (run (MapCall.exec k) (pagingInit k m) calls) k.directory x) ∧
      (∀ call : MapCall, call.Proper → ∀ x, ¬ SamePage x call.virtAddr →
        ¬ SamePage x (otherWindow call.virtAddr) →
        walk (call.exec k (run (MapCall.exec k) (pagingInit k m) calls)).1 k.directory x
          = walk (run (MapCall.exec k) (pagingInit k m) calls) k.directory x) ∧
      ∀ v physAddr flags,
        Keeps k (run (MapCall.exec k) (pagingInit k m) calls) (.map v physAddr flags) →
        ∃ m', mapPage k (run (MapCall.exec k) (pagingInit k m) calls) v physAddr flags = some m' ∧
          getPhysAddr k m' v = some (physAddr + offset v) := by
  obtain ⟨hwin, hid⟩ := inv_run (MapCall.exec k) (I := fun m => Windows k m ∧ Identity k m)
    (P := Keeps k) (fun _ _ hm hcall => hcall.step hm)
    ⟨windows_pagingInit k m, identity_pagingInit k m⟩ h
  generalize run (MapCall.exec k) (pagingInit k m) calls = m' at hwin hid ⊢
  refine ⟨?_, ?_, ?_, ?_⟩
  · intro x a hx hwalk
    rw [hwin.walk_eq, if_pos hx, translate] at hwalk
    split at hwalk
    · rw [getPhysAddr_eq hwin hid hx]
      exact hwalk
    · cases hwalk
  · intro x hx
    obtain ⟨hhigh, hindex, hoffset⟩ := parts_high hx
    have hlow : InWindow x := Or.inl hx
    rw [hwin.walk_eq, hwin.walk_eq, if_pos hhigh, if_pos hlow, hindex, translate, translate,
      hoffset]
  · intro call hcall x hpage halias
    rw [call.exec_eq hwin hid hcall.inWindow, hwin.walk_write, if_neg]
    rintro ⟨hx, hindex⟩
    rcases samePage_or_other hx hcall.inWindow hindex with hsame | hsame
    · exact hpage hsame
    · exact halias hsame
  · intro v physAddr flags hcall
    obtain ⟨hv, hmappable⟩ := hcall.1
    have hexec := MapCall.exec_eq (.map v physAddr flags) hwin hid hv
    obtain ⟨hwin', hid'⟩ := hcall.step ⟨hwin, hid⟩
    rw [hexec] at hwin' hid'
    simp only [MapCall.virtAddr, MapCall.entry] at hwin' hid'
    refine ⟨_, mapPage_eq hwin hid hv physAddr flags, ?_⟩
    rw [getPhysAddr_eq hwin' hid' hv,
      entry_write32 k.table_aligned k.table_aligned (tableIndex_lt v) (tableIndex_lt v),
      if_pos ⟨rfl, rfl⟩, frame_or hmappable.aligned hmappable.low]

/-- A page of the low window is mapped elsewhere and read back through the high one. -/
theorem kernel_windows_remapped :
    Along (MapCall.exec linkedTables) (Keeps linkedTables) (pagingInit linkedTables fun _ => 0)
        [.map 0x1000 0x100000 3] ∧
      walk (run (MapCall.exec linkedTables) (pagingInit linkedTables fun _ => 0)
          [.map 0x1000 0x100000 3]) linkedTables.directory (0x1234 + 0xC0000000)
        = walk (run (MapCall.exec linkedTables) (pagingInit linkedTables fun _ => 0)
          [.map 0x1000 0x100000 3]) linkedTables.directory 0x1234 := by
  have hkeeps : Along (MapCall.exec linkedTables) (Keeps linkedTables)
      (pagingInit linkedTables fun _ => 0) [.map 0x1000 0x100000 3] := by
    have hin : InWindow 0x1000 := by decide
    have hid := Identity.exec (windows_pagingInit linkedTables fun _ => 0)
      (identity_pagingInit linkedTables fun _ => 0) (.map 0x1000 0x100000 3) hin (by decide)
      (by decide)
    exact ⟨⟨⟨hin, mappable_present_write⟩, hid⟩, trivial⟩
  exact ⟨hkeeps, (kernel_windows linkedTables (fun _ => 0) hkeeps).2.1 0x1234 (by decide)⟩

end MinimalistOS
