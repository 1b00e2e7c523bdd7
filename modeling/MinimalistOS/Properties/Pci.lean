import MinimalistOS.Infra.Scan
import MinimalistOS.Kernel.Pci
import Mathlib.Tactic.IntervalCases

/-!
# Looking for a PCI device

* `readConfigDword_snd` — an address built of shifts and masks selects the register it is built of
* `funcs_snd`, `slots_snd` — the two loops are a scan over slots and functions
* `pci_find_device_first` — the first function that matches is found, and no other

A slot without a function 0 is left at once. Its other functions do not count as present.
-/

namespace MinimalistOS

open Infra

/-! ## The configuration space of bus 0 -/

namespace PciSpace

/-- The dword of a function at an offset. -/
def register (space : PciSpace) (slot func : Nat) (offset : Byte) : Word :=
  space 0 (BitVec.ofNat 5 slot) (BitVec.ofNat 3 func) (offset.extractLsb' 2 6)

def vendorId (space : PciSpace) (slot func : Nat) : BitVec 16 :=
  (space.register slot func 0x00).setWidth 16

def deviceId (space : PciSpace) (slot func : Nat) : BitVec 16 :=
  (space.register slot func 0x00 >>> 16).setWidth 16

/-- Function 0 of the slot is present, and the function has the vendor and device ids. -/
def Matches (space : PciSpace) (vendor device : BitVec 16) (slot func : Nat) : Prop :=
  space.vendorId slot 0 ≠ 0xFFFF ∧ space.vendorId slot func = vendor ∧
    space.deviceId slot func = device

instance (space : PciSpace) (vendor device : BitVec 16) (slot func : Nat) :
    Decidable (space.Matches vendor device slot func) :=
  inferInstanceAs (Decidable (_ ∧ _ ∧ _))

/-- What is reported of a function: its place, its ids, the dword of BAR0 and the low byte of
register 0x3C. -/
def device (space : PciSpace) (slot func : Nat) : PciDevice where
  bus := 0
  slot := BitVec.ofNat 8 slot
  function := BitVec.ofNat 8 func
  vendorId := space.vendorId slot func
  deviceId := space.deviceId slot func
  bar0 := space.register slot func 0x10
  irqLine := (space.register slot func 0x3C).setWidth 8

end PciSpace

/-! ## The address -/

section Address

variable (bus : Byte) (slot : BitVec 5) (func : BitVec 3) (offset : Byte)

theorem getLsbD_pciConfigAddress :
    (pciConfigAddress bus (slot.setWidth 8) (func.setWidth 8) offset).getLsbD 31 = true := by
  simp [pciConfigAddress]

theorem extract_pciConfigAddress_bus :
    (pciConfigAddress bus (slot.setWidth 8) (func.setWidth 8) offset).extractLsb' 16 8 = bus := by
  ext i hi
  simp only [pciConfigAddress]
  interval_cases i <;> simp

theorem extract_pciConfigAddress_slot :
    (pciConfigAddress bus (slot.setWidth 8) (func.setWidth 8) offset).extractLsb' 11 5 = slot := by
  ext i hi
  simp only [pciConfigAddress]
  interval_cases i <;> simp

theorem extract_pciConfigAddress_func :
    (pciConfigAddress bus (slot.setWidth 8) (func.setWidth 8) offset).extractLsb' 8 3 = func := by
  ext i hi
  simp only [pciConfigAddress]
  interval_cases i <;> simp

theorem extract_pciConfigAddress_offset :
    (pciConfigAddress bus (slot.setWidth 8) (func.setWidth 8) offset).extractLsb' 2 6
      = offset.extractLsb' 2 6 := by
  ext i hi
  simp only [pciConfigAddress]
  interval_cases i <;> simp

end Address

/-! ## Reading a register -/

variable {vendor device : BitVec 16} {p : PciPorts} {s k n : Nat}

theorem setWidth_slot (hs : s < 32) : (BitVec.ofNat 5 s).setWidth 8 = BitVec.ofNat 8 s := by
  apply BitVec.eq_of_toNat_eq
  simp
  omega

theorem setWidth_func (hk : k < 8) : (BitVec.ofNat 3 k).setWidth 8 = BitVec.ofNat 8 k := by
  apply BitVec.eq_of_toNat_eq
  simp
  omega

@[simp] theorem readConfigDword_space (p : PciPorts) (bus slot func offset : Byte) :
    (pciReadConfigDword p bus slot func offset).1.space = p.space := rfl

@[simp] theorem readConfigWord_space (p : PciPorts) (bus slot func offset : Byte) :
    (pciReadConfigWord p bus slot func offset).1.space = p.space := rfl

/-- The address selects the register it is built of. -/
theorem readConfigDword_snd (p : PciPorts) (hs : s < 32) (hk : k < 8) (offset : Byte) :
    (pciReadConfigDword p 0 (BitVec.ofNat 8 s) (BitVec.ofNat 8 k) offset).2
      = p.space.register s k offset := by
  rw [← setWidth_slot hs, ← setWidth_func hk]
  simp only [pciReadConfigDword, PciPorts.outl, PciPorts.inl, PciPorts.data, if_true, true_and,
    getLsbD_pciConfigAddress, extract_pciConfigAddress_bus, extract_pciConfigAddress_slot,
    extract_pciConfigAddress_func, extract_pciConfigAddress_offset, PciSpace.register]

/-- A word is a half of the dword. -/
theorem readConfigWord_snd (p : PciPorts) (bus slot func offset : Byte) :
    (pciReadConfigWord p bus slot func offset).2
      = if offset &&& 2 ≠ 0 then
          ((pciReadConfigDword p bus slot func offset).2 >>> 16).setWidth 16
        else ((pciReadConfigDword p bus slot func offset).2 &&& 0xFFFF).setWidth 16 := rfl

theorem readConfigWord_vendor (p : PciPorts) (hs : s < 32) (hk : k < 8) :
    (pciReadConfigWord p 0 (BitVec.ofNat 8 s) (BitVec.ofNat 8 k) 0x00).2
      = p.space.vendorId s k := by
  rw [readConfigWord_snd, readConfigDword_snd p hs hk, if_neg (by decide)]
  exact setWidth_and_lowMask _ 0xFFFF rfl

theorem readConfigWord_device (p : PciPorts) (hs : s < 32) (hk : k < 8) :
    (pciReadConfigWord p 0 (BitVec.ofNat 8 s) (BitVec.ofNat 8 k) 0x02).2
      = p.space.deviceId s k := by
  rw [readConfigWord_snd, readConfigDword_snd p hs hk, if_pos (by decide)]
  rfl

/-! ## The loops -/

/-- The scan skips what is not present. -/
theorem PciSpace.not_matches_of_absent {space : PciSpace} (hvendor : vendor ≠ 0xFFFF)
    (h : space.vendorId s k = 0xFFFF) : ¬ space.Matches vendor device s k := by
  rintro ⟨-, heq, -⟩
  exact hvendor (heq.symm.trans h)

theorem funcs_space (slot func : Byte) (p : PciPorts) :
    (pciFindDevice.funcs vendor device slot n func p).1.space = p.space := by
  induction n generalizing func p with
  | zero => rfl
  | succ n ih =>
    simp only [pciFindDevice.funcs]
    split_ifs
    · simp
    · rw [ih, readConfigWord_space]
    · simp
    · rw [ih, readConfigWord_space, readConfigWord_space]

theorem ofNat_add_one (k : Nat) : BitVec.ofNat 8 k + 1 = BitVec.ofNat 8 (k + 1) := by
  rw [BitVec.ofNat_add]
  rfl

theorem ofNat_eq_zero (hk : k < 8) : BitVec.ofNat 8 k = 0 ↔ k = 0 := by
  rw [← BitVec.toNat_inj, BitVec.toNat_ofNat, Nat.mod_eq_of_lt (by omega)]
  rfl

/-- One slot with a function 0: the first of the functions left that matches. -/
theorem funcs_of_present (hvendor : vendor ≠ 0xFFFF) (hs : s < 32)
    (hpresent : p.space.vendorId s 0 ≠ 0xFFFF) (hk : k + n = 8) :
    (pciFindDevice.funcs vendor device (BitVec.ofNat 8 s) n (BitVec.ofNat 8 k) p).2
      = ((List.range' k n).find? fun j => p.space.Matches vendor device s j).map
          (p.space.device s) := by
  induction n generalizing k p with
  | zero => rfl
  | succ n ih =>
    have hk8 : k < 8 := by omega
    simp only [pciFindDevice.funcs, readConfigWord_vendor _ hs hk8, readConfigWord_device _ hs hk8,
      readConfigDword_snd _ hs hk8, readConfigWord_space, readConfigDword_space, ofNat_add_one,
      List.range'_succ, List.find?_cons]
    by_cases habsent : p.space.vendorId s k = 0xFFFF
    · -- absent, and not the function 0
      have hk0 : BitVec.ofNat 8 k ≠ 0 := by
        rw [Ne, ofNat_eq_zero hk8]
        rintro rfl
        exact hpresent habsent
      have hrest := ih (p := (pciReadConfigWord p 0 (BitVec.ofNat 8 s) (BitVec.ofNat 8 k) 0).1)
        (k := k + 1) hpresent (by omega)
      rw [if_pos habsent, if_neg hk0, hrest,
        decide_eq_false (PciSpace.not_matches_of_absent hvendor habsent)]
      rfl
    · rw [if_neg habsent]
      by_cases hids : p.space.vendorId s k = vendor ∧ p.space.deviceId s k = device
      · have hmatch : p.space.Matches vendor device s k := ⟨hpresent, hids⟩
        rw [if_pos hids, decide_eq_true hmatch, setWidth_and_lowMask _ 0xFF rfl]
        rfl
      · have hno : ¬ p.space.Matches vendor device s k := fun hmatch => hids hmatch.2
        have hrest := ih
          (p := (pciReadConfigWord (pciReadConfigWord p 0 (BitVec.ofNat 8 s) (BitVec.ofNat 8 k) 0).1
            0 (BitVec.ofNat 8 s) (BitVec.ofNat 8 k) 2).1) (k := k + 1) hpresent (by omega)
        rw [if_neg hids, hrest, decide_eq_false hno]
        rfl

/-- One slot: without a function 0 nothing of it matches. -/
theorem funcs_snd (hvendor : vendor ≠ 0xFFFF) (hs : s < 32) (p : PciPorts) :
    (pciFindDevice.funcs vendor device (BitVec.ofNat 8 s) 8 0 p).2
      = (rowHit (fun i j => p.space.Matches vendor device i j) 8 s).map
          fun x => p.space.device x.1 x.2 := by
  by_cases hpresent : p.space.vendorId s 0 = 0xFFFF
  · have hnone : rowHit (fun i j => p.space.Matches vendor device i j) 8 s = none :=
      rowHit_eq_none_iff.mpr fun j _ => decide_eq_false fun hmatch => hmatch.1 hpresent
    have habsent : (pciReadConfigWord p 0 (BitVec.ofNat 8 s) 0 0x00).2 = 0xFFFF :=
      (readConfigWord_vendor p hs (k := 0) (by decide)).trans hpresent
    rw [hnone, pciFindDevice.funcs]
    simp only [habsent, if_true]
    rfl
  · rw [show (0 : Byte) = BitVec.ofNat 8 0 from rfl, funcs_of_present hvendor hs hpresent rfl,
      rowHit, Option.map_map, List.range_eq_range']
    rfl

/-- The slots that are left, from the first on. -/
theorem slots_snd (hvendor : vendor ≠ 0xFFFF) (p : PciPorts) (hn : s + n = 32) :
    (pciFindDevice.slots vendor device n (BitVec.ofNat 8 s) p).2
      = ((List.range' s n).findSome? (rowHit (fun i j => p.space.Matches vendor device i j) 8)).map
          fun x => p.space.device x.1 x.2 := by
  induction n generalizing s p with
  | zero => rfl
  | succ n ih =>
    have hslot : (pciFindDevice.funcs vendor device (BitVec.ofNat 8 s) 8 0 p).2
        = (rowHit (fun i j => p.space.Matches vendor device i j) 8 s).map
            fun x => p.space.device x.1 x.2 := funcs_snd hvendor (by omega) p
    have hrest := ih (s := s + 1)
      (pciFindDevice.funcs vendor device (BitVec.ofNat 8 s) 8 0 p).1 (by omega)
    rw [funcs_space] at hrest
    rw [pciFindDevice.slots, List.range'_succ, List.findSome?_cons, ofNat_add_one]
    cases hrow : rowHit (fun i j => p.space.Matches vendor device i j) 8 s with
    | none =>
      rw [hrow] at hslot
      simp only [hslot, Option.map_none]
      exact hrest
    | some x =>
      rw [hrow] at hslot
      simp only [hslot, Option.map_some]

/-! ## The first function that matches -/

/-- The functions of bus 0 that match, in the order of the scan. -/
def PciSpace.matching (space : PciSpace) (vendor device : BitVec 16) : Set (Nat ×ₗ Nat) :=
  hits (fun i j => space.Matches vendor device i j) 32 8

/--
What a lookup promises: it returns 0 exactly when a slot below 32 with a function 0 has a function
below 8 with the ids; then it reports the first such function by slot and function number, and
otherwise it returns -1 and leaves the output as it was.
-/
structure FindsFirst (space : PciSpace) (vendor device : BitVec 16) (old : PciDevice)
    (found : Option PciDevice × Int) : Prop where
  found_iff : found.2 = 0 ↔ ∃ slot < 32, ∃ func < 8, space.Matches vendor device slot func
  first : found.2 = 0 → ∃ slot func : Nat,
    IsLeast (space.matching vendor device) (toLex (slot, func)) ∧
      found.1 = some (space.device slot func)
  missing : found.2 ≠ 0 → found = (some old, -1)

/--
**The first function that matches is found.**

For any contents of the configuration space, any address that was written before, every vendor other
than 0xFFFF and every device.
-/
theorem pci_find_device_first (hvendor : vendor ≠ 0xFFFF) (device : BitVec 16) (p : PciPorts)
    (old : PciDevice) :
    FindsFirst p.space vendor device old (pciFindDevice p vendor device (some old)).2 := by
  have hscan : (pciFindDevice.slots vendor device 32 0 p).2
      = (firstHit (fun i j => p.space.Matches vendor device i j) 32 8).map
          fun x => p.space.device x.1 x.2 := by
    rw [firstHit, List.range_eq_range']
    exact slots_snd hvendor p rfl
  cases hhit : firstHit (fun i j => p.space.Matches vendor device i j) 32 8 with
  | none =>
    have hempty := firstHit_eq_none_iff.mp hhit
    have hfind : (pciFindDevice p vendor device (some old)).2 = (some old, -1) := by
      rw [hhit] at hscan
      simp only [pciFindDevice, hscan, Option.map_none]
    rw [hfind]
    have hret : ((some old, -1) : Option PciDevice × Int).2 ≠ 0 := by simp
    refine ⟨iff_of_false hret ?_, fun h => absurd h hret, fun _ => rfl⟩
    rintro ⟨slot, hslot, func, hfunc, hmatch⟩
    exact Set.eq_empty_iff_forall_notMem.mp hempty (toLex (slot, func))
      ⟨hslot, hfunc, decide_eq_true hmatch⟩
  | some x =>
    have hleast := firstHit_eq_some_iff.mp hhit
    have hfind : (pciFindDevice p vendor device (some old)).2
        = (some (p.space.device x.1 x.2), 0) := by
      rw [hhit] at hscan
      simp only [pciFindDevice, hscan, Option.map_some]
    rw [hfind]
    obtain ⟨hslot, hfunc, hmatch⟩ := hleast.1
    exact ⟨iff_of_true rfl ⟨x.1, hslot, x.2, hfunc, of_decide_eq_true hmatch⟩,
      fun _ => ⟨x.1, x.2, hleast, rfl⟩, fun h => absurd rfl h⟩

/-- A space with nothing but one card: slot 3 has a bridge as its function 0, and the card as its
function 2. -/
def oneCard : PciSpace := fun bus slot func register =>
  if bus = 0 ∧ slot = 3 ∧ (func = 0 ∨ func = 2) then
    if register = 0 then if func = 0 then 0x12378086 else 0x813910EC
    else if register = 4 then 0xC001
    else if register = 15 then 0x0000010B
    else 0
  else 0xFFFFFFFF

/-- The card is found, with its base address and its line. -/
theorem pci_find_device_first_card :
    (pciFindDevice ⟨0, oneCard⟩ 0x10EC 0x8139 (some ⟨0, 0, 0, 0, 0, 0, 0⟩)).2
        = (some ⟨0, 3, 2, 0x10EC, 0x8139, 0xC001, 0x0B⟩, 0) ∧
      FindsFirst oneCard 0x10EC 0x8139 ⟨0, 0, 0, 0, 0, 0, 0⟩
        (pciFindDevice ⟨0, oneCard⟩ 0x10EC 0x8139 (some ⟨0, 0, 0, 0, 0, 0, 0⟩)).2 :=
  ⟨by decide, pci_find_device_first (by decide) 0x8139 ⟨0, oneCard⟩ ⟨0, 0, 0, 0, 0, 0, 0⟩⟩

end MinimalistOS
