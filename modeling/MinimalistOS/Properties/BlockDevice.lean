import MinimalistOS.Kernel.BlockDevice

/-!
# Where the transfers of the block device go

* `BlockDriver.touches` — the bytes of memory that a transfer reads or writes
* `step_mem_of_not_touched` — no call but the one that takes the page changes any others
* `inPage_iff` — a transfer stays in the page exactly when it fits behind the current block
* `read_back` — a read directly after a write of the same size returns what was written
* `block_transfers_iff` — when all the transfers of a run stay in the page
-/

namespace MinimalistOS

open Infra

/-! ## Transfers -/

/-- The size of a call that transfers bytes if the device is open. -/
def BlockCall.size? : BlockCall → Option Word
  | .read true size => some size
  | .write (some _) size => some size
  | _ => none

/-- The address of byte `i` of a transfer. -/
def BlockDevice.byteAt (d : BlockDevice) (i : Nat) : Word := d.data + d.offset + BitVec.ofNat 32 i

/-- The addresses that a transfer reads from or writes to. -/
def BlockDriver.touches (s : BlockDriver) (call : BlockCall) : List Word :=
  match call.size? with
  | some size =>
    if s.dev.data = 0 then [] else (List.range (s.dev.clamp size).toNat).map s.dev.byteAt
  | none => []

theorem mem_touches {s : BlockDriver} {call : BlockCall} {a : Word} :
    a ∈ s.touches call ↔ ∃ size, call.size? = some size ∧ s.dev.data ≠ 0 ∧
      ∃ i < (s.dev.clamp size).toNat, s.dev.byteAt i = a := by
  unfold BlockDriver.touches
  cases call.size? with
  | none => simp
  | some size =>
    by_cases hdata : s.dev.data = 0 <;> simp [hdata]

/-- Byte `i` of a transfer, as `memcpy` counts from its start. -/
theorem byteAt_sub (d : BlockDevice) {i : Nat} (hi : i < 2 ^ 32) :
    (d.byteAt i - (d.data + d.offset)).toNat = i :=
  toNat_add_ofNat_sub (d.data + d.offset) hi

/-- The writes of a transfer are to the bytes that it touches. -/
theorem step_mem_of_not_touched {s : BlockDriver} {call : BlockCall} (hopen : call ≠ .open)
    {a : Word} (ha : a ∉ s.touches call) : (s.step call).1.mem a = s.mem a := by
  cases call with
  | «open» => exact absurd rfl hopen
  | close => rfl
  | read buffer size =>
    simp only [BlockDriver.step, blockRead]
    split <;> rfl
  | ioctl cmd arg =>
    simp only [BlockDriver.step, blockIoctl]
    cases arg with
    | none => rfl
    | some block => dsimp only; split_ifs <;> rfl
  | write buffer size =>
    cases buffer with
    | none => rfl
    | some src =>
      simp only [BlockDriver.step, blockWrite]
      split
      · rfl
      next hdata =>
      have hn := (s.dev.clamp size).isLt
      dsimp only
      rw [memcpyTo_apply _ (by omega), if_neg]
      intro hlt
      refine ha (mem_touches.mpr ⟨size, rfl, hdata, _, hlt, ?_⟩)
      rw [BlockDevice.byteAt]
      bv_omega

/-- **A read directly after a write** of the same size returns what was written. -/
theorem read_back (s : BlockDriver) (src : Nat → Byte) (size : Word) :
    ((s.step (.write (some src) size)).1.step (.read true size)).2
      = (s.step (.write (some src) size)).2 := by
  by_cases hdata : s.dev.data = 0
  · simp [BlockDriver.step, blockWrite, blockRead, hdata]
  · have hn := (s.dev.clamp size).isLt
    simp only [BlockDriver.step, blockWrite, blockRead, hdata, if_false, Bool.true_eq_false,
      or_self]
    congr 1
    apply List.map_congr_left
    intro i hi
    have hi' := List.mem_range.mp hi
    have hsub := byteAt_sub s.dev (i := i) (by omega)
    rw [BlockDevice.byteAt] at hsub
    rw [memcpyTo_apply _ (by omega), hsub, if_pos hi']

/-! ## The page -/

/-- Every byte that a call reads or writes is in the page, between the current block and the last
one. -/
def InPage (s : BlockDriver) (call : BlockCall) : Prop :=
  ∀ a ∈ s.touches call, s.dev.currentBlock.toNat * 512 ≤ (a - s.dev.data).toNat ∧
    (a - s.dev.data).toNat < s.dev.blockCount.toNat * 512 ∧ (a - s.dev.data).toNat < pageSize

/-- The condition on a call: what it transfers fits behind the current block. -/
def BlockFits (s : BlockDriver) (call : BlockCall) : Prop :=
  ∀ size, call.size? = some size → s.dev.data ≠ 0 →
    s.dev.currentBlock.toNat * 512 + size.toNat ≤ pageSize

/-- The device is not open, or it is open with the eight blocks of a page. -/
def BlockDevice.Sound (d : BlockDevice) : Prop :=
  (d.data = 0 ∧ d.blockCount = 0) ∨
    (d.data ≠ 0 ∧ d.blockCount = 8 ∧ d.currentBlock.toNat < 8)

theorem BlockDevice.Sound.of_open {d : BlockDevice} (h : d.Sound) (hdata : d.data ≠ 0) :
    d.blockCount = 8 ∧ d.currentBlock.toNat < 8 :=
  (h.resolve_left fun hclosed => hdata hclosed.1).2

theorem BlockDevice.toNat_offset {d : BlockDevice} (h : d.currentBlock.toNat < 8) :
    d.offset.toNat = d.currentBlock.toNat * 512 := by
  rw [BlockDevice.offset, BlockDevice.blockSize]
  bv_omega

/-- A transfer that fits is not cut. -/
theorem clamp_of_fits {d : BlockDevice} (h : d.currentBlock.toNat < 8) {size : Word}
    (hfits : d.currentBlock.toNat * 512 + size.toNat ≤ pageSize) : d.clamp size = size := by
  have hoffset := BlockDevice.toNat_offset h
  have hsize : BlockDevice.deviceSize.toNat = 524288 := by decide
  unfold pageSize at hfits
  rw [BlockDevice.clamp, if_neg]
  rw [BitVec.lt_def, BitVec.toNat_add, hoffset, hsize]
  omega

/-- One that does not fit is cut behind the page, if at all. -/
theorem clamp_of_not_fits {d : BlockDevice} (h : d.currentBlock.toNat < 8) {size : Word}
    (hfits : ¬ d.currentBlock.toNat * 512 + size.toNat ≤ pageSize) :
    pageSize < d.currentBlock.toNat * 512 + (d.clamp size).toNat := by
  have hoffset := BlockDevice.toNat_offset h
  have hsize : BlockDevice.deviceSize.toNat = 524288 := by decide
  unfold pageSize at *
  rw [BlockDevice.clamp]
  split
  · rw [BitVec.toNat_sub_of_le (by rw [BitVec.le_def]; omega)]
    omega
  · omega

/-- **A transfer stays in the page exactly when it fits.** -/
theorem inPage_iff {s : BlockDriver} (h : s.dev.Sound) (call : BlockCall) :
    InPage s call ↔ BlockFits s call := by
  have hbyte : ∀ i, s.dev.byteAt i - s.dev.data = s.dev.offset + BitVec.ofNat 32 i := by
    intro i
    rw [BlockDevice.byteAt]
    bv_omega
  constructor
  · intro hin size hsize hdata
    by_contra hfits
    obtain ⟨hcount, hblock⟩ := h.of_open hdata
    have hcut := clamp_of_not_fits hblock hfits
    have hpage : pageSize = 4096 := rfl
    -- the first byte behind the page
    have htouched := mem_touches.mpr ⟨size, hsize, hdata,
      pageSize - s.dev.currentBlock.toNat * 512, by omega, rfl⟩
    have hlast := (hin _ htouched).2.2
    rw [hbyte, BitVec.toNat_add, BlockDevice.toNat_offset hblock, BitVec.toNat_ofNat] at hlast
    unfold pageSize at hlast
    omega
  · intro hfits a ha
    obtain ⟨size, hsize, hdata, i, hi, rfl⟩ := mem_touches.mp ha
    obtain ⟨hcount, hblock⟩ := h.of_open hdata
    have hfit := hfits size hsize hdata
    rw [clamp_of_fits hblock hfit] at hi
    unfold pageSize at hfit ⊢
    rw [hbyte, BitVec.toNat_add, BlockDevice.toNat_offset hblock, BitVec.toNat_ofNat, hcount]
    simp only [BitVec.reduceToNat]
    omega

/-! ## Runs -/

theorem step_sound {s : BlockDriver} (h : s.dev.Sound) (call : BlockCall) :
    (s.step call).1.dev.Sound := by
  cases call with
  | «open» =>
    simp only [BlockDriver.step, blockOpen]
    split
    · split
      · exact h
      next hpage => exact .inr ⟨hpage, rfl, by simp⟩
    · exact h
  | close => exact h
  | read buffer size =>
    simp only [BlockDriver.step, blockRead]
    split <;> exact h
  | write buffer size =>
    cases buffer with
    | none => exact h
    | some src =>
      simp only [BlockDriver.step, blockWrite]
      split <;> exact h
  | ioctl cmd arg =>
    cases arg with
    | none => exact h
    | some block =>
      simp only [BlockDriver.step, blockIoctl]
      split_ifs with hset hlt
      · -- the block is one of the device's, so the device is open
        rcases h with ⟨-, hcount⟩ | ⟨hdata, hcount, -⟩
        · rw [hcount] at hlt
          exact absurd hlt (by simp)
        · refine .inr ⟨hdata, hcount, ?_⟩
          rw [hcount, BitVec.lt_def] at hlt
          exact hlt
      all_goals exact h

/-- What the device promises of a call: it stays in the page, and a read directly after a write of
the same size returns the bytes just written. -/
def BlockPromise (s : BlockDriver) (call : BlockCall) : Prop :=
  InPage s call ∧ ∀ src size, call = .write (some src) size →
    ((s.step call).1.step (.read true size)).2 = (s.step call).2

/-- **When the transfers of a run stay in the device.** -/
theorem block_transfers_iff (s : BlockDriver) (ops : Word) (calls : List BlockCall) :
    Along BlockDriver.step BlockPromise (blockDeviceInit s ops) calls ↔
      Along BlockDriver.step BlockFits (blockDeviceInit s ops) calls := by
  refine along_iff_along BlockDriver.step (I := fun s => s.dev.Sound) (fun s call h => ?_)
    (fun s call h _ => step_sound h call) (.inl ⟨rfl, rfl⟩) calls
  refine ⟨fun hp => (inPage_iff h call).mp hp.1, fun hfits => ⟨(inPage_iff h call).mpr hfits, ?_⟩⟩
  rintro src size rfl
  exact read_back s src size

/-- `block0` on a machine with one page in use. -/
def oneBlockDevice : BlockDriver where
  dev := ⟨0, 0, 0⟩
  devices := ⟨0, fun _ => default, ⟨setPageBit (Vector.replicate 32 0) 0, 1⟩⟩
  mem _ := 0

/-- A read of two pages at the first block is not cut, and goes on behind the page. -/
theorem block_read_behind_page :
    ¬ ∀ (s : BlockDriver) (ops : Word) (calls : List BlockCall),
      Along BlockDriver.step BlockPromise (blockDeviceInit s ops) calls := by
  intro hall
  obtain ⟨-, ⟨hin, -⟩, -⟩ := hall oneBlockDevice 0 [.open, .read true 8192]
  have hdev : ((blockDeviceInit oneBlockDevice 0).step .open).1.dev = ⟨8192, 8, 0⟩ := by
    decide +kernel
  have hsound : ((blockDeviceInit oneBlockDevice 0).step .open).1.dev.Sound := by
    rw [hdev]
    exact .inr ⟨by decide, rfl, by decide⟩
  have hfits := (inPage_iff hsound _).mp hin 8192 rfl
  rw [hdev] at hfits
  exact absurd (hfits (by decide)) (by decide)

end MinimalistOS
