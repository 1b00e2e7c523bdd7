import MinimalistOS.Kernel.CharDevice

/-!
# The character device is a queue

* `CharDevice.pending` — the bytes in the buffer, oldest first
* `charReadLoop_eq`, `charWriteLoop_eq` — the two loops as operations on that list
* `queueStep` — a queue of bounded capacity behind the same calls
* `CharDevice.refines_queue` — the device answers as the queue does
* `charDevice_fifo` — the same over runs, with what is read and accepted between two clears
-/

namespace MinimalistOS

open Infra

/-! ## The buffer as a list -/

/-- The bytes in the buffer, oldest first. -/
def CharDevice.pending (d : CharDevice) : List Byte := Ring.contents d.buffer d.readPos d.count

namespace CharDevice

@[simp] theorem length_pending (d : CharDevice) : d.pending.length = d.count :=
  Ring.length_contents _ _ _

@[simp] theorem pending_charOpen (d : CharDevice) : (charOpen d).pending = [] := rfl

theorem pending_takeByte (d : CharDevice) (h : 0 < d.count) :
    d.pending = slot d.buffer d.readPos :: (d.takeByte h).pending := by
  have hpop := Ring.contents_pop d.buffer (show d.readPos < 1024 from d.read_lt) (d.count - 1)
  rw [Nat.sub_add_cancel h] at hpop
  exact hpop

theorem pending_putByte (d : CharDevice) (c : Byte) (h : d.count < charBufferSize) :
    (d.putByte c h).pending = d.pending ++ [c] := by
  have hpush := Ring.contents_push d.buffer d.readPos (show d.count < 1024 from h) c
  rw [← show d.writePos = (d.readPos + d.count) % 1024 from d.write_eq] at hpush
  exact hpush

end CharDevice

/-! ## The loops -/

/-- `char_read` takes from the front. -/
theorem charReadLoop_eq (n : Nat) (d : CharDevice) :
    (charReadLoop d n).2 = d.pending.take n ∧
    (charReadLoop d n).1.pending = d.pending.drop n := by
  induction n generalizing d with
  | zero => simp [charReadLoop]
  | succ n ih =>
    by_cases h : 0 < d.count
    · obtain ⟨hbytes, hrest⟩ := ih (d.takeByte h)
      simp only [charReadLoop, dif_pos h]
      rw [hbytes, hrest, d.pending_takeByte h]
      simp
    · have hnil : d.pending = [] := List.eq_nil_of_length_eq_zero (by simp; omega)
      simp [charReadLoop, dif_neg h, hnil]

/-- The bytes of a buffer from `i` on. -/
def bytesFrom (buf : Nat → Byte) (i n : Nat) : List Byte := (List.range n).map fun j => buf (i + j)

theorem bytesFrom_succ (buf : Nat → Byte) (i n : Nat) :
    bytesFrom buf i (n + 1) = buf i :: bytesFrom buf (i + 1) n := by
  unfold bytesFrom
  rw [List.range_succ_eq_map, List.map_cons, List.map_map, Nat.add_zero]
  congr 1
  apply List.map_congr_left
  intro j _
  simp only [Function.comp_apply]
  congr 1
  omega

@[simp] theorem length_bytesFrom (buf : Nat → Byte) (i n : Nat) :
    (bytesFrom buf i n).length = n := by
  simp [bytesFrom]

/-- `char_write` appends what fits. -/
theorem charWriteLoop_eq (buf : Nat → Byte) (n : Nat) (d : CharDevice) (i : Nat) :
    (charWriteLoop d buf i n).1.pending
      = d.pending ++ (bytesFrom buf i n).take (charBufferSize - d.count) ∧
    (charWriteLoop d buf i n).2 = i + min n (charBufferSize - d.count) := by
  induction n generalizing d i with
  | zero => simp [charWriteLoop, bytesFrom]
  | succ n ih =>
    by_cases h : d.count < charBufferSize
    · obtain ⟨hpending, hcount⟩ := ih (d.putByte (buf i) h) (i + 1)
      have hroom : charBufferSize - d.count = (charBufferSize - (d.count + 1)) + 1 := by omega
      have hcount' : (d.putByte (buf i) h).count = d.count + 1 := rfl
      simp only [charWriteLoop, dif_pos h]
      constructor
      · rw [hpending, CharDevice.pending_putByte, hcount', hroom, bytesFrom_succ]
        simp
      · rw [hcount, hcount']
        omega
    · have hfull : charBufferSize - d.count = 0 := by omega
      simp [charWriteLoop, dif_neg h, hfull]

/-! ## The queue behind the calls -/

/-- The call empties the buffer. -/
def CharCall.Clears : CharCall → Prop
  | .open => True
  | .ioctl cmd _ => cmd = 0
  | _ => False

/-- The bytes of a write that the answer says were accepted. -/
def CharCall.accepted : CharCall → CharAnswer → List Byte
  | .write (some buf) _, answer => bytesFrom buf 0 answer.result.toNat
  | _, _ => []

/-- The bytes of a read. -/
def CharCall.taken : CharCall → CharAnswer → List Byte
  | .read _ _, answer => answer.bytes
  | _, _ => []

/-- A queue of at most `capacity` bytes: a write is accepted as far as there is room, a read takes
from the front. -/
def queueStep (capacity : Nat) (q : List Byte) : CharCall → List Byte × CharAnswer
  | .open => ([], ⟨0, [], none⟩)
  | .close => (q, ⟨0, [], none⟩)
  | .read false _ => (q, ⟨-1, [], none⟩)
  | .read true size =>
    (q.drop size.toNat, ⟨(min size.toNat q.length : Nat), q.take size.toNat, none⟩)
  | .write none _ => (q, ⟨-1, [], none⟩)
  | .write (some buf) size =>
    let accepted := (bytesFrom buf 0 size.toNat).take (capacity - q.length)
    (q ++ accepted, ⟨accepted.length, [], none⟩)
  | .ioctl cmd arg =>
    if cmd = 0 then ([], ⟨0, [], none⟩)
    else if cmd = 1 ∧ arg then (q, ⟨0, [], some (BitVec.ofNat 32 q.length)⟩)
    else if cmd = 2 ∧ arg then (q, ⟨0, [], some (BitVec.ofNat 32 capacity)⟩)
    else (q, ⟨-1, [], none⟩)

namespace CharDevice

/-- One call of the device is one of the queue. -/
theorem step_refines (d : CharDevice) (call : CharCall) :
    (d.step call).1.pending = (queueStep charBufferSize d.pending call).1 ∧
    (d.step call).2 = (queueStep charBufferSize d.pending call).2 := by
  cases call with
  | «open» => simp [step, queueStep]
  | close => simp [step, queueStep]
  | read buffer size =>
    obtain ⟨hbytes, hrest⟩ := charReadLoop_eq size.toNat d
    cases buffer with
    | false => simp [step, queueStep, charRead]
    | true => simp [step, queueStep, charRead, hbytes, hrest]
  | write buffer size =>
    cases buffer with
    | none => simp [step, queueStep, charWrite]
    | some buf =>
      obtain ⟨hpending, hcount⟩ := charWriteLoop_eq buf size.toNat d 0
      simp only [step, queueStep, charWrite, hpending, hcount, length_pending]
      simp [Nat.min_comm]
  | ioctl cmd arg =>
    simp only [step, queueStep, charIoctl]
    by_cases h0 : cmd = 0
    · simp [h0]
    · by_cases h1 : cmd = 1
      · cases arg with
        | false => simp [h1]
        | true => simp [h1]
      · by_cases h2 : cmd = 2
        · cases arg with
          | false => simp [h2]
          | true => simp [h2]
        · simp only [h0, h1, h2, if_false, false_and, and_self]

/-- **The device is a queue of 1024 bytes**: it answers every sequence of calls as the queue with
the same bytes in it does. -/
theorem refines_queue (d : CharDevice) (calls : List CharCall) :
    (run step d calls).pending = run (queueStep charBufferSize) d.pending calls ∧
    trace step d calls = trace (queueStep charBufferSize) d.pending calls := by
  have hstep : ∀ (d : CharDevice) (q : List Byte) (call : CharCall), d.pending = q → True →
      (d.step call).1.pending = (queueStep charBufferSize q call).1 ∧
      (d.step call).2 = (queueStep charBufferSize q call).2 := by
    rintro d q call rfl -
    exact d.step_refines call
  exact simulation step hstep rfl fun _ _ => trivial

/-! ## Between two clears -/

theorem pending_of_clears {call : CharCall} (h : call.Clears) (d : CharDevice) :
    (d.step call).1.pending = [] := by
  rw [(d.step_refines call).1]
  cases call with
  | «open» => rfl
  | ioctl cmd arg =>
    rw [show cmd = 0 from h]
    rfl
  | close => exact h.elim
  | read buffer size => exact h.elim
  | write buffer size => exact h.elim

/-- Until the next clear, nothing gets lost: what is pending before and what a call accepts is what
it takes and what is pending after. -/
theorem pending_step {call : CharCall} (h : ¬ call.Clears) (d : CharDevice) :
    d.pending ++ call.accepted (d.step call).2
      = call.taken (d.step call).2 ++ (d.step call).1.pending := by
  rw [(d.step_refines call).1, (d.step_refines call).2]
  cases call with
  | «open» => exact absurd trivial h
  | close => simp [queueStep, CharCall.accepted, CharCall.taken]
  | read buffer size =>
    cases buffer with
    | false => simp [queueStep, CharCall.accepted, CharCall.taken]
    | true => simp [queueStep, CharCall.accepted, CharCall.taken]
  | write buffer size =>
    cases buffer with
    | none => simp [queueStep, CharCall.accepted, CharCall.taken]
    | some buf =>
      have hprefix : ∀ n, bytesFrom buf 0 ((bytesFrom buf 0 size.toNat).take n).length
          = (bytesFrom buf 0 size.toNat).take n := by
        intro n
        simp [bytesFrom, ← List.map_take, List.take_range]
      simp only [queueStep, CharCall.accepted, CharCall.taken, Int.toNat_natCast, hprefix,
        List.nil_append]
  | ioctl cmd arg =>
    have hne : cmd ≠ 0 := h
    simp only [queueStep, if_neg hne, CharCall.accepted, CharCall.taken]
    split_ifs <;> simp

/--
**The character device is a byte queue of capacity 1024.**

From the state at boot it answers every sequence of calls as the queue does: a write is accepted
up to the length that fits, a read gets the oldest bytes. After a clear and before the next one,
the bytes read are the first ones of those accepted, and `ioctl` 1 tells how many are left.
-/
theorem charDevice_fifo (calls : List CharCall) {clear : CharCall} (hclear : clear.Clears)
    {session : List CharCall} (hsession : ∀ call ∈ session, ¬ call.Clears) :
    trace step bootCharDevice calls = trace (queueStep charBufferSize) [] calls ∧
    observe step CharCall.taken (run step bootCharDevice (calls ++ [clear])) session
      <+: observe step CharCall.accepted (run step bootCharDevice (calls ++ [clear])) session ∧
    ((run step bootCharDevice (calls ++ clear :: session)).step (.ioctl 1 true)).2
      = ⟨0, [], some (BitVec.ofNat 32
          ((observe step CharCall.accepted
              (run step bootCharDevice (calls ++ [clear])) session).length
            - (observe step CharCall.taken
              (run step bootCharDevice (calls ++ [clear])) session).length))⟩ := by
  refine ⟨(bootCharDevice.refines_queue calls).2, ?_⟩
  have hempty : (run step bootCharDevice (calls ++ [clear])).pending = [] := by
    rw [run_append]
    exact pending_of_clears hclear _
  have hbalance := observe_balance_of step (I := fun _ => True) CharDevice.pending
    (fun d call _ hcall => ⟨trivial, pending_step hcall d⟩)
    (s := run step bootCharDevice (calls ++ [clear])) trivial hsession
  rw [hempty, List.nil_append, ← run_append, List.append_assoc, List.singleton_append] at hbalance
  rw [hbalance]
  refine ⟨List.prefix_append _ _, ?_⟩
  simp [step, charIoctl]

/-- Three bytes are written and two of them read: one is left. -/
theorem charDevice_fifo_abc :
    observe step CharCall.taken (run step bootCharDevice [.open])
      [.write (some fun i => BitVec.ofNat 8 (0x61 + i)) 3, .read true 2]
      <+: observe step CharCall.accepted (run step bootCharDevice [.open])
        [.write (some fun i => BitVec.ofNat 8 (0x61 + i)) 3, .read true 2] := by
  have hclear : CharCall.Clears .open := trivial
  exact (charDevice_fifo [] hclear (by simp [CharCall.Clears])).2.1

end CharDevice

end MinimalistOS
