import Mathlib.Data.List.Forall2
import MinimalistOS.Properties.Ipc

/-!
# What a receiver learns from a message

* `Alike` — calls of two runs that differ only in payloads that are not for process `p`
* `markStep` — the code, with a mark on every byte of the queue that holds such a payload
* `ipc_confidential` — two runs with calls that are alike hand the same structures to `p`, provided
  that every message accepted for `p` overwrites the marked bytes of its slot

`ipc_send` overwrites only the bytes its sender supplies, and `ipc_receive` copies the whole
structure out. A message with a short payload, or with a null pointer and any length, goes to its
receiver with the bytes that an earlier message left in the slot.
-/

namespace MinimalistOS

open Infra

/-! ## Two runs -/

/-- The calls are the same, or sends to others than `p` that differ in the bytes of the payload. -/
inductive Alike (p : Word) : IpcCall → IpcCall → Prop
  | same (call : IpcCall) : Alike p call call
  | payload {pid receiver : Word} {type : Byte} {len : BitVec 16} (src src' : Nat → Byte)
      (h : receiver ≠ p) :
      Alike p (.send pid receiver type (some src) len) (.send pid receiver type (some src') len)

/-- What a call hands to process `p`. -/
def IpcCall.handed (p : Word) : IpcCall → IpcAnswer → List (Option IpcMsg)
  | .receive pid _, .received msg => if pid = p then [msg] else []
  | _, _ => []

/-- What the receives of process `p` get in a run, in order. -/
def handed (p : Word) (q : Ipc) (calls : List IpcCall) : List (Option IpcMsg) :=
  observe Ipc.step (IpcCall.handed p) q calls

/-! ## Marks -/

/-- Which bytes of which slots hold payload that is not for `p`. -/
abbrev Marks := Nat → Nat → Bool

/-- The marks of the slot that `ipc_send` fills. -/
def markFill (p receiver : Word) (data : Option (Nat → Byte)) (len : BitVec 16)
    (marks : Nat → Bool) : Nat → Bool := fun j =>
  if data.isSome ∧ j < len.toNat then decide (receiver ≠ p) else marks j

/-- Marks move with the messages, as in `shiftDown`. -/
def markShift (head : Nat) (marks : Marks) (j : Nat) : Nat → Marks
  | 0 => marks
  | n + 1 =>
    let moved : Marks := fun i =>
      if i = (head + j) % maxMessages then marks ((head + j + 1) % maxMessages) else marks i
    markShift head moved (j + 1) n

/-- The marks after a call. -/
def markCall (p : Word) (q : Ipc) (marks : Marks) : IpcCall → Marks
  | .send _ receiver _ data len =>
    if Admitted q len then fun i =>
      if i = q.queueTail then markFill p receiver data len (marks i) else marks i
    else marks
  | .receive pid sender =>
    match findMessage q pid sender 0 q.queueCount with
    | none => marks
    | some i => markShift q.queueHead marks i (q.queueCount - 1 - i)

/-- The code, with the marks beside it. -/
def markStep (p : Word) (s : Ipc × Marks) (call : IpcCall) : (Ipc × Marks) × IpcAnswer :=
  (((s.1.step call).1, markCall p s.1 s.2 call), (s.1.step call).2)

/-- A message accepted for `p` overwrites every marked byte of its slot. -/
def Covers (p : Word) (s : Ipc × Marks) : IpcCall → Prop
  | .send _ receiver _ data len => receiver = p → Admitted s.1 len →
    ∀ j < maxMsgSize, s.2 s.1.queueTail j = true → data.isSome = true ∧ j < len.toNat
  | .receive _ _ => True

instance (p : Word) (s : Ipc × Marks) : ∀ call, Decidable (Covers p s call)
  | .send _ receiver _ data len => inferInstanceAs (Decidable (receiver = p → Admitted s.1 len →
      ∀ j < maxMsgSize, s.2 s.1.queueTail j = true → data.isSome = true ∧ j < len.toNat))
  | .receive _ _ => inferInstanceAs (Decidable True)

/-! ## What the two runs have in common -/

/-- Two messages agree on all fields and on all bytes without a mark, and a message for `p` has no
marks. -/
structure AgreeMsg (p : Word) (marks : Nat → Bool) (m m' : IpcMsg) : Prop where
  sender : m.sender = m'.sender
  receiver : m.receiver = m'.receiver
  type : m.type = m'.type
  length : m.length = m'.length
  data : ∀ j < maxMsgSize, marks j = false → slot m.data j = slot m'.data j
  clean : m.receiver = p → ∀ j < maxMsgSize, marks j = false

/-- Two queues agree slot by slot. -/
structure Agree (p : Word) (marks : Marks) (q q' : Ipc) : Prop where
  head : q.queueHead = q'.queueHead
  tail : q.queueTail = q'.queueTail
  count : q.queueCount = q'.queueCount
  slots : ∀ i < maxMessages,
    AgreeMsg p (marks i) (slot q.messageQueue i) (slot q'.messageQueue i)

/-- A message for `p` is the same in both runs. -/
theorem AgreeMsg.eq {p : Word} {marks : Nat → Bool} {m m' : IpcMsg} (h : AgreeMsg p marks m m')
    (hp : m.receiver = p) : m = m' := by
  have hdata : m.data = m'.data := ext_slot fun j hj => h.data j hj (h.clean hp j hj)
  obtain ⟨s, r, t, l, d⟩ := m
  obtain ⟨s', r', t', l', d'⟩ := m'
  obtain ⟨rfl, rfl, rfl, rfl⟩ : s = s' ∧ r = r' ∧ t = t' ∧ l = l' :=
    ⟨h.sender, h.receiver, h.type, h.length⟩
  obtain rfl : d = d' := hdata
  rfl

theorem AgreeMsg.wanted {p : Word} {marks : Nat → Bool} {m m' : IpcMsg} (h : AgreeMsg p marks m m')
    (pid sender : Word) : m.wanted pid sender = m'.wanted pid sender := by
  unfold IpcMsg.wanted
  rw [h.receiver, h.sender]

/-- Filling the slots keeps the agreement. The payload may differ when it is not for `p`, and a
message for `p` must overwrite the marked bytes. -/
theorem AgreeMsg.fill {p : Word} {marks : Nat → Bool} {m m' : IpcMsg} (h : AgreeMsg p marks m m')
    (pid : Word) {receiver : Word} (type : Byte) {data data' : Option (Nat → Byte)}
    {len : BitVec 16} (hlen : len.toNat ≤ maxMsgSize) (hsome : data.isSome = data'.isSome)
    (hsame : receiver = p → data = data')
    (hcover : receiver = p →
      ∀ j < maxMsgSize, marks j = true → data.isSome = true ∧ j < len.toNat) :
    AgreeMsg p (markFill p receiver data len marks) (m.fill pid receiver type data len)
      (m'.fill pid receiver type data' len) where
  sender := rfl
  receiver := rfl
  type := rfl
  length := rfl
  data j hj hmark := by
    unfold markFill at hmark
    by_cases hw : data.isSome = true ∧ j < len.toNat
    · -- a byte that is written: without a mark it is for `p`, so the payloads are the same
      rw [if_pos hw] at hmark
      have hp : receiver = p := by simpa using hmark
      obtain rfl := hsame hp
      obtain ⟨src, rfl⟩ := Option.isSome_iff_exists.mp hw.1
      rw [fill_data m _ _ _ _ hlen, fill_data m' _ _ _ _ hlen]
      simp only [if_pos hw.2]
    · rw [if_neg hw] at hmark
      rw [fill_data_of_not m _ _ _ hlen hw, fill_data_of_not m' _ _ _ hlen (hsome ▸ hw)]
      exact h.data j hj hmark
  clean hp j hj := by
    have hp' : receiver = p := hp
    unfold markFill
    by_cases hw : data.isSome = true ∧ j < len.toNat
    · rw [if_pos hw]
      simpa using hp'
    · rw [if_neg hw]
      by_contra hmark
      exact hw (hcover hp' j hj (by simpa using hmark))

/-! ## One step -/

theorem Agree.moveDown {p : Word} {marks : Marks} {q q' : Ipc} (h : Agree p marks q q') (j : Nat) :
    Agree p (fun i => if i = (q.queueHead + j) % maxMessages
        then marks ((q.queueHead + j + 1) % maxMessages) else marks i)
      (moveDown q j) (moveDown q' j) where
  head := h.head
  tail := h.tail
  count := h.count
  slots i hi := by
    rw [moveDown_slot, moveDown_slot, ← h.head]
    split
    · exact h.slots _ (index_lt _)
    · exact h.slots i hi

theorem Agree.shiftDown {p : Word} (n : Nat) : ∀ {marks : Marks} {q q' : Ipc} (j : Nat),
    Agree p marks q q' →
      Agree p (markShift q.queueHead marks j n) (shiftDown q j n) (shiftDown q' j n) := by
  induction n with
  | zero => exact fun _ h => h
  | succ n ih => exact fun j h => ih (j + 1) (h.moveDown j)

theorem Agree.findMessage {p : Word} {marks : Marks} {q q' : Ipc} (h : Agree p marks q q')
    (pid sender : Word) : ∀ n i : Nat, findMessage q pid sender i n = findMessage q' pid sender i n
  | 0, _ => rfl
  | n + 1, i => by
    have hwanted : (q.message i).wanted pid sender = (q'.message i).wanted pid sender := by
      unfold Ipc.message
      rw [← h.head]
      exact (h.slots _ (index_lt _)).wanted pid sender
    rw [MinimalistOS.findMessage, MinimalistOS.findMessage, hwanted, h.findMessage pid sender n]

theorem Agree.send {p : Word} {marks : Marks} {q q' : Ipc} (h : Agree p marks q q')
    {pid receiver : Word} {type : Byte} {data data' : Option (Nat → Byte)} {len : BitVec 16}
    (hsome : data.isSome = data'.isSome) (hsame : receiver = p → data = data')
    (hcover : Covers p (q, marks) (.send pid receiver type data len)) :
    Agree p (markCall p q marks (.send pid receiver type data len))
      (ipcSend q pid receiver type data len).1 (ipcSend q' pid receiver type data' len).1 := by
  by_cases hadm : Admitted q len
  · have hadm' : Admitted q' len := ⟨h.count ▸ hadm.1, hadm.2⟩
    rw [ipcSend_of_admitted hadm, ipcSend_of_admitted hadm', markCall, if_pos hadm]
    refine ⟨h.head, ?_, ?_, fun i hi => ?_⟩
    · exact congrArg (fun t => (t + 1) % maxMessages) h.tail
    · exact congrArg (· + 1) h.count
    · simp only [enqueue]
      rw [slot_modifySlot (n := 16) _ q.tail_lt, slot_modifySlot (n := 16) _ q'.tail_lt, ← h.tail]
      split
      · next hit =>
        rw [hit]
        exact (h.slots _ q.tail_lt).fill pid type hadm.2 hsome hsame fun hp => hcover hp hadm
      · exact h.slots i hi
  · have hadm' : ¬ Admitted q' len := fun hc => hadm ⟨h.count ▸ hc.1, hc.2⟩
    rw [(ipcSend_of_not_admitted hadm pid receiver type data).1,
      (ipcSend_of_not_admitted hadm' pid receiver type data').1, markCall, if_neg hadm]
    exact h

theorem Agree.receive {p : Word} {marks : Marks} {q q' : Ipc} (h : Agree p marks q q')
    (pid sender : Word) :
    Agree p (markCall p q marks (.receive pid sender)) (ipcReceive q pid sender).1
        (ipcReceive q' pid sender).1 ∧
      (pid = p → (ipcReceive q pid sender).2 = (ipcReceive q' pid sender).2) := by
  rw [ipcReceive_eq, ipcReceive_eq, markCall, ← h.count, ← h.findMessage pid sender]
  cases hfind : MinimalistOS.findMessage q pid sender 0 q.queueCount with
  | none => exact ⟨h, fun _ => rfl⟩
  | some i =>
    have hshift := h.shiftDown (q.queueCount - 1 - i) i
    refine ⟨⟨hshift.head, hshift.tail, rfl, hshift.slots⟩, fun hpid => ?_⟩
    -- the message found is for the caller, so it has no marks if the caller is `p`
    have hslot := h.slots _ (index_lt (q.queueHead + i))
    have hreceiver : (q.message i).receiver = p := by
      have hwanted := findMessage_wanted hfind
      rw [IpcMsg.wanted, Bool.and_eq_true, beq_iff_eq] at hwanted
      exact hwanted.1.trans hpid
    have hmsg : q.message i = q'.message i := by
      unfold Ipc.message at hreceiver ⊢
      rw [← h.head]
      exact hslot.eq hreceiver
    exact congrArg some hmsg

/-- **One step of the two runs.** -/
theorem Agree.step {p : Word} {marks : Marks} {q q' : Ipc} (h : Agree p marks q q')
    {call call' : IpcCall} (halike : Alike p call call') (hcover : Covers p (q, marks) call) :
    Agree p (markCall p q marks call) (q.step call).1 (q'.step call').1 ∧
      call.handed p (q.step call).2 = call'.handed p (q'.step call').2 := by
  cases halike with
  | payload src src' hne => exact ⟨h.send rfl (fun hp => absurd hp hne) hcover, rfl⟩
  | same =>
    cases call with
    | send pid receiver type data len => exact ⟨h.send rfl (fun _ => rfl) hcover, rfl⟩
    | receive pid sender =>
      obtain ⟨hagree, heq⟩ := h.receive pid sender
      refine ⟨hagree, ?_⟩
      simp only [IpcCall.handed, Ipc.step]
      split
      · next hpid => rw [heq hpid]
      · rfl

/-! ## Whole runs -/

theorem Agree.run {p : Word} {calls calls' : List IpcCall}
    (halike : List.Forall₂ (Alike p) calls calls') : ∀ {marks : Marks} {q q' : Ipc},
    Agree p marks q q' → Along (markStep p) (Covers p) (q, marks) calls →
      handed p q calls = handed p q' calls' := by
  induction halike with
  | nil => exact fun _ _ => rfl
  | cons hcall _ ih =>
    rintro marks q q' h ⟨hcover, hcovers⟩
    obtain ⟨hagree, hhanded⟩ := h.step hcall hcover
    rw [handed, handed, observe_cons, observe_cons, hhanded]
    exact congrArg _ (ih hagree hcovers)

theorem Agree.refl (p : Word) (q : Ipc) : Agree p (fun _ _ => false) q q where
  head := rfl
  tail := rfl
  count := rfl
  slots _ _ := ⟨rfl, rfl, rfl, rfl, fun _ _ _ => rfl, fun _ _ _ => rfl⟩

/--
**Confidentiality.**

Two runs from the same state whose calls differ only in payloads that are not for `p` hand the same
structures to `p`, with all their bytes, if every message accepted for `p` overwrites those bytes of
its slot that hold payload of others.
-/
theorem ipc_confidential (p : Word) (q : Ipc) {calls calls' : List IpcCall}
    (halike : List.Forall₂ (Alike p) calls calls')
    (hcovers : Along (markStep p) (Covers p) (q, fun _ _ => false) calls) :
    handed p q calls = handed p q calls' :=
  (Agree.refl p q).run halike hcovers

/-- A message with payload `b` for process 2, then one without payload for process 1, which
receives it. -/
def freshSlotCalls (b : Byte) : List IpcCall :=
  [.send 3 2 1 (some fun _ => b) 1, .send 3 1 1 none 0, .receive 1 0]

/-- The slot of the second message was not used before, so nothing of `b` gets to process 1. -/
theorem ipc_confidential_fresh_slot :
    handed 1 bootIpc (freshSlotCalls 0xAA) = handed 1 bootIpc (freshSlotCalls 0xBB) :=
  ipc_confidential 1 bootIpc
    (.cons (.payload _ _ (by decide)) (.cons (.same _) (.cons (.same _) .nil))) (by decide +kernel)

/-- Sixteen messages with payload `b` for process 2, which receives one of them; then a message
without payload for process 1, which receives it. -/
def reusedSlotCalls (b : Byte) : List IpcCall :=
  List.replicate 16 (.send 3 2 1 (some fun _ => b) 1) ++
    [.receive 2 0, .send 3 1 1 none 0, .receive 1 0]

theorem Alike.replicate {p : Word} {call call' : IpcCall} (h : Alike p call call') (n : Nat) :
    List.Forall₂ (Alike p) (List.replicate n call) (List.replicate n call') := by
  induction n with
  | zero => exact .nil
  | succ n ih => exact .cons h ih

/-- Process 1 gets the byte that was for process 2. -/
theorem ipc_leaks_reused_slot :
    List.Forall₂ (Alike 1) (reusedSlotCalls 0xAA) (reusedSlotCalls 0xBB) ∧
      handed 1 bootIpc (reusedSlotCalls 0xAA) ≠ handed 1 bootIpc (reusedSlotCalls 0xBB) := by
  refine ⟨List.rel_append (Alike.replicate (.payload _ _ (by decide)) 16)
    (.cons (.same _) (.cons (.same _) (.cons (.same _) .nil))), fun heq => ?_⟩
  have hbyte := congrArg (List.map (Option.map fun m => slot m.data 0)) heq
  exact absurd hbyte (by decide +kernel)

end MinimalistOS
