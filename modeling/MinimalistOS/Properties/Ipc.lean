import MinimalistOS.Spec.Mail

/-!
# Message passing

* `Ipc.live` — the messages in the queue, as a list from the head
* `live_receive` — `ipc_receive` takes the first match out of that list
* `live_send` — `ipc_send` appends to it, provided that `queue_tail` is where the list ends
* `tail_eq_iff_dvd` — which it is exactly when a multiple of sixteen messages has been received
* `ipc_delivers` — in every run in which that is so at each accepted send, the code is a mailbox

`ipc_receive` moves the messages down but leaves `queue_tail` where it is, so after a receive the
tail is no longer at the end of the list until sixteen messages have been received. A send in
between writes its message to a place outside the list, or over a message in it, and what becomes
the last element is an old message that comes a second time.
-/

namespace MinimalistOS

open Infra Mailbox

/-! ## The queue as a list -/

/-- The messages from the head on. -/
def Ipc.live (q : Ipc) : List IpcMsg := (List.range q.queueCount).map q.message

@[simp] theorem live_length (q : Ipc) : q.live.length = q.queueCount := by simp [Ipc.live]

theorem live_getElem? (q : Ipc) (i : Nat) :
    q.live[i]? = if i < q.queueCount then some (q.message i) else none := by
  unfold Ipc.live
  split
  · next h => simp [h]
  · next h => simp [h]

/-! ### Receiving -/

theorem findMessage_eq (q : Ipc) (pid sender : Word) : ∀ n i : Nat,
    findMessage q pid sender i n
      = ((List.range' i n).findIdx? fun k => (q.message k).wanted pid sender).map (i + ·)
  | 0, i => rfl
  | n + 1, i => by
    rw [findMessage, List.range'_succ, List.findIdx?_cons, findMessage_eq q pid sender n (i + 1)]
    split
    · rfl
    · rw [Option.map_map]
      congr 1
      funext k
      simp only [Function.comp_apply]
      omega

theorem findMessage_live (q : Ipc) (pid sender : Word) :
    findMessage q pid sender 0 q.queueCount = q.live.findIdx? (IpcMsg.wanted pid sender) := by
  rw [findMessage_eq, Ipc.live, List.findIdx?_map, List.range_eq_range']
  simp [Function.comp_def]

/-- The check for an empty queue changes nothing. -/
theorem ipcReceive_eq (q : Ipc) (pid sender : Word) :
    ipcReceive q pid sender = match findMessage q pid sender 0 q.queueCount with
      | none => (q, none)
      | some i =>
        ({ shiftDown q i (q.queueCount - 1 - i) with queueCount := q.queueCount - 1 },
          some (q.message i)) := by
  unfold ipcReceive
  split
  · next h0 => rw [h0]; rfl
  · rfl

theorem findMessage_wanted {q : Ipc} {pid sender : Word} {i : Nat}
    (h : findMessage q pid sender 0 q.queueCount = some i) :
    (q.message i).wanted pid sender = true := by
  rw [findMessage_live] at h
  obtain ⟨hi, hwanted, -⟩ := List.findIdx?_eq_some_iff_getElem.mp h
  simpa [Ipc.live] using hwanted

/-- A message that is found is one of those in the queue. -/
theorem findMessage_lt {q : Ipc} {pid sender : Word} {i : Nat}
    (h : findMessage q pid sender 0 q.queueCount = some i) : i < q.queueCount := by
  rw [findMessage_live] at h
  obtain ⟨hi, -⟩ := List.findIdx?_eq_some_iff_getElem.mp h
  rwa [live_length] at hi

theorem index_lt (i : Nat) : i % maxMessages < 16 := Nat.mod_lt i maxMessages_pos

theorem mod_add_inj {h a b : Nat} (ha : a < maxMessages) (hb : b < maxMessages)
    (hab : (h + a) % maxMessages = (h + b) % maxMessages) : a = b := by
  unfold maxMessages at *
  omega

theorem moveDown_slot (q : Ipc) (j i : Nat) :
    slot (moveDown q j).messageQueue i
      = if i = (q.queueHead + j) % maxMessages
        then slot q.messageQueue ((q.queueHead + j + 1) % maxMessages)
        else slot q.messageQueue i :=
  slot_setIfInBounds q.messageQueue (index_lt _) _ i

theorem moveDown_message (q : Ipc) {j : Nat} (hj : j < maxMessages) {k : Nat}
    (hk : k < maxMessages) :
    (moveDown q j).message k = if k = j then q.message (j + 1) else q.message k := by
  unfold Ipc.message
  rw [moveDown_slot, show (moveDown q j).queueHead = q.queueHead from rfl]
  by_cases hkj : k = j
  · rw [if_pos hkj, hkj, if_pos rfl]
    rfl
  · rw [if_neg hkj, if_neg fun hmod => hkj (mod_add_inj hk hj hmod)]

/-- The loop moves the messages at `j + 1`, …, `j + n` down by one. -/
theorem shiftDown_message (n : Nat) : ∀ (q : Ipc) (j : Nat), j + n < maxMessages →
    ∀ k < maxMessages,
      (shiftDown q j n).message k
        = if j ≤ k ∧ k < j + n then q.message (k + 1) else q.message k := by
  induction n with
  | zero =>
    intro q j _ k _
    rw [shiftDown, if_neg (by omega)]
  | succ n ih =>
    intro q j hj k hk
    rw [shiftDown, ih _ (j + 1) (by omega) k hk]
    by_cases hin : j + 1 ≤ k ∧ k < j + 1 + n
    · rw [if_pos hin, if_pos (by omega), moveDown_message q (by omega) (by omega),
        if_neg (by omega)]
    · rw [if_neg hin, moveDown_message q (by omega) hk]
      by_cases hkj : k = j
      · rw [if_pos hkj, if_pos (by omega), hkj]
      · rw [if_neg hkj, if_neg (by omega)]

/-- Moving the later messages down takes one message out of the list. -/
theorem live_shiftDown {q : Ipc} (hq : q.queueCount ≤ maxMessages) {i : Nat}
    (hi : i < q.queueCount) :
    ({ shiftDown q i (q.queueCount - 1 - i) with queueCount := q.queueCount - 1 } : Ipc).live
      = q.live.eraseIdx i := by
  apply List.ext_getElem?
  intro k
  rw [live_getElem?, List.getElem?_eraseIdx, live_getElem?, live_getElem?]
  by_cases hk : k < q.queueCount - 1
  · have hmsg := shiftDown_message (q.queueCount - 1 - i) q i (by omega) k (by omega)
    rw [if_pos hk]
    refine (congrArg some hmsg).trans ?_
    by_cases hik : i ≤ k
    · rw [if_pos (by omega), if_neg (by omega), if_pos (by omega)]
    · rw [if_neg (by omega), if_pos (by omega), if_pos (by omega)]
  · rw [if_neg hk, if_neg (by omega), if_neg (by omega)]

/-- **`ipc_receive` takes the first match out of the list.** -/
theorem live_receive (q : Ipc) (hq : q.queueCount ≤ maxMessages) (pid sender : Word) :
    (ipcReceive q pid sender).2 = q.live.find? (IpcMsg.wanted pid sender) ∧
      (ipcReceive q pid sender).1.live = q.live.eraseP (IpcMsg.wanted pid sender) ∧
      (ipcReceive q pid sender).1.queueCount ≤ maxMessages := by
  rw [ipcReceive_eq, findMessage_live, List.find?_eq_bind_findIdx?_getElem?,
    List.eraseP_eq_eraseIdx]
  cases hfind : q.live.findIdx? (IpcMsg.wanted pid sender) with
  | none => exact ⟨rfl, rfl, hq⟩
  | some i =>
    have hi := findMessage_lt ((findMessage_live q pid sender).trans hfind)
    refine ⟨?_, live_shiftDown hq hi, by simp only; omega⟩
    simp [live_getElem?, hi]

/-! ### Sending -/

/-- The checks of `ipc_send` let the message pass. -/
def Admitted (q : Ipc) (len : BitVec 16) : Prop :=
  q.queueCount < maxMessages ∧ len.toNat ≤ maxMsgSize

instance (q : Ipc) (len : BitVec 16) : Decidable (Admitted q len) :=
  inferInstanceAs (Decidable (_ ∧ _))

theorem ipcSend_of_admitted {q : Ipc} {len : BitVec 16} (h : Admitted q len) (pid receiver : Word)
    (type : Byte) (data : Option (Nat → Byte)) :
    ipcSend q pid receiver type data len = (enqueue q pid receiver type data len, 0) := by
  obtain ⟨hcount, hlen⟩ := h
  unfold ipcSend
  rw [if_neg (by omega), if_neg (by omega)]

theorem ipcSend_of_not_admitted {q : Ipc} {len : BitVec 16} (h : ¬ Admitted q len)
    (pid receiver : Word) (type : Byte) (data : Option (Nat → Byte)) :
    (ipcSend q pid receiver type data len).1 = q ∧
      (ipcSend q pid receiver type data len).2 ≠ 0 := by
  unfold ipcSend
  by_cases hcount : maxMessages ≤ q.queueCount
  · rw [if_pos hcount]
    exact ⟨rfl, by simp⟩
  · have hlen : maxMsgSize < len.toNat := by
      by_contra hle
      exact h ⟨by omega, by omega⟩
    rw [if_neg hcount, if_pos hlen]
    exact ⟨rfl, by simp⟩

theorem fill_data (m : IpcMsg) (pid receiver : Word) (type : Byte) (data : Option (Nat → Byte))
    {len : BitVec 16} (hlen : len.toNat ≤ maxMsgSize) (j : Nat) :
    slot (m.fill pid receiver type data len).data j
      = match data with
        | some src => if j < len.toNat then src j else slot m.data j
        | none => slot m.data j := by
  cases data with
  | none => rfl
  | some src =>
    simp only [IpcMsg.fill]
    by_cases hpos : 0 < len.toNat
    · rw [if_pos hpos, slot_memcpy (m := 256) src hlen]
    · rw [if_neg hpos, if_neg (by omega)]

theorem fill_data_of_not (m : IpcMsg) (pid receiver : Word) (type : Byte)
    {data : Option (Nat → Byte)} {len : BitVec 16} (hlen : len.toNat ≤ maxMsgSize) {j : Nat}
    (h : ¬ (data.isSome = true ∧ j < len.toNat)) :
    slot (m.fill pid receiver type data len).data j = slot m.data j := by
  rw [fill_data m pid receiver type data hlen]
  cases data with
  | none => rfl
  | some src => exact if_neg fun hj => h ⟨rfl, hj⟩

theorem carries_fill (msg : IpcMsg) (pid receiver : Word) (type : Byte)
    (data : Option (Nat → Byte)) {len : BitVec 16} (hlen : len.toNat ≤ maxMsgSize) :
    Carries (msg.fill pid receiver type data len) ⟨pid, receiver, type, len, data⟩ where
  sender := rfl
  receiver := rfl
  type := rfl
  length := rfl
  data src hsrc j hj := by
    have hsrc' : data = some src := hsrc
    have hj' : j < len.toNat := hj
    subst hsrc'
    rw [fill_data msg pid receiver type _ hlen]
    exact if_pos hj'

/-- **`ipc_send` appends to the list when `queue_tail` is where it ends.** -/
theorem live_send {q : Ipc} (hcount : q.queueCount < maxMessages)
    (htail : q.queueTail = (q.queueHead + q.queueCount) % maxMessages) (pid receiver : Word)
    (type : Byte) (data : Option (Nat → Byte)) (len : BitVec 16) :
    (enqueue q pid receiver type data len).live
      = q.live ++ [(q.message q.queueCount).fill pid receiver type data len] := by
  have hmsg : ∀ i < maxMessages, (enqueue q pid receiver type data len).message i
      = if i = q.queueCount then (q.message i).fill pid receiver type data len
        else q.message i := by
    intro i hi
    simp only [Ipc.message, enqueue, htail]
    rw [slot_modifySlot _ (index_lt _)]
    by_cases hic : i = q.queueCount
    · rw [if_pos hic, hic, if_pos rfl]
    · rw [if_neg hic, if_neg fun hmod => hic (mod_add_inj hi hcount hmod)]
  have hold : ∀ i ∈ List.range q.queueCount,
      (enqueue q pid receiver type data len).message i = q.message i := by
    intro i hi
    have hlt := List.mem_range.mp hi
    rw [hmsg i (by omega), if_neg (by omega)]
  show (List.range (q.queueCount + 1)).map _ = _
  rw [List.range_succ, List.map_append, List.map_congr_left hold, List.map_singleton,
    hmsg _ hcount, if_pos rfl]
  rfl

/-! ## Runs -/

/-- An accepted send is made while `queue_tail` is at the end of the queue. -/
def TailInStep (q : Ipc) : IpcCall → Prop
  | .send _ _ _ _ len => Admitted q len → q.queueTail = (q.queueHead + q.queueCount) % maxMessages
  | .receive _ _ => True

instance (q : Ipc) : ∀ call, Decidable (TailInStep q call)
  | .send _ _ _ _ len => inferInstanceAs (Decidable (Admitted q len → _))
  | .receive _ _ => inferInstanceAs (Decidable True)

/-! ### Where the tail is -/

/-- `queue_tail` is `n` places beyond the end of the queue. -/
def TailBeyond (q : Ipc) (n : Nat) : Prop :=
  q.queueTail = (q.queueHead + q.queueCount + n) % maxMessages

theorem shiftDown_indices (n : Nat) : ∀ (q : Ipc) (j : Nat),
    (shiftDown q j n).queueHead = q.queueHead ∧ (shiftDown q j n).queueTail = q.queueTail := by
  induction n with
  | zero => exact fun _ _ => ⟨rfl, rfl⟩
  | succ n ih => exact fun q j => ih (moveDown q j) (j + 1)

/-- **One call**: a send moves the tail along with the end, a receive moves the end only. -/
theorem TailBeyond.step {q : Ipc} {n : Nat} (h : TailBeyond q n) (call : IpcCall) :
    TailBeyond (q.step call).1 (n + (gots (call.events (q.step call).2)).length) := by
  cases call with
  | send pid receiver type data len =>
    by_cases hadm : Admitted q len
    · simp only [Ipc.step, ipcSend_of_admitted hadm, IpcCall.events, if_true]
      show (q.queueTail + 1) % maxMessages
        = (q.queueHead + (q.queueCount + 1) + n) % maxMessages
      rw [h, Nat.mod_add_mod]
      congr 1
      omega
    · obtain ⟨hsame, hret⟩ := ipcSend_of_not_admitted hadm pid receiver type data
      simp only [Ipc.step, IpcCall.events, if_neg hret, hsame]
      exact h
  | receive pid sender =>
    simp only [Ipc.step, IpcCall.events]
    rw [ipcReceive_eq]
    cases hfind : findMessage q pid sender 0 q.queueCount with
    | none => exact h
    | some i =>
      obtain ⟨hhead, htail⟩ := shiftDown_indices (q.queueCount - 1 - i) q i
      have hlt := findMessage_lt hfind
      show (shiftDown q i _).queueTail
        = ((shiftDown q i _).queueHead + (q.queueCount - 1) + (n + 1)) % maxMessages
      rw [hhead, htail, h]
      congr 1
      omega

/-- **A run**: the tail is as far beyond the end as messages have been received. -/
theorem TailBeyond.run {q : Ipc} {n : Nat} (h : TailBeyond q n) (calls : List IpcCall) :
    TailBeyond (run Ipc.step q calls) (n + (gots (history q calls)).length) := by
  induction calls generalizing q n with
  | nil => exact h
  | cons call calls ih =>
    have hrest := ih (h.step call)
    rw [Nat.add_assoc, ← List.length_append, ← gots_append] at hrest
    rw [history, observe_cons]
    exact hrest

/-- After `ipc_init` the tail is where the queue ends exactly when the number of messages received
is a multiple of sixteen. -/
theorem tail_eq_iff_dvd (q : Ipc) (calls : List IpcCall) :
    (run Ipc.step (ipcInit q) calls).queueTail
        = ((run Ipc.step (ipcInit q) calls).queueHead
            + (run Ipc.step (ipcInit q) calls).queueCount) % maxMessages ↔
      maxMessages ∣ (gots (history (ipcInit q) calls)).length := by
  have hbeyond : TailBeyond _ _ := TailBeyond.run (n := 0) (q := ipcInit q) rfl calls
  rw [Nat.zero_add] at hbeyond
  unfold TailBeyond maxMessages at *
  omega

/-- So the next send of a run is made in step exactly then, if it is accepted at all. -/
theorem tailInStep_send_iff (q : Ipc) (calls : List IpcCall) (pid receiver : Word) (type : Byte)
    (data : Option (Nat → Byte)) (len : BitVec 16) :
    TailInStep (run Ipc.step (ipcInit q) calls) (.send pid receiver type data len) ↔
      (Admitted (run Ipc.step (ipcInit q) calls) len →
        maxMessages ∣ (gots (history (ipcInit q) calls)).length) :=
  imp_congr_right fun _ => tail_eq_iff_dvd q calls

/-! ### Deliveries -/

/-- The queue holds the messages that wait, in order. -/
structure Holds (q : Ipc) (waiting : List Sent) : Prop where
  count_le : q.queueCount ≤ maxMessages
  messages : List.Forall₂ Carries q.live waiting

theorem wanted_eq_isFor {m : IpcMsg} {s : Sent} (h : Carries m s) (pid sender : Word) :
    m.wanted pid sender = s.isFor pid sender := by
  unfold IpcMsg.wanted Sent.isFor
  rw [h.receiver, h.sender]

theorem Holds.send {q : Ipc} {waiting : List Sent} (h : Holds q waiting) {pid receiver : Word}
    {type : Byte} {data : Option (Nat → Byte)} {len : BitVec 16}
    (htail : TailInStep q (.send pid receiver type data len)) :
    let events := (IpcCall.send pid receiver type data len).events
      (.sent (ipcSend q pid receiver type data len).2)
    Delivers Carries waiting events ∧
      Holds (ipcSend q pid receiver type data len).1 (left waiting events) := by
  by_cases hadm : Admitted q len
  · rw [ipcSend_of_admitted hadm]
    refine ⟨⟨trivial, trivial⟩, hadm.1, ?_⟩
    -- this is the only place where the position of the tail matters
    rw [live_send hadm.1 (htail hadm)]
    exact List.rel_append h.messages (.cons (carries_fill _ _ _ _ _ hadm.2) .nil)
  · obtain ⟨hsame, hret⟩ := ipcSend_of_not_admitted hadm pid receiver type data
    simp only [IpcCall.events, if_neg hret, hsame]
    exact ⟨trivial, h⟩

theorem Holds.receive {q : Ipc} {waiting : List Sent} (h : Holds q waiting) (pid sender : Word) :
    let events := (IpcCall.receive pid sender).events (.received (ipcReceive q pid sender).2)
    Delivers Carries waiting events ∧
      Holds (ipcReceive q pid sender).1 (left waiting events) := by
  obtain ⟨hgot, hlive, hcount⟩ := live_receive q h.count_le pid sender
  have hrel : ∀ m s, Carries m s → IpcMsg.wanted pid sender m = Sent.isFor pid sender s :=
    fun m s hms => wanted_eq_isFor hms pid sender
  refine ⟨⟨?_, trivial⟩, hcount, ?_⟩
  · rw [Event.Right, hgot]
    exact forall₂_find? hrel h.messages
  · rw [hlive]
    exact forall₂_eraseP hrel h.messages

theorem Holds.run : ∀ {q : Ipc} {waiting : List Sent} (calls : List IpcCall), Holds q waiting →
    Along Ipc.step TailInStep q calls → Delivers Carries waiting (history q calls)
  | _, _, [], _, _ => trivial
  | q, waiting, call :: calls, h, ⟨hcall, hcalls⟩ => by
    rw [history, observe_cons, delivers_append]
    have hstep : Delivers Carries waiting (call.events (q.step call).2) ∧
        Holds (q.step call).1 (left waiting (call.events (q.step call).2)) := by
      cases call with
      | send pid receiver type data len => exact h.send hcall
      | receive pid sender => exact h.receive pid sender
    exact ⟨hstep.1, hstep.2.run calls hcalls⟩

/--
**Exactly once and in order.**

In every run after `ipc_init` whose accepted sends are made while `queue_tail` is at the end of the
queue, every receive gets the earliest message for its caller and filter that was sent and not yet
received, and nothing only if there is none. The messages received and those left over are together
the messages accepted.
-/
theorem ipc_delivers (q : Ipc) (calls : List IpcCall)
    (hcalls : Along Ipc.step TailInStep (ipcInit q) calls) :
    Delivers Carries [] (history (ipcInit q) calls) ∧
      ∃ taken : List Sent, List.Forall₂ Carries (gots (history (ipcInit q) calls)) taken ∧
        (taken ++ left [] (history (ipcInit q) calls)).Perm (puts (history (ipcInit q) calls)) := by
  have hdel := Holds.run calls (q := ipcInit q) ⟨Nat.zero_le _, .nil⟩ hcalls
  obtain ⟨taken, hgot, hperm⟩ := hdel.conserves
  exact ⟨hdel, taken, hgot, hperm⟩

/-- The queue as the kernel starts with it. -/
def bootIpc : Ipc := ⟨Vector.replicate 16 default, 0, 0, 0, maxMessages_pos⟩

/-- Three messages for process 1 from two senders, then its receives: by sender, then any. -/
theorem ipc_delivers_burst :
    let calls : List IpcCall := [.send 2 1 1 none 0, .send 3 1 2 (some fun _ => 7) 4,
      .send 2 1 3 none 0, .receive 1 3, .receive 1 0, .receive 1 0, .receive 1 0]
    Delivers Carries [] (history (ipcInit bootIpc) calls) :=
  (ipc_delivers bootIpc _ (by decide +kernel)).1

/-- Two messages are sent, one is received, a third is sent: the second one is received twice, and
the third one is not received. -/
theorem ipc_second_message_twice :
    let calls : List IpcCall := [.send 2 1 1 none 0, .send 2 1 2 none 0, .receive 1 0,
      .send 2 1 3 none 0, .receive 1 0, .receive 1 0]
    ¬ Delivers Carries [] (history (ipcInit bootIpc) calls) := by
  intro calls h
  have htypes := h.map_subperm (f := IpcMsg.type) (g := Sent.type) fun _ _ hc => hc.type
  exact absurd (htypes.count_le 2) (by decide +kernel)

end MinimalistOS
