import MinimalistOS.Kernel.Network

/-!
# The packet buffer is a queue

* `Network.queue` — the packets in the buffer, as a list from the head
* `Network.Sound.step` — what a call puts in, takes out and leaves
* `ip_networkAfter`, `sent_concat` — a packet carries the address that was set last
* `network_fifo` — packets come out in the order in which they went in

`packet_head`, `packet_tail` and `packet_count` are kept separately. That the tail is where the
count says it is (`Network.Sound`) is what ties the slots to the list.
-/

namespace MinimalistOS

open Infra

/-! ## What a packet carries -/

/-- The addresses, the type and the bytes that count. -/
structure Datagram where
  dstIp : Word
  srcIp : Word
  type : Byte
  length : BitVec 16
  bytes : List Byte
  deriving DecidableEq

/-- What is read of a packet: of its data only the first `length` bytes. -/
def NetworkPacket.datagram (p : NetworkPacket) : Datagram where
  dstIp := p.dstIp
  srcIp := p.srcIp
  type := p.type
  length := p.length
  bytes := (List.range p.length.toNat).map (slot p.data)

/-- What a send is asked to deliver, from an interface with address `srcIp`. -/
def datagramOf (dstIp srcIp : Word) (type : Byte) (data : Option (Nat → Byte))
    (length : BitVec 16) : Datagram where
  dstIp := dstIp
  srcIp := srcIp
  type := type
  length := length
  bytes := (List.range length.toNat).map (data.getD fun _ => 0)

/-- The length and the pointer pass the checks of `network_send_packet`. -/
def Acceptable (data : Option (Nat → Byte)) (length : BitVec 16) : Prop :=
  length.toNat ≤ netBufferSize ∧ (0 < length.toNat → data.isSome = true)

theorem datagram_fill (p : NetworkPacket) (dstIp srcIp : Word) (type : Byte)
    {data : Option (Nat → Byte)} {length : BitVec 16} (h : Acceptable data length) :
    (p.fill dstIp srcIp type data length).datagram
      = datagramOf dstIp srcIp type data length := by
  obtain ⟨hle, hdata⟩ := h
  have hbytes : (List.range length.toNat).map
      (slot (p.fill dstIp srcIp type data length).data)
        = (List.range length.toNat).map (data.getD fun _ => 0) := by
    apply List.map_congr_left
    intro i hi
    have hi' : i < length.toNat := List.mem_range.mp hi
    cases data with
    | none =>
      have := hdata (by omega)
      simp at this
    | some src =>
      have hpos : 0 < length.toNat := by omega
      simp only [NetworkPacket.fill, if_pos hpos, Option.getD_some]
      rw [slot_memcpy (m := 1514) src hle, if_pos hi']
  unfold NetworkPacket.datagram datagramOf
  rw [← hbytes]
  rfl

/-! ## The buffer as a list -/

/-- The packets in the buffer, from the head on. -/
def Network.queue (s : Network) : List Datagram :=
  (Ring.contents s.packetBuffer s.packetHead s.packetCount).map NetworkPacket.datagram

@[simp] theorem length_queue (s : Network) : s.queue.length = s.packetCount := by
  simp [Network.queue]

/-- The interface is active and the tail is behind the last packet. -/
structure Network.Sound (s : Network) : Prop where
  active : s.netif.active ≠ 0
  count_le : s.packetCount ≤ maxPackets
  tail_eq : s.packetTail = (s.packetHead + s.packetCount) % maxPackets

theorem sound_networkInit : networkInit.Sound where
  active := by simp [networkInit]
  count_le := Nat.zero_le _
  tail_eq := rfl

theorem queue_networkInit : networkInit.queue = [] := rfl

namespace Network.Sound

variable {s : Network} (h : s.Sound)

include h

/-- A send of something acceptable asks only whether there is room. -/
theorem send_eq (dstIp : Word) (type : Byte) {data : Option (Nat → Byte)} {length : BitVec 16}
    (hacc : Acceptable data length) :
    networkSendPacket s dstIp type data length
      = if s.packetCount < maxPackets then (putPacket s dstIp type data length, 0)
        else (s, -1) := by
  obtain ⟨hle, hdata⟩ := hacc
  unfold networkSendPacket
  rw [if_neg]
  rintro (hinactive | hlong | ⟨hpos, hnull⟩)
  · exact h.active hinactive
  · omega
  · have hsome := hdata hpos
    cases data with
    | none => simp at hsome
    | some src => simp at hnull

theorem put (hroom : s.packetCount < maxPackets) (dstIp : Word) (type : Byte)
    (data : Option (Nat → Byte)) (length : BitVec 16) :
    (putPacket s dstIp type data length).Sound where
  active := h.active
  count_le := hroom
  tail_eq := by
    show (s.packetTail + 1) % maxPackets = (s.packetHead + (s.packetCount + 1)) % maxPackets
    rw [h.tail_eq, Nat.mod_add_mod, Nat.add_assoc]

theorem queue_put (hroom : s.packetCount < maxPackets) (dstIp : Word) (type : Byte)
    {data : Option (Nat → Byte)} {length : BitVec 16} (hacc : Acceptable data length) :
    (putPacket s dstIp type data length).queue
      = s.queue ++ [datagramOf dstIp s.netif.ip type data length] := by
  have hpush := Ring.contents_push s.packetBuffer s.packetHead hroom
    ((slot s.packetBuffer s.packetTail).fill dstIp s.netif.ip type data length)
  rw [← show s.packetTail = (s.packetHead + s.packetCount) % 32 from h.tail_eq] at hpush
  refine (congrArg (List.map NetworkPacket.datagram) hpush).trans ?_
  rw [List.map_append, List.map_singleton, datagram_fill _ _ _ _ hacc]
  rfl

theorem drop (hsome : s.packetCount ≠ 0) : (dropPacket s).Sound where
  active := h.active
  count_le := by
    have := h.count_le
    simp only [dropPacket]
    omega
  tail_eq := by
    show s.packetTail = ((s.packetHead + 1) % maxPackets + (s.packetCount - 1)) % maxPackets
    rw [h.tail_eq, Nat.mod_add_mod]
    congr 1
    omega

/-- Another configuration of the interface. -/
theorem setNetif {netif : NetworkInterface} (hactive : netif.active ≠ 0) :
    ({ s with netif := netif } : Network).Sound where
  active := hactive
  count_le := h.count_le
  tail_eq := h.tail_eq

end Network.Sound

theorem queue_setNetif (s : Network) (netif : NetworkInterface) :
    ({ s with netif := netif } : Network).queue = s.queue := rfl

theorem queue_drop {s : Network} (hsome : s.packetCount ≠ 0) :
    s.queue = (slot s.packetBuffer s.packetHead).datagram :: (dropPacket s).queue := by
  obtain ⟨count, hcount⟩ : ∃ count, s.packetCount = count + 1 := ⟨s.packetCount - 1, by omega⟩
  have hpop := Ring.contents_pop s.packetBuffer s.head_lt count
  unfold Network.queue
  rw [hcount, hpop, List.map_cons]
  simp only [dropPacket, hcount, Nat.add_sub_cancel]
  rfl

/-! ## Calls -/

/-- A call, watched by an observer who knows the address of the interface. -/
def Network.watch (s : Network) (call : NetworkCall) : Network × Word × NetworkAnswer :=
  ((s.step call).1, s.netif.ip, (s.step call).2)

/-- What a call sends successfully. -/
def sentBy : NetworkCall → Word × NetworkAnswer → List Datagram
  | .send dstIp type data length, (ip, .ret ret) =>
    if ret = 0 then [datagramOf dstIp ip type data length] else []
  | _, _ => []

/-- What a call receives successfully. -/
def receivedBy : NetworkCall → Word × NetworkAnswer → List Datagram
  | .receive _, (_, .packet p) => [p.datagram]
  | _, _ => []

/-- A send that is not acceptable. -/
theorem send_refused {s : Network} (dstIp : Word) (type : Byte) {data : Option (Nat → Byte)}
    {length : BitVec 16} (h : ¬ Acceptable data length) :
    networkSendPacket s dstIp type data length = (s, -1) := by
  unfold networkSendPacket
  rw [if_pos]
  by_contra hnot
  rw [not_or, not_or] at hnot
  obtain ⟨-, hle, hnull⟩ := hnot
  refine h ⟨by omega, fun hpos => ?_⟩
  cases data with
  | none => exact absurd ⟨hpos, rfl⟩ hnull
  | some src => rfl

/-- **What a call puts in, takes out and leaves.** -/
theorem Network.Sound.step {s : Network} (h : s.Sound) (call : NetworkCall) :
    (s.watch call).1.Sound ∧
      s.queue ++ sentBy call (s.watch call).2
        = receivedBy call (s.watch call).2 ++ (s.watch call).1.queue := by
  cases call with
  | send dstIp type data length =>
    simp only [Network.watch, Network.step, Prod.map_fst, Prod.map_snd, sentBy, receivedBy, id_eq,
      List.nil_append]
    by_cases hacc : Acceptable data length
    · rw [h.send_eq dstIp type hacc]
      by_cases hroom : s.packetCount < maxPackets
      · rw [if_pos hroom]
        exact ⟨h.put hroom dstIp type data length, (h.queue_put hroom dstIp type hacc).symm⟩
      · rw [if_neg hroom]
        exact ⟨h, List.append_nil _⟩
    · rw [send_refused dstIp type hacc]
      exact ⟨h, List.append_nil _⟩
  | receive packet =>
    simp only [Network.watch, Network.step, Prod.map_fst, Prod.map_snd, sentBy, id_eq,
      List.append_nil]
    unfold networkReceivePacket
    by_cases hnone : s.packetCount = 0 ∨ packet = false
    · rw [if_pos hnone]
      exact ⟨h, rfl⟩
    · rw [if_neg hnone]
      have hsome : s.packetCount ≠ 0 := fun h0 => hnone (Or.inl h0)
      exact ⟨h.drop hsome, queue_drop hsome⟩
  | setIp ip =>
    simp only [Network.watch, Network.step, Prod.map_fst, Prod.map_snd, sentBy, receivedBy, id_eq,
      List.append_nil, List.nil_append, networkSetIp]
    exact ⟨h.setNetif h.active, (queue_setNetif s _).symm⟩
  | setMac mac =>
    simp only [Network.watch, Network.step, Prod.map_fst, Prod.map_snd, sentBy, receivedBy, id_eq,
      List.append_nil, List.nil_append, networkSetMac]
    cases mac with
    | none => exact ⟨h, rfl⟩
    | some src => exact ⟨h.setNetif h.active, (queue_setNetif s _).symm⟩

/-- A call that returns `-1` leaves everything as it was. -/
theorem step_failed {s : Network} {call : NetworkCall} (hfail : (s.step call).2 = .ret (-1)) :
    (s.step call).1 = s := by
  cases call with
  | send dstIp type data length =>
    simp only [Network.step, networkSendPacket] at hfail ⊢
    split at hfail
    · next hbad => rw [if_pos hbad]; rfl
    · next hbad =>
      rw [if_neg hbad]
      split at hfail
      · simp at hfail
      · next hfull => rw [if_neg hfull]; rfl
  | receive packet =>
    simp only [Network.step, networkReceivePacket] at hfail ⊢
    split at hfail
    · next hnone => rw [if_pos hnone]; rfl
    · simp at hfail
  | setIp ip => simp [Network.step, networkSetIp] at hfail
  | setMac mac =>
    cases mac with
    | none => rfl
    | some src => simp [Network.step, networkSetMac] at hfail

/-! ## Runs -/

/-- The packets sent successfully, in order. -/
def sent (calls : List NetworkCall) : List Datagram :=
  observe Network.watch sentBy networkInit calls

/-- The packets received, in order. -/
def received (calls : List NetworkCall) : List Datagram :=
  observe Network.watch receivedBy networkInit calls

/-- The buffer after a run. -/
def networkAfter (calls : List NetworkCall) : Network := run Network.watch networkInit calls

theorem sound_networkAfter (calls : List NetworkCall) : (networkAfter calls).Sound :=
  inv_run_of_forall Network.watch (fun _ call hs => (hs.step call).1) calls sound_networkInit

/-- What was sent is what was received and what is in the buffer. -/
theorem sent_eq (calls : List NetworkCall) :
    sent calls = received calls ++ (networkAfter calls).queue := by
  have hbalance := observe_balance Network.watch (I := Network.Sound) Network.queue
    (fun _ call hs => hs.step call) sound_networkInit calls
  rw [queue_networkInit, List.nil_append] at hbalance
  exact hbalance

/-- The address of the interface after a call. -/
def NetworkCall.address (ip : Word) : NetworkCall → Word
  | .setIp ip' => ip'
  | _ => ip

/-- Only `network_set_ip` changes the address. -/
theorem ip_step (s : Network) (call : NetworkCall) :
    (s.step call).1.netif.ip = call.address s.netif.ip := by
  cases call with
  | send dstIp type data length =>
    show (networkSendPacket s dstIp type data length).1.netif.ip = s.netif.ip
    unfold networkSendPacket
    split_ifs
    · rfl
    · rfl
    · rfl
  | receive packet =>
    show (networkReceivePacket s packet).1.netif.ip = s.netif.ip
    unfold networkReceivePacket
    split_ifs
    · rfl
    · rfl
  | setIp ip => rfl
  | setMac mac =>
    show (networkSetMac s mac).1.netif.ip = s.netif.ip
    cases mac with
    | none => rfl
    | some src => simp only [networkSetMac]

theorem ip_run (s : Network) (calls : List NetworkCall) :
    (run Network.watch s calls).netif.ip = calls.foldl NetworkCall.address s.netif.ip := by
  induction calls generalizing s with
  | nil => rfl
  | cons call calls ih =>
    rw [run_cons, ih, List.foldl_cons]
    exact congrArg (List.foldl NetworkCall.address · calls) (ip_step s call)

/-- **The address is the one set last**, and at first that of `network_init`. -/
theorem ip_networkAfter (calls : List NetworkCall) :
    (networkAfter calls).netif.ip = calls.foldl NetworkCall.address 0xC0A80164 :=
  ip_run networkInit calls

/-- **A packet carries the address set last.** -/
theorem sent_concat {calls : List NetworkCall} {dstIp : Word} {type : Byte}
    {data : Option (Nat → Byte)} {length : BitVec 16}
    (hsent : (networkSendPacket (networkAfter calls) dstIp type data length).2 = 0) :
    sent (calls ++ [.send dstIp type data length])
      = sent calls ++
        [datagramOf dstIp (calls.foldl NetworkCall.address 0xC0A80164) type data length] := by
  have hlast : sentBy (.send dstIp type data length)
      ((networkAfter calls).watch (.send dstIp type data length)).2
        = [datagramOf dstIp (networkAfter calls).netif.ip type data length] := if_pos hsent
  rw [← ip_networkAfter, ← hlast]
  unfold sent
  rw [observe_append, observe_cons]
  exact congrArg (sent calls ++ ·) (List.append_nil _)

/--
**The packet buffer is a bounded queue.**

After `network_init` and any sequence of calls: the packets received are the first ones of those
sent, in order, each with the address the interface had when it was sent. A send with an
acceptable length and pointer fails exactly when thirty-two packets that were sent are not
received yet, a receive into a buffer exactly when none is, and a call that fails changes nothing.
-/
theorem network_fifo (calls : List NetworkCall) :
    received calls <+: sent calls ∧
      (∀ dstIp type data length, Acceptable data length →
        (networkSendPacket (networkAfter calls) dstIp type data length).2
          = if (sent calls).length = (received calls).length + 32 then -1 else 0) ∧
      ((networkReceivePacket (networkAfter calls) true).2 = none ↔
        (sent calls).length = (received calls).length) ∧
      ∀ call, ((networkAfter calls).step call).2 = .ret (-1) →
        ((networkAfter calls).step call).1 = networkAfter calls := by
  have hsound := sound_networkAfter calls
  have hsent := sent_eq calls
  have hlength : (sent calls).length
      = (received calls).length + (networkAfter calls).packetCount := by
    rw [hsent, List.length_append, length_queue]
  refine ⟨⟨_, hsent.symm⟩, ?_, ?_, fun call hfail => step_failed hfail⟩
  · intro dstIp type data length hacc
    have hle := hsound.count_le
    rw [hsound.send_eq dstIp type hacc, hlength]
    unfold maxPackets at hle ⊢
    by_cases hroom : (networkAfter calls).packetCount < 32
    · rw [if_pos hroom, if_neg (by omega)]
    · rw [if_neg hroom, if_pos (by omega)]
  · rw [hlength]
    unfold networkReceivePacket
    by_cases hzero : (networkAfter calls).packetCount = 0
    · rw [if_pos (Or.inl hzero)]
      exact iff_of_true rfl (by omega)
    · rw [if_neg (by simp [hzero])]
      exact iff_of_false (by simp) (by omega)

/-- Two bytes, after an empty packet that has not been received. -/
theorem network_fifo_second_packet :
    Acceptable (some fun k => [0x68, 0x69].getD k 0) 2 ∧
      (networkSendPacket (networkAfter [.send 0xC0A80101 17 none 0]) 0xC0A80101 17
          (some fun k => [0x68, 0x69].getD k 0) 2).2
        = if (sent [.send 0xC0A80101 17 none 0]).length
            = (received [.send 0xC0A80101 17 none 0]).length + 32 then -1 else 0 := by
  have hacc : Acceptable (some fun k => [0x68, 0x69].getD k 0) 2 := by
    refine ⟨by decide, fun _ => rfl⟩
  exact ⟨hacc, (network_fifo [.send 0xC0A80101 17 none 0]).2.1 _ _ _ _ hacc⟩

end MinimalistOS
