import MinimalistOS.Infra.Ring
import MinimalistOS.Infra.Run
import MinimalistOS.Kernel.String

/-!
# `kernel/network.c`: the packet buffer

There is no hardware behind the stack: a packet that is sent goes into a circular array of
thirty-two packets, and a receive takes the oldest one out of it.
-/

namespace MinimalistOS

open Infra

/-- `NET_BUFFER_SIZE`. -/
def netBufferSize : Nat := 1514

/-- `MAX_PACKETS`. -/
def maxPackets : Nat := 32

theorem maxPackets_pos : 0 < maxPackets := by decide

/-- `network_interface_t`. -/
structure NetworkInterface where
  mac : Vector Byte 6
  ip : Word
  netmask : Word
  gateway : Word
  active : Byte
  deriving DecidableEq

/-- `network_packet_t`. -/
structure NetworkPacket where
  data : Vector Byte 1514
  length : BitVec 16
  type : Byte
  srcIp : Word
  dstIp : Word
  deriving DecidableEq, Inhabited

/-- The static data of `network.c`. The two indices are only ever remainders. -/
structure Network where
  netif : NetworkInterface
  packetBuffer : Vector NetworkPacket 32
  packetHead : Nat
  packetTail : Nat
  packetCount : Nat
  head_lt : packetHead < maxPackets
  tail_lt : packetTail < maxPackets

/-- A packet of zeros, as `memset` leaves it. -/
def zeroPacket : NetworkPacket where
  data := Vector.replicate 1514 0
  length := 0
  type := 0
  srcIp := 0
  dstIp := 0

def networkInit : Network where
  netif :=
    { mac := #v[0x52, 0x54, 0x00, 0x12, 0x34, 0x56]
      ip := 0xC0A80164
      netmask := 0xFFFFFF00
      gateway := 0xC0A80101
      active := 1 }
  packetBuffer := Vector.replicate 32 zeroPacket
  packetHead := 0
  packetTail := 0
  packetCount := 0
  head_lt := maxPackets_pos
  tail_lt := maxPackets_pos

/-! ## Sending -/

/-- What `network_send_packet` writes into the slot at `packet_tail`. -/
def NetworkPacket.fill (packet : NetworkPacket) (dstIp srcIp : Word) (type : Byte)
    (data : Option (Nat → Byte)) (length : BitVec 16) : NetworkPacket where
  data := match data with
    | some src => if 0 < length.toNat then memcpy packet.data src length.toNat else packet.data
    | none => packet.data
  length := length
  type := type
  srcIp := srcIp
  dstIp := dstIp

/-- The part of `network_send_packet` after its checks. -/
def putPacket (s : Network) (dstIp : Word) (type : Byte) (data : Option (Nat → Byte))
    (length : BitVec 16) : Network where
  netif := s.netif
  packetBuffer := modifySlot s.packetBuffer s.packetTail fun packet =>
    packet.fill dstIp s.netif.ip type data length
  packetHead := s.packetHead
  packetTail := (s.packetTail + 1) % maxPackets
  packetCount := s.packetCount + 1
  head_lt := s.head_lt
  tail_lt := Nat.mod_lt _ maxPackets_pos

def networkSendPacket (s : Network) (dstIp : Word) (type : Byte) (data : Option (Nat → Byte))
    (length : BitVec 16) : Network × Int :=
  if s.netif.active = 0 ∨ netBufferSize < length.toNat ∨
      (0 < length.toNat ∧ data.isNone = true) then (s, -1)
  else if s.packetCount < maxPackets then (putPacket s dstIp type data length, 0)
  else (s, -1)

/-! ## Receiving -/

/-- The part of `network_receive_packet` after its checks: `packet_head` and `packet_count`. -/
def dropPacket (s : Network) : Network where
  netif := s.netif
  packetBuffer := s.packetBuffer
  packetHead := (s.packetHead + 1) % maxPackets
  packetTail := s.packetTail
  packetCount := s.packetCount - 1
  head_lt := Nat.mod_lt _ maxPackets_pos
  tail_lt := s.tail_lt

/-- `network_receive_packet`: what is left in `*packet`, or `none` for `-1`. `packet` says whether
the pointer is not null. -/
def networkReceivePacket (s : Network) (packet : Bool) : Network × Option NetworkPacket :=
  if s.packetCount = 0 ∨ packet = false then (s, none)
  else (dropPacket s, some (slot s.packetBuffer s.packetHead))

/-! ## The interface -/

def networkSetIp (s : Network) (ip : Word) : Network × Int :=
  ({ s with netif := { s.netif with ip := ip } }, 0)

/-- A packet sent after it carries the new address. -/
theorem putPacket_networkSetIp (s : Network) (ip dstIp : Word) (type : Byte)
    (data : Option (Nat → Byte)) (length : BitVec 16) :
    slot (putPacket (networkSetIp s ip).1 dstIp type data length).packetBuffer s.packetTail
      = (slot s.packetBuffer s.packetTail).fill dstIp ip type data length :=
  (slot_modifySlot s.packetBuffer s.tail_lt _ _).trans (if_pos rfl)

/-- `network_set_mac`; `mac` is what the pointer points at. -/
def networkSetMac (s : Network) (mac : Option (Nat → Byte)) : Network × Int :=
  match mac with
  | some src => ({ s with netif := { s.netif with mac := memcpy s.netif.mac src 6 } }, 0)
  | none => (s, -1)

/-! ## Calls -/

inductive NetworkCall where
  | send (dstIp : Word) (type : Byte) (data : Option (Nat → Byte)) (length : BitVec 16)
  | receive (packet : Bool)
  | setIp (ip : Word)
  | setMac (mac : Option (Nat → Byte))

/-- What a call returns; a successful receive returns `0` with the packet. -/
inductive NetworkAnswer where
  | ret (ret : Int)
  | packet (packet : NetworkPacket)
  deriving DecidableEq

def Network.step (s : Network) : NetworkCall → Network × NetworkAnswer
  | .send dstIp type data length => (networkSendPacket s dstIp type data length).map id .ret
  | .receive packet =>
    (networkReceivePacket s packet).map id fun
      | some p => .packet p
      | none => .ret (-1)
  | .setIp ip => (networkSetIp s ip).map id .ret
  | .setMac mac => (networkSetMac s mac).map id .ret

end MinimalistOS
