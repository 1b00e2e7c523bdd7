import MinimalistOS.Infra.Run
import MinimalistOS.Kernel.String

/-!
# `kernel/ipc.c`: message passing

One circular array of sixteen messages for all processes. `ipc_send` writes at `queue_tail`;
`ipc_receive` scans from `queue_head`, copies the first message for its caller out and moves the
later ones down. The pid of the caller, `process_get_current()->pid`, comes with each call.
-/

namespace MinimalistOS

open Infra

/-- `MAX_MSG_SIZE`. -/
def maxMsgSize : Nat := 256

/-- `MAX_MESSAGES`. -/
def maxMessages : Nat := 16

theorem maxMessages_pos : 0 < maxMessages := by decide

/-- `ipc_msg_t`. -/
structure IpcMsg where
  sender : Word
  receiver : Word
  type : Byte
  length : BitVec 16
  data : Vector Byte 256
  deriving DecidableEq, Inhabited

/-- The static data of `ipc.c`. `queue_tail` is only ever a remainder. -/
structure Ipc where
  messageQueue : Vector IpcMsg 16
  queueHead : Nat
  queueTail : Nat
  queueCount : Nat
  tail_lt : queueTail < maxMessages

def ipcInit (q : Ipc) : Ipc where
  messageQueue := q.messageQueue
  queueHead := 0
  queueTail := 0
  queueCount := 0
  tail_lt := maxMessages_pos

/-! ## `ipc_send` -/

/-- What `ipc_send` writes into the slot at `queue_tail`. The data is copied only from a pointer
that is not null, and only `len` bytes of it. -/
def IpcMsg.fill (msg : IpcMsg) (pid receiver : Word) (type : Byte) (data : Option (Nat → Byte))
    (len : BitVec 16) : IpcMsg where
  sender := pid
  receiver := receiver
  type := type
  length := len
  data := match data with
    | some src => if 0 < len.toNat then memcpy msg.data src len.toNat else msg.data
    -- the bytes of the slot's last message stay, and `length` counts them as this one's
    | none => msg.data

/-- The part of `ipc_send` after its checks. -/
def enqueue (q : Ipc) (pid receiver : Word) (type : Byte) (data : Option (Nat → Byte))
    (len : BitVec 16) : Ipc where
  messageQueue := modifySlot q.messageQueue q.queueTail fun msg =>
    msg.fill pid receiver type data len
  queueHead := q.queueHead
  queueTail := (q.queueTail + 1) % maxMessages
  queueCount := q.queueCount + 1
  tail_lt := Nat.mod_lt _ maxMessages_pos

/-- `ipc_send(receiver, type, data, len)` by process `pid`. -/
def ipcSend (q : Ipc) (pid receiver : Word) (type : Byte) (data : Option (Nat → Byte))
    (len : BitVec 16) : Ipc × Int :=
  if maxMessages ≤ q.queueCount then (q, -1)
  else if maxMsgSize < len.toNat then (q, -2)
  else (enqueue q pid receiver type data len, 0)

/-! ## `ipc_receive` -/

/-- The message at position `i` from the head. -/
def Ipc.message (q : Ipc) (i : Nat) : IpcMsg :=
  slot q.messageQueue ((q.queueHead + i) % maxMessages)

/-- The test of `ipc_receive`: the message is for the caller and passes the filter. -/
def IpcMsg.wanted (pid sender : Word) (msg : IpcMsg) : Bool :=
  msg.receiver == pid && (sender == 0 || msg.sender == sender)

/-- The search loop of `ipc_receive` from position `i` on, with the number of messages left. -/
def findMessage (q : Ipc) (pid sender : Word) (i : Nat) : Nat → Option Nat
  | 0 => none
  | n + 1 => if (q.message i).wanted pid sender then some i else findMessage q pid sender (i + 1) n

/-- `message_queue[dst] = message_queue[src]` for position `j` and the one after it. -/
def moveDown (q : Ipc) (j : Nat) : Ipc :=
  let src := (q.queueHead + j + 1) % maxMessages
  let dst := (q.queueHead + j) % maxMessages
  { q with messageQueue := q.messageQueue.setIfInBounds dst (slot q.messageQueue src) }

/-- The loop that moves the messages after position `j` down by one, `n` of them. -/
def shiftDown (q : Ipc) (j : Nat) : Nat → Ipc
  | 0 => q
  | n + 1 => shiftDown (moveDown q j) (j + 1) n

/-- `ipc_receive(sender, msg)` by process `pid`: what is left in `*msg`, or `none` for `-1`. -/
def ipcReceive (q : Ipc) (pid sender : Word) : Ipc × Option IpcMsg :=
  if q.queueCount = 0 then (q, none)
  else
    match findMessage q pid sender 0 q.queueCount with
    | none => (q, none)
    | some i =>
      -- `queue_tail` is not moved back
      ({ shiftDown q i (q.queueCount - 1 - i) with queueCount := q.queueCount - 1 },
        some (q.message i))

/-! ## Calls -/

inductive IpcCall where
  | send (pid receiver : Word) (type : Byte) (data : Option (Nat → Byte)) (len : BitVec 16)
  | receive (pid sender : Word)

inductive IpcAnswer where
  | sent (ret : Int)
  | received (msg : Option IpcMsg)
  deriving DecidableEq

def Ipc.step (q : Ipc) : IpcCall → Ipc × IpcAnswer
  | .send pid receiver type data len =>
    ((ipcSend q pid receiver type data len).1, .sent (ipcSend q pid receiver type data len).2)
  | .receive pid sender => ((ipcReceive q pid sender).1, .received (ipcReceive q pid sender).2)

end MinimalistOS
