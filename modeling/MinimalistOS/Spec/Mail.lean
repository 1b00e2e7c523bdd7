import MinimalistOS.Infra.Mailbox
import MinimalistOS.Kernel.Ipc

/-!
# What message passing is for

The ideal: one mailbox for all processes. A send that was accepted puts its message in; a receive
takes the first message that is addressed to its caller and passes its filter. `history` reads a
run of `ipc.c` as events of that mailbox, whatever the code answered.
-/

namespace MinimalistOS

open Infra Mailbox

/-- A message as its sender gave it. -/
structure Sent where
  sender : Word
  receiver : Word
  type : Byte
  length : BitVec 16
  data : Option (Nat → Byte)

/-- The message is addressed to `pid` and passes the filter; `0` lets every sender pass. -/
def Sent.isFor (pid filter : Word) (s : Sent) : Bool :=
  s.receiver == pid && (filter == 0 || s.sender == filter)

/-- A received structure carries the message: all its fields, and the bytes the sender supplied. -/
structure Carries (m : IpcMsg) (s : Sent) : Prop where
  sender : m.sender = s.sender
  receiver : m.receiver = s.receiver
  type : m.type = s.type
  length : m.length = s.length
  data : ∀ src, s.data = some src → ∀ j < s.length.toNat, slot m.data j = src j

/-- A call with its answer, as events of the mailbox. A send that is refused is none. -/
def IpcCall.events : IpcCall → IpcAnswer → List (Event Sent IpcMsg)
  | .send pid receiver type data len, .sent ret =>
    if ret = 0 then [.put ⟨pid, receiver, type, len, data⟩] else []
  | .receive pid sender, .received msg => [.take (Sent.isFor pid sender) msg]
  | _, _ => []

/-- A run of the code, read as events of the mailbox. -/
def history (q : Ipc) (calls : List IpcCall) : List (Event Sent IpcMsg) :=
  observe Ipc.step IpcCall.events q calls

end MinimalistOS
