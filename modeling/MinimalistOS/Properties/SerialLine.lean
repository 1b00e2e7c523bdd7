import MinimalistOS.Infra.LineEnds
import MinimalistOS.Properties.LogNumbers

/-!
# What a terminal on the serial line shows

* `SerialCall.text` — the text a call is about
* `send_eq` — what it sends, as characters and newlines in two bytes
* `serial_text_received_iff` — a terminal shows the texts of all calls for its port, exactly when no
  newline that is sent as it is comes right after a carriage return
-/

namespace MinimalistOS

open Infra

open LineEnds (Sent)

namespace SerialCall

/-- The port a call sends to. -/
def port : SerialCall → BitVec 16
  | putchar com _ => com
  | write com _ => com
  | hex com _ => com
  | decimal _ com _ => com
  | debug _ => serialCom1Base
  | info _ => serialCom1Base
  | error _ => serialCom1Base
  | panic _ => serialCom1Base

/-- Eight digits in base 16. -/
def hexText (value : Word) : List Byte :=
  ascii "0x" ++ ((List.range 8).map fun i => value.toNat / 16 ^ i % 16).reverse.map upperByte

/-- The text a call is about. -/
def text : SerialCall → List Byte
  | putchar _ c => [c]
  | write _ str => str.bytes
  | hex _ value => hexText value
  | decimal _ _ value => numeral 10 value.toNat
  | debug message => ascii "[DEBUG] " ++ message.bytes ++ ascii "\n"
  | info message => ascii "[INFO] " ++ message.bytes ++ ascii "\n"
  | error message => ascii "[ERROR] " ++ message.bytes ++ ascii "\n"
  | panic message =>
    ascii "\n=== KERNEL PANIC ===\n" ++ message.bytes ++ ascii "\nSystem halted.\n"

/-- The characters of a string, its newlines in two bytes. -/
def translated (text : List Byte) : List Sent :=
  text.map fun c => if c = 0x0A then .line else .plain c

/-- How the text is sent. -/
def sent : SerialCall → List Sent
  | putchar _ c => [.plain c]
  | write _ str => translated str.bytes
  | hex _ value => (hexText value).map .plain
  | decimal _ _ value => (numeral 10 value.toNat).map .plain
  | debug message => translated (ascii "[DEBUG] " ++ message.bytes) ++ [.plain 0x0A]
  | info message => translated (ascii "[INFO] " ++ message.bytes) ++ [.plain 0x0A]
  | error message => translated (ascii "[ERROR] " ++ message.bytes) ++ [.plain 0x0A]
  | panic message => translated (ascii "\n=== KERNEL PANIC ===\n" ++ message.bytes ++
      ascii "\nSystem halted.\n")

theorem map_char_translated (text : List Byte) : (translated text).map Sent.char = text := by
  rw [translated, List.map_map]
  refine (List.map_congr_left fun c _ => ?_).trans (List.map_id text)
  show Sent.char (if c = 0x0A then .line else .plain c) = c
  split
  · next hc => exact hc.symm
  · rfl

theorem map_char_plain (text : List Byte) : (text.map Sent.plain).map Sent.char = text := by
  rw [List.map_map]
  exact List.map_id text

/-- What is sent is what is meant. -/
theorem map_char_sent (call : SerialCall) : call.sent.map Sent.char = call.text := by
  cases call with
  | putchar com c => rfl
  | write com str => exact map_char_translated str.bytes
  | hex com value => exact map_char_plain _
  | decimal stack com value => exact map_char_plain _
  | debug message => rw [sent, List.map_append, map_char_translated]; rfl
  | info message => rw [sent, List.map_append, map_char_translated]; rfl
  | error message => rw [sent, List.map_append, map_char_translated]; rfl
  | panic message => exact map_char_translated _

/-! ## The bytes -/

/-- `outb`s of one port. -/
def outbs (com : BitVec 16) (sent : List Sent) : List Outb :=
  (sent.flatMap Sent.bytes).map (Outb.mk com)

theorem outbs_append (com : BitVec 16) (l r : List Sent) :
    outbs com (l ++ r) = outbs com l ++ outbs com r := by
  rw [outbs, List.flatMap_append, List.map_append]
  rfl

theorem outbs_plain (com : BitVec 16) (text : List Byte) :
    outbs com (text.map Sent.plain) = text.map (Outb.mk com) := by
  rw [outbs, List.flatMap_map]
  show (text.flatMap fun c => [c]).map _ = _
  rw [List.flatMap_singleton']

theorem serialWrite_eq (com : BitVec 16) (str : CString) (before : List Outb) :
    serialWrite com str before = before ++ outbs com (translated str.bytes) := by
  unfold serialWrite
  generalize str.bytes = text
  induction text generalizing before with
  | nil => exact (List.append_nil before).symm
  | cons c text ih =>
    rw [List.foldl_cons, ih]
    show _ = before ++ outbs com ([if c = 0x0A then .line else .plain c] ++ translated text)
    rw [outbs_append]
    split
    · next hc =>
      subst hc
      simp [serialPutchar, outbs, Sent.bytes, LineEnds.carriageReturn, LineEnds.lineFeed]
    · simp [serialPutchar, outbs, Sent.bytes]

theorem serialMessage_eq {tag : CString} {text : List Byte} (htag : tag.bytes = text)
    (message : CString) (before : List Outb) :
    serialMessage tag message before = before ++
      outbs serialCom1Base (translated (text ++ message.bytes) ++ [.plain 0x0A]) := by
  have hsplit : translated (text ++ message.bytes) = translated text ++ translated message.bytes :=
    List.map_append
  rw [serialMessage, serialWrite_eq, serialWrite_eq, htag, outbs_append, hsplit, outbs_append,
    serialPutchar, List.append_assoc, List.append_assoc, List.append_assoc]
  rfl

/-- **A call** appends its text to what has been sent. -/
theorem send_eq (call : SerialCall) (before : List Outb) :
    call.send before = before ++ outbs call.port call.sent := by
  cases call with
  | putchar com c => rfl
  | write com str => exact serialWrite_eq com str before
  | hex com value =>
    show serialHex com value before = before ++ outbs com ((hexText value).map Sent.plain)
    rw [serialHex, serialHex.loop_eq, outbs_plain, hexText, List.map_append,
      show ascii "0x" = [0x30, 0x78] by decide, serialPutchar, serialPutchar]
    simp only [List.append_assoc]
    rfl
  | decimal stack com value =>
    show serialDecimal stack com value before = _
    rw [serialDecimal_eq]
    exact congrArg (before ++ ·) (outbs_plain com _).symm
  | debug message => exact serialMessage_eq (by decide) message before
  | info message => exact serialMessage_eq (by decide) message before
  | error message => exact serialMessage_eq (by decide) message before
  | panic message =>
    have hhead : (literal "\n=== KERNEL PANIC ===\n").bytes = ascii "\n=== KERNEL PANIC ===\n" := by
      decide
    have htail : (literal "\nSystem halted.\n").bytes = ascii "\nSystem halted.\n" := by decide
    have hsplit : ∀ l r : List Byte, translated (l ++ r) = translated l ++ translated r :=
      fun _ _ => List.map_append
    show serialPanic message before = before ++ outbs serialCom1Base (translated _)
    rw [serialPanic, serialWrite_eq, serialWrite_eq, serialWrite_eq, hhead, htail, hsplit, hsplit,
      outbs_append, outbs_append]
    simp only [List.append_assoc]

end SerialCall

/-! ## The line -/

/-- What arrives on a port. -/
def onPort (com : BitVec 16) (sent : List Outb) : List Byte :=
  (sent.filter fun o => decide (o.port = com)).map Outb.value

/-- The calls that send to a port. -/
def callsFor (com : BitVec 16) (calls : List SerialCall) : List SerialCall :=
  calls.filter fun call => decide (call.port = com)

theorem onPort_append (com : BitVec 16) (l r : List Outb) :
    onPort com (l ++ r) = onPort com l ++ onPort com r := by
  rw [onPort, List.filter_append, List.map_append]
  rfl

theorem onPort_outbs (com port : BitVec 16) (sent : List Sent) :
    onPort com (SerialCall.outbs port sent) = if port = com then sent.flatMap Sent.bytes else [] := by
  rw [onPort, SerialCall.outbs, List.filter_map, List.map_map]
  by_cases h : port = com
  · rw [if_pos h, List.filter_eq_self.mpr]
    · exact List.map_id _
    · exact fun c _ => decide_eq_true h
  · rw [if_neg h, List.filter_eq_nil_iff.mpr]
    · rfl
    · exact fun c _ hc => h (of_decide_eq_true hc)

theorem callsFor_cons (com : BitVec 16) (call : SerialCall) (calls : List SerialCall) :
    callsFor com (call :: calls)
      = if call.port = com then call :: callsFor com calls else callsFor com calls := by
  simp only [callsFor, List.filter_cons, decide_eq_true_eq]

/-- What arrives on a port are the bytes of the calls for it. -/
theorem onPort_run (com : BitVec 16) (calls : List SerialCall) : ∀ before : List Outb,
    onPort com (calls.foldl SerialCall.send before)
      = onPort com before ++ ((callsFor com calls).flatMap SerialCall.sent).flatMap Sent.bytes := by
  induction calls with
  | nil => exact fun before => (List.append_nil _).symm
  | cons call calls ih =>
    intro before
    rw [List.foldl_cons, ih, SerialCall.send_eq, onPort_append, onPort_outbs, callsFor_cons]
    split
    · rw [List.flatMap_cons, List.flatMap_append, List.append_assoc]
    · rw [List.append_nil]

/--
**The texts arrive as they are.**

After any calls, in any order and for any ports, a terminal on a port that takes a carriage return
and a newline as one newline shows the texts of the calls for that port, one after the other. This
is so exactly when no newline that is sent as it is, by `serial_putchar` or at the end of a message,
comes right after a carriage return on that port.
-/
theorem serial_text_received_iff (calls : List SerialCall) (com : BitVec 16) :
    LineEnds.received (onPort com (calls.foldl SerialCall.send []))
        = (callsFor com calls).flatMap SerialCall.text ↔
      ((callsFor com calls).flatMap SerialCall.sent).IsChain Sent.Apart := by
  have htext : (callsFor com calls).flatMap SerialCall.text
      = ((callsFor com calls).flatMap SerialCall.sent).map Sent.char := by
    rw [List.map_flatMap]
    exact List.flatMap_congr fun call _ => call.map_char_sent.symm
  rw [onPort_run, htext]
  exact LineEnds.received_iff _

/-- A message that ends with a carriage return loses it. -/
example : ¬ ((callsFor serialCom1Base [.info (literal "done\r")]).flatMap SerialCall.sent).IsChain
    Sent.Apart := by
  decide

end MinimalistOS
