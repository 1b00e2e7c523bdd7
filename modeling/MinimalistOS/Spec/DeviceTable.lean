import MinimalistOS.Kernel.DeviceIo

/-!
# What the device registry is for

A list of devices, the last one registered first, and a number of pages. A device costs one page;
a name finds the last device registered under it. Of a name the first 31 bytes are kept, so that a
longer name finds nothing.
-/

namespace MinimalistOS

open Infra

structure DeviceTable where
  devices : List DeviceView
  free : Nat

namespace DeviceTable

/-- All pages above the first mebibyte are there for devices. -/
def init : DeviceTable where
  devices := []
  free := 768

/-- The last device registered under a name. -/
def named (t : DeviceTable) (name : CString) : Option DeviceView :=
  t.devices.find? fun d => decide (d.name = name)

/-- A call of a device's function. -/
def call (t : DeviceTable) (opsAt : Word → DeviceOps) (name : CString) (f : DeviceOps → Word)
    (args : List Word) : DeviceReply :=
  match t.named name with
  | none => .result (-1)
  | some d =>
    if d.ops = 0 ∨ f (opsAt d.ops) = 0 then .result (-1) else .calls (f (opsAt d.ops)) args

def change (t : DeviceTable) : DeviceCall → DeviceTable × DeviceReply
  | .register name type major minor ops =>
    if t.free = 0 then (t, .result (-1))
    else
      ({ devices := ⟨name.truncate 31, type, major, minor, ops⟩ :: t.devices
         free := t.free - 1 }, .result 0)
  | .unregister name =>
    match t.named name with
    | none => (t, .result (-1))
    | some _ =>
      ({ devices := t.devices.eraseP fun d => decide (d.name = name), free := t.free + 1 },
        .result 0)
  | .allocPage => ({ t with free := t.free - 1 }, .page (t.free != 0))

def step (opsAt : Word → DeviceOps) (t : DeviceTable) : DeviceRequest → DeviceTable × DeviceReply
  | .registry c => t.change c
  | .find name => (t, .device (t.named name))
  | .findByNumber major minor =>
    (t, .device (t.devices.find? fun d => decide (d.major = major ∧ d.minor = minor)))
  | .open' name => (t, t.call opsAt name DeviceOps.openFn [])
  | .close name => (t, t.call opsAt name DeviceOps.closeFn [])
  | .read name buffer size => (t, t.call opsAt name DeviceOps.readFn [buffer, size])
  | .write name buffer size => (t, t.call opsAt name DeviceOps.writeFn [buffer, size])
  | .ioctl name cmd arg => (t, t.call opsAt name DeviceOps.ioctlFn [cmd, arg])

end DeviceTable

end MinimalistOS
