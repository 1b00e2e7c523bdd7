import MinimalistOS.Kernel.Device

/-!
# `kernel/device.c`: the operations of a device

`device_open` and its siblings look a device up by its name and hand the call to a function of the
driver. A driver's `device_ops_t` is static data that nothing changes, so the tables come as a
function from addresses. What a driver's function does is not modelled: the reply is which function
is called with what, and the call returns what that function returns.
-/

namespace MinimalistOS

open Infra

/-- `device_ops_t`: the addresses of five functions, `0` is `NULL`. -/
structure DeviceOps where
  openFn : Word
  closeFn : Word
  readFn : Word
  writeFn : Word
  ioctlFn : Word
  deriving DecidableEq, Repr

/-- A device as a caller sees it through the pointer of `device_find`. -/
structure DeviceView where
  name : CString
  type : Word
  major : Word
  minor : Word
  ops : Word
  deriving DecidableEq

def Device.view (dev : Device) : DeviceView where
  name := CString.ofArray dev.name
  type := dev.type
  major := dev.major
  minor := dev.minor
  ops := dev.ops

/-- What a call comes to. -/
inductive DeviceReply where
  | result (value : Int)
  | page (given : Bool)
  | device (view : Option DeviceView)
  | calls (function : Word) (args : List Word)
  | endless
  deriving DecidableEq

/-- `!dev || !dev->ops || !dev->ops->f`, and the call of `f` otherwise. -/
def Devices.callOp (s : Devices) (opsAt : Word → DeviceOps) (name : CString)
    (f : DeviceOps → Word) (args : List Word) : DeviceReply :=
  match deviceFind s name with
  | none => .endless
  | some dev =>
    let ops := (s.nodes dev).ops
    if dev = 0 ∨ ops = 0 ∨ f (opsAt ops) = 0 then .result (-1) else .calls (f (opsAt ops)) args

section

variable (s : Devices) (opsAt : Word → DeviceOps) (name : CString)

def deviceOpen : DeviceReply := s.callOp opsAt name DeviceOps.openFn []

def deviceClose : DeviceReply := s.callOp opsAt name DeviceOps.closeFn []

def deviceRead (buffer size : Word) : DeviceReply :=
  s.callOp opsAt name DeviceOps.readFn [buffer, size]

def deviceWrite (buffer size : Word) : DeviceReply :=
  s.callOp opsAt name DeviceOps.writeFn [buffer, size]

def deviceIoctl (cmd arg : Word) : DeviceReply := s.callOp opsAt name DeviceOps.ioctlFn [cmd, arg]

end

/-! ## Calls -/

inductive DeviceRequest where
  | registry (call : DeviceCall)
  | find (name : CString)
  | findByNumber (major minor : Word)
  | open' (name : CString)
  | close (name : CString)
  | read (name : CString) (buffer size : Word)
  | write (name : CString) (buffer size : Word)
  | ioctl (name : CString) (cmd arg : Word)
  deriving DecidableEq

/-- An answer without the address of the page. -/
def DeviceAnswer.reply : DeviceAnswer → DeviceReply
  | .result value => .result value
  | .page addr => .page (addr != 0)
  | .endless => .endless

/-- What a caller sees through a pointer that a search returned. -/
def Devices.viewAt (s : Devices) : Option Word → DeviceReply
  | none => .endless
  | some dev => .device (if dev = 0 then none else some (s.nodes dev).view)

def Devices.serve (opsAt : Word → DeviceOps) (s : Devices) :
    DeviceRequest → Devices × DeviceReply
  | .registry call => ((s.step call).1, (s.step call).2.reply)
  | .find name => (s, s.viewAt (deviceFind s name))
  | .findByNumber major minor => (s, s.viewAt (deviceFindByNumber s major minor))
  | .open' name => (s, deviceOpen s opsAt name)
  | .close name => (s, deviceClose s opsAt name)
  | .read name buffer size => (s, deviceRead s opsAt name buffer size)
  | .write name buffer size => (s, deviceWrite s opsAt name buffer size)
  | .ioctl name cmd arg => (s, deviceIoctl s opsAt name cmd arg)

end MinimalistOS
