import MinimalistOS.Infra.Linked
import MinimalistOS.Infra.Run
import MinimalistOS.Kernel.Page
import MinimalistOS.Kernel.String

/-!
# `kernel/device.c`: the device registry

A linked list of devices, each in a page of its own that `alloc_page` gave. A node is the
`device_t` at the start of its page. A walk along the list has at most `total_pages` turns here;
`none` is one that has not ended by then.
-/

namespace MinimalistOS

open Infra

/-- `device_t`. -/
structure Device where
  name : Vector Byte 32
  type : Word
  major : Word
  minor : Word
  ops : Word
  privateData : Word
  next : Word
  deriving DecidableEq, Inhabited

/-- `device_list`, the devices at the addresses of pages, and the page allocator. -/
structure Devices where
  deviceList : Word
  nodes : Word → Device
  pages : PageAllocator

def deviceInit (s : Devices) : Devices := { s with deviceList := 0 }

/-- What `device_register` makes of the page it got. -/
def Device.fill (dev : Device) (name : CString) (type major minor ops next : Word) : Device where
  name := (strncpy dev.name name.bytes 31).setIfInBounds 31 0
  type := type
  major := major
  minor := minor
  ops := ops
  privateData := 0
  next := next

def deviceRegister (s : Devices) (name : CString) (type major minor ops : Word) : Devices × Int :=
  let r := allocPage s.pages
  let dev := r.2
  if dev = 0 then ({ s with pages := r.1 }, -1)
  else
    ({ deviceList := dev
       nodes := Function.update s.nodes dev
         ((s.nodes dev).fill name type major minor ops s.deviceList)
       pages := r.1 }, 0)

/-- `strcmp(current->name, name) == 0`. -/
def Devices.isNamed (s : Devices) (name : CString) (current : Word) : Bool :=
  strcmp (s.nodes current).name.toList name.bytes == 0

/-- `current->major == major && current->minor == minor`. -/
def Devices.isNumbered (s : Devices) (major minor : Word) (current : Word) : Bool :=
  (s.nodes current).major == major && (s.nodes current).minor == minor

/-- `current->next`. -/
def Devices.next (s : Devices) (current : Word) : Word := (s.nodes current).next

/-- What `device_unregister` does with the device it has found. -/
def Devices.remove (s : Devices) (prev current : Word) : Devices :=
  let unlinked : Devices :=
    if prev ≠ 0 then
      let dev : Device := { s.nodes prev with next := s.next current }
      { s with nodes := Function.update s.nodes prev dev }
    else { s with deviceList := s.next current }
  { unlinked with pages := freePage unlinked.pages current }

/-- `device_unregister`; its walk also keeps the device before. -/
def deviceUnregister (s : Devices) (name : CString) : Option (Devices × Int) :=
  match walkPrev s.next 0 (s.isNamed name) totalPages 0 s.deviceList with
  | none => none
  | some (prev, current) => if current = 0 then some (s, -1) else some (s.remove prev current, 0)

def deviceFind (s : Devices) (name : CString) : Option Word :=
  walkTo s.next 0 (s.isNamed name) totalPages s.deviceList

def deviceFindByNumber (s : Devices) (major minor : Word) : Option Word :=
  walkTo s.next 0 (s.isNumbered major minor) totalPages s.deviceList

/-! ## Calls -/

inductive DeviceCall where
  | register (name : CString) (type major minor ops : Word)
  | unregister (name : CString)
  | allocPage
  deriving DecidableEq

/-- What a call returns. -/
inductive DeviceAnswer where
  | result (value : Int)
  | page (addr : Word)
  | endless
  deriving DecidableEq

def Devices.step (s : Devices) : DeviceCall → Devices × DeviceAnswer
  | .register name type major minor ops =>
    let r := deviceRegister s name type major minor ops
    (r.1, .result r.2)
  | .unregister name =>
    match deviceUnregister s name with
    | some r => (r.1, .result r.2)
    | none => (s, .endless)
  | .allocPage =>
    let r := MinimalistOS.allocPage s.pages
    ({ s with pages := r.1 }, .page r.2)

end MinimalistOS
