import MinimalistOS.Infra.Word

/-!
# `kernel/pci.c`: looking for a device

The configuration space is read through two ports: an address goes to the first, and the second
then shows the dword at it. A device is looked for on bus 0 only. The messages to the log are left
out.
-/

namespace MinimalistOS

open Infra

/-- `PCI_CONFIG_ADDRESS`. -/
def pciConfigAddressPort : BitVec 16 := 0xCF8

/-- `PCI_CONFIG_DATA`. -/
def pciConfigDataPort : BitVec 16 := 0xCFC

/-- The dwords of all functions, by bus, slot, function and register. -/
abbrev PciSpace := Byte → BitVec 5 → BitVec 3 → BitVec 6 → Word

/-- The two ports: the address written last, and what stands behind. -/
structure PciPorts where
  configAddress : Word
  space : PciSpace

/-- `pci_device_t`. -/
structure PciDevice where
  bus : Byte
  slot : Byte
  function : Byte
  vendorId : BitVec 16
  deviceId : BitVec 16
  bar0 : Word
  irqLine : Byte
  deriving DecidableEq, Repr

/-! ## The ports -/

/-- `outl`. -/
def PciPorts.outl (p : PciPorts) (port : BitVec 16) (value : Word) : PciPorts :=
  if port = pciConfigAddressPort then { p with configAddress := value } else p

/-- The dword at the address. -/
def PciPorts.data (p : PciPorts) : Word :=
  p.space (p.configAddress.extractLsb' 16 8) (p.configAddress.extractLsb' 11 5)
    (p.configAddress.extractLsb' 8 3) (p.configAddress.extractLsb' 2 6)

/-- `inl`. Without the enable bit there is no access to the configuration space, and nothing
answers. -/
def PciPorts.inl (p : PciPorts) (port : BitVec 16) : Word :=
  if port = pciConfigDataPort ∧ p.configAddress.getLsbD 31 = true then p.data else 0xFFFFFFFF

/-! ## Reading a register -/

def pciConfigAddress (bus slot func offset : Byte) : Word :=
  1 <<< 31 ||| bus.setWidth 32 <<< 16 ||| slot.setWidth 32 <<< 11 ||| func.setWidth 32 <<< 8 |||
    (offset &&& 0xFC).setWidth 32

def pciReadConfigWord (p : PciPorts) (bus slot func offset : Byte) : PciPorts × BitVec 16 :=
  let p := p.outl pciConfigAddressPort (pciConfigAddress bus slot func offset)
  let data := p.inl pciConfigDataPort
  (p, if offset &&& 2 ≠ 0 then (data >>> 16).setWidth 16 else (data &&& 0xFFFF).setWidth 16)

def pciReadConfigDword (p : PciPorts) (bus slot func offset : Byte) : PciPorts × Word :=
  let p := p.outl pciConfigAddressPort (pciConfigAddress bus slot func offset)
  (p, p.inl pciConfigDataPort)

/-! ## Looking for a device -/

/-- The loop over the functions of a slot, from `func` on with `n` rounds to go: what is left in
`*out` when the device is found. -/
def pciFindDevice.funcs (vendor device : BitVec 16) (slot : Byte) :
    Nat → Byte → PciPorts → PciPorts × Option PciDevice
  | 0, _, p => (p, none)
  | n + 1, func, p =>
    let v := pciReadConfigWord p 0 slot func 0x00
    if v.2 = 0xFFFF then
      -- "If function 0 is missing, the whole slot is empty"
      if func = 0 then (v.1, none)
      else pciFindDevice.funcs vendor device slot n (func + 1) v.1
    else
      let d := pciReadConfigWord v.1 0 slot func 0x02
      if v.2 = vendor ∧ d.2 = device then
        let bar0 := pciReadConfigDword d.1 0 slot func 0x10
        let irqData := pciReadConfigDword bar0.1 0 slot func 0x3C
        (irqData.1, some
          { bus := 0
            slot
            function := func
            vendorId := v.2
            deviceId := d.2
            bar0 := bar0.2
            irqLine := (irqData.2 &&& 0xFF).setWidth 8 })
      else pciFindDevice.funcs vendor device slot n (func + 1) d.1

/-- The loop over the slots, from `slot` on with `n` rounds to go. -/
def pciFindDevice.slots (vendor device : BitVec 16) :
    Nat → Byte → PciPorts → PciPorts × Option PciDevice
  | 0, _, p => (p, none)
  | n + 1, slot, p =>
    let r := pciFindDevice.funcs vendor device slot 8 0 p
    match r.2 with
    | some found => (r.1, some found)
    | none => pciFindDevice.slots vendor device n (slot + 1) r.1

/-- `pci_find_device`: the ports, what is left in `*out`, and the answer. `out` is `none` for a null
pointer. -/
def pciFindDevice (p : PciPorts) (vendor device : BitVec 16) (out : Option PciDevice) :
    PciPorts × Option PciDevice × Int :=
  match out with
  | none => (p, none, -1)
  | some old =>
    let r := pciFindDevice.slots vendor device 32 0 p
    match r.2 with
    | some found => (r.1, some found, 0)
    | none => (r.1, some old, -1)

end MinimalistOS
