-- The PCI scan (kernel/drivers/pci.c): the configuration space behind its two ports, the scan of
-- buses 0 to 7 into the table, and the search in it.
import Mathlib.Algebra.Group.Nat.Defs
import Mathlib.Data.List.ProdSigma
import Mathlib.Logic.Function.Basic

namespace SpaceOS.Pci

abbrev PCI_MAX_DEVICES : Nat := 64

def PCI_VENDOR_ID : UInt8 := 0x00

def PCI_CLASS_CODE : UInt8 := 0x08

def PCI_HEADER_TYPE : UInt8 := 0x0E

def PCI_BAR0 : UInt8 := 0x10

def PCI_INTERRUPT_LINE : UInt8 := 0x3C

/-! ## The configuration space -/

/-- The words of the configuration space: by bus, device, function and place. -/
abbrev Config := UInt8 → UInt8 → UInt8 → UInt8 → UInt32

/-- What the data port gives after a word went to the address port: the bus is in bits 16 to 23, the
device in 11 to 15, the function in 8 to 10 and the place in 0 to 7. -/
def Config.responde (cfg : Config) (addr : UInt32) : UInt32 :=
  cfg (UInt8.ofNat (addr.toNat / 2 ^ 16 % 2 ^ 8)) (UInt8.ofNat (addr.toNat / 2 ^ 11 % 2 ^ 5))
    (UInt8.ofNat (addr.toNat / 2 ^ 8 % 2 ^ 3)) (UInt8.ofNat (addr.toNat % 2 ^ 8))

/-- The address that `pci_read` writes. -/
def endereco (bus dev func offset : UInt8) : UInt32 :=
  ((1 : UInt32) <<< 31) ||| (bus.toUInt32 <<< 16) ||| (dev.toUInt32 <<< 11) |||
    (func.toUInt32 <<< 8) ||| (offset &&& 0xFC).toUInt32

def pci_read (cfg : Config) (bus dev func offset : UInt8) : UInt32 :=
  cfg.responde (endereco bus dev func offset)

/-! ## The table -/

structure pci_device_t where
  bus : UInt8
  device : UInt8
  function : UInt8
  vendor_id : UInt16
  device_id : UInt16
  class_code : UInt8
  subclass : UInt8
  prog_if : UInt8
  revision : UInt8
  header_type : UInt8
  bar : List UInt32
  interrupt_line : UInt8
  interrupt_pin : UInt8

/-- The static variables of the file. -/
structure Tabela where
  pci_devices : Nat → pci_device_t
  pci_count : Nat

/-- The entries in use. -/
def Tabela.lista (t : Tabela) : List pci_device_t := (List.range t.pci_count).map t.pci_devices

/-! ## The scan -/

/-- The entry `d` with what is read of a function. A header that is not of type 0 leaves the base
addresses and the interrupt as they were in the entry. -/
def preenche (cfg : Config) (bus dev func : UInt8) (d : pci_device_t) : pci_device_t :=
  let id := pci_read cfg bus dev func PCI_VENDOR_ID
  let class_info := pci_read cfg bus dev func PCI_CLASS_CODE
  let hdr := pci_read cfg bus dev func PCI_HEADER_TYPE
  let irq := pci_read cfg bus dev func PCI_INTERRUPT_LINE
  let header_type := ((hdr >>> 16) &&& 0xFF).toUInt8
  let d := { d with
    bus := bus
    device := dev
    function := func
    vendor_id := (id &&& 0xFFFF).toUInt16
    device_id := (id >>> 16).toUInt16
    revision := (class_info &&& 0xFF).toUInt8
    prog_if := ((class_info >>> 8) &&& 0xFF).toUInt8
    subclass := ((class_info >>> 16) &&& 0xFF).toUInt8
    class_code := ((class_info >>> 24) &&& 0xFF).toUInt8
    header_type := header_type }
  if header_type &&& 0x7F = 0 then
    { d with
      bar := (List.range 6).map fun i => pci_read cfg bus dev func (PCI_BAR0 + UInt8.ofNat (i * 4))
      interrupt_line := (irq &&& 0xFF).toUInt8
      interrupt_pin := ((irq >>> 8) &&& 0xFF).toUInt8 }
  else d

def pci_scan_function (cfg : Config) (bus dev : UInt8) (t : Tabela) (func : UInt8) : Tabela :=
  let vendor := (pci_read cfg bus dev func PCI_VENDOR_ID &&& 0xFFFF).toUInt16
  if vendor = 0xFFFF then t
  else if t.pci_count ≥ PCI_MAX_DEVICES then t
  else
    { pci_devices := Function.update t.pci_devices t.pci_count
        (preenche cfg bus dev func (t.pci_devices t.pci_count))
      pci_count := t.pci_count + 1 }

/-- The values of a counter below `n`. -/
def ate (n : Nat) : List UInt8 := (List.range n).map UInt8.ofNat

def pci_scan_device (cfg : Config) (bus : UInt8) (t : Tabela) (dev : UInt8) : Tabela :=
  if pci_read cfg bus dev 0 PCI_VENDOR_ID &&& 0xFFFF = 0xFFFF then t
  else
    let t := pci_scan_function cfg bus dev t 0
    let header_type := ((pci_read cfg bus dev 0 PCI_HEADER_TYPE >>> 16) &&& 0xFF).toUInt8
    if header_type &&& 0x80 ≠ 0 then
      (ate 8).tail.foldl (fun t func =>
        if pci_read cfg bus dev func PCI_VENDOR_ID &&& 0xFFFF ≠ 0xFFFF then
          pci_scan_function cfg bus dev t func
        else t) t
    else t

def pci_init (cfg : Config) (t : Tabela) : Tabela :=
  (ate 8).foldl (fun t bus => (ate 32).foldl (pci_scan_device cfg bus) t) { t with pci_count := 0 }

/-! ## The search -/

/-- The second comparison is of `device_id`, not of `subclass`. -/
def pci_find_class (t : Tabela) (class_code subclass : UInt8) : Option pci_device_t :=
  t.lista.find? fun d => d.class_code = class_code ∧ d.device_id = subclass.toUInt16

end SpaceOS.Pci
