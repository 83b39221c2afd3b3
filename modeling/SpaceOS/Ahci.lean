-- The AHCI driver (kernel/disk/ahci.c): the command header, the table and the FIS of one command,
-- and the wait for its end.
import Mathlib.Algebra.Group.Nat.Defs

namespace SpaceOS.Ahci

def FIS_TYPE_REG_H2D : UInt8 := 0x27

/-- The fields of the FIS that the driver writes; the others are zero. -/
structure fis_reg_h2d_t where
  type : UInt8
  pmport_c : UInt8
  command : UInt8
  device : UInt8
  lba0 : UInt8
  lba1 : UInt8
  lba2 : UInt8
  lba3 : UInt8
  lba4 : UInt8
  lba5 : UInt8
  countl : UInt8
  counth : UInt8

/-- The slot when the command is issued: the header, the one entry of the PRDT, and the FIS. -/
structure Slot where
  flags : UInt16
  prdtl : UInt16
  dbc : UInt32
  fis : fis_reg_h2d_t

/-- The sector at which the device begins: 48 bits. -/
def Slot.inicio (s : Slot) : Nat :=
  s.fis.lba0.toNat + 2 ^ 8 * s.fis.lba1.toNat + 2 ^ 16 * s.fis.lba2.toNat +
    2 ^ 24 * s.fis.lba3.toNat + 2 ^ 32 * s.fis.lba4.toNat + 2 ^ 40 * s.fis.lba5.toNat

/-- The number of sectors: a zero stands for 65536. -/
def Slot.setores (s : Slot) : Nat :=
  if s.fis.countl = 0 ∧ s.fis.counth = 0 then 65536
  else s.fis.countl.toNat + 2 ^ 8 * s.fis.counth.toNat

/-- The bytes of the transfer: bits 0 to 21 of the entry, and one. -/
def Slot.bytes (s : Slot) : Nat := s.dbc.toNat % 2 ^ 22 + 1

/-- What `ahci_issue` sets up. The header has 5 words of FIS and the bit for a write. -/
def monta (ata_cmd : UInt8) (lba : UInt32) (count : UInt8) (write : Bool) : Slot where
  flags := if write then (5 : UInt16) ||| ((1 : UInt16) <<< 6) else 5
  prdtl := 1
  dbc := count.toUInt32 * 512 - 1
  fis :=
    { type := FIS_TYPE_REG_H2D
      pmport_c := 0x80
      command := ata_cmd
      device := 0x40
      lba0 := lba.toUInt8
      lba1 := (lba >>> 8).toUInt8
      lba2 := (lba >>> 16).toUInt8
      lba3 := (lba >>> 24).toUInt8
      lba4 := 0
      lba5 := 0
      countl := count
      counth := 0 }

/-- The wait for the end: look `i` at the registers of the port, `t` being the counter. `none` where
the loop returns -1, else the counter after it. -/
def espera (ci is_ : Nat → UInt32) : Nat → Nat → Option UInt32
  | 0, _ => some (0 - 1)
  | t + 1, i =>
    if ci i &&& 1 = 0 then some (UInt32.ofNat t)
    else if is_ i &&& ((1 : UInt32) <<< 30) ≠ 0 then none
    else espera ci is_ t (i + 1)

/-- What a call returns, the slots that it issues, and the bytes that it copies from or to the
caller's buffer. -/
structure Resultado where
  ret : Int
  slots : List Slot
  copia : List UInt8

/-- `ci` and `is_` are what the registers PORT_CI and PORT_IS give; `fonte` is the caller's buffer
for a write, and what the device left in `xfer_buf` for a read. -/
def ahci_issue (ci is_ : Nat → UInt32) (fonte : Nat → UInt8) (ata_cmd : UInt8) (lba : UInt32)
    (count : UInt8) (write : Bool) : Resultado :=
  let bytes := count.toUInt32 * 512
  let copia := (List.range bytes.toNat).map fonte
  let slots := [monta ata_cmd lba count write]
  match espera ci is_ 500000 0 with
  | none => ⟨-1, slots, if write then copia else []⟩
  | some t =>
    if t = 0 then ⟨-1, slots, if write then copia else []⟩ else ⟨0, slots, copia⟩

def ahci_ler (ahci_ready : Bool) (ci is_ : Nat → UInt32) (fonte : Nat → UInt8) (lba : UInt32)
    (count : UInt8) : Resultado :=
  if ahci_ready = false ∨ count > 16 then ⟨-1, [], []⟩
  else ahci_issue ci is_ fonte 0x25 lba count false

def ahci_gravar (ahci_ready : Bool) (ci is_ : Nat → UInt32) (fonte : Nat → UInt8) (lba : UInt32)
    (count : UInt8) : Resultado :=
  if ahci_ready = false ∨ count > 16 then ⟨-1, [], []⟩
  else ahci_issue ci is_ fonte 0x35 lba count true

end SpaceOS.Ahci
