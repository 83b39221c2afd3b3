-- The commands that the sector drivers write to the ports of the ATA controller: programmed
-- transfers (kernel/disk/ata.c) and transfers by the bus master (kernel/disk/dma.c).
import Mathlib.Algebra.Group.Nat.Defs

namespace SpaceOS.AtaPorts

def SETOR_SIZE : Nat := 512

def ATA_SR_BSY : UInt8 := 0x80

def ATA_SR_DRQ : UInt8 := 0x08

def ATA_SR_ERR : UInt8 := 0x01

def ATA_CMD_READ : UInt8 := 0x20

def ATA_CMD_WRITE : UInt8 := 0x30

def ATA_CMD_READ_DMA : UInt8 := 0xC8

def ATA_CMD_WRITE_DMA : UInt8 := 0xCA

/-! ## A command -/

/-- The registers of the controller when a command is written to `ATA_CMD`. -/
structure Comando where
  drive : UInt8
  setor_count : UInt8
  lba_low : UInt8
  lba_mid : UInt8
  lba_high : UInt8
  cmd : UInt8

/-- The sector at which the controller begins: 28 bits. -/
def Comando.inicio (c : Comando) : Nat :=
  c.lba_low.toNat + 2 ^ 8 * c.lba_mid.toNat + 2 ^ 16 * c.lba_high.toNat +
    2 ^ 24 * (c.drive &&& 0xF).toNat

/-- The number of sectors: a zero stands for 256. -/
def Comando.setores (c : Comando) : Nat := if c.setor_count = 0 then 256 else c.setor_count.toNat

/-- The values that both drivers write: the master drive in LBA mode, and `lba`. -/
def comando (lba : UInt32) (count cmd : UInt8) : Comando where
  drive := (0xE0 : UInt8) ||| ((lba >>> 24) &&& 0x0F).toUInt8
  setor_count := count
  lba_low := (lba &&& 0xFF).toUInt8
  lba_mid := ((lba >>> 8) &&& 0xFF).toUInt8
  lba_high := ((lba >>> 16) &&& 0xFF).toUInt8
  cmd := cmd

/-! ## Programmed transfers -/

/-- The wait for the disk from read `i` of the status register on, with `n` more attempts: the
number of the next read, `none` after the timeout. -/
def ata_esperar_pronto (status : Nat → UInt8) : Nat → Nat → Option Nat
  | 0, i => if status i &&& ATA_SR_BSY ≠ 0 then none else some (i + 1)
  | n + 1, i =>
    if status i &&& ATA_SR_BSY ≠ 0 then ata_esperar_pronto status n (i + 1) else some (i + 1)

/-- The wait for data: `none` after an error or the timeout. -/
def ata_esperar_drq (status : Nat → UInt8) : Nat → Nat → Option Nat
  | n, i =>
    if status i &&& ATA_SR_ERR ≠ 0 then none
    else if status i &&& ATA_SR_DRQ ≠ 0 then some (i + 1)
    else
      match n with
      | 0 => none
      | n + 1 => ata_esperar_drq status n (i + 1)

/-- The loop over the sectors, of which `s` are left: the words that were moved so far, and whether
all were. `fonte` is the data port for a read and the buffer for a write. -/
def transfere (status : Nat → UInt8) (fonte : Nat → UInt16) :
    Nat → Nat → List UInt16 → List UInt16 × Bool
  | 0, _, palavras => (palavras, true)
  | s + 1, i, palavras =>
    match ata_esperar_drq status 100000 i with
    | none => (palavras, false)
    | some i =>
      transfere status fonte s i
        (palavras ++ (List.range 256).map fun w => fonte (palavras.length + w))

/-- What a call returns, the commands that it issues, and the words that it moves. -/
structure Resultado where
  ret : Int
  comandos : List Comando
  palavras : List UInt16

/-- -1 with no command. -/
def recusa : Resultado := ⟨-1, [], []⟩

/-- What `ata_ler` and `ata_gravar` share: they differ in the command and in the direction. -/
def ata_op (cmd : UInt8) (disco_presente : Bool) (status : Nat → UInt8) (fonte : Nat → UInt16)
    (lba : UInt32) (count : UInt8) (buffer : Bool) : Resultado :=
  if disco_presente = false then recusa
  else if buffer = false ∨ count = 0 then recusa
  else
    match ata_esperar_pronto status 100000 0 with
    | none => recusa
    | some i =>
      let (palavras, ok) := transfere status fonte count.toNat i []
      ⟨if ok then 0 else -1, [comando lba count cmd], palavras⟩

/-- `buffer` tells whether the pointer is not null, `dados` is what the data port gives. -/
def ata_ler := ata_op ATA_CMD_READ

/-- `dados` is what the buffer holds. -/
def ata_gravar := ata_op ATA_CMD_WRITE

/-! ## The bus master -/

def BM_ST_ACTIVE : UInt8 := 0x01

def BM_ST_ERR : UInt8 := 0x02

/-- The loop that waits for the bus master: read `i` of its status, `t` being the counter. It gives
the last status that was read. -/
def espera_bm (bm_status : Nat → UInt8) : Nat → Nat → UInt8
  | 0, i => bm_status i
  | t + 1, i =>
    if bm_status i &&& BM_ST_ACTIVE = 0 then bm_status i else espera_bm bm_status t (i + 1)

/-- What `dma_op` returns, the commands that it issues with the `byte_count` of the descriptor, and
the bytes that it copies from or to the caller's buffer. -/
structure ResultadoDma where
  ret : Int
  comandos : List (Comando × UInt16)
  copia : List UInt8

/-- `fonte` is the caller's buffer for a write, and what the bus master left in `dma_buf` for a read.
The wait for the disk before the command has no effect on what follows. -/
def dma_op (dma_ok : Bool) (bm_status : Nat → UInt8) (fonte : Nat → UInt8) (lba : UInt32)
    (count : UInt8) (write : Bool) : ResultadoDma :=
  if dma_ok = false ∨ count = 0 ∨ count > 16 then ⟨-1, [], []⟩
  else
    let bytes := count.toUInt32 * 512
    let byte_count := (if bytes = 65536 then 0 else bytes).toUInt16
    let copia := (List.range bytes.toNat).map fonte
    let cmd := comando lba count (if write then ATA_CMD_WRITE_DMA else ATA_CMD_READ_DMA)
    let st := espera_bm bm_status 500000 0
    if st &&& BM_ST_ERR ≠ 0 then ⟨-1, [(cmd, byte_count)], if write then copia else []⟩
    else ⟨0, [(cmd, byte_count)], copia⟩

def dma_ler (dma_ok : Bool) (bm_status : Nat → UInt8) (fonte : Nat → UInt8) (lba : UInt32)
    (count : UInt8) : ResultadoDma := dma_op dma_ok bm_status fonte lba count false

def dma_gravar (dma_ok : Bool) (bm_status : Nat → UInt8) (fonte : Nat → UInt8) (lba : UInt32)
    (count : UInt8) : ResultadoDma := dma_op dma_ok bm_status fonte lba count true

end SpaceOS.AtaPorts
