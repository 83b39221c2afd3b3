-- The sector driver (kernel/disk/ata.c), seen from the file systems: a disk is its
-- sectors, and each command moves one sector or fails.
import SpaceOS.Lib.ByteString
import SpaceOS.Lib.BlockProg

open Lib.Bytes Lib.BlockProg

namespace SpaceOS.Ata

def SETOR_SIZE : Nat := 512

abbrev Setor := ByteStr SETOR_SIZE

abbrev Disco := Disk Setor

/-- The sector that a command addresses: the drive register and the three LBA registers take
28 bits of `lba`. -/
def setor (lba : Nat) : Nat := lba % 2 ^ 28

theorem setor_eq {lba : Nat} (h : lba < 2 ^ 28) : setor lba = lba := Nat.mod_eq_of_lt h

def ata_presente1 : Prog Setor Bool := .probe .ret

/-- `ata_ler1(lba, 1, buffer)`: the sector read, or `none` for -1. -/
def ata_ler1 (lba : Nat) : Prog Setor (Option Setor) := .read (setor lba) .ret

/-- `ata_gravar1(lba, 1, buffer)`: `true` for 0, `false` for -1. -/
def ata_gravar1 (lba : Nat) (buffer : Setor) : Prog Setor Bool := .write (setor lba) buffer .ret

/-! ## The commands on a disk where every access succeeds -/

section Rules

variable {σ α β : Type} {C : Disco → Prop} {m m' : σ} {d d' : Disco} {b : β} {lba : Nat}

theorem runs_ler1 {f : Option Setor → Prog Setor β} (h : (f (some (d (setor lba)))).Runs d b d' C) :
    (ata_ler1 lba >>= f).Runs d b d' C := .read h

theorem runs_gravar1 {v : Setor} {f : Bool → Prog Setor β} (hd : C d)
    (h : (f true).Runs (Function.update d (setor lba) v) b d' C) :
    (ata_gravar1 lba v >>= f).Runs d b d' C := .write hd h

theorem does_presente1 {f : Bool → StateT σ (Prog Setor) β} (h : Does (f true) m d b m' d' C) :
    Does (liftM ata_presente1 >>= f) m d b m' d' C := .probe h

theorem does_ler1 {f : Option Setor → StateT σ (Prog Setor) β}
    (h : Does (f (some (d (setor lba)))) m d b m' d' C) :
    Does (liftM (ata_ler1 lba) >>= f) m d b m' d' C := .read h

theorem does_gravar1 {v : Setor} {f : Bool → StateT σ (Prog Setor) β} (hd : C d)
    (h : Does (f true) m (Function.update d (setor lba) v) b m' d' C) :
    Does (liftM (ata_gravar1 lba v) >>= f) m d b m' d' C := .write hd h

end Rules

end SpaceOS.Ata
