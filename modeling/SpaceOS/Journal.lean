-- The write-ahead log of SpaceFS (kernel/fs/journal.c): a meta sector and a ring of 31
-- entries of two sectors, a header and the data.
import SpaceOS.Ata

open Lib.Bytes Lib.BlockProg SpaceOS.Ata

namespace SpaceOS.Journal

def J_META_SECTOR : Nat := 35

def J_DATA_START : Nat := 36

def J_MAX_ENTRIES : Nat := 31

def J_ENTRY_SECS : Nat := 2

def J_MAGIC : Nat := 0x4A524E4C

/-- The turns that a walk over the ring may take before it counts as endless. -/
def VOLTAS : Nat := 2 ^ 32

/-! ## The packed records -/

section Meta

variable (s : Setor)

def meta_magic : Nat := s.word 0
def meta_head : Nat := s.word 4
def meta_tail : Nat := s.word 8
def meta_next_txid : Nat := s.word 12

def meta_por_magic (v : Nat) : Setor := s.putWord 0 v
def meta_por_head (v : Nat) : Setor := s.putWord 4 v
def meta_por_tail (v : Nat) : Setor := s.putWord 8 v
def meta_por_next_txid (v : Nat) : Setor := s.putWord 12 v

def hdr_txid : Nat := s.word 0
def hdr_block_num : Nat := s.word 4
def hdr_committed : Nat := s.word 8
def hdr_checksum : Nat := s.word 12

def hdr_por_committed (v : Nat) : Setor := s.putWord 8 v

end Meta

/-- A header with its padding cleared. -/
def hdr_novo (txid block_num committed checksum : Nat) : Setor :=
  (((ByteStr.zero.putWord 0 txid).putWord 4 block_num).putWord 8 committed).putWord 12 checksum

/-- The static variables of the file. -/
structure Mem where
  jmeta : Setor
  j_ok : Bool

/-- The variables as the kernel is loaded. -/
def Mem.boot : Mem := ⟨ByteStr.zero, false⟩

abbrev M := StateT Mem (Prog Setor)

def djb2 (d : Setor) : Nat :=
  (List.finRange SETOR_SIZE).foldl (fun h i => (h * 2 ^ 5 + h + (d i).toNat) % 2 ^ 32) 5381

def j_flush_meta : M Unit := do
  let _ ← ata_gravar1 J_META_SECTOR (← get).jmeta

def j_entry_sector (idx : Nat) : Nat := J_DATA_START + idx % J_MAX_ENTRIES * J_ENTRY_SECS

/-- `(idx + 1) % J_MAX_ENTRIES`, on 32 bits. -/
def proximo (idx : Nat) : Nat := (idx + 1) % 2 ^ 32 % J_MAX_ENTRIES

/-! ## The functions of the file -/

def journal_init : M Unit := do
  if ← ata_presente1 then
    match ← ata_ler1 J_META_SECTOR with
    | none => pure ()
    | some s =>
      modify fun m => { m with jmeta := s }
      if meta_magic s ≠ J_MAGIC then
        modify fun m => { m with jmeta := meta_por_magic ByteStr.zero J_MAGIC }
        j_flush_meta
      modify fun m => { m with j_ok := true }

/-- The loop of `journal_recover` from entry `idx` to `tail`. -/
def recover_laco (tail : Nat) : Nat → Nat → Prog Setor Unit
  | 0, _ => .hang
  | voltas + 1, idx => do
    if idx = tail then pure ()
    else
      match ← ata_ler1 (j_entry_sector idx) with
      | none => pure ()
      | some hdr =>
        if hdr_committed hdr = 0 then
          if let some data ← ata_ler1 (j_entry_sector idx + 1) then
            let _ ← ata_gravar1 (hdr_block_num hdr) data
        recover_laco tail voltas (proximo idx)

def journal_recover : M Unit := do
  let m ← get
  if m.j_ok then
    recover_laco (meta_tail m.jmeta) VOLTAS (meta_head m.jmeta)
    modify fun m => { m with jmeta := meta_por_head m.jmeta (meta_tail m.jmeta) }
    j_flush_meta

def journal_begin (block_num : Nat) (new_data : Setor) : M Nat := do
  let m ← get
  if !m.j_ok then pure 0
  else
    let sec := j_entry_sector (meta_tail m.jmeta)
    let txid := meta_next_txid m.jmeta
    let hdr := hdr_novo txid block_num 0 (djb2 new_data)
    let _ ← ata_gravar1 sec hdr
    let _ ← ata_gravar1 (sec + 1) new_data
    modify fun m => { m with
      jmeta := meta_por_next_txid (meta_por_tail m.jmeta (proximo (meta_tail m.jmeta)))
        (meta_next_txid m.jmeta + 1) }
    j_flush_meta
    pure txid

/-- The first loop of `journal_commit`, over the entries `is`. -/
def commit_marca (tx_id : Nat) : List Nat → Prog Setor Unit
  | [] => pure ()
  | i :: is => do
    match ← ata_ler1 (j_entry_sector i) with
    | none => commit_marca tx_id is
    | some hdr =>
      if hdr_txid hdr = tx_id ∧ hdr_committed hdr = 0 then
        let _ ← ata_gravar1 (j_entry_sector i) (hdr_por_committed hdr 1)
      else commit_marca tx_id is

/-- The second loop of `journal_commit`: moves `head` to the first entry not committed. -/
def commit_avanca : Nat → M Unit
  | 0 => StateT.lift .hang
  | voltas + 1 => do
    let m ← get
    if meta_head m.jmeta = meta_tail m.jmeta then pure ()
    else
      match ← ata_ler1 (j_entry_sector (meta_head m.jmeta)) with
      | none => pure ()
      | some hdr =>
        if hdr_committed hdr = 0 then pure ()
        else
          set { m with jmeta := meta_por_head m.jmeta (proximo (meta_head m.jmeta)) }
          commit_avanca voltas

def journal_commit (tx_id : Nat) : M Unit := do
  if (← get).j_ok then
    commit_marca tx_id (List.range J_MAX_ENTRIES)
    commit_avanca VOLTAS
    j_flush_meta

/-- `sfs_write_sec` of kernel/fs/spacefs.c, the write that goes through the log. -/
def sfs_write_sec (sec : Nat) (buf : Setor) : M Bool := do
  let txid ← journal_begin sec buf
  let ret ← ata_gravar1 sec buf
  journal_commit txid
  pure ret

/-- What a boot does with the log: `journal_init`, then `journal_recover`. -/
def journal_boot : M Unit := do
  journal_init
  journal_recover

end SpaceOS.Journal
