-- SpaceFS (kernel/fs/spacefs.c): a superblock, two bitmaps, a table of 256 inodes and
-- directories of 32-byte entries, on disk 1 and behind the log.
import SpaceOS.Lib.Bitmap
import SpaceOS.Lib.BlockWp
import SpaceOS.Journal

open Lib.Bytes Lib.Bitmap Lib.BlockProg SpaceOS.Ata

namespace SpaceOS.SpaceFs

def SFS_MAGIC : Nat := 0x53465321

def SFS_VERSION : Nat := 1

def SFS_INODE_MAX : Nat := 256

def SFS_NAME_MAX : Nat := 27

def SFS_SUPER_SEC : Nat := 0

def SFS_IMAP_SEC : Nat := 1

def SFS_BMAP_SEC : Nat := 2

def SFS_INODE_SEC : Nat := 3

def SFS_DATA_START : Nat := 99

def SFS_INODES_PER_SEC : Nat := 8

def SFS_DIRENTS_PER_BLK : Nat := 16

/-! ## The packed records -/

section Super

variable (sb : Setor)

def super_magic : Nat := sb.word 0
def super_total_blocks : Nat := sb.word 8
def super_free_blocks : Nat := sb.word 12
def super_free_inodes : Nat := sb.word 20
def super_root_inode : Nat := sb.word 28

end Super

abbrev Inode := ByteStr 64

section Inode

variable (in_ : Inode)

/-- 0 free, 1 file, 2 directory. -/
def inode_type : Nat := (in_.byte 0).toNat
def inode_size : Nat := in_.word 4
def inode_block (b : Nat) : Nat := in_.word (12 + 4 * b)

def inode_por_type (v : Nat) : Inode := in_.putByte 0 (UInt8.ofNat v)
def inode_por_size (v : Nat) : Inode := in_.putWord 4 v
def inode_por_block (b v : Nat) : Inode := in_.putWord (12 + 4 * b) v

end Inode

/-- A fresh inode: everything zero but its type, one link and the time. -/
def inode_novo (type mtime : Nat) : Inode :=
  ((inode_por_type ByteStr.zero type).putHalf 2 1).putWord 8 mtime

/-- `k_memset(ex.blocks, 0, sizeof(ex.blocks))`. -/
def inode_sem_blocos (in_ : Inode) : Inode := in_.splice 12 (ByteStr.zero : ByteStr 40)

section Dirent

variable (dblk : Setor) (i : Nat)

def dirent_inode : Nat := dblk.word (32 * i)

/-- The name of entry `i`, up to its NUL. -/
def dirent_name : List UInt8 :=
  ((List.range (SETOR_SIZE - (32 * i + 4))).map fun c => dblk.byte (32 * i + 4 + c)).takeWhile
    (· ≠ 0)

/-- The first 27 bytes of a name, with zeros after them: what `k_strncpy` and the final NUL put
into the 28 bytes of the field. -/
def campo_name (name : List UInt8) : ByteStr 28 := fun c => (name.take SFS_NAME_MAX).getD c 0

def dirent_por (inode : Nat) (name : List UInt8) : Setor :=
  (dblk.putWord (32 * i) inode).splice (32 * i + 4) (campo_name name)

def dirent_por_inode (inode : Nat) : Setor := dblk.putWord (32 * i) inode

end Dirent

/-! ## State -/

/-- The static variables of the file. -/
structure Fs where
  sb : Setor
  imap : Setor
  bmap : Setor
  sfs_ok : Bool

/-- The variables of the file and those of the log. -/
structure Mem where
  fs : Fs
  journal : Journal.Mem

/-- A function of the file. The accesses of these programs are `sfs_read_sec` and
`sfs_write_sec`; `pelo_journal` says how they are carried out. -/
abbrev S := StateT Fs (Prog Setor)

def sfs_read_sec (sec : Nat) : Prog Setor (Option Setor) := .read sec .ret

def sfs_write_sec (sec : Nat) (buf : Setor) : Prog Setor Bool := .write sec buf .ret

/-- Reads go to the disk, writes through the log. -/
def journal_driver : Driver Journal.Mem Setor Setor where
  probe := liftM ata_presente1
  read sec := liftM (ata_ler1 sec)
  write sec buf := Journal.sfs_write_sec sec buf

def pelo_journal {α : Type} (x : S α) : StateT Mem (Prog Setor) α := fun m => do
  let ((a, fs), journal) ← ((x.run m.fs).over journal_driver).run m.journal
  pure (a, ⟨fs, journal⟩)

/-- A function of the log, called from this file. -/
def no_journal {α : Type} (x : Journal.M α) : StateT Mem (Prog Setor) α := fun m => do
  let (a, journal) ← x.run m.journal
  pure (a, { m with journal })

/-! ## Bitmaps and inodes -/

def bm_test (bm : Setor) (b : Nat) : Bool := bit bm.mem b

def bm_set (bm : Setor) (b : Nat) : Setor := .ofMem (setBit bm.mem b)

def bm_clr (bm : Setor) (b : Nat) : Setor := .ofMem (clearBit bm.mem b)

def inode_sector (inum : Nat) : Nat := SFS_INODE_SEC + inum / SFS_INODES_PER_SEC

def inode_off (inum : Nat) : Nat := inum % SFS_INODES_PER_SEC * 64

def inode_read (inum : Nat) : Prog Setor (Option Inode) := do
  match ← sfs_read_sec (inode_sector inum) with
  | none => pure none
  | some sec_buf => pure (some (sec_buf.slice (inode_off inum) 64))

def inode_write (inum : Nat) (in_ : Inode) : Prog Setor Bool := do
  match ← sfs_read_sec (inode_sector inum) with
  | none => pure false
  | some sec_buf => sfs_write_sec (inode_sector inum) (sec_buf.splice (inode_off inum) in_)

/-- The inode taken; `none` for -1. -/
def alloc_inode : S (Option Nat) := do
  let s ← get
  match (List.range' 1 (SFS_INODE_MAX - 1)).find? fun i => !bm_test s.imap i with
  | none => pure none
  | some i =>
    modify fun s => { s with imap := bm_set s.imap i }
    let _ ← sfs_write_sec SFS_IMAP_SEC (← get).imap
    modify fun s => { s with sb := s.sb.putWord 20 (super_free_inodes s.sb + 2 ^ 32 - 1) }
    let _ ← sfs_write_sec SFS_SUPER_SEC (← get).sb
    pure (some i)

/-- The sector taken; `none` for -1. -/
def alloc_block : S (Option Nat) := do
  let s ← get
  match (List.range (min (super_total_blocks s.sb) (512 * 8))).find? fun i => !bm_test s.bmap i with
  | none => pure none
  | some i =>
    modify fun s => { s with bmap := bm_set s.bmap i }
    let _ ← sfs_write_sec SFS_BMAP_SEC (← get).bmap
    modify fun s => { s with sb := s.sb.putWord 12 (super_free_blocks s.sb + 2 ^ 32 - 1) }
    let _ ← sfs_write_sec SFS_SUPER_SEC (← get).sb
    pure (some (SFS_DATA_START + i))

def free_block (sec : Nat) : S Unit := do
  if sec < SFS_DATA_START then pure ()
  else
    modify fun s => { s with bmap := bm_clr s.bmap (sec - SFS_DATA_START) }
    let _ ← sfs_write_sec SFS_BMAP_SEC (← get).bmap
    modify fun s => { s with sb := s.sb.putWord 12 (super_free_blocks s.sb + 1) }
    let _ ← sfs_write_sec SFS_SUPER_SEC (← get).sb

/-- `for (i = 0; i < 10; i++) if (in.blocks[i]) free_block(in.blocks[i]);` -/
def free_blocks (in_ : Inode) : List Nat → S Unit
  | [] => pure ()
  | i :: is => do
    if inode_block in_ i ≠ 0 then free_block (inode_block in_ i)
    free_blocks in_ is

/-! ## Paths: strings of non-zero bytes, at most 127 of them -/

def BARRA : UInt8 := 47

/-- The pieces between the slashes. -/
def partes : List UInt8 → List (List UInt8)
  | [] => [[]]
  | c :: cs =>
    if c = BARRA then [] :: partes cs
    else
      match partes cs with
      | [] => [[c]]
      | p :: ps => (c :: p) :: ps

/-- The first of the next 16 entries of a block that has the name `tok`. -/
def busca_bloco (dblk : Setor) (tok : List UInt8) (entries : Nat) : Option Nat :=
  (List.range (min SFS_DIRENTS_PER_BLK entries)).find? fun i =>
    decide (dirent_inode dblk i ≠ 0) && decide (dirent_name dblk i = tok)

/-- The search for `tok` in a directory, over the block numbers left and the entries left. -/
def busca_dir (dir : Inode) (tok : List UInt8) : List Nat → Nat → Prog Setor (Option Nat)
  | [], _ => pure none
  | blk_idx :: resto, entries => do
    if entries = 0 then pure none
    else if inode_block dir blk_idx = 0 then pure none
    else
      match ← sfs_read_sec (inode_block dir blk_idx) with
      | none => pure none
      | some dblk =>
        match busca_bloco dblk tok entries with
        | some i => pure (some (dirent_inode dblk i))
        | none => busca_dir dir tok resto (entries - SFS_DIRENTS_PER_BLK)

/-- The loop of `path_find` over the components left. -/
def path_laco : List (List UInt8) → Nat → Nat → Prog Setor (Option (Nat × Nat))
  | [], cur, parent => pure (some (cur, parent))
  | tok :: resto, cur, parent => do
    if tok = [] then path_laco resto cur parent
    else
      match ← inode_read cur with
      | none => pure none
      | some dir =>
        if inode_type dir ≠ 2 then pure none
        else
          match ← busca_dir dir tok (List.range 10) (inode_size dir / 32) with
          | none => pure none
          | some inum => path_laco resto inum cur

/-- The inode at `path` and its directory; `none` for -1. -/
def path_find (path : List UInt8) : S (Option (Nat × Nat)) := do
  let cur := super_root_inode (← get).sb
  let path := if path.head? = some BARRA then path.tail else path
  path_laco (partes (path.take 127)) cur cur

/-- The part before the last slash and the part after it. -/
def path_split (path : List UInt8) : List UInt8 × List UInt8 :=
  let name := (path.reverse.takeWhile (· ≠ BARRA)).reverse
  (path.take (path.length - name.length - 1), name)

/-! ## Directories -/

/-- The block at place `blk_idx` of a directory, taken anew where there is none: its sector, the
inode with it, and its contents. -/
def abre_bloco (dir : Inode) (blk_idx : Nat) : S (Option (Nat × Inode × Setor)) := do
  if inode_block dir blk_idx = 0 then
    match ← alloc_block with
    | none => pure none
    | some sec => pure (some (sec, inode_por_block dir blk_idx sec, ByteStr.zero))
  else
    match ← sfs_read_sec (inode_block dir blk_idx) with
    | none => pure none
    | some dblk => pure (some (inode_block dir blk_idx, dir, dblk))

/-- The loop of `dir_add_entry` over the block numbers left. `true` for 0, `false` for -1. -/
def dir_add_laco (dir_inum child_inum : Nat) (name : List UInt8) : List Nat → Inode → S Bool
  | [], _ => pure false
  | blk_idx :: resto, dir => do
    match ← abre_bloco dir blk_idx with
    | none => pure false
    | some (sec, dir, dblk) =>
      match (List.range SFS_DIRENTS_PER_BLK).find? fun i => dirent_inode dblk i = 0 with
      | some i =>
        let _ ← sfs_write_sec sec (dirent_por dblk i child_inum name)
        let _ ← inode_write dir_inum (inode_por_size dir (inode_size dir + 32))
        pure true
      | none => dir_add_laco dir_inum child_inum name resto dir

def dir_add_entry (dir_inum child_inum : Nat) (name : List UInt8) : S Bool := do
  match ← inode_read dir_inum with
  | none => pure false
  | some dir => dir_add_laco dir_inum child_inum name (List.range 10) dir

/-- The loop of `spfs_unlink` that clears the entry of `inum` in the parent directory. -/
def dir_remove (dir : Inode) (inum : Nat) : List Nat → Prog Setor Unit
  | [] => pure ()
  | b :: bs => do
    if inode_block dir b = 0 then pure ()
    else
      match ← sfs_read_sec (inode_block dir b) with
      | none => pure ()
      | some dblk =>
        match (List.range SFS_DIRENTS_PER_BLK).find? fun i => dirent_inode dblk i = inum with
        | some i =>
          let _ ← sfs_write_sec (inode_block dir b) (dirent_por_inode dblk i 0)
        | none => dir_remove dir inum bs

/-! ## The calls on a mounted file system -/

/-- The loop of `spfs_read`, with the bytes read so far. -/
def read_laco (in_ : Inode) (to_read : Nat) : List Nat → List UInt8 → Prog Setor (List UInt8)
  | [], done => pure done
  | b :: bs, done => do
    if to_read ≤ done.length then pure done
    else if inode_block in_ b = 0 then pure done
    else
      match ← sfs_read_sec (inode_block in_ b) with
      | none => pure done
      | some blk =>
        let chunk := min (to_read - done.length) SETOR_SIZE
        read_laco in_ to_read bs (done ++ (List.ofFn blk).take chunk)

/-- The bytes put into the buffer; `none` for -1. -/
def spfs_read (path : List UInt8) (max : Nat) : S (Option (List UInt8)) := do
  if !(← get).sfs_ok then pure none
  else
    match ← path_find path with
    | none => pure none
    | some (inum, _) =>
      match ← inode_read inum with
      | none => pure none
      | some in_ =>
        if inode_type in_ ≠ 1 then pure none
        else
          let done ← read_laco in_ (min (inode_size in_) max) (List.range 10) []
          pure (some done)

/-- A sector with up to 512 bytes of data and zeros after them. -/
def bloco_de (chunk : List UInt8) : Setor := fun i => chunk.getD i 0

/-- The loop of `spfs_write` over the block numbers left: the inode with its blocks, and the
number of bytes written. -/
def write_laco (buf : List UInt8) : List Nat → Inode → Nat → S (Inode × Nat)
  | [], in_, done => pure (in_, done)
  | b :: bs, in_, done => do
    if buf.length ≤ done then pure (in_, done)
    else
      match ← alloc_block with
      | none => pure (in_, done)
      | some sec =>
        let chunk := min (buf.length - done) SETOR_SIZE
        let _ ← sfs_write_sec sec (bloco_de ((buf.drop done).take chunk))
        write_laco buf bs (inode_por_block in_ b sec) (done + chunk)

/-- The directory that the part of a path before its last slash names; the root where that part
is empty. -/
def parent_find (parent_path : List UInt8) : S (Option Nat) := do
  if parent_path = [] then pure (some 0)
  else
    match ← path_find parent_path with
    | none => pure none
    | some (inum, _) => pure (some inum)

/-- The inode that `spfs_write` puts its data into: the one at `path`, emptied, or a new one
under `name`. Where a read fails the code goes on with an inode that it never set, here zeros. -/
def write_inode (path : List UInt8) (parent_inum : Nat) (name : List UInt8) (ticks : Nat) :
    S (Option Nat) := do
  match ← path_find path with
  | some (existing, _) =>
    let ex := (← inode_read existing).getD ByteStr.zero
    free_blocks ex (List.range 10)
    let _ ← inode_write existing (inode_sem_blocos (inode_por_size ex 0))
    pure (some existing)
  | none =>
    match ← alloc_inode with
    | none => pure none
    | some existing =>
      let _ ← inode_write existing (inode_novo 1 ticks)
      let _ ← dir_add_entry parent_inum existing name
      pure (some existing)

/-- The number of bytes written; `none` for -1. `ticks` is the answer of `sched_ticks`. -/
def spfs_write (path buf : List UInt8) (ticks : Nat) : S (Option Nat) := do
  if !(← get).sfs_ok || decide (10 * 512 < buf.length) then pure none
  else
    match ← parent_find (path_split path).1 with
    | none => pure none
    | some parent_inum =>
      match ← write_inode path parent_inum (path_split path).2 ticks with
      | none => pure none
      | some existing =>
        let in_ := (← inode_read existing).getD ByteStr.zero
        let (in_, done) ← write_laco buf (List.range 10) (inode_por_size in_ buf.length) 0
        let _ ← inode_write existing in_
        pure (some done)

/-- `true` for 0, `false` for -1. -/
def spfs_mkdir (path : List UInt8) (ticks : Nat) : S Bool := do
  if !(← get).sfs_ok then pure false
  else
    match ← parent_find (path_split path).1 with
    | none => pure false
    | some parent_inum =>
      match ← alloc_inode with
      | none => pure false
      | some inum =>
        let _ ← inode_write inum (inode_novo 2 ticks)
        let _ ← dir_add_entry parent_inum inum (path_split path).2
        pure true

/-- `true` for 0, `false` for -1. -/
def spfs_unlink (path : List UInt8) : S Bool := do
  if !(← get).sfs_ok then pure false
  else
    match ← path_find path with
    | none => pure false
    | some (inum, parent) =>
      match ← inode_read inum with
      | none => pure false
      | some in_ =>
        free_blocks in_ (List.range 10)
        let _ ← inode_write inum (inode_por_type in_ 0)
        modify fun s => { s with imap := bm_clr s.imap inum }
        let _ ← sfs_write_sec SFS_IMAP_SEC (← get).imap
        modify fun s => { s with sb := s.sb.putWord 20 (super_free_inodes s.sb + 1) }
        let _ ← sfs_write_sec SFS_SUPER_SEC (← get).sb
        match ← inode_read parent with
        | none => pure true
        | some dir =>
          dir_remove dir inum (List.range 10)
          pure true

/-! ## Format and mount -/

/-- The superblock of a fresh file system. -/
def super_novo : Setor :=
  let sb := ByteStr.zero.putWord 0 SFS_MAGIC
  let sb := sb.putWord 4 SFS_VERSION
  let sb := sb.putWord 8 (65536 - SFS_DATA_START)
  let sb := sb.putWord 12 (65536 - SFS_DATA_START)
  let sb := sb.putWord 16 SFS_INODE_MAX
  let sb := sb.putWord 20 (SFS_INODE_MAX - 1)
  let sb := sb.putWord 24 SFS_DATA_START
  sb.putWord 28 0

/-- The loop of `spfs_format` that clears the inode table. -/
def zera_setores : List Nat → Prog Setor Unit
  | [] => pure ()
  | s :: ss => do
    let _ ← ata_gravar1 s ByteStr.zero
    zera_setores ss

/-- `true` for 0, `false` for -1. The last write takes a whole sector from the 64 bytes of
`root`: what follows them on the stack is `pilha`. -/
def spfs_format (pilha : Setor) : StateT Mem (Prog Setor) Bool := do
  if !(← ata_presente1) then pure false
  else
    let imap := bm_set ByteStr.zero 0
    modify fun m => { m with fs := { m.fs with sb := super_novo } }
    let _ ← ata_gravar1 SFS_SUPER_SEC super_novo
    modify fun m => { m with fs := { m.fs with imap } }
    let _ ← ata_gravar1 SFS_IMAP_SEC imap
    modify fun m => { m with fs := { m.fs with bmap := ByteStr.zero } }
    let _ ← ata_gravar1 SFS_BMAP_SEC ByteStr.zero
    zera_setores (List.range' SFS_INODE_SEC 32)
    let _ ← ata_gravar1 SFS_INODE_SEC (pilha.splice 0 (inode_novo 2 0))
    no_journal Journal.journal_init
    pure true

/-- `true` for 0, `false` for -1. -/
def spfs_mount : StateT Mem (Prog Setor) Bool := do
  if !(← ata_presente1) then pure false
  else
    match ← ata_ler1 SFS_SUPER_SEC with
    | none => pure false
    | some sb =>
      modify fun m => { m with fs := { m.fs with sb } }
      if super_magic sb ≠ SFS_MAGIC then pure false
      else
        if let some imap ← ata_ler1 SFS_IMAP_SEC then
          modify fun m => { m with fs := { m.fs with imap } }
        if let some bmap ← ata_ler1 SFS_BMAP_SEC then
          modify fun m => { m with fs := { m.fs with bmap } }
        no_journal Journal.journal_init
        no_journal Journal.journal_recover
        modify fun m => { m with fs := { m.fs with sfs_ok := true } }
        pure true

end SpaceOS.SpaceFs
