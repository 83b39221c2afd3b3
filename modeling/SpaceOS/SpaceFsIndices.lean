-- The functions of SpaceFS with notes: each bit that `bm_set` and `bm_clr` are called with, and
-- each sector that `inode_read` and `inode_write` touch. With the notes dropped they are the
-- functions of `SpaceFs`.
import SpaceOS.Lib.BlockNotes
import SpaceOS.SpaceFs

open Lib.Bytes Lib.Bitmap Lib.BlockProg SpaceOS.Ata

namespace SpaceOS.SpaceFs

inductive Uso where
  /-- `bm_set(imap, bit)` or `bm_clr(imap, bit)`. -/
  | imap (bit : Nat)
  /-- `bm_set(bmap, bit)` or `bm_clr(bmap, bit)`. -/
  | bmap (bit : Nat)
  /-- `inode_read` or `inode_write` on this sector. -/
  | tabela (sec : Nat)

/-- The bit is that of an inode or of a data sector, the sector lies in the inode table. -/
def Uso.EmOrdem : Uso → Prop
  | .imap bit => bit < SFS_INODE_MAX
  | .bmap bit => bit < 4096
  | .tabela sec => 3 ≤ sec ∧ sec ≤ 34

namespace Anotado

abbrev N := Noted Fs Uso Setor

def inode_read (inum : Nat) : N (Option Inode) := do
  note (.tabela (inode_sector inum))
  liftM (SpaceFs.inode_read inum)

def inode_write (inum : Nat) (in_ : Inode) : N Bool := do
  note (.tabela (inode_sector inum))
  liftM (SpaceFs.inode_write inum in_)

/-- The bit that `alloc_inode` sets is that of the inode it returns. -/
def alloc_inode : N (Option Nat) := do
  match ← quiet SpaceFs.alloc_inode with
  | none => pure none
  | some i =>
    note (.imap i)
    pure (some i)

/-- The bit that `alloc_block` sets is that of the sector it returns. -/
def alloc_block : N (Option Nat) := do
  match ← quiet SpaceFs.alloc_block with
  | none => pure none
  | some sec =>
    note (.bmap (sec - SFS_DATA_START))
    pure (some sec)

def free_block (sec : Nat) : N Unit := do
  if sec < SFS_DATA_START then pure ()
  else
    note (.bmap (sec - SFS_DATA_START))
    quiet (SpaceFs.free_block sec)

def free_blocks (in_ : Inode) : List Nat → N Unit
  | [] => pure ()
  | i :: is => do
    if inode_block in_ i ≠ 0 then free_block (inode_block in_ i)
    free_blocks in_ is

def path_laco : List (List UInt8) → Nat → Nat → N (Option (Nat × Nat))
  | [], cur, parent => pure (some (cur, parent))
  | tok :: resto, cur, parent => do
    if tok = [] then path_laco resto cur parent
    else
      match ← inode_read cur with
      | none => pure none
      | some dir =>
        if inode_type dir ≠ 2 then pure none
        else
          match ← liftM (busca_dir dir tok (List.range 10) (inode_size dir / 32)) with
          | none => pure none
          | some inum => path_laco resto inum cur

def path_find (path : List UInt8) : N (Option (Nat × Nat)) := do
  let cur := super_root_inode (← get).1.sb
  let path := if path.head? = some BARRA then path.tail else path
  path_laco (partes (path.take 127)) cur cur

def abre_bloco (dir : Inode) (blk_idx : Nat) : N (Option (Nat × Inode × Setor)) := do
  if inode_block dir blk_idx = 0 then
    match ← alloc_block with
    | none => pure none
    | some sec => pure (some (sec, inode_por_block dir blk_idx sec, ByteStr.zero))
  else
    match ← liftM (sfs_read_sec (inode_block dir blk_idx)) with
    | none => pure none
    | some dblk => pure (some (inode_block dir blk_idx, dir, dblk))

def dir_add_laco (dir_inum child_inum : Nat) (name : List UInt8) : List Nat → Inode → N Bool
  | [], _ => pure false
  | blk_idx :: resto, dir => do
    match ← abre_bloco dir blk_idx with
    | none => pure false
    | some (sec, dir, dblk) =>
      match (List.range SFS_DIRENTS_PER_BLK).find? fun i => dirent_inode dblk i = 0 with
      | some i =>
        let _ ← liftM (sfs_write_sec sec (dirent_por dblk i child_inum name))
        let _ ← inode_write dir_inum (inode_por_size dir (inode_size dir + 32))
        pure true
      | none => dir_add_laco dir_inum child_inum name resto dir

def dir_add_entry (dir_inum child_inum : Nat) (name : List UInt8) : N Bool := do
  match ← inode_read dir_inum with
  | none => pure false
  | some dir => dir_add_laco dir_inum child_inum name (List.range 10) dir

def write_laco (buf : List UInt8) : List Nat → Inode → Nat → N (Inode × Nat)
  | [], in_, done => pure (in_, done)
  | b :: bs, in_, done => do
    if buf.length ≤ done then pure (in_, done)
    else
      match ← alloc_block with
      | none => pure (in_, done)
      | some sec =>
        let chunk := min (buf.length - done) SETOR_SIZE
        let _ ← liftM (sfs_write_sec sec (bloco_de ((buf.drop done).take chunk)))
        write_laco buf bs (inode_por_block in_ b sec) (done + chunk)

def parent_find (parent_path : List UInt8) : N (Option Nat) := do
  if parent_path = [] then pure (some 0)
  else
    match ← path_find parent_path with
    | none => pure none
    | some (inum, _) => pure (some inum)

def write_inode (path : List UInt8) (parent_inum : Nat) (name : List UInt8) (ticks : Nat) :
    N (Option Nat) := do
  match ← path_find path with
  | some (existing, _) =>
    let ex := (← inode_read existing).getD ByteStr.zero
    free_blocks ex (List.range 10)
    let _ ← inode_write existing (inode_sem_blocos (inode_por_size ex 0))
    pure (some existing)
  | none =>
    match ← alloc_inode with
    | none => pure none
    | some existing =>
      let _ ← inode_write existing (inode_novo 1 ticks)
      let _ ← dir_add_entry parent_inum existing name
      pure (some existing)

def spfs_write (path buf : List UInt8) (ticks : Nat) : N (Option Nat) := do
  if !(← get).1.sfs_ok || decide (10 * 512 < buf.length) then pure none
  else
    match ← parent_find (path_split path).1 with
    | none => pure none
    | some parent_inum =>
      match ← write_inode path parent_inum (path_split path).2 ticks with
      | none => pure none
      | some existing =>
        let in_ := (← inode_read existing).getD ByteStr.zero
        let (in_, done) ← write_laco buf (List.range 10) (inode_por_size in_ buf.length) 0
        let _ ← inode_write existing in_
        pure (some done)

def spfs_mkdir (path : List UInt8) (ticks : Nat) : N Bool := do
  if !(← get).1.sfs_ok then pure false
  else
    match ← parent_find (path_split path).1 with
    | none => pure false
    | some parent_inum =>
      match ← alloc_inode with
      | none => pure false
      | some inum =>
        let _ ← inode_write inum (inode_novo 2 ticks)
        let _ ← dir_add_entry parent_inum inum (path_split path).2
        pure true

def spfs_unlink (path : List UInt8) : N Bool := do
  if !(← get).1.sfs_ok then pure false
  else
    match ← path_find path with
    | none => pure false
    | some (inum, parent) =>
      match ← inode_read inum with
      | none => pure false
      | some in_ =>
        free_blocks in_ (List.range 10)
        let _ ← inode_write inum (inode_por_type in_ 0)
        note (.imap inum)
        quiet (modify fun s => { s with imap := bm_clr s.imap inum })
        let _ ← liftM (sfs_write_sec SFS_IMAP_SEC (← get).1.imap)
        quiet (modify fun s => { s with sb := s.sb.putWord 20 (super_free_inodes s.sb + 1) })
        let _ ← liftM (sfs_write_sec SFS_SUPER_SEC (← get).1.sb)
        match ← inode_read parent with
        | none => pure true
        | some dir =>
          liftM (dir_remove dir inum (List.range 10))
          pure true

/-! ## The notes dropped -/

theorem forgets_inode_read (inum : Nat) :
    Forgets (inode_read inum) (liftM (SpaceFs.inode_read inum)) := .note (.lift _)

theorem forgets_inode_write (inum : Nat) (in_ : Inode) :
    Forgets (inode_write inum in_) (liftM (SpaceFs.inode_write inum in_)) := .note (.lift _)

theorem forgets_alloc_inode : Forgets alloc_inode SpaceFs.alloc_inode := by
  rw [← bind_pure SpaceFs.alloc_inode]
  refine (Forgets.quiet _).bind fun r => ?_
  cases r with
  | none => exact .pure _
  | some i => exact .note (.pure _)

theorem forgets_alloc_block : Forgets alloc_block SpaceFs.alloc_block := by
  rw [← bind_pure SpaceFs.alloc_block]
  refine (Forgets.quiet _).bind fun r => ?_
  cases r with
  | none => exact .pure _
  | some sec => exact .note (.pure _)

theorem forgets_free_block (sec : Nat) : Forgets (free_block sec) (SpaceFs.free_block sec) := by
  unfold free_block
  split
  · rename_i h
    rw [SpaceFs.free_block, if_pos h]
    exact .pure _
  · exact .note (.quiet _)

theorem forgets_free_blocks (in_ : Inode) (l : List Nat) :
    Forgets (free_blocks in_ l) (SpaceFs.free_blocks in_ l) := by
  induction l with
  | nil => exact .pure _
  | cons i l ih =>
    rw [free_blocks, SpaceFs.free_blocks]
    exact .ite ((forgets_free_block _).bind fun _ => ih) ih

theorem forgets_path_laco (toks : List (List UInt8)) (cur parent : Nat) :
    Forgets (path_laco toks cur parent) (liftM (SpaceFs.path_laco toks cur parent)) := by
  induction toks generalizing cur parent with
  | nil => exact .pure _
  | cons tok toks ih =>
    rw [path_laco, SpaceFs.path_laco]
    by_cases ht : tok = []
    · rw [if_pos ht, if_pos ht]
      exact ih cur parent
    rw [if_neg ht, if_neg ht]
    refine (forgets_inode_read cur).lift_bind fun r => ?_
    rcases r with _ | dir
    · exact .pure none
    dsimp only
    by_cases h2 : inode_type dir ≠ 2
    · rw [if_pos h2, if_pos h2]
      exact .pure none
    rw [if_neg h2, if_neg h2]
    refine (Forgets.lift _).lift_bind fun r => ?_
    rcases r with _ | inum
    · exact .pure none
    · exact ih inum cur

theorem forgets_path_find (path : List UInt8) :
    Forgets (path_find path) (SpaceFs.path_find path) :=
  .get fun _ _ => forgets_path_laco _ _ _

theorem forgets_abre_bloco (dir : Inode) (b : Nat) :
    Forgets (abre_bloco dir b) (SpaceFs.abre_bloco dir b) := by
  unfold abre_bloco SpaceFs.abre_bloco
  refine .ite (forgets_alloc_block.bind fun r => ?_) ((Forgets.lift _).bind fun r => ?_)
  · cases r with
    | none => exact .pure _
    | some sec => exact .pure _
  · cases r with
    | none => exact .pure _
    | some dblk => exact .pure _

theorem forgets_dir_add_laco (dir_inum child : Nat) (name : List UInt8) (l : List Nat)
    (dir : Inode) : Forgets (dir_add_laco dir_inum child name l dir)
      (SpaceFs.dir_add_laco dir_inum child name l dir) := by
  induction l generalizing dir with
  | nil => exact .pure _
  | cons b l ih =>
    rw [dir_add_laco, SpaceFs.dir_add_laco]
    refine (forgets_abre_bloco dir b).bind fun r => ?_
    rcases r with _ | ⟨sec, dir', dblk⟩
    · exact .pure _
    dsimp only
    cases (List.range SFS_DIRENTS_PER_BLK).find? fun i => dirent_inode dblk i = 0 with
    | some i =>
      exact (Forgets.lift _).bind fun _ => (forgets_inode_write _ _).bind fun _ => .pure _
    | none => exact ih dir'

theorem forgets_dir_add_entry (dir_inum child : Nat) (name : List UInt8) :
    Forgets (dir_add_entry dir_inum child name) (SpaceFs.dir_add_entry dir_inum child name) :=
  (forgets_inode_read dir_inum).bind fun r => by
    cases r with
    | none => exact .pure _
    | some dir => exact forgets_dir_add_laco _ _ _ _ dir

theorem forgets_write_laco (buf : List UInt8) (l : List Nat) (in_ : Inode) (done : Nat) :
    Forgets (write_laco buf l in_ done) (SpaceFs.write_laco buf l in_ done) := by
  induction l generalizing in_ done with
  | nil => exact .pure _
  | cons b l ih =>
    rw [write_laco, SpaceFs.write_laco]
    refine .ite (.pure _) (forgets_alloc_block.bind fun r => ?_)
    cases r with
    | none => exact .pure _
    | some sec => exact (Forgets.lift _).bind fun _ => ih _ _

theorem forgets_parent_find (parent_path : List UInt8) :
    Forgets (parent_find parent_path) (SpaceFs.parent_find parent_path) :=
  .ite (.pure _) ((forgets_path_find parent_path).bind fun r => by
    rcases r with _ | ⟨inum, _⟩
    · exact .pure _
    · exact .pure _)

theorem forgets_write_inode (path : List UInt8) (parent_inum : Nat) (name : List UInt8)
    (ticks : Nat) : Forgets (write_inode path parent_inum name ticks)
      (SpaceFs.write_inode path parent_inum name ticks) :=
  (forgets_path_find path).bind fun r => by
    rcases r with _ | ⟨existing, _⟩
    · refine forgets_alloc_inode.bind fun r => ?_
      cases r with
      | none => exact .pure _
      | some existing =>
        exact (forgets_inode_write _ _).bind fun _ =>
          (forgets_dir_add_entry _ _ _).bind fun _ => .pure _
    · exact (forgets_inode_read _).bind fun _ => (forgets_free_blocks _ _).bind fun _ =>
        (forgets_inode_write _ _).bind fun _ => .pure _

theorem forgets_spfs_write (path buf : List UInt8) (ticks : Nat) :
    Forgets (spfs_write path buf ticks) (SpaceFs.spfs_write path buf ticks) :=
  .get fun fs _ => .ite (.pure _) ((forgets_parent_find _).bind fun r => by
    cases r with
    | none => exact .pure _
    | some parent_inum =>
      refine (forgets_write_inode _ _ _ _).bind fun r => ?_
      cases r with
      | none => exact .pure _
      | some existing =>
        exact (forgets_inode_read _).bind fun _ => (forgets_write_laco _ _ _ _).bind fun _ =>
          (forgets_inode_write _ _).bind fun _ => .pure _)

theorem forgets_spfs_mkdir (path : List UInt8) (ticks : Nat) :
    Forgets (spfs_mkdir path ticks) (SpaceFs.spfs_mkdir path ticks) :=
  .get fun fs _ => .ite (.pure _) ((forgets_parent_find _).bind fun r => by
    cases r with
    | none => exact .pure _
    | some parent_inum =>
      refine forgets_alloc_inode.bind fun r => ?_
      cases r with
      | none => exact .pure _
      | some inum =>
        exact (forgets_inode_write _ _).bind fun _ =>
          (forgets_dir_add_entry _ _ _).bind fun _ => .pure _)

theorem forgets_spfs_unlink (path : List UInt8) :
    Forgets (spfs_unlink path) (SpaceFs.spfs_unlink path) :=
  .get fun fs _ => .ite (.pure _) ((forgets_path_find path).bind fun r => by
    rcases r with _ | ⟨inum, parent⟩
    · exact .pure _
    refine (forgets_inode_read inum).bind fun r => ?_
    rcases r with _ | in_
    · exact .pure _
    refine (forgets_free_blocks in_ _).bind fun _ => (forgets_inode_write _ _).bind fun _ => ?_
    refine .note ((Forgets.quiet _).bind fun _ => .get fun _ _ => (Forgets.lift _).bind fun _ => ?_)
    refine (Forgets.quiet _).bind fun _ => .get fun _ _ => (Forgets.lift _).bind fun _ => ?_
    refine (forgets_inode_read parent).bind fun r => ?_
    rcases r with _ | dir
    · exact .pure _
    · exact (Forgets.lift _).bind fun _ => .pure _)

end Anotado

end SpaceOS.SpaceFs
