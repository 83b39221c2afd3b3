-- Reading and writing files by their path (kernel/fs/vfs.c), over the FAT32 driver.
import Mathlib.Data.List.Basic
import SpaceOS.Fat32
import SpaceOS.Lib.CString

open Lib.Bytes Lib.Bytes.ByteStr Lib.CString SpaceOS.Fat32

namespace SpaceOS.Vfs

/-- The current directory. -/
structure Cwd where
  montado : Bool
  cluster : Nat

/-- What `vfs_open` says of an entry. -/
structure Entry where
  is_dir : Bool
  cluster : Nat
  size : Nat

def BARRA : UInt8 := 47

/-! ## Paths -/

/-- The place of the last `/`. -/
def ultima_barra (path : List UInt8) : Option Nat :=
  ((List.range path.length).filter fun i => path.getD i 0 = BARRA).getLast?

/-- The path of the parent and the last component. -/
def path_split_last (path : List UInt8) : List UInt8 × List UInt8 :=
  match ultima_barra path with
  | none => ([], path)
  | some slash =>
    if slash = 0 then ([], path) else ((path.take 255).take slash, path.drop (slash + 1))

def is_dir (e : Dirent) : Bool := e.attr &&& FAT32_ATTR_DIR ≠ 0

/-- The loop over the components: -1, or 0 with a directory, or 1 with the directory of a file. The
outer `none` is a search that has not ended. -/
def resolve_laco (v : Bpb) (d : Disco) : List (List UInt8) → Nat → Option (Int × Nat)
  | [], cur => some (0, cur)
  | tok :: resto, cur =>
    if tok = [] ∨ tok = [46] then resolve_laco v d resto cur
    else
      (fat32_find v d cur (fat32_normalize tok)).bind fun r =>
        match r with
        | none => some (-1, 0)
        | some e =>
          if is_dir e then resolve_laco v d resto e.cluster
          else if resto ≠ [] then some (-1, 0)
          else some (1, cur)

def resolve_dir (v : Bpb) (d : Disco) (cwd : Cwd) (path : List UInt8) : Option (Int × Nat) :=
  if path.head? = some BARRA then
    resolve_laco v d ((path.tail.take 255).splitOn BARRA) v.root_cluster
  else resolve_laco v d ((path.take 255).splitOn BARRA) cwd.cluster

/-- The directory that the last component lies in. -/
def resolve_pai (v : Bpb) (d : Disco) (cwd : Cwd) (path : List UInt8) : Option (Int × Nat) :=
  let parent_buf := (path_split_last path).1
  if parent_buf = [] then
    some (0, if path.head? = some BARRA then v.root_cluster else cwd.cluster)
  else resolve_dir v d cwd parent_buf

/-! ## Files -/

/-- The entry of a path, none for -1. -/
def vfs_open (v : Bpb) (d : Disco) (cwd : Cwd) (path : List UInt8) : Option (Option Entry) :=
  if cwd.montado then
    (resolve_pai v d cwd path).bind fun (r, parent_cluster) =>
      if r < 0 then some none
      else
        (fat32_find v d parent_cluster (fat32_normalize (path_split_last path).2)).map fun fe =>
          fe.map fun e => ⟨is_dir e, e.cluster, e.size⟩
  else some none

/-- The result, and the bytes that are put in the buffer. -/
def vfs_read (v : Bpb) (d : Disco) (cwd : Cwd) (path : List UInt8) (max_size : Nat) :
    Option (Int × List UInt8) :=
  (vfs_open v d cwd path).bind fun r =>
    match r with
    | none => some (-1, [])
    | some e =>
      if e.is_dir then some (-1, [])
      else
        let sz := min e.size max_size
        (fat32_read v d (sz + 1) e.cluster sz).map fun bytes => (como_int bytes.length, bytes)

/-- A file that exists is deleted first. -/
def apaga_antigo (v : Bpb) (d : Disco) (parent_cluster : Nat) (name11 : List UInt8) :
    Option Disco :=
  (fat32_find v d parent_cluster name11).bind fun fe =>
    match fe with
    | some _ => (fat32_delete v d parent_cluster name11).map (·.2)
    | none => some d

def vfs_write (v : Bpb) (d : Disco) (cwd : Cwd) (path buf : List UInt8) : Option (Int × Disco) :=
  if cwd.montado then
    (resolve_pai v d cwd path).bind fun (r, parent_cluster) =>
      if r < 0 then some (-1, d)
      else
        let name11 := fat32_normalize (path_split_last path).2
        (apaga_antigo v d parent_cluster name11).bind fun d =>
          (fat32_create v d parent_cluster name11 FAT32_ATTR_ARCHIVE).bind fun (cluster, d) =>
            if cluster = 0 then some (-1, d) else fat32_write_file v d cluster buf
  else some (-1, d)

/-! ## Directories and names -/

def vfs_mkdir (v : Bpb) (d : Disco) (cwd : Cwd) (path : List UInt8) : Option (Int × Disco) :=
  if cwd.montado then
    (resolve_pai v d cwd path).bind fun (r, parent_cluster) =>
      if r < 0 then some (-1, d)
      else
        let name11 := fat32_normalize (path_split_last path).2
        (fat32_create v d parent_cluster name11 FAT32_ATTR_DIR).map fun (c, d) =>
          (if c = 0 then -1 else 0, d)
  else some (-1, d)

def vfs_unlink (v : Bpb) (d : Disco) (cwd : Cwd) (path : List UInt8) : Option (Int × Disco) :=
  if cwd.montado then
    (resolve_pai v d cwd path).bind fun (r, parent_cluster) =>
      if r < 0 then some (-1, d)
      else fat32_delete v d parent_cluster (fat32_normalize (path_split_last path).2)
  else some (-1, d)

/-- A move to another directory always fails. -/
def vfs_rename (v : Bpb) (d : Disco) (cwd : Cwd) (old_path new_path : List UInt8) :
    Option (Int × Disco) :=
  if cwd.montado then
    (resolve_pai v d cwd old_path).bind fun (r, old_cluster) =>
      if r < 0 then some (-1, d)
      else
        (resolve_pai v d cwd new_path).bind fun (r, new_cluster) =>
          if r < 0 then some (-1, d)
          else
            let old11 := fat32_normalize (path_split_last old_path).2
            let new11 := fat32_normalize (path_split_last new_path).2
            if old_cluster = new_cluster then fat32_rename v d old_cluster old11 new11
            else (fat32_find v d old_cluster old11).map fun _ => (-1, d)
  else some (-1, d)

/-! ## The current directory -/

abbrev Buffer := ByteStr 256

/-- The current directory with its path. -/
structure CwdPath extends Cwd where
  path : Buffer

/-- The state at the start; `fat32_init` finds the volume `v`, or none. -/
def vfs_init (v : Option Bpb) : CwdPath :=
  let path := strncpy zero 0 [BARRA] 255
  match v with
  | none => ⟨⟨false, 2⟩, path⟩
  | some v => ⟨⟨true, v.root_cluster⟩, path⟩

/-- The `..` branch of `vfs_chdir` on `new_path`: all from the last slash on goes, but not a slash
at the start. `none` where the code reads past the buffer. -/
def tira_ultimo (new_path : Buffer) : Option Buffer :=
  (strlen new_path).bind fun len =>
    if 1 < len then
      let new_path :=
        match (List.range' 1 (len - 1)).reverse.find? fun i => new_path.byte i = BARRA with
        | some i => new_path.putByte i 0
        | none => new_path
      (strlen new_path).map fun len =>
        if len = 0 then (new_path.putByte 0 BARRA).putByte 1 0 else new_path
    else some new_path

/-- The last branch of `vfs_chdir` on `new_path`: a slash, if there is none at the end, and the
argument. `none` where the code leaves the buffer. -/
def junta_nome (new_path : Buffer) (path : List UInt8) : Option Buffer :=
  (strlen new_path).bind fun len =>
    if len = 0 then none
    else if new_path.byte (len - 1) ≠ BARRA ∧ 256 ≤ len + 1 then none
    else
      let new_path :=
        if new_path.byte (len - 1) ≠ BARRA then (new_path.putByte len BARRA).putByte (len + 1) 0
        else new_path
      (strlen new_path).map fun nlen => strncpy new_path nlen path (255 - nlen)

/-- What `vfs_chdir` writes at its end. -/
def muda_cwd (cwd : CwdPath) (new_cluster : Nat) (new_path : Buffer) : CwdPath :=
  ⟨⟨cwd.montado, new_cluster⟩, (strncpy cwd.path 0 (text new_path) 255).putByte 255 0⟩

/-- `pilha` is what the stack holds where `new_path` lies. `none` is a search that has not ended or
an access past the buffer. -/
def vfs_chdir (v : Bpb) (d : Disco) (cwd : CwdPath) (pilha : Buffer) (path : List UInt8) :
    Option (Int × CwdPath) :=
  if cwd.montado then
    if path.head? = some BARRA then
      (resolve_dir v d cwd.toCwd path).map fun (r, new_cluster) =>
        if r < 0 then (-1, cwd) else (0, muda_cwd cwd new_cluster (strncpy pilha 0 path 255))
    else if path = [46, 46] then
      (fat32_find v d cwd.cluster PONTO_PONTO).bind fun dotdot =>
        match dotdot with
        | none => some (-1, cwd)
        | some e =>
          let new_cluster := if e.cluster = 0 then v.root_cluster else e.cluster
          (tira_ultimo (strncpy pilha 0 (text cwd.path) 255)).map fun new_path =>
            (0, muda_cwd cwd new_cluster new_path)
    else
      (fat32_find v d cwd.cluster (fat32_normalize path)).bind fun fe =>
        match fe with
        | none => some (-1, cwd)
        | some e =>
          if is_dir e then
            (junta_nome (strncpy pilha 0 (text cwd.path) 255) path).map fun new_path =>
              (0, muda_cwd cwd e.cluster new_path)
          else some (-1, cwd)
  else some (-1, cwd)

end SpaceOS.Vfs
