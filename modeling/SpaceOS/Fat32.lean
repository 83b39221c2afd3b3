-- The FAT32 driver (kernel/fs/fat32.c), on a disk whose reads and writes succeed.
import Mathlib.Data.List.Basic
import SpaceOS.Lib.ByteString

open Lib.Bytes Lib.Bytes.ByteStr

namespace SpaceOS.Fat32

abbrev Setor := ByteStr 512

/-- The sectors by their number. -/
abbrev Disco := Nat → Setor

def gravar (d : Disco) (lba : Nat) (b : Setor) : Disco := fun l => if l = lba then b else d l

/-- What `fat32_init` keeps of the boot sector. -/
structure Bpb where
  spc : Nat
  fat_lba : Nat
  data_lba : Nat
  root_cluster : Nat
  total_clusters : Nat

def FAT32_EOF : Nat := 0x0FFFFFF8

def FAT32_ATTR_VOLUME : UInt8 := 0x08

def FAT32_ATTR_DIR : UInt8 := 0x10

def FAT32_ATTR_ARCHIVE : UInt8 := 0x20

def FAT32_ATTR_LFN : UInt8 := 0x0F

/-! ## The FAT -/

def cluster_to_lba (v : Bpb) (cluster : Nat) : Nat :=
  (v.data_lba + (cluster + 2 ^ 32 - 2) % 2 ^ 32 * v.spc) % 2 ^ 32

def fat_sector (v : Bpb) (cluster : Nat) : Nat := v.fat_lba + cluster * 4 % 2 ^ 32 / 512

def fat_offset (cluster : Nat) : Nat := cluster * 4 % 2 ^ 32 % 512

/-- The mask `0x0FFFFFFF` keeps 28 bits. -/
def fat32_read_fat (v : Bpb) (d : Disco) (cluster : Nat) : Nat :=
  (d (fat_sector v cluster)).word (fat_offset cluster) % 2 ^ 28

def fat32_write_fat_entry (v : Bpb) (d : Disco) (cluster value : Nat) : Disco :=
  gravar d (fat_sector v cluster)
    ((d (fat_sector v cluster)).putWord (fat_offset cluster) (value % 2 ^ 28))

/-- The cluster is 0 where the disk is full. -/
def fat32_alloc_cluster (v : Bpb) (d : Disco) : Nat × Disco :=
  match ((List.range v.total_clusters).map (· + 2)).find? fun c => fat32_read_fat v d c = 0 with
  | some c => (c, fat32_write_fat_entry v d c 0x0FFFFFFF)
  | none => (0, d)

/-! ## Directory entries -/

/-- `fat32_dirent_raw_t`. -/
abbrev Dirent := ByteStr 32

namespace Dirent

def first (e : Dirent) : UInt8 := e.byte 0

/-- The name and the extension, 11 bytes. `k_strncmp` compares them all with a name, which has no
zero byte. -/
def raw11 (e : Dirent) : List UInt8 := (List.range 11).map fun j => e.byte j

def attr (e : Dirent) : UInt8 := e.byte 11

def cluster (e : Dirent) : Nat := e.half 20 * 2 ^ 16 + e.half 26

def size (e : Dirent) : Nat := e.word 28

end Dirent

/-- Where an entry lies: its sector, and its number there. -/
abbrev Slot := Nat × Nat

def dirent (d : Disco) (x : Slot) : Dirent := (d x.1).slice (32 * x.2) 32

def gravar_dirent (d : Disco) (x : Slot) (e : Dirent) : Disco :=
  gravar d x.1 ((d x.1).splice (32 * x.2) e)

/-- A new entry; its size is 0. -/
def novo_dirent (name11 : List UInt8) (attr : UInt8) (cluster : Nat) : Dirent := fun j =>
  if j.val < 11 then name11.getD j 0
  else if j.val = 11 then attr
  else if j.val = 20 then UInt8.ofNat (cluster / 2 ^ 16)
  else if j.val = 21 then UInt8.ofNat (cluster / 2 ^ 24)
  else if j.val = 26 then UInt8.ofNat cluster
  else if j.val = 27 then UInt8.ofNat (cluster / 2 ^ 8)
  else 0

/-- The entry with the mark of a deleted one. -/
def apagado (e : Dirent) : Dirent := fun j => if j.val = 0 then 0xE5 else e j

/-- `.` and `..`. -/
def PONTO : List UInt8 := [46, 32, 32, 32, 32, 32, 32, 32, 32, 32, 32]

def PONTO_PONTO : List UInt8 := [46, 46, 32, 32, 32, 32, 32, 32, 32, 32, 32]

/-- The entries of a cluster in the order of the loops. -/
def slots (v : Bpb) (cluster : Nat) : List Slot :=
  (List.range v.spc).flatMap fun s => (List.range 16).map fun i => (cluster_to_lba v cluster + s, i)

/-! ## Walks over a directory -/

/-- The loop over the clusters of a directory: the first entry for which `f` has an answer, none at
the end of the chain. The outer `none` is a loop that has not ended in `fuel` clusters. -/
def percorre {α : Type} (v : Bpb) (d : Disco) (f : Slot → Option α) : Nat → Nat → Option (Option α)
  | 0, _ => none
  | fuel + 1, cluster =>
    if cluster ≥ FAT32_EOF then some none
    else
      match (slots v cluster).findSome? f with
      | some a => some (some a)
      | none => percorre v d f fuel (fat32_read_fat v d cluster)

/-- More clusters than a chain without a loop has. -/
def voltas (v : Bpb) : Nat := v.total_clusters + 2

/-- What the search of `fat32_find` does at an entry: go on, give up, or take it. -/
def olha_find (d : Disco) (name11 : List UInt8) (x : Slot) : Option (Option Slot) :=
  let e := dirent d x
  if e.first = 0x00 then some none
  else if e.first = 0xE5 then none
  else if e.attr = FAT32_ATTR_LFN then none
  else if e.attr &&& FAT32_ATTR_VOLUME ≠ 0 then none
  else if e.raw11 = name11 then some (some x)
  else none

def fat32_find (v : Bpb) (d : Disco) (dir_cluster : Nat) (name11 : List UInt8) :
    Option (Option Dirent) :=
  (percorre v d (olha_find d name11) (voltas v) dir_cluster).map fun r =>
    (r.bind id).map (dirent d)

/-- The search of `fat32_delete`, which does not pass over labels. -/
def olha_delete (d : Disco) (name11 : List UInt8) (x : Slot) : Option (Option Slot) :=
  let e := dirent d x
  if e.first = 0x00 then some none
  else if e.first = 0xE5 then none
  else if e.attr = FAT32_ATTR_LFN then none
  else if e.raw11 = name11 then some (some x)
  else none

/-- The search of `fat32_create` for a free entry. -/
def olha_livre (d : Disco) (x : Slot) : Option Slot :=
  if (dirent d x).first = 0x00 ∨ (dirent d x).first = 0xE5 then some x else none

/-! ## Files -/

/-- The sectors of a cluster filled with zeros. -/
def zera_cluster (v : Bpb) (d : Disco) (cluster : Nat) : Disco :=
  (List.range v.spc).foldl (fun d s => gravar d (cluster_to_lba v cluster + s) zero) d

/-- The entries `.` and `..` of a new directory. -/
def pontos (v : Bpb) (d : Disco) (cluster parent_cluster : Nat) : Disco :=
  let lba := cluster_to_lba v cluster
  gravar_dirent (gravar_dirent d (lba, 0) (novo_dirent PONTO FAT32_ATTR_DIR cluster)) (lba, 1)
    (novo_dirent PONTO_PONTO FAT32_ATTR_DIR parent_cluster)

/-- The cluster is 0 where the call fails. -/
def fat32_create (v : Bpb) (d : Disco) (parent_cluster : Nat) (name11 : List UInt8) (attr : UInt8) :
    Option (Nat × Disco) :=
  let (cluster, d) := fat32_alloc_cluster v d
  if cluster = 0 then some (0, d)
  else
    let d := zera_cluster v d cluster
    let d := if attr &&& FAT32_ATTR_DIR ≠ 0 then pontos v d cluster parent_cluster else d
    (percorre v d (olha_livre d) (voltas v) parent_cluster).map fun r =>
      match r with
      | some x => (cluster, gravar_dirent d x (novo_dirent name11 attr cluster))
      | none => (0, d)

/-- The loop of `fat32_delete` that frees a chain. -/
def libera (v : Bpb) : Nat → Disco → Nat → Option Disco
  | 0, _, _ => none
  | fuel + 1, d, c =>
    if 2 ≤ c ∧ c < FAT32_EOF then
      libera v fuel (fat32_write_fat_entry v d c 0) (fat32_read_fat v d c)
    else some d

def fat32_delete (v : Bpb) (d : Disco) (parent_cluster : Nat) (name11 : List UInt8) :
    Option (Int × Disco) :=
  (percorre v d (olha_delete d name11) (voltas v) parent_cluster).bind fun r =>
    match r with
    | some (some x) =>
      let e := dirent d x
      (libera v (voltas v) (gravar_dirent d x (apagado e)) e.cluster).map fun d => (0, d)
    | _ => some (-1, d)

/-- The entry under a new name. -/
def com_nome (e : Dirent) (name11 : List UInt8) : Dirent := fun j =>
  if j.val < 11 then name11.getD j 0 else e j

def fat32_rename (v : Bpb) (d : Disco) (dir_cluster : Nat) (old_name11 new_name11 : List UInt8) :
    Option (Int × Disco) :=
  (percorre v d (olha_delete d old_name11) (voltas v) dir_cluster).map fun r =>
    match r with
    | some (some x) => (0, gravar_dirent d x (com_nome (dirent d x) new_name11))
    | _ => (-1, d)

/-- A sector with some bytes and zeros behind them. -/
def setor_de (dados : List UInt8) : Setor := fun j => dados.getD j 0

/-- The loop over the sectors of a cluster. -/
def grava_cluster (v : Bpb) (d : Disco) (cluster : Nat) (dados : List UInt8) : Disco :=
  (List.range v.spc).foldl
    (fun d s =>
      if 512 * s < dados.length then
        gravar d (cluster_to_lba v cluster + s) (setor_de ((dados.drop (512 * s)).take 512))
      else d) d

/-- The loop of `fat32_write_file`, with the bytes that are not written yet. It ends with -1 where
no cluster is free. -/
def write_laco (v : Bpb) : Nat → Disco → Nat → Nat → List UInt8 → Option (Int × Disco)
  | 0, _, _, _, _ => none
  | fuel + 1, d, cluster, prev_cluster, dados =>
    if dados = [] then some (0, d)
    else
      let (cluster, d) :=
        if cluster = 0 ∨ cluster ≥ FAT32_EOF then
          let (new_c, d) := fat32_alloc_cluster v d
          if new_c = 0 then (0, d)
          else
            (new_c, if prev_cluster ≠ 0 then fat32_write_fat_entry v d prev_cluster new_c else d)
        else (cluster, d)
      if cluster = 0 then some (-1, d)
      else
        let d := grava_cluster v d cluster dados
        write_laco v fuel d (fat32_read_fat v d cluster) cluster (dados.drop (512 * v.spc))

/-- A `uint32_t` as an `int`. -/
def como_int (n : Nat) : Int := Int.bmod n (2 ^ 32)

/-- The number of the bytes written, or -1. -/
def fat32_write_file (v : Bpb) (d : Disco) (first_cluster : Nat) (buf : List UInt8) :
    Option (Int × Disco) :=
  (write_laco v (buf.length + 1) d first_cluster 0 buf).map fun r =>
    (if r.1 < 0 then -1 else como_int buf.length, r.2)

/-- The first sectors of a cluster, `size` bytes at most. -/
def le_cluster (v : Bpb) (d : Disco) (cluster size : Nat) : List UInt8 :=
  (List.range (min size (512 * v.spc))).map fun j =>
    (d (cluster_to_lba v cluster + j / 512)).byte (j % 512)

/-- The bytes read. -/
def fat32_read (v : Bpb) (d : Disco) : Nat → Nat → Nat → Option (List UInt8)
  | 0, _, _ => none
  | fuel + 1, cluster, size =>
    if cluster < FAT32_EOF ∧ 0 < size then
      (fat32_read v d fuel (fat32_read_fat v d cluster) (size - 512 * v.spc)).map fun resto =>
        le_cluster v d cluster size ++ resto
    else some []

/-! ## Names -/

def k_toupper (c : UInt8) : UInt8 := if 97 ≤ c ∧ c ≤ 122 then c - 32 else c

/-- Bytes with spaces behind them, `n` in all. -/
def com_espacos (s : List UInt8) (n : Nat) : List UInt8 := s ++ List.replicate (n - s.length) 32

def fat32_normalize (filename : List UInt8) : List UInt8 :=
  let nome := (filename.takeWhile (· ≠ 46)).take 8
  let resto := filename.drop nome.length
  let resto := if resto.head? = some 46 then resto.tail else resto
  com_espacos (nome.map k_toupper) 8 ++ com_espacos ((resto.take 3).map k_toupper) 3

end SpaceOS.Fat32
