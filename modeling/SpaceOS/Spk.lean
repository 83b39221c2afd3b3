-- Packages: the format (kernel/pkg/spk.h), the packer (mkspk.py), and the checks that
-- `instalar_spk` (kernel/pkg/pkg_install.c) makes before it writes a file.
import SpaceOS.Lib.Layout

open Lib.Bytes Lib.Layout

namespace SpaceOS.Pkg

def SPK_MAGIC : Nat := 0x53504B21

def SPK_VERSION : Nat := 1

def SPK_MAX_DEPS : Nat := 8

def SPK_MAX_FILES : Nat := 8

def SPK_MAX_SIZE : Nat := 64 * 1024

/-- `sizeof(spk_header_t)`. -/
def HEADER : Nat := 392

/-- `sizeof(spk_file_record_t)`. -/
def RECORD : Nat := 73

/-! ## The packer -/

/-- The numbers are Python's, which do not overflow. -/
def djb2 (data : List UInt8) : Nat :=
  data.foldl (fun h b => ((h <<< 5) + h + b.toNat) &&& 0xFFFFFFFF) 5381

def pack_str (s : List UInt8) (size : Nat) : List UInt8 := padded (s.take (size - 1)) size

/-- A file of a package: its install path and its contents. -/
structure Arquivo where
  install_path : List UInt8
  content : List UInt8

/-- The suffixes `.txt`, `.cfg`, `.lst` and `.md`. -/
def sufixos : List (List UInt8) :=
  [[46, 116, 120, 116], [46, 99, 102, 103], [46, 108, 115, 116], [46, 109, 100]]

def exe (install_path : List UInt8) : UInt8 :=
  if sufixos.any (·.isSuffixOf install_path) then 0 else 1

/-- One record; the size and the offset are packed with `'<I'`. -/
def pack_record (f : Arquivo) (offset : Nat) : List UInt8 :=
  pack_str f.install_path 64 ++ le32 f.content.length ++ le32 offset ++ [exe f.install_path]

/-- The records, each with the offset of its contents in the payload. -/
def records : Nat → List Arquivo → List UInt8
  | _, [] => []
  | offset, f :: files => pack_record f offset ++ records (offset + f.content.length) files

def payload (files : List Arquivo) : List UInt8 := files.flatMap Arquivo.content

def pack_header (name version author : List UInt8) (deps : List (List UInt8))
    (files : List Arquivo) : List UInt8 :=
  le32 SPK_MAGIC ++ (le32 SPK_VERSION ++ (pack_str name 32 ++ (pack_str version 16 ++
    (pack_str author 32 ++ (le32 deps.length ++
      ((List.range 8).flatMap (fun i => pack_str (deps.getD i []) 32) ++
        (le32 files.length ++ (le32 (payload files).length ++ (le32 (djb2 (payload files)) ++
          List.replicate 32 0)))))))))

/-- `none`: the packer gives up. -/
def criar_spk (name version author : List UInt8) (deps : List (List UInt8))
    (files : List Arquivo) : Option (List UInt8) :=
  if files.length > 8 then none
  else if deps.length > 8 then none
  else some (pack_header name version author deps files ++ (records 0 files ++ payload files))

/-! ## The kernel -/

def pkg_checksum (data : List UInt8) : UInt32 :=
  data.foldl (fun hash b => ((hash <<< 5) + hash) + b.toUInt32) 5381

/-- A 32-bit field. -/
def campo (buf : Memory) (a : Nat) : UInt32 := UInt32.ofNat (word buf a)

/-- `spk_header_t`, of a file of `size` bytes. A string may run on to the end of the file. -/
structure Header where
  magic : UInt32
  version : UInt32
  name : List UInt8
  pkg_version : List UInt8
  author : List UInt8
  num_deps : UInt32
  deps : List (List UInt8)
  num_files : UInt32
  total_payload_size : UInt32
  checksum : UInt32

def header (buf : Memory) (size : Nat) : Header where
  magic := campo buf 0
  version := campo buf 4
  name := cstr buf 8 (size - 8)
  pkg_version := cstr buf 40 (size - 40)
  author := cstr buf 56 (size - 56)
  num_deps := campo buf 88
  deps := (List.range SPK_MAX_DEPS).map fun i => cstr buf (92 + 32 * i) (size - (92 + 32 * i))
  num_files := campo buf 348
  total_payload_size := campo buf 352
  checksum := campo buf 356

/-- `spk_file_record_t`. -/
structure Record where
  install_path : List UInt8
  size : UInt32
  offset : UInt32

def record (buf : Memory) (size i : Nat) : Record where
  install_path := cstr buf (HEADER + RECORD * i) (size - (HEADER + RECORD * i))
  size := campo buf (HEADER + RECORD * i + 64)
  offset := campo buf (HEADER + RECORD * i + 68)

def header_total (hdr : Header) : UInt32 :=
  UInt32.ofNat HEADER + hdr.num_files * UInt32.ofNat RECORD

/-- `n` bytes from address `a` on. -/
def bytes (buf : Memory) (a n : Nat) : List UInt8 := (List.range n).map fun i => buf (a + i)

/-- The steps 1, 3 and 4 of `instalar_spk`, on a file of `size` bytes that was read to `buf`. -/
def verifica (buf : Memory) (size : UInt32) : Except String Header :=
  if size.toNat > SPK_MAX_SIZE then .error "spk: pacote muito grande (max 64KB)"
  else if size.toNat < HEADER then .error "spk: arquivo muito pequeno"
  else
    let hdr := header buf size.toNat
    if hdr.magic ≠ UInt32.ofNat SPK_MAGIC then .error "spk: formato invalido (magic errado)"
    else if hdr.version ≠ UInt32.ofNat SPK_VERSION then
      .error "spk: versao do formato incompativel"
    else if hdr.num_files = 0 ∨ hdr.num_files > UInt32.ofNat SPK_MAX_FILES then
      .error "spk: numero de arquivos invalido"
    else if header_total hdr + hdr.total_payload_size > size then
      .error "spk: tamanho inconsistente"
    else if pkg_checksum (bytes buf (header_total hdr).toNat hdr.total_payload_size.toNat) ≠
        hdr.checksum then
      .error "spk: checksum invalido — pacote corrompido"
    else .ok hdr

/-- The bytes of a file in the package, `none` where its record does not fit the payload. -/
def conteudo (buf : Memory) (hdr : Header) (rec : Record) : Option (List UInt8) :=
  if rec.offset + rec.size > hdr.total_payload_size then none
  else some (bytes buf ((header_total hdr).toNat + rec.offset.toNat) rec.size.toNat)

/-- The dependencies that `pkg_solve_deps` looks at. -/
def dependencias (hdr : Header) : List (List UInt8) := hdr.deps.take hdr.num_deps.toNat

end SpaceOS.Pkg
