-- The package database and the manifests (kernel/pkg/pkg_db.c), over a file system that is a map
-- from paths to contents and whose writes may fail.
import SpaceOS.Lib.Undo

open Lib.Undo

namespace SpaceOS.Pkg

abbrev Path := List UInt8

/-! ## The file system -/

/-- How a call of `vfs_write` ends. One that fails leaves its path alone, or has deleted the old
file, or has written a part of the new one. -/
inductive Desfecho where
  | ok
  | sem_efeito
  | apagado
  | parcial (n : Nat)
  deriving DecidableEq

def Desfecho.efeito (d : Desfecho) (path : Path) (dados : List UInt8) :
    List (Path × Option (List UInt8)) :=
  match d with
  | .ok => [(path, some dados)]
  | .sem_efeito => []
  | .apagado => [(path, none)]
  | .parcial n => [(path, some (dados.take n))]

/-- How the calls end, by their number. -/
structure Ambiente where
  escrita : Nat → Desfecho
  criacao : Nat → Bool

structure Vfs where
  arquivos : Path → Option (List UInt8)
  diretorios : List Path
  escritas : Nat
  criacoes : Nat

def vfs_write (amb : Ambiente) (v : Vfs) (path : Path) (dados : List UInt8) : Int × Vfs :=
  let d := amb.escrita v.escritas
  (if d = .ok then dados.length else -1,
    { v with
      arquivos := run v.arquivos (d.efeito path dados)
      escritas := v.escritas + 1 })

def vfs_mkdir (amb : Ambiente) (v : Vfs) (path : Path) : Int × Vfs :=
  if amb.criacao v.criacoes then
    (0, { v with diretorios := path :: v.diretorios, criacoes := v.criacoes + 1 })
  else (-1, { v with criacoes := v.criacoes + 1 })

def vfs_unlink (v : Vfs) (path : Path) : Int × Vfs :=
  (if (v.arquivos path).isSome then 0 else -1,
    { v with arquivos := remove v.arquivos [path] })

/-- The first `max` bytes of a file. -/
def vfs_read (v : Vfs) (path : Path) (max : Nat) : Option (List UInt8) :=
  (v.arquivos path).map (·.take max)

/-! ## Text -/

/-- The text up to its first zero byte. -/
def texto (bytes : List UInt8) : List UInt8 := bytes.takeWhile (· ≠ 0)

def extrair_token (p : List UInt8) (max : Nat) : List UInt8 :=
  (p.take (max - 1)).takeWhile fun c => c ≠ 32 ∧ c ≠ 10 ∧ c ≠ 13

/-- The lines of a text, each with its line feed. -/
def linhas : List UInt8 → List (List UInt8)
  | [] => []
  | c :: p =>
    if c = 10 then [c] :: linhas p
    else
      match linhas p with
      | [] => [[c]]
      | l :: ls => (c :: l) :: ls

/-! ## The database -/

/-- `/pkg/db`. -/
def PKG_DB_PATH : Path := [47, 112, 107, 103, 47, 100, 98]

def PKG_DB_MAX : Nat := 2048

def db_ler (v : Vfs) : List UInt8 := (vfs_read v PKG_DB_PATH (PKG_DB_MAX - 1)).getD []

def pkg_is_installed (v : Vfs) (name : List UInt8) : Bool :=
  (linhas (texto (db_ler v))).any fun linha => extrair_token linha 33 == name

/-- What the stack holds where the code reads on past a string that it did not terminate: the bytes
up to the next zero. -/
abbrev Lixo := { bytes : List UInt8 // 0 ∉ bytes }

structure Pilha where
  installed : Lixo
  lst_path : Lixo
  nome : Lixo
  versao : Lixo

/-- A string that `k_strncpy` copied to a field of `n` bytes, read back from there. -/
def copiado (s : List UInt8) (n : Nat) (lixo : Lixo) : List UInt8 :=
  if s.length < n then s else s.take n ++ lixo

/-- The line of a package. -/
def nova_linha (pilha : Pilha) (name version : List UInt8) : List UInt8 :=
  copiado name 32 pilha.nome ++ 32 :: (copiado version 16 pilha.versao ++ [10])

def pkg_db_add (amb : Ambiente) (pilha : Pilha) (v : Vfs) (name version : List UInt8) : Int × Vfs :=
  let linha := nova_linha pilha name version
  if (db_ler v).length + linha.length ≥ PKG_DB_MAX then (-1, v)
  else vfs_write amb v PKG_DB_PATH (db_ler v ++ linha)

def pkg_db_remove (amb : Ambiente) (v : Vfs) (name : List UInt8) : Int × Vfs :=
  if db_ler v = [] then (-1, v)
  else
    let novo := ((linhas (texto (db_ler v))).filter fun linha => extrair_token linha 33 ≠ name).flatten
    if novo = [] then (0, (vfs_unlink v PKG_DB_PATH).2)
    else vfs_write amb v PKG_DB_PATH novo

/-! ## Manifests -/

/-- `/pkg/`, the name, `.lst`. -/
def lst_path (lixo : Lixo) (name : List UInt8) : Path :=
  [47, 112, 107, 103, 47] ++ copiado name 8 lixo ++ [46, 108, 115, 116]

/-- The contents of a manifest, from place `pos` of the buffer on. -/
def manifesto : Nat → List Path → List UInt8
  | _, [] => []
  | pos, p :: paths =>
    if pos + p.length + 1 ≥ 1023 then []
    else p ++ 10 :: manifesto (pos + p.length + 1) paths

def pkg_files_save (amb : Ambiente) (lixo : Lixo) (v : Vfs) (name : List UInt8)
    (paths : List Path) : Int × Vfs :=
  vfs_write amb v (lst_path lixo name) (manifesto 0 paths)

/-- The loop of `pkg_files_load`. -/
def ler_caminhos : Nat → Nat → List UInt8 → List Path
  | 0, _, _ => []
  | fuel + 1, max, p =>
    if p = [] ∨ max = 0 then []
    else
      let path := (p.take 63).takeWhile (· ≠ 10)
      let resto := p.drop path.length
      let resto := if resto.head? = some 10 then resto.tail else resto
      if path = [] then ler_caminhos fuel max resto
      else path :: ler_caminhos fuel (max - 1) resto

def pkg_files_load (lixo : Lixo) (v : Vfs) (name : List UInt8) (max : Nat) : List Path :=
  match vfs_read v (lst_path lixo name) 1023 with
  | none => []
  | some lst_buf => ler_caminhos lst_buf.length max (texto lst_buf)

end SpaceOS.Pkg
