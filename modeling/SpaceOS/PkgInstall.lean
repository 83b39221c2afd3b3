-- Installation and removal of packages (kernel/pkg/pkg_install.c).
import SpaceOS.Spk
import SpaceOS.PkgDb

open Lib.Bytes Lib.Undo

namespace SpaceOS.Pkg

/-- The place of the last slash; 0 where there is none. -/
def last_slash (parent : List UInt8) : Nat :=
  parent.zipIdx.foldl (fun r x => if x.1 = 47 then x.2 else r) 0

def ensure_parent_dir (amb : Ambiente) (v : Vfs) (path : Path) : Vfs :=
  let parent := path.take 64
  if last_slash parent = 0 then v
  else (vfs_mkdir amb v (parent.take (last_slash parent))).2

/-- The paths and the contents in a package that `verifica` accepted. -/
def arquivos_do_pacote (buf : Memory) (size : Nat) (hdr : Header) :
    List (Path × Option (List UInt8)) :=
  (List.range hdr.num_files.toNat).map fun i =>
    ((record buf size i).install_path, conteudo buf hdr (record buf size i))

/-- Step 6: the loop over the records. Each path goes to a field of 64 bytes of `installed`. -/
def extrair (amb : Ambiente) : List (Path × Option (List UInt8)) → Vfs → List Path →
    Bool × List Path × Vfs
  | [], v, installed => (true, installed, v)
  | (_, none) :: _, v, installed => (false, installed, v)
  | (path, some dados) :: resto, v, installed =>
    let (r, v) := vfs_write amb (ensure_parent_dir amb v path) path dados
    if r < 0 then (false, installed, v)
    else extrair amb resto v (installed ++ [path.take 64])

/-- The string at the start of the first of some fields of 64 bytes. -/
def ler_campo (lixo : Lixo) : List Path → Path
  | [] => lixo
  | campo :: campos => if campo.length < 64 then campo else campo ++ ler_campo lixo campos

/-- `installed[0]`, `installed[1]`, …, as strings. -/
def nomes (lixo : Lixo) : List Path → List Path
  | [] => []
  | campo :: campos => ler_campo lixo (campo :: campos) :: nomes lixo campos

def rollback (pilha : Pilha) (installed : List Path) (v : Vfs) : Vfs :=
  (nomes pilha.installed installed).foldl (fun v path => (vfs_unlink v path).2) v

/-- The steps 6 and 7. -/
def extrair_e_registrar (amb : Ambiente) (pilha : Pilha) (hdr : Header)
    (arquivos : List (Path × Option (List UInt8))) (v : Vfs) : Int × Vfs :=
  let (ok, installed, v) := extrair amb arquivos v []
  if ok = false then (-1, rollback pilha installed v)
  else
    let (r, v) := pkg_files_save amb pilha.lst_path v hdr.name (nomes pilha.installed installed)
    if r < 0 then (-1, rollback pilha installed v)
    else
      let (r, v) := pkg_db_add amb pilha v hdr.name hdr.pkg_version
      if r < 0 then (-1, rollback pilha installed v) else (0, v)

/-- The package in a file. -/
def ler_pacote (v : Vfs) (spk_path : Path) : Except String (Header × List (Path × Option (List UInt8))) :=
  match v.arquivos spk_path with
  | none => .error "spk: arquivo nao encontrado"
  | some c =>
    let buf : Memory := fun i => c.getD i 0
    match verifica buf (UInt32.ofNat c.length) with
    | .error e => .error e
    | .ok hdr => .ok (hdr, arquivos_do_pacote buf c.length hdr)

/-- `memoria`: whether `kmalloc` has the memory for the file. -/
def instalar_spk (amb : Ambiente) (pilha : Pilha) (memoria : Bool) (v : Vfs) (spk_path : Path) :
    Int × Vfs :=
  if memoria = false then (-1, v)
  else
    match ler_pacote v spk_path with
    | .error _ => (-1, v)
    | .ok (hdr, arquivos) =>
      if pkg_is_installed v hdr.name then (-1, v)
      else extrair_e_registrar amb pilha hdr arquivos v

/-- `lixo_load` and `lixo_remove` are the bytes of the stack after the copied name, in
`pkg_files_load` and in `pkg_remove`. -/
def pkg_remove (amb : Ambiente) (lixo_load lixo_remove : Lixo) (v : Vfs) (name : List UInt8) :
    Int × Vfs :=
  if pkg_is_installed v name = false then (-1, v)
  else
    let paths := pkg_files_load lixo_load v name 8
    let v := paths.foldl (fun v path => (vfs_unlink v path).2) v
    let v := (vfs_unlink v (lst_path lixo_remove name)).2
    (0, (pkg_db_remove amb v name).2)

end SpaceOS.Pkg
