-- The order in which a package and its dependencies are installed (kernel/pkg/pkg_solver.c), and
-- the loop of `pkg_install` (kernel/pkg/pkg_install.c) over it.
import SpaceOS.PkgInstall

open Lib.Bytes Lib.Undo

namespace SpaceOS.Pkg

/-- A file or a directory has the path. -/
def vfs_open (v : Vfs) (path : Path) : Bool := (v.arquivos path).isSome || path ∈ v.diretorios

/-- The header alone, in a `spk_header_t` on the stack; `lixo` is what lies behind it. -/
def ler_header (lixo : Lixo) (v : Vfs) (spk_path : Path) : Option Header :=
  (vfs_read v spk_path HEADER).bind fun hdr_buf =>
    if hdr_buf.length < HEADER then none
    else
      let hdr := header (fun i => (hdr_buf ++ lixo.val).getD i 0) (HEADER + lixo.val.length)
      if hdr.magic ≠ UInt32.ofNat SPK_MAGIC then none else some hdr

/-- `/pkg/incoming/`, the name, `.spk`. -/
def dep_path (lixo : Lixo) (dep : List UInt8) : Path :=
  [47, 112, 107, 103, 47, 105, 110, 99, 111, 109, 105, 110, 103, 47] ++ copiado dep 8 lixo ++
    [46, 115, 112, 107]

/-- The loop over the dependencies from number `i` on. Each path goes to a field of 64 bytes. -/
def solver_laco (lixo : Nat → Lixo) (v : Vfs) (max : Nat) :
    Nat → List (List UInt8) → List Path → Option (List Path)
  | _, [], install_order => some install_order
  | i, dep :: deps, install_order =>
    if dep = [] ∨ pkg_is_installed v dep then solver_laco lixo v max (i + 1) deps install_order
    else if vfs_open v (dep_path (lixo i) dep) = false then none
    else if install_order.length ≥ max then none
    else
      solver_laco lixo v max (i + 1) deps (install_order ++ [(dep_path (lixo i) dep).take 64])

/-- What the stack holds in a call of `pkg_solve_deps`: behind the header, and behind `dep_path` in
each round of the loop. -/
structure PilhaSolver where
  hdr : Lixo
  dep_path : Nat → Lixo

/-- The fields of `install_order`, none for -1. -/
def pkg_solve_deps (pilha : PilhaSolver) (v : Vfs) (spk_path : Path) (max : Nat) :
    Option (List Path) :=
  (ler_header pilha.hdr v spk_path).bind fun hdr =>
    (solver_laco pilha.dep_path v max 0 (dependencias hdr) []).bind fun install_order =>
      if install_order.length ≥ max then none else some (install_order ++ [spk_path.take 64])

/-- What a call of `instalar_spk` meets: its stack, and whether `kmalloc` has the memory. -/
structure Etapa where
  pilha : Pilha
  memoria : Bool

/-- The loop of `pkg_install` from place `i` of the order on. -/
def instalar_ordem (amb : Ambiente) (etapas : Nat → Etapa) : Nat → List Path → Vfs → Int × Vfs
  | _, [], v => (0, v)
  | i, spk_path :: order, v =>
    let (r, v) := instalar_spk amb (etapas i).pilha (etapas i).memoria v spk_path
    if r ≠ 0 then (-1, v) else instalar_ordem amb etapas (i + 1) order v

/-- A call of `pkg_install`: the package, and what the call meets. `order` is what the stack holds
behind the last path of the order. -/
structure Pedido where
  spk_path : Path
  montado : Bool
  solver : PilhaSolver
  order : Lixo
  etapas : Nat → Etapa

def pkg_install (amb : Ambiente) (c : Pedido) (v : Vfs) : Int × Vfs :=
  if c.montado = false then (-1, v)
  else
    match pkg_solve_deps c.solver v c.spk_path 9 with
    | none => (-1, v)
    | some order => instalar_ordem amb c.etapas 0 (nomes c.order order) v

end SpaceOS.Pkg
