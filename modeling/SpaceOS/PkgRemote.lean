-- The package repository (kernel/pkg/pkg_remote.c): where it is, what `http_get` takes of the
-- response to a request, and the search in the list of the packages.
import SpaceOS.Net

open Lib.Bytes SpaceOS.Net

namespace SpaceOS.Pkg

/-! ## The repository -/

/-- The static variables of the file. `repo_host` is the text in its buffer of 32 bytes. -/
structure Repositorio where
  repo_host : List UInt8
  repo_port : UInt16
  deriving DecidableEq

/-- `10.0.2.2`, port 8080. -/
def Repositorio.padrao : Repositorio := ⟨[49, 48, 46, 48, 46, 50, 46, 50], 8080⟩

/-- `*p >= '0' && *p <= '9'`. -/
def Digito (c : UInt8) : Prop := 48 ≤ c ∧ c ≤ 57

instance (c : UInt8) : Decidable (Digito c) := inferInstanceAs (Decidable (_ ∧ _))

/-- The loop over the digits of the port. -/
def le_porta : UInt16 → List UInt8 → UInt16
  | repo_port, [] => repo_port
  | repo_port, c :: p =>
    if Digito c then le_porta (repo_port * 10 + (c - 48).toUInt16) p else repo_port

def pkg_remote_set_repo (r : Repositorio) (host_port : List UInt8) : Repositorio :=
  let host := (host_port.take 31).takeWhile (· ≠ 58)
  let resto := host_port.drop host.length
  ⟨host, if resto.head? = some 58 then le_porta 0 resto.tail else r.repo_port⟩

/-- The number that a run of digits is, in 32 bits. -/
def octeto (digitos : List UInt8) : UInt32 :=
  digitos.foldl (fun oct c => oct * 10 + (c - 48).toUInt32) 0

/-- The loop over the octets of a literal, of which `n` are left: `none` where the text ends before
them. -/
def le_octetos : Nat → UInt32 → List UInt8 → Option UInt32
  | 0, ip, _ => some ip
  | n + 1, ip, p =>
    if p = [] then none
    else
      let digitos := p.takeWhile fun c => Digito c
      let oct := octeto digitos
      let p := p.drop digitos.length
      le_octetos n ((ip <<< 8) ||| (oct &&& 0xFF)) (if p.head? = some 46 then p.tail else p)

/-- `resolve_host` over a `dns_resolve` that has a state of its own. -/
def resolve_host {σ : Type} (dns_resolve : List UInt8 → σ → Option UInt32 × σ)
    (repo_host : List UInt8) (s : σ) : UInt32 × σ :=
  match le_octetos 4 0 repo_host with
  | some ip => (ip, s)
  | none =>
    let (resolved, s) := dns_resolve repo_host s
    (resolved.getD 0, s)

/-! ## http_get -/

/-- `GET `, the path, ` HTTP/1.0`, and the host. -/
def requisicao (path repo_host : List UInt8) : List UInt8 :=
  [71, 69, 84, 32] ++ path ++
    [32, 72, 84, 84, 80, 47, 49, 46, 48, 13, 10, 72, 111, 115, 116, 58, 32] ++ repo_host ++
    [13, 10, 13, 10]

/-- CR LF CR LF. -/
def FIM_HEADER : List UInt8 := [13, 10, 13, 10]

/-- The search for the end of the header in what was received: the place behind it. -/
def header_end_pos : List UInt8 → Option Nat
  | [] => none
  | b :: p => if (b :: p).take 4 = FIM_HEADER then some 4 else (header_end_pos p).map (· + 1)

/-- The variables of the loop. -/
structure Leitura where
  out_buf : Memory
  total : UInt32
  header_done : Bool

/-- What the loop does with the bytes of one `tcp_recv`. -/
def recebe_parte (max_size : UInt32) (s : Leitura) (http_buf : List UInt8) : Leitura :=
  let n := UInt32.ofNat http_buf.length
  if ¬ s.header_done then
    match header_end_pos http_buf with
    | none => s
    | some body_start =>
      let body_in_first := n - UInt32.ofNat body_start
      if body_in_first > 0 ∧ s.total + body_in_first ≤ max_size then
        ⟨copia s.out_buf s.total.toNat (http_buf.drop body_start), s.total + body_in_first, true⟩
      else { s with header_done := true }
  else
    let to_copy := if s.total + n ≤ max_size then n else max_size - s.total
    { s with
      out_buf := copia s.out_buf s.total.toNat (http_buf.take to_copy.toNat)
      total := s.total + to_copy }

/-- The loop over what the calls of `tcp_recv` return until the connection closes. -/
def http_laco (max_size : UInt32) : List (List UInt8) → Leitura → Leitura
  | [], s => s
  | http_buf :: partes, s =>
    if s.total < max_size then http_laco max_size partes (recebe_parte max_size s http_buf) else s

/-- What `http_get` returns, and the request that it sends. -/
structure Http where
  retorno : Int
  req : List UInt8
  out_buf : Memory
  out_len : UInt32

def http_get (path repo_host : List UInt8) (out_buf : Memory) (max_size : UInt32)
    (partes : List (List UInt8)) : Http :=
  let s := http_laco max_size partes ⟨out_buf, 0, false⟩
  ⟨if s.total > 0 then 0 else -1, requisicao path repo_host, s.out_buf, s.total⟩

/-! ## pkg_remote_search

An access outside of `list_buf` is `none`. Each turn of a loop looks at a byte behind the one of the
turn before, so there are no more turns than bytes. -/

/-- `sizeof(list_buf)`. -/
def LIST_BUF : Nat := 4096

def VOLTAS_LISTA : Nat := LIST_BUF + 1

def PACKAGES_LIST : List UInt8 :=
  ['/', 'p', 'a', 'c', 'k', 'a', 'g', 'e', 's', '/', 'l', 'i', 's', 't'].map Char.toUInt8

def le_lista (list_buf : Memory) (i : Nat) : Option UInt8 :=
  if i < LIST_BUF then some (list_buf i) else none

def poe_lista (list_buf : Memory) (i : Nat) (v : UInt8) : Option Memory :=
  if i < LIST_BUF then some (putByte list_buf i v) else none

/-- The end of the line at `p`: a line feed or the end of the text. -/
def fim_da_linha (list_buf : Memory) : Nat → Nat → Option Nat
  | 0, _ => none
  | n + 1, p =>
    (le_lista list_buf p).bind fun c =>
      if c ≠ 0 ∧ c ≠ 10 then fim_da_linha list_buf n (p + 1) else some p

/-- The text at `p`, as `shell_writeln` reads it. -/
def texto_em (list_buf : Memory) : Nat → Nat → Option (List UInt8)
  | 0, _ => none
  | n + 1, p =>
    (le_lista list_buf p).bind fun c =>
      if c = 0 then some [] else (texto_em list_buf n (p + 1)).map fun l => c :: l

/-- The query stands at `ll`: its end is reached. -/
def casa (list_buf : Memory) : Nat → List UInt8 → Option Bool
  | _, [] => some true
  | ll, q :: qq =>
    (le_lista list_buf ll).bind fun c => if c = q then casa list_buf (ll + 1) qq else some false

/-- The query stands somewhere from `l` on. -/
def acha (list_buf : Memory) (query : List UInt8) : Nat → Nat → Option Bool
  | 0, _ => none
  | n + 1, l =>
    (le_lista list_buf l).bind fun c =>
      if c = 0 then some false
      else if query.head? = some c then
        (casa list_buf l query).bind fun found =>
          if found then some true else acha list_buf query n (l + 1)
      else acha list_buf query n (l + 1)

/-- The loop over the lines: those that it shows, and the buffer with its zeros. -/
def lista (query : List UInt8) : Nat → Memory → Nat → Option (List (List UInt8) × Memory)
  | 0, _, _ => none
  | n + 1, list_buf, p =>
    (le_lista list_buf p).bind fun c =>
      if c = 0 then some ([], list_buf)
      else
        (fim_da_linha list_buf VOLTAS_LISTA p).bind fun fim =>
          (le_lista list_buf fim).bind fun d =>
            (if d = 10 then poe_lista list_buf fim 0 else some list_buf).bind fun list_buf =>
              (if query = [] then some true else acha list_buf query VOLTAS_LISTA p).bind fun found =>
                (if found then (texto_em list_buf VOLTAS_LISTA p).map fun l => [l]
                else some []).bind fun linha =>
                  (lista query n list_buf (if d = 10 then fim + 1 else fim)).map fun r =>
                    (linha ++ r.1, r.2)

/-- What `rtl8139_ready`, `resolve_host` and `tcp_connect` return. -/
structure Conexao where
  rtl8139_ready : Bool
  server_ip : UInt32
  sock : Int

/-- What goes to the shell: a text of the program, or a line of the list behind two blanks. -/
inductive Escrito where
  | texto (s : String)
  | linha (l : List UInt8)

structure Pesquisa where
  retorno : Int
  escrito : List Escrito
  list_buf : Memory

/-- The query is the text without its zero; the null pointer is as good as the empty text. -/
def pkg_remote_search (c : Conexao) (repo_host : List UInt8) (list_buf : Memory) (query : List UInt8)
    (partes : List (List UInt8)) : Option Pesquisa :=
  if c.rtl8139_ready = false then
    some ⟨-1, [.texto "spk search: sem rede (inicialize com 'net init')"], list_buf⟩
  else if c.server_ip = 0 then
    some ⟨-1, [.texto "spk search: nao foi possivel resolver o repositorio"], list_buf⟩
  else if c.sock < 0 then some ⟨-1, [.texto "spk search: conexao recusada"], list_buf⟩
  else
    let r := http_get PACKAGES_LIST repo_host list_buf (UInt32.ofNat LIST_BUF) partes
    if r.retorno < 0 ∨ r.out_len = 0 then
      some ⟨-1, [.texto "spk search: repositorio nao respondeu"], r.out_buf⟩
    else
      (poe_lista r.out_buf r.out_len.toNat 0).bind fun list_buf =>
        (lista query VOLTAS_LISTA list_buf 0).map fun r =>
          ⟨0, [.texto "Pacotes disponiveis:", .texto ""] ++ r.1.map .linha, r.2⟩

end SpaceOS.Pkg
