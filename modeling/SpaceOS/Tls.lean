-- SpaceTLS (kernel/net/tls.c): the keys and the nonces that a connection derives from its
-- pre-shared key, and the calls of the cipher that its records make.
import Mathlib.Data.List.Basic

namespace SpaceOS.Tls

/-! ## SHA-256 -/

def ROR32 (x n : UInt32) : UInt32 := (x >>> n) ||| (x <<< (32 - n))

def CH (e f g : UInt32) : UInt32 := (e &&& f) ^^^ (~~~e &&& g)

def MAJ (a b c : UInt32) : UInt32 := (a &&& b) ^^^ (a &&& c) ^^^ (b &&& c)

def EP0 (x : UInt32) : UInt32 := ROR32 x 2 ^^^ ROR32 x 13 ^^^ ROR32 x 22

def EP1 (x : UInt32) : UInt32 := ROR32 x 6 ^^^ ROR32 x 11 ^^^ ROR32 x 25

def SIG0 (x : UInt32) : UInt32 := ROR32 x 7 ^^^ ROR32 x 18 ^^^ (x >>> 3)

def SIG1 (x : UInt32) : UInt32 := ROR32 x 17 ^^^ ROR32 x 19 ^^^ (x >>> 10)

def sha256_k : List UInt32 := [
  0x428a2f98, 0x71374491, 0xb5c0fbcf, 0xe9b5dba5, 0x3956c25b, 0x59f111f1, 0x923f82a4, 0xab1c5ed5,
  0xd807aa98, 0x12835b01, 0x243185be, 0x550c7dc3, 0x72be5d74, 0x80deb1fe, 0x9bdc06a7, 0xc19bf174,
  0xe49b69c1, 0xefbe4786, 0x0fc19dc6, 0x240ca1cc, 0x2de92c6f, 0x4a7484aa, 0x5cb0a9dc, 0x76f988da,
  0x983e5152, 0xa831c66d, 0xb00327c8, 0xbf597fc7, 0xc6e00bf3, 0xd5a79147, 0x06ca6351, 0x14292967,
  0x27b70a85, 0x2e1b2138, 0x4d2c6dfc, 0x53380d13, 0x650a7354, 0x766a0abb, 0x81c2c92e, 0x92722c85,
  0xa2bfe8a1, 0xa81a664b, 0xc24b8b70, 0xc76c51a3, 0xd192e819, 0xd6990624, 0xf40e3585, 0x106aa070,
  0x19a4c116, 0x1e376c08, 0x2748774c, 0x34b0bcb5, 0x391c0cb3, 0x4ed8aa4a, 0x5b9cca4f, 0x682e6ff3,
  0x748f82ee, 0x78a5636f, 0x84c87814, 0x8cc70208, 0x90befffa, 0xa4506ceb, 0xbef9a3f7, 0xc67178f2]

/-- The eight words of the state. -/
structure Sha where
  a : UInt32
  b : UInt32
  c : UInt32
  d : UInt32
  e : UInt32
  f : UInt32
  g : UInt32
  h : UInt32

def be32 (x : UInt32) : List UInt8 :=
  [(x >>> 24).toUInt8, (x >>> 16).toUInt8, (x >>> 8).toUInt8, x.toUInt8]

/-- The big-endian word at place `i`. -/
def palavra (block : List UInt8) (i : Nat) : UInt32 :=
  ((block.getD i 0).toUInt32 <<< 24) ||| ((block.getD (i + 1) 0).toUInt32 <<< 16) |||
    ((block.getD (i + 2) 0).toUInt32 <<< 8) ||| (block.getD (i + 3) 0).toUInt32

/-- `w[0..63]`. -/
def agenda (block : List UInt8) : Array UInt32 :=
  (List.range 48).foldl
    (fun w i => w.push
      (SIG1 (w.getD (i + 14) 0) + w.getD (i + 9) 0 + SIG0 (w.getD (i + 1) 0) + w.getD i 0))
    ((List.range 16).map fun i => palavra block (4 * i)).toArray

def rodada (w : Array UInt32) (s : Sha) (i : Nat) : Sha :=
  let t1 := s.h + EP1 s.e + CH s.e s.f s.g + sha256_k.getD i 0 + w.getD i 0
  let t2 := EP0 s.a + MAJ s.a s.b s.c
  { h := s.g, g := s.f, f := s.e, e := s.d + t1, d := s.c, c := s.b, b := s.a, a := t1 + t2 }

def sha256_transform (s : Sha) (block : List UInt8) : Sha :=
  let t := (List.range 64).foldl (rodada (agenda block)) s
  { a := s.a + t.a, b := s.b + t.b, c := s.c + t.c, d := s.d + t.d
    e := s.e + t.e, f := s.f + t.f, g := s.g + t.g, h := s.h + t.h }

/-- `sha256_ctx_t`; of `buf`, the first `count & 63` bytes. -/
structure Ctx where
  state : Sha
  count : UInt64
  buf : List UInt8

def sha256_init : Ctx where
  state :=
    { a := 0x6a09e667, b := 0xbb67ae85, c := 0x3c6ef372, d := 0xa54ff53a
      e := 0x510e527f, f := 0x9b05688c, g := 0x1f83d9ab, h := 0x5be0cd19 }
  count := 0
  buf := []

def update_byte (ctx : Ctx) (b : UInt8) : Ctx :=
  let buf := ctx.buf ++ [b]
  if buf.length = 64 then
    { state := sha256_transform ctx.state buf, count := ctx.count + 1, buf := [] }
  else { ctx with count := ctx.count + 1, buf := buf }

def sha256_update (ctx : Ctx) (data : List UInt8) : Ctx := data.foldl update_byte ctx

/-- The bytes with zeros behind them, `n` in all. -/
def completa (buf : List UInt8) (n : Nat) : List UInt8 := buf ++ List.replicate (n - buf.length) 0

def sha256_final (ctx : Ctx) : List UInt8 :=
  let buf := ctx.buf ++ [0x80]
  let (s, buf) :=
    if buf.length > 56 then (sha256_transform ctx.state (completa buf 64), [])
    else (ctx.state, buf)
  let bits := ctx.count * 8
  let s := sha256_transform s
    (completa buf 56 ++ be32 (bits >>> 32).toUInt32 ++ be32 bits.toUInt32)
  be32 s.a ++ be32 s.b ++ be32 s.c ++ be32 s.d ++ be32 s.e ++ be32 s.f ++ be32 s.g ++ be32 s.h

def sha256 (data : List UInt8) : List UInt8 := sha256_final (sha256_update sha256_init data)

def hmac_sha256 (key msg : List UInt8) : List UInt8 :=
  let k0 := completa (if key.length > 64 then sha256 key else key) 64
  let inner := sha256 (k0.map (· ^^^ 0x36) ++ msg)
  sha256 (k0.map (· ^^^ 0x5C) ++ inner)

/-! ## Slots -/

def STLS_MAX_SOCKS : Nat := 4

/-- `STLS_MAGIC`, as it lies in a record. -/
def STLS_MAGIC : List UInt8 := [0x00, 0x53, 0x4C, 0x53]

def STLS_VER : UInt8 := 1

structure Sock where
  tcp_sock : Int
  send_key : List UInt8
  recv_key : List UInt8
  send_nonce : List UInt8
  recv_nonce : List UInt8
  send_seq : UInt32
  recv_seq : UInt32
  ready : Bool

/-- A call of `tls_connect`: its number, and the pre-shared key it was given. -/
structure Conexao where
  numero : Nat
  psk : List UInt8

/-- A call of `chacha20poly1305_encrypt`, and the connection that made it. -/
structure Chamada where
  conexao : Conexao
  key : List UInt8
  nonce : List UInt8
  aad : List UInt8
  plain : List UInt8

/-- The slots. `dono` (the connection in a slot), `conexoes` (how many there were) and `cifrados`
(the calls of the cipher, oldest first) are for the statements only. -/
structure Slots where
  socks : Nat → Sock
  dono : Nat → Option Conexao
  conexoes : Nat
  cifrados : List Chamada

/-- Static memory. -/
def inicio : Slots where
  socks := fun _ =>
    { tcp_sock := 0, send_key := List.replicate 32 0, recv_key := List.replicate 32 0
      send_nonce := List.replicate 12 0, recv_nonce := List.replicate 12 0
      send_seq := 0, recv_seq := 0, ready := false }
  dono := fun _ => none
  conexoes := 0
  cifrados := []

/-- The exclusive or of the sequence number and the last four bytes of the nonce. -/
def nonce_inc (nonce : List UInt8) (seq : UInt32) : List UInt8 :=
  nonce.take 8 ++ List.zipWith (· ^^^ ·) (nonce.drop 8)
    [seq.toUInt8, (seq >>> 8).toUInt8, (seq >>> 16).toUInt8, (seq >>> 24).toUInt8]

/-- `spacetls_send_key`. -/
def lbl_send : List UInt8 :=
  [115, 112, 97, 99, 101, 116, 108, 115, 95, 115, 101, 110, 100, 95, 107, 101, 121]

/-- `spacetls_recv_key`. -/
def lbl_recv : List UInt8 :=
  [115, 112, 97, 99, 101, 116, 108, 115, 95, 114, 101, 99, 118, 95, 107, 101, 121]

/-- `spacetls_nonce`. -/
def lbl_nonce : List UInt8 := [115, 112, 97, 99, 101, 116, 108, 115, 95, 110, 111, 110, 99, 101]

def chave_de_envio (psk : List UInt8) : List UInt8 := hmac_sha256 psk lbl_send

def nonce_de_envio (psk : List UInt8) : List UInt8 := (hmac_sha256 psk lbl_nonce).take 12

/-- What `tls_connect` writes to its slot before the handshake. -/
def sock_novo (tcp_sock : Int) (psk : List UInt8) : Sock where
  tcp_sock := tcp_sock
  send_key := chave_de_envio psk
  recv_key := hmac_sha256 psk lbl_recv
  send_nonce := nonce_de_envio psk
  recv_nonce := ((hmac_sha256 psk lbl_nonce).drop 12).take 12
  send_seq := 0
  recv_seq := 0
  ready := false

def livre (t : Slots) : Option Nat := (List.range STLS_MAX_SOCKS).find? fun i => !(t.socks i).ready

def com_sock (t : Slots) (i : Nat) (s : Sock) : Slots :=
  { t with socks := fun j => if j = i then s else t.socks j }

/-- The answer to the handshake is one of ours. -/
def resposta_ok (resp : List UInt8) : Bool :=
  resp.length ≥ 8 && resp.take 4 == STLS_MAGIC && resp.getD 4 0 == STLS_VER

/-- `resp`: what `tcp_recv` gives within the two seconds, eight bytes at most. -/
def tls_connect (t : Slots) (tcp_sock : Int) (psk resp : List UInt8) : Int × Slots :=
  match livre t with
  | none => (-1, t)
  | some slot =>
    let s := sock_novo tcp_sock psk
    let t :=
      { t with
        dono := fun j => if j = slot then some ⟨t.conexoes, psk⟩ else t.dono j
        conexoes := t.conexoes + 1 }
    if resposta_ok resp then (slot, com_sock t slot { s with ready := true })
    else (-1, com_sock t slot s)

/-- The header of a data record. -/
def cabecalho (len : Nat) : List UInt8 :=
  STLS_MAGIC ++ [STLS_VER, 2, UInt8.ofNat (len + 16), UInt8.ofNat ((len + 16) / 256)]

/-- `r`: what `tcp_send` returns for the record. -/
def tls_send (t : Slots) (sock : Int) (data : List UInt8) (r : Int) : Int × Slots :=
  if sock < 0 ∨ sock ≥ STLS_MAX_SOCKS ∨ (t.socks sock.toNat).ready = false then (-1, t)
  else
    let s := t.socks sock.toNat
    let nonce := nonce_inc s.send_nonce s.send_seq
    let conexao := (t.dono sock.toNat).getD ⟨0, []⟩
    (r, { com_sock t sock.toNat { s with send_seq := s.send_seq + 1 } with
          cifrados := t.cifrados ++ [⟨conexao, s.send_key, nonce, cabecalho data.length, data⟩] })

def tls_close (t : Slots) (sock : Int) : Slots :=
  if sock < 0 ∨ sock ≥ STLS_MAX_SOCKS then t
  else com_sock t sock.toNat { t.socks sock.toNat with ready := false }

/-! ## Runs -/

inductive Evento where
  | connect (tcp_sock : Int) (psk resp : List UInt8)
  | send (sock : Int) (data : List UInt8) (r : Int)
  | close (sock : Int)

def passo (t : Slots) : Evento → Slots
  | .connect tcp_sock psk resp => (tls_connect t tcp_sock psk resp).2
  | .send sock data r => (tls_send t sock data r).2
  | .close sock => tls_close t sock

def rodar (t : Slots) (es : List Evento) : Slots := es.foldl passo t

/-- No two calls of the cipher have the same key and nonce for different records. -/
def NonceUnico (t : Slots) : Prop :=
  t.cifrados.Pairwise fun a b =>
    (a.aad, a.plain) ≠ (b.aad, b.plain) → (a.key, a.nonce) ≠ (b.key, b.nonce)

end SpaceOS.Tls
