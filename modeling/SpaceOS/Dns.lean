-- The DNS client (kernel/net/dns.c): the query for a name, and what the handler takes from the
-- answer to it.
import SpaceOS.Lib.Footprint
import SpaceOS.Net

open Lib.Bytes Lib.Footprint SpaceOS.Net

namespace SpaceOS.Dns

/-- `sizeof(dns_header_t)`. -/
def SIZEOF_HDR : Nat := 12

/-- The static variables of `dns.c`. -/
structure Consulta where
  dns_result_ip : UInt32
  dns_got_reply : UInt8
  dns_query_id : UInt16
  deriving DecidableEq

/-! ## The query -/

/-- The loop over the labels of a name, for `n` turns at most. Each turn takes a label or a dot. -/
def codifica_rotulos : Nat → List UInt8 → Option (List UInt8)
  | 0, _ => some [0]
  | n + 1, p =>
    if p = [] then some [0]
    else
      let rotulo := p.takeWhile (· ≠ 46)
      if rotulo.length > 63 then none
      else do
        let p := p.drop rotulo.length
        let resto ← codifica_rotulos n (if p.head? = some 46 then p.tail else p)
        return UInt8.ofNat rotulo.length :: rotulo ++ resto

/-- The bytes that `dns_encode_name` writes for the text `hostname`. -/
def dns_encode_name (hostname : List UInt8) : Option (List UInt8) :=
  codifica_rotulos hostname.length hostname

/-- The query of `dns_resolve`, with the number `dns_query_id`. -/
def monta_consulta (dns_query_id : UInt16) (hostname : List UInt8) : Option (List UInt8) := do
  let nome ← dns_encode_name hostname
  return bytes16 (htons dns_query_id) ++ bytes16 (htons 0x0100) ++ bytes16 (htons 1) ++
    bytes16 0 ++ bytes16 0 ++ bytes16 0 ++ nome ++ [0x00, 0x01, 0x00, 0x01]

/-! ## Names in the answer

`fim` is `end`, an offset from the start of the datagram like `p`. -/

/-- The loop over the labels of a name, for `n` turns at most. Each turn moves `p` on, so that it
ends within `fim` turns. -/
def pula_rotulos (fim : Nat) : Nat → Nat → Reader Nat
  | 0, p => return p
  | n + 1, p =>
    if p < fim then do
      let b ← Reader.byte p
      if b = 0 then return p
      else if b &&& 0xC0 = 0xC0 then return p + 2
      else pula_rotulos fim n (p + b.toNat + 1)
    else return p

/-- The end of the question: its name, type and class. -/
def pula_pergunta (fim p : Nat) : Reader Nat := do
  let p ← pula_rotulos fim fim p
  if p < fim then do
    let b ← Reader.byte p
    if b = 0 then return p + 1 + 4 else return p + 4
  else return p + 4

/-- The end of the name of a record. -/
def pula_nome (fim p : Nat) : Reader Nat := do
  let b ← Reader.byte p
  if b &&& 0xC0 = 0xC0 then return p + 2
  else do
    let p ← pula_rotulos fim fim p
    return p + 1

/-! ## Records -/

/-- The loop over the records from `p` on, of which `n` are left: the address that it takes. -/
def respostas (fim : Nat) : Nat → Nat → Reader (Option UInt32)
  | 0, _ => return none
  | n + 1, p =>
    if p < fim then do
      let p ← pula_nome fim p
      if p + 10 > fim then return none
      else do
        let rtype ← Reader.half16 p
        let rclass ← Reader.half16 (p + 2)
        let rdlen ← Reader.half16 (p + 8)
        if ntohs rtype = 1 ∧ ntohs rclass = 1 ∧ ntohs rdlen = 4 then do
          let ip ← Reader.word32 (p + 10)
          return some (ntohl ip)
        else respostas fim n (p + 10 + (ntohs rdlen).toNat)
    else return none

/-- `dns_handler` on a datagram of `len` bytes. -/
def dns_handler (s : Consulta) (len : UInt16) : Reader Consulta := do
  if len.toNat < SIZEOF_HDR then return s
  let id ← Reader.half16 0
  if ntohs id ≠ s.dns_query_id then return s
  let flags ← Reader.half16 2
  if ntohs flags &&& 0x8000 = 0 then return s
  let ancount ← Reader.half16 6
  if ntohs ancount = 0 then return s
  let p ← pula_pergunta len.toNat SIZEOF_HDR
  match ← respostas len.toNat (ntohs ancount).toNat p with
  | none => return s
  | some ip => return { s with dns_result_ip := ip, dns_got_reply := 1 }

end SpaceOS.Dns
