-- The DHCP client (kernel/net/dhcp.c): the handler of port 68 and the negotiation around it.
import SpaceOS.Net

open Lib.Bytes

namespace SpaceOS.Dhcp

open SpaceOS.Net

def DHCP_DISCOVER : UInt8 := 1

def DHCP_OFFER : UInt8 := 2

def DHCP_REQUEST : UInt8 := 3

def DHCP_ACK : UInt8 := 5

def OPT_SUBNET_MASK : UInt8 := 1

def OPT_ROUTER : UInt8 := 3

def OPT_DNS : UInt8 := 6

def OPT_MSG_TYPE : UInt8 := 53

def OPT_SERVER_ID : UInt8 := 54

def OPT_PARAM_REQ : UInt8 := 55

def OPT_END : UInt8 := 255

/-- `sizeof(dhcp_pkt_t)`, of which the last 312 bytes are the options. -/
def SIZEOF_PKT : Nat := 552

/-- Where the options start. -/
def OPTIONS : Nat := 240

def xid : UInt32 := 0xDEADBEEF

def MAGIC : UInt32 := 0x63825363

/-- The static variables of the file. -/
structure Negociacao where
  dhcp_got_offer : Bool
  dhcp_got_ack : Bool
  offered_ip : UInt32
  server_id : UInt32
  offered_gw : UInt32
  offered_mask : UInt32
  offered_dns : UInt32

/-- The addresses of ipv4.c. -/
structure Enderecos where
  net_our_ip : UInt32
  net_gateway_ip : UInt32
  net_netmask : UInt32
  net_dns_ip : UInt32

/-- A datagram for port 68: the memory from its payload on, the length of the payload, and the server
that sent it, which the client does not see. -/
structure Mensagem where
  data : Memory
  len : UInt16
  servidor : UInt32

/-! ## The packets that go out -/

/-- The address of the card. -/
abbrev Mac := Fin 6 → UInt8

/-- The bytes of a packet up to its options, as both `build_discover` and `build_request` set them. -/
def cabecalho (mac : Mac) : List UInt8 :=
  [1, 1, 6, 0] ++ bytes32 (htonl xid) ++ bytes16 0 ++ bytes16 (htons 0x8000) ++
    List.replicate 16 0 ++ List.ofFn mac ++ List.replicate 10 0 ++ List.replicate 192 0 ++
    bytes32 (htonl MAGIC)

/-- A packet with its options and the zeros after them. -/
def pacote (mac : Mac) (options : List UInt8) : List UInt8 :=
  cabecalho mac ++ options ++ List.replicate (312 - options.length) 0

/-- An address as `build_request` writes it, the high byte first. -/
def octetos (ip : UInt32) : List UInt8 :=
  [(ip >>> 24).toUInt8, (ip >>> 16).toUInt8, (ip >>> 8).toUInt8, ip.toUInt8]

def build_discover (mac : Mac) : List UInt8 :=
  pacote mac [OPT_MSG_TYPE, 1, DHCP_DISCOVER, OPT_PARAM_REQ, 3, OPT_SUBNET_MASK, OPT_ROUTER, OPT_DNS,
    OPT_END]

def build_request (mac : Mac) (s : Negociacao) : List UInt8 :=
  pacote mac ([OPT_MSG_TYPE, 1, DHCP_REQUEST, 50, 4] ++ octetos s.offered_ip ++
    [OPT_SERVER_ID, 4] ++ octetos s.server_id ++ [OPT_END])

/-! ## The handler -/

/-- `ntohl(*(uint32_t *)p)`. -/
def endereco_em (data : Memory) (p : Nat) : UInt32 := ntohl (UInt32.ofNat (word data p))

/-- What an option with its value at address `opt` does to the variables and to `msg_type`. -/
def opcao (data : Memory) (code : UInt8) (opt : Nat) (r : Negociacao × UInt8) :
    Negociacao × UInt8 :=
  if code = OPT_MSG_TYPE then (r.1, data opt)
  else if code = OPT_SUBNET_MASK then ({ r.1 with offered_mask := endereco_em data opt }, r.2)
  else if code = OPT_ROUTER then ({ r.1 with offered_gw := endereco_em data opt }, r.2)
  else if code = OPT_DNS then ({ r.1 with offered_dns := endereco_em data opt }, r.2)
  else if code = OPT_SERVER_ID then ({ r.1 with server_id := endereco_em data opt }, r.2)
  else r

/-- The loop over the options, from address `opt` on. Each turn takes a byte at least, so that it ends
within 313 turns. -/
def opcoes_laco (data : Memory) : Nat → Nat → Negociacao × UInt8 → Negociacao × UInt8
  | 0, _, r => r
  | n + 1, opt, r =>
    if opt < SIZEOF_PKT ∧ data opt ≠ OPT_END then
      let code := data opt
      let opt := opt + 1
      if code = 0 then opcoes_laco data n opt r
      else
        let olen := (data opt).toNat
        let opt := opt + 1
        opcoes_laco data n (opt + olen) (opcao data code opt r)
    else r

/-- The message is long enough, and has our transaction and the magic cookie. -/
def nossa (m : Mensagem) : Prop :=
  SIZEOF_PKT ≤ m.len.toNat ∧ endereco_em m.data 4 = xid ∧ endereco_em m.data 236 = MAGIC

instance (m : Mensagem) : Decidable (nossa m) := inferInstanceAs (Decidable (_ ∧ _ ∧ _))

def dhcp_handler (s : Negociacao) (m : Mensagem) : Negociacao :=
  if ¬ nossa m then s
  else
    let (s, msg_type) := opcoes_laco m.data 313 OPTIONS (s, 0)
    if msg_type = DHCP_OFFER ∧ ¬ s.dhcp_got_offer then
      { s with offered_ip := endereco_em m.data 16, dhcp_got_offer := true }
    else if msg_type = DHCP_ACK ∧ s.dhcp_got_offer then { s with dhcp_got_ack := true }
    else s

/-! ## dhcp_init

A wait goes through the polls that it makes until its time is over, each with the messages that it
brings to the handler. -/

/-- `while (!pronto && ...) eth_poll()`. -/
def espera (pronto : Negociacao → Bool) : List (List Mensagem) → Negociacao → Negociacao
  | [], s => s
  | p :: polls, s => if pronto s then s else espera pronto polls (p.foldl dhcp_handler s)

/-- What `dhcp_init` returns, the packets that it sends, and the variables after it. -/
structure Resultado where
  retorno : Int
  enviados : List (List UInt8)
  s : Negociacao
  enderecos : Enderecos

/-- `polls` are those of the wait for the OFFER, `polls'` those of the wait for the ACK. -/
def dhcp_init (mac : Mac) (s : Negociacao) (e : Enderecos)
    (polls polls' : List (List Mensagem)) : Resultado :=
  let s := { s with
    dhcp_got_offer := false, dhcp_got_ack := false, offered_ip := 0, server_id := 0 }
  let s := espera Negociacao.dhcp_got_offer polls s
  if ¬ s.dhcp_got_offer then ⟨-1, [build_discover mac], s, e⟩
  else
    let enviados := [build_discover mac, build_request mac s]
    let s := espera Negociacao.dhcp_got_ack polls' s
    if ¬ s.dhcp_got_ack then ⟨-1, enviados, s, e⟩
    else ⟨0, enviados, s, ⟨s.offered_ip, s.offered_gw, s.offered_mask, s.offered_dns⟩⟩

end SpaceOS.Dhcp
