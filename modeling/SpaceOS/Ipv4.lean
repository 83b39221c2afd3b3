-- The send path of the network stack: ethernet.c, arp.c and the sending half of ipv4.c. A call
-- that waits for an ARP reply polls the card, and the poll runs the receive path, which is a
-- parameter here.
import SpaceOS.Net

open Lib.Bytes Lib.Footprint

namespace SpaceOS.Net

def ETH_PROTO_ARP : UInt16 := 0x0806

def ETH_PROTO_IP : UInt16 := 0x0800

def ETH_HDR_LEN : Nat := 14

def ETH_BROADCAST : List UInt8 := List.replicate 6 0xFF

def IP_HDR_LEN : Nat := 20

def IP_PROTO_TCP : UInt8 := 6

def IP_PROTO_UDP : UInt8 := 17

/-! ## Ethernet -/

/-- The frame that `eth_send` builds in `eth_frame`. -/
def quadro (dst_mac src_mac : List UInt8) (proto : UInt16) (payload : List UInt8) : List UInt8 :=
  dst_mac ++ src_mac ++ bytes16 (htons proto) ++ payload

/-- `false`: -1. -/
def eth_send (t : Rede) (dst_mac : List UInt8) (proto : UInt16) (payload : List UInt8) :
    Bool × Rede :=
  if payload.length > 1500 then (false, t)
  else (t.tok t.enviados.length,
    { t with enviados := quadro dst_mac t.mac_addr proto payload :: t.enviados })

/-! ## ARP -/

/-- `arp_packet_t`. -/
def arp_packet (op : UInt16) (sha : List UInt8) (spa : UInt32) (tha : List UInt8) (tpa : UInt32) :
    List UInt8 :=
  bytes16 (htons 1) ++ bytes16 (htons 0x0800) ++ [6, 4] ++ bytes16 (htons op) ++ sha ++
    bytes32 spa ++ tha ++ bytes32 tpa

def arp_cache_add (arp_cache : Fin ARP_CACHE_SIZE → Entrada) (ip : UInt32) (mac : List UInt8) :
    Fin ARP_CACHE_SIZE → Entrada :=
  match (List.finRange ARP_CACHE_SIZE).find? fun i =>
    !(arp_cache i).valid || (arp_cache i).ip == ip with
  | some i => Function.update arp_cache i ⟨ip, mac, true⟩
  | none => Function.update arp_cache ⟨0, by decide⟩ ⟨ip, mac, true⟩

def arp_cache_lookup (arp_cache : Fin ARP_CACHE_SIZE → Entrada) (ip : UInt32) :
    Option (List UInt8) :=
  ((List.finRange ARP_CACHE_SIZE).find? fun i =>
    (arp_cache i).valid && (arp_cache i).ip == ip).map fun i => (arp_cache i).mac

def arp_send_request (t : Rede) (target_ip : UInt32) : Rede :=
  (eth_send t ETH_BROADCAST ETH_PROTO_ARP
    (arp_packet 1 t.mac_addr (htonl t.net_our_ip) (List.replicate 6 0) (htonl target_ip))).2

/-- What `arp_recv` reads from a frame. The target is read only for a request. -/
structure Arp where
  spa : UInt32
  sha : List UInt8
  op : UInt16
  tpa : UInt32
  deriving DecidableEq

/-- The packet in a buffer, `none` where `len` is below `sizeof(arp_packet_t)`. -/
def pacote_arp (len offset : UInt16) : Reader (Option Arp) := do
  if len.toNat < 28 then return none
  let pkt := offset.toNat
  let spa ← Reader.word32 (pkt + 14)
  let sha ← Reader.bytes (pkt + 8) 6
  let op ← Reader.half16 (pkt + 6)
  let tpa ← if ntohs op = 1 then Reader.word32 (pkt + 24) else pure 0
  return some ⟨spa, sha, op, tpa⟩

/-- `arp_recv` once the packet is read. -/
def trata_arp (t : Rede) (pkt : Arp) : Rede :=
  let t := if ntohl pkt.spa ≠ 0 then
      { t with arp_cache := arp_cache_add t.arp_cache (ntohl pkt.spa) pkt.sha }
    else t
  if ntohs pkt.op = 1 ∧ ntohl pkt.tpa = t.net_our_ip then
    (eth_send t pkt.sha ETH_PROTO_ARP
      (arp_packet 2 t.mac_addr (htonl t.net_our_ip) pkt.sha pkt.spa)).2
  else t

def arp_recv (t : Rede) (len offset : UInt16) : Reader Rede := do
  match ← pacote_arp len offset with
  | none => return t
  | some pkt => return trata_arp t pkt

/-- The loop of `arp_resolve`. It ends with the schedule of polls at the latest. -/
def arp_espera (eth_poll : Rede → Rede) (ip : UInt32) (start ticks_max : UInt32) :
    Nat → Rede → Option (List UInt8) × Rede
  | 0, t => (none, t)
  | n + 1, t =>
    if t.ticks - start < ticks_max then
      let t := eth_poll t
      match arp_cache_lookup t.arp_cache ip with
      | some mac => (some mac, t)
      | none => arp_espera eth_poll ip start ticks_max n t
    else (none, t)

/-- `none`: -1. -/
def arp_resolve (eth_poll : Rede → Rede) (t : Rede) (ip timeout_ms : UInt32) :
    Option (List UInt8) × Rede :=
  match arp_cache_lookup t.arp_cache ip with
  | some mac => (some mac, t)
  | none =>
    let t := arp_send_request t ip
    arp_espera eth_poll ip t.ticks (timeout_ms / 10) t.polls.length t

/-! ## IP -/

/-- The header of `ip_send`, with a given checksum. -/
def ip_header (t : Rede) (dst_ip : UInt32) (proto : UInt8) (payload_len : Nat)
    (checksum : UInt16) : List UInt8 :=
  [0x45, 0] ++ bytes16 (htons (UInt16.ofNat (IP_HDR_LEN + payload_len))) ++
    bytes16 (htons t.ip_id_counter) ++ bytes16 0 ++ [64, proto] ++ bytes16 checksum ++
    bytes32 (htonl t.net_our_ip) ++ bytes32 (htonl dst_ip)

/-- The packet that `ip_send` means to send. -/
def pacote (t : Rede) (dst_ip : UInt32) (proto : UInt8) (payload : List UInt8) : List UInt8 :=
  ip_header t dst_ip proto payload.length
    (ip_checksum (ip_header t dst_ip proto payload.length 0)) ++ payload

/-- `ip_send` up to the address resolution: the packet is put into `ip_packet`. -/
def ip_monta (t : Rede) (dst_ip : UInt32) (proto : UInt8) (payload : List UInt8) : Rede :=
  { t with
    ip_packet := copia t.ip_packet 0 (pacote t dst_ip proto payload)
    ip_id_counter := t.ip_id_counter + 1 }

/-- The address that `ip_send` resolves: of the host itself on our network, else of the
gateway. -/
def nexthop (t : Rede) (dst_ip : UInt32) : UInt32 :=
  if t.net_netmask ≠ 0 ∧ dst_ip &&& t.net_netmask = t.net_our_ip &&& t.net_netmask then dst_ip
  else if t.net_gateway_ip ≠ 0 then t.net_gateway_ip else dst_ip

/-- The MAC address that `ip_send` sends to. -/
def ip_destino (eth_poll : Rede → Rede) (t : Rede) (dst_ip : UInt32) :
    Option (List UInt8) × Rede :=
  if dst_ip = 0xFFFFFFFF ∨ dst_ip = 0 then (some ETH_BROADCAST, t)
  else arp_resolve eth_poll t (nexthop t dst_ip) 3000

/-- `false`: -1. -/
def ip_send (eth_poll : Rede → Rede) (t : Rede) (dst_ip : UInt32) (proto : UInt8)
    (payload : List UInt8) : Bool × Rede :=
  if payload.length + IP_HDR_LEN > 1480 then (false, t)
  else
    match ip_destino eth_poll (ip_monta t dst_ip proto payload) dst_ip with
    | (none, t) => (false, t)
    | (some dst_mac, t) =>
      eth_send t dst_mac ETH_PROTO_IP (trecho t.ip_packet (IP_HDR_LEN + payload.length))

/-- `ip_send` as the layers above see it. -/
abbrev IpSend := Rede → UInt32 → UInt8 → List UInt8 → Bool × Rede

end SpaceOS.Net
