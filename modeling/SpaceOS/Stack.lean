-- The receive path of the network stack: udp.c, the receiving halves of ipv4.c and ethernet.c,
-- and `eth_poll`, which the send path runs while it waits.
import SpaceOS.Tcp

open Lib.Bytes Lib.Footprint

namespace SpaceOS.Net

def UDP_HDR_LEN : Nat := 8

/-- What `udp_recv` reads from a frame. `payload` stands for the pointer and the length that it
takes from the header, in 16 bits. -/
structure Pacote where
  src_port : UInt16
  dst_port : UInt16
  payload : List UInt8
  deriving DecidableEq

/-- The length of the payload, as the header says. -/
def udp_payload_len (length : UInt16) : UInt16 := ntohs length - 8

/-- The datagram in a buffer, `none` where it is shorter than a header. -/
def pacote_udp (len offset : UInt16) : Reader (Option Pacote) := do
  let data := offset.toNat
  let avail := len - offset
  if avail.toNat < UDP_HDR_LEN then return none
  let dst_port ← Reader.half16 (data + 2)
  let src_port ← Reader.half16 data
  let length ← Reader.half16 (data + 4)
  let payload ← Reader.bytes (data + UDP_HDR_LEN) (udp_payload_len length).toNat
  return some ⟨ntohs src_port, ntohs dst_port, payload⟩

/-- The handler of a port. -/
def handler_de (t : Rede) (port : UInt16) : Option Nat :=
  ((List.finRange UDP_MAX_HANDLERS).find? fun i =>
    (t.bindings i).handler ≠ 0 ∧ (t.bindings i).port = port).map fun i => (t.bindings i).handler

/-- `udp_recv` once the datagram is read. The handler is told 0 as the source address. -/
def trata_pacote (t : Rede) (p : Pacote) : Rede :=
  match handler_de t p.dst_port with
  | none => t
  | some handler => { t with datagramas := ⟨handler, 0, p.src_port, p.payload⟩ :: t.datagramas }

def udp_recv (t : Rede) (len offset : UInt16) : Reader Rede := do
  match ← pacote_udp len offset with
  | none => return t
  | some p => return trata_pacote t p

section Recepcao

variable (ip_send : IpSend)

/-- What `ip_recv` accepts: version 4 without options, a right checksum, and our address. -/
def aceita_ip (net_our_ip : UInt32) (hdr : List UInt8) (dst_ip : UInt32) : Prop :=
  (hdr.headD 0) >>> 4 = 4 ∧ (hdr.headD 0) &&& 0xF = 5 ∧ ip_checksum hdr = 0 ∧
    ¬ (net_our_ip ≠ 0 ∧ dst_ip ≠ net_our_ip ∧ dst_ip ≠ 0xFFFFFFFF)

instance (net_our_ip : UInt32) (hdr : List UInt8) (dst_ip : UInt32) :
    Decidable (aceita_ip net_our_ip hdr dst_ip) := inferInstanceAs (Decidable (_ ∧ _ ∧ _ ∧ _))

def ip_recv (t : Rede) (len offset : UInt16) : Reader Rede := do
  let data := offset.toNat
  let avail := len - offset
  if avail.toNat < IP_HDR_LEN then return t
  let hdr ← Reader.bytes data IP_HDR_LEN
  let dst_ip ← Reader.word32 (data + 16)
  let protocol ← Reader.byte (data + 9)
  if ¬ aceita_ip t.net_our_ip hdr (ntohl dst_ip) then return t
  let offset := offset + 20
  if protocol = IP_PROTO_UDP then udp_recv t len offset
  else if protocol = IP_PROTO_TCP then tcp_recv_dispatch ip_send t len offset
  else return t

def eth_recv (t : Rede) (len offset : UInt16) : Reader Rede := do
  if len.toNat < ETH_HDR_LEN then return t
  let ethertype ← Reader.half16 (offset.toNat + 12)
  let offset := offset + 14
  if ntohs ethertype = ETH_PROTO_ARP then arp_recv t len offset
  else if ntohs ethertype = ETH_PROTO_IP then ip_recv ip_send t len offset
  else return t

/-- A frame handed to `eth_recv`. -/
def recebe (t : Rede) (buf : Netbuf) : Rede :=
  (eth_recv ip_send t buf.len buf.offset).val buf.data

end Recepcao

/-- `eth_poll`, with calls that nest up to `n` deep. Each one takes the next poll of the schedule,
so that no more than `polls.length` can nest. -/
def eth_poll : Nat → Rede → Rede
  | 0, t => t
  | n + 1, t =>
    match t.polls with
    | [] => t
    | p :: polls =>
      p.quadros.foldl (recebe (ip_send (eth_poll n))) { t with polls := polls, ticks := p.ticks }

end SpaceOS.Net
