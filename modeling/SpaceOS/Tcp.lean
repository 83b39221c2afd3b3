-- The TCP sockets (kernel/net/tcp.c). Each send goes through `ip_send`, which may poll the card
-- and so hand more segments to the sockets before it returns.
import SpaceOS.Ipv4

open Lib.Bytes Lib.Footprint Lib.RingQueue

namespace SpaceOS.Net

def TCP_HDR_LEN : Nat := 20

def TCP_FIN : UInt8 := 0x01

def TCP_SYN : UInt8 := 0x02

def TCP_RST : UInt8 := 0x04

def TCP_PSH : UInt8 := 0x08

def TCP_ACK : UInt8 := 0x10

/-! ## Sending -/

def tcp_checksum (src_ip dst_ip : UInt32) (seg : List UInt8) (seg_len : UInt16) : UInt16 :=
  let sum := (src_ip >>> 16) + (src_ip &&& (0xFFFF : UInt32)) + (dst_ip >>> 16) +
    (dst_ip &&& (0xFFFF : UInt32)) + IP_PROTO_TCP.toUInt32 + seg_len.toUInt32
  ~~~ (dobra (soma sum seg)).toUInt16

/-- `tcp_header_t` as `tcp_send_segment` fills it, with a given checksum. -/
def tcp_header (s : Socket) (flags : UInt8) (checksum : UInt16) : List UInt8 :=
  bytes16 (htons s.local_port) ++ bytes16 (htons s.remote_port) ++ bytes32 (htonl s.seq_num) ++
    bytes32 (if flags &&& TCP_ACK ≠ 0 then htonl s.ack_num else 0) ++ [(5 : UInt8) <<< 4, flags] ++
    bytes16 (htons 2048) ++ bytes16 checksum ++ bytes16 0

section Envio

variable (ip_send : IpSend) (t : Rede) (sock : Indice)

def tcp_send_segment (flags : UInt8) (data : List UInt8) : Bool × Rede :=
  let s := t.sockets sock
  let out := copia (copia t.tcp_out 0 (tcp_header s flags 0)) TCP_HDR_LEN data
  let seg_len := UInt16.ofNat (TCP_HDR_LEN + data.length)
  let checksum := tcp_checksum t.net_our_ip s.remote_ip (trecho out seg_len.toNat) seg_len
  let out := copia out 16 (bytes16 checksum)
  ip_send { t with tcp_out := out } s.remote_ip IP_PROTO_TCP (trecho out seg_len.toNat)

/-- `tcp_send` on socket `sock`. -/
def tcp_send (data : List UInt8) : Int × Rede :=
  if (t.sockets sock).state ≠ .established then (-1, t)
  else
    match tcp_send_segment ip_send t sock (TCP_ACK ||| TCP_PSH) data with
    | (true, t) => (data.length,
        t.muda sock fun s => { s with seq_num := s.seq_num + UInt32.ofNat data.length })
    | (false, t) => (-1, t)

end Envio

/-! ## Receiving -/

/-- What `tcp_recv_dispatch` reads from a frame. `payload` stands for the pointer and the length
`avail - hdr_len`, in 16 bits. -/
structure Segmento where
  src_port : UInt16
  dst_port : UInt16
  flags : UInt8
  seq : UInt32
  ack : UInt32
  payload : List UInt8
  src_ip : UInt32

/-- The length of the header, as its offset field says. -/
def hdr_len (data_offset : UInt8) : UInt8 := (data_offset >>> 4) * 4

/-- The segment in a buffer, `none` where it is shorter than a header. -/
def segmento (len offset : UInt16) : Reader (Option Segmento) := do
  let data := offset.toNat
  let avail := len - offset
  if avail.toNat < TCP_HDR_LEN then return none
  let dst_port ← Reader.half16 (data + 2)
  let src_port ← Reader.half16 data
  let flags ← Reader.byte (data + 13)
  let seq ← Reader.word32 (data + 4)
  let ack ← Reader.word32 (data + 8)
  let data_offset ← Reader.byte (data + 12)
  let payload_len := avail - (hdr_len data_offset).toUInt16
  let payload ← Reader.bytes (data + (hdr_len data_offset).toNat) payload_len.toNat
  let src_ip ← if data ≥ 20 then Reader.word32 (data - 8) else pure 0
  return some ⟨ntohs src_port, ntohs dst_port, flags, ntohl seq, ntohl ack, payload, ntohl src_ip⟩

/-- The first open socket with the two ports. -/
def correspondente (t : Rede) (g : Segmento) : Option Indice :=
  (List.finRange TCP_MAX_SOCKETS).find? fun i =>
    (t.sockets i).state ≠ .closed ∧ (t.sockets i).local_port = g.dst_port ∧
      (t.sockets i).remote_port = g.src_port

section Recepcao

variable (ip_send : IpSend) (t : Rede) (sock : Indice) (g : Segmento)

/-- The ACK that answers a segment. -/
def responde_ack : Rede := (tcp_send_segment ip_send t sock TCP_ACK []).2

/-- `case TCP_SYN_SENT`. -/
def em_syn_sent : Rede :=
  if g.flags &&& (TCP_SYN ||| TCP_ACK) = TCP_SYN ||| TCP_ACK then
    responde_ack ip_send
      (t.muda sock fun s => { s with ack_num := g.seq + 1, state := .established }) sock
  else t

/-- `case TCP_ESTABLISHED`, what a FIN does. -/
def recebe_fin : Rede :=
  if g.flags &&& TCP_FIN ≠ 0 then
    responde_ack ip_send
      (t.muda sock fun s => { s with ack_num := s.ack_num + 1, state := .close_wait }) sock
  else t

/-- `case TCP_ESTABLISHED`, what a payload does: it goes into the receive ring. -/
def recebe_payload : Rede :=
  if g.payload = [] then t
  else
    responde_ack ip_send (t.muda sock fun s =>
      { s with
        ack_num := s.ack_num + UInt32.ofNat g.payload.length
        rx := s.rx.pushAll g.payload }) sock

/-- `case TCP_ESTABLISHED`. -/
def em_established : Rede :=
  if g.flags &&& TCP_RST ≠ 0 then t.muda sock fun s => { s with state := .closed }
  else recebe_payload ip_send (recebe_fin ip_send t sock g) sock g

/-- `case TCP_FIN_WAIT`. -/
def em_fin_wait : Rede :=
  if g.flags &&& (TCP_ACK ||| TCP_FIN) ≠ 0 then t.muda sock fun s => { s with state := .closed }
  else t

/-- `tcp_recv_dispatch` once the segment is read. -/
def trata_segmento : Rede :=
  match correspondente t g with
  | none => t
  | some sock =>
    match (t.sockets sock).state with
    | .syn_sent => em_syn_sent ip_send t sock g
    | .established => em_established ip_send t sock g
    | .fin_wait => em_fin_wait t sock g
    | _ => t

def tcp_recv_dispatch (len offset : UInt16) : Reader Rede := do
  match ← segmento len offset with
  | none => return t
  | some g => return trata_segmento ip_send t g

end Recepcao

/-! ## The calls that wait

`eth_poll` is what a poll does. A loop ends with the schedule of polls at the latest. -/

section Espera

variable (eth_poll : Rede → Rede)

/-- `while (p && sched_ticks() - start < ticks_max) eth_poll()`. -/
def espera (p : Rede → Bool) (start ticks_max : UInt32) : Nat → Rede → Rede
  | 0, t => t
  | n + 1, t =>
    if p t ∧ t.ticks - start < ticks_max then espera p start ticks_max n (eth_poll t) else t

/-- One turn of the loop of `tcp_recv`: what it returns and the bytes it copies out, or `none`
where it goes on to wait. -/
def tcp_recv_volta (t : Rede) (sock : Indice) (max_len : UInt16) :
    Option (Int × List UInt8) × Rede :=
  let s := t.sockets sock
  if s.rx.head ≠ s.rx.tail then
    let to_copy := min s.rx.used max_len.toNat
    (some (to_copy, (s.rx.pull to_copy).1), t.muda sock fun s =>
      { s with rx := (s.rx.pull to_copy).2 })
  else if s.state = .close_wait then (some (0, []), t)
  else if s.state = .closed then (some (-1, []), t)
  else (none, t)

/-- The loop of `tcp_recv`. -/
def tcp_recv_laco (sock : Indice) (max_len : UInt16) (timeout_ms start : UInt32) :
    Nat → Rede → (Int × List UInt8) × Rede
  | 0, t => ((tcp_recv_volta t sock max_len).1.getD (0, []), (tcp_recv_volta t sock max_len).2)
  | n + 1, t =>
    match tcp_recv_volta t sock max_len with
    | (some r, t) => (r, t)
    | (none, t) =>
      if timeout_ms = 0 ∨ timeout_ms / 10 ≤ t.ticks - start then ((0, []), t)
      else tcp_recv_laco sock max_len timeout_ms start n (eth_poll t)

def tcp_recv (t : Rede) (sock : Indice) (max_len : UInt16) (timeout_ms : UInt32) :
    (Int × List UInt8) × Rede :=
  tcp_recv_laco eth_poll sock max_len timeout_ms t.ticks t.polls.length t

/-- The first free socket. -/
def soquete_livre (t : Rede) : Option Indice :=
  (List.finRange TCP_MAX_SOCKETS).find? fun i => (t.sockets i).state = .closed

/-- Socket `sock` set up for a new connection. -/
def tcp_connect_abre (t : Rede) (sock : Indice) (ip : UInt32) (port : UInt16) : Rede :=
  { t.muda sock fun _ => { Socket.zero with
      state := .syn_sent
      remote_ip := ip
      remote_port := port
      local_port := t.next_local_port
      seq_num := 0x12345678 } with
    next_local_port := t.next_local_port + 1 }

/-- `tcp_connect` after its loop. -/
def tcp_connect_fim (t : Rede) (sock : Indice) : Option Indice × Rede :=
  if (t.sockets sock).state ≠ .established then
    (none, t.muda sock fun s => { s with state := .closed })
  else (some sock, t)

/-- `none`: -1. -/
def tcp_connect (t : Rede) (ip : UInt32) (port : UInt16) : Option Indice × Rede :=
  match soquete_livre t with
  | none => (none, t)
  | some sock =>
    let t := (tcp_send_segment (ip_send eth_poll) (tcp_connect_abre t sock ip port) sock
      TCP_SYN []).2
    let t := t.muda sock fun s => { s with seq_num := s.seq_num + 1 }
    tcp_connect_fim (espera eth_poll (fun t => (t.sockets sock).state = .syn_sent) t.ticks 300
      t.polls.length t) sock

def tcp_close (t : Rede) (sock : Indice) : Rede :=
  if (t.sockets sock).state = .closed then t
  else
    let t := (tcp_send_segment (ip_send eth_poll) t sock (TCP_FIN ||| TCP_ACK) []).2
    let t := t.muda sock fun s => { s with seq_num := s.seq_num + 1, state := .fin_wait }
    let t := espera eth_poll (fun t => (t.sockets sock).state = .fin_wait) t.ticks 200
      t.polls.length t
    t.muda sock fun s => { s with state := .closed }

end Espera

end SpaceOS.Net
