-- The pool of network buffers (kernel/net/netbuf.c), and the receive path with the buffer that it
-- holds: eth_recv and the layers above it give each buffer back, and may poll again before they do.
import SpaceOS.Stack
import SpaceOS.Lib.LinkedList

open Lib.Bytes Lib.Footprint

namespace SpaceOS.Netbuf

open SpaceOS.Net

def NETBUF_COUNT : Nat := 16

/-! ## netbuf.c -/

/-- The static variables of the file. Buffer `i` of the array is named by `i + 1`, and 0 is the null
pointer. `tomadas p` and `solturas p` count how often buffer `p` was taken and given back. -/
structure Pool where
  next : Nat → Nat
  free_list : Nat
  livre_count : Int
  tomadas : Nat → Nat
  solturas : Nat → Nat

/-- What `recv_cb` was called with, and the pool before and after the call. -/
structure Chamada where
  buf : Nat
  antes : Pool
  depois : Pool

/-- The pool, the fields of each buffer, and the static variables of the layers. `historico` holds the
pool after each operation on it, and `chamadas` the calls of `recv_cb`, newest first. -/
structure Maquina where
  pool : Pool
  bufs : Nat → Netbuf
  rede : Rede
  historico : List Pool
  chamadas : List Chamada

def netbuf_init (pool : Pool) : Pool :=
  let pool := (List.range NETBUF_COUNT).foldl (fun pool i =>
    { pool with
      next := Function.update pool.next (i + 1) pool.free_list
      free_list := i + 1 }) { pool with free_list := 0 }
  { pool with livre_count := NETBUF_COUNT }

/-- The buffer is 0 where none is free. -/
def netbuf_alloc (m : Maquina) : Nat × Maquina :=
  if m.pool.free_list = 0 then (0, m)
  else
    let buf := m.pool.free_list
    let pool := { m.pool with
      free_list := m.pool.next buf
      next := Function.update m.pool.next buf 0
      livre_count := m.pool.livre_count - 1
      tomadas := Function.update m.pool.tomadas buf (m.pool.tomadas buf + 1) }
    (buf, { m with
      pool := pool
      bufs := Function.update m.bufs buf { m.bufs buf with len := 0, offset := 0 }
      historico := pool :: m.historico })

def netbuf_free (m : Maquina) (buf : Nat) : Maquina :=
  if buf = 0 then m
  else
    let pool := { m.pool with
      next := Function.update m.pool.next buf m.pool.free_list
      free_list := buf
      livre_count := m.pool.livre_count + 1
      solturas := Function.update m.pool.solturas buf (m.pool.solturas buf + 1) }
    { m with pool := pool, historico := pool :: m.historico }

/-- `buf->offset += n`. -/
def avanca (m : Maquina) (buf : Nat) (n : UInt16) : Maquina :=
  { m with
    bufs := Function.update m.bufs buf
      { m.bufs buf with offset := (m.bufs buf).offset + n } }

/-- The machine after a change of the variables of the layers. -/
def Maquina.na_rede (m : Maquina) (f : Rede → Rede) : Maquina := { m with rede := f m.rede }

/-! ## Code that holds a buffer

Such code may poll, and knows of the buffers only what it is given. `eth_poll` is what a poll does. -/

/-- A handler of a port, or any other code of the kernel: changes of the variables of the layers,
and polls. -/
inductive Programa where
  | fim (f : Rede → Rede)
  | eth_poll (f : Rede → Rede) (resto : Rede → Programa)

section Poll

variable (eth_poll : Maquina → Maquina)

def Programa.executa : Programa → Maquina → Maquina
  | .fim f, m => m.na_rede f
  | .eth_poll f resto, m => (resto (eth_poll (m.na_rede f)).rede).executa (eth_poll (m.na_rede f))

/-! ### The send path, as the answers of TCP take it -/

/-- The loop of `arp_resolve`. It ends with the schedule of polls at the latest. -/
def arp_espera (ip start ticks_max : UInt32) : Nat → Maquina → Option (List UInt8) × Maquina
  | 0, m => (none, m)
  | n + 1, m =>
    if m.rede.ticks - start < ticks_max then
      let m := eth_poll m
      match arp_cache_lookup m.rede.arp_cache ip with
      | some mac => (some mac, m)
      | none => arp_espera ip start ticks_max n m
    else (none, m)

def arp_resolve (m : Maquina) (ip timeout_ms : UInt32) : Option (List UInt8) × Maquina :=
  match arp_cache_lookup m.rede.arp_cache ip with
  | some mac => (some mac, m)
  | none =>
    let m := m.na_rede fun t => arp_send_request t ip
    arp_espera eth_poll ip m.rede.ticks (timeout_ms / 10) m.rede.polls.length m

def ip_destino (m : Maquina) (dst_ip : UInt32) : Option (List UInt8) × Maquina :=
  if dst_ip = 0xFFFFFFFF ∨ dst_ip = 0 then (some ETH_BROADCAST, m)
  else arp_resolve eth_poll m (nexthop m.rede dst_ip) 3000

def ip_send (m : Maquina) (dst_ip : UInt32) (proto : UInt8) (payload : List UInt8) : Maquina :=
  if payload.length + IP_HDR_LEN > 1480 then m
  else
    match ip_destino eth_poll (m.na_rede fun t => ip_monta t dst_ip proto payload) dst_ip with
    | (none, m) => m
    | (some dst_mac, m) => m.na_rede fun t =>
      (eth_send t dst_mac ETH_PROTO_IP (trecho t.ip_packet (IP_HDR_LEN + payload.length))).2

/-- What `tcp_send_segment` gives to `ip_send` for an ACK. -/
def segmento_ack (t : Rede) (sock : Indice) : Rede × UInt32 × List UInt8 :=
  let s := t.sockets sock
  let out := copia t.tcp_out 0 (tcp_header s TCP_ACK 0)
  let seg_len := UInt16.ofNat TCP_HDR_LEN
  let checksum := tcp_checksum t.net_our_ip s.remote_ip (trecho out seg_len.toNat) seg_len
  let out := copia out 16 (bytes16 checksum)
  ({ t with tcp_out := out }, s.remote_ip, trecho out seg_len.toNat)

def responde_ack (m : Maquina) (sock : Indice) : Maquina :=
  let (t, remote_ip, seg) := segmento_ack m.rede sock
  ip_send eth_poll { m with rede := t } remote_ip IP_PROTO_TCP seg

/-! ### The receive path -/

/-- `case TCP_SYN_SENT`. -/
def em_syn_sent (m : Maquina) (sock : Indice) (g : Segmento) : Maquina :=
  if g.flags &&& (TCP_SYN ||| TCP_ACK) = TCP_SYN ||| TCP_ACK then
    responde_ack eth_poll (m.na_rede fun t => t.muda sock fun s =>
      { s with ack_num := g.seq + 1, state := .established }) sock
  else m

/-- `case TCP_ESTABLISHED`. -/
def em_established (m : Maquina) (sock : Indice) (g : Segmento) : Maquina :=
  if g.flags &&& TCP_RST ≠ 0 then
    m.na_rede fun t => t.muda sock fun s => { s with state := .closed }
  else
    let m := if g.flags &&& TCP_FIN ≠ 0 then
        responde_ack eth_poll (m.na_rede fun t => t.muda sock fun s =>
          { s with ack_num := s.ack_num + 1, state := .close_wait }) sock
      else m
    if g.payload = [] then m
    else
      responde_ack eth_poll (m.na_rede fun t => t.muda sock fun s =>
        { s with
          ack_num := s.ack_num + UInt32.ofNat g.payload.length
          rx := s.rx.pushAll g.payload }) sock

def tcp_recv_dispatch (m : Maquina) (buf : Nat) : Maquina :=
  if buf = 0 then m
  else
    match (segmento (m.bufs buf).len (m.bufs buf).offset).val (m.bufs buf).data with
    | none => netbuf_free m buf
    | some g =>
      match correspondente m.rede g with
      | none => netbuf_free m buf
      | some sock =>
        let m := match (m.rede.sockets sock).state with
          | .syn_sent => em_syn_sent eth_poll m sock g
          | .established => em_established eth_poll m sock g
          | .fin_wait => m.na_rede fun t => em_fin_wait t sock g
          | _ => m
        netbuf_free m buf

/-- `handlers` is the code at each address. -/
def udp_recv (handlers : Nat → Datagrama → Programa) (m : Maquina) (buf : Nat) : Maquina :=
  if buf = 0 then m
  else
    match (pacote_udp (m.bufs buf).len (m.bufs buf).offset).val (m.bufs buf).data with
    | none => netbuf_free m buf
    | some p =>
      match handler_de m.rede p.dst_port with
      | none => netbuf_free m buf
      | some handler =>
        let d : Datagrama := ⟨handler, 0, p.src_port, p.payload⟩
        let m := m.na_rede fun t => { t with datagramas := d :: t.datagramas }
        netbuf_free ((handlers handler d).executa eth_poll m) buf

def arp_recv (m : Maquina) (buf : Nat) : Maquina :=
  if buf = 0 then netbuf_free m buf
  else
    match (pacote_arp (m.bufs buf).len (m.bufs buf).offset).val (m.bufs buf).data with
    | none => netbuf_free m buf
    | some pkt => netbuf_free (m.na_rede fun t => trata_arp t pkt) buf

def ip_recv (handlers : Nat → Datagrama → Programa) (m : Maquina) (buf : Nat) : Maquina :=
  if buf = 0 then m
  else
    let b := m.bufs buf
    let data := b.offset.toNat
    if (b.len - b.offset).toNat < IP_HDR_LEN then netbuf_free m buf
    else
      let hdr := (Reader.bytes data IP_HDR_LEN).val b.data
      let dst_ip := (Reader.word32 (data + 16)).val b.data
      if (hdr.headD 0) >>> 4 ≠ 4 then netbuf_free m buf
      else if (hdr.headD 0) &&& 0xF ≠ 5 then netbuf_free m buf
      else if ip_checksum hdr ≠ 0 then netbuf_free m buf
      else if m.rede.net_our_ip ≠ 0 ∧ ntohl dst_ip ≠ m.rede.net_our_ip ∧
          ntohl dst_ip ≠ 0xFFFFFFFF then netbuf_free m buf
      else
        let m := avanca m buf 20
        let protocol := (Reader.byte (data + 9)).val b.data
        if protocol = IP_PROTO_UDP then udp_recv eth_poll handlers m buf
        else if protocol = IP_PROTO_TCP then tcp_recv_dispatch eth_poll m buf
        else netbuf_free m buf

def eth_recv (handlers : Nat → Datagrama → Programa) (m : Maquina) (buf : Nat) : Maquina :=
  if buf = 0 ∨ (m.bufs buf).len.toNat < ETH_HDR_LEN then netbuf_free m buf
  else
    let b := m.bufs buf
    let proto := ntohs ((Reader.half16 (b.offset.toNat + 12)).val b.data)
    let m := avanca m buf 14
    if proto = ETH_PROTO_ARP then arp_recv m buf
    else if proto = ETH_PROTO_IP then ip_recv eth_poll handlers m buf
    else netbuf_free m buf

/-- A frame that `rtl8139_poll` finds in the ring. It is dropped where it is too long or no buffer is
free. -/
def recebe (handlers : Nat → Datagrama → Programa) (m : Maquina) (q : Netbuf) : Maquina :=
  if q.len.toNat ≤ NETBUF_SIZE then
    let (buf, m) := netbuf_alloc m
    if buf ≠ 0 then
      let m := { m with bufs := Function.update m.bufs buf { q with offset := 0 } }
      let m' := eth_recv eth_poll handlers m buf
      { m' with chamadas := ⟨buf, m.pool, m'.pool⟩ :: m'.chamadas }
    else m
  else m

end Poll

/-- `eth_poll`, with calls that nest up to `n` deep. Each one takes the next poll of the schedule. -/
def eth_poll (handlers : Nat → Datagrama → Programa) : Nat → Maquina → Maquina
  | 0, m => m
  | n + 1, m =>
    match m.rede.polls with
    | [] => m
    | p :: polls =>
      p.quadros.foldl (recebe (eth_poll handlers n) handlers)
        (m.na_rede fun t => { t with polls := polls, ticks := p.ticks })

/-- After `netbuf_init`, with any contents of the buffers. -/
def Maquina.inicio (bufs : Nat → Netbuf) (rede : Rede) : Maquina :=
  ⟨netbuf_init ⟨fun _ => 0, 0, 0, fun _ => 0, fun _ => 0⟩, bufs, rede, [], []⟩

end SpaceOS.Netbuf
