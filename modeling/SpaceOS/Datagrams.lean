-- Datagrams between hosts of one network: udp_send (kernel/net/udp.c) on the one, the receive path on
-- the other, and the ARP request and reply that come before the first datagram.
import SpaceOS.ArpCache
import SpaceOS.Checksums
import SpaceOS.Lib.Layout

open Lib.Bytes Lib.Footprint Lib.Layout Lib.SlotTable

namespace SpaceOS.Net

/-! ## The send path of UDP -/

/-- The datagram in `udp_out`. The checksum is left out. -/
def datagrama (src_port dst_port : UInt16) (data : List UInt8) : List UInt8 :=
  bytes16 (htons src_port) ++ bytes16 (htons dst_port) ++
    bytes16 (htons (UInt16.ofNat (UDP_HDR_LEN + data.length))) ++ bytes16 0 ++ data

/-- `false`: -1. -/
def udp_send (ip_send : IpSend) (t : Rede) (dst_ip : UInt32) (src_port dst_port : UInt16)
    (data : List UInt8) : Bool × Rede :=
  if data.length + UDP_HDR_LEN > 1480 then (false, t)
  else ip_send t dst_ip IP_PROTO_UDP (datagrama src_port dst_port data)

/-- What a call of `udp_send` is given to send. -/
structure Envio where
  src_port : UInt16
  dst_port : UInt16
  data : List UInt8
  deriving DecidableEq

/-- Calls of `udp_send` to one host, one after the other. -/
def envia (ip_send : IpSend) (dst_ip : UInt32) (es : List Envio) (t : Rede) : Rede :=
  es.foldl (fun t e => (udp_send ip_send t dst_ip e.src_port e.dst_port e.data).2) t

/-- The datagram fits into a packet of `ip_send`. `udp_send` itself lets 20 bytes more pass. -/
def Envio.Cabe (e : Envio) : Prop := e.data.length ≤ 1452

instance : DecidablePred Envio.Cabe := fun _ => Nat.decLe _ _

/-- The handler call that a datagram makes on a host. -/
def chamada (t : Rede) (e : Envio) : Option Datagrama :=
  (handler_de t e.dst_port).map fun handler => ⟨handler, 0, e.src_port, e.data⟩

/-- The frame lies in the buffer. The card sends a short frame with zeros behind it. -/
structure Chega (q : List UInt8) (buf : Netbuf) : Prop where
  offset : buf.offset = 0
  cabe : q.length ≤ buf.len.toNat
  bytes : Lies buf.data 0 q

/-- Host `a` is about to send to its neighbour `b` for the first time. Some polls bring nothing, and
the next one, within the three seconds, the answer of `b` to the request. -/
structure Vizinhos (ip_send : IpSend) (a b : Rede) (vazios : List Poll) : Prop where
  mac_a : a.mac_addr.length = 6
  mac_b : b.mac_addr.length = 6
  ip : b.net_our_ip ≠ 0 ∧ b.net_our_ip ≠ 0xFFFFFFFF
  rede : nexthop a b.net_our_ip = b.net_our_ip
  novo : arp_cache_lookup a.arp_cache b.net_our_ip = none
  mudos : ∀ p ∈ vazios, p.quadros = [] ∧ p.ticks - a.ticks < 300
  polls : ∃ pedido resposta ticks polls,
    Chega ((arp_send_request a b.net_our_ip).enviados.headD []) pedido ∧
    Chega ((recebe ip_send b pedido).enviados.headD []) resposta ∧
    a.polls = vazios ++ ⟨[resposta], ticks⟩ :: polls

/-! ## Fields -/

section Campos

variable {m : Memory} {a : Nat}

theorem half_lies {v : UInt16} (h : Lies m a (bytes16 v)) : UInt16.ofNat (half m a) = v := by
  have h0 : m (a + 0) = v.toUInt8 := h 0 (by simp)
  have h1 : m (a + 1) = (v >>> 8).toUInt8 := h 1 (by simp)
  have h8 : (v >>> 8).toNat = v.toNat / 256 := by
    rw [UInt16.toNat_shiftRight]
    exact Nat.shiftRight_eq_div_pow _ _
  have hv := v.toNat_lt
  apply UInt16.toNat_inj.mp
  unfold half
  rw [Nat.add_zero] at h0
  rw [UInt16.toNat_ofNat', h0, h1, UInt16.toNat_toUInt8, UInt16.toNat_toUInt8, h8]
  omega

theorem word_lies {v : UInt32} (h : Lies m a (bytes32 v)) : UInt32.ofNat (word m a) = v := by
  have h0 : m (a + 0) = v.toUInt8 := h 0 (by simp)
  have h1 : m (a + 1) = (v >>> 8).toUInt8 := h 1 (by simp)
  have h2 : m (a + 2) = (v >>> 16).toUInt8 := h 2 (by simp)
  have h3 : m (a + 3) = (v >>> 24).toUInt8 := h 3 (by simp)
  have hv := v.toNat_lt
  apply UInt32.toNat_inj.mp
  have s8 : (v >>> 8).toNat = v.toNat / 2 ^ 8 := Lib.Words.toNat_shr v 8 (by decide)
  have s16 : (v >>> 16).toNat = v.toNat / 2 ^ 16 := Lib.Words.toNat_shr v 16 (by decide)
  have s24 : (v >>> 24).toNat = v.toNat / 2 ^ 24 := Lib.Words.toNat_shr v 24 (by decide)
  unfold word
  rw [Nat.add_zero] at h0
  rw [UInt32.toNat_ofNat', h0, h1, h2, h3]
  simp only [UInt32.toNat_toUInt8]
  rw [s8, s16, s24]
  omega

/-- The bytes of a number in the other order. -/
theorem toNat_htonl_bytes {v : UInt32} {x y z w : Nat} (hx : x < 256) (hy : y < 256) (hz : z < 256)
    (h : v.toNat = x + 2 ^ 8 * y + 2 ^ 16 * z + 2 ^ 24 * w) :
    (htonl v).toNat = w + 2 ^ 8 * z + 2 ^ 16 * y + 2 ^ 24 * x := by
  have hv := v.toNat_lt
  have h24 : v.toNat / 2 ^ 24 = w := by omega
  have h16 : v.toNat / 2 ^ 16 % 256 = z := by omega
  have h8 : v.toNat / 2 ^ 8 % 256 = y := by omega
  have h0 : v.toNat % 256 = x := by omega
  rw [toNat_htonl, h24, h16, h8, h0]
  omega

@[simp] theorem ntohl_htonl (v : UInt32) : ntohl (htonl v) = v := by
  have hv := v.toNat_lt
  have h : v.toNat = v.toNat % 256 + 2 ^ 8 * (v.toNat / 2 ^ 8 % 256) +
      2 ^ 16 * (v.toNat / 2 ^ 16 % 256) + 2 ^ 24 * (v.toNat / 2 ^ 24) := by omega
  have h1 := toNat_htonl_bytes (by omega) (by omega) (by omega) h
  have h2 := toNat_htonl_bytes (by omega) (by omega) (by omega) h1
  apply UInt32.toNat_inj.mp
  unfold ntohl
  rw [h2]
  exact h.symm

end Campos

/-! ## The receive path -/

section Recepcao

variable {f : IpSend} {r t : Rede} {buf : Netbuf} {len : UInt16} {m : Memory} {dst_ip : UInt32}

/-- What `eth_recv` does with a frame that it is given whole. -/
theorem recebe_quadro {d s p : List UInt8} {proto : UInt16} (hd : d.length = 6) (hs : s.length = 6)
    (h : Chega (quadro d s proto p) buf) : Lies buf.data 14 p ∧ 14 + p.length ≤ buf.len.toNat ∧
      recebe f r buf = if proto = ETH_PROTO_ARP then (arp_recv r buf.len 14).val buf.data
        else if proto = ETH_PROTO_IP then (ip_recv f r buf.len 14).val buf.data else r := by
  obtain ⟨hoff, hlen, hbytes⟩ := h
  unfold quadro at hbytes hlen
  simp only [List.length_append, hd, hs, length_bytes16] at hlen
  obtain ⟨hcab, hp⟩ := lies_append.mp hbytes
  obtain ⟨hmacs, hproto⟩ := lies_append.mp hcab
  simp only [List.length_append, hd, hs, length_bytes16] at hp hproto
  refine ⟨hp, hlen, ?_⟩
  have hcurto : ¬ buf.len.toNat < ETH_HDR_LEN := by
    unfold ETH_HDR_LEN
    omega
  have hword : UInt16.ofNat (half buf.data ((0 : UInt16).toNat + 12)) = htons proto := half_lies hproto
  have h14 : (0 : UInt16) + 14 = 14 := by decide
  unfold recebe eth_recv
  rw [hoff, if_neg hcurto, h14]
  dsimp only
  rw [Reader.val_bind, Reader.val_half16, hword, ntohs_htons, Reader.val_ite, Reader.val_ite,
    Reader.val_pure]

/-- An ARP packet is read as it was put together. -/
theorem arp_recv_pacote {op : UInt16} {sha tha : List UInt8} {spa tpa : UInt32} (hs : sha.length = 6)
    (ht : tha.length = 6) (hl : 28 ≤ len.toNat) (h : Lies m 14 (arp_packet op sha spa tha tpa)) :
    (arp_recv r len 14).val m =
      trata_arp r ⟨spa, sha, htons op, if op = 1 then tpa else 0⟩ := by
  unfold arp_packet at h
  simp only [lies_append, List.length_append, length_bytes16, length_bytes32, hs, ht,
    List.length_cons, List.length_nil] at h
  obtain ⟨⟨⟨⟨⟨⟨⟨-, -⟩, -⟩, hop⟩, hsha⟩, hspa⟩, -⟩, htpa⟩ := h
  have hop' : (Reader.half16 20).val m = htons op := half_lies hop
  have hspa' : (Reader.word32 28).val m = spa := word_lies hspa
  have htpa' : (Reader.word32 38).val m = tpa := word_lies htpa
  have hsha' : (Reader.bytes 22 6).val m = sha := by
    rw [Reader.val_bytes, ← hs]
    exact hsha.range
  have hpkt : (pacote_arp len 14).val m = some ⟨spa, sha, htons op, if op = 1 then tpa else 0⟩ := by
    have h14 : (14 : UInt16).toNat = 14 := rfl
    unfold pacote_arp
    rw [if_neg (by omega)]
    dsimp only
    simp only [h14, Nat.reduceAdd, Reader.val_bind, Reader.val_ite, Reader.val_pure]
    rw [hspa', hsha', hop', ntohs_htons, htpa']
    split <;> rfl
  unfold arp_recv
  rw [Reader.val_bind, hpkt]
  rfl

/-- The host takes packets for that address. -/
def Ouve (r : Rede) (dst_ip : UInt32) : Prop :=
  r.net_our_ip = 0 ∨ dst_ip = r.net_our_ip ∨ dst_ip = 0xFFFFFFFF

instance : Decidable (Ouve r dst_ip) := inferInstanceAs (Decidable (_ ∨ _ ∨ _))

section Pacote

variable {proto : UInt8} {payload : List UInt8}

/-- The header of a packet is read as `ip_send` put it together. -/
theorem lies_pacote (h : Lies m 14 (pacote t dst_ip proto payload)) :
    (List.range IP_HDR_LEN).map (fun i => m (14 + i)) = cabecalho_ip t dst_ip proto payload ∧
      m 23 = proto ∧ UInt32.ofNat (word m 30) = htonl dst_ip ∧ Lies m 34 payload := by
  unfold Net.pacote at h
  obtain ⟨hcab, hpay⟩ := lies_append.mp h
  rw [length_ip_header] at hpay
  refine ⟨?_, ?_, ?_, hpay⟩
  · have hlen : (ip_header t dst_ip proto payload.length
        (ip_checksum (ip_header t dst_ip proto payload.length 0))).length = IP_HDR_LEN := rfl
    rw [cabecalho_ip_eq, ← hlen]
    exact hcab.range
  · exact hcab 9 (by rw [length_ip_header]; decide)
  · unfold ip_header at hcab
    exact word_lies (lies_append.mp hcab).2

/-- A packet is accepted by the hosts that it is for. -/
theorem aceito_pacote (h : Lies m 14 (pacote t dst_ip proto payload)) :
    Aceito r m 14 ↔ Ouve r dst_ip := by
  obtain ⟨hcab, -, hdst, -⟩ := lies_pacote h
  obtain ⟨h0, hd⟩ := littleSum_cabecalho t dst_ip proto payload
  have hlen : (cabecalho_ip t dst_ip proto payload).length ≤ 1500 := by
    rw [length_cabecalho_ip]
    decide
  have hhead : (cabecalho_ip t dst_ip proto payload).headD 0 = 0x45 := by
    rw [cabecalho_ip_eq]
    rfl
  unfold Aceito
  rw [hcab, hdst, ntohl_htonl]
  unfold aceita_ip Ouve
  rw [hhead]
  constructor
  · rintro ⟨-, -, -, hn⟩
    by_contra hno
    simp only [not_or] at hno
    exact hn hno
  · intro ho
    refine ⟨by decide, by decide, (ip_checksum_eq_zero_iff hlen).mpr ⟨h0, hd⟩, fun hn => ?_⟩
    rcases ho with ho | ho | ho
    · exact hn.1 ho
    · exact hn.2.1 ho
    · exact hn.2.2 ho

end Pacote

/-- A datagram is read as `udp_send` put it together. -/
theorem udp_recv_datagrama {e : Envio} (hl : 42 + e.data.length ≤ len.toNat)
    (h : Lies m 34 (datagrama e.src_port e.dst_port e.data)) :
    (udp_recv r len 34).val m = trata_pacote r ⟨e.src_port, e.dst_port, e.data⟩ := by
  unfold datagrama at h
  simp only [lies_append, List.length_append, length_bytes16] at h
  obtain ⟨⟨⟨⟨hsrc, hdst⟩, hlen⟩, -⟩, hdata⟩ := h
  have hsrc' : UInt16.ofNat (half m 34) = htons e.src_port := half_lies hsrc
  have hdst' : UInt16.ofNat (half m 36) = htons e.dst_port := half_lies hdst
  have hlen' : UInt16.ofNat (half m 38) = htons (UInt16.ofNat (UDP_HDR_LEN + e.data.length)) :=
    half_lies hlen
  have hpay : (udp_payload_len (UInt16.ofNat (half m 38))).toNat = e.data.length := by
    have := len.toNat_lt
    unfold udp_payload_len
    rw [hlen', ntohs_htons, UInt16.toNat_sub, UInt16.toNat_ofNat']
    change (2 ^ 16 - 8 + (8 + e.data.length) % 2 ^ 16) % 2 ^ 16 = _
    omega
  have hbytes : (List.range e.data.length).map (fun i => m (34 + UDP_HDR_LEN + i)) = e.data :=
    hdata.range
  rw [val_udp_recv, val_pacote_udp (by omega), hpay, hbytes]
  unfold campo16
  rw [hsrc', hdst', ntohs_htons, ntohs_htons]
  rfl

/-- The frame of a datagram. -/
def quadro_de (t : Rede) (dst_mac : List UInt8) (dst_ip : UInt32) (e : Envio) : List UInt8 :=
  quadro dst_mac t.mac_addr ETH_PROTO_IP
    (pacote t dst_ip IP_PROTO_UDP (datagrama e.src_port e.dst_port e.data))

/-- What a datagram does on a host that hears it. -/
def entrega (r : Rede) (e : Envio) : Rede := trata_pacote r ⟨e.src_port, e.dst_port, e.data⟩

/-- A datagram goes whole to the hosts that it is for. -/
theorem recebe_datagrama {dst_mac : List UInt8} {e : Envio} (hd : dst_mac.length = 6)
    (hs : t.mac_addr.length = 6) (h : Chega (quadro_de t dst_mac dst_ip e) buf) :
    recebe f r buf = if Ouve r dst_ip then entrega r e else r := by
  obtain ⟨hp, hlen, hr⟩ := recebe_quadro (f := f) (r := r) hd hs h
  have hdata : (datagrama e.src_port e.dst_port e.data).length = 8 + e.data.length := by
    unfold datagrama
    simp only [List.length_append, length_bytes16]
  rw [length_pacote, hdata] at hlen
  unfold IP_HDR_LEN at hlen
  obtain ⟨-, hproto, -, hpay⟩ := lies_pacote hp
  rw [hr, if_neg (by decide), if_pos rfl, val_ip_recv (by omega)]
  by_cases ho : Ouve r dst_ip
  · rw [if_neg (not_not.mpr ((aceito_pacote hp).mpr ho)), if_pos hproto, if_pos ho]
    exact udp_recv_datagrama (by omega) hpay
  · rw [if_pos fun ha => ho ((aceito_pacote hp).mp ha), if_neg ho]

/-- The calls that datagrams make, one after the other. -/
theorem datagramas_entrega (es : List Envio) (r : Rede) :
    (es.foldl entrega r).datagramas = (es.filterMap (chamada r)).reverse ++ r.datagramas := by
  induction es generalizing r with
  | nil => rfl
  | cons e es ih =>
    have hc : chamada (entrega r e) = chamada r := by
      have hbind : (entrega r e).bindings = r.bindings := by
        unfold entrega trata_pacote
        split <;> rfl
      funext e'
      unfold chamada handler_de
      rw [hbind]
    rw [List.foldl_cons, ih, hc, List.filterMap_cons]
    unfold entrega trata_pacote chamada
    cases handler_de r e.dst_port with
    | none => rfl
    | some handler => simp

end Recepcao

/-! ## The send path -/

section Emissao

variable {f g : IpSend} {t r a b : Rede} {dst_ip ip : UInt32} {mac : List UInt8} {e : Envio}
  {poll : Rede → Rede}

theorem length_datagrama (src_port dst_port : UInt16) (data : List UInt8) :
    (datagrama src_port dst_port data).length = 8 + data.length := by
  unfold datagrama
  simp only [List.length_append, length_bytes16]

/-- A datagram that does not fit changes nothing. -/
theorem udp_send_longo (h : ¬ e.Cabe) :
    udp_send (ip_send poll) t dst_ip e.src_port e.dst_port e.data = (false, t) := by
  have hlen : 1452 < e.data.length := Nat.not_le.mp h
  have hp := length_datagrama e.src_port e.dst_port e.data
  unfold udp_send
  split
  · rfl
  · unfold ip_send
    rw [if_pos]
    unfold IP_HDR_LEN
    omega

/-- A datagram whose next hop is resolved goes out as one frame, if nothing has touched the packet. -/
theorem udp_send_resolvido {u : Rede} (hc : e.Cabe) (hd : ip_destino poll
      (ip_monta t dst_ip IP_PROTO_UDP (datagrama e.src_port e.dst_port e.data)) dst_ip = (some mac, u))
    (hp : u.ip_packet =
      (ip_monta t dst_ip IP_PROTO_UDP (datagrama e.src_port e.dst_port e.data)).ip_packet)
    (hm : u.mac_addr = t.mac_addr) :
    (udp_send (ip_send poll) t dst_ip e.src_port e.dst_port e.data).2 =
      { u with enviados := quadro_de t mac dst_ip e :: u.enviados } := by
  have hlen : e.data.length ≤ 1452 := hc
  have hdat := length_datagrama e.src_port e.dst_port e.data
  have hpac := length_pacote t dst_ip IP_PROTO_UDP (datagrama e.src_port e.dst_port e.data)
  have h8 : ¬ e.data.length + UDP_HDR_LEN > 1480 := by
    unfold UDP_HDR_LEN
    omega
  have h20 : ¬ (datagrama e.src_port e.dst_port e.data).length + IP_HDR_LEN > 1480 := by
    unfold IP_HDR_LEN
    omega
  have hbytes : trecho u.ip_packet (IP_HDR_LEN + (datagrama e.src_port e.dst_port e.data).length) =
      pacote t dst_ip IP_PROTO_UDP (datagrama e.src_port e.dst_port e.data) := by
    rw [hp, ← hpac]
    exact trecho_copia _ _
  have h1500 : ¬ (pacote t dst_ip IP_PROTO_UDP
      (datagrama e.src_port e.dst_port e.data)).length > 1500 := by
    rw [hpac]
    unfold IP_HDR_LEN
    omega
  unfold udp_send ip_send
  rw [if_neg h8, if_neg h20, hd]
  dsimp only
  rw [hbytes]
  unfold eth_send quadro_de
  rw [if_neg h1500, hm]

/-- The host knows the card behind an address. -/
def Sabe (t : Rede) (dst_ip : UInt32) (mac : List UInt8) : Prop :=
  arp_cache_lookup t.arp_cache (nexthop t dst_ip) = some mac

/-- A datagram to a card that is known. -/
theorem udp_send_sabe (h0 : dst_ip ≠ 0) (hb : dst_ip ≠ 0xFFFFFFFF) (h : Sabe t dst_ip mac)
    (hc : e.Cabe) : (udp_send (ip_send poll) t dst_ip e.src_port e.dst_port e.data).2 =
      { ip_monta t dst_ip IP_PROTO_UDP (datagrama e.src_port e.dst_port e.data) with
        enviados := quadro_de t mac dst_ip e :: t.enviados } := by
  refine udp_send_resolvido hc ?_ rfl rfl
  have hs : arp_cache_lookup (ip_monta t dst_ip IP_PROTO_UDP
      (datagrama e.src_port e.dst_port e.data)).arp_cache
      (nexthop (ip_monta t dst_ip IP_PROTO_UDP (datagrama e.src_port e.dst_port e.data)) dst_ip) =
        some mac := h
  unfold ip_destino
  rw [if_neg (by simp [h0, hb])]
  unfold arp_resolve
  rw [hs]

/-- One datagram and those behind it, where the address is heard. -/
theorem entrega_se (r : Rede) (dst_ip : UInt32) (e : Envio) (es : List Envio) :
    (if Ouve (if Ouve r dst_ip then entrega r e else r) dst_ip then
        es.foldl entrega (if Ouve r dst_ip then entrega r e else r)
      else if Ouve r dst_ip then entrega r e else r) =
      if Ouve r dst_ip then (e :: es).foldl entrega r else r := by
  have hip : (entrega r e).net_our_ip = r.net_our_ip := by
    unfold entrega trata_pacote
    split <;> rfl
  by_cases ho : Ouve r dst_ip
  · have ho' : Ouve (entrega r e) dst_ip := by
      unfold Ouve
      rw [hip]
      exact ho
    rw [if_pos ho, if_pos ho, if_pos ho']
    rfl
  · rw [if_neg ho, if_neg ho, if_neg ho]

/-- A sequence of datagrams to a card that is known: whoever is handed the frames gets the datagrams
that fit, in order, where it hears the address. -/
theorem envia_sabe (poll : Rede → Rede) (h0 : dst_ip ≠ 0) (hb : dst_ip ≠ 0xFFFFFFFF) (hmac : mac.length = 6)
    (hm : t.mac_addr.length = 6) (h : Sabe t dst_ip mac) (es : List Envio) :
    ∃ frames, (envia (ip_send poll) dst_ip es t).enviados = frames.reverse ++ t.enviados ∧
      ∀ g r bufs, List.Forall₂ Chega frames bufs → bufs.foldl (recebe g) r =
        if Ouve r dst_ip then (es.filter (Envio.Cabe ·)).foldl entrega r else r := by
  induction es generalizing t with
  | nil =>
    refine ⟨[], rfl, fun g r bufs hf => ?_⟩
    obtain rfl := List.forall₂_nil_left_iff.mp hf
    split <;> rfl
  | cons e es ih =>
    have hcons : envia (ip_send poll) dst_ip (e :: es) t = envia (ip_send poll) dst_ip es
      (udp_send (ip_send poll) t dst_ip e.src_port e.dst_port e.data).2 := rfl
    by_cases hc : e.Cabe
    · rw [hcons, udp_send_sabe h0 hb h hc]
      obtain ⟨frames, hsent, hrecv⟩ := ih (t := { ip_monta t dst_ip IP_PROTO_UDP
        (datagrama e.src_port e.dst_port e.data) with
        enviados := quadro_de t mac dst_ip e :: t.enviados }) hm h
      refine ⟨quadro_de t mac dst_ip e :: frames, by rw [hsent]; simp, fun g r bufs hf => ?_⟩
      obtain ⟨buf, bufs, hbuf, hbufs, rfl⟩ := List.forall₂_cons_left_iff.mp hf
      rw [List.foldl_cons, recebe_datagrama hmac hm hbuf, List.filter_cons_of_pos (by simpa using hc),
        hrecv g _ _ hbufs]
      exact entrega_se _ _ _ _
    · rw [hcons, udp_send_longo hc, List.filter_cons_of_neg (by simpa using hc)]
      exact ih hm h

end Emissao

/-! ## The exchange over ARP -/

section Troca

variable {f g : IpSend} {t r a b : Rede} {ip : UInt32} {mac : List UInt8} {buf : Netbuf}

/-- The request for an address. -/
def quadro_pedido (t : Rede) (ip : UInt32) : List UInt8 :=
  quadro ETH_BROADCAST t.mac_addr ETH_PROTO_ARP
    (arp_packet 1 t.mac_addr (htonl t.net_our_ip) (List.replicate 6 0) (htonl ip))

/-- The answer of `b` to `a`. -/
def quadro_resposta (b a : Rede) : List UInt8 :=
  quadro a.mac_addr b.mac_addr ETH_PROTO_ARP
    (arp_packet 2 b.mac_addr (htonl b.net_our_ip) a.mac_addr (htonl a.net_our_ip))

theorem length_arp_packet {op : UInt16} {sha tha : List UInt8} {spa tpa : UInt32}
    (hs : sha.length = 6) (ht : tha.length = 6) : (arp_packet op sha spa tha tpa).length = 28 := by
  unfold arp_packet
  simp only [List.length_append, length_bytes16, length_bytes32, hs, ht, List.length_cons,
    List.length_nil]

theorem arp_send_request_eq (hm : t.mac_addr.length = 6) (ip : UInt32) :
    arp_send_request t ip = { t with enviados := quadro_pedido t ip :: t.enviados } := by
  unfold arp_send_request eth_send
  rw [if_neg]
  · rfl
  · rw [length_arp_packet hm (by simp)]
    decide

/-- A host that is handed a request keeps the sender in mind, and answers if it is asked for. -/
theorem recebe_pedido (ha : a.mac_addr.length = 6) (hr : r.mac_addr.length = 6)
    (h : Chega (quadro_pedido a ip) buf) :
    let t := if a.net_our_ip ≠ 0 then
      { r with arp_cache := arp_cache_add r.arp_cache a.net_our_ip a.mac_addr } else r
    recebe f r buf = if ip = r.net_our_ip then
      { t with enviados := quadro_resposta r a :: r.enviados } else t := by
  intro t
  obtain ⟨hp, hlen, he⟩ := recebe_quadro (f := f) (r := r) (by decide) ha h
  rw [length_arp_packet ha (by simp)] at hlen
  rw [he, if_pos rfl, arp_recv_pacote ha (by simp) (by omega) hp, if_pos rfl]
  unfold trata_arp
  simp only [ntohl_htonl, ntohs_htons]
  have hm : t.mac_addr = r.mac_addr ∧ t.net_our_ip = r.net_our_ip ∧ t.enviados = r.enviados := by
    unfold t
    split <;> exact ⟨rfl, rfl, rfl⟩
  change (if True ∧ ip = t.net_our_ip then (eth_send t _ _ _).2 else t) = _
  rw [hm.2.1]
  by_cases hip : ip = r.net_our_ip
  · rw [if_pos ⟨trivial, hip⟩, if_pos hip]
    unfold eth_send
    rw [if_neg]
    · rw [hm.1, hm.2.2, hm.2.1]
      rfl
    · rw [length_arp_packet (by rw [hm.1]; exact hr) ha]
      decide
  · rw [if_neg fun h => hip h.2, if_neg hip]

/-- The host that is asked for sends its answer. -/
theorem resposta_do_pedido (ha : a.mac_addr.length = 6) (hb : b.mac_addr.length = 6)
    (h : Chega (quadro_pedido a b.net_our_ip) buf) :
    (recebe f b buf).enviados.headD [] = quadro_resposta b a := by
  rw [recebe_pedido ha hb h, if_pos rfl]
  rfl

/-- A host that is handed the answer knows the card of `b`. -/
theorem recebe_resposta (ha : a.mac_addr.length = 6) (hb : b.mac_addr.length = 6)
    (h0 : b.net_our_ip ≠ 0) (h : Chega (quadro_resposta b a) buf) : recebe f r buf =
      { r with arp_cache := arp_cache_add r.arp_cache b.net_our_ip b.mac_addr } := by
  obtain ⟨hp, hlen, he⟩ := recebe_quadro (f := f) (r := r) ha hb h
  rw [length_arp_packet hb ha] at hlen
  rw [he, if_pos rfl, arp_recv_pacote hb ha (by omega) hp]
  unfold trata_arp
  simp only [ntohl_htonl, ntohs_htons]
  rw [if_pos h0, if_neg fun h => absurd h.1 (by decide)]

/-- An entry is found by its address. -/
theorem lookup_add (c : Fin ARP_CACHE_SIZE → Entrada) (ip : UInt32) (mac : List UInt8) :
    arp_cache_lookup (arp_cache_add c ip mac) ip = some mac := by
  rw [arp_cache_lookup_eq]
  rcases add_cases c ip mac with hput | ⟨-, he⟩
  · rw [lookup_put hput, Function.update_self]
  · refine Fin.findSome?_eq_some_iff.mpr ⟨⟨0, by decide⟩, ?_, fun j hj => ?_⟩
    · rw [he, hit_update, if_pos rfl, if_pos rfl]
    · exact absurd hj (Nat.not_lt_zero _)

/-- The wait of `arp_resolve`, for polls that bring nothing and then the answer. -/
theorem arp_espera_resposta {n k : Nat} {start max ticks : UInt32} {resposta : Netbuf}
    {vazios polls : List Poll} (hv : ∀ p ∈ vazios, p.quadros = [] ∧ p.ticks - start < max)
    (ht : t.ticks - start < max) (hp : t.polls = vazios ++ ⟨[resposta], ticks⟩ :: polls)
    (hc : arp_cache_lookup t.arp_cache ip = none) (hk : vazios.length < k)
    (hr : ∀ u : Rede, arp_cache_lookup (recebe (ip_send (eth_poll n)) u resposta).arp_cache ip =
      some mac) :
    arp_espera (eth_poll (n + 1)) ip start max k t = (some mac,
      recebe (ip_send (eth_poll n)) { t with polls := polls, ticks := ticks } resposta) := by
  induction vazios generalizing t k with
  | nil =>
    obtain ⟨k, rfl⟩ := Nat.exists_eq_succ_of_ne_zero (Nat.ne_of_gt hk)
    have hpoll : eth_poll (n + 1) t =
        recebe (ip_send (eth_poll n)) { t with polls := polls, ticks := ticks } resposta := by
      rw [eth_poll, hp]
      rfl
    rw [arp_espera, if_pos ht]
    dsimp only
    rw [hpoll, hr]
  | cons p vazios ih =>
    obtain ⟨hq, hpt⟩ := hv p List.mem_cons_self
    obtain ⟨k, rfl⟩ := Nat.exists_eq_succ_of_ne_zero (Nat.ne_of_gt (Nat.zero_lt_of_lt hk))
    have hpoll : eth_poll (n + 1) t =
        { t with polls := vazios ++ ⟨[resposta], ticks⟩ :: polls, ticks := p.ticks } := by
      rw [eth_poll, hp]
      change p.quadros.foldl _ _ = _
      rw [hq]
      rfl
    rw [arp_espera, if_pos ht]
    dsimp only
    rw [hpoll]
    dsimp only
    rw [hc]
    exact ih (t := { t with polls := vazios ++ ⟨[resposta], ticks⟩ :: polls, ticks := p.ticks })
      (fun q hm => hv q (List.mem_cons_of_mem _ hm)) hpt rfl hc (Nat.lt_of_succ_lt_succ hk)

/-- The first datagram to a neighbour: the request goes out, and after the answer the datagram. -/
theorem udp_send_primeiro {vazios : List Poll} (h : Vizinhos g a b vazios) (n : Nat) {e : Envio}
    (hc : e.Cabe) : ∃ u,
      (udp_send (ip_send (eth_poll (n + 1))) a b.net_our_ip e.src_port e.dst_port e.data).2 = u ∧
      u.enviados = quadro_de a b.mac_addr b.net_our_ip e :: quadro_pedido a b.net_our_ip :: a.enviados ∧
      u.mac_addr = a.mac_addr ∧ Sabe u b.net_our_ip b.mac_addr := by
  obtain ⟨ha, hb, ⟨h0, hff⟩, hrede, hnovo, hmudos, pedido, resposta, ticks, polls, hped, hres, hpolls⟩ := h
  have hpedido : (arp_send_request a b.net_our_ip).enviados.headD [] = quadro_pedido a b.net_our_ip := by
    rw [arp_send_request_eq ha]
    rfl
  rw [hpedido] at hped
  rw [resposta_do_pedido ha hb hped] at hres
  let d := datagrama e.src_port e.dst_port e.data
  let t1 := { ip_monta a b.net_our_ip IP_PROTO_UDP d with
    enviados := quadro_pedido a b.net_our_ip :: a.enviados }
  let t2 := { t1 with
    polls := polls
    ticks := ticks
    arp_cache := arp_cache_add a.arp_cache b.net_our_ip b.mac_addr }
  have hresolve : ip_destino (eth_poll (n + 1)) (ip_monta a b.net_our_ip IP_PROTO_UDP d)
      b.net_our_ip = (some b.mac_addr, t2) := by
    unfold ip_destino
    rw [if_neg (by simp [h0, hff])]
    have hnext : nexthop (ip_monta a b.net_our_ip IP_PROTO_UDP d) b.net_our_ip = b.net_our_ip := hrede
    have hmiss : arp_cache_lookup (ip_monta a b.net_our_ip IP_PROTO_UDP d).arp_cache b.net_our_ip =
      none := hnovo
    unfold arp_resolve
    rw [hnext, hmiss]
    dsimp only
    have hreq : arp_send_request (ip_monta a b.net_our_ip IP_PROTO_UDP d) b.net_our_ip = t1 :=
      arp_send_request_eq (t := ip_monta a b.net_our_ip IP_PROTO_UDP d) ha _
    rw [hreq]
    have hlen : vazios.length < t1.polls.length := by
      change vazios.length < a.polls.length
      rw [hpolls, List.length_append, List.length_cons]
      omega
    have hzero : t1.ticks - t1.ticks < 3000 / 10 := by
      rw [UInt32.sub_self]
      decide
    have hespera : ∀ p ∈ vazios, p.quadros = [] ∧ p.ticks - t1.ticks < 3000 / 10 := hmudos
    rw [arp_espera_resposta hespera hzero hpolls hnovo hlen fun u => ?_]
    · rw [recebe_resposta ha hb h0 hres]
      rfl
    · rw [recebe_resposta ha hb h0 hres]
      exact lookup_add _ _ _
  refine ⟨_, udp_send_resolvido hc hresolve rfl rfl, rfl, rfl, ?_⟩
  have hnext : nexthop t2 b.net_our_ip = b.net_our_ip := hrede
  change arp_cache_lookup t2.arp_cache (nexthop t2 b.net_our_ip) = _
  rw [hnext]
  exact lookup_add _ _ _

/-- What a request leaves of a host. -/
theorem recebe_pedido_campos (ha : a.mac_addr.length = 6) (hr : r.mac_addr.length = 6)
    (h : Chega (quadro_pedido a ip) buf) : (recebe f r buf).datagramas = r.datagramas ∧
      (recebe f r buf).bindings = r.bindings ∧ (recebe f r buf).net_our_ip = r.net_our_ip := by
  rw [recebe_pedido ha hr h]
  split
  · split <;> exact ⟨rfl, rfl, rfl⟩
  · split <;> exact ⟨rfl, rfl, rfl⟩

end Troca

/-! ## The law -/

/-- The state of a host after datagrams differs in the calls of its handlers alone. -/
theorem entrega_campos (es : List Envio) (r : Rede) : (es.foldl entrega r).arp_cache = r.arp_cache := by
  induction es generalizing r with
  | nil => rfl
  | cons e es ih =>
    have he : (entrega r e).arp_cache = r.arp_cache := by
      unfold entrega trata_pacote
      split <;> rfl
    rw [List.foldl_cons, ih, he]

section Lei

variable {g : IpSend} {a b : Rede} {vazios : List Poll}

/-- What a sequence of datagrams to a new neighbour puts on the wire: nothing, where none fits, or the
request and behind it what gives each host that hears the address the datagrams that fit, in order. -/
theorem envia_primeiro (h : Vizinhos g a b vazios) (n : Nat) (es : List Envio) : ∃ frames,
    (envia (ip_send (eth_poll (n + 1))) b.net_our_ip es a).enviados = frames.reverse ++ a.enviados ∧
      (frames = [] ∧ es.filter (Envio.Cabe ·) = [] ∨
        ∃ l, frames = quadro_pedido a b.net_our_ip :: l ∧ es.filter (Envio.Cabe ·) ≠ [] ∧
          ∀ f r bufs, List.Forall₂ Chega l bufs → bufs.foldl (recebe f) r =
            if Ouve r b.net_our_ip then (es.filter (Envio.Cabe ·)).foldl entrega r else r) := by
  induction es with
  | nil => exact ⟨[], rfl, Or.inl ⟨rfl, rfl⟩⟩
  | cons e es ih =>
    have hcons : envia (ip_send (eth_poll (n + 1))) b.net_our_ip (e :: es) a =
        envia (ip_send (eth_poll (n + 1))) b.net_our_ip es (udp_send (ip_send (eth_poll (n + 1))) a
          b.net_our_ip e.src_port e.dst_port e.data).2 := rfl
    by_cases hc : e.Cabe
    · obtain ⟨u, hu, hout, hmac, hsabe⟩ := udp_send_primeiro h n hc
      have hm : u.mac_addr.length = 6 := by
        rw [hmac]
        exact h.mac_a
      obtain ⟨l, hsent, hrecv⟩ := envia_sabe (eth_poll (n + 1)) h.ip.1 h.ip.2 h.mac_b
        hm hsabe es
      refine ⟨quadro_pedido a b.net_our_ip :: quadro_de a b.mac_addr b.net_our_ip e :: l, ?_, Or.inr
        ⟨_, rfl, ?_, fun f r bufs hf => ?_⟩⟩
      · rw [hcons, hu, hsent, hout]
        simp
      · rw [List.filter_cons_of_pos (by simpa using hc)]
        exact List.cons_ne_nil _ _
      · obtain ⟨buf, bufs, hbuf, hbufs, rfl⟩ := List.forall₂_cons_left_iff.mp hf
        rw [List.foldl_cons, recebe_datagrama h.mac_b h.mac_a hbuf, hrecv f _ _ hbufs,
          List.filter_cons_of_pos (by simpa using hc)]
        exact entrega_se _ _ _ _
    · rw [hcons, udp_send_longo hc, List.filter_cons_of_neg (by simpa using hc)]
      exact ih

end Lei

/-! ## Two datagrams -/

/-- The host 10.0.0.2 with a handler for port 53. -/
def vizinho : Rede := { Rede.inicio (List.replicate 6 7) [] (fun _ => true) with
  net_our_ip := 0x0A000002
  bindings := fun i => if i.val = 0 then ⟨53, 1⟩ else ⟨0, 0⟩ }

/-- A buffer that holds a frame and nothing else. -/
def buffer_de (q : List UInt8) : Netbuf := ⟨memoria q, UInt16.ofNat q.length, 0⟩

theorem chega_buffer_de {q : List UInt8} (h : q.length ≤ 1514) : Chega q (buffer_de q) := by
  refine ⟨rfl, ?_, lies_getD q⟩
  change q.length ≤ (UInt16.ofNat q.length).toNat
  rw [UInt16.toNat_ofNat']
  omega

/-- What the host 10.0.0.1 waits for: a poll without frames, and the answer of 10.0.0.2. -/
def polls_vizinho : List Poll :=
  let pedido := buffer_de (quadro_pedido host 0x0A000002)
  let resposta := buffer_de ((recebe (fun t _ _ _ => (true, t)) vizinho pedido).enviados.headD [])
  [⟨[], 5⟩, ⟨[resposta], 7⟩]

end SpaceOS.Net
