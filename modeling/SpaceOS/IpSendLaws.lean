-- The packet that `ip_send` hands to the card against the packet it was asked to send. The packet
-- lies in a static buffer while the next hop is resolved, and the frames that arrive meanwhile
-- may make the stack send packets of its own.
import SpaceOS.FramePadding
import SpaceOS.WaitRule

open Lib.Bytes Lib.Footprint

namespace SpaceOS.Net

/-! ## Frames that are answered over IP -/

/-- The segment makes its socket send an ACK. -/
def Pede (t : Rede) (g : Segmento) : Prop :=
  ∃ sock, correspondente t g = some sock ∧
    match (t.sockets sock).state with
    | .syn_sent => g.flags &&& (TCP_SYN ||| TCP_ACK) = TCP_SYN ||| TCP_ACK
    | .established =>
      g.flags &&& TCP_RST = 0 ∧ (g.flags &&& TCP_FIN ≠ 0 ∨ g.payload ≠ [])
    | _ => False

/-- The frame carries a segment that is answered. -/
structure Responde (t : Rede) (buf : Netbuf) : Prop where
  inteiro : ETH_HDR_LEN ≤ buf.len.toNat
  tipo : campo16 buf.data (buf.offset.toNat + 12) = ETH_PROTO_IP
  cabe : IP_HDR_LEN ≤ (buf.len - (buf.offset + 14)).toNat
  aceito : Aceito t buf.data (buf.offset + 14).toNat
  protocolo : buf.data ((buf.offset + 14).toNat + 9) = IP_PROTO_TCP
  pede : ∃ g, (segmento buf.len (buf.offset + 14 + 20)).val buf.data = some g ∧ Pede t g

/-- None of the frames is answered, each in the state that it finds. -/
def Calado (ip_send : IpSend) : Rede → List Netbuf → Prop
  | _, [] => True
  | t, buf :: quadros => ¬ Responde t buf ∧ Calado ip_send (recebe ip_send t buf) quadros

/-- A poll that brings no frame that is answered. -/
def PollCalado : Nat → Rede → Prop
  | 0, _ => True
  | n + 1, t => ∀ p polls, t.polls = p :: polls →
    Calado (ip_send (eth_poll n)) { t with polls := polls, ticks := p.ticks } p.quadros

/-- The loop of `arp_resolve` ends before a poll brings a frame that is answered. -/
def EsperaCalada (n : Nat) (ip start ticks_max : UInt32) : Nat → Rede → Prop
  | 0, _ => True
  | k + 1, t => t.ticks - start < ticks_max →
    PollCalado n t ∧ (arp_cache_lookup (eth_poll n t).arp_cache ip = none →
      EsperaCalada n ip start ticks_max k (eth_poll n t))

/-- `ip_send` to the address need not wait, or waits in silence. -/
def Silencio (n : Nat) (t : Rede) (dst_ip : UInt32) : Prop :=
  ¬ (dst_ip = 0xFFFFFFFF ∨ dst_ip = 0) → arp_cache_lookup t.arp_cache (nexthop t dst_ip) = none →
    EsperaCalada n (nexthop t dst_ip) t.ticks 300 t.polls.length
      (arp_send_request t (nexthop t dst_ip))

/-! ## The buffer of the packet -/

section Buffer

variable {f : IpSend} {t : Rede} {g : Segmento}

theorem ip_packet_eth_send (dst_mac : List UInt8) (proto : UInt16) (payload : List UInt8) :
    (eth_send t dst_mac proto payload).2.ip_packet = t.ip_packet := by
  unfold eth_send
  split <;> rfl

theorem ip_packet_trata_arp (pkt : Arp) : (trata_arp t pkt).ip_packet = t.ip_packet := by
  unfold trata_arp
  extract_lets t'
  have ht : t'.ip_packet = t.ip_packet := by
    unfold t'
    split <;> rfl
  split
  · rw [ip_packet_eth_send, ht]
  · exact ht

theorem ip_packet_trata_segmento (h : ¬ Pede t g) :
    (trata_segmento f t g).ip_packet = t.ip_packet := by
  unfold trata_segmento
  rcases hc : correspondente t g with _ | sock
  · rfl
  · have hno : ∀ p : Prop, (p → Pede t g) → ¬ p := fun p hp hx => h (hp hx)
    dsimp only
    rcases hs : (t.sockets sock).state
    · rfl
    · have hf := hno (g.flags &&& (TCP_SYN ||| TCP_ACK) = TCP_SYN ||| TCP_ACK)
        fun hx => ⟨sock, hc, by rw [hs]; exact hx⟩
      change (em_syn_sent f t sock g).ip_packet = _
      unfold em_syn_sent
      rw [if_neg hf]
    · have hf := hno (g.flags &&& TCP_RST = 0 ∧ (g.flags &&& TCP_FIN ≠ 0 ∨ g.payload ≠ []))
        fun hx => ⟨sock, hc, by rw [hs]; exact hx⟩
      change (em_established f t sock g).ip_packet = _
      unfold em_established
      by_cases hr : g.flags &&& TCP_RST = 0
      · have hfin : ¬ g.flags &&& TCP_FIN ≠ 0 := fun hx => hf ⟨hr, Or.inl hx⟩
        have hpay : g.payload = [] := by
          by_contra hx
          exact hf ⟨hr, Or.inr hx⟩
        unfold recebe_payload recebe_fin
        rw [if_neg (not_not.mpr hr), if_pos hpay, if_neg hfin]
      · rw [if_pos hr]
        rfl
    · change (em_fin_wait t sock g).ip_packet = _
      unfold em_fin_wait
      split <;> rfl
    · rfl

/-- The frame carries the segment `g` to the sockets. -/
structure Traz (t : Rede) (buf : Netbuf) (g : Segmento) : Prop where
  inteiro : ETH_HDR_LEN ≤ buf.len.toNat
  tipo : campo16 buf.data (buf.offset.toNat + 12) = ETH_PROTO_IP
  cabe : IP_HDR_LEN ≤ (buf.len - (buf.offset + 14)).toNat
  aceito : Aceito t buf.data (buf.offset + 14).toNat
  protocolo : buf.data ((buf.offset + 14).toNat + 9) = IP_PROTO_TCP
  segmento : (segmento buf.len (buf.offset + 14 + 20)).val buf.data = some g

/-- A frame that carries no segment leaves the sockets and the packet alone. -/
theorem recebe_cases (f : IpSend) (t : Rede) (buf : Netbuf) :
    ((recebe f t buf).sockets = t.sockets ∧ (recebe f t buf).ip_packet = t.ip_packet) ∨
      ∃ g, Traz t buf g ∧ recebe f t buf = trata_segmento f t g := by
  unfold recebe eth_recv
  rw [Reader.val_ite]
  split
  · exact Or.inl ⟨rfl, rfl⟩
  rename_i hlen
  rw [Reader.val_bind]
  dsimp only
  rw [Reader.val_ite]
  split
  · refine Or.inl ⟨(abaixo_arp_recv _ _ _).sockets, ?_⟩
    unfold arp_recv
    rw [Reader.val_bind]
    split
    · rfl
    · exact ip_packet_trata_arp _
  rw [Reader.val_ite]
  split
  · rename_i htipo
    unfold ip_recv
    simp only [Reader.val_ite, Reader.val_bind]
    split
    · exact Or.inl ⟨rfl, rfl⟩
    rename_i hcabe
    split
    · exact Or.inl ⟨rfl, rfl⟩
    rename_i hac
    split
    · refine Or.inl ⟨(abaixo_udp_recv _ _ _).sockets, ?_⟩
      unfold udp_recv
      rw [Reader.val_bind]
      split
      · rfl
      · change (trata_pacote t _).ip_packet = _
        unfold trata_pacote
        split <;> rfl
    split
    · rename_i hproto
      unfold tcp_recv_dispatch
      rw [Reader.val_bind]
      split
      · exact Or.inl ⟨rfl, rfl⟩
      · rename_i g hg
        exact Or.inr ⟨g, ⟨Nat.not_lt.mp hlen, htipo, Nat.not_lt.mp hcabe, not_not.mp hac, hproto,
          hg⟩, rfl⟩
    · exact Or.inl ⟨rfl, rfl⟩
  · exact Or.inl ⟨rfl, rfl⟩

theorem Traz.responde {buf : Netbuf} (h : Traz t buf g) (hp : Pede t g) : Responde t buf :=
  ⟨h.inteiro, h.tipo, h.cabe, h.aceito, h.protocolo, g, h.segmento, hp⟩

/-- A frame that is not answered leaves the packet alone. -/
theorem ip_packet_recebe {buf : Netbuf} (h : ¬ Responde t buf) :
    (recebe f t buf).ip_packet = t.ip_packet := by
  rcases recebe_cases f t buf with ⟨-, hp⟩ | ⟨g, hg, he⟩
  · exact hp
  · rw [he]
    exact ip_packet_trata_segmento fun hp => h (hg.responde hp)

/-! ### The wait -/

theorem quadros_of_calado {quadros : List Netbuf} (h : Calado f t quadros) :
    Quadros (fun t buf => ¬ Responde t buf) f t quadros := by
  induction quadros generalizing t with
  | nil => trivial
  | cons buf quadros ih => exact ⟨h.1, ih h.2⟩

theorem noPoll_of_calado {n : Nat} (h : PollCalado n t) :
    NoPoll (fun t buf => ¬ Responde t buf) n t := by
  cases n with
  | zero => trivial
  | succ n => exact fun p polls hp => quadros_of_calado (h p polls hp)

theorem naEspera_of_calada {n k : Nat} {ip start ticks_max : UInt32}
    (h : EsperaCalada n ip start ticks_max k t) :
    NaEspera (fun t buf => ¬ Responde t buf) n ip start ticks_max k t := by
  induction k generalizing t with
  | zero => trivial
  | succ k ih =>
    exact fun hticks => ⟨noPoll_of_calado (h hticks).1, fun hnone => ih ((h hticks).2 hnone)⟩

theorem ip_packet_ip_destino {n : Nat} {dst_ip : UInt32} (h : Silencio n t dst_ip) :
    (ip_destino (eth_poll n) t dst_ip).2.ip_packet = t.ip_packet := by
  have hI : Invariante (fun t buf => ¬ Responde t buf) fun u => u.ip_packet = t.ip_packet :=
    ⟨fun hP hI => (ip_packet_recebe hP).trans hI, fun hI => hI,
      fun hI => (ip_packet_eth_send _ _ _).trans hI⟩
  exact hI.ip_destino (fun hb hnone => naEspera_of_calada (h hb hnone)) rfl

end Buffer

/-! ## The law -/

theorem length_pacote (t : Rede) (dst_ip : UInt32) (proto : UInt8) (payload : List UInt8) :
    (pacote t dst_ip proto payload).length = IP_HDR_LEN + payload.length := by
  unfold pacote ip_header
  simp [IP_HDR_LEN]
  omega

/-- Where no frame that is answered arrives while the next hop is resolved, the packet handed to
`eth_send` is the one that was built. -/
theorem the_packet_sent_is_the_packet_built {n : Nat} {t t' : Rede} {dst_ip : UInt32}
    {proto : UInt8} {payload dst_mac : List UInt8} (hlen : payload.length + IP_HDR_LEN ≤ 1480)
    (hd : ip_destino (eth_poll n) (ip_monta t dst_ip proto payload) dst_ip = (some dst_mac, t'))
    (hs : Silencio n (ip_monta t dst_ip proto payload) dst_ip) :
    ip_send (eth_poll n) t dst_ip proto payload =
      eth_send t' dst_mac ETH_PROTO_IP (pacote t dst_ip proto payload) := by
  have hp := ip_packet_ip_destino hs
  rw [hd] at hp
  have hpacket : t'.ip_packet = copia t.ip_packet 0 (pacote t dst_ip proto payload) := hp
  unfold ip_send
  rw [if_neg (by omega), hd]
  dsimp only
  rw [hpacket, ← length_pacote t dst_ip proto payload, trecho_copia]

/-! ## An answer during the wait -/

/-- The ARP reply of 10.0.0.2. -/
def quadro_arp : List UInt8 :=
  List.replicate 12 0 ++ [0x08, 0x06] ++ [0, 1, 8, 0, 6, 4, 0, 2] ++ List.replicate 6 7 ++
    [10, 0, 0, 2] ++ List.replicate 6 2 ++ [10, 0, 0, 1]

/-- A segment of one byte from 10.0.0.2. -/
def quadro_dados : List UInt8 :=
  cabecalho_eth ++ [0x45, 0, 0, 41, 0, 0, 0, 0, 64, 6, 0x66, 0xCD, 10, 0, 0, 2, 10, 0, 0, 1] ++
    [0, 80, 0xC0, 0, 0, 0, 0, 1, 0, 0, 0, 0, 0x50, 0x10, 8, 0, 0, 0, 0, 0] ++ [65]

/-- The connected host, whose first poll brings the frames. -/
def host_com (quadros : List Netbuf) : Rede := { host_conectado with
  net_gateway_ip := 0x0A000002
  polls := [⟨quadros, 0⟩] }

/-- The ARP reply alone is no answer. -/
theorem a_wait_for_the_reply_alone : ∃ t',
    ip_send (eth_poll 1) (host_com [⟨memoria quadro_arp, 42, 0⟩]) 0x0A000002 IP_PROTO_UDP [1] =
      eth_send t' (List.replicate 6 7) ETH_PROTO_IP
        (pacote (host_com [⟨memoria quadro_arp, 42, 0⟩]) 0x0A000002 IP_PROTO_UDP [1]) := by
  refine ⟨_, the_packet_sent_is_the_packet_built (by decide) (Prod.ext (by decide) rfl) ?_⟩
  refine fun _ _ _ => ⟨?_, fun hnone => absurd hnone (by decide)⟩
  intro p polls hp
  obtain ⟨rfl, rfl⟩ := List.cons.inj hp
  refine ⟨fun hr => ?_, trivial⟩
  exact absurd hr.tipo (by decide)

/-- The ACK of a segment that arrives with the ARP reply is sent in the place of the packet. -/
theorem an_ack_overwrites_the_packet : ¬ ∀ n t dst_ip proto payload dst_mac t',
    payload.length + IP_HDR_LEN ≤ 1480 →
    ip_destino (eth_poll n) (ip_monta t dst_ip proto payload) dst_ip = (some dst_mac, t') →
      ip_send (eth_poll n) t dst_ip proto payload =
        eth_send t' dst_mac ETH_PROTO_IP (pacote t dst_ip proto payload) := by
  intro h
  let t := host_com [⟨memoria quadro_arp, 42, 0⟩, ⟨memoria quadro_dados, 55, 0⟩]
  have hsent := h 1 t 0x0A000002 IP_PROTO_UDP [1] (List.replicate 6 7) _ (by decide)
    (Prod.ext (by decide) rfl)
  -- the protocol byte of the frame that went out last
  have hproto := congrArg (fun r => (r.2.enviados.headD []).getD 23 0) hsent
  have hack : ((ip_send (eth_poll 1) t 0x0A000002 IP_PROTO_UDP [1]).2.enviados.headD []).getD 23 0 =
      IP_PROTO_TCP := by decide
  exact absurd (hack.symm.trans hproto) (by decide)

end SpaceOS.Net
