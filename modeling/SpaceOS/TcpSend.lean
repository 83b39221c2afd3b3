-- What `tcp_send` puts into the static buffer of the segment, and what becomes of the data. The
-- one check of the size is that of `ip_send`, on the length in 16 bits.
import SpaceOS.Checksums
import SpaceOS.TcpIsolation

open Lib.Bytes Lib.Footprint

namespace SpaceOS.Net

/-- `sizeof(tcp_out)`. -/
def TCP_OUT_SIZE : Nat := 1500

/-! ## The buffer -/

/-- `tcp_out` as `tcp_send_segment` leaves it. -/
def tcp_out_montado (t : Rede) (sock : Indice) (flags : UInt8) (data : List UInt8) : Memory :=
  let s := t.sockets sock
  let out := copia (copia t.tcp_out 0 (tcp_header s flags 0)) TCP_HDR_LEN data
  let seg_len := UInt16.ofNat (TCP_HDR_LEN + data.length)
  copia out 16 (bytes16 (tcp_checksum t.net_our_ip s.remote_ip (trecho out seg_len.toNat) seg_len))

/-- Whatever lies behind `tcp_out`, `tcp_send_segment` leaves it alone. -/
def SoNoBuffer (t : Rede) (sock : Indice) (flags : UInt8) (data : List UInt8) : Prop :=
  ∀ (m : Memory) (i : Nat), TCP_OUT_SIZE ≤ i →
    tcp_out_montado { t with tcp_out := m } sock flags data i = m i

section Buffer

variable {f : IpSend} {t : Rede} {sock : Indice} {flags : UInt8} {data : List UInt8}

theorem tcp_send_segment_eq : tcp_send_segment f t sock flags data =
    f { t with tcp_out := tcp_out_montado t sock flags data } (t.sockets sock).remote_ip
      IP_PROTO_TCP (segmento_tcp t sock flags data) := rfl

theorem length_tcp_header (s : Socket) (c : UInt16) :
    (tcp_header s flags c).length = TCP_HDR_LEN := by
  simp [tcp_header, TCP_HDR_LEN]

/-- The data is copied to its end, so that no more than 1480 bytes fit. -/
theorem soNoBuffer_iff : SoNoBuffer t sock flags data ↔ data.length ≤ 1480 := by
  have hout : ∀ (m : Memory) (i : Nat), TCP_OUT_SIZE ≤ i →
      tcp_out_montado { t with tcp_out := m } sock flags data i = copia m TCP_HDR_LEN data i := by
    intro m i hi
    have hi' : 1500 ≤ i := hi
    unfold tcp_out_montado
    dsimp only
    rw [copia_fora (by simp; omega)]
    by_cases hd : i - TCP_HDR_LEN < data.length
    · have ha : TCP_HDR_LEN ≤ i := by unfold TCP_HDR_LEN; omega
      rw [copia_dentro ha hd, copia_dentro ha hd]
    · have hf : TCP_HDR_LEN + data.length ≤ i := by unfold TCP_HDR_LEN at hd ⊢; omega
      rw [copia_fora hf, copia_fora hf, copia_fora (by rw [length_tcp_header]; omega)]
  constructor
  · intro h
    by_contra hd
    have ha : TCP_HDR_LEN ≤ TCP_OUT_SIZE := by decide
    have hlt : TCP_OUT_SIZE - TCP_HDR_LEN < data.length := by
      change 1480 < data.length
      omega
    have hm := h (fun _ => data[TCP_OUT_SIZE - TCP_HDR_LEN] + 1) TCP_OUT_SIZE (Nat.le_refl _)
    rw [hout _ _ (Nat.le_refl _), copia_dentro ha hlt] at hm
    exact absurd hm (by simp)
  · intro h m i hi
    rw [hout m i hi]
    refine copia_fora ?_
    have hi' : 1500 ≤ i := hi
    unfold TCP_HDR_LEN
    omega

end Buffer

/-! ## The frames that arrive meanwhile -/

/-- The segment is answered, or changes socket `sock`. -/
def Toca (t : Rede) (sock : Indice) (g : Segmento) : Prop :=
  Pede t g ∨ (Atua t g ∧ correspondente t g = some sock)

/-- The frame carries no such segment. -/
def Alheio (sock : Indice) (t : Rede) (buf : Netbuf) : Prop := ∀ g, Traz t buf g → ¬ Toca t sock g

section Alheio

variable {f : IpSend} {t : Rede} {sock : Indice}

theorem sockets_trata_segmento {g : Segmento} (h : ¬ Toca t sock g) :
    (trata_segmento f t g).sockets sock = t.sockets sock := by
  by_cases ha : Atua t g
  · unfold trata_segmento
    rcases hc : correspondente t g with _ | j
    · rfl
    have hj : sock ≠ j := by
      rintro rfl
      exact h (Or.inr ⟨ha, hc⟩)
    have hno : ∀ p : Prop, (p → Pede t g) → ¬ p := fun p hp hx => h (Or.inl (hp hx))
    dsimp only
    rcases hs : (t.sockets j).state
    · rfl
    · have hf := hno (g.flags &&& (TCP_SYN ||| TCP_ACK) = TCP_SYN ||| TCP_ACK)
        fun hx => ⟨j, hc, by rw [hs]; exact hx⟩
      change (em_syn_sent f t j g).sockets sock = _
      unfold em_syn_sent
      rw [if_neg hf]
    · have hf := hno (g.flags &&& TCP_RST = 0 ∧ (g.flags &&& TCP_FIN ≠ 0 ∨ g.payload ≠ []))
        fun hx => ⟨j, hc, by rw [hs]; exact hx⟩
      change (em_established f t j g).sockets sock = _
      unfold em_established
      by_cases hr : g.flags &&& TCP_RST = 0
      · have hpay : g.payload = [] := by
          by_contra hx
          exact hf ⟨hr, Or.inr hx⟩
        unfold recebe_payload recebe_fin
        rw [if_neg (not_not.mpr hr), if_pos hpay, if_neg fun hx => hf ⟨hr, Or.inl hx⟩]
      · rw [if_pos hr, sockets_muda_ne _ hj]
    · change (em_fin_wait t j g).sockets sock = _
      unfold em_fin_wait
      split
      · rw [sockets_muda_ne _ hj]
      · rfl
    · rfl
  · rw [trata_segmento_parado ha]

/-- Such a frame leaves the socket and the packet alone. -/
theorem recebe_alheio {buf : Netbuf} (h : Alheio sock t buf) :
    (recebe f t buf).sockets sock = t.sockets sock ∧ (recebe f t buf).ip_packet = t.ip_packet := by
  rcases recebe_cases f t buf with ⟨hs, hp⟩ | ⟨g, hg, he⟩
  · exact ⟨by rw [hs], hp⟩
  · have hno := h g hg
    rw [he]
    exact ⟨sockets_trata_segmento hno, ip_packet_trata_segmento fun hp => hno (Or.inl hp)⟩

/-- So does the wait for an address that brings such frames alone. -/
theorem ip_destino_alheio {n : Nat} {dst_ip : UInt32} (h : AoResolver (Alheio sock) n t dst_ip) :
    (ip_destino (eth_poll n) t dst_ip).2.sockets sock = t.sockets sock ∧
      (ip_destino (eth_poll n) t dst_ip).2.ip_packet = t.ip_packet := by
  have hI : Invariante (Alheio sock) fun u =>
      u.sockets sock = t.sockets sock ∧ u.ip_packet = t.ip_packet := by
    refine ⟨fun hP hI => ?_, fun hI => hI, fun hI => ?_⟩
    · obtain ⟨hs, hp⟩ := recebe_alheio hP
      exact ⟨hs.trans hI.1, hp.trans hI.2⟩
    · rw [sockets_eth_send, ip_packet_eth_send]
      exact hI
  exact hI.ip_destino h ⟨rfl, rfl⟩

end Alheio

/-! ## All or nothing -/

/-- The flags of `tcp_send`. -/
def FLAGS_DADOS : UInt8 := TCP_ACK ||| TCP_PSH

/-- The stack when `tcp_send` has the segment in its packet, and resolves the next hop. -/
def tcp_send_monta (t : Rede) (sock : Indice) (data : List UInt8) : Rede :=
  ip_monta { t with tcp_out := tcp_out_montado t sock FLAGS_DADOS data } (t.sockets sock).remote_ip
    IP_PROTO_TCP (segmento_tcp t sock FLAGS_DADOS data)

/-- The frame carries `data` on the connection of `s`, from its next sequence number on. -/
def Carrega (t : Rede) (s : Socket) (frame data : List UInt8) : Prop :=
  ∃ (dst_mac src_mac : List UInt8) (id : UInt16) (flags : UInt8),
    frame = quadro dst_mac src_mac ETH_PROTO_IP
      (pacote { t with ip_id_counter := id } s.remote_ip IP_PROTO_TCP
        (tcp_header s flags (tcp_checksum t.net_our_ip s.remote_ip (tcp_header s flags 0 ++ data)
          (UInt16.ofNat (TCP_HDR_LEN + data.length))) ++ data))

/-- The frames carry `data`, one after the other. -/
def Carregam (t : Rede) : Socket → List (List UInt8) → List UInt8 → Prop
  | _, [], data => data = []
  | s, frame :: frames, data => ∃ parte resto, data = parte ++ resto ∧ Carrega t s frame parte ∧
    Carregam t { s with seq_num := s.seq_num + UInt32.ofNat parte.length } frames resto

/-- The frames that went out from `t` to `t'`, oldest first. -/
def enviados_desde (t t' : Rede) : List (List UInt8) :=
  (t'.enviados.take (t'.enviados.length - t.enviados.length)).reverse

/-- What a send of `data` has returned and left: -1 and the socket as it was, or frames that carry
the data among those sent, and a sequence number behind them. -/
def TudoOuNada (t : Rede) (sock : Indice) (data : List UInt8) (r : Int × Rede) : Prop :=
  (r.1 = -1 ∧ r.2.sockets sock = t.sockets sock) ∨
    ∃ frames, frames ≠ [] ∧ frames.Sublist (enviados_desde t r.2) ∧
      Carregam t (t.sockets sock) frames data ∧
      (r.2.sockets sock).seq_num = (t.sockets sock).seq_num + UInt32.ofNat data.length

section Lei

variable {n : Nat} {t : Rede} {sock : Indice} {data : List UInt8}

theorem length_segmento_tcp {flags : UInt8} :
    (segmento_tcp t sock flags data).length = (TCP_HDR_LEN + data.length) % 65536 :=
  length_trecho _ _

/-- From 65516 bytes on, less than a header is sent. -/
theorem length_segmento_tcp_longo {flags : UInt8} (h : 65516 ≤ data.length)
    (hd : data.length < 65536) : (segmento_tcp t sock flags data).length = data.length - 65516 := by
  rw [length_segmento_tcp]
  unfold TCP_HDR_LEN
  omega

/-- The frame of a send that has not failed. -/
theorem carregam_um (dst_mac src_mac : List UInt8) (out : Memory) (h : data.length ≤ 1460) :
    Carregam t (t.sockets sock) [quadro dst_mac src_mac ETH_PROTO_IP
      (pacote { t with tcp_out := out } (t.sockets sock).remote_ip IP_PROTO_TCP
        (segmento_tcp t sock FLAGS_DADOS data))] data := by
  refine ⟨data, [], (List.append_nil data).symm, ?_, rfl⟩
  refine ⟨dst_mac, src_mac, t.ip_id_counter, FLAGS_DADOS, ?_⟩
  rw [segmento_tcp_eq h]
  rfl

theorem mem_enviados_desde {u : Rede} {frame : List UInt8} (h : Cresce t u) {t' : Rede}
    (ht : t'.enviados = frame :: u.enviados) : frame ∈ enviados_desde t t' := by
  unfold enviados_desde
  obtain ⟨k, hk⟩ : ∃ k, (frame :: u.enviados).length - t.enviados.length = k + 1 :=
    ⟨u.enviados.length - t.enviados.length, by
      have h' : t.enviados.length ≤ u.enviados.length := h
      rw [List.length_cons]
      omega⟩
  rw [ht, hk, List.take_succ_cons, List.mem_reverse]
  exact List.mem_cons_self

/-- A send of data that fits. -/
theorem tudoOuNada_tcp_send (hd : data.length ≤ 1480)
    (hq : AoResolver (Alheio sock) n (tcp_send_monta t sock data) (t.sockets sock).remote_ip) :
    TudoOuNada t sock data (tcp_send (ip_send (eth_poll n)) t sock data) := by
  have hlen : (segmento_tcp t sock FLAGS_DADOS data).length = TCP_HDR_LEN + data.length := by
    rw [length_segmento_tcp]
    unfold TCP_HDR_LEN
    omega
  obtain ⟨hsock, hpacket⟩ := ip_destino_alheio hq
  have hcresce := andamento_cresce.ip_destino (andamento_cresce.eth_poll n)
    (tcp_send_monta t sock data) (t.sockets sock).remote_ip
  unfold tcp_send
  split
  · exact Or.inl ⟨rfl, rfl⟩
  rw [show TCP_ACK ||| TCP_PSH = FLAGS_DADOS from rfl, tcp_send_segment_eq]
  unfold ip_send
  by_cases hbig : (segmento_tcp t sock FLAGS_DADOS data).length + IP_HDR_LEN > 1480
  · rw [if_pos hbig]
    exact Or.inl ⟨rfl, rfl⟩
  rw [if_neg hbig, ← tcp_send_monta]
  rcases hdest : ip_destino (eth_poll n) (tcp_send_monta t sock data) (t.sockets sock).remote_ip
    with ⟨_ | dst_mac, u⟩
  · rw [hdest] at hsock
    exact Or.inl ⟨rfl, hsock⟩
  rw [hdest] at hsock hpacket hcresce
  dsimp only at hsock hpacket hcresce ⊢
  have hframe : trecho u.ip_packet (IP_HDR_LEN + (segmento_tcp t sock FLAGS_DADOS data).length) =
      pacote { t with tcp_out := tcp_out_montado t sock FLAGS_DADOS data }
        (t.sockets sock).remote_ip IP_PROTO_TCP (segmento_tcp t sock FLAGS_DADOS data) := by
    rw [hpacket, ← length_pacote]
    exact trecho_copia _ _
  rw [hframe]
  unfold eth_send
  rw [if_neg (by rw [length_pacote]; omega)]
  cases u.tok u.enviados.length with
  | false => exact Or.inl ⟨rfl, hsock⟩
  | true =>
    rw [hlen] at hbig
    have h1460 : data.length ≤ 1460 := by
      unfold TCP_HDR_LEN at hbig
      omega
    refine Or.inr ⟨_, List.cons_ne_nil _ _, ?_, carregam_um dst_mac u.mac_addr
      (tcp_out_montado t sock FLAGS_DADOS data) h1460, ?_⟩
    · exact List.singleton_sublist.mpr (mem_enviados_desde hcresce rfl)
    · dsimp only
      rw [sockets_muda_self, hsock]
      rfl

/-- The connected host, with the address of its peer in its cache. -/
def host_vizinho : Rede := { host_conectado with
  arp_cache := fun _ => ⟨0x0A000002, List.replicate 6 7, true⟩ }

end Lei

end SpaceOS.Net
