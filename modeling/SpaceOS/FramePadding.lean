-- Frames with bytes after the end of their datagram, as Ethernet pads short ones. The same
-- datagram is received with and without them, and what the sockets and the handlers see is
-- compared.
import SpaceOS.FrameReads
import SpaceOS.TcpRun

open Lib.Bytes Lib.Footprint Lib.RingQueue

namespace SpaceOS.Net

/-! ## What a segment can do -/

/-- The payload of the segment is taken: its socket is connected and it is no reset. -/
def Armazena (t : Rede) (g : Segmento) : Prop :=
  ∃ sock, correspondente t g = some sock ∧ (t.sockets sock).state = .established ∧
    g.flags &&& TCP_RST = 0

/-- The segment changes its socket. -/
def Atua (t : Rede) (g : Segmento) : Prop :=
  ∃ sock, correspondente t g = some sock ∧
    match (t.sockets sock).state with
    | .syn_sent => g.flags &&& (TCP_SYN ||| TCP_ACK) = TCP_SYN ||| TCP_ACK
    | .established => g.flags &&& TCP_RST ≠ 0 ∨ g.flags &&& TCP_FIN ≠ 0 ∨ g.payload ≠ []
    | .fin_wait => g.flags &&& (TCP_ACK ||| TCP_FIN) ≠ 0
    | _ => False

section Segmentos

variable {ip_send : IpSend} {t : Rede} {g g' : Segmento}

/-- A segment that changes no socket changes nothing. -/
theorem trata_segmento_parado (h : ¬ Atua t g) : trata_segmento ip_send t g = t := by
  unfold trata_segmento
  rcases hc : correspondente t g with _ | sock
  · rfl
  · have hno : ∀ p : Prop, (p → Atua t g) → ¬ p := fun p hp hx => h (hp hx)
    dsimp only
    rcases hs : (t.sockets sock).state
    · rfl
    · have hf := hno (g.flags &&& (TCP_SYN ||| TCP_ACK) = TCP_SYN ||| TCP_ACK)
        fun hx => ⟨sock, hc, by rw [hs]; exact hx⟩
      exact if_neg hf
    · have hf := hno (g.flags &&& TCP_RST ≠ 0 ∨ g.flags &&& TCP_FIN ≠ 0 ∨ g.payload ≠ [])
        fun hx => ⟨sock, hc, by rw [hs]; exact hx⟩
      have hpay : g.payload = [] := by
        by_contra hx
        exact hf (Or.inr (Or.inr hx))
      change em_established ip_send t sock g = t
      unfold em_established recebe_payload recebe_fin
      rw [if_neg fun hx => hf (Or.inl hx), if_pos hpay,
        if_neg fun hx => hf (Or.inr (Or.inl hx))]
    · have hf := hno (g.flags &&& (TCP_ACK ||| TCP_FIN) ≠ 0)
        fun hx => ⟨sock, hc, by rw [hs]; exact hx⟩
      exact if_neg hf
    · rfl

/-- The segments differ in their payloads alone. -/
structure MenosPayload (g g' : Segmento) : Prop where
  src_port : g'.src_port = g.src_port
  dst_port : g'.dst_port = g.dst_port
  flags : g'.flags = g.flags
  seq : g'.seq = g.seq

theorem MenosPayload.correspondente (h : MenosPayload g g') :
    correspondente t g' = correspondente t g := by
  unfold Net.correspondente
  rw [h.dst_port, h.src_port]

/-- Where the payload is not taken, it makes no difference. -/
theorem trata_segmento_payload (h : MenosPayload g g') (ha : ¬ Armazena t g) :
    trata_segmento ip_send t g' = trata_segmento ip_send t g := by
  unfold trata_segmento
  rw [h.correspondente]
  rcases hc : correspondente t g with _ | sock
  · rfl
  · dsimp only
    rcases hs : (t.sockets sock).state
    · rfl
    · change em_syn_sent ip_send t sock g' = em_syn_sent ip_send t sock g
      unfold em_syn_sent
      rw [h.flags, h.seq]
    · have hrst : g.flags &&& TCP_RST ≠ 0 := fun hz => ha ⟨sock, hc, hs, hz⟩
      change em_established ip_send t sock g' = em_established ip_send t sock g
      unfold em_established
      rw [h.flags, if_pos hrst, if_pos hrst]
    · change em_fin_wait t sock g' = em_fin_wait t sock g
      unfold em_fin_wait
      rw [h.flags]
    · rfl

end Segmentos

/-! ## Without polls to come

Where the schedule is empty, a send waits for nothing, and the sockets are those that the segment
itself leaves. -/

section SemPolls

variable (eth_poll : Rede → Rede) {t : Rede} {sock : Indice} {g : Segmento}

theorem eth_send_polls (dst_mac : List UInt8) (proto : UInt16) (payload : List UInt8) :
    (eth_send t dst_mac proto payload).2.polls = t.polls := by
  unfold eth_send
  split <;> rfl

theorem ip_destino_sem_polls (h : t.polls = []) (dst_ip : UInt32) :
    (ip_destino eth_poll t dst_ip).2.sockets = t.sockets ∧
      (ip_destino eth_poll t dst_ip).2.polls = [] := by
  unfold ip_destino
  split
  · exact ⟨rfl, h⟩
  · unfold arp_resolve
    split
    · exact ⟨rfl, h⟩
    · have hp : (arp_send_request t (nexthop t dst_ip)).polls = [] :=
        (eth_send_polls _ _ _).trans h
      have hs : (arp_send_request t (nexthop t dst_ip)).sockets = t.sockets :=
        sockets_eth_send _ _ _
      dsimp only
      rw [hp]
      exact ⟨hs, hp⟩

theorem ip_send_sem_polls (h : t.polls = []) (dst_ip : UInt32) (proto : UInt8)
    (payload : List UInt8) :
    (ip_send eth_poll t dst_ip proto payload).2.sockets = t.sockets ∧
      (ip_send eth_poll t dst_ip proto payload).2.polls = [] := by
  have hd := ip_destino_sem_polls eth_poll
    (show (ip_monta t dst_ip proto payload).polls = [] from h) dst_ip
  have hm : (ip_monta t dst_ip proto payload).sockets = t.sockets := rfl
  unfold ip_send
  split
  · exact ⟨rfl, h⟩
  · split
    · rename_i he
      rw [he, hm] at hd
      exact hd
    · rename_i he
      rw [he, hm] at hd
      rw [sockets_eth_send, eth_send_polls]
      exact hd

theorem responde_ack_sem_polls (h : t.polls = []) (sock : Indice) :
    (responde_ack (ip_send eth_poll) t sock).sockets = t.sockets ∧
      (responde_ack (ip_send eth_poll) t sock).polls = [] := by
  unfold responde_ack tcp_send_segment
  dsimp only
  exact ip_send_sem_polls eth_poll (by exact h) _ _ _

/-- What a FIN adds to `ack_num`. -/
def passo_fin (g : Segmento) : UInt32 := if g.flags &&& TCP_FIN ≠ 0 then 1 else 0

theorem recebe_fin_sem_polls (h : t.polls = []) (sock : Indice) (g : Segmento) :
    ((recebe_fin (ip_send eth_poll) t sock g).sockets sock).ack_num =
      (t.sockets sock).ack_num + passo_fin g ∧
    (recebe_fin (ip_send eth_poll) t sock g).polls = [] := by
  unfold recebe_fin passo_fin
  split
  · obtain ⟨hs, hp⟩ := responde_ack_sem_polls eth_poll
      (t := t.muda sock fun s => { s with ack_num := s.ack_num + 1, state := .close_wait }) h sock
    rw [hs, sockets_muda_self]
    exact ⟨rfl, hp⟩
  · exact ⟨(UInt32.add_zero _).symm, h⟩

/-- A payload that is taken is acknowledged. -/
theorem ack_num_armazena (h : t.polls = []) (hc : correspondente t g = some sock)
    (hs : (t.sockets sock).state = .established) (hr : g.flags &&& TCP_RST = 0) :
    ((trata_segmento (ip_send eth_poll) t g).sockets sock).ack_num =
      (t.sockets sock).ack_num + passo_fin g + UInt32.ofNat g.payload.length := by
  have he : trata_segmento (ip_send eth_poll) t g = em_established (ip_send eth_poll) t sock g := by
    unfold trata_segmento
    rw [hc]
    dsimp only
    rw [hs]
  obtain ⟨hack, hp⟩ := recebe_fin_sem_polls eth_poll h sock g
  rw [he]
  unfold em_established
  rw [if_neg (not_not.mpr hr)]
  unfold recebe_payload
  split
  · rename_i hnil
    rw [hack, hnil]
    exact (UInt32.add_zero _).symm
  · rw [(responde_ack_sem_polls eth_poll _ _).1]
    · rw [sockets_muda_self]
      dsimp only
      rw [hack]
    · exact hp

/-- A FIN or a payload moves `ack_num`. -/
theorem passo_fin_add_ne_zero (h : g.flags &&& TCP_FIN ≠ 0 ∨ g.payload ≠ [])
    (hl : g.payload.length < 65536) : passo_fin g + UInt32.ofNat g.payload.length ≠ 0 := by
  intro hz
  have hn := congrArg UInt32.toNat hz
  rw [UInt32.toNat_add, UInt32.toNat_ofNat'] at hn
  by_cases hf : g.flags &&& TCP_FIN ≠ 0
  · have h1 : (passo_fin g).toNat = 1 := by
      unfold passo_fin
      rw [if_pos hf]
      rfl
    rw [h1] at hn
    change (1 + g.payload.length % 2 ^ 32) % 2 ^ 32 = 0 at hn
    omega
  · have h0 : (passo_fin g).toNat = 0 := by
      unfold passo_fin
      rw [if_neg hf]
      rfl
    have hpos := List.length_pos_iff.mpr (h.resolve_left hf)
    rw [h0] at hn
    change (0 + g.payload.length % 2 ^ 32) % 2 ^ 32 = 0 at hn
    omega

theorem state_ne {s s' : Socket} (h : s'.state ≠ s.state) : s' ≠ s := fun he => h (by rw [he])

/-- A segment that changes its socket leaves other sockets than it found. -/
theorem sockets_atua (h : t.polls = []) (ha : Atua t g) (hl : g.payload.length < 65536) :
    (trata_segmento (ip_send eth_poll) t g).sockets ≠ t.sockets := by
  obtain ⟨sock, hc, hst⟩ := ha
  have hsock : (trata_segmento (ip_send eth_poll) t g).sockets sock ≠ t.sockets sock := by
    unfold trata_segmento
    rw [hc]
    dsimp only
    rcases hs : (t.sockets sock).state
    · rw [hs] at hst
      exact hst.elim
    · rw [hs] at hst
      change (em_syn_sent (ip_send eth_poll) t sock g).sockets sock ≠ _
      unfold em_syn_sent
      rw [if_pos hst, (responde_ack_sem_polls eth_poll (by exact h) _).1, sockets_muda_self]
      exact state_ne (by rw [hs]; simp)
    · rw [hs] at hst
      by_cases hr : g.flags &&& TCP_RST = 0
      · have hack := ack_num_armazena eth_poll h hc hs hr
        have hne := passo_fin_add_ne_zero (hst.resolve_left (not_not.mpr hr)) hl
        unfold trata_segmento at hack
        rw [hc] at hack
        dsimp only at hack
        rw [hs] at hack
        intro he
        rw [he, UInt32.add_assoc] at hack
        exact hne (by simpa using hack.symm)
      · change (em_established (ip_send eth_poll) t sock g).sockets sock ≠ _
        unfold em_established
        rw [if_pos hr, sockets_muda_self]
        exact state_ne (by rw [hs]; simp)
    · rw [hs] at hst
      change (em_fin_wait t sock g).sockets sock ≠ _
      unfold em_fin_wait
      rw [if_pos hst, sockets_muda_self]
      exact state_ne (by rw [hs]; simp)
    · rw [hs] at hst
      exact hst.elim
  exact fun he => hsock (by rw [he])

end SemPolls

/-! ## A frame and its padded copy -/

/-- `len` bytes of a frame are an Ethernet header and a datagram, and the frame of `len'` bytes has
more after them. -/
structure Acolchoado (len len' : UInt16) (m m' : Memory) : Prop where
  cabe : 34 ≤ len.toNat
  maior : len.toNat < len'.toNat
  igual : ∀ a < len.toNat, m' a = m a

/-- Whatever the polls of a send bring, the two frames leave the same sockets and the same calls
of handlers. -/
def MesmoTransporte (t : Rede) (len len' : UInt16) (m m' : Memory) : Prop :=
  ∀ n polls,
    ((ip_recv (ip_send (eth_poll n)) { t with polls := polls } len' 14).val m').sockets =
      ((ip_recv (ip_send (eth_poll n)) { t with polls := polls } len 14).val m).sockets ∧
    ((ip_recv (ip_send (eth_poll n)) { t with polls := polls } len' 14).val m').datagramas =
      ((ip_recv (ip_send (eth_poll n)) { t with polls := polls } len 14).val m).datagramas

/-- The padding is no concern of the transport: UDP for a bound port reads the same from both
frames, a segment with a whole header is not stored, and one whose header ends in the padding
changes no socket. -/
def Neutro (t : Rede) (len len' : UInt16) (m m' : Memory) : Prop :=
  Aceito t m 14 →
    (m 23 = IP_PROTO_UDP → ∀ p, (pacote_udp len' 34).val m' = some p →
      handler_de t p.dst_port ≠ none → (pacote_udp len 34).val m = some p) ∧
    (m 23 = IP_PROTO_TCP →
      (54 ≤ len.toNat → ∀ g, (segmento len 34).val m = some g → ¬ Armazena t g) ∧
      (len.toNat < 54 → ∀ g, (segmento len' 34).val m' = some g → ¬ Atua t g))

section Leitura

variable {ip_send : IpSend} {t : Rede} {len len' : UInt16} {m m' : Memory}

theorem val_ip_recv (h : 34 ≤ len.toNat) : (ip_recv ip_send t len 14).val m =
    if ¬ Aceito t m 14 then t
    else if m 23 = IP_PROTO_UDP then (udp_recv t len 34).val m
    else if m 23 = IP_PROTO_TCP then (tcp_recv_dispatch ip_send t len 34).val m
    else t := by
  have h14 : (14 : UInt16).toNat ≤ len.toNat := Nat.le_trans (by decide) h
  have hs : ¬ (len - 14).toNat < IP_HDR_LEN := by
    rw [toNat_avail h14]
    change ¬ len.toNat - 14 < 20
    omega
  unfold ip_recv
  dsimp only
  rw [if_neg hs]
  simp only [Reader.val_bind, Reader.val_ite, Reader.val_pure]
  rfl

theorem Acolchoado.aceito (h : Acolchoado len len' m m') : Aceito t m' 14 ↔ Aceito t m 14 := by
  have hhdr : ((List.range IP_HDR_LEN).map fun i => m' (14 + i)) =
      (List.range IP_HDR_LEN).map fun i => m (14 + i) := by
    refine List.map_congr_left fun i hi => h.igual _ ?_
    have hlt : i < 20 := List.mem_range.mp hi
    have := h.cabe
    omega
  have hw : word m' (14 + 16) = word m (14 + 16) := word_congr fun i _ hi => h.igual i (by
    have := h.cabe
    omega)
  unfold Aceito
  rw [hhdr, hw]

theorem toNat_avail_34 (h : 34 ≤ len.toNat) : (len - 34).toNat = len.toNat - 34 :=
  toNat_avail (show (34 : UInt16).toNat ≤ len.toNat from h)

/-- The segment that follows an IP header. -/
theorem val_segmento (h : 54 ≤ len.toNat) : (segmento len 34).val m = some
    ⟨campo16 m 34, campo16 m 36, m 47, ntohl (UInt32.ofNat (word m 38)),
      ntohl (UInt32.ofNat (word m 42)),
      (List.range (len - 34 - (hdr_len (m 46)).toUInt16).toNat).map fun i =>
        m (34 + (hdr_len (m 46)).toNat + i),
      ntohl (UInt32.ofNat (word m 26))⟩ := by
  have hs : ¬ (len - 34).toNat < TCP_HDR_LEN := by
    rw [toNat_avail_34 (by omega)]
    change ¬ len.toNat - 34 < 20
    omega
  unfold segmento
  dsimp only
  rw [if_neg hs]
  rfl

theorem payload_segmento {g : Segmento} (h : (segmento len 34).val m = some g) :
    g.payload.length < 65536 := by
  unfold segmento at h
  dsimp only at h
  split at h
  · cases h
  · obtain rfl := Option.some.inj h
    simpa using UInt16.toNat_lt _

theorem val_segmento_none (h : 34 ≤ len.toNat) (hlt : len.toNat < 54) :
    (segmento len 34).val m = none := by
  have hs : (len - 34).toNat < TCP_HDR_LEN := by
    rw [toNat_avail_34 h]
    change len.toNat - 34 < 20
    omega
  unfold segmento
  dsimp only
  rw [if_pos hs]
  rfl

/-- The padding goes into the payload of the segment, which is then of another length. -/
theorem Acolchoado.segmento (h : Acolchoado len len' m m') (h54 : 54 ≤ len.toNat) :
    ∃ g g', (segmento len 34).val m = some g ∧ (segmento len' 34).val m' = some g' ∧
      MenosPayload g g' ∧ g.payload.length < 65536 ∧ g'.payload.length < 65536 ∧
      g'.payload.length ≠ g.payload.length := by
  have hlt := h.maior
  have hhalf : ∀ a, a + 2 ≤ 54 → campo16 m' a = campo16 m a := by
    intro a ha
    unfold campo16
    rw [half_congr fun i _ hi => h.igual i (by omega)]
  have hword : word m' 38 = word m 38 := word_congr fun i _ hi => h.igual i (by omega)
  have hbyte : ∀ a < 54, m' a = m a := fun a ha => h.igual a (by omega)
  refine ⟨_, _, val_segmento h54, val_segmento (by omega), ⟨?_, ?_, ?_, ?_⟩, ?_, ?_, ?_⟩
  · exact hhalf 34 (by omega)
  · exact hhalf 36 (by omega)
  · exact hbyte 47 (by omega)
  · dsimp only
    rw [hword]
  · simpa using UInt16.toNat_lt _
  · simpa using UInt16.toNat_lt _
  · rw [List.length_map, List.length_map, List.length_range, List.length_range, hbyte 46 (by omega)]
    rw [UInt16.toNat_sub (len' - 34), UInt16.toNat_sub (len - 34), toNat_avail_34 (by omega),
      toNat_avail_34 (by omega)]
    have := len'.toNat_lt
    omega

/-- The datagram that follows an IP header. -/
theorem val_pacote_udp (h : 42 ≤ len.toNat) : (pacote_udp len 34).val m = some
    ⟨campo16 m 34, campo16 m 36,
      (List.range (udp_payload_len (UInt16.ofNat (half m 38))).toNat).map fun i =>
        m (34 + UDP_HDR_LEN + i)⟩ := by
  have hs : ¬ (len - 34).toNat < UDP_HDR_LEN := by
    rw [toNat_avail_34 (by omega)]
    change ¬ len.toNat - 34 < 8
    omega
  unfold pacote_udp
  dsimp only
  rw [if_neg hs]
  rfl

theorem val_pacote_udp_none (h : 34 ≤ len.toNat) (hlt : len.toNat < 42) :
    (pacote_udp len 34).val m = none := by
  have hs : (len - 34).toNat < UDP_HDR_LEN := by
    rw [toNat_avail_34 h]
    change len.toNat - 34 < 8
    omega
  unfold pacote_udp
  dsimp only
  rw [if_pos hs]
  rfl

/-- A datagram of the shorter frame is read from the padded one for the same port. -/
theorem Acolchoado.pacote_udp (h : Acolchoado len len' m m') {p : Pacote}
    (hp : (pacote_udp len 34).val m = some p) :
    ∃ p', (pacote_udp len' 34).val m' = some p' ∧ p'.dst_port = p.dst_port := by
  have hlt := h.maior
  by_cases h42 : 42 ≤ len.toNat
  · rw [val_pacote_udp h42] at hp
    obtain rfl := Option.some.inj hp
    refine ⟨_, val_pacote_udp (by omega), ?_⟩
    change campo16 m' 36 = campo16 m 36
    unfold campo16
    rw [half_congr fun i _ hi => h.igual i (by omega)]
  · rw [val_pacote_udp_none h.cabe (by omega)] at hp
    cases hp

theorem trata_pacote_sem_handler {p : Pacote} (h : handler_de t p.dst_port = none) :
    trata_pacote t p = t := by
  unfold trata_pacote
  rw [h]

theorem datagramas_trata_pacote {p : Pacote} {handler : Nat}
    (h : handler_de t p.dst_port = some handler) :
    (trata_pacote t p).datagramas = ⟨handler, 0, p.src_port, p.payload⟩ :: t.datagramas := by
  unfold trata_pacote
  rw [h]

theorem val_udp_recv : (udp_recv t len 34).val m =
    (((pacote_udp len 34).val m).map (trata_pacote t)).getD t := by
  unfold udp_recv
  rw [Reader.val_bind]
  rcases (Net.pacote_udp len 34).val m with _ | p <;> rfl

theorem val_tcp_recv_dispatch : (tcp_recv_dispatch ip_send t len 34).val m =
    (((segmento len 34).val m).map (trata_segmento ip_send t)).getD t := by
  unfold tcp_recv_dispatch
  rw [Reader.val_bind]
  rcases (Net.segmento len 34).val m with _ | g <;> rfl

end Leitura

section Mesmo

variable {t : Rede} {len len' : UInt16} {m m' : Memory}

/-- Where the padding is no concern, the two frames do the same. -/
theorem ip_recv_neutro (ip_send : IpSend) (h : Acolchoado len len' m m')
    (hn : Neutro t len len' m m') :
    (ip_recv ip_send t len' 14).val m' = (ip_recv ip_send t len 14).val m := by
  have hlt := h.maior
  rw [val_ip_recv h.cabe, val_ip_recv (Nat.le_trans h.cabe (Nat.le_of_lt hlt)), h.igual 23 (by
    have := h.cabe
    omega)]
  by_cases ha : Aceito t m 14
  · rw [if_neg (not_not.mpr ha), if_neg (not_not.mpr (h.aceito.mpr ha))]
    obtain ⟨hu, ht⟩ := hn ha
    by_cases hudp : m 23 = IP_PROTO_UDP
    · rw [if_pos hudp, if_pos hudp, val_udp_recv, val_udp_recv]
      rcases hp' : (pacote_udp len' 34).val m' with _ | p'
      · rcases hp : (pacote_udp len 34).val m with _ | p
        · rfl
        · obtain ⟨q, hq, _⟩ := h.pacote_udp hp
          rw [hp'] at hq
          cases hq
      · by_cases hb : handler_de t p'.dst_port = none
        · have hpad : trata_pacote t p' = t := trata_pacote_sem_handler hb
          rcases hp : (pacote_udp len 34).val m with _ | p
          · exact hpad
          · obtain ⟨q, hq, hport⟩ := h.pacote_udp hp
            rw [hp'] at hq
            obtain rfl := Option.some.inj hq
            rw [hport] at hb
            exact hpad.trans (trata_pacote_sem_handler hb).symm
        · rw [hu hudp p' hp' hb]
    · rw [if_neg hudp, if_neg hudp]
      by_cases htcp : m 23 = IP_PROTO_TCP
      · rw [if_pos htcp, if_pos htcp, val_tcp_recv_dispatch, val_tcp_recv_dispatch]
        obtain ⟨hlong, hshort⟩ := ht htcp
        by_cases h54 : 54 ≤ len.toNat
        · obtain ⟨g, g', hg, hg', hsame, _⟩ := h.segmento h54
          rw [hg, hg']
          exact trata_segmento_payload hsame (hlong h54 g hg)
        · rw [val_segmento_none h.cabe (by omega)]
          rcases hg' : (segmento len' 34).val m' with _ | g'
          · rfl
          · exact trata_segmento_parado (hshort (by omega) g' hg')
      · rw [if_neg htcp, if_neg htcp]
  · rw [if_pos ha, if_pos fun hx => ha (h.aceito.mp hx)]

/-- Where a padded frame does the same as the frame without, the padding is no concern. -/
theorem neutro_of_mesmo (h : Acolchoado len len' m m') (hs : MesmoTransporte t len len' m m') :
    Neutro t len len' m m' := by
  intro ha
  have hlt := h.maior
  obtain ⟨hsock, hdata⟩ := hs 0 []
  have ha' : Aceito { t with polls := [] } m 14 := ha
  have h23 : m' 23 = m 23 := h.igual 23 (by
    have := h.cabe
    omega)
  rw [val_ip_recv h.cabe, val_ip_recv (Nat.le_trans h.cabe (Nat.le_of_lt hlt)), h23,
    if_neg (not_not.mpr ha'), if_neg (not_not.mpr (h.aceito.mpr ha'))] at hsock hdata
  refine ⟨fun hudp p' hp' hb => ?_, fun htcp => ?_⟩
  · rw [if_pos hudp, if_pos hudp, val_udp_recv, val_udp_recv, hp'] at hdata
    obtain ⟨handler, hh⟩ := Option.ne_none_iff_exists'.mp hb
    have hh' : handler_de { t with polls := [] } p'.dst_port = some handler := hh
    rw [Option.map_some, Option.getD_some, datagramas_trata_pacote hh'] at hdata
    rcases hp : (pacote_udp len 34).val m with _ | p
    · rw [hp] at hdata
      exact absurd (congrArg List.length hdata) (by simp)
    · obtain ⟨q, hq, hport⟩ := h.pacote_udp hp
      rw [hp'] at hq
      obtain rfl := Option.some.inj hq
      rw [hport] at hh'
      rw [hp, Option.map_some, Option.getD_some, datagramas_trata_pacote hh'] at hdata
      obtain ⟨src, dst, payload⟩ := p
      obtain ⟨src', dst', payload'⟩ := p'
      have hcons := (List.cons.inj hdata).1
      rw [Datagrama.mk.injEq] at hcons
      obtain ⟨_, _, rfl, rfl⟩ := hcons
      obtain rfl : dst' = dst := hport
      rfl
  · have hne : m 23 ≠ IP_PROTO_UDP := by
      rw [htcp]
      decide
    rw [if_neg hne, if_neg hne, if_pos htcp, if_pos htcp, val_tcp_recv_dispatch,
      val_tcp_recv_dispatch] at hsock
    constructor
    · rintro h54 g hg ⟨sock, hc, hst, hr⟩
      obtain ⟨g0, g', hg0, hg', hsame, hl, hl', hne⟩ := h.segmento h54
      rw [hg] at hg0
      obtain rfl := Option.some.inj hg0
      rw [hg, hg'] at hsock
      have hack := ack_num_armazena (eth_poll 0) (t := { t with polls := [] }) rfl hc hst hr
      have hack' := ack_num_armazena (eth_poll 0) (t := { t with polls := [] }) (g := g') rfl
        (hsame.correspondente.trans hc) hst (by rw [hsame.flags]; exact hr)
      have hfin : passo_fin g' = passo_fin g := by
        unfold passo_fin
        rw [hsame.flags]
      rw [Option.map_some, Option.map_some, Option.getD_some, Option.getD_some] at hsock
      rw [hsock, hack, hfin] at hack'
      have hlen := congrArg UInt32.toNat ((UInt32.add_right_inj _).mp hack')
      rw [UInt32.toNat_ofNat', UInt32.toNat_ofNat'] at hlen
      omega
    · intro hshort g' hg' hat
      rw [val_segmento_none h.cabe hshort, hg', Option.map_some, Option.getD_some] at hsock
      exact sockets_atua (eth_poll 0) (t := { t with polls := [] }) rfl hat
        (payload_segmento hg') hsock

/-- Frames with padding leave the sockets and the handlers as frames without exactly where the
padding is no concern of the transport. -/
theorem padding_changes_nothing_iff (h : Acolchoado len len' m m') :
    MesmoTransporte t len len' m m' ↔ Neutro t len len' m m' := by
  refine ⟨neutro_of_mesmo h, fun hn n polls => ?_⟩
  rw [ip_recv_neutro (t := { t with polls := polls }) (ip_send (eth_poll n)) h hn]
  exact ⟨rfl, rfl⟩

end Mesmo

/-! ## Short frames -/

/-- A datagram of 2 bytes from 10.0.0.2 to port 68, padded to 60 bytes. -/
def quadro_dhcp : List UInt8 :=
  cabecalho_eth ++ [0x45, 0, 0, 30, 0, 0, 0, 0, 64, 17, 0x66, 0xCD, 10, 0, 0, 2, 10, 0, 0, 1] ++
    [0, 67, 0, 68, 0, 10, 0, 0] ++ [1, 2] ++ List.replicate 16 0

/-- The host with a handler for port 68. -/
def host_dhcp : Rede := { host with bindings := fun i => if i = ⟨0, by decide⟩ then ⟨68, 1⟩ else ⟨0, 0⟩ }

/-- The handler sees the two bytes of the datagram, with and without the padding. -/
theorem padding_after_a_datagram_changes_nothing :
    MesmoTransporte host_dhcp 44 60 (memoria quadro_dhcp) (memoria quadro_dhcp) := by
  refine (padding_changes_nothing_iff ⟨by decide, by decide, fun _ _ => rfl⟩).mpr fun _ => ⟨?_, ?_⟩
  · intro _ p hp _
    rw [val_pacote_udp (by decide)] at hp ⊢
    exact hp
  · intro htcp
    exact absurd htcp (by decide)

/-- An ACK without data from 10.0.0.2, padded to 60 bytes. -/
def quadro_ack : List UInt8 :=
  cabecalho_eth ++ [0x45, 0, 0, 40, 0, 0, 0, 0, 64, 6, 0x66, 0xCE, 10, 0, 0, 2, 10, 0, 0, 1] ++
    [0, 80, 0xC0, 0, 0, 0, 0, 1, 0, 0, 0, 0, 0x50, 0x10, 8, 0, 0, 0, 0, 0] ++ List.replicate 6 0

/-- The host with a connection from port 49152 to port 80 of 10.0.0.2. -/
def host_conectado : Rede := { host with
  sockets := fun _ => { Socket.zero with
    remote_ip := 0x0A000002
    local_port := 49152
    remote_port := 80
    ack_num := 1
    state := .established } }

/-- The padding of an ACK goes into the stream. -/
theorem padding_after_an_ack_is_received : ¬ ∀ t (len len' : UInt16) m m',
    Acolchoado len len' m m' → Aceito t m 14 → (campo16 m 16).toNat + 14 = len.toNat →
      MesmoTransporte t len len' m m' := by
  intro h
  have hp : Acolchoado 54 60 (memoria quadro_ack) (memoria quadro_ack) :=
    ⟨by decide, by decide, fun _ _ => rfl⟩
  have hac : Aceito host_conectado (memoria quadro_ack) 14 :=
    by decide
  have hn := neutro_of_mesmo hp (h host_conectado 54 60 _ _ hp hac (by decide))
  have hno := ((hn hac).2 (by decide)).1 (by decide) _ (val_segmento (by decide))
  exact hno ⟨0, by decide, by decide, by decide⟩

end SpaceOS.Net
