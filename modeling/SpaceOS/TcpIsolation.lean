-- Whom a TCP segment may move: exactly which segments a socket takes although another host sent
-- them, or although they do not acknowledge its SYN.
import SpaceOS.IpSendLaws

open Lib.Bytes Lib.Footprint Lib.RingQueue

namespace SpaceOS.Net

/-! ## What goes out stays out

The list of the frames that went out never gets shorter, whatever nests in a call. -/

/-- No frame that went out is forgotten. -/
def Cresce (t t' : Rede) : Prop := t.enviados.length ≤ t'.enviados.length

section Enviados

variable {t : Rede} {poll : Rede → Rede}

theorem Cresce.refl (t : Rede) : Cresce t t := Nat.le_refl _

theorem Cresce.trans {t t' t'' : Rede} (h : Cresce t t') (h' : Cresce t' t'') : Cresce t t'' :=
  Nat.le_trans h h'

theorem andamento_cresce : Andamento Cresce where
  refl := Cresce.refl
  trans := Cresce.trans
  abaixo h := h.enviados
  aceita {t _} _ _ := Cresce.refl t
  fim {t _} _ := Cresce.refl t
  guarda _ _ h := h
  fecha {t _} _ := Cresce.refl t

theorem cresce_eth_poll (n : Nat) (t : Rede) : Cresce t (eth_poll n t) :=
  andamento_cresce.eth_poll n t

theorem cresce_recebe_payload (n : Nat) (sock : Indice) (g : Segmento) :
    Cresce t (recebe_payload (ip_send (eth_poll n)) t sock g) := by
  have h := andamento_cresce.ip_send (andamento_cresce.eth_poll n)
  unfold recebe_payload
  split
  · exact Cresce.refl t
  · exact andamento_cresce.send_segment h (t.muda sock _) sock _ _

end Enviados

/-! ## Segments that act -/

/-- A socket in this state does something on the segment. -/
def Age (s : Socket) (g : Segmento) : Prop :=
  match s.state with
  | .syn_sent => g.flags &&& (TCP_SYN ||| TCP_ACK) = TCP_SYN ||| TCP_ACK
  | .established => g.flags &&& TCP_RST ≠ 0 ∨ g.flags &&& TCP_FIN ≠ 0 ∨ g.payload ≠ []
  | .fin_wait => g.flags &&& (TCP_ACK ||| TCP_FIN) ≠ 0
  | _ => False

section Age

variable {t : Rede} {g : Segmento} {sock : Indice} {f : IpSend}

theorem trata_sem_soquete (h : correspondente t g = none) : trata_segmento f t g = t := by
  unfold trata_segmento
  rw [h]

/-- The socket that a segment goes to is open. -/
theorem correspondente_aberto (h : correspondente t g = some sock) :
    (t.sockets sock).state ≠ .closed := by
  have hf := List.find?_some h
  simp only [decide_eq_true_eq] at hf
  exact hf.1

theorem trata_sem_acao (h : correspondente t g = some sock) (ha : ¬ Age (t.sockets sock) g) :
    trata_segmento f t g = t := by
  unfold trata_segmento
  rw [h]
  unfold Age at ha
  dsimp only
  cases hs : (t.sockets sock).state with
  | closed => rfl
  | syn_sent =>
    rw [hs] at ha
    exact if_neg ha
  | established =>
    rw [hs] at ha
    simp only [not_or, not_not] at ha
    obtain ⟨hr, hf, hp⟩ := ha
    simp only [em_established, recebe_payload, recebe_fin, hr, hf, hp]
    rfl
  | fin_wait =>
    rw [hs] at ha
    exact if_neg ha
  | close_wait => rfl

/-- Where no answer is due, the socket is closed. -/
theorem trata_fecha (h : correspondente t g = some sock) (ha : Age (t.sockets sock) g)
    (hp : ¬ Pede t g) :
    trata_segmento f t g = t.muda sock fun s => { s with state := .closed } := by
  have hno : ∀ p : Prop, (p → Pede t g) → ¬ p := fun p hx hy => hp (hx hy)
  unfold trata_segmento
  rw [h]
  unfold Age at ha
  dsimp only
  cases hs : (t.sockets sock).state with
  | closed => exact absurd hs (correspondente_aberto h)
  | syn_sent =>
    rw [hs] at ha
    exact absurd ha (hno _ fun hx => ⟨sock, h, by rw [hs]; exact hx⟩)
  | established =>
    rw [hs] at ha
    have hr : g.flags &&& TCP_RST ≠ 0 := by
      by_contra hr
      exact hno (g.flags &&& TCP_RST = 0 ∧ (g.flags &&& TCP_FIN ≠ 0 ∨ g.payload ≠ []))
        (fun hx => ⟨sock, h, by rw [hs]; exact hx⟩) ⟨hr, ha.resolve_left fun h => h hr⟩
    exact if_pos hr
  | fin_wait =>
    rw [hs] at ha
    exact if_pos ha
  | close_wait =>
    rw [hs] at ha
    exact ha.elim

/-! ## What an answer sends -/

/-- The next hop is known at once, or a request for it goes out. -/
theorem ip_destino_envia (hm : t.mac_addr.length = 6) (n : Nat) (dst_ip : UInt32) :
    (∃ mac, ip_destino (eth_poll n) t dst_ip = (some mac, t)) ∨
      t.enviados.length < (ip_destino (eth_poll n) t dst_ip).2.enviados.length := by
  unfold ip_destino
  split
  · exact Or.inl ⟨_, rfl⟩
  · unfold arp_resolve
    split
    · rename_i mac _
      exact Or.inl ⟨mac, rfl⟩
    · refine Or.inr (Nat.lt_of_lt_of_le ?_ (andamento_cresce.arp_espera (cresce_eth_poll n) _ _ _ _ _))
      have hl : ∀ ip, (arp_packet 1 t.mac_addr (htonl t.net_our_ip) (List.replicate 6 0)
          (htonl ip)).length = 28 := by
        intro ip
        simp [arp_packet, hm]
      unfold arp_send_request eth_send
      rw [hl, if_neg (by decide)]
      exact Nat.lt_succ_self _

/-- A packet that fits makes a frame go out. -/
theorem ip_send_envia (hm : t.mac_addr.length = 6) (n : Nat) (dst_ip : UInt32) (proto : UInt8)
    {payload : List UInt8} (hl : payload.length ≤ 1460) :
    t.enviados.length < (ip_send (eth_poll n) t dst_ip proto payload).2.enviados.length := by
  have hip : IP_HDR_LEN = 20 := rfl
  have hd := ip_destino_envia (t := ip_monta t dst_ip proto payload) hm n dst_ip
  unfold ip_send
  rw [if_neg (by omega)]
  split
  · rename_i t' he
    rw [he] at hd
    rcases hd with ⟨mac, hd⟩ | hd
    · simp at hd
    · exact hd
  · rename_i dst_mac t' he
    rw [he] at hd
    have hs : (eth_send t' dst_mac ETH_PROTO_IP
        (trecho t'.ip_packet (IP_HDR_LEN + payload.length))).2.enviados.length =
          t'.enviados.length + 1 := by
      unfold eth_send
      rw [length_trecho, if_neg (by omega)]
      rfl
    have hc : t.enviados.length ≤ t'.enviados.length := by
      rcases hd with ⟨mac, hd⟩ | hd
      · rw [(Prod.mk.inj hd).2]
        exact Nat.le_refl _
      · exact Nat.le_of_lt hd
    omega

theorem responde_ack_envia (hm : t.mac_addr.length = 6) (n : Nat) (sock : Indice) :
    t.enviados.length < (responde_ack (ip_send (eth_poll n)) t sock).enviados.length := by
  unfold responde_ack tcp_send_segment
  extract_lets s out seg_len checksum out'
  have hl : (trecho out' seg_len.toNat).length ≤ 1460 := by
    rw [length_trecho]
    decide
  exact ip_send_envia (t := { t with tcp_out := out' }) hm n _ _ hl

/-- A segment that asks for an answer makes a frame go out. -/
theorem trata_envia (hm : t.mac_addr.length = 6) (n : Nat) (hp : Pede t g) :
    t.enviados.length < (trata_segmento (ip_send (eth_poll n)) t g).enviados.length := by
  obtain ⟨sock, hc, hp⟩ := hp
  have hack : ∀ k, t.enviados.length <
      (responde_ack (ip_send (eth_poll n)) (t.muda sock k) sock).enviados.length := fun k =>
    responde_ack_envia (t := t.muda sock k) hm n sock
  unfold trata_segmento
  rw [hc]
  dsimp only
  cases hs : (t.sockets sock).state with
  | syn_sent =>
    rw [hs] at hp
    dsimp only [em_syn_sent]
    rw [if_pos hp]
    exact hack _
  | established =>
    rw [hs] at hp
    dsimp only [em_established]
    rw [if_neg (not_not.mpr hp.1)]
    by_cases hfin : g.flags &&& TCP_FIN ≠ 0
    · refine Nat.lt_of_lt_of_le ?_
        (cresce_recebe_payload n sock g)
      unfold recebe_fin
      rw [if_pos hfin]
      exact hack _
    · have hpay := hp.2.resolve_left hfin
      unfold recebe_fin recebe_payload
      rw [if_neg hfin, if_neg hpay]
      exact hack _
  | closed =>
    rw [hs] at hp
    exact hp.elim
  | fin_wait =>
    rw [hs] at hp
    exact hp.elim
  | close_wait =>
    rw [hs] at hp
    exact hp.elim

end Age

/-! ## Isolation -/

/-- A frame handed to `tcp_recv_dispatch`; `poll` is what a poll does while an answer is sent. -/
def despacha (poll : Rede → Rede) (t : Rede) (buf : Netbuf) : Rede :=
  (tcp_recv_dispatch (ip_send poll) t buf.len buf.offset).val buf.data

/-- The segment `g` in `buf` keeps to its connection: from another host it leaves every socket as it
is and nothing is sent, and it ends the wait of a socket only as the answer to its SYN. Frames that
arrive while its own answer is sent are segments of their own, so that the second part is about a
send with an idle card. -/
structure Isola (n : Nat) (t : Rede) (buf : Netbuf) (g : Segmento) : Prop where
  alheio : ∀ sock, correspondente t g = some sock → g.src_ip ≠ (t.sockets sock).remote_ip →
    (despacha (eth_poll n) t buf).sockets = t.sockets ∧
      (despacha (eth_poll n) t buf).enviados = t.enviados
  conecta : ∀ i, (t.sockets i).state = .syn_sent →
    ((despacha id t buf).sockets i).state = .established →
      g.flags &&& (TCP_SYN ||| TCP_ACK) = TCP_SYN ||| TCP_ACK ∧
        g.src_ip = (t.sockets i).remote_ip ∧ g.ack = (t.sockets i).seq_num

/-- The socket that would act on the segment is a connection with the host that sent it, and a SYN
that is waiting is the one acknowledged. -/
def Procede (t : Rede) (g : Segmento) : Prop :=
  ∀ sock, correspondente t g = some sock → Age (t.sockets sock) g →
    g.src_ip = (t.sockets sock).remote_ip ∧
      ((t.sockets sock).state = .syn_sent → g.ack = (t.sockets sock).seq_num)

section Isolamento

variable {t : Rede} {g : Segmento} {buf : Netbuf} {sock i : Indice}

theorem despacha_eq {poll : Rede → Rede}
    (hg : (segmento buf.len buf.offset).val buf.data = some g) :
    despacha poll t buf = trata_segmento (ip_send poll) t g := by
  unfold despacha tcp_recv_dispatch
  rw [Reader.val_bind, hg]
  rfl

/-- A segment on which a socket acts leaves a trace in the sockets or in what was sent. -/
theorem trata_muda (hm : t.mac_addr.length = 6) (n : Nat) (h : correspondente t g = some sock)
    (ha : Age (t.sockets sock) g) :
    ¬ ((trata_segmento (ip_send (eth_poll n)) t g).sockets = t.sockets ∧
      (trata_segmento (ip_send (eth_poll n)) t g).enviados = t.enviados) := by
  rintro ⟨hs, he⟩
  by_cases hp : Pede t g
  · have hl := trata_envia hm n hp
    rw [he] at hl
    exact Nat.lt_irrefl _ hl
  · rw [trata_fecha h ha hp] at hs
    have hc := congrArg (fun f => (f sock).state) hs
    rw [sockets_muda_self] at hc
    exact correspondente_aberto h hc.symm

theorem sockets_ip_send_id (t : Rede) (dst_ip : UInt32) (proto : UInt8) (payload : List UInt8) :
    (ip_send id t dst_ip proto payload).2.sockets = t.sockets := by
  have ha : ∀ ip start ticks_max n t, (arp_espera id ip start ticks_max n t).2.sockets =
      t.sockets := by
    intro ip start ticks_max n
    induction n with
    | zero => exact fun t => rfl
    | succ n ih =>
      intro t
      unfold arp_espera
      split
      · dsimp only [id]
        split
        · rfl
        · exact ih t
      · rfl
  have hd : (ip_destino id (ip_monta t dst_ip proto payload) dst_ip).2.sockets = t.sockets := by
    unfold ip_destino
    split
    · rfl
    · unfold arp_resolve
      split
      · rfl
      · dsimp only
        rw [ha]
        exact sockets_eth_send _ _ _
  unfold ip_send
  split
  · rfl
  · split
    · rename_i he
      rwa [he] at hd
    · rename_i he
      rw [he] at hd
      rw [sockets_eth_send]
      exact hd

theorem sockets_responde_ack_id (t : Rede) (sock : Indice) :
    (responde_ack (ip_send id) t sock).sockets = t.sockets := by
  unfold responde_ack tcp_send_segment
  exact sockets_ip_send_id _ _ _ _

/-- With an idle card, only the socket that the segment goes to may change. -/
theorem sockets_trata_ne (hc : correspondente t g = some sock) (hi : i ≠ sock) :
    (trata_segmento (ip_send id) t g).sockets i = t.sockets i := by
  have hack : ∀ (t' : Rede) k, (responde_ack (ip_send id) (t'.muda sock k) sock).sockets i =
      t'.sockets i := by
    intro t' k
    rw [sockets_responde_ack_id, sockets_muda_ne k hi]
  have hfin : (recebe_fin (ip_send id) t sock g).sockets i = t.sockets i := by
    unfold recebe_fin
    split
    · exact hack t _
    · rfl
  unfold trata_segmento
  rw [hc]
  dsimp only
  split
  · unfold em_syn_sent
    split
    · exact hack t _
    · rfl
  · unfold em_established
    split
    · exact sockets_muda_ne _ hi
    · unfold recebe_payload
      split
      · exact hfin
      · rw [hack, hfin]
  · unfold em_fin_wait
    split
    · exact sockets_muda_ne _ hi
    · rfl
  · rfl

/-- With an idle card, a socket ends its wait for a SYN+ACK exactly when it acts. -/
theorem conecta_iff (hs : (t.sockets i).state = .syn_sent) :
    ((trata_segmento (ip_send id) t g).sockets i).state = .established ↔
      correspondente t g = some i ∧ Age (t.sockets i) g := by
  constructor
  · intro he
    have hne : (trata_segmento (ip_send id) t g).sockets i ≠ t.sockets i := by
      intro h
      rw [h, hs] at he
      cases he
    rcases hc : correspondente t g with _ | sock
    · rw [trata_sem_soquete hc] at hne
      exact absurd rfl hne
    · by_cases hi : i = sock
      · subst hi
        refine ⟨rfl, ?_⟩
        by_contra ha
        rw [trata_sem_acao hc ha] at hne
        exact hne rfl
      · exact absurd (sockets_trata_ne hc hi) hne
  · rintro ⟨hc, ha⟩
    unfold Age at ha
    rw [hs] at ha
    unfold trata_segmento
    rw [hc]
    dsimp only
    rw [hs]
    dsimp only
    rw [em_syn_sent, if_pos ha, sockets_responde_ack_id, sockets_muda_self]

/-- A segment keeps to its connection exactly when it comes from there, or nothing acts on it. -/
theorem a_segment_keeps_to_its_connection_iff (n : Nat) (hm : t.mac_addr.length = 6)
    (hg : (segmento buf.len buf.offset).val buf.data = some g) :
    Isola n t buf g ↔ Procede t g := by
  constructor
  · rintro ⟨halheio, hconecta⟩ sock hc ha
    rw [despacha_eq hg] at halheio hconecta
    refine ⟨?_, fun hs => ?_⟩
    · by_contra hip
      exact trata_muda hm n hc ha (halheio sock hc hip)
    · exact (hconecta sock hs ((conecta_iff hs).mpr ⟨hc, ha⟩)).2.2
  · intro h
    refine ⟨?_, ?_⟩
    · intro sock hc hip
      rw [despacha_eq hg, trata_sem_acao hc fun ha => hip (h sock hc ha).1]
      exact ⟨rfl, rfl⟩
    · intro i hs he
      rw [despacha_eq hg] at he
      obtain ⟨hc, ha⟩ := (conecta_iff hs).mp he
      obtain ⟨hip, hack⟩ := h i hc ha
      unfold Age at ha
      rw [hs] at ha
      exact ⟨ha, hip, hack hs⟩

end Isolamento

/-! ## A reset -/

/-- A socket connected to port 80 of 10.0.0.2. -/
def conectada : Rede :=
  (Rede.inicio (List.replicate 6 2) [] fun _ => true).muda 0 fun s =>
    { s with
      state := .established
      remote_ip := 0x0A000002
      remote_port := 80
      local_port := 49152 }

/-- A frame with a reset for that socket, whose source address ends in `b`. -/
def quadro_rst (b : UInt8) : Netbuf where
  data i := (List.replicate 26 0 ++ [10, 0, 0, b, 0, 0, 0, 0, 0, 80, 192, 0, 0, 0, 0, 0, 0, 0, 0, 0,
    0x50, TCP_RST, 0, 0, 0, 0, 0, 0]).getD i 0
  len := 54
  offset := 34

def segmento_rst (src_ip : UInt32) : Segmento := ⟨80, 49152, TCP_RST, 0, 0, [], src_ip⟩

/-- The peer may reset its connection. -/
theorem a_reset_of_the_peer_keeps_to_its_connection :
    Isola 0 conectada (quadro_rst 2) (segmento_rst 0x0A000002) := by
  refine (a_segment_keeps_to_its_connection_iff 0 rfl rfl).mpr ?_
  intro sock hc _
  have h0 : correspondente conectada (segmento_rst 0x0A000002) = some 0 := by decide
  obtain rfl : 0 = sock := Option.some.inj (h0.symm.trans hc)
  exact ⟨rfl, fun hs => by cases hs⟩

/-- Any other host may reset it as well. -/
theorem a_stranger_resets_a_connection : ¬ ∀ n t buf g, t.mac_addr.length = 6 →
    (segmento buf.len buf.offset).val buf.data = some g → Isola n t buf g := by
  intro h
  have hi := h 0 conectada (quadro_rst 3) (segmento_rst 0x0A000003) rfl rfl
  have hs := (hi.alheio 0 (by decide) (by decide)).1
  have hc := congrArg (fun f => (f 0).state) hs
  revert hc
  decide

end SpaceOS.Net
