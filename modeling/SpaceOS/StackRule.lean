-- The induction over the receive path, made once. A poll hands frames to the layers, a layer may
-- answer, and an answer may poll again: what each change of the state keeps, the whole keeps.
import SpaceOS.Stack

open Lib.Bytes Lib.Footprint Lib.RingQueue

namespace SpaceOS.Net

/-- The socket after a payload is stored. -/
def Socket.guarda (s : Socket) (payload : List UInt8) : Socket :=
  { s with
    ack_num := s.ack_num + UInt32.ofNat payload.length
    rx := s.rx.pushAll payload }

/-- What the layers below the sockets may do. -/
structure Abaixo (t t' : Rede) : Prop where
  sockets : t'.sockets = t.sockets
  contador : t'.next_local_port = t.next_local_port
  enviados : t.enviados.length ≤ t'.enviados.length

/-- A relation between the stack before and after that each change on the receive path is in. A
payload is stored, and a socket closed, on the state `t'` that the work on the segment has led to
meanwhile; the socket was open when the segment came. -/
structure Andamento (R : Rede → Rede → Prop) : Prop where
  refl (t : Rede) : R t t
  trans {t t' t'' : Rede} : R t t' → R t' t'' → R t t''
  abaixo {t t' : Rede} : Abaixo t t' → R t t'
  aceita {t : Rede} {sock : Indice} (g : Segmento) : (t.sockets sock).state = .syn_sent →
    R t (t.muda sock fun s => { s with ack_num := g.seq + 1, state := .established })
  fim {t : Rede} {sock : Indice} : (t.sockets sock).state = .established →
    R t (t.muda sock fun s => { s with ack_num := s.ack_num + 1, state := .close_wait })
  guarda {t t' : Rede} {sock : Indice} (g : Segmento) : (t.sockets sock).state ≠ .closed → R t t' →
    R t (t'.muda sock fun s => s.guarda g.payload)
  fecha {t : Rede} {sock : Indice} : (t.sockets sock).state ≠ .closed →
    R t (t.muda sock fun s => { s with state := .closed })

/-! ## The layers below -/

section Baixo

variable {t : Rede}

theorem Abaixo.refl (t : Rede) : Abaixo t t := ⟨rfl, rfl, Nat.le_refl _⟩

theorem Abaixo.trans {t t' t'' : Rede} (h : Abaixo t t') (h' : Abaixo t' t'') : Abaixo t t'' :=
  ⟨h'.sockets.trans h.sockets, h'.contador.trans h.contador, Nat.le_trans h.enviados h'.enviados⟩

theorem abaixo_eth_send (dst_mac : List UInt8) (proto : UInt16) (payload : List UInt8) :
    Abaixo t (eth_send t dst_mac proto payload).2 := by
  unfold eth_send
  split
  · exact Abaixo.refl t
  · exact ⟨rfl, rfl, Nat.le_succ _⟩

theorem abaixo_trata_arp (pkt : Arp) : Abaixo t (trata_arp t pkt) := by
  unfold trata_arp
  extract_lets t'
  have ht : Abaixo t t' := by
    unfold t'
    split
    · exact ⟨rfl, rfl, Nat.le_refl _⟩
    · exact Abaixo.refl t
  split
  · exact ht.trans (abaixo_eth_send _ _ _)
  · exact ht

theorem abaixo_arp_recv (len offset : UInt16) (m : Memory) :
    Abaixo t ((arp_recv t len offset).val m) := by
  unfold arp_recv
  rw [Reader.val_bind]
  split
  · exact Abaixo.refl t
  · exact abaixo_trata_arp _

theorem abaixo_udp_recv (len offset : UInt16) (m : Memory) :
    Abaixo t ((udp_recv t len offset).val m) := by
  unfold udp_recv
  rw [Reader.val_bind]
  split
  · exact Abaixo.refl t
  · change Abaixo t (trata_pacote t _)
    unfold trata_pacote
    split
    · exact Abaixo.refl t
    · exact ⟨rfl, rfl, Nat.le_refl _⟩

end Baixo

/-! ## The rule -/

namespace Andamento

variable {R : Rede → Rede → Prop} {poll : Rede → Rede} {f : IpSend} {t : Rede}

theorem arp_espera (hR : Andamento R) (h : ∀ t, R t (poll t)) (ip start ticks_max : UInt32)
    (n : Nat) (t : Rede) : R t (arp_espera poll ip start ticks_max n t).2 := by
  induction n generalizing t with
  | zero => exact hR.refl t
  | succ n ih =>
    unfold Net.arp_espera
    split
    · dsimp only
      split
      · exact h t
      · exact hR.trans (h t) (ih (poll t))
    · exact hR.refl t

/-- The address is resolved, with the polls of the wait. -/
theorem ip_destino (hR : Andamento R) (h : ∀ t, R t (poll t)) (t : Rede) (dst_ip : UInt32) :
    R t (ip_destino poll t dst_ip).2 := by
  unfold Net.ip_destino
  split
  · exact hR.refl t
  · unfold arp_resolve
    split
    · exact hR.refl t
    · exact hR.trans (hR.abaixo (abaixo_eth_send _ _ _)) (hR.arp_espera h _ _ _ _ _)

/-- A send, with the polls it makes while it waits for an address. -/
theorem ip_send (hR : Andamento R) (h : ∀ t, R t (poll t)) (t : Rede) (dst_ip : UInt32)
    (proto : UInt8) (payload : List UInt8) : R t (ip_send poll t dst_ip proto payload).2 := by
  have hm : R t (ip_monta t dst_ip proto payload) := hR.abaixo ⟨rfl, rfl, Nat.le_refl _⟩
  have hd := hR.trans hm (hR.ip_destino h (ip_monta t dst_ip proto payload) dst_ip)
  unfold Net.ip_send
  split
  · exact hR.refl t
  · split
    · rename_i he
      rwa [he] at hd
    · rename_i he
      rw [he] at hd
      exact hR.trans hd (hR.abaixo (abaixo_eth_send _ _ _))

section Segmentos

variable (hR : Andamento R) (h : ∀ t dst_ip proto payload, R t (f t dst_ip proto payload).2)

include hR h

theorem send_segment (t : Rede) (sock : Indice) (flags : UInt8) (data : List UInt8) :
    R t (tcp_send_segment f t sock flags data).2 := by
  unfold tcp_send_segment
  extract_lets s out seg_len checksum out'
  have ho : R t { t with tcp_out := out' } := hR.abaixo ⟨rfl, rfl, Nat.le_refl _⟩
  exact hR.trans ho (h _ _ _ _)

theorem recebe_fin {sock : Indice} (g : Segmento) (hs : (t.sockets sock).state = .established) :
    R t (recebe_fin f t sock g) := by
  unfold Net.recebe_fin
  split
  · exact hR.trans (hR.fim hs) (hR.send_segment h _ sock _ _)
  · exact hR.refl t

theorem trata_segmento (t : Rede) (g : Segmento) : R t (trata_segmento f t g) := by
  unfold Net.trata_segmento
  split
  · exact hR.refl t
  · rename_i sock _
    split
    · rename_i hs
      unfold em_syn_sent
      split
      · exact hR.trans (hR.aceita g hs) (hR.send_segment h _ sock _ _)
      · exact hR.refl t
    · rename_i hs
      unfold em_established
      split
      · exact hR.fecha (by rw [hs]; simp)
      · unfold recebe_payload
        split
        · exact hR.recebe_fin h g hs
        · exact hR.trans (hR.guarda g (by rw [hs]; simp) (hR.recebe_fin h g hs))
            (hR.send_segment h _ sock _ _)
    · rename_i hs
      unfold em_fin_wait
      split
      · exact hR.fecha (by rw [hs]; simp)
      · exact hR.refl t
    · exact hR.refl t

theorem recebe (t : Rede) (buf : Netbuf) : R t (recebe f t buf) := by
  unfold Net.recebe eth_recv
  rw [Reader.val_ite]
  split
  · exact hR.refl t
  rw [Reader.val_bind]
  dsimp only
  rw [Reader.val_ite]
  split
  · exact hR.abaixo (abaixo_arp_recv _ _ _)
  rw [Reader.val_ite]
  split
  · unfold ip_recv
    simp only [Reader.val_ite, Reader.val_bind]
    split_ifs
    · exact hR.refl t
    · exact hR.abaixo (abaixo_udp_recv _ _ _)
    · unfold tcp_recv_dispatch
      rw [Reader.val_bind]
      split
      · exact hR.refl t
      · exact hR.trata_segmento h t _
    · exact hR.refl t
    · exact hR.refl t
  · exact hR.refl t

theorem quadros (quadros : List Netbuf) (t : Rede) : R t (quadros.foldl (Net.recebe f) t) := by
  induction quadros generalizing t with
  | nil => exact hR.refl t
  | cons buf quadros ih => exact hR.trans (hR.recebe h t buf) (ih _)

end Segmentos

/-- A poll, with all that nests in it. -/
theorem eth_poll (hR : Andamento R) (n : Nat) (t : Rede) : R t (eth_poll n t) := by
  induction n generalizing t with
  | zero => exact hR.refl t
  | succ n ih =>
    unfold Net.eth_poll
    split
    · exact hR.refl t
    · rename_i p polls _
      have hp : R t { t with polls := polls, ticks := p.ticks } :=
        hR.abaixo ⟨rfl, rfl, Nat.le_refl _⟩
      exact hR.trans hp (hR.quadros (hR.ip_send ih) _ _)

/-- A wait, with its polls. -/
theorem espera (hR : Andamento R) (h : ∀ t, R t (poll t)) (p : Rede → Bool)
    (start ticks_max : UInt32) (n : Nat) (t : Rede) : R t (espera poll p start ticks_max n t) := by
  induction n generalizing t with
  | zero => exact hR.refl t
  | succ n ih =>
    unfold Net.espera
    split
    · exact hR.trans (h t) (ih _)
    · exact hR.refl t

end Andamento

end SpaceOS.Net
