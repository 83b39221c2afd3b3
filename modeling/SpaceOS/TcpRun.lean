-- The runs of the TCP sockets. A call of the stack may poll the card in its middle, so that the
-- work of several segments interleaves. Every such run is a list of small steps, and the laws
-- are about the steps.
import SpaceOS.StackRule

open Lib.Bytes Lib.Footprint Lib.RingQueue

namespace SpaceOS.Net

/-! ## The steps -/

/-- What a socket can go through. `inferior` stands for what the layers below the sockets do. -/
inductive Evento
  | inferior (t' : Rede)
  | abre (sock : Indice) (ip : UInt32) (port : UInt16)
  | aceita (sock : Indice) (g : Segmento)
  | fim (sock : Indice)
  | guarda (sock : Indice) (g : Segmento)
  | avanca (sock : Indice) (n : UInt32)
  | encerra (sock : Indice)
  | fecha (sock : Indice)
  | recv_volta (sock : Indice) (max_len : UInt16)

/-- The bytes that `tcp_recv` copies out for socket `i` in one step, and the state after it. -/
def passo (i : Indice) (t : Rede) : Evento → List UInt8 × Rede
  | .inferior t' => ([], { t' with sockets := t.sockets })
  | .abre sock ip port => ([], tcp_connect_abre t sock ip port)
  | .aceita sock g =>
    ([], if (t.sockets sock).state = .syn_sent then
      t.muda sock fun s => { s with ack_num := g.seq + 1, state := .established } else t)
  | .fim sock =>
    ([], t.muda sock fun s => { s with ack_num := s.ack_num + 1, state := .close_wait })
  | .guarda sock g => ([], t.muda sock fun s => s.guarda g.payload)
  | .avanca sock n => ([], t.muda sock fun s => { s with seq_num := s.seq_num + n })
  | .encerra sock =>
    ([], t.muda sock fun s => { s with seq_num := s.seq_num + 1, state := .fin_wait })
  | .fecha sock => ([], t.muda sock fun s => { s with state := .closed })
  | .recv_volta sock max_len =>
    (if sock = i then ((tcp_recv_volta t sock max_len).1.map Prod.snd).getD [] else [],
      (tcp_recv_volta t sock max_len).2)

theorem passo_aceita {i sock : Indice} {t : Rede} {g : Segmento}
    (h : (t.sockets sock).state = .syn_sent) : passo i t (.aceita sock g) =
      ([], t.muda sock fun s => { s with ack_num := g.seq + 1, state := .established }) := by
  unfold passo
  dsimp only
  rw [if_pos h]

/-- The steps of a list, one after another. -/
def rodar (i : Indice) (t : Rede) : List Evento → List UInt8 × Rede
  | [] => ([], t)
  | e :: es => ((passo i t e).1 ++ (rodar i (passo i t e).2 es).1, (rodar i (passo i t e).2 es).2)

theorem rodar_cons (i : Indice) (t : Rede) (e : Evento) (es : List Evento) :
    rodar i t (e :: es) =
      ((passo i t e).1 ++ (rodar i (passo i t e).2 es).1, (rodar i (passo i t e).2 es).2) := rfl

theorem rodar_append (i : Indice) (t : Rede) (es fs : List Evento) :
    rodar i t (es ++ fs) = ((rodar i t es).1 ++ (rodar i (rodar i t es).2 fs).1,
      (rodar i (rodar i t es).2 fs).2) := by
  induction es generalizing t with
  | nil => rfl
  | cons e es ih => rw [List.cons_append, rodar_cons, rodar_cons, ih, List.append_assoc]

/-- Some steps lead from `t` to `t'`, and read `lidos` from socket `i`. -/
def Corre (i : Indice) (t : Rede) (lidos : List UInt8) (t' : Rede) : Prop :=
  ∃ es, rodar i t es = (lidos, t')

namespace Corre

variable {i : Indice} {t t' t'' : Rede} {l l' : List UInt8}

theorem refl (i : Indice) (t : Rede) : Corre i t [] t := ⟨[], rfl⟩

theorem trans (h : Corre i t l t') (h' : Corre i t' l' t'') : Corre i t (l ++ l') t'' := by
  obtain ⟨es, he⟩ := h
  obtain ⟨fs, hf⟩ := h'
  refine ⟨es ++ fs, ?_⟩
  rw [rodar_append, he]
  dsimp only
  rw [hf]

/-- One step. -/
theorem um (i : Indice) (t : Rede) (e : Evento) : Corre i t (passo i t e).1 (passo i t e).2 :=
  ⟨[e], by rw [rodar_cons]; simp [rodar]⟩

/-- A change that keeps the sockets. -/
theorem inferior (h : t'.sockets = t.sockets) : Corre i t [] t' := by
  have hs : passo i t (.inferior t') = ([], t') := by
    unfold passo
    rw [← h]
  have hu := um i t (.inferior t')
  rwa [hs] at hu

end Corre

/-! ## The receive path -/

/-- The call runs by steps. -/
def Passeia (i : Indice) (f : Rede → Rede) : Prop := ∀ t, Corre i t [] (f t)

def EnviaPassos (i : Indice) (ip_send : IpSend) : Prop :=
  ∀ t dst_ip proto payload, Corre i t [] (ip_send t dst_ip proto payload).2

section Recepcao

variable {i : Indice} {t : Rede}

theorem sockets_eth_send (dst_mac : List UInt8) (proto : UInt16) (payload : List UInt8) :
    (eth_send t dst_mac proto payload).2.sockets = t.sockets :=
  (abaixo_eth_send dst_mac proto payload).sockets

theorem andamento_corre (i : Indice) : Andamento fun t t' => Corre i t [] t' where
  refl := Corre.refl i
  trans := Corre.trans
  abaixo h := Corre.inferior h.sockets
  aceita {t sock} g hs := by
    have hu := Corre.um i t (.aceita sock g)
    rwa [passo_aceita hs] at hu
  fim {t sock} _ := Corre.um i t (.fim sock)
  guarda {_ t' sock} g _ h := h.trans (Corre.um i t' (.guarda sock g))
  fecha {t sock} _ := Corre.um i t (.fecha sock)

theorem corre_ip_send {eth_poll : Rede → Rede} (h : Passeia i eth_poll) :
    EnviaPassos i (ip_send eth_poll) := (andamento_corre i).ip_send h

theorem corre_send_segment {ip_send : IpSend} (h : EnviaPassos i ip_send) (sock : Indice)
    (flags : UInt8) (data : List UInt8) : Corre i t [] (tcp_send_segment ip_send t sock flags data).2 :=
  (andamento_corre i).send_segment h t sock flags data

/-- A poll, with all that nests in it, runs by steps. -/
theorem corre_eth_poll (i : Indice) (n : Nat) : Passeia i (eth_poll n) :=
  (andamento_corre i).eth_poll n

end Recepcao

/-! ## The calls -/

section Chamadas

variable {i : Indice} {eth_poll : Rede → Rede}

theorem passo_recv_volta (i : Indice) (t : Rede) (sock : Indice) (max_len : UInt16) :
    passo i t (.recv_volta sock max_len) =
      (if sock = i then ((tcp_recv_volta t sock max_len).1.map Prod.snd).getD [] else [],
        (tcp_recv_volta t sock max_len).2) := rfl

theorem corre_espera (h : Passeia i eth_poll) (p : Rede → Bool) (start ticks_max : UInt32)
    (n : Nat) (t : Rede) : Corre i t [] (espera eth_poll p start ticks_max n t) :=
  (andamento_corre i).espera h p start ticks_max n t

theorem corre_recv_laco (h : Passeia i eth_poll) (sock : Indice) (max_len : UInt16)
    (timeout_ms start : UInt32) (n : Nat) (t : Rede) :
    Corre i t (if sock = i then (tcp_recv_laco eth_poll sock max_len timeout_ms start n t).1.2 else [])
      (tcp_recv_laco eth_poll sock max_len timeout_ms start n t).2 := by
  induction n generalizing t with
  | zero =>
    have hu := Corre.um i t (.recv_volta sock max_len)
    rw [passo_recv_volta] at hu
    unfold tcp_recv_laco
    rcases hv : (tcp_recv_volta t sock max_len).1 with _ | r
    · rw [hv] at hu
      exact hu
    · rw [hv] at hu
      exact hu
  | succ n ih =>
    have hu := Corre.um i t (.recv_volta sock max_len)
    rw [passo_recv_volta] at hu
    unfold tcp_recv_laco
    rcases hv : tcp_recv_volta t sock max_len with ⟨_ | r, t'⟩
    · rw [hv] at hu
      have h0 : Corre i t [] t' := by
        simpa using hu
      dsimp only
      by_cases hw : timeout_ms = 0 ∨ timeout_ms / 10 ≤ t'.ticks - start
      · rw [if_pos hw]
        simpa using h0
      · rw [if_neg hw]
        exact h0.trans ((h t').trans (ih _))
    · rw [hv] at hu
      exact hu

/-- `tcp_recv` reads from socket `i` what it returns, where it is a call on socket `i`. -/
theorem corre_tcp_recv (h : Passeia i eth_poll) (t : Rede) (sock : Indice) (max_len : UInt16)
    (timeout_ms : UInt32) :
    Corre i t (if sock = i then (tcp_recv eth_poll t sock max_len timeout_ms).1.2 else [])
      (tcp_recv eth_poll t sock max_len timeout_ms).2 :=
  corre_recv_laco h sock max_len timeout_ms _ _ t

theorem corre_tcp_send (h : Passeia i eth_poll) (t : Rede) (sock : Indice) (data : List UInt8) :
    Corre i t [] (tcp_send (ip_send eth_poll) t sock data).2 := by
  have hs := corre_send_segment (t := t) (corre_ip_send h) sock (TCP_ACK ||| TCP_PSH) data
  unfold tcp_send
  split
  · exact Corre.refl i t
  · split
    · rename_i he
      rw [he] at hs
      exact hs.trans (Corre.um i _ (.avanca sock (UInt32.ofNat data.length)))
    · rename_i he
      rwa [he] at hs

theorem corre_tcp_connect (h : Passeia i eth_poll) (t : Rede) (ip : UInt32) (port : UInt16) :
    Corre i t [] (tcp_connect eth_poll t ip port).2 := by
  unfold tcp_connect
  split
  · exact Corre.refl i t
  · rename_i sock _
    have hf : ∀ t, Corre i t [] (tcp_connect_fim t sock).2 := by
      intro t
      unfold tcp_connect_fim
      split
      · exact Corre.um i _ (.fecha sock)
      · exact Corre.refl i _
    exact (Corre.um i t (.abre sock ip port)).trans
      ((corre_send_segment (corre_ip_send h) sock TCP_SYN []).trans
        ((Corre.um i _ (.avanca sock 1)).trans ((corre_espera h _ _ _ _ _).trans (hf _))))

theorem corre_tcp_close (h : Passeia i eth_poll) (t : Rede) (sock : Indice) :
    Corre i t [] (tcp_close eth_poll t sock) := by
  unfold tcp_close
  split
  · exact Corre.refl i t
  · exact (corre_send_segment (corre_ip_send h) sock (TCP_FIN ||| TCP_ACK) []).trans
      ((Corre.um i _ (.encerra sock)).trans
        ((corre_espera h _ _ _ _ _).trans (Corre.um i _ (.fecha sock))))

end Chamadas

end SpaceOS.Net
