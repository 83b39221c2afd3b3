-- The connections over their runs: the receive ring of a socket as a bounded queue, and the ports
-- by which the sockets are told apart.
import SpaceOS.FramePadding
import SpaceOS.TcpLaws

open Lib.Bytes Lib.RingQueue

namespace SpaceOS.Net

/-! ## The receive ring -/

/-- The bytes that a step puts to the ring of socket `i`, as the copy loop goes over them. -/
def Evento.copiados (i : Indice) (t : Rede) : Evento → List (Queue.Offer UInt8)
  | .guarda sock g => if sock = i then (t.sockets i).rx.offers g.payload else []
  | _ => []

/-- The bytes that the steps of a list put to the ring of socket `i`. -/
def copiados (i : Indice) : Rede → List Evento → List (Queue.Offer UInt8)
  | _, [] => []
  | t, e :: es => e.copiados i t ++ copiados i (passo i t e).2 es

section Anel

variable {t : Rede} {i sock : Indice} {e : Evento} {es : List Evento}

theorem rx_muda (f : Socket → Socket) (h : ∀ s, (f s).rx = s.rx) :
    ((t.muda sock f).sockets i).rx = (t.sockets i).rx := by
  by_cases hi : i = sock
  · subst hi
    rw [sockets_muda_self, h]
  · rw [sockets_muda_ne f hi]

/-- What a step reads, and what it leaves in the ring, is what the ring held and what the step
stored. -/
theorem passo_rx (h : ¬ e.reabre i) :
    (passo i t e).1 ++ ((passo i t e).2.sockets i).rx.contents =
      (t.sockets i).rx.contents ++ Queue.taken (e.copiados i t) := by
  -- the steps that leave the ring alone
  have hfica : ∀ {t' : Rede}, (t'.sockets i).rx = (t.sockets i).rx →
      [] ++ (t'.sockets i).rx.contents = (t.sockets i).rx.contents ++ Queue.taken [] := by
    intro t' ht
    rw [ht, List.nil_append, Queue.taken_nil, List.append_nil]
  cases e with
  | inferior t' => exact hfica rfl
  | abre sock ip port =>
    refine hfica ?_
    dsimp only [passo, tcp_connect_abre]
    rw [sockets_muda_ne _ (Ne.symm h)]
  | aceita sock g =>
    refine hfica ?_
    dsimp only [passo]
    split
    · exact rx_muda _ fun _ => rfl
    · rfl
  | fim sock =>
    refine hfica ?_
    dsimp only [passo]
    exact rx_muda _ fun _ => rfl
  | guarda sock g =>
    dsimp only [passo, Evento.copiados]
    rw [List.nil_append]
    by_cases hi : sock = i
    · subst hi
      rw [if_pos rfl, sockets_muda_self]
      exact Queue.contents_pushAll_taken _ _
    · rw [if_neg hi, sockets_muda_ne _ (Ne.symm hi), Queue.taken_nil, List.append_nil]
  | avanca sock n =>
    refine hfica ?_
    dsimp only [passo]
    exact rx_muda _ fun _ => rfl
  | encerra sock =>
    refine hfica ?_
    dsimp only [passo]
    exact rx_muda _ fun _ => rfl
  | fecha sock =>
    refine hfica ?_
    dsimp only [passo]
    exact rx_muda _ fun _ => rfl
  | recv_volta sock max_len =>
    rw [recv_volta_contents]
    exact (List.append_nil _).symm

theorem rodar_rx (h : ∀ e ∈ es, ¬ e.reabre i) :
    (rodar i t es).1 ++ ((rodar i t es).2.sockets i).rx.contents =
      (t.sockets i).rx.contents ++ Queue.taken (copiados i t es) := by
  induction es generalizing t with
  | nil => exact (List.append_nil _).symm
  | cons e es ih =>
    have hes := ih (t := (passo i t e).2) fun x hx => h x (List.mem_cons_of_mem e hx)
    rw [rodar_cons]
    dsimp only
    rw [List.append_assoc, hes, ← List.append_assoc, passo_rx (h e List.mem_cons_self), copiados,
      Queue.taken_append, List.append_assoc]

theorem taken_copiados {o : Queue.Offer UInt8} (h : o ∈ copiados i t es) :
    o.taken = false ↔ o.used + 1 = TCP_RX_BUF_SIZE := by
  induction es generalizing t with
  | nil => simp [copiados] at h
  | cons e es ih =>
    rcases List.mem_append.mp h with h | h
    · cases e with
      | guarda sock g =>
        dsimp only [Evento.copiados] at h
        by_cases hi : sock = i
        · rw [if_pos hi] at h
          exact Queue.taken_offers h
        · rw [if_neg hi] at h
          exact absurd h List.not_mem_nil
      | _ => exact absurd h List.not_mem_nil
    · exact ih h

/-- From the opening of a socket on, however segments and reads interleave: the indices of its
ring stay inside, it holds 2047 bytes at most, a byte is dropped just where it holds 2047, and what
was read and what the ring holds are the bytes stored, in order. -/
theorem the_receive_ring_is_a_bounded_queue (t : Rede) (i : Indice) (ip : UInt32) (port : UInt16)
    (es : List Evento) (h : ∀ e ∈ es, ¬ e.reabre i) :
    (((rodar i (tcp_connect_abre t i ip port) es).2.sockets i).rx.head < TCP_RX_BUF_SIZE ∧
      ((rodar i (tcp_connect_abre t i ip port) es).2.sockets i).rx.tail < TCP_RX_BUF_SIZE ∧
      ((rodar i (tcp_connect_abre t i ip port) es).2.sockets i).rx.used ≤ 2047) ∧
    (∀ o ∈ copiados i (tcp_connect_abre t i ip port) es, o.taken = false ↔ o.used = 2047) ∧
    (rodar i (tcp_connect_abre t i ip port) es).1 ++
        ((rodar i (tcp_connect_abre t i ip port) es).2.sockets i).rx.contents =
      Queue.taken (copiados i (tcp_connect_abre t i ip port) es) := by
  refine ⟨⟨Queue.head_lt _, Queue.tail_lt _, Nat.le_of_lt_succ (Queue.used_lt _)⟩,
    fun o ho => ?_, ?_⟩
  · rw [taken_copiados ho]
    unfold TCP_RX_BUF_SIZE
    omega
  · have hvazio : ((tcp_connect_abre t i ip port).sockets i).rx.contents = [] := by
      dsimp only [tcp_connect_abre]
      rw [sockets_muda_self]
      rfl
    rw [rodar_rx h, hvazio, List.nil_append]

/-- The law where three bytes come and two are read. -/
theorem three_bytes_wait_in_the_ring :
    let g : Segmento := ⟨80, 49152, TCP_ACK, 1, 1, [7, 8, 9], 0⟩
    let t := tcp_connect_abre (Rede.inicio [] [] fun _ => true) 0 0 80
    ((rodar 0 t [.aceita 0 g, .guarda 0 g, .recv_volta 0 2]).2.sockets 0).rx.used ≤ 2047 ∧
    (rodar 0 t [.aceita 0 g, .guarda 0 g, .recv_volta 0 2]).1 ++
        ((rodar 0 t [.aceita 0 g, .guarda 0 g, .recv_volta 0 2]).2.sockets 0).rx.contents =
      Queue.taken (copiados 0 t [.aceita 0 g, .guarda 0 g, .recv_volta 0 2]) := by
  intro g t
  have h := the_receive_ring_is_a_bounded_queue (Rede.inicio [] [] fun _ => true) 0 0 80
    [.aceita 0 g, .guarda 0 g, .recv_volta 0 2] (by simp [Evento.reabre])
  exact ⟨h.1.2.2, h.2.2⟩

end Anel

/-! ## The ports -/

/-- No two open sockets have the same two ports, and their local ports are ephemeral. -/
structure PortasProprias (t : Rede) : Prop where
  distintas : ∀ i j, i ≠ j → (t.sockets i).state ≠ .closed → (t.sockets j).state ≠ .closed →
    ((t.sockets i).local_port, (t.sockets i).remote_port) ≠
      ((t.sockets j).local_port, (t.sockets j).remote_port)
  efemeras : ∀ i, (t.sockets i).state ≠ .closed → 49152 ≤ (t.sockets i).local_port.toNat

/-- The step opens a socket. -/
def Evento.abertura : Evento → Bool
  | .abre _ _ _ => true
  | _ => false

/-- The step is one of the code where `A` are the sockets opened so far: a connection takes a
closed socket, another step is on a socket that was opened, and the layers below leave the counter
of the ports alone. -/
def Evento.Regular (A : Indice → Prop) (t : Rede) : Evento → Prop
  | .inferior t' => t'.next_local_port = t.next_local_port
  | .abre sock _ _ => (t.sockets sock).state = .closed
  | .aceita sock _ => A sock
  | .fim sock => A sock
  | .guarda sock _ => A sock
  | .avanca sock _ => A sock
  | .encerra sock => A sock
  | .fecha sock => A sock
  | .recv_volta _ _ => True

/-- The sockets opened when the steps are done. -/
def abertos (A : Indice → Prop) (es : List Evento) : Indice → Prop :=
  fun j => A j ∨ ∃ e ∈ es, e.reabre j

def Regulares (i : Indice) : (Indice → Prop) → Rede → List Evento → Prop
  | _, _, [] => True
  | A, t, e :: es => e.Regular A t ∧ Regulares i (abertos A [e]) (passo i t e).2 es

/-- Every open socket is in `A`. -/
def Vivas (A : Indice → Prop) (t : Rede) : Prop := ∀ j, (t.sockets j).state ≠ .closed → A j

/-- The sockets `A` have the ports of `n` connections, each its own. -/
structure Numeradas (A : Indice → Prop) (n : Nat) (t : Rede) : Prop where
  faixa : ∀ j, A j → 49152 ≤ (t.sockets j).local_port.toNat ∧
    (t.sockets j).local_port.toNat < 49152 + n
  proprias : ∀ j k, A j → A k → j ≠ k → (t.sockets j).local_port ≠ (t.sockets k).local_port
  vivas : Vivas A t

section Portas

variable {t : Rede} {i sock : Indice} {e : Evento} {es : List Evento} {A : Indice → Prop} {n : Nat}

theorem abertos_um (A : Indice → Prop) (e : Evento) (j : Indice) :
    abertos A [e] j ↔ A j ∨ e.reabre j := by
  simp [abertos]

theorem muda_porta {f : Socket → Socket} (h : ∀ s, (f s).local_port = s.local_port) (j : Indice) :
    ((t.muda sock f).sockets j).local_port = (t.sockets j).local_port := by
  by_cases hj : j = sock
  · subst hj
    rw [sockets_muda_self, h]
  · rw [sockets_muda_ne f hj]

theorem muda_viva (f : Socket → Socket) (hv : Vivas A t) (h : A sock) :
    Vivas A (t.muda sock f) := by
  intro j hj
  by_cases hs : j = sock
  · exact hs ▸ h
  · rw [sockets_muda_ne f hs] at hj
    exact hv j hj

/-- A step that opens no socket keeps the counter and the ports. -/
structure Mantem (A : Indice → Prop) (t t' : Rede) : Prop where
  contador : t'.next_local_port = t.next_local_port
  porta : ∀ j, (t'.sockets j).local_port = (t.sockets j).local_port
  vivas : Vivas A t → Vivas A t'

theorem mantem_muda {f : Socket → Socket} (h : ∀ s, (f s).local_port = s.local_port)
    (ha : A sock) : Mantem A t (t.muda sock f) :=
  ⟨rfl, muda_porta h, fun hv => muda_viva f hv ha⟩

theorem mantem_passo (h : e.Regular A t) (ha : e.abertura = false) :
    Mantem A t (passo i t e).2 := by
  cases e with
  | inferior t' => exact ⟨h, fun _ => rfl, id⟩
  | abre sock ip port => exact absurd ha (by simp [Evento.abertura])
  | aceita sock g =>
    dsimp only [passo]
    split
    · exact mantem_muda (fun _ => rfl) h
    · exact ⟨rfl, fun _ => rfl, id⟩
  | fim sock =>
    dsimp only [passo]
    exact mantem_muda (fun _ => rfl) h
  | guarda sock g =>
    dsimp only [passo]
    exact mantem_muda (fun _ => rfl) h
  | avanca sock n =>
    dsimp only [passo]
    exact mantem_muda (fun _ => rfl) h
  | encerra sock =>
    dsimp only [passo]
    exact mantem_muda (fun _ => rfl) h
  | fecha sock =>
    dsimp only [passo]
    exact mantem_muda (fun _ => rfl) h
  | recv_volta sock max_len =>
    rw [passo_recv_volta]
    refine ⟨?_, fun j => ?_, fun hv j hj => hv j ?_⟩
    · unfold tcp_recv_volta
      dsimp only
      split_ifs <;> rfl
    · unfold tcp_recv_volta
      dsimp only
      split_ifs
      · dsimp only
        refine muda_porta ?_ j
        intro s
        rfl
      all_goals rfl
    · rwa [(recv_volta_outros t j sock max_len).1] at hj

theorem Mantem.numeradas {t' : Rede} (h : Mantem A t t') (hn : Numeradas A n t) :
    Numeradas A n t' := by
  refine ⟨fun j hj => ?_, fun j k hj hk hjk => ?_, h.vivas hn.vivas⟩
  · rw [h.porta]
    exact hn.faixa j hj
  · rw [h.porta, h.porta]
    exact hn.proprias j k hj hk hjk

/-- The socket that a connection takes gets the next port. -/
theorem sockets_abre (t : Rede) (sock : Indice) (ip : UInt32) (port : UInt16) :
    ((tcp_connect_abre t sock ip port).sockets sock).local_port = t.next_local_port ∧
    ((tcp_connect_abre t sock ip port).sockets sock).state = .syn_sent ∧
    ∀ j, j ≠ sock → (tcp_connect_abre t sock ip port).sockets j = t.sockets j := by
  dsimp only [tcp_connect_abre]
  refine ⟨?_, ?_, fun j hj => sockets_muda_ne _ hj⟩
  · rw [sockets_muda_self]
  · rw [sockets_muda_self]

theorem numeradas_abre {ip : UInt32} {port : UInt16} (hn : Numeradas A n t)
    (hc : t.next_local_port.toNat = 49152 + n) :
    Numeradas (fun j => A j ∨ sock = j) (n + 1) (tcp_connect_abre t sock ip port) := by
  obtain ⟨hp, _, hne⟩ := sockets_abre t sock ip port
  -- the port is above those of the connections before
  have hnovo : ∀ j, A j → j ≠ sock → (t.sockets j).local_port ≠ t.next_local_port := by
    intro j hj _ he
    have := (hn.faixa j hj).2
    rw [he, hc] at this
    omega
  have hde : ∀ {j}, (A j ∨ sock = j) → j ≠ sock → A j := fun h hj =>
    h.resolve_right fun he => hj he.symm
  refine ⟨fun j hj => ?_, fun j k hj hk hjk => ?_, fun j hj => ?_⟩
  · by_cases hs : j = sock
    · subst hs
      rw [hp, hc]
      omega
    · rw [hne j hs]
      have := hn.faixa j (hde hj hs)
      omega
  · by_cases hs : j = sock
    · subst hs
      rw [hp, hne k (Ne.symm hjk)]
      exact (hnovo k (hde hk (Ne.symm hjk)) (Ne.symm hjk)).symm
    · by_cases hs' : k = sock
      · subst hs'
        rw [hp, hne j hs]
        exact hnovo j (hde hj hs) hs
      · rw [hne j hs, hne k hs']
        exact hn.proprias j k (hde hj hs) (hde hk hs') hjk
  · by_cases hs : j = sock
    · exact Or.inr hs.symm
    · rw [hne j hs] at hj
      exact Or.inl (hn.vivas j hj)

theorem Numeradas.portasProprias (h : Numeradas A n t) : PortasProprias t where
  distintas i j hij hi hj he :=
    h.proprias i j (h.vivas i hi) (h.vivas j hj) hij (congrArg Prod.fst he)
  efemeras i hi := (h.faixa i (h.vivas i hi)).1

/-- The steps that open sockets. -/
def aberturas (es : List Evento) : Nat := es.countP Evento.abertura

theorem aberturas_cons (e : Evento) (es : List Evento) :
    aberturas (e :: es) = aberturas [e] + aberturas es := by
  unfold aberturas
  rw [List.countP_cons, List.countP_singleton]
  omega

/-- The counter after `n` connections. -/
def Contado (n : Nat) (t : Rede) : Prop := t.next_local_port.toNat = (49152 + n) % 65536

theorem contado_passo (h : e.Regular A t) (hc : Contado n t) :
    Contado (n + aberturas [e]) (passo i t e).2 := by
  unfold Contado aberturas at *
  rw [List.countP_singleton]
  cases ha : e.abertura with
  | false =>
    rw [(mantem_passo h ha).contador]
    exact hc
  | true =>
    cases e with
    | abre sock ip port =>
      change (t.next_local_port + 1).toNat = (49152 + (n + 1)) % 65536
      rw [UInt16.toNat_add, hc]
      change (_ + 1) % 65536 = _
      omega
    | _ => exact absurd ha (by simp [Evento.abertura])

theorem numeradas_passo (h : e.Regular A t) (hn : Numeradas A n t) (hc : Contado n t)
    (hle : n + aberturas [e] ≤ 16384) :
    Numeradas (abertos A [e]) (n + aberturas [e]) (passo i t e).2 := by
  have hab : abertos A [e] = fun j => A j ∨ e.reabre j := funext fun j => propext (abertos_um A e j)
  unfold aberturas at *
  rw [List.countP_singleton] at *
  rw [hab]
  cases ha : e.abertura with
  | false =>
    have hr : (fun j => A j ∨ e.reabre j) = A := by
      funext j
      cases e with
      | abre sock ip port => exact absurd ha (by simp [Evento.abertura])
      | _ => exact propext (or_iff_left id)
    rw [hr]
    exact (mantem_passo h ha).numeradas hn
  | true =>
    rw [ha] at hle
    cases e with
    | abre sock ip port =>
      refine numeradas_abre hn ?_
      unfold Contado at hc
      simp only [if_true] at hle
      omega
    | _ => exact absurd ha (by simp [Evento.abertura])

theorem numeradas_rodar (h : Regulares i A t es) (hn : Numeradas A n t) (hc : Contado n t)
    (hle : n + aberturas es ≤ 16384) : PortasProprias (rodar i t es).2 := by
  induction es generalizing A t n with
  | nil => exact hn.portasProprias
  | cons e es ih =>
    rw [aberturas_cons] at hle
    exact ih h.2 (numeradas_passo h.1 hn hc (by omega)) (contado_passo h.1 hc) (by omega)

theorem Regulares.take (h : Regulares i A t es) (k : Nat) : Regulares i A t (es.take k) := by
  induction es generalizing A t k with
  | nil => rwa [List.take_nil]
  | cons e es ih =>
    cases k with
    | zero => trivial
    | succ k => exact ⟨h.1, ih h.2 k⟩

theorem aberturas_take_le (k : Nat) (es : List Evento) : aberturas (es.take k) ≤ aberturas es :=
  (List.take_sublist k es).countP_le

/-- The connection after the 16384th takes port 0. -/
theorem porta_zero (h : Regulares i A t es) (hc : Contado n t) (hn : n ≤ 16384)
    (hlt : 16384 < n + aberturas es) : ∃ k, ¬ PortasProprias (rodar i t (es.take k)).2 := by
  induction es generalizing A t n with
  | nil => exact absurd hlt (by simp [aberturas]; omega)
  | cons e es ih =>
    by_cases hle : n + aberturas [e] ≤ 16384
    · rw [aberturas_cons] at hlt
      obtain ⟨k, hk⟩ := ih h.2 (contado_passo h.1 hc) hle (by omega)
      exact ⟨k + 1, hk⟩
    · refine ⟨1, fun hp => ?_⟩
      cases e with
      | abre sock ip port =>
        obtain ⟨hp', hs, _⟩ := sockets_abre t sock ip port
        have h16 : n = 16384 := by
          have : aberturas [.abre sock ip port] = 1 := rfl
          omega
        have hz : 49152 ≤ ((tcp_connect_abre t sock ip port).sockets sock).local_port.toNat :=
          hp.efemeras sock (ne_of_eq_of_ne hs (by decide))
        unfold Contado at hc
        rw [hp', hc, h16] at hz
        omega
      | _ => exact absurd hn hle

/-- A run from boot. -/
theorem contado_inicio (mac_addr : List UInt8) (polls : List Poll) (tok : Nat → Bool) :
    Contado 0 (Rede.inicio mac_addr polls tok) ∧
    Numeradas (fun _ => False) 0 (Rede.inicio mac_addr polls tok) :=
  ⟨rfl, fun _ h => h.elim, fun _ _ h => h.elim, fun _ h => absurd rfl h⟩

end Portas

/-! ## The calls -/

/-- A call of the socket layer. -/
inductive Chamada
  | connect (ip : UInt32) (port : UInt16)
  | close (sock : Indice)

/-- The state after a call, with polls that nest up to `n` deep. -/
def Chamada.faz (n : Nat) (t : Rede) : Chamada → Rede
  | .connect ip port => (tcp_connect (eth_poll n) t ip port).2
  | .close sock => tcp_close (eth_poll n) t sock

/-- The local port that a call takes, if it takes one. -/
def Chamada.porta (t : Rede) : Chamada → List UInt16
  | .connect _ _ => if (soquete_livre t).isSome then [t.next_local_port] else []
  | .close _ => []

/-- The local ports that the calls of a list take. -/
def portas (n : Nat) : Rede → List Chamada → List UInt16
  | _, [] => []
  | t, c :: cs => c.porta t ++ portas n (c.faz n t) cs

section Chamadas

variable {t t' t'' : Rede} {i sock : Indice} {es fs : List Evento} {A B : Indice → Prop} {n : Nat}

theorem Regulares.mono (hAB : ∀ j, A j → B j) (h : Regulares i A t es) : Regulares i B t es := by
  induction es generalizing A B t with
  | nil => trivial
  | cons e es ih =>
    refine ⟨?_, ih (fun j hj => ?_) h.2⟩
    · have he := h.1
      cases e with
      | inferior t' => exact he
      | abre sock ip port => exact he
      | recv_volta sock max_len => trivial
      | aceita sock g => exact hAB sock he
      | fim sock => exact hAB sock he
      | guarda sock g => exact hAB sock he
      | avanca sock n => exact hAB sock he
      | encerra sock => exact hAB sock he
      | fecha sock => exact hAB sock he
    · exact hj.imp_left (hAB j)

theorem Regulares.append (h : Regulares i A t es)
    (h' : Regulares i (abertos A es) (rodar i t es).2 fs) : Regulares i A t (es ++ fs) := by
  induction es generalizing A t with
  | nil => exact h'.mono fun j hj => hj.resolve_right (by simp)
  | cons e es ih =>
    refine ⟨h.1, ih h.2 (h'.mono fun j hj => ?_)⟩
    rcases hj with hj | ⟨x, hx, hr⟩
    · exact Or.inl (Or.inl hj)
    · rcases List.mem_cons.mp hx with rfl | hx
      · exact Or.inl (Or.inr ⟨x, List.mem_singleton_self x, hr⟩)
      · exact Or.inr ⟨x, hx, hr⟩

theorem aberturas_append (es fs : List Evento) :
    aberturas (es ++ fs) = aberturas es + aberturas fs := List.countP_append

/-- Steps of the code on the sockets `A`, of which `k` open one, lead from `t` to `t'`. -/
def Segue (i : Indice) (A : Indice → Prop) (k : Nat) (t t' : Rede) : Prop :=
  ∃ es, Regulares i A t es ∧ aberturas es = k ∧ (rodar i t es).2 = t'

theorem Segue.refl (t : Rede) : Segue i A 0 t t := ⟨[], trivial, rfl, rfl⟩

theorem Segue.trans {k l : Nat} (h : Segue i A k t t') (h' : Segue i A l t' t'') :
    Segue i A (k + l) t t'' := by
  obtain ⟨es, hr, hk, rfl⟩ := h
  obtain ⟨fs, hr', hl, rfl⟩ := h'
  refine ⟨es ++ fs, hr.append (hr'.mono fun j hj => Or.inl hj), ?_, ?_⟩
  · rw [aberturas_append, hk, hl]
  · rw [rodar_append]

theorem Segue.um {e : Evento} (h : e.Regular A t) : Segue i A (aberturas [e]) t (passo i t e).2 :=
  ⟨[e], ⟨h, trivial⟩, rfl, by rw [rodar_cons]; rfl⟩

/-- A part of a call that opens no socket. -/
def Anda (i : Indice) (A : Indice → Prop) (t t' : Rede) : Prop :=
  Vivas A t → Segue i A 0 t t' ∧ Vivas A t'

theorem Anda.trans (h : Anda i A t t') (h' : Anda i A t' t'') : Anda i A t t'' := by
  intro hv
  obtain ⟨hs, hv'⟩ := h hv
  obtain ⟨hs', hv''⟩ := h' hv'
  exact ⟨hs.trans hs', hv''⟩

theorem Anda.um {e : Evento} (he : e.abertura = false) (h : e.Regular A t) :
    Anda i A t (passo i t e).2 := by
  intro hv
  have hs := Segue.um (i := i) h
  unfold aberturas at hs
  rw [List.countP_singleton, he] at hs
  exact ⟨hs, (mantem_passo h he).vivas hv⟩

theorem andamento_anda (i : Indice) (A : Indice → Prop) : Andamento (Anda i A) where
  refl t hv := ⟨Segue.refl t, hv⟩
  trans := Anda.trans
  abaixo {t t'} h := by
    have hp : (passo i t (.inferior t')).2 = t' := by
      unfold passo
      dsimp only
      rw [← h.sockets]
    have ha := Anda.um (i := i) (A := A) (t := t) (e := .inferior t') rfl h.contador
    rwa [hp] at ha
  aceita {t sock} g hs hv := by
    have ha : A sock := hv sock (by rw [hs]; simp)
    have hu := Anda.um (i := i) (A := A) (t := t) (e := .aceita sock g) rfl ha hv
    rwa [passo_aceita hs] at hu
  fim {t sock} hs hv := by
    have ha : A sock := hv sock (by rw [hs]; simp)
    exact Anda.um (i := i) (e := .fim sock) rfl ha hv
  guarda {t t' sock} g hs h hv := by
    obtain ⟨h1, h2⟩ := h hv
    obtain ⟨h3, h4⟩ := Anda.um (i := i) (A := A) (t := t') (e := .guarda sock g) rfl (hv sock hs) h2
    exact ⟨h1.trans h3, h4⟩
  fecha {t sock} hs hv := Anda.um (i := i) (e := .fecha sock) rfl (hv sock hs) hv

theorem anda_eth_poll (i : Indice) (A : Indice → Prop) (n : Nat) (t : Rede) :
    Anda i A t (eth_poll n t) := (andamento_anda i A).eth_poll n t

theorem anda_send_segment (i : Indice) (A : Indice → Prop) (n : Nat) (t : Rede) (sock : Indice)
    (flags : UInt8) (data : List UInt8) :
    Anda i A t (tcp_send_segment (ip_send (eth_poll n)) t sock flags data).2 :=
  (andamento_anda i A).send_segment ((andamento_anda i A).ip_send (anda_eth_poll i A n)) t sock
    flags data

theorem anda_espera (i : Indice) (A : Indice → Prop) (n : Nat) (p : Rede → Bool)
    (start ticks_max : UInt32) (k : Nat) (t : Rede) :
    Anda i A t (espera (eth_poll n) p start ticks_max k t) :=
  (andamento_anda i A).espera (anda_eth_poll i A n) p start ticks_max k t

theorem anda_tcp_close (t : Rede) (sock : Indice) : Anda i A t (tcp_close (eth_poll n) t sock) := by
  intro hv
  unfold tcp_close
  split
  · exact ⟨Segue.refl t, hv⟩
  · rename_i hs
    have ha : A sock := hv sock hs
    have h1 := anda_send_segment i A n t sock (TCP_FIN ||| TCP_ACK) []
    have h2 := Anda.um (i := i) (t := (tcp_send_segment (ip_send (eth_poll n)) t sock
      (TCP_FIN ||| TCP_ACK) []).2) (e := .encerra sock) rfl ha
    exact (h1.trans (h2.trans ((anda_espera i A n _ _ _ _ _).trans
      (Anda.um (e := .fecha sock) rfl ha)))) hv

theorem soquete_livre_closed {sock : Indice} (h : soquete_livre t = some sock) :
    (t.sockets sock).state = .closed := by
  have hs := List.find?_some h
  simpa using hs

/-- A call runs by steps of the code, and opens a socket for each port that it takes. -/
theorem passos_chamada (i : Indice) (n : Nat) (c : Chamada) (hv : Vivas A t) :
    ∃ es, Regulares i A t es ∧ aberturas es = (c.porta t).length ∧ (rodar i t es).2 = c.faz n t ∧
      Vivas (abertos A es) (c.faz n t) := by
  cases c with
  | close sock =>
    obtain ⟨⟨es, hr, hk, he⟩, hv'⟩ := anda_tcp_close (i := i) (n := n) t sock hv
    exact ⟨es, hr, hk, he, fun j hj => Or.inl (hv' j hj)⟩
  | connect ip port =>
    dsimp only [Chamada.faz, Chamada.porta]
    unfold tcp_connect
    cases hl : soquete_livre t with
    | none => exact ⟨[], trivial, rfl, rfl, fun j hj => Or.inl (hv j hj)⟩
    | some sock =>
      have hab : ∀ j, abertos A [.abre sock ip port] j ↔ A j ∨ sock = j :=
        abertos_um A (.abre sock ip port)
      have ha : abertos A [.abre sock ip port] sock := (hab sock).mpr (Or.inr rfl)
      have hv1 : Vivas (abertos A [.abre sock ip port]) (tcp_connect_abre t sock ip port) := by
        intro j hj
        rw [hab]
        by_cases hs : j = sock
        · exact Or.inr hs.symm
        · rw [(sockets_abre _ _ ip port).2.2 j hs] at hj
          exact Or.inl (hv j hj)
      have hfim : ∀ t, Anda i (abertos A [.abre sock ip port]) t (tcp_connect_fim t sock).2 := by
        intro t
        unfold tcp_connect_fim
        split
        · exact Anda.um (e := .fecha sock) rfl ha
        · exact fun hv => ⟨Segue.refl t, hv⟩
      have hseq : ∀ t, Anda i (abertos A [.abre sock ip port]) t (passo i t (.avanca sock 1)).2 :=
        fun _ => Anda.um (e := .avanca sock 1) rfl ha
      obtain ⟨⟨es, hr, hk, he⟩, hv'⟩ := ((anda_send_segment i _ n _ sock TCP_SYN []).trans
        ((hseq _).trans ((anda_espera i _ n _ _ _ _ _).trans (hfim _)))) hv1
      refine ⟨.abre sock ip port :: es, ⟨soquete_livre_closed hl, hr⟩, ?_, he, fun j hj => ?_⟩
      · rw [aberturas_cons, hk]
        rfl
      · rcases (hab j).mp (hv' j hj) with h | h
        · exact Or.inl h
        · exact Or.inr ⟨_, List.mem_cons_self, h⟩

/-- A run of calls runs by steps of the code. -/
theorem passos_chamadas (i : Indice) (n : Nat) (cs : List Chamada) (hv : Vivas A t) :
    ∃ es, Regulares i A t es ∧ aberturas es = (portas n t cs).length ∧
      (rodar i t es).2 = cs.foldl (Chamada.faz n) t := by
  induction cs generalizing A t with
  | nil => exact ⟨[], trivial, rfl, rfl⟩
  | cons c cs ih =>
    obtain ⟨es, hr, hk, he, hv'⟩ := passos_chamada i n c hv
    obtain ⟨fs, hr', hk', he'⟩ := ih hv'
    refine ⟨es ++ fs, hr.append (he ▸ hr'), ?_, ?_⟩
    · rw [aberturas_append, hk, hk', portas, List.length_append]
    · rw [rodar_append]
      dsimp only
      rw [he, he']
      rfl

theorem contado_rodar (h : Regulares i A t es) (hc : Contado n t) :
    Contado (n + aberturas es) (rodar i t es).2 := by
  induction es generalizing A t n with
  | nil => exact hc
  | cons e es ih =>
    have hr := ih h.2 (contado_passo h.1 hc)
    rw [aberturas_cons]
    rwa [Nat.add_assoc] at hr

/-- The ports that the calls take are ephemeral up to the 16384th. -/
theorem portas_efemeras {m : Nat} (cs : List Chamada) (hv : Vivas A t) (hc : Contado m t)
    (hm : m ≤ 16384) : (∀ p ∈ portas n t cs, 49152 ≤ p.toNat) ↔
      m + (portas n t cs).length ≤ 16384 := by
  induction cs generalizing A t m with
  | nil => simpa [portas] using hm
  | cons c cs ih =>
    obtain ⟨es, hr, hk, he, hv'⟩ := passos_chamada 0 n c hv
    have hc' := contado_rodar hr hc
    rw [he, hk] at hc'
    have hporta : c.porta t = [] ∨ c.porta t = [t.next_local_port] := by
      unfold Chamada.porta
      split
      · split
        · exact Or.inr rfl
        · exact Or.inl rfl
      · exact Or.inl rfl
    unfold Contado at hc
    rw [portas, List.length_append]
    rcases hporta with h0 | h1
    · rw [h0] at hc' ⊢
      rw [List.nil_append, List.length_nil, Nat.zero_add]
      exact ih hv' hc' hm
    · rw [h1] at hc' ⊢
      rw [List.singleton_append, List.forall_mem_cons, List.length_singleton, hc]
      by_cases hlt : m < 16384
      · rw [ih hv' hc' hlt, List.length_singleton]
        omega
      · constructor
        · rintro ⟨hp, _⟩
          omega
        · intro hle
          omega

/-- From boot, in any run of connections and closings, the open sockets have ports of their own
and every port taken is ephemeral just as long as no more than 16384 connections take a socket. -/
theorem sockets_have_ports_of_their_own_iff (mac_addr : List UInt8) (polls : List Poll)
    (tok : Nat → Bool) (n : Nat) (cs : List Chamada) :
    (∃ es, Regulares 0 (fun _ => False) (Rede.inicio mac_addr polls tok) es ∧
      (rodar 0 (Rede.inicio mac_addr polls tok) es).2 =
        cs.foldl (Chamada.faz n) (Rede.inicio mac_addr polls tok) ∧
      aberturas es = (portas n (Rede.inicio mac_addr polls tok) cs).length) ∧
    (∀ es, Regulares 0 (fun _ => False) (Rede.inicio mac_addr polls tok) es →
      ((∀ k, PortasProprias (rodar 0 (Rede.inicio mac_addr polls tok) (es.take k)).2) ↔
        aberturas es ≤ 16384)) ∧
    ((∀ p ∈ portas n (Rede.inicio mac_addr polls tok) cs, 49152 ≤ p.toNat) ↔
      (portas n (Rede.inicio mac_addr polls tok) cs).length ≤ 16384) := by
  obtain ⟨hc, hn⟩ := contado_inicio mac_addr polls tok
  refine ⟨?_, fun es hr => ⟨fun hp => ?_, fun hle k => ?_⟩, ?_⟩
  · obtain ⟨es, hr, hk, he⟩ := passos_chamadas 0 n cs hn.vivas
    exact ⟨es, hr, he, hk⟩
  · by_contra hgt
    obtain ⟨k, hk⟩ := porta_zero hr hc (Nat.zero_le _) (by omega)
    exact hk (hp k)
  · have hk := aberturas_take_le k es
    exact numeradas_rodar (hr.take k) hn hc (by omega)
  · have hp := portas_efemeras (n := n) cs hn.vivas hc (Nat.zero_le _)
    rwa [Nat.zero_add] at hp

/-- All sockets are free, and the card brings nothing. -/
def Ociosa (t : Rede) : Prop := t.polls = [] ∧ ∀ j, (t.sockets j).state = .closed

/-- A connection that nobody answers leaves its socket free again. -/
theorem ociosa_connect (n : Nat) (h : Ociosa t) :
    (soquete_livre t).isSome ∧ Ociosa ((Chamada.connect 0 80).faz n t) := by
  obtain ⟨hp, hc⟩ := h
  obtain ⟨sock, hs⟩ : ∃ sock, soquete_livre t = some sock := by
    unfold soquete_livre
    rw [← Option.isSome_iff_exists, List.find?_isSome]
    exact ⟨0, List.mem_finRange _, by simpa using hc 0⟩
  refine ⟨by rw [hs]; rfl, ?_⟩
  dsimp only [Chamada.faz]
  unfold tcp_connect
  rw [hs]
  dsimp only
  have hsend : ∀ t : Rede, t.polls = [] →
      (tcp_send_segment (ip_send (eth_poll n)) t sock TCP_SYN []).2.sockets = t.sockets ∧
      (tcp_send_segment (ip_send (eth_poll n)) t sock TCP_SYN []).2.polls = [] := by
    intro t hp
    unfold tcp_send_segment
    dsimp only
    exact ip_send_sem_polls (eth_poll n) (by exact hp) _ _ _
  obtain ⟨h1, h2⟩ := hsend (tcp_connect_abre t sock 0 80) hp
  obtain ⟨_, hsyn, hne⟩ := sockets_abre t sock 0 80
  generalize (tcp_send_segment (ip_send (eth_poll n)) (tcp_connect_abre t sock 0 80) sock TCP_SYN
    []).2 = t' at h1 h2
  have hpoll : ∀ f, (t'.muda sock f).polls.length = 0 := fun f => by
    change t'.polls.length = 0
    rw [h2]
    rfl
  rw [hpoll]
  unfold espera tcp_connect_fim
  have hst : ((t'.muda sock fun s => { s with seq_num := s.seq_num + 1 }).sockets sock).state ≠
      .established := by
    rw [sockets_muda_self, h1]
    simp [hsyn]
  rw [if_pos hst]
  refine ⟨h2, fun j => ?_⟩
  by_cases hj : j = sock
  · subst hj
    rw [sockets_muda_self]
  · rw [sockets_muda_ne _ hj, sockets_muda_ne _ hj, h1, hne j hj]
    exact hc j

theorem length_portas_ociosa (n k : Nat) (h : Ociosa t) :
    (portas n t (List.replicate k (.connect 0 80))).length = k := by
  induction k generalizing t with
  | zero => rfl
  | succ k ih =>
    obtain ⟨hs, ho⟩ := ociosa_connect n h
    rw [List.replicate_succ, portas, List.length_append, ih ho]
    dsimp only [Chamada.porta]
    rw [if_pos hs, List.length_singleton]
    omega

/-- The 16385th connection has no ephemeral port. -/
theorem a_late_connection_has_no_ephemeral_port : ¬ ∀ mac_addr polls tok n cs,
    ∀ p ∈ portas n (Rede.inicio mac_addr polls tok) cs, 49152 ≤ p.toNat := by
  intro h
  obtain ⟨hc, hn⟩ := contado_inicio [] [] fun _ => true
  have hle := (portas_efemeras (n := 0) (List.replicate 16385 (.connect 0 80)) hn.vivas hc
    (Nat.zero_le _)).mp (h [] [] (fun _ => true) 0 _)
  rw [length_portas_ociosa 0 16385 ⟨rfl, fun _ => rfl⟩] at hle
  omega

end Chamadas

end SpaceOS.Net
