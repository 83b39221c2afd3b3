-- The laws of the TCP sockets: what `tcp_recv` returns against the stream of the peer, and what
-- is acknowledged against what is kept.
import SpaceOS.TcpRun

open Lib.Bytes Lib.RingQueue

namespace SpaceOS.Net

/-! ## What one step does to a socket -/

/-- The step sets up socket `i` for a new connection. -/
def Evento.reabre (i : Indice) : Evento → Prop
  | .abre sock _ _ => sock = i
  | _ => False

/-- The socket is not waiting for a SYN+ACK, and has the ring and the `ack_num` of `s`. -/
structure Fica (s s' : Socket) : Prop where
  state : s'.state ≠ .syn_sent
  ack_num : s'.ack_num = s.ack_num
  rx : s'.rx = s.rx

/-- What a step does to the ring and the `ack_num` of socket `i`: it stores a payload, or takes a
FIN, or keeps `ack_num` and reads from the front of the ring. -/
inductive Efeito (i : Indice) (t : Rede) (e : Evento) : Prop
  | guarda (g : Segmento) (he : e = .guarda i g) (hl : (passo i t e).1 = [])
      (hs : (passo i t e).2.sockets i = (t.sockets i).guarda g.payload)
  | fim (he : e = .fim i) (hl : (passo i t e).1 = [])
      (hack : ((passo i t e).2.sockets i).ack_num = (t.sockets i).ack_num + 1)
      (hrx : ((passo i t e).2.sockets i).rx = (t.sockets i).rx)
  | alheio (hg : ∀ g, e ≠ .guarda i g) (hf : e ≠ .fim i)
      (hack : ((passo i t e).2.sockets i).ack_num = (t.sockets i).ack_num)
      (hrx : (passo i t e).1 ++ ((passo i t e).2.sockets i).rx.contents =
        (t.sockets i).rx.contents)

section Passo

variable {t : Rede} {i sock : Indice}

theorem fica_muda {g : Socket → Socket} (hs : (t.sockets i).state ≠ .syn_sent)
    (hg : i = sock → Fica (t.sockets sock) (g (t.sockets sock))) :
    Fica (t.sockets i) ((t.muda sock g).sockets i) := by
  by_cases hi : i = sock
  · subst hi
    rw [sockets_muda_self]
    exact hg rfl
  · rw [sockets_muda_ne g hi]
    exact ⟨hs, rfl, rfl⟩

/-- What `tcp_recv` copies out is the front of the ring, and the ring keeps the rest. -/
theorem recv_volta_contents (t : Rede) (i sock : Indice) (max_len : UInt16) :
    (passo i t (.recv_volta sock max_len)).1 ++
      ((passo i t (.recv_volta sock max_len)).2.sockets i).rx.contents =
      (t.sockets i).rx.contents := by
  rw [passo_recv_volta]
  unfold tcp_recv_volta
  dsimp only
  by_cases hne : (t.sockets sock).rx.head ≠ (t.sockets sock).rx.tail
  · rw [if_pos hne]
    obtain ⟨h1, h2⟩ := Queue.pull_eq (r := (t.sockets sock).rx)
      (Nat.min_le_left (t.sockets sock).rx.used max_len.toNat)
    by_cases h : sock = i
    · subst h
      rw [if_pos rfl]
      dsimp only
      rw [sockets_muda_self]
      dsimp only
      rw [h2]
      simp [h1]
    · rw [if_neg h, sockets_muda_ne _ (Ne.symm h), List.nil_append]
  · rw [if_neg hne]
    split_ifs <;> rfl

theorem recv_volta_outros (t : Rede) (i sock : Indice) (max_len : UInt16) :
    ((tcp_recv_volta t sock max_len).2.sockets i).state = (t.sockets i).state ∧
    ((tcp_recv_volta t sock max_len).2.sockets i).ack_num = (t.sockets i).ack_num := by
  unfold tcp_recv_volta
  dsimp only
  split_ifs
  · by_cases hi : i = sock
    · subst hi
      dsimp only
      rw [sockets_muda_self]
      exact ⟨rfl, rfl⟩
    · dsimp only
      rw [sockets_muda_ne _ hi]
      exact ⟨rfl, rfl⟩
  · exact ⟨rfl, rfl⟩
  · exact ⟨rfl, rfl⟩
  · exact ⟨rfl, rfl⟩

theorem Fica.efeito {e : Evento} (h : Fica (t.sockets i) ((passo i t e).2.sockets i))
    (hl : (passo i t e).1 = []) (hg : ∀ g, e ≠ .guarda i g) (hf : e ≠ .fim i) :
    ((passo i t e).2.sockets i).state ≠ .syn_sent ∧ Efeito i t e :=
  ⟨h.state, Efeito.alheio hg hf h.ack_num (by rw [hl, h.rx, List.nil_append])⟩

/-- A step on a connected socket, other than one that opens it again. -/
theorem passo_efeito {e : Evento} (h : ¬ e.reabre i) (hs : (t.sockets i).state ≠ .syn_sent) :
    ((passo i t e).2.sockets i).state ≠ .syn_sent ∧ Efeito i t e := by
  cases e with
  | inferior t' =>
    refine Fica.efeito ?_ rfl (fun g => by simp) (by simp)
    exact ⟨hs, rfl, rfl⟩
  | abre sock ip port =>
    refine Fica.efeito ?_ rfl (fun g => by simp) (by simp)
    dsimp only [passo, tcp_connect_abre]
    exact fica_muda hs fun he => absurd he.symm h
  | aceita sock g =>
    refine Fica.efeito ?_ rfl (fun g => by simp) (by simp)
    by_cases hss : (t.sockets sock).state = .syn_sent
    · rw [passo_aceita hss]
      dsimp only
      refine fica_muda hs ?_
      rintro rfl
      exact absurd hss hs
    · change Fica _ ((ite _ _ _ : Rede).sockets i)
      rw [if_neg hss]
      exact ⟨hs, rfl, rfl⟩
  | fim sock =>
    by_cases hi : i = sock
    · subst hi
      have hself : (passo i t (.fim i)).2.sockets i =
          { t.sockets i with ack_num := (t.sockets i).ack_num + 1, state := .close_wait } := by
        dsimp only [passo]
        rw [sockets_muda_self]
      refine ⟨by rw [hself]; simp, Efeito.fim rfl rfl (by rw [hself]) (by rw [hself])⟩
    · refine Fica.efeito ?_ rfl (fun g => by simp) (by simpa using Ne.symm hi)
      dsimp only [passo]
      exact fica_muda hs fun he => absurd he hi
  | guarda sock g =>
    by_cases hi : i = sock
    · subst hi
      have hself : (passo i t (.guarda i g)).2.sockets i = (t.sockets i).guarda g.payload := by
        dsimp only [passo]
        rw [sockets_muda_self]
      exact ⟨by rw [hself]; exact hs, Efeito.guarda g rfl rfl hself⟩
    · refine Fica.efeito ?_ rfl (fun g' => by simp [Ne.symm hi]) (by simp)
      dsimp only [passo]
      exact fica_muda hs fun he => absurd he hi
  | avanca sock n =>
    refine Fica.efeito ?_ rfl (fun g => by simp) (by simp)
    dsimp only [passo]
    exact fica_muda hs fun he => ⟨by rwa [← he], rfl, rfl⟩
  | encerra sock =>
    refine Fica.efeito ?_ rfl (fun g => by simp) (by simp)
    dsimp only [passo]
    exact fica_muda hs fun _ => ⟨by simp, rfl, rfl⟩
  | fecha sock =>
    refine Fica.efeito ?_ rfl (fun g => by simp) (by simp)
    dsimp only [passo]
    exact fica_muda hs fun _ => ⟨by simp, rfl, rfl⟩
  | recv_volta sock max_len =>
    obtain ⟨h1, h2⟩ := recv_volta_outros t i sock max_len
    exact ⟨ne_of_eq_of_ne h1 hs, Efeito.alheio (fun g => by simp) (by simp) h2
      (recv_volta_contents t i sock max_len)⟩

end Passo

/-! ## The stream of a connection -/

/-- Socket `i` is connected and has received no data yet. -/
structure Aberta (t : Rede) (i : Indice) : Prop where
  conectado : (t.sockets i).state = .established
  vazio : (t.sockets i).rx.contents = []

/-- The SYN+ACK that answers a SYN opens the connection, and says where the stream starts. -/
theorem aberta_aceita (t : Rede) (i : Indice) (ip : UInt32) (port : UInt16) (g : Segmento) :
    Aberta (passo i (tcp_connect_abre t i ip port) (.aceita i g)).2 i ∧
    ((passo i (tcp_connect_abre t i ip port) (.aceita i g)).2.sockets i).ack_num = g.seq + 1 := by
  have hs : (tcp_connect_abre t i ip port).sockets i =
      { Socket.zero with
        state := .syn_sent
        remote_ip := ip
        remote_port := port
        local_port := t.next_local_port
        seq_num := 0x12345678 } := by
    dsimp only [tcp_connect_abre]
    rw [sockets_muda_self]
  rw [passo_aceita (by rw [hs])]
  dsimp only
  refine ⟨⟨?_, ?_⟩, ?_⟩
  · rw [sockets_muda_self]
  · rw [sockets_muda_self, hs]
    rfl
  · rw [sockets_muda_self]

/-- The segment carries the peer's stream from place `off` on, under the sequence number of
that place. -/
structure Pedaco (fluxo : List UInt8) (base : UInt32) (g : Segmento) (off : Nat) : Prop where
  seq : g.seq = base + UInt32.ofNat off
  dados : g.payload <+: fluxo.drop off

/-- The data that the steps store in socket `i` comes from the peer's stream, cut anywhere, in any
order, any number of times, and the connection is not opened again. `P` limits the places where
the data starts; `lidos` is what was read before. -/
def Chegadas (i : Indice) (fluxo : List UInt8) (base : UInt32)
    (P : Rede → List UInt8 → Nat → Prop) : Rede → List UInt8 → List Evento → Prop
  | _, _, [] => True
  | t, lidos, e :: es =>
    ¬ e.reabre i ∧
    (∀ g, e = .guarda i g → ∃ off, Pedaco fluxo base g off ∧ P t lidos off) ∧
    Chegadas i fluxo base P (passo i t e).2 (lidos ++ (passo i t e).1) es

/-- The data starts at the first byte that is not yet stored, or finds the ring full. -/
def EmSeguida (i : Indice) (t : Rede) (lidos : List UInt8) (off : Nat) : Prop :=
  off = lidos.length + (t.sockets i).rx.used ∨ (t.sockets i).rx.used + 1 = TCP_RX_BUF_SIZE

section Fluxo

variable {i : Indice} {fluxo lidos : List UInt8} {base : UInt32} {t t₀ : Rede} {g : Segmento}
  {es : List Evento}

theorem prefix_append_of_prefix_drop {α : Type} {l xs s : List α} (hl : l <+: s)
    (hx : xs <+: s.drop l.length) : l ++ xs <+: s := by
  obtain ⟨r, rfl⟩ := hl
  rw [List.drop_left] at hx
  exact (List.prefix_append_right_inj l).mpr hx

/-- Data in its place keeps what was read and what waits in the ring a prefix of the stream. -/
theorem prefix_guarda {off : Nat} (h : lidos ++ (t.sockets i).rx.contents <+: fluxo)
    (hg : Pedaco fluxo base g off) (hs : EmSeguida i t lidos off) :
    lidos ++ ((t.sockets i).rx.pushAll g.payload).contents <+: fluxo := by
  rw [Queue.contents_pushAll, ← List.append_assoc]
  rcases hs with rfl | hfull
  · refine prefix_append_of_prefix_drop h ?_
    rw [List.length_append, Queue.length_contents]
    exact (List.take_prefix _ _).trans hg.dados
  · have h0 : TCP_RX_BUF_SIZE - 1 - (t.sockets i).rx.used = 0 := by omega
    rw [h0, List.take_zero, List.append_nil]
    exact h

/-- Along such steps, what was read and what waits in the ring is a prefix of the stream. -/
theorem prefix_rodar (h : Chegadas i fluxo base (EmSeguida i) t lidos es)
    (hs : (t.sockets i).state ≠ .syn_sent) (hp : lidos ++ (t.sockets i).rx.contents <+: fluxo) :
    lidos ++ (rodar i t es).1 ++ ((rodar i t es).2.sockets i).rx.contents <+: fluxo := by
  induction es generalizing t lidos with
  | nil =>
    unfold rodar
    simpa using hp
  | cons e es ih =>
    obtain ⟨hr, hd, hes⟩ := h
    obtain ⟨hs', hef⟩ := passo_efeito hr hs
    rw [rodar_cons, ← List.append_assoc]
    refine ih hes hs' ?_
    rcases hef with ⟨g, he, hl, hsock⟩ | ⟨_, hl, _, hrx⟩ | ⟨_, _, _, hrx⟩
    · obtain ⟨off, hg, hseg⟩ := hd g he
      rw [hl, List.append_nil, hsock]
      exact prefix_guarda hp hg hseg
    · rw [hl, List.append_nil, hrx]
      exact hp
    · rw [List.append_assoc, hrx]
      exact hp

/-- Where each payload starts at the first byte not yet stored, or finds the ring full, what
`tcp_recv` returned is a prefix of the peer's stream. -/
theorem the_bytes_read_are_a_prefix_of_the_stream (h0 : Aberta t₀ i)
    (h : Chegadas i fluxo (t₀.sockets i).ack_num (EmSeguida i) t₀ [] es) :
    (rodar i t₀ es).1 <+: fluxo := by
  have hp := prefix_rodar h (by rw [h0.conectado]; simp) (by rw [h0.vazio]; exact List.nil_prefix)
  rw [List.nil_append] at hp
  exact (List.prefix_append _ _).trans hp

end Fluxo

/-- A connection whose stream starts at sequence number 1. -/
def conexao : Rede :=
  (passo 0 (tcp_connect_abre (Rede.inicio [] [] fun _ => true) 0 1 80)
    (.aceita 0 ⟨80, 49152, TCP_SYN ||| TCP_ACK, 0, 0, [], 1⟩)).2

theorem aberta_conexao : Aberta conexao 0 ∧ (conexao.sockets 0).ack_num = 1 :=
  aberta_aceita _ _ _ _ _

/-- A segment of that connection. -/
def segmento_de (seq : UInt32) (payload : List UInt8) : Segmento :=
  ⟨80, 49152, TCP_ACK, seq, 0, payload, 1⟩

/-- Two segments in order, and a read after each. -/
theorem segments_in_order_are_read :
    (rodar 0 conexao [.guarda 0 (segmento_de 1 [65]), .recv_volta 0 10,
      .guarda 0 (segmento_de 2 [66]), .recv_volta 0 10]).1 <+: [65, 66, 67] := by
  refine the_bytes_read_are_a_prefix_of_the_stream aberta_conexao.1 ?_
  rw [aberta_conexao.2]
  refine ⟨id, ?_, id, ?_, id, ?_, id, ?_, trivial⟩
  · intro g he
    obtain rfl : segmento_de 1 [65] = g := by injection he
    exact ⟨0, ⟨rfl, by decide⟩, Or.inl rfl⟩
  · intro g he
    cases he
  · intro g he
    obtain rfl : segmento_de 2 [66] = g := by injection he
    exact ⟨1, ⟨rfl, by decide⟩, Or.inl (by decide)⟩
  · intro g he
    cases he

/-- A segment that comes twice is read twice. -/
theorem a_repeated_segment_is_read_twice : ¬ ∀ i fluxo t₀ es, Aberta t₀ i →
    Chegadas i fluxo (t₀.sockets i).ack_num (fun _ _ _ => True) t₀ [] es →
      (rodar i t₀ es).1 <+: fluxo := by
  intro h
  have hread : (rodar 0 conexao [.guarda 0 (segmento_de 1 [65]), .guarda 0 (segmento_de 1 [65]),
      .recv_volta 0 10]).1 = [65, 65] := by decide
  have hp := h 0 [65, 66] conexao [.guarda 0 (segmento_de 1 [65]), .guarda 0 (segmento_de 1 [65]),
    .recv_volta 0 10] aberta_conexao.1 (by
      rw [aberta_conexao.2]
      have hg : ∀ g, Evento.guarda 0 (segmento_de 1 [65]) = .guarda 0 g →
          ∃ off, Pedaco [65, 66] 1 g off ∧ True := by
        intro g he
        obtain rfl : segmento_de 1 [65] = g := by injection he
        exact ⟨0, ⟨rfl, by decide⟩, trivial⟩
      exact ⟨id, hg, id, hg, id, (fun g he => by cases he), trivial⟩)
  rw [hread] at hp
  exact absurd hp (by decide)

/-! ## What is acknowledged -/

/-- The payload bytes that a step acknowledges for socket `i`. -/
def Evento.cobre (i : Indice) : Evento → Nat
  | .guarda sock g => if sock = i then g.payload.length else 0
  | _ => 0

/-- 1 for a FIN on socket `i`. -/
def Evento.termina (i : Indice) : Evento → Nat
  | .fim sock => if sock = i then 1 else 0
  | _ => 0

def cobertos (i : Indice) (es : List Evento) : Nat := (es.map (Evento.cobre i)).sum

def terminos (i : Indice) (es : List Evento) : Nat := (es.map (Evento.termina i)).sum

/-- Each payload for socket `i` fits in what the ring has free. -/
def Cabe (i : Indice) : Rede → List Evento → Prop
  | _, [] => True
  | t, e :: es =>
    (∀ g, e = .guarda i g → g.payload.length ≤ TCP_RX_BUF_SIZE - 1 - (t.sockets i).rx.used) ∧
    Cabe i (passo i t e).2 es

/-- The segments for socket `i` come in order, each starting where the data before it ends. -/
def EmOrdem (i : Indice) (base : UInt32) : Nat → List Evento → Prop
  | _, [] => True
  | n, e :: es =>
    (∀ g, e = .guarda i g → g.seq = base + UInt32.ofNat n) ∧ EmOrdem i base (n + e.cobre i) es

section Contas

variable {i : Indice} {t t₀ : Rede} {es : List Evento} {e : Evento}

theorem cobertos_cons (i : Indice) (e : Evento) (es : List Evento) :
    cobertos i (e :: es) = e.cobre i + cobertos i es := by simp [cobertos]

theorem terminos_cons (i : Indice) (e : Evento) (es : List Evento) :
    terminos i (e :: es) = e.termina i + terminos i es := by simp [terminos]

@[simp] theorem cobre_guarda (g : Segmento) : (Evento.guarda i g).cobre i = g.payload.length :=
  if_pos rfl

theorem cobre_zero (h : ∀ g, e ≠ .guarda i g) : e.cobre i = 0 := by
  cases e with
  | guarda sock g =>
    refine if_neg ?_
    rintro rfl
    exact h g rfl
  | _ => rfl

@[simp] theorem termina_fim : (Evento.fim i).termina i = 1 := if_pos rfl

theorem termina_zero (h : e ≠ .fim i) : e.termina i = 0 := by
  cases e with
  | fim sock =>
    refine if_neg ?_
    rintro rfl
    exact h rfl
  | _ => rfl

/-- Along any steps, `ack_num` counts the payloads and the FINs. -/
theorem ack_num_rodar (hr : ∀ e ∈ es, ¬ e.reabre i) (hs : (t.sockets i).state ≠ .syn_sent) :
    ((rodar i t es).2.sockets i).ack_num =
      (t.sockets i).ack_num + UInt32.ofNat (cobertos i es + terminos i es) := by
  induction es generalizing t with
  | nil => simp [rodar, cobertos, terminos]
  | cons e es ih =>
    obtain ⟨hs', hef⟩ := passo_efeito (hr e List.mem_cons_self) hs
    rw [rodar_cons, cobertos_cons, terminos_cons]
    dsimp only
    rw [ih (fun e' he' => hr e' (List.mem_cons_of_mem _ he')) hs']
    have hadd : ∀ a b : Nat, UInt32.ofNat (a + b) = UInt32.ofNat a + UInt32.ofNat b :=
      fun a b => UInt32.ofNat_add a b
    rcases hef with ⟨g, rfl, _, hsock⟩ | ⟨rfl, _, hack, _⟩ | ⟨hg, hf, hack, _⟩
    · rw [hsock, termina_zero (by simp), cobre_guarda]
      unfold Socket.guarda
      dsimp only
      rw [UInt32.add_assoc, ← hadd]
      congr 2
      omega
    · rw [hack, cobre_zero (by simp), termina_fim, UInt32.add_assoc,
        show (1 : UInt32) = UInt32.ofNat 1 from rfl, ← hadd]
      congr 2
      omega
    · rw [hack, cobre_zero hg, termina_zero hf, Nat.zero_add, Nat.zero_add]

/-- Along any steps, no more is read and kept than was acknowledged, and just as much exactly
where every payload fits. -/
theorem contas_rodar (hr : ∀ e ∈ es, ¬ e.reabre i) (hs : (t.sockets i).state ≠ .syn_sent) :
    (rodar i t es).1.length + ((rodar i t es).2.sockets i).rx.used ≤
      (t.sockets i).rx.used + cobertos i es ∧
    ((t.sockets i).rx.used + cobertos i es =
      (rodar i t es).1.length + ((rodar i t es).2.sockets i).rx.used ↔ Cabe i t es) := by
  induction es generalizing t with
  | nil => simp [rodar, cobertos, Cabe]
  | cons e es ih =>
    obtain ⟨hs', hef⟩ := passo_efeito (hr e List.mem_cons_self) hs
    obtain ⟨hle, heq⟩ := ih (fun e' he' => hr e' (List.mem_cons_of_mem _ he')) hs'
    rw [rodar_cons, cobertos_cons]
    unfold Cabe
    dsimp only
    rw [List.length_append, ← heq]
    rcases hef with ⟨g, rfl, hl, hsock⟩ | ⟨rfl, hl, _, hrx⟩ | ⟨hg, _, _, hrx⟩
    · have hused : ((passo i t (.guarda i g)).2.sockets i).rx.used = (t.sockets i).rx.used +
          min g.payload.length (TCP_RX_BUF_SIZE - 1 - (t.sockets i).rx.used) := by
        rw [hsock]
        exact Queue.used_pushAll _ _
      rw [hused] at hle ⊢
      rw [hl, cobre_guarda, List.length_nil]
      refine ⟨by omega, fun h => ⟨?_, by omega⟩, fun h => ?_⟩
      · rintro g' he
        obtain rfl : g = g' := by injection he
        omega
      · have hfit := h.1 g rfl
        have := h.2
        omega
    · rw [hrx] at hle ⊢
      rw [hl, cobre_zero (by simp), List.length_nil]
      refine ⟨by omega, fun h => ⟨fun g he => (by cases he), by omega⟩, fun h => ?_⟩
      have := h.2
      omega
    · have hlen := congrArg List.length hrx
      rw [List.length_append, Queue.length_contents, Queue.length_contents] at hlen
      rw [cobre_zero hg]
      refine ⟨by omega, fun h => ⟨fun g he => absurd he (hg g), by omega⟩, fun h => ?_⟩
      have := h.2
      omega

/-- `ack_num` counts the payload bytes and the FINs, and the payload bytes are those read and
those kept exactly where every payload fits in what the ring has free. -/
theorem acks_cover_what_is_kept_iff (h0 : Aberta t₀ i) (hr : ∀ e ∈ es, ¬ e.reabre i) :
    ((rodar i t₀ es).2.sockets i).ack_num =
      (t₀.sockets i).ack_num + UInt32.ofNat (cobertos i es + terminos i es) ∧
    (cobertos i es = (rodar i t₀ es).1.length + ((rodar i t₀ es).2.sockets i).rx.used ↔
      Cabe i t₀ es) := by
  have hs : (t₀.sockets i).state ≠ .syn_sent := by
    rw [h0.conectado]
    simp
  have hused : (t₀.sockets i).rx.used = 0 := by
    rw [← Queue.length_contents, h0.vazio, List.length_nil]
  have hc := (contas_rodar hr hs).2
  rw [hused, Nat.zero_add] at hc
  exact ⟨ack_num_rodar hr hs, hc⟩

end Contas

/-- One segment, acknowledged and read. -/
theorem one_segment_fits :
    ((rodar 0 conexao [.guarda 0 (segmento_de 1 [65]), .recv_volta 0 10]).2.sockets 0).ack_num = 2 ∧
    Cabe 0 conexao [.guarda 0 (segmento_de 1 [65]), .recv_volta 0 10] := by
  obtain ⟨hack, hiff⟩ := acks_cover_what_is_kept_iff aberta_conexao.1
    (show ∀ e ∈ [.guarda 0 (segmento_de 1 [65]), .recv_volta 0 10], ¬ Evento.reabre 0 e by
      intro e he
      rcases List.mem_cons.mp he with rfl | he
      · exact id
      · obtain rfl := List.mem_singleton.mp he
        exact id)
  exact ⟨hack.trans (by decide), hiff.mp (by decide)⟩

/-- Two segments of 1024 bytes, of which the ring keeps 2047. -/
theorem a_dropped_byte_is_acknowledged : ¬ ∀ i t₀ es, Aberta t₀ i → (∀ e ∈ es, ¬ e.reabre i) →
    EmOrdem i (t₀.sockets i).ack_num 0 es →
      cobertos i es = (rodar i t₀ es).1.length + ((rodar i t₀ es).2.sockets i).rx.used := by
  intro h
  obtain ⟨l, hl⟩ : ∃ l : List UInt8, l.length = 1024 :=
    ⟨List.replicate 1024 65, List.length_replicate⟩
  have hlt := ((rodar 0 conexao [.guarda 0 (segmento_de 1 l),
    .guarda 0 (segmento_de 1025 l)]).2.sockets 0).rx.used_lt
  have hlen := h 0 conexao [.guarda 0 (segmento_de 1 l), .guarda 0 (segmento_de 1025 l)]
    aberta_conexao.1 (by
      intro e he
      rcases List.mem_cons.mp he with rfl | he
      · exact id
      · obtain rfl := List.mem_singleton.mp he
        exact id) (by
      rw [aberta_conexao.2]
      refine ⟨?_, ?_, trivial⟩
      · intro g he
        obtain rfl : segmento_de 1 l = g := by injection he
        rfl
      · intro g he
        obtain rfl : segmento_de 1025 l = g := by injection he
        have hseq : (1025 : UInt32) = 1 + UInt32.ofNat (0 + l.length) := by
          rw [hl]
          decide
        exact hseq)
  have hc : cobertos 0 [.guarda 0 (segmento_de 1 l), .guarda 0 (segmento_de 1025 l)] = 2048 := by
    rw [cobertos_cons, cobertos_cons, cobre_guarda, cobre_guarda]
    change l.length + (l.length + 0) = 2048
    omega
  have h0 : (rodar 0 conexao [.guarda 0 (segmento_de 1 l),
    .guarda 0 (segmento_de 1025 l)]).1 = [] := rfl
  rw [hc, h0, List.length_nil] at hlen
  have hn : TCP_RX_BUF_SIZE = 2048 := rfl
  omega

end SpaceOS.Net
