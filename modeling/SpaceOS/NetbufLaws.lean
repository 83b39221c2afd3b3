-- The network buffers over every sequence of polls, nested as they come: each buffer that a poll takes
-- is given back once, before its callback returns.
import SpaceOS.Netbuf

open Lib.Bytes Lib.LinkedList

namespace SpaceOS.Netbuf

open SpaceOS.Net

/-- The buffers of the array. -/
def DoPool (p : Nat) : Prop := 1 ≤ p ∧ p ≤ NETBUF_COUNT

/-- The pool with the free buffers `livres`: they are the free list, the counter is their number, and
a buffer that is not among them was taken once more than it was given back. -/
structure Bom (pool : Pool) (livres : List Nat) : Prop where
  lista : Linked 0 pool.next pool.free_list livres
  contagem : pool.livre_count = livres.length
  do_pool : ∀ p ∈ livres, DoPool p
  contas : ∀ p, DoPool p → pool.tomadas p = pool.solturas p + (if p ∈ livres then 0 else 1)

/-- The callback gave the buffer back that it was called with, once, and did not take it again. -/
def UmaVez (c : Chamada) : Prop :=
  c.antes.tomadas c.buf = c.antes.solturas c.buf + 1 ∧
    c.depois.tomadas c.buf = c.antes.tomadas c.buf ∧
    c.depois.solturas c.buf = c.antes.solturas c.buf + 1

/-- What holds while the buffers `livres` are free: the pool was in order after every operation, and
so was each callback that returned. -/
structure Ordem (m : Maquina) (livres : List Nat) : Prop where
  bom : Bom m.pool livres
  historico : ∀ pool ∈ m.historico, ∃ l, Bom pool l
  chamadas : ∀ c ∈ m.chamadas, UmaVez c

/-- From `m` to `m'` with the free buffers as they were, and the buffers in use left alone. -/
structure Volta (m m' : Maquina) (livres : List Nat) : Prop where
  ordem : Ordem m' livres
  tomadas : ∀ p ∉ livres, m'.pool.tomadas p = m.pool.tomadas p
  solturas : ∀ p ∉ livres, m'.pool.solturas p = m.pool.solturas p

/-- A poll, or other code without a buffer of its own. -/
def Neutro (f : Maquina → Maquina) : Prop := ∀ m livres, Ordem m livres → Volta m (f m) livres

section Ordem

variable {m m' m'' : Maquina} {livres : List Nat} {p : Nat}

theorem Ordem.volta (h : Ordem m livres) : Volta m m livres := ⟨h, fun _ _ => rfl, fun _ _ => rfl⟩

theorem Volta.trans (h : Volta m m' livres) (h' : Volta m' m'' livres) : Volta m m'' livres :=
  ⟨h'.ordem, fun p hp => (h'.tomadas p hp).trans (h.tomadas p hp),
    fun p hp => (h'.solturas p hp).trans (h.solturas p hp)⟩

theorem Ordem.na_rede (h : Ordem m livres) (f : Rede → Rede) : Volta m (m.na_rede f) livres :=
  ⟨⟨h.bom, h.historico, h.chamadas⟩, fun _ _ => rfl, fun _ _ => rfl⟩

theorem Volta.na_rede (h : Volta m m' livres) (f : Rede → Rede) : Volta m (m'.na_rede f) livres :=
  h.trans (h.ordem.na_rede f)

theorem Ordem.avanca (h : Ordem m livres) (buf : Nat) (n : UInt16) :
    Volta m (avanca m buf n) livres :=
  ⟨⟨h.bom, h.historico, h.chamadas⟩, fun _ _ => rfl, fun _ _ => rfl⟩

/-- `netbuf_alloc` takes the first free buffer, which was not in use. -/
theorem Ordem.alloc (h : Ordem m (p :: livres)) :
    ∃ m', netbuf_alloc m = (p, m') ∧ Ordem m' livres ∧ m'.rede = m.rede ∧
      p ∉ livres ∧ DoPool p ∧ (∀ q ∉ livres, q ≠ p →
        m'.pool.tomadas q = m.pool.tomadas q ∧ m'.pool.solturas q = m.pool.solturas q) := by
  obtain ⟨hlist, hcount, hpool, hcontas⟩ := h.bom
  obtain ⟨hp, hp0, hnext⟩ := id hlist
  have hnew := (List.nodup_cons.mp hlist.nodup).1
  have hbom : Bom { m.pool with
      free_list := m.pool.next p
      next := Function.update m.pool.next p 0
      livre_count := m.pool.livre_count - 1
      tomadas := Function.update m.pool.tomadas p (m.pool.tomadas p + 1) } livres := by
    refine ⟨hnext.congr fun q hq => Function.update_of_ne (fun he : q = p => hnew (he ▸ hq)) _ _, ?_,
      fun q hq => hpool q (List.mem_cons_of_mem _ hq), fun q hq => ?_⟩
    · dsimp only
      rw [hcount, List.length_cons]
      omega
    · have hc := hcontas q hq
      dsimp only
      rcases eq_or_ne q p with rfl | hqp
      · rw [if_pos List.mem_cons_self] at hc
        rw [Function.update_self, if_neg hnew, hc]
      · rw [Function.update_of_ne hqp, hc]
        simp [hqp]
  unfold netbuf_alloc
  rw [hp, if_neg hp0]
  refine ⟨_, rfl, ⟨hbom, ?_, h.chamadas⟩, rfl, hnew, hpool p List.mem_cons_self, fun q _ hqp => ?_⟩
  · intro pool hmem
    rcases List.mem_cons.mp hmem with rfl | hmem
    · exact ⟨livres, hbom⟩
    · exact h.historico pool hmem
  · exact ⟨Function.update_of_ne hqp _ _, rfl⟩

/-- With no free buffer `netbuf_alloc` returns 0. -/
theorem Ordem.alloc_vazio (h : Ordem m []) : netbuf_alloc m = (0, m) := by
  unfold netbuf_alloc
  exact if_pos h.bom.lista

/-- What the code that holds buffer `p` leaves: the buffer is free again, released once. -/
structure Devolve (m m' : Maquina) (livres : List Nat) (p : Nat) : Prop where
  ordem : Ordem m' (p :: livres)
  tomadas : ∀ q ∉ livres, m'.pool.tomadas q = m.pool.tomadas q
  solturas : ∀ q ∉ livres, q ≠ p → m'.pool.solturas q = m.pool.solturas q
  uma_vez : m'.pool.solturas p = m.pool.solturas p + 1

/-- `netbuf_free` of a buffer in use. -/
theorem Volta.free (h : Volta m m' livres) (hp : DoPool p) (hnew : p ∉ livres) :
    Devolve m (netbuf_free m' p) livres p := by
  obtain ⟨hlist, hcount, hpool, hcontas⟩ := h.ordem.bom
  have hp0 : p ≠ 0 := by
    have := hp.1
    omega
  have hbom : Bom { m'.pool with
      next := Function.update m'.pool.next p m'.pool.free_list
      free_list := p
      livre_count := m'.pool.livre_count + 1
      solturas := Function.update m'.pool.solturas p (m'.pool.solturas p + 1) } (p :: livres) := by
    refine ⟨hlist.push hp0 (Function.update_self _ _ _) fun q hq =>
      Function.update_of_ne (fun he : q = p => hnew (he ▸ hq)) _ _, ?_, fun q hq => ?_, fun q hq => ?_⟩
    · dsimp only
      rw [hcount, List.length_cons]
      omega
    · rcases List.mem_cons.mp hq with rfl | hq
      · exact hp
      · exact hpool q hq
    · have hc := hcontas q hq
      dsimp only
      rcases eq_or_ne q p with rfl | hqp
      · rw [if_neg hnew] at hc
        rw [Function.update_self, if_pos List.mem_cons_self, hc]
      · rw [Function.update_of_ne hqp, hc]
        simp [hqp]
  unfold netbuf_free
  rw [if_neg hp0]
  refine ⟨⟨hbom, ?_, h.ordem.chamadas⟩, h.tomadas, fun q hq hqp => ?_, ?_⟩
  · intro pool hmem
    rcases List.mem_cons.mp hmem with rfl | hmem
    · exact ⟨_, hbom⟩
    · exact h.ordem.historico pool hmem
  · exact (Function.update_of_ne hqp _ _).trans (h.solturas q hq)
  · dsimp only
    rw [Function.update_self, h.solturas p hnew]

end Ordem

/-! ## Code that holds a buffer -/

section Poll

variable {eth_poll : Maquina → Maquina} {handlers : Nat → Datagrama → Programa} {m : Maquina}
  {livres : List Nat} {p : Nat}

theorem Neutro.depois (hn : Neutro eth_poll) {m' : Maquina} (h : Volta m m' livres) :
    Volta m (eth_poll m') livres :=
  h.trans (hn m' livres h.ordem)

/-- Whatever a handler does, each of its polls leaves the free buffers as they were. -/
theorem neutro_executa (hn : Neutro eth_poll) (prog : Programa) : Neutro (prog.executa eth_poll) := by
  induction prog with
  | fim f => exact fun m livres h => h.na_rede f
  | eth_poll f resto ih =>
    intro m livres h
    have h1 := hn.depois (h.na_rede f)
    exact h1.trans (ih _ _ _ h1.ordem)

theorem volta_arp_espera (hn : Neutro eth_poll) (ip start ticks_max : UInt32) (n : Nat)
    (h : Ordem m livres) : Volta m (arp_espera eth_poll ip start ticks_max n m).2 livres := by
  induction n generalizing m with
  | zero => exact h.volta
  | succ n ih =>
    have h1 := hn m livres h
    unfold arp_espera
    split
    · dsimp only
      split
      · exact h1
      · exact h1.trans (ih h1.ordem)
    · exact h.volta

theorem volta_ip_destino (hn : Neutro eth_poll) (dst_ip : UInt32) (h : Ordem m livres) :
    Volta m (ip_destino eth_poll m dst_ip).2 livres := by
  unfold ip_destino
  split
  · exact h.volta
  · unfold arp_resolve
    split
    · exact h.volta
    · have h1 := h.na_rede fun t => arp_send_request t (nexthop m.rede dst_ip)
      exact h1.trans (volta_arp_espera hn _ _ _ _ h1.ordem)

theorem volta_ip_send (hn : Neutro eth_poll) (dst_ip : UInt32) (proto : UInt8)
    (payload : List UInt8) (h : Ordem m livres) :
    Volta m (ip_send eth_poll m dst_ip proto payload) livres := by
  unfold ip_send
  split
  · exact h.volta
  · have h1 := h.na_rede fun t => ip_monta t dst_ip proto payload
    have h2 := h1.trans (volta_ip_destino hn dst_ip h1.ordem)
    generalize ip_destino eth_poll (m.na_rede fun t => ip_monta t dst_ip proto payload) dst_ip = r
      at h2
    obtain ⟨mac, m'⟩ := r
    cases mac with
    | none => exact h2
    | some mac => exact h2.na_rede _

theorem volta_responde_ack (hn : Neutro eth_poll) (sock : Indice) {m' : Maquina}
    (h : Volta m m' livres) : Volta m (responde_ack eth_poll m' sock) livres := by
  have h1 := h.na_rede fun _ => (segmento_ack m'.rede sock).1
  exact h1.trans (volta_ip_send hn _ _ _ h1.ordem)

theorem volta_em_syn_sent (hn : Neutro eth_poll) (sock : Indice) (g : Segmento)
    (h : Ordem m livres) : Volta m (em_syn_sent eth_poll m sock g) livres := by
  unfold em_syn_sent
  split
  · exact volta_responde_ack hn sock (h.na_rede _)
  · exact h.volta

theorem volta_em_established (hn : Neutro eth_poll) (sock : Indice) (g : Segmento)
    (h : Ordem m livres) : Volta m (em_established eth_poll m sock g) livres := by
  unfold em_established
  split
  · exact h.na_rede _
  · have h1 : Volta m (if g.flags &&& TCP_FIN ≠ 0 then
        responde_ack eth_poll (m.na_rede fun t => t.muda sock fun s =>
          { s with ack_num := s.ack_num + 1, state := .close_wait }) sock
        else m) livres := by
      split
      · exact volta_responde_ack hn sock (h.na_rede _)
      · exact h.volta
    dsimp only
    split
    · exact h1
    · exact volta_responde_ack hn sock (h1.na_rede _)

/-! ## The buffer that the code holds -/

variable {m0 : Maquina}

theorem devolve_tcp_recv_dispatch (hn : Neutro eth_poll) (hp : DoPool p) (hnew : p ∉ livres)
    (h : Volta m0 m livres) : Devolve m0 (tcp_recv_dispatch eth_poll m p) livres p := by
  unfold tcp_recv_dispatch
  rw [if_neg (by have := hp.1; omega)]
  split
  · exact h.free hp hnew
  · rename_i g _
    split
    · exact h.free hp hnew
    · rename_i sock _
      refine Volta.free (h.trans ?_) hp hnew
      split
      · exact volta_em_syn_sent hn sock g h.ordem
      · exact volta_em_established hn sock g h.ordem
      · exact h.ordem.na_rede _
      · exact h.ordem.volta

theorem devolve_udp_recv (hn : Neutro eth_poll) (hp : DoPool p) (hnew : p ∉ livres)
    (h : Volta m0 m livres) : Devolve m0 (udp_recv eth_poll handlers m p) livres p := by
  unfold udp_recv
  rw [if_neg (by have := hp.1; omega)]
  split
  · exact h.free hp hnew
  · split
    · exact h.free hp hnew
    · have hdepois : ∀ (f : Rede → Rede) (prog : Programa),
          Volta m0 (prog.executa eth_poll (m.na_rede f)) livres := fun f prog =>
        (h.na_rede f).trans (neutro_executa hn prog _ _ (h.na_rede f).ordem)
      exact (hdepois _ _).free hp hnew

theorem devolve_arp_recv (hp : DoPool p) (hnew : p ∉ livres) (h : Volta m0 m livres) :
    Devolve m0 (arp_recv m p) livres p := by
  unfold arp_recv
  rw [if_neg (by have := hp.1; omega)]
  split
  · exact h.free hp hnew
  · exact (h.na_rede _).free hp hnew

theorem devolve_ip_recv (hn : Neutro eth_poll) (hp : DoPool p) (hnew : p ∉ livres)
    (h : Volta m0 m livres) : Devolve m0 (ip_recv eth_poll handlers m p) livres p := by
  have hfree := h.free hp hnew
  have h1 := h.trans (h.ordem.avanca p 20)
  unfold ip_recv
  rw [if_neg (by have := hp.1; omega)]
  dsimp only
  split
  · exact hfree
  split
  · exact hfree
  split
  · exact hfree
  split
  · exact hfree
  split
  · exact hfree
  split
  · exact devolve_udp_recv hn hp hnew h1
  split
  · exact devolve_tcp_recv_dispatch hn hp hnew h1
  · exact h1.free hp hnew

/-- Whatever the frame is, `eth_recv` gives its buffer back, once. -/
theorem devolve_eth_recv (hn : Neutro eth_poll) (hp : DoPool p) (hnew : p ∉ livres)
    (h : Ordem m livres) : Devolve m (eth_recv eth_poll handlers m p) livres p := by
  have h1 := h.avanca p 14
  unfold eth_recv
  split
  · exact h.volta.free hp hnew
  · dsimp only
    split
    · exact devolve_arp_recv hp hnew h1
    split
    · exact devolve_ip_recv hn hp hnew h1
    · exact h1.free hp hnew

/-! ## Polls -/

theorem neutro_recebe (hn : Neutro eth_poll) (q : Netbuf) :
    Neutro fun m => recebe eth_poll handlers m q := by
  intro m livres h
  change Volta m (recebe eth_poll handlers m q) livres
  unfold recebe
  split
  · cases livres with
    | nil =>
      rw [h.alloc_vazio]
      exact h.volta
    | cons p livres =>
      obtain ⟨m1, halloc, h1, _, hnew, hp, hfora⟩ := h.alloc
      rw [halloc]
      dsimp only
      rw [if_pos (by have := hp.1; omega)]
      have h2 : Ordem { m1 with bufs := Function.update m1.bufs p { q with offset := 0 } } livres :=
        ⟨h1.bom, h1.historico, h1.chamadas⟩
      obtain ⟨ho, ht, hs, huma⟩ : Devolve _ (eth_recv eth_poll handlers _ p) livres p :=
        devolve_eth_recv hn hp hnew h2
      have hconta := h1.bom.contas p hp
      rw [if_neg hnew] at hconta
      refine ⟨⟨ho.bom, ho.historico, fun c hc => ?_⟩, fun r hr => ?_, fun r hr => ?_⟩
      · rcases List.mem_cons.mp hc with rfl | hc
        · exact ⟨hconta, ht p hnew, huma⟩
        · exact ho.chamadas c hc
      · obtain ⟨hrp, hr⟩ := not_or.mp (fun he => hr (List.mem_cons.mpr he))
        exact (ht r hr).trans (hfora r hr hrp).1
      · obtain ⟨hrp, hr⟩ := not_or.mp (fun he => hr (List.mem_cons.mpr he))
        exact (hs r hr hrp).trans (hfora r hr hrp).2
  · exact h.volta

theorem neutro_eth_poll (handlers : Nat → Datagrama → Programa) (n : Nat) :
    Neutro (Netbuf.eth_poll handlers n) := by
  induction n with
  | zero => exact fun m livres h => h.volta
  | succ n ih =>
    intro m livres h
    unfold Netbuf.eth_poll
    split
    · exact h.volta
    · rename_i q polls _
      have h1 := h.na_rede fun t => { t with polls := polls, ticks := q.ticks }
      generalize m.na_rede _ = m1 at h1
      induction q.quadros generalizing m1 with
      | nil => exact h1
      | cons f fs ihf =>
        rw [List.foldl_cons]
        exact ihf _ (h1.trans (neutro_recebe ih f _ _ h1.ordem))

end Poll

/-! ## The layers without the buffers

The variables of the layers go through the receive path as they do in the model that leaves the
buffers out. -/

section Camadas

variable {poll : Maquina → Maquina} {poll' : Rede → Rede} {m : Maquina}

@[simp] theorem rede_free (m : Maquina) (p : Nat) : (netbuf_free m p).rede = m.rede := by
  unfold netbuf_free
  split <;> rfl

@[simp] theorem rede_na_rede (m : Maquina) (f : Rede → Rede) : (m.na_rede f).rede = f m.rede := rfl

variable (hp : ∀ m, (poll m).rede = poll' m.rede)

include hp

theorem rede_arp_espera (ip start ticks_max : UInt32) (n : Nat) (m : Maquina) :
    (arp_espera poll ip start ticks_max n m).1 =
        (Net.arp_espera poll' ip start ticks_max n m.rede).1 ∧
      (arp_espera poll ip start ticks_max n m).2.rede =
        (Net.arp_espera poll' ip start ticks_max n m.rede).2 := by
  induction n generalizing m with
  | zero => exact ⟨rfl, rfl⟩
  | succ n ih =>
    unfold arp_espera Net.arp_espera
    dsimp only
    rw [← hp]
    split
    · cases arp_cache_lookup (poll m).rede.arp_cache ip with
      | some mac => exact ⟨rfl, rfl⟩
      | none => exact ih _
    · exact ⟨rfl, rfl⟩

theorem rede_ip_destino (m : Maquina) (dst_ip : UInt32) :
    (ip_destino poll m dst_ip).1 = (Net.ip_destino poll' m.rede dst_ip).1 ∧
      (ip_destino poll m dst_ip).2.rede = (Net.ip_destino poll' m.rede dst_ip).2 := by
  unfold ip_destino Net.ip_destino
  split
  · exact ⟨rfl, rfl⟩
  · unfold arp_resolve Net.arp_resolve
    cases arp_cache_lookup m.rede.arp_cache (nexthop m.rede dst_ip) with
    | some mac => exact ⟨rfl, rfl⟩
    | none => exact rede_arp_espera hp _ _ _ _ _

theorem rede_ip_send (m : Maquina) (dst_ip : UInt32) (proto : UInt8) (payload : List UInt8) :
    (ip_send poll m dst_ip proto payload).rede = (Net.ip_send poll' m.rede dst_ip proto payload).2 := by
  unfold ip_send Net.ip_send
  split
  · rfl
  · obtain ⟨h1, h2⟩ := rede_ip_destino hp (m.na_rede fun t => ip_monta t dst_ip proto payload) dst_ip
    rw [rede_na_rede] at h1 h2
    generalize ip_destino poll (m.na_rede fun t => ip_monta t dst_ip proto payload) dst_ip = r at h1 h2
    generalize Net.ip_destino poll' (ip_monta m.rede dst_ip proto payload) dst_ip = r' at h1 h2
    obtain ⟨mac, m1⟩ := r
    obtain ⟨mac', t1⟩ := r'
    dsimp only at h1 h2
    subst h1 h2
    cases mac <;> rfl

theorem rede_responde_ack (m : Maquina) (sock : Indice) :
    (responde_ack poll m sock).rede = Net.responde_ack (Net.ip_send poll') m.rede sock := by
  unfold responde_ack Net.responde_ack Net.tcp_send_segment
  dsimp only
  rw [rede_ip_send hp, copia_nil]
  rfl

theorem rede_tcp_recv_dispatch (m : Maquina) {p : Nat} (h0 : p ≠ 0) :
    (tcp_recv_dispatch poll m p).rede = (Net.tcp_recv_dispatch (Net.ip_send poll') m.rede
      (m.bufs p).len (m.bufs p).offset).val (m.bufs p).data := by
  unfold tcp_recv_dispatch Net.tcp_recv_dispatch
  rw [if_neg h0, Lib.Footprint.Reader.val_bind]
  cases (segmento (m.bufs p).len (m.bufs p).offset).val (m.bufs p).data with
  | none => simp
  | some g =>
    dsimp only [Lib.Footprint.Reader.val_pure]
    unfold trata_segmento
    cases correspondente m.rede g with
    | none => simp
    | some sock =>
      dsimp only
      rw [rede_free]
      cases (m.rede.sockets sock).state with
      | syn_sent =>
        dsimp only
        unfold em_syn_sent Net.em_syn_sent
        split
        · exact rede_responde_ack hp _ _
        · rfl
      | established =>
        dsimp only
        unfold em_established Net.em_established recebe_payload recebe_fin
        split
        · rfl
        · split
          · split
            · exact rede_responde_ack hp _ _
            · rw [rede_responde_ack hp, rede_na_rede, rede_responde_ack hp]
              rfl
          · split
            · rfl
            · exact rede_responde_ack hp _ _
      | _ => rfl

variable {handlers : Nat → Datagrama → Programa} (hh : ∀ h d, handlers h d = .fim id)

include hh

theorem rede_ip_recv (m : Maquina) {p : Nat} (h0 : p ≠ 0) :
    (ip_recv poll handlers m p).rede = (Net.ip_recv (Net.ip_send poll') m.rede
      (m.bufs p).len (m.bufs p).offset).val (m.bufs p).data := by
  have hudp : ∀ m : Maquina, (udp_recv poll handlers m p).rede =
      (Net.udp_recv m.rede (m.bufs p).len (m.bufs p).offset).val (m.bufs p).data := fun m => by
    unfold udp_recv Net.udp_recv
    rw [if_neg h0, Lib.Footprint.Reader.val_bind]
    cases (pacote_udp (m.bufs p).len (m.bufs p).offset).val (m.bufs p).data with
    | none => simp
    | some pac =>
      dsimp only [Lib.Footprint.Reader.val_pure]
      unfold trata_pacote
      cases handler_de m.rede pac.dst_port with
      | none => simp
      | some h =>
        dsimp only
        rw [rede_free, hh]
        rfl
  have havanca : ∀ n, (avanca m p n).rede = m.rede ∧
      (avanca m p n).bufs p = { m.bufs p with offset := (m.bufs p).offset + n } := fun n =>
    ⟨rfl, Function.update_self _ _ _⟩
  unfold ip_recv Net.ip_recv aceita_ip
  rw [if_neg h0]
  simp only [Lib.Footprint.Reader.val_ite, Lib.Footprint.Reader.val_pure,
    Lib.Footprint.Reader.val_bind]
  generalize (Lib.Footprint.Reader.bytes (m.bufs p).offset.toNat IP_HDR_LEN).val
    (m.bufs p).data = hdr
  generalize (Lib.Footprint.Reader.word32 ((m.bufs p).offset.toNat + 16)).val
    (m.bufs p).data = dst_ip
  generalize (Lib.Footprint.Reader.byte ((m.bufs p).offset.toNat + 9)).val
    (m.bufs p).data = protocol
  by_cases hlen : ((m.bufs p).len - (m.bufs p).offset).toNat < IP_HDR_LEN
  · rw [if_pos hlen, if_pos hlen, rede_free]
  rw [if_neg hlen, if_neg hlen]
  by_cases hv : (hdr.headD 0) >>> 4 = 4
  swap
  · rw [if_pos hv, if_pos fun h => hv h.1, rede_free]
  rw [if_neg (not_not_intro hv)]
  by_cases hi : (hdr.headD 0) &&& 15 = 5
  swap
  · rw [if_pos hi, if_pos fun h => hi h.2.1, rede_free]
  rw [if_neg (not_not_intro hi)]
  by_cases hc : ip_checksum hdr = 0
  swap
  · rw [if_pos hc, if_pos fun h => hc h.2.2.1, rede_free]
  rw [if_neg (not_not_intro hc)]
  by_cases hd : m.rede.net_our_ip ≠ 0 ∧ ntohl dst_ip ≠ m.rede.net_our_ip ∧ ntohl dst_ip ≠ 4294967295
  · rw [if_pos hd, if_pos fun h => h.2.2.2 hd, rede_free]
  rw [if_neg hd, if_neg (not_not_intro ⟨hv, hi, hc, hd⟩)]
  by_cases hu : protocol = IP_PROTO_UDP
  · rw [if_pos hu, if_pos hu, hudp, (havanca 20).2, (havanca 20).1]
  rw [if_neg hu, if_neg hu]
  by_cases ht : protocol = IP_PROTO_TCP
  · rw [if_pos ht, if_pos ht, rede_tcp_recv_dispatch hp _ h0, (havanca 20).2, (havanca 20).1]
  · rw [if_neg ht, if_neg ht, rede_free]
    rfl

/-- With handlers that do nothing, a frame does to the layers what it does without the pool. -/
theorem rede_eth_recv (m : Maquina) {p : Nat} (h0 : p ≠ 0) :
    (eth_recv poll handlers m p).rede = (Net.eth_recv (Net.ip_send poll') m.rede
      (m.bufs p).len (m.bufs p).offset).val (m.bufs p).data := by
  have havanca : (avanca m p 14).rede = m.rede ∧
      (avanca m p 14).bufs p = { m.bufs p with offset := (m.bufs p).offset + 14 } :=
    ⟨rfl, Function.update_self _ _ _⟩
  unfold eth_recv Net.eth_recv
  simp only [Lib.Footprint.Reader.val_ite, Lib.Footprint.Reader.val_pure,
    Lib.Footprint.Reader.val_bind]
  by_cases hlen : (m.bufs p).len.toNat < ETH_HDR_LEN
  · rw [if_pos (Or.inr hlen), if_pos hlen, rede_free]
  rw [if_neg (not_or.mpr ⟨h0, hlen⟩), if_neg hlen]
  generalize ntohs ((Lib.Footprint.Reader.half16 ((m.bufs p).offset.toNat + 12)).val
    (m.bufs p).data) = proto
  by_cases ha : proto = ETH_PROTO_ARP
  · rw [if_pos ha, if_pos ha]
    unfold arp_recv Net.arp_recv
    rw [if_neg h0, havanca.2, Lib.Footprint.Reader.val_bind]
    cases (pacote_arp (m.bufs p).len ((m.bufs p).offset + 14)).val (m.bufs p).data with
    | none => simp [havanca.1]
    | some pkt => simp [havanca.1]
  rw [if_neg ha, if_neg ha]
  by_cases hi : proto = ETH_PROTO_IP
  · rw [if_pos hi, if_pos hi, rede_ip_recv hp hh _ h0, havanca.2, havanca.1]
  · rw [if_neg hi, if_neg hi, rede_free]
    rfl

end Camadas

/-! ## The law -/

/-- The buffers as `netbuf_init` links them. -/
def todos : List Nat := [16, 15, 14, 13, 12, 11, 10, 9, 8, 7, 6, 5, 4, 3, 2, 1]

theorem mem_todos {p : Nat} : p ∈ todos ↔ DoPool p := by
  simp only [todos, List.mem_cons, List.not_mem_nil, or_false, DoPool, NETBUF_COUNT]
  omega

theorem ordem_inicio (bufs : Nat → Netbuf) (rede : Rede) : Ordem (Maquina.inicio bufs rede) todos := by
  refine ⟨⟨?_, rfl, fun p hp => mem_todos.mp hp, fun p hp => ?_⟩,
    fun pool hp => absurd hp List.not_mem_nil, fun c hc => absurd hc List.not_mem_nil⟩
  · simp [Maquina.inicio, netbuf_init, todos, Linked, NETBUF_COUNT, List.range_succ,
      Function.update]
  · rw [if_pos (mem_todos.mpr hp)]
    rfl

/-- What the pool and its history are whenever no poll is going on. -/
structure Conservado (m : Maquina) : Prop where
  todos_livres : Linked 0 m.pool.next m.pool.free_list todos
  contagem : m.pool.livre_count = NETBUF_COUNT
  sempre : ∀ pool ∈ m.historico, ∃ livres, Linked 0 pool.next pool.free_list livres ∧ livres.Nodup ∧
    pool.livre_count = livres.length ∧
    ∀ p, DoPool p → pool.tomadas p = pool.solturas p + (if p ∈ livres then 0 else 1)
  uma_vez : ∀ c ∈ m.chamadas, UmaVez c

/-- Whatever the frames are, whatever the handlers do and however the polls nest: the free list never
has a buffer twice or one in use, its length is the counter, each callback gives its buffer back
once, and after the outermost poll every buffer is free. -/
theorem every_buffer_comes_back (handlers : Nat → Datagrama → Programa) (bufs : Nat → Netbuf)
    (rede : Rede) (n : Nat) (prog : Programa) :
    Conservado (prog.executa (eth_poll handlers n) (Maquina.inicio bufs rede)) := by
  have h := (neutro_executa (neutro_eth_poll handlers n) prog _ _ (ordem_inicio bufs rede)).ordem
  refine ⟨h.bom.lista, h.bom.contagem, fun pool hp => ?_, h.chamadas⟩
  obtain ⟨l, hl⟩ := h.historico pool hp
  exact ⟨l, hl.lista, hl.lista.nodup, hl.contagem, hl.contas⟩

end SpaceOS.Netbuf
