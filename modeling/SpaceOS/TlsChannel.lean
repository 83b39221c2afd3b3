-- The channel of SpaceTLS (kernel/net/tls.c): what a refused record does to the sequence numbers,
-- and what arrives of the records of a stream.
import SpaceOS.Lib.Layout
import SpaceOS.TlsRecord

open Lib.Bytes Lib.Footprint Lib.Layout SpaceOS.Aead SpaceOS.Net

namespace SpaceOS.Tls

/-! ## A record of the peer -/

section Registro

variable {t : Slots} {sock : Int} {max : UInt16} {buf pkt : Memory} {data bs : List UInt8}
  {key nonce : List UInt8} {seq : UInt32}

theorem lies_copia (pkt : Memory) (bs : List UInt8) : Lies (copia pkt 0 bs) 0 bs := by
  intro i hi
  unfold copia
  rw [Nat.zero_add, if_pos (Nat.zero_le i), Nat.sub_zero, List.getD_eq_getElem?_getD,
    List.getElem?_eq_getElem hi]
  rfl

theorem length_cabecalho (len : Nat) : (cabecalho len).length = 8 := rfl

theorem dados_cabecalho {len : Nat} (h : Lies pkt 0 (cabecalho len)) : Dados pkt := by
  have hm : cabecalho len = STLS_MAGIC ++ (cabecalho len).drop 4 := rfl
  refine ⟨?_, h 5 (by rw [length_cabecalho]; decide)⟩
  rw [hm] at h
  exact (lies_append.mp h).1.range

theorem len_de_cabecalho {len : Nat} (h : Lies pkt 0 (cabecalho len)) (hl : len ≤ 4096) :
    len_de pkt = len := by
  have h6 : pkt 6 = UInt8.ofNat (len + 16) := h 6 (by rw [length_cabecalho]; decide)
  have h7 : pkt 7 = UInt8.ofNat ((len + 16) / 256) := h 7 (by rw [length_cabecalho]; decide)
  unfold len_de payload_len half
  rw [h6, h7, UInt16.toNat_sub, UInt16.toNat_ofNat', UInt8.toNat_ofNat', UInt8.toNat_ofNat']
  change (65536 - 16 + _) % 65536 = len
  omega

/-- A record of the peer, under the sequence number that is due, is taken for its payload. -/
theorem tls_recv_registro_de (hp : Pronto t sock) (hl : data.length ≤ TLS_MAX_RECORD)
    (hm : data.length ≤ max.toNat)
    (h : Lies pkt 0 (registro_de (t.socks sock.toNat).recv_key (t.socks sock.toNat).recv_nonce
      (t.socks sock.toNat).recv_seq data)) :
    (tls_recv t sock (24 + data.length) max buf).val pkt =
      ((data.length : Int), com_sock t sock.toNat { t.socks sock.toNat with
        recv_seq := (t.socks sock.toNat).recv_seq + 1 }, copia buf 0 data) := by
  unfold TLS_MAX_RECORD at hl
  have hc : ∀ key nonce aad, (chacha20poly1305_encrypt key nonce aad data).1.length =
      data.length := fun key nonce _ => length_chacha20_encrypt key nonce 1 data
  have ht : ∀ key nonce aad, (chacha20poly1305_encrypt key nonce aad data).2.length = 16 :=
    fun _ _ _ => length_poly1305_mac _ _
  unfold registro_de at h
  obtain ⟨h12, h3⟩ := lies_append.mp h
  obtain ⟨hcab, h2⟩ := lies_append.mp h12
  have hde := len_de_cabecalho hcab hl
  -- the pieces of the packet, as `registro` takes them
  have f1 := hcab.range
  have f2 := h2.range
  have f3 := h3.range
  rw [length_cabecalho] at f1
  rw [hc, length_cabecalho, Nat.zero_add] at f2
  rw [List.length_append, hc, length_cabecalho, ht, Nat.zero_add] at f3
  have hreg : registro_em pkt max = ⟨cabecalho data.length,
      (chacha20poly1305_encrypt (t.socks sock.toNat).recv_key
        (nonce_inc (t.socks sock.toNat).recv_nonce (t.socks sock.toNat).recv_seq)
        (cabecalho data.length) data).1,
      (chacha20poly1305_encrypt (t.socks sock.toNat).recv_key
        (nonce_inc (t.socks sock.toNat).recv_nonce (t.socks sock.toNat).recv_seq)
        (cabecalho data.length) data).2⟩ := by
    unfold registro_em fatia
    rw [hde, Nat.min_eq_left hm, f1, f2, f3]
  rw [val_tls_recv hp (by omega), (registro_some (dados_cabecalho hcab)).1, hreg]
  unfold trata_registro abre_registro
  dsimp only
  rw [decrypt_encrypt, if_neg (not_not.mpr rfl), hc]

end Registro

/-! ## The sequence numbers -/

/-- The next record of the peer, under number `seq`, is taken for its payload. -/
def AceitaProximo (t : Slots) (sock : Int) (seq : UInt32) : Prop :=
  ∀ (data : List UInt8) (max : UInt16) (buf pkt : Memory), data.length ≤ TLS_MAX_RECORD →
    data.length ≤ max.toNat → Lies pkt 0 (registro_de (t.socks sock.toNat).recv_key
      (t.socks sock.toNat).recv_nonce seq data) →
    ((tls_recv t sock (24 + data.length) max buf).val pkt).1 = data.length ∧
    ((tls_recv t sock (24 + data.length) max buf).val pkt).2.2 = copia buf 0 data

/-- A call of `tls_recv` that returns -1 leaves the number that is due, and the record that has it
is taken next. -/
def RecebeSemPerda (t : Slots) (sock n : Int) (pkt : Memory) (max : UInt16) (buf : Memory) : Prop :=
  ((tls_recv t sock n max buf).val pkt).1 = -1 →
    (((tls_recv t sock n max buf).val pkt).2.1.socks sock.toNat).recv_seq =
      (t.socks sock.toNat).recv_seq ∧
    (Pronto t sock → AceitaProximo ((tls_recv t sock n max buf).val pkt).2.1 sock
      (t.socks sock.toNat).recv_seq)

/-- A call of `tls_send` that returns -1 leaves the number of the next record. `r` is what
`tcp_send` returns. -/
def EnviaSemPerda (t : Slots) (sock : Int) (data : List UInt8) (r : Int) : Prop :=
  (tls_send t sock data r).1 = -1 →
    ((tls_send t sock data r).2.socks sock.toNat).send_seq = (t.socks sock.toNat).send_seq

section Sequencia

variable {t : Slots} {sock n r : Int} {max : UInt16} {buf pkt : Memory} {data : List UInt8}

theorem add_one_ne (seq : UInt32) : seq + 1 ≠ seq := by
  intro h
  have hn := congrArg UInt32.toNat h
  have hlt := seq.toNat_lt
  rw [UInt32.toNat_add] at hn
  change (seq.toNat + 1) % 4294967296 = seq.toNat at hn
  omega

theorem aceita_proximo (hp : Pronto t sock) :
    AceitaProximo t sock (t.socks sock.toNat).recv_seq := by
  intro data max buf pkt hl hm h
  rw [tls_recv_registro_de hp hl hm h]
  exact ⟨rfl, rfl⟩

theorem recebeSemPerda_iff : RecebeSemPerda t sock n pkt max buf ↔
    ¬ (Pronto t sock ∧ 8 ≤ n ∧ Dados pkt ∧
      (abre_registro (t.socks sock.toNat) (registro_em pkt max) buf).1 ≠ 0) := by
  -- a call that leaves the slots alone
  have hfica : ((tls_recv t sock n max buf).val pkt).2.1 = t →
      RecebeSemPerda t sock n pkt max buf := by
    intro ht
    unfold RecebeSemPerda
    rw [ht]
    exact fun _ => ⟨rfl, aceita_proximo⟩
  by_cases hc : Pronto t sock ∧ 8 ≤ n
  · obtain ⟨hp, h8⟩ := hc
    by_cases hd : Dados pkt
    · have hv : (registro max).val pkt = _ := (registro_some hd).1
      constructor
      · rintro h ⟨_, _, _, ha⟩
        unfold RecebeSemPerda at h
        rw [val_tls_recv hp h8, hv] at h
        unfold trata_registro at h
        dsimp only at h
        have hs := (h (if_pos ha)).1
        rw [com_sock_self] at hs
        exact add_one_ne _ hs
      · intro h hr
        have ha : (abre_registro (t.socks sock.toNat) (registro_em pkt max) buf).1 = 0 := by
          by_contra ha
          exact h ⟨hp, h8, hd, ha⟩
        rw [val_tls_recv hp h8, hv] at hr
        unfold trata_registro at hr
        dsimp only at hr
        rw [if_neg (not_not.mpr ha)] at hr
        omega
    · refine ⟨fun _ h => hd h.2.2.1, fun _ => hfica ?_⟩
      have hv : (registro max).val pkt = _ := (registro_none hd).1
      rw [val_tls_recv hp h8, hv]
      rfl
  · refine ⟨fun _ h => hc ⟨h.1, h.2.1⟩, fun _ => hfica ?_⟩
    rw [(tls_recv_cedo hc).1]

theorem enviaSemPerda_iff : EnviaSemPerda t sock data r ↔ ¬ Pronto t sock ∨ r ≠ -1 := by
  unfold EnviaSemPerda tls_send
  by_cases hp : Pronto t sock
  · rw [if_neg hp]
    dsimp only
    rw [com_sock_self]
    exact ⟨fun h => Or.inr fun hr => add_one_ne _ (h hr), fun h hr =>
      absurd hr (h.resolve_left (not_not.mpr hp))⟩
  · rw [if_pos (not_not.mp hp)]
    exact ⟨fun _ => Or.inl hp, fun _ _ => rfl⟩

/-- A refused record costs no sequence number just where it is refused before it is opened, and
an unsent one just where its slot is not ready. -/
theorem a_refused_record_costs_no_number_iff (t : Slots) (sock n : Int) (pkt : Memory)
    (max : UInt16) (buf : Memory) (data : List UInt8) (r : Int) :
    (RecebeSemPerda t sock n pkt max buf ↔
      ¬ (Pronto t sock ∧ 8 ≤ n ∧ Dados pkt ∧
        (abre_registro (t.socks sock.toNat) (registro_em pkt max) buf).1 ≠ 0)) ∧
    (EnviaSemPerda t sock data r ↔ ¬ Pronto t sock ∨ r ≠ -1) :=
  ⟨recebeSemPerda_iff, enviaSemPerda_iff⟩

/-- A packet with the header of a data record of no payload, and a given tag. -/
def pkt_com_tag (tag : List UInt8) : Memory := copia (fun _ => 0) 0 (cabecalho 0 ++ tag)

theorem fatia_tag {tag : List UInt8} (ht : tag.length = 16) :
    Dados (pkt_com_tag tag) ∧ registro_em (pkt_com_tag tag) 0 = ⟨cabecalho 0, [], tag⟩ := by
  obtain ⟨hc, hg⟩ := lies_append.mp (lies_copia (fun _ => 0) (cabecalho 0 ++ tag))
  have hde := len_de_cabecalho hc (Nat.zero_le _)
  have f1 := hc.range
  have f2 := hg.range
  rw [length_cabecalho] at f1 f2
  rw [ht] at f2
  refine ⟨dados_cabecalho hc, ?_⟩
  unfold pkt_com_tag registro_em fatia
  rw [hde, Nat.zero_min, f1]
  exact congrArg _ f2

/-- A forged tag uses up a number, and so does a record that is not sent. -/
theorem a_forged_record_costs_a_number :
    (¬ ∀ t sock n pkt max buf, RecebeSemPerda t sock n pkt max buf) ∧
    ¬ ∀ t sock data r, EnviaSemPerda t sock data r := by
  constructor
  · intro h
    -- a tag that is not the one of the empty record
    obtain ⟨tag, ht, hne⟩ : ∃ tag : List UInt8, tag.length = 16 ∧
        tag ≠ (chacha20poly1305_encrypt (com_uma_pronta.socks 0).recv_key
          (nonce_inc (com_uma_pronta.socks 0).recv_nonce (com_uma_pronta.socks 0).recv_seq)
          (cabecalho 0) []).2 := by
      by_cases hz : List.replicate 16 0 = (chacha20poly1305_encrypt
          (com_uma_pronta.socks 0).recv_key
          (nonce_inc (com_uma_pronta.socks 0).recv_nonce (com_uma_pronta.socks 0).recv_seq)
          (cabecalho 0) []).2
      · refine ⟨List.replicate 16 1, List.length_replicate, ?_⟩
        rw [← hz]
        decide
      · exact ⟨List.replicate 16 0, List.length_replicate, hz⟩
    obtain ⟨hd, hg⟩ := fatia_tag ht
    refine recebeSemPerda_iff.mp (h com_uma_pronta 0 24 (pkt_com_tag tag) 0 fun _ => 0)
      ⟨pronto_zero, by decide, hd, ?_⟩
    rw [hg]
    unfold abre_registro
    dsimp only
    rw [decrypt_recusa ht]
    · decide
    · have he : (chacha20poly1305_encrypt (com_uma_pronta.socks 0).recv_key
          (nonce_inc (com_uma_pronta.socks 0).recv_nonce (com_uma_pronta.socks 0).recv_seq)
          (cabecalho 0) []).1 = [] := by
        rw [← List.length_eq_zero_iff]
        exact length_chacha20_encrypt _ _ _ _
      have hne' := hne
      unfold chacha20poly1305_encrypt at hne' he
      dsimp only at hne' he
      rwa [he] at hne'
  · intro h
    rcases enviaSemPerda_iff.mp (h com_uma_pronta 0 [] (-1)) with hp | hr
    · exact hp pronto_zero
    · exact hr rfl

end Sequencia

/-! ## The stream -/

/-- The records that calls of `tls_send` hand to `tcp_send`, which takes each of them. -/
def registros (sock : Int) : Slots → List (List UInt8) → List (List UInt8)
  | _, [] => []
  | t, p :: ps => pkt_enviado t sock p :: registros sock (tls_send t sock p (24 + p.length)).2 ps

/-- The payloads that calls of `tls_recv` return, where `tcp_recv` returns the chunks of a list;
`none`: -1. What a chunk does not overwrite of `pkt` stays there. -/
def recebidos (sock : Int) (max : UInt16) (buf : Memory) :
    Slots → Memory → List (List UInt8) → List (Option (List UInt8))
  | _, _, [] => []
  | t, pkt, c :: cs =>
    let pkt := copia pkt 0 c
    let r := (tls_recv t sock c.length max buf).val pkt
    (if r.1 < 0 then none else some (trecho r.2.2 r.1.toNat)) :: recebidos sock max buf r.2.1 pkt cs

/-- The sending end `s` and the receiving end `r` of a connection agree. -/
structure Par (s r : Sock) : Prop where
  key : r.recv_key = s.send_key
  nonce : r.recv_nonce = s.send_nonce
  seq : r.recv_seq = s.send_seq

section Fluxo

variable {t u : Slots} {i j : Int} {max : UInt16} {buf pkt : Memory} {ps : List (List UInt8)}

theorem pronto_com_sock {s : Sock} (h : Pronto t i) (hs : s.ready = (t.socks i.toNat).ready) :
    Pronto (com_sock t i.toNat s) i := by
  unfold Pronto at *
  rwa [com_sock_self, hs]

/-- Where each chunk is one record, each call returns its payload. -/
theorem recebidos_registros (ht : Pronto t i) (hu : Pronto u j)
    (hpar : Par (t.socks i.toNat) (u.socks j.toNat))
    (hps : ∀ p ∈ ps, p.length ≤ TLS_MAX_RECORD ∧ p.length ≤ max.toNat) :
    recebidos j max buf u pkt (registros i t ps) = ps.map some := by
  induction ps generalizing t u pkt with
  | nil => rfl
  | cons p ps ih =>
    obtain ⟨hl, hm⟩ := hps p List.mem_cons_self
    have hreg : pkt_enviado t i p = registro_de (u.socks j.toNat).recv_key
        (u.socks j.toNat).recv_nonce (u.socks j.toNat).recv_seq p := by
      unfold pkt_enviado
      rw [if_pos ht, hpar.key, hpar.nonce, hpar.seq]
    have hsend : (tls_send t i p (24 + p.length)).2.socks =
        (com_sock t i.toNat { t.socks i.toNat with
          send_seq := (t.socks i.toNat).send_seq + 1 }).socks := by
      unfold tls_send
      rw [if_neg ht]
    have hself : (tls_send t i p (24 + p.length)).2.socks i.toNat =
        { t.socks i.toNat with send_seq := (t.socks i.toNat).send_seq + 1 } := by
      rw [hsend, com_sock_self]
    have hc := lies_copia pkt (pkt_enviado t i p)
    rw [hreg] at hc
    have hrecv : (tls_recv u j (24 + p.length) max buf).val _ = _ :=
      tls_recv_registro_de hu hl hm hc
    have hlen : ((pkt_enviado t i p).length : Int) = 24 + p.length := by
      rw [hreg, length_registro_de]
      rfl
    unfold registros recebidos
    dsimp only
    rw [hlen, hreg, hrecv, List.map_cons]
    dsimp only
    rw [if_neg (by omega), Int.toNat_natCast, trecho_copia]
    refine congrArg (some p :: ·) (ih ?_ (pronto_com_sock hu rfl) ?_ fun q hq =>
      hps q (List.mem_cons_of_mem p hq))
    · unfold Pronto at *
      rwa [hself]
    · rw [hself, com_sock_self]
      refine ⟨hpar.key, hpar.nonce, ?_⟩
      dsimp only
      rw [hpar.seq]

/-- Between two ends that agree, where the stream of the records is cut just between them, the
calls of `tls_recv` return the payloads, each once and in order. -/
theorem the_payloads_arrive_where_each_chunk_is_a_record (t u : Slots) (i j : Int) (max : UInt16)
    (buf pkt : Memory) (ps cs : List (List UInt8)) (ht : Pronto t i) (hu : Pronto u j)
    (hpar : Par (t.socks i.toNat) (u.socks j.toNat))
    (hps : ∀ p ∈ ps, p.length ≤ 1436 ∧ p.length ≤ max.toNat) (hcs : cs = registros i t ps) :
    cs.flatten = (registros i t ps).flatten ∧
    recebidos j max buf u pkt cs = ps.map some ∧
    (recebidos j max buf u pkt cs).filterMap id = ps := by
  have hr : recebidos j max buf u pkt (registros i t ps) = ps.map some :=
    recebidos_registros ht hu hpar fun p hp => ⟨Nat.le_trans (hps p hp).1 (by decide), (hps p hp).2⟩
  subst hcs
  refine ⟨rfl, hr, ?_⟩
  rw [hr, List.filterMap_map]
  exact List.filterMap_some

/-- The law at two payloads between the ends of one connection to itself. -/
theorem two_payloads_arrive : (recebidos 0 100 (fun _ => 0) com_uma_pronta (fun _ => 0)
    (registros 0 com_uma_pronta [[1], [2, 3]])).filterMap id = [[1], [2, 3]] :=
  (the_payloads_arrive_where_each_chunk_is_a_record com_uma_pronta com_uma_pronta 0 0 100
    (fun _ => 0) (fun _ => 0) [[1], [2, 3]] _ pronto_zero pronto_zero ⟨rfl, rfl, rfl⟩
    (by decide) rfl).2.2

theorem length_recebidos (u : Slots) (pkt : Memory) (cs : List (List UInt8)) :
    (recebidos j max buf u pkt cs).length = cs.length := by
  induction cs generalizing u pkt with
  | nil => rfl
  | cons c cs ih => exact congrArg (· + 1) (ih _ _)

/-- Of two records in one chunk one payload is returned at most. -/
theorem two_records_in_one_chunk_give_one_payload : ¬ ∀ t u i j max buf pkt ps cs,
    Pronto t i → Pronto u j → Par (t.socks i.toNat) (u.socks j.toNat) →
    (∀ p ∈ ps, p.length ≤ 1436 ∧ p.length ≤ max.toNat) →
    cs.flatten = (registros i t ps).flatten →
    (recebidos j max buf u pkt cs).filterMap id = ps := by
  intro h
  have hr := h com_uma_pronta com_uma_pronta 0 0 100 (fun _ => 0) (fun _ => 0) [[1], [2]]
    [(registros 0 com_uma_pronta [[1], [2]]).flatten] pronto_zero pronto_zero ⟨rfl, rfl, rfl⟩
    (by decide) (by rw [List.flatten_singleton])
  have hl := congrArg List.length hr
  have hle := List.length_filterMap_le id (recebidos 0 100 (fun _ => 0) com_uma_pronta (fun _ => 0)
    [(registros 0 com_uma_pronta [[1], [2]]).flatten])
  rw [length_recebidos, hl] at hle
  exact absurd hle (by decide)

end Fluxo

end SpaceOS.Tls
