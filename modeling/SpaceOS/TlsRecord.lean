-- The records of SpaceTLS (kernel/net/tls.c): the bytes that `tls_send` puts into a packet, and
-- what `tls_recv` makes of a packet from the stream.
import SpaceOS.Aead
import SpaceOS.Lib.Footprint
import SpaceOS.Tcp
import SpaceOS.Tls

open Lib.Bytes Lib.Footprint SpaceOS.Aead SpaceOS.Net

namespace SpaceOS.Tls

def TLS_MAX_RECORD : Nat := 4096

/-- The slot is one of the table, and its connection is ready. -/
def Pronto (t : Slots) (sock : Int) : Prop :=
  ¬ (sock < 0 ∨ sock ≥ STLS_MAX_SOCKS ∨ (t.socks sock.toNat).ready = false)

instance (t : Slots) (sock : Int) : Decidable (Pronto t sock) := inferInstanceAs (Decidable (¬ _))

/-! ## Sending -/

/-- The record of a payload, under a key, a nonce and a sequence number. -/
def registro_de (key nonce : List UInt8) (seq : UInt32) (data : List UInt8) : List UInt8 :=
  let c := chacha20poly1305_encrypt key (nonce_inc nonce seq) (cabecalho data.length) data
  cabecalho data.length ++ c.1 ++ c.2

/-- What `tls_send` writes to `pkt`, from its start on. -/
def pkt_enviado (t : Slots) (sock : Int) (data : List UInt8) : List UInt8 :=
  if Pronto t sock then
    let s := t.socks sock.toNat
    registro_de s.send_key s.send_nonce s.send_seq data
  else []

/-- What its encryption writes to `mac_input`. -/
def mac_enviado (t : Slots) (sock : Int) (data : List UInt8) : List UInt8 :=
  if Pronto t sock then
    let s := t.socks sock.toNat
    mac_input (cabecalho data.length) (chacha20poly1305_encrypt s.send_key
      (nonce_inc s.send_nonce s.send_seq) (cabecalho data.length) data).1
  else []

/-! ## Receiving -/

/-- What `tls_recv` takes from a record: the header, the part of the ciphertext that has room in
`buf`, and the tag. -/
structure Registro where
  aad : List UInt8
  cipher : List UInt8
  tag : List UInt8

/-- The length of the payload, as the header says. -/
def payload_len (length : UInt16) : UInt16 := length - 16

/-- The record in `pkt`, `none` where it is no data record. -/
def registro (max : UInt16) : Reader (Option Registro) := do
  let magic ← Reader.bytes 0 4
  if magic ≠ STLS_MAGIC then return none
  let type ← Reader.byte 5
  if type ≠ 2 then return none
  let length ← Reader.half16 6
  let aad ← Reader.bytes 0 8
  let cipher ← Reader.bytes 8 (min (payload_len length).toNat max.toNat)
  let tag ← Reader.bytes (8 + (payload_len length).toNat) 16
  return some ⟨aad, cipher, tag⟩

/-- The opening of a record on a connection. -/
def abre_registro (s : Sock) (g : Registro) (buf : Memory) : Int × Memory :=
  chacha20poly1305_decrypt s.recv_key (nonce_inc s.recv_nonce s.recv_seq) g.aad g.cipher g.tag buf

/-- `tls_recv` once the record is read: the code, the slots and `buf` as it is left. The sequence
number is taken before the record is opened. -/
def trata_registro (t : Slots) (sock : Int) (buf : Memory) : Option Registro → Int × Slots × Memory
  | none => (-1, t, buf)
  | some g =>
    let s := t.socks sock.toNat
    let r := abre_registro s g buf
    (if r.1 ≠ 0 then -1 else g.cipher.length,
      com_sock t sock.toNat { s with recv_seq := s.recv_seq + 1 }, r.2)

/-- `tls_recv` once `tcp_recv` has returned `n`; the memory is `pkt`. -/
def tls_recv (t : Slots) (sock n : Int) (max : UInt16) (buf : Memory) :
    Reader (Int × Slots × Memory) := do
  if ¬ Pronto t sock then return (-1, t, buf)
  if n < 8 then return (-1, t, buf)
  return trata_registro t sock buf (← registro max)

/-! ## Small laws -/

section Leitura

variable {t : Slots} {sock n : Int} {max : UInt16} {buf pkt : Memory} {g : Registro}

theorem val_tls_recv (h : Pronto t sock) (hn : 8 ≤ n) : (tls_recv t sock n max buf).val pkt =
    trata_registro t sock buf ((registro max).val pkt) := by
  unfold tls_recv
  rw [if_neg (not_not.mpr h), if_neg (by omega), Reader.val_bind, Reader.val_pure]

theorem parts_tls_recv (h : Pronto t sock) (hn : 8 ≤ n) : (tls_recv t sock n max buf).parts pkt =
    (registro max).parts pkt := by
  unfold tls_recv
  rw [if_neg (not_not.mpr h), if_neg (by omega), Reader.parts_bind, Reader.parts_pure,
    List.append_nil]

/-- A slot that is not ready, or fewer bytes than a header has: nothing is read. -/
theorem tls_recv_cedo (h : ¬ (Pronto t sock ∧ 8 ≤ n)) :
    (tls_recv t sock n max buf).val pkt = (-1, t, buf) ∧
    (tls_recv t sock n max buf).parts pkt = [] := by
  unfold tls_recv
  by_cases hp : Pronto t sock
  · have hn : n < 8 := by
      by_contra hn
      exact h ⟨hp, by omega⟩
    rw [if_neg (not_not.mpr hp), if_pos hn]
    exact ⟨rfl, rfl⟩
  · rw [if_pos hp]
    exact ⟨rfl, rfl⟩

theorem com_sock_self (t : Slots) (i : Nat) (s : Sock) : (com_sock t i s).socks i = s := if_pos rfl

/-- The bytes in the packet from place `a` on. -/
def fatia (pkt : Memory) (a n : Nat) : List UInt8 := (List.range n).map fun i => pkt (a + i)

/-- The packet begins as a data record. -/
def Dados (pkt : Memory) : Prop := fatia pkt 0 4 = STLS_MAGIC ∧ pkt 5 = 2

instance (pkt : Memory) : Decidable (Dados pkt) := inferInstanceAs (Decidable (_ ∧ _))

/-- The length of the payload in a packet, as its header says. -/
def len_de (pkt : Memory) : Nat := (payload_len (UInt16.ofNat (half pkt 6))).toNat

/-- The data record in a packet. -/
def registro_em (pkt : Memory) (max : UInt16) : Registro where
  aad := fatia pkt 0 8
  cipher := fatia pkt 8 (min (len_de pkt) max.toNat)
  tag := fatia pkt (8 + len_de pkt) 16

theorem registro_some (h : Dados pkt) : (registro max).val pkt = some (registro_em pkt max) ∧
    (registro max).parts pkt = [⟨0, 4⟩, ⟨5, 1⟩, ⟨6, 2⟩, ⟨0, 8⟩,
      ⟨8, min (len_de pkt) max.toNat⟩, ⟨8 + len_de pkt, 16⟩] := by
  obtain ⟨hm, ht⟩ := h
  have hm : (Reader.bytes 0 4).val pkt = STLS_MAGIC := hm
  have ht : (Reader.byte 5).val pkt = 2 := ht
  unfold registro
  simp only [Reader.val_bind, Reader.parts_bind, hm, ht, ne_eq, not_true_eq_false, if_false]
  exact ⟨rfl, rfl⟩

theorem registro_none (h : ¬ Dados pkt) : (registro max).val pkt = none ∧
    ∀ p ∈ (registro max).parts pkt, p.Within 8 := by
  unfold registro
  simp only [Reader.val_bind, Reader.parts_bind, Reader.val_ite, Reader.parts_ite]
  by_cases hm : (Reader.bytes 0 4).val pkt = STLS_MAGIC
  · have ht : (Reader.byte 5).val pkt ≠ 2 := fun ht => h ⟨hm, ht⟩
    rw [if_neg (not_not.mpr hm), if_neg (not_not.mpr hm), if_pos ht, if_pos ht]
    exact ⟨rfl, by simp [Part.Within]⟩
  · rw [if_pos hm, if_pos hm]
    exact ⟨rfl, by simp [Part.Within]⟩

theorem length_fatia (pkt : Memory) (a n : Nat) : (fatia pkt a n).length = n := by
  simp [fatia]

end Leitura

/-! ## The buffers -/

/-- What the opening in `tls_recv` writes to `mac_input`. -/
def mac_recebido (t : Slots) (sock n : Int) (pkt : Memory) (max : UInt16) : List UInt8 :=
  if Pronto t sock ∧ 8 ≤ n then
    match (registro max).val pkt with
    | none => []
    | some g => mac_input g.aad g.cipher
  else []

/-- A call of `tls_send` keeps to its buffers, and refuses a payload that has no room. `r` is what
`tcp_send` returns. -/
structure EnviaDentro (t : Slots) (sock : Int) (data : List UInt8) : Prop where
  pkt : (pkt_enviado t sock data).length ≤ TLS_MAX_RECORD + 24
  mac : (mac_enviado t sock data).length ≤ TLS_MAX_RECORD + 64
  recusa : ∀ r, TLS_MAX_RECORD < data.length → (tls_send t sock data r).1 = -1

/-- A call of `tls_recv` keeps to the bytes received and to its buffer, and refuses a record that
is not there as a whole or has no room. -/
structure RecebeDentro (t : Slots) (sock n : Int) (pkt : Memory) (max : UInt16) (buf : Memory) :
    Prop where
  leituras : ∀ p ∈ (tls_recv t sock n max buf).parts pkt, p.Within n.toNat
  mac : (mac_recebido t sock n pkt max).length ≤ TLS_MAX_RECORD + 64
  recusa : ¬ (24 + len_de pkt ≤ n ∧ len_de pkt ≤ max.toNat) →
    ((tls_recv t sock n max buf).val pkt).1 = -1

section Buffers

variable {t : Slots} {sock n : Int} {max : UInt16} {buf pkt : Memory} {data : List UInt8}

theorem length_registro_de (key nonce : List UInt8) (seq : UInt32) (data : List UInt8) :
    (registro_de key nonce seq data).length = 24 + data.length := by
  unfold registro_de chacha20poly1305_encrypt
  simp only [List.length_append, length_chacha20_encrypt, length_poly1305_mac]
  change 8 + data.length + 16 = _
  omega

theorem enviaDentro_iff : EnviaDentro t sock data ↔
    ¬ Pronto t sock ∨ data.length ≤ TLS_MAX_RECORD := by
  unfold TLS_MAX_RECORD
  constructor
  · intro h
    by_cases hp : Pronto t sock
    · have hl := h.pkt
      unfold pkt_enviado TLS_MAX_RECORD at hl
      rw [if_pos hp, length_registro_de] at hl
      exact Or.inr (by omega)
    · exact Or.inl hp
  · intro h
    by_cases hp : Pronto t sock
    · have hl : data.length ≤ 4096 := h.resolve_left (not_not.mpr hp)
      refine ⟨?_, ?_, fun r hgt => ?_⟩
      · unfold pkt_enviado TLS_MAX_RECORD
        rw [if_pos hp, length_registro_de]
        omega
      · unfold mac_enviado TLS_MAX_RECORD chacha20poly1305_encrypt
        rw [if_pos hp, length_mac_input, length_chacha20_encrypt]
        change (8 + 15) / 16 * 16 + _ + 16 ≤ _
        omega
      · unfold TLS_MAX_RECORD at hgt
        omega
    · refine ⟨?_, ?_, fun r _ => ?_⟩
      · unfold pkt_enviado
        rw [if_neg hp]
        exact Nat.zero_le _
      · unfold mac_enviado
        rw [if_neg hp]
        exact Nat.zero_le _
      · unfold tls_send
        rw [if_pos (not_not.mp hp)]

theorem recebeDentro_iff (hn : n ≤ TLS_MAX_RECORD + 24) : RecebeDentro t sock n pkt max buf ↔
    ¬ (Pronto t sock ∧ 8 ≤ n ∧ Dados pkt) ∨ (24 + len_de pkt ≤ n ∧
      (len_de pkt ≤ max.toNat ∨
        (abre_registro (t.socks sock.toNat) (registro_em pkt max) buf).1 ≠ 0)) := by
  by_cases hc : Pronto t sock ∧ 8 ≤ n
  · obtain ⟨hp, h8⟩ := hc
    by_cases hd : Dados pkt
    · obtain ⟨hv, hparts⟩ : (registro max).val pkt = _ ∧ _ := registro_some hd
      have hmac : mac_recebido t sock n pkt max =
          mac_input (fatia pkt 0 8) (fatia pkt 8 (min (len_de pkt) max.toNat)) := by
        unfold mac_recebido
        rw [if_pos ⟨hp, h8⟩, hv]
        rfl
      constructor
      · intro h
        have htag := h.leituras ⟨8 + len_de pkt, 16⟩ (by rw [parts_tls_recv hp h8, hparts]; simp)
        change 8 + len_de pkt + 16 ≤ n.toNat at htag
        refine Or.inr ⟨by omega, ?_⟩
        by_cases hm : len_de pkt ≤ max.toNat
        · exact Or.inl hm
        · have hr := h.recusa fun hc => hm hc.2
          rw [val_tls_recv hp h8, hv] at hr
          refine Or.inr fun h0 => ?_
          unfold trata_registro at hr
          dsimp only at hr
          rw [if_neg (not_not.mpr h0)] at hr
          omega
      · intro h
        obtain ⟨hl, hm⟩ := h.resolve_left (not_not.mpr ⟨hp, h8, hd⟩)
        unfold TLS_MAX_RECORD at hn
        refine ⟨?_, ?_, fun hnot => ?_⟩
        · rw [parts_tls_recv hp h8, hparts]
          intro p hmem
          simp only [List.mem_cons, List.not_mem_nil, or_false] at hmem
          unfold Part.Within
          rcases hmem with rfl | rfl | rfl | rfl | rfl | rfl
          all_goals
            dsimp only
            omega
        · rw [hmac, length_mac_input, length_fatia, length_fatia]
          unfold TLS_MAX_RECORD
          omega
        · rw [val_tls_recv hp h8, hv]
          unfold trata_registro
          dsimp only
          rw [if_pos (hm.resolve_left fun hle => hnot ⟨hl, hle⟩)]
    · obtain ⟨hv, hparts⟩ : (registro max).val pkt = _ ∧ _ := registro_none hd
      refine ⟨fun _ => Or.inl fun h => hd h.2.2, fun _ => ⟨fun p hmem => ?_, ?_, fun _ => ?_⟩⟩
      · rw [parts_tls_recv hp h8] at hmem
        have := hparts p hmem
        unfold Part.Within at *
        omega
      · unfold mac_recebido
        rw [if_pos ⟨hp, h8⟩, hv]
        exact Nat.zero_le _
      · rw [val_tls_recv hp h8, hv]
        rfl
  · obtain ⟨hv, hparts⟩ : (tls_recv t sock n max buf).val pkt = _ ∧ _ := tls_recv_cedo hc
    refine ⟨fun _ => Or.inl fun h => hc ⟨h.1, h.2.1⟩, fun _ => ⟨?_, ?_, fun _ => ?_⟩⟩
    · rw [hparts]
      exact fun p hmem => absurd hmem List.not_mem_nil
    · unfold mac_recebido
      rw [if_neg hc]
      exact Nat.zero_le _
    · rw [hv]

/-- What `tcp_recv` returns is no more than it was asked for. -/
theorem tcp_recv_le (eth_poll : Rede → Rede) (r : Rede) (i : Indice) (max_len : UInt16)
    (timeout_ms : UInt32) : (tcp_recv eth_poll r i max_len timeout_ms).1.1 ≤ max_len.toNat := by
  have hvolta : ∀ r v, (tcp_recv_volta r i max_len).1 = some v → v.1 ≤ max_len.toNat := by
    intro r v
    unfold tcp_recv_volta
    dsimp only
    split_ifs
    · rintro ⟨⟩
      exact Int.ofNat_le.mpr (Nat.min_le_right _ _)
    · rintro ⟨⟩
      exact Int.natCast_nonneg _
    · rintro ⟨⟩
      exact Int.le_trans (by decide) (Int.natCast_nonneg _)
    · rintro ⟨⟩
  have hlaco : ∀ n start r,
      (tcp_recv_laco eth_poll i max_len timeout_ms start n r).1.1 ≤ max_len.toNat := by
    intro n start
    induction n with
    | zero =>
      intro r
      unfold tcp_recv_laco
      rcases hv : (tcp_recv_volta r i max_len).1 with _ | v
      · exact Int.natCast_nonneg _
      · exact hvolta r v hv
    | succ n ih =>
      intro r
      unfold tcp_recv_laco
      rcases hv : tcp_recv_volta r i max_len with ⟨_ | v, r'⟩
      · dsimp only
        split
        · exact Int.natCast_nonneg _
        · exact ih _
      · exact hvolta r v (by rw [hv])
  exact hlaco _ _ r

/-- The buffers are kept by `tls_send` just for payloads of at most 4096 bytes, and by `tls_recv`
just for packets that are no data record, or are there as a whole and have room in `buf` (or do
not open). -/
theorem the_record_buffers_are_kept_iff (t : Slots) (sock : Int) (data : List UInt8) (n : Int)
    (pkt : Memory) (max : UInt16) (buf : Memory) (hn : n ≤ TLS_MAX_RECORD + 24) :
    (EnviaDentro t sock data ↔ ¬ Pronto t sock ∨ data.length ≤ TLS_MAX_RECORD) ∧
    (RecebeDentro t sock n pkt max buf ↔
      ¬ (Pronto t sock ∧ 8 ≤ n ∧ Dados pkt) ∨ (24 + len_de pkt ≤ n ∧
        (len_de pkt ≤ max.toNat ∨
          (abre_registro (t.socks sock.toNat) (registro_em pkt max) buf).1 ≠ 0))) :=
  ⟨enviaDentro_iff, recebeDentro_iff hn⟩

/-- The slots with connection 0 ready. -/
def com_uma_pronta : Slots := com_sock inicio 0 { inicio.socks 0 with ready := true }

theorem pronto_zero : Pronto com_uma_pronta 0 := by decide

/-- The law at a payload of two bytes, and at a packet that is no record. -/
theorem a_short_payload_keeps_to_the_buffers :
    EnviaDentro com_uma_pronta 0 [1, 2] ∧
    RecebeDentro com_uma_pronta 0 24 (fun _ => 0) 100 (fun _ => 0) := by
  obtain ⟨he, hr⟩ := the_record_buffers_are_kept_iff com_uma_pronta 0 [1, 2] 24 (fun _ => 0) 100
    (fun _ => 0) (by decide)
  exact ⟨he.mpr (Or.inr (by decide)), hr.mpr (Or.inl fun h => absurd h.2.2 (by decide))⟩

/-- A header alone, with the length field 0. -/
def cabecalho_zero : Memory := fun i =>
  (STLS_MAGIC ++ [STLS_VER, 2, 0, 0]).getD i 0

/-- A payload of 4097 bytes runs over the packet, and of a header alone with the length field 0 more
is read than came. -/
theorem a_long_payload_and_a_header_alone_leave_the_buffers :
    (¬ ∀ t sock data, EnviaDentro t sock data) ∧
    ¬ ∀ t sock (n : Int) pkt max buf, n ≤ TLS_MAX_RECORD + 24 →
      RecebeDentro t sock n pkt max buf := by
  constructor
  · intro h
    rcases enviaDentro_iff.mp (h com_uma_pronta 0 (List.replicate 4097 0)) with hp | hl
    · exact hp pronto_zero
    · rw [List.length_replicate] at hl
      exact absurd hl (by decide)
  · intro h
    have hr := h com_uma_pronta 0 8 cabecalho_zero 100 (fun _ => 0) (by decide)
    rcases (recebeDentro_iff (by decide)).mp hr with hc | hc
    · exact hc ⟨pronto_zero, by decide, by decide⟩
    · exact absurd hc.1 (by decide)

end Buffers

end SpaceOS.Tls
