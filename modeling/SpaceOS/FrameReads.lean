-- What the receive path reads of a frame. Each layer is followed down to the parts of the buffer
-- that it takes, and those are set against the length of the frame.
import SpaceOS.Stack

open Lib.Bytes Lib.Footprint

namespace SpaceOS.Net

/-- All that a layer takes of the buffer ends at byte `n` or before. -/
def Dentro {α : Type} (x : Reader α) (m : Memory) (n : Nat) : Prop :=
  ∀ p ∈ x.parts m, p.Within n

section Dentro

variable {α β : Type} {m : Memory} {n : Nat}

@[simp] theorem dentro_pure (v : α) : Dentro (pure v) m n := by
  intro p hp
  cases hp

theorem dentro_bind (x : Reader α) (f : α → Reader β) :
    Dentro (x >>= f) m n ↔ Dentro x m n ∧ Dentro (f (x.val m)) m n := by
  unfold Dentro
  rw [Reader.parts_bind]
  exact List.forall_mem_append

theorem dentro_ite {c : Prop} [Decidable c] (x y : Reader α) :
    Dentro (if c then x else y) m n ↔ (c → Dentro x m n) ∧ (¬ c → Dentro y m n) := by
  split <;> simp [*]

theorem dentro_field {x : Reader α} {a l : Nat} (h : x.parts m = [⟨a, l⟩]) :
    Dentro x m n ↔ a + l ≤ n := by
  unfold Dentro
  rw [h]
  simp [Part.Within]

@[simp] theorem dentro_byte (a : Nat) : Dentro (Reader.byte a) m n ↔ a + 1 ≤ n :=
  dentro_field rfl

@[simp] theorem dentro_half16 (a : Nat) : Dentro (Reader.half16 a) m n ↔ a + 2 ≤ n :=
  dentro_field rfl

@[simp] theorem dentro_word32 (a : Nat) : Dentro (Reader.word32 a) m n ↔ a + 4 ≤ n :=
  dentro_field rfl

@[simp] theorem dentro_bytes (a l : Nat) : Dentro (Reader.bytes a l) m n ↔ a + l ≤ n :=
  dentro_field rfl

end Dentro

/-! ## The layers -/

section Camadas

variable {t : Rede} {len offset : UInt16} {m : Memory}

/-- A 16-bit field of a header, in host order. -/
def campo16 (m : Memory) (a : Nat) : UInt16 := ntohs (UInt16.ofNat (half m a))

theorem toNat_avail (h : offset.toNat ≤ len.toNat) :
    (len - offset).toNat = len.toNat - offset.toNat :=
  UInt16.toNat_sub_of_le _ _ (UInt16.le_iff_toNat_le.mpr h)

/-- UDP stays inside exactly where the length of its header does. -/
theorem dentro_udp_recv (h : offset.toNat ≤ len.toNat) :
    Dentro (udp_recv t len offset) m len.toNat ↔
      (offset.toNat + UDP_HDR_LEN ≤ len.toNat →
        UDP_HDR_LEN ≤ (campo16 m (offset.toNat + 4)).toNat ∧
          offset.toNat + (campo16 m (offset.toNat + 4)).toNat ≤ len.toNat) := by
  have hp : Dentro (udp_recv t len offset) m len.toNat ↔
      Dentro (pacote_udp len offset) m len.toNat := by
    unfold udp_recv
    rw [dentro_bind]
    refine and_iff_left ?_
    split <;> exact dentro_pure _
  have hlen : UDP_HDR_LEN = 8 := rfl
  rw [hp]
  unfold pacote_udp
  dsimp only
  by_cases hs : (len - offset).toNat < UDP_HDR_LEN
  · rw [if_pos hs]
    rw [toNat_avail h] at hs
    refine iff_of_true (dentro_pure _) fun hle => ?_
    omega
  · rw [if_neg hs]
    rw [toNat_avail h] at hs
    simp only [dentro_bind, dentro_half16, dentro_bytes, dentro_pure, Reader.val_half16, and_true]
    have hn : (udp_payload_len (UInt16.ofNat (half m (offset.toNat + 4)))).toNat =
        ((campo16 m (offset.toNat + 4)).toNat + 65528) % 65536 := by
      unfold udp_payload_len campo16
      rw [UInt16.toNat_sub]
      change (2 ^ 16 - 8 + _) % _ = _
      omega
    have hlt := (campo16 m (offset.toNat + 4)).toNat_lt
    have hlt' := len.toNat_lt
    rw [hn]
    omega

/-- TCP stays inside exactly where its header does. -/
theorem dentro_tcp_recv_dispatch {ip_send : IpSend} (h : offset.toNat ≤ len.toNat) :
    Dentro (tcp_recv_dispatch ip_send t len offset) m len.toNat ↔
      (offset.toNat + TCP_HDR_LEN ≤ len.toNat →
        offset.toNat + (hdr_len (m (offset.toNat + 12))).toNat ≤ len.toNat) := by
  have hp : Dentro (tcp_recv_dispatch ip_send t len offset) m len.toNat ↔
      Dentro (segmento len offset) m len.toNat := by
    unfold tcp_recv_dispatch
    rw [dentro_bind]
    refine and_iff_left ?_
    split <;> exact dentro_pure _
  have hlen : TCP_HDR_LEN = 20 := rfl
  rw [hp]
  unfold segmento
  dsimp only
  by_cases hs : (len - offset).toNat < TCP_HDR_LEN
  · rw [if_pos hs]
    rw [toNat_avail h] at hs
    refine iff_of_true (dentro_pure _) fun hle => ?_
    omega
  · rw [if_neg hs]
    simp only [dentro_bind, dentro_ite, dentro_half16, dentro_bytes, dentro_byte, dentro_word32,
      dentro_pure, Reader.val_byte, and_true, implies_true]
    have hn : (len - offset - (hdr_len (m (offset.toNat + 12))).toUInt16).toNat =
        (len.toNat - offset.toNat + (65536 - (hdr_len (m (offset.toNat + 12))).toNat)) % 65536 := by
      rw [UInt16.toNat_sub, toNat_avail h, UInt8.toNat_toUInt16]
      omega
    have hlt := (hdr_len (m (offset.toNat + 12))).toNat_lt
    have hlt' := len.toNat_lt
    rw [toNat_avail h] at hs
    rw [hn]
    omega

/-- ARP stays inside exactly where the sender does, and for a request the target. -/
theorem dentro_arp_recv :
    Dentro (arp_recv t len offset) m len.toNat ↔
      (28 ≤ len.toNat → offset.toNat + 18 ≤ len.toNat ∧
        (campo16 m (offset.toNat + 6) = 1 → offset.toNat + 28 ≤ len.toNat)) := by
  have hp : Dentro (arp_recv t len offset) m len.toNat ↔
      Dentro (pacote_arp len offset) m len.toNat := by
    unfold arp_recv
    rw [dentro_bind]
    refine and_iff_left ?_
    split <;> exact dentro_pure _
  rw [hp]
  unfold pacote_arp
  by_cases hs : len.toNat < 28
  · rw [if_pos hs]
    exact iff_of_true (dentro_pure _) fun hle => absurd hs (by omega)
  · rw [if_neg hs]
    simp only [dentro_bind, dentro_ite, dentro_half16, dentro_bytes, dentro_word32, dentro_pure,
      implies_true, and_true]
    have hc : ntohs ((Reader.half16 (offset.toNat + 6)).val m) = campo16 m (offset.toNat + 6) := rfl
    rw [hc]
    constructor
    · rintro ⟨h1, _, _, h2⟩ _
      exact ⟨h1, h2⟩
    · intro h
      obtain ⟨h1, h2⟩ := h (by omega)
      exact ⟨h1, by omega, by omega, h2⟩

/-- What `ip_recv` asks of the header at `a`. -/
def Aceito (t : Rede) (m : Memory) (a : Nat) : Prop :=
  aceita_ip t.net_our_ip ((List.range IP_HDR_LEN).map fun i => m (a + i))
    (ntohl (UInt32.ofNat (word m (a + 16))))

instance (t : Rede) (m : Memory) (a : Nat) : Decidable (Aceito t m a) :=
  inferInstanceAs (Decidable (aceita_ip _ _ _))

theorem dentro_ip_recv {ip_send : IpSend} (h : offset.toNat ≤ len.toNat) :
    Dentro (ip_recv ip_send t len offset) m len.toNat ↔
      (offset.toNat + IP_HDR_LEN ≤ len.toNat → Aceito t m offset.toNat →
        (m (offset.toNat + 9) = IP_PROTO_UDP →
          Dentro (udp_recv t len (offset + 20)) m len.toNat) ∧
        (m (offset.toNat + 9) = IP_PROTO_TCP →
          Dentro (tcp_recv_dispatch ip_send t len (offset + 20)) m len.toNat)) := by
  have hlen : IP_HDR_LEN = 20 := rfl
  unfold ip_recv
  dsimp only
  by_cases hs : (len - offset).toNat < IP_HDR_LEN
  · rw [if_pos hs]
    rw [toNat_avail h] at hs
    refine iff_of_true (dentro_pure _) fun hle => ?_
    omega
  · rw [if_neg hs]
    rw [toNat_avail h] at hs
    simp only [dentro_bind, dentro_ite, dentro_bytes, dentro_word32, dentro_byte, dentro_pure,
      implies_true, true_and, and_true, not_not]
    have hproto : (Reader.byte (offset.toNat + 9)).val m = m (offset.toNat + 9) := rfl
    have hac : aceita_ip t.net_our_ip ((Reader.bytes offset.toNat IP_HDR_LEN).val m)
        (ntohl ((Reader.word32 (offset.toNat + 16)).val m)) ↔ Aceito t m offset.toNat := Iff.rfl
    have hne : IP_PROTO_TCP ≠ IP_PROTO_UDP := by decide
    rw [hproto, hac]
    constructor
    · rintro ⟨_, _, _, h4⟩ _ ha
      obtain ⟨hu, ht⟩ := h4 ha
      exact ⟨hu, fun hp => ht (by rw [hp]; exact hne) hp⟩
    · intro h4
      refine ⟨by omega, by omega, by omega, fun ha => ?_⟩
      obtain ⟨hu, ht⟩ := h4 (by omega) ha
      exact ⟨hu, fun _ hp => ht hp⟩

end Camadas

/-! ## The whole frame -/

/-- The lengths in the headers of a frame of `len` bytes fit the frame: ARP has its fields, the
length of UDP covers its header and no more than what is left, and so does the header of TCP. -/
def Cabido (t : Rede) (len : UInt16) (m : Memory) : Prop :=
  14 ≤ len.toNat →
  (campo16 m 12 = ETH_PROTO_ARP → 28 ≤ len.toNat →
    32 ≤ len.toNat ∧ (campo16 m 20 = 1 → 42 ≤ len.toNat)) ∧
  (campo16 m 12 = ETH_PROTO_IP → 34 ≤ len.toNat → Aceito t m 14 →
    (m 23 = IP_PROTO_UDP → 42 ≤ len.toNat →
      8 ≤ (campo16 m 38).toNat ∧ 34 + (campo16 m 38).toNat ≤ len.toNat) ∧
    (m 23 = IP_PROTO_TCP → 54 ≤ len.toNat → 34 + (hdr_len (m 46)).toNat ≤ len.toNat))

/-- The receive path takes nothing beyond the frame, neither to read it nor as a payload, and
does the same whatever lies there. -/
structure SoDoQuadro (ip_send : IpSend) (t : Rede) (len : UInt16) (m : Memory) : Prop where
  dentro : Dentro (eth_recv ip_send t len 0) m len.toNat
  so_dele : ∀ m' : Memory, (∀ a < len.toNat, m' a = m a) →
    recebe ip_send t ⟨m', len, 0⟩ = recebe ip_send t ⟨m, len, 0⟩

section Quadro

variable {ip_send : IpSend} {t : Rede} {len : UInt16} {m : Memory}

theorem dentro_eth_recv :
    Dentro (eth_recv ip_send t len 0) m len.toNat ↔ Cabido t len m := by
  have hlen : ETH_HDR_LEN = 14 := rfl
  have h14 : ((0 : UInt16) + 14).toNat = 14 := rfl
  have h34 : ((0 : UInt16) + 14 + 20).toNat = 34 := rfl
  unfold eth_recv Cabido
  by_cases hs : len.toNat < ETH_HDR_LEN
  · rw [if_pos hs]
    exact iff_of_true (dentro_pure _) fun hle => absurd hs (by omega)
  · rw [if_neg hs]
    simp only [dentro_bind, dentro_ite, dentro_half16, dentro_pure, implies_true, and_true]
    have he : ntohs ((Reader.half16 ((0 : UInt16).toNat + 12)).val m) = campo16 m 12 := rfl
    have hne : ETH_PROTO_IP ≠ ETH_PROTO_ARP := by decide
    rw [he, dentro_arp_recv, h14]
    have hip : 34 ≤ len.toNat → ((m 23 = IP_PROTO_UDP → Dentro (udp_recv t len 34) m len.toNat) ∧
        (m 23 = IP_PROTO_TCP → Dentro (tcp_recv_dispatch ip_send t len 34) m len.toNat) ↔
      (m 23 = IP_PROTO_UDP → 42 ≤ len.toNat →
        8 ≤ (campo16 m 38).toNat ∧ 34 + (campo16 m 38).toNat ≤ len.toNat) ∧
      (m 23 = IP_PROTO_TCP → 54 ≤ len.toNat → 34 + (hdr_len (m 46)).toNat ≤ len.toNat)) := by
      intro hle
      have hle' : (34 : UInt16).toNat ≤ len.toNat := hle
      rw [dentro_udp_recv hle', dentro_tcp_recv_dispatch hle']
      rfl
    rw [dentro_ip_recv (by rw [h14]; omega), h14]
    constructor
    · rintro ⟨_, harp, hrest⟩ _
      refine ⟨harp, fun h1 h2 h3 => ?_⟩
      exact (hip h2).mp (hrest (by rw [h1]; exact hne) h1 h2 h3)
    · intro h
      obtain ⟨harp, hrest⟩ := h (by omega)
      refine ⟨?_, harp, fun _ h1 h2 h3 => ?_⟩
      · change 0 + 12 + 2 ≤ len.toNat
        omega
      · exact (hip h2).mpr (hrest h1 h2 h3)

/-- The receive path stays inside the frame exactly where the lengths in its headers do. -/
theorem frames_are_read_inside_iff : SoDoQuadro ip_send t len m ↔ Cabido t len m :=
  ⟨fun h => dentro_eth_recv.mp h.dentro, fun h =>
    have hd := dentro_eth_recv.mpr h
    ⟨hd, fun _ hm => Reader.val_congr hd hm⟩⟩

end Quadro

/-! ## A length that is not checked -/

/-- A buffer that holds the bytes `l`. -/
def memoria (l : List UInt8) : Memory := fun a => l.getD a 0

/-- The Ethernet header of a frame that carries IP. -/
def cabecalho_eth : List UInt8 := List.replicate 12 0 ++ [0x08, 0x00]

/-- The host 10.0.0.1, with nothing received yet. -/
def host : Rede := { Rede.inicio (List.replicate 6 2) [] (fun _ => true) with net_our_ip := 0x0A000001 }

/-- A frame of 60 bytes from 10.0.0.2, whose UDP header says 1500. -/
def quadro_udp : List UInt8 :=
  cabecalho_eth ++ [0x45, 0, 0, 28, 0, 0, 0, 0, 64, 17, 0x66, 0xCF, 10, 0, 0, 2, 10, 0, 0, 1] ++
    [0, 67, 0, 68, 0x05, 0xDC, 0, 0] ++ List.replicate 18 0

/-- UDP passes on more bytes than the frame has. -/
theorem a_long_udp_length_leaves_the_frame : ¬ ∀ n t (len : UInt16) m, len.toNat ≤ NETBUF_SIZE →
    SoDoQuadro (ip_send (eth_poll n)) t len m := by
  intro h
  have hc := dentro_eth_recv.mp (h 0 host 60 (memoria quadro_udp) (by decide)).dentro
  have hac : Aceito host (memoria quadro_udp) 14 :=
    by decide
  have hlen := (((hc (by decide)).2 (by decide) (by decide) hac).1 (by decide) (by decide)).2
  exact absurd hlen (by decide)

end SpaceOS.Net
