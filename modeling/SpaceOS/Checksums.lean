-- The checksums of the stack (kernel/net/ipv4.c, tcp.c): the sum of the IP header against the one
-- that the receiver makes, and the sum of a TCP segment against the one of its pseudo-header.
import SpaceOS.Lib.OnesComplement
import SpaceOS.IpSendLaws

open Lib.Bytes Lib.Footprint Lib.OnesComplement

namespace SpaceOS.Net

/-! ## The loops -/

theorem toNat_soma {sum : UInt32} {data : List UInt8}
    (h : sum.toNat + 65535 * data.length < 2 ^ 32) :
    (soma sum data).toNat = sum.toNat + littleSum data := by
  fun_induction soma sum data with
  | case1 => rfl
  | case2 sum a =>
    have := a.toNat_lt
    rw [List.length_singleton] at h
    rw [littleSum_singleton, UInt32.toNat_add, UInt8.toNat_toUInt32]
    omega
  | case3 sum a b p ih =>
    have ha := a.toNat_lt
    have hb := b.toNat_lt
    simp only [List.length_cons] at h
    have hw : (sum + UInt32.ofNat (a.toNat + 256 * b.toNat)).toNat =
        sum.toNat + (a.toNat + 256 * b.toNat) := by
      rw [UInt32.toNat_add, UInt32.toNat_ofNat']
      omega
    rw [ih (by omega), hw, littleSum_cons]
    omega

theorem dobra_laco_reduced (n : Nat) (sum : UInt32) (h : (dobra_laco n sum) >>> 16 = 0) :
    Reduced sum.toNat (dobra_laco n sum).toNat := by
  induction n generalizing sum with
  | zero => exact Reduced.refl ((shift_eq_zero_iff _).mp h)
  | succ n ih =>
    unfold dobra_laco at h ⊢
    split at h
    · rename_i hs
      rw [if_pos hs]
      exact Reduced.refl ((shift_eq_zero_iff _).mp h)
    · rename_i hs
      rw [if_neg hs]
      have hr := ih _ h
      rw [toNat_dobra] at hr
      exact hr.carry

/-- The folded sum. -/
theorem dobra_reduced (sum : UInt32) : Reduced sum.toNat (dobra sum).toNat :=
  dobra_laco_reduced 2 sum (dobra_fim sum)

theorem toNat_complemento (sum : UInt32) :
    (~~~ (dobra sum).toUInt16).toNat = 65535 - (dobra sum).toNat := by
  have h := (dobra_reduced sum).lt
  have h16 : (dobra sum).toUInt16.toNat = (dobra sum).toNat := by
    rw [UInt32.toNat_toUInt16]
    exact Nat.mod_eq_of_lt h
  have hn : ∀ x : UInt16, (~~~ x).toNat = 65535 - x.toNat := fun x => by
    rw [UInt16.toNat_not]
    rfl
  rw [hn, h16]

/-- What `ip_checksum` says of a buffer: 0 where the sum is a multiple of 65535. -/
theorem ip_checksum_eq_zero_iff {data : List UInt8} (h : data.length ≤ 1500) :
    ip_checksum data = 0 ↔ littleSum data ≠ 0 ∧ 65535 ∣ littleSum data := by
  have hs : (soma 0 data).toNat = littleSum data := by
    rw [toNat_soma (by simp; omega)]
    simp
  have hr := dobra_reduced (soma 0 data)
  rw [hs] at hr
  have hlt := hr.lt
  rw [← hr.eq_top_iff, ← UInt16.toNat_inj]
  unfold ip_checksum
  rw [toNat_complemento]
  change 65535 - _ = 0 ↔ _
  omega

theorem littleSum_bytes16 (v : UInt16) : littleSum (bytes16 v) = v.toNat := by
  have hv := v.toNat_lt
  have h8 : (v >>> 8).toNat = v.toNat / 256 := by
    rw [UInt16.toNat_shiftRight]
    exact Nat.shiftRight_eq_div_pow _ _
  unfold bytes16
  rw [littleSum_cons, littleSum_nil, UInt16.toNat_toUInt8, UInt16.toNat_toUInt8, h8]
  omega

/-- A string of words with the complement of its sum put in the place of zeros. -/
theorem soma_com_checksum {pre post : List UInt8} {c : UInt16} (hp : pre.length % 2 = 0) :
    littleSum (pre ++ bytes16 c ++ post) = littleSum (pre ++ bytes16 0 ++ post) + c.toNat := by
  have h : ∀ d : UInt16, littleSum (pre ++ bytes16 d ++ post) =
      littleSum pre + d.toNat + littleSum post := fun d => by
    rw [littleSum_append post (by simp; omega), littleSum_append _ hp, littleSum_bytes16]
  rw [h, h]
  have : (0 : UInt16).toNat = 0 := rfl
  omega

/-! ## The IP header -/

/-- Bit `k` of byte `i` flipped. -/
def vira (bs : List UInt8) (i k : Nat) : List UInt8 :=
  bs.set i (bs.getD i 0 ^^^ ((1 : UInt8) <<< UInt8.ofNat k))

/-- The header in `ip_packet` when `ip_send` has built it. -/
def cabecalho_ip (t : Rede) (dst_ip : UInt32) (proto : UInt8) (payload : List UInt8) :
    List UInt8 :=
  trecho (ip_monta t dst_ip proto payload).ip_packet IP_HDR_LEN

section Cabecalho

variable {t : Rede} {dst_ip : UInt32} {proto : UInt8} {payload : List UInt8}

theorem length_ip_header (n : Nat) (c : UInt16) :
    (ip_header t dst_ip proto n c).length = IP_HDR_LEN := rfl

theorem cabecalho_ip_eq : cabecalho_ip t dst_ip proto payload =
    ip_header t dst_ip proto payload.length
      (ip_checksum (ip_header t dst_ip proto payload.length 0)) := by
  have hlen : IP_HDR_LEN ≤ (pacote t dst_ip proto payload).length := by
    rw [length_pacote]
    exact Nat.le_add_right _ _
  have hm : (ip_monta t dst_ip proto payload).ip_packet =
    copia t.ip_packet 0 (pacote t dst_ip proto payload) := rfl
  unfold cabecalho_ip
  rw [hm, trecho_copia_take _ hlen]
  exact List.take_left' (length_ip_header _ _)

/-- The header around its checksum. -/
theorem ip_header_pedacos (t : Rede) (dst_ip : UInt32) (proto : UInt8) (n : Nat) :
    ∃ pre post : List UInt8, pre.length = 10 ∧ post.length = 8 ∧ pre.head? = some 0x45 ∧
      ∀ c, ip_header t dst_ip proto n c = pre ++ bytes16 c ++ post :=
  ⟨[0x45, 0] ++ bytes16 (htons (UInt16.ofNat (IP_HDR_LEN + n))) ++
    bytes16 (htons t.ip_id_counter) ++ bytes16 0 ++ [64, proto],
    bytes32 (htonl t.net_our_ip) ++ bytes32 (htonl dst_ip), rfl, rfl, rfl,
    fun c => by simp only [ip_header, List.append_assoc]⟩

/-- The sum of the header that `ip_send` builds. -/
theorem littleSum_cabecalho (t : Rede) (dst_ip : UInt32) (proto : UInt8) (payload : List UInt8) :
    littleSum (cabecalho_ip t dst_ip proto payload) ≠ 0 ∧
    65535 ∣ littleSum (cabecalho_ip t dst_ip proto payload) := by
  obtain ⟨pre, post, hpre, _, hhead, heq⟩ :=
    ip_header_pedacos t dst_ip proto payload.length
  have h0 : littleSum (pre ++ bytes16 0 ++ post) ≠ 0 := by
    rw [List.append_assoc, littleSum_append _ (by rw [hpre])]
    match pre, hhead, hpre with
    | a :: b :: l, hhead, _ =>
      obtain rfl : a = 0x45 := by simpa using hhead
      rw [littleSum_cons]
      change 69 + _ + _ + _ ≠ 0
      omega
  have hlen : (pre ++ bytes16 0 ++ post).length ≤ 1500 := by
    rw [← heq, length_ip_header]
    decide
  have hs : (soma 0 (pre ++ bytes16 0 ++ post)).toNat = littleSum (pre ++ bytes16 0 ++ post) := by
    rw [toNat_soma (by simp at hlen ⊢; omega)]
    simp
  have hr := dobra_reduced (soma 0 (pre ++ bytes16 0 ++ post))
  rw [hs] at hr
  have hlt := hr.lt
  have hz := hr.zero
  have hm : _ % 65535 = _ % 65535 := hr.modEq
  rw [cabecalho_ip_eq, heq 0, heq, soma_com_checksum (by rw [hpre])]
  unfold ip_checksum
  rw [toNat_complemento]
  constructor
  · omega
  · omega

theorem length_cabecalho_ip : (cabecalho_ip t dst_ip proto payload).length = IP_HDR_LEN := by
  rw [cabecalho_ip_eq, length_ip_header]

/-- One bit of a byte flipped is a power of two more or less. -/
theorem toNat_vira {k : Nat} (hk : k < 8) (x : UInt8) :
    (x ^^^ ((1 : UInt8) <<< UInt8.ofNat k)).toNat = x.toNat + 2 ^ k ∨
      (x ^^^ ((1 : UInt8) <<< UInt8.ofNat k)).toNat + 2 ^ k = x.toNat := by
  have h : ∀ k < 8, ∀ n < 256,
      (UInt8.ofNat n ^^^ ((1 : UInt8) <<< UInt8.ofNat k)).toNat = n + 2 ^ k ∨
        (UInt8.ofNat n ^^^ ((1 : UInt8) <<< UInt8.ofNat k)).toNat + 2 ^ k = n := by
    decide +kernel
  have hx := h k hk x.toNat x.toNat_lt
  rwa [UInt8.ofNat_toNat] at hx

/-- A sum that is a multiple of 65535 is none any more once a bit is flipped. -/
theorem not_dvd_vira {bs : List UInt8} {i k : Nat} (hi : i < bs.length) (hk : k < 8)
    (h : 65535 ∣ littleSum bs) : ¬ 65535 ∣ littleSum (vira bs i k) := by
  have hx : bs[i]? = some (bs.getD i 0) := by
    rw [List.getElem?_eq_getElem hi, List.getD_eq_getElem?_getD, List.getElem?_eq_getElem hi]
    rfl
  have hs := littleSum_set (bs.getD i 0 ^^^ ((1 : UInt8) <<< UInt8.ofNat k)) hx
  change littleSum (vira bs i k) + _ = _ at hs
  generalize bs.getD i 0 = x at hs
  -- the place of the bit in its word, and its weight there
  have hw : ∃ e, e < 16 ∧ 256 ^ (i % 2) * 2 ^ k = 2 ^ e := by
    rcases Nat.mod_two_eq_zero_or_one i with h2 | h2
    · exact ⟨k, by omega, by rw [h2, Nat.pow_zero, Nat.one_mul]⟩
    · exact ⟨8 + k, by omega, by rw [h2, Nat.pow_one, Nat.pow_add]⟩
  obtain ⟨e, he, hw⟩ := hw
  have hpos : 0 < 2 ^ e := Nat.two_pow_pos e
  have hlt : 2 ^ e ≤ 2 ^ 15 := Nat.pow_le_pow_right (by decide) (by omega)
  rcases toNat_vira hk x with hy | hy
  · rw [hy, Nat.mul_add, hw] at hs
    omega
  · rw [← hy, Nat.mul_add, hw] at hs
    omega

end Cabecalho

/-- `ip_recv` lets a header with another checksum pass by. -/
theorem ip_recv_recusa {ip_send : IpSend} {r : Rede} {len offset : UInt16} {m : Memory}
    {hdr : List UInt8} (hl : hdr.length = IP_HDR_LEN) (hm : ∀ j < IP_HDR_LEN,
      m (offset.toNat + j) = hdr.getD j 0) (hc : ip_checksum hdr ≠ 0) :
    (ip_recv ip_send r len offset).val m = r := by
  have hb : (List.range IP_HDR_LEN).map (fun i => m (offset.toNat + i)) = hdr := by
    refine List.ext_getElem (by simp [hl]) fun j h1 h2 => ?_
    have hj : j < IP_HDR_LEN := by
      rw [← hl]
      exact h2
    rw [List.getElem_map, List.getElem_range, hm j hj, List.getD_eq_getElem?_getD,
      List.getElem?_eq_getElem h2, Option.getD_some]
  have hr : ¬ aceita_ip r.net_our_ip hdr (ntohl ((Reader.word32 (offset.toNat + 16)).val m)) :=
    fun ha => hc ha.2.2.1
  unfold ip_recv
  rw [Reader.val_ite]
  split
  · rw [Reader.val_pure]
  · rw [Reader.val_bind, Reader.val_bytes, hb, Reader.val_bind, Reader.val_bind, if_pos hr,
      Reader.val_pure]

/-- The header that `ip_send` builds has the checksum 0 and is accepted by its receiver; with any
one bit flipped it has another one, and `ip_recv` drops it. -/
theorem a_header_is_accepted_and_no_flipped_one_is (t : Rede) (dst_ip : UInt32) (proto : UInt8)
    (payload : List UInt8) :
    ip_checksum (cabecalho_ip t dst_ip proto payload) = 0 ∧
    (∀ our_ip, our_ip = 0 ∨ dst_ip = our_ip ∨ dst_ip = 0xFFFFFFFF →
      aceita_ip our_ip (cabecalho_ip t dst_ip proto payload) dst_ip) ∧
    ∀ i < IP_HDR_LEN, ∀ k < 8,
      ip_checksum (vira (cabecalho_ip t dst_ip proto payload) i k) ≠ 0 ∧
      ∀ (ip_send : IpSend) (r : Rede) (len offset : UInt16) (m : Memory),
        (∀ j < IP_HDR_LEN, m (offset.toNat + j) =
          (vira (cabecalho_ip t dst_ip proto payload) i k).getD j 0) →
        (ip_recv ip_send r len offset).val m = r := by
  obtain ⟨h0, hd⟩ := littleSum_cabecalho t dst_ip proto payload
  have hlen : (cabecalho_ip t dst_ip proto payload).length = 20 := length_cabecalho_ip
  have hzero : ip_checksum (cabecalho_ip t dst_ip proto payload) = 0 :=
    (ip_checksum_eq_zero_iff (by omega)).mpr ⟨h0, hd⟩
  refine ⟨hzero, fun our_ip ho => ?_, fun i hi k hk => ?_⟩
  · have hhead : (cabecalho_ip t dst_ip proto payload).headD 0 = 0x45 := by
      rw [cabecalho_ip_eq]
      rfl
    unfold aceita_ip
    rw [hhead]
    refine ⟨by decide, by decide, hzero, fun hn => ?_⟩
    rcases ho with ho | ho | ho
    · exact hn.1 ho
    · exact hn.2.1 ho
    · exact hn.2.2 ho
  · have hlv : (vira (cabecalho_ip t dst_ip proto payload) i k).length = 20 := by
      unfold vira
      rw [List.length_set, hlen]
    have hne : ip_checksum (vira (cabecalho_ip t dst_ip proto payload) i k) ≠ 0 := fun hz =>
      not_dvd_vira (by rw [hlen]; exact hi) hk hd
        ((ip_checksum_eq_zero_iff (by omega)).mp hz).2
    exact ⟨hne, fun ip_send r len offset m hm => ip_recv_recusa hlv hm hne⟩

/-- The law at a header to everybody, with a bit of its time to live flipped. -/
theorem a_header_to_everybody_is_accepted : ∃ t : Rede,
    aceita_ip 0 (cabecalho_ip t 0xFFFFFFFF IP_PROTO_UDP [1]) 0xFFFFFFFF ∧
    (ip_recv (fun t _ _ _ => (true, t)) t 20 0).val
      (fun j => (vira (cabecalho_ip t 0xFFFFFFFF IP_PROTO_UDP [1]) 8 0).getD j 0) = t := by
  let t := Rede.inicio [] [] fun _ => true
  obtain ⟨_, hok, hflip⟩ := a_header_is_accepted_and_no_flipped_one_is t 0xFFFFFFFF IP_PROTO_UDP [1]
  exact ⟨t, hok 0 (Or.inl rfl), (hflip 8 (by decide) 0 (by decide)).2 _ t 20 0 _ fun j _ => by
    simp⟩

/-! ## The checksum of a segment -/

/-- The segment that `tcp_send_segment` hands to `ip_send`. -/
def segmento_tcp (t : Rede) (sock : Indice) (flags : UInt8) (data : List UInt8) : List UInt8 :=
  let s := t.sockets sock
  let out := copia (copia t.tcp_out 0 (tcp_header s flags 0)) TCP_HDR_LEN data
  let seg_len := UInt16.ofNat (TCP_HDR_LEN + data.length)
  let checksum := tcp_checksum t.net_our_ip s.remote_ip (trecho out seg_len.toNat) seg_len
  trecho (copia out 16 (bytes16 checksum)) seg_len.toNat

/-- The twelve bytes that the checksum of a segment takes in before it. -/
def pseudo_header (src_ip dst_ip : UInt32) (len : Nat) : List UInt8 :=
  let endereco (ip : UInt32) : List UInt8 :=
    [UInt8.ofNat (ip.toNat / 2 ^ 24), UInt8.ofNat (ip.toNat / 2 ^ 16),
      UInt8.ofNat (ip.toNat / 2 ^ 8), UInt8.ofNat ip.toNat]
  endereco src_ip ++ endereco dst_ip ++ [0, 6, UInt8.ofNat (len / 256), UInt8.ofNat len]

/-- The sum of the pseudo-header and the segment, in 16-bit words with their high byte first, has
all bits set. -/
def ChecksumPadrao (src_ip dst_ip : UInt32) (seg : List UInt8) : Prop :=
  ocSum (bigWords (pseudo_header src_ip dst_ip seg.length ++ seg)) = 0xFFFF

/-- The numbers that `tcp_checksum` starts from, added up. -/
def soma_pseudo (src_ip dst_ip : UInt32) (len : Nat) : Nat :=
  src_ip.toNat / 65536 + src_ip.toNat % 65536 + dst_ip.toNat / 65536 + dst_ip.toNat % 65536 + 6 +
    len

section Segmento

variable {t : Rede} {sock : Indice} {flags : UInt8} {data : List UInt8} {src_ip dst_ip : UInt32}

theorem length_pseudo_header (n : Nat) : (pseudo_header src_ip dst_ip n).length = 12 := rfl

theorem bigSum_pseudo_header {n : Nat} (h : n < 65536) :
    bigSum (pseudo_header src_ip dst_ip n) = soma_pseudo src_ip dst_ip n := by
  have hs := src_ip.toNat_lt
  have hd := dst_ip.toNat_lt
  have h0 : (0 : UInt8).toNat = 0 := rfl
  have h6 : (6 : UInt8).toNat = 6 := rfl
  simp only [pseudo_header, List.cons_append, List.nil_append, bigSum_cons, bigSum_nil,
    UInt8.toNat_ofNat', h0, h6]
  unfold soma_pseudo
  omega

theorem copia_copia (m : Memory) (a b : List UInt8) :
    copia (copia m 0 a) a.length b = copia m 0 (a ++ b) := by
  funext i
  unfold copia
  by_cases h : a.length ≤ i
  · rw [if_pos h, if_pos (Nat.zero_le i), if_pos (Nat.zero_le i)]
    simp only [Nat.sub_zero, List.getD_eq_getElem?_getD]
    rw [List.getElem?_eq_none h, List.getElem?_append_right h]
    rfl
  · rw [if_neg h, if_pos (Nat.zero_le i), if_pos (Nat.zero_le i)]
    simp only [Nat.sub_zero, List.getD_eq_getElem?_getD]
    rw [List.getElem?_append_left (by omega)]

/-- A copy over the middle of a string. -/
theorem copia_meio (m : Memory) (a b b' c : List UInt8) (h : b'.length = b.length) :
    copia (copia m 0 (a ++ b ++ c)) a.length b' = copia m 0 (a ++ b' ++ c) := by
  have hlt : ∀ i, i < a.length → (a ++ b ++ c)[i]? = (a ++ b' ++ c)[i]? := fun i hi => by
    rw [List.append_assoc, List.append_assoc, List.getElem?_append_left hi,
      List.getElem?_append_left hi]
  funext i
  unfold copia
  simp only [Nat.zero_le, if_true, Nat.sub_zero, List.getD_eq_getElem?_getD]
  by_cases hi : i < a.length
  · rw [if_neg (by omega), hlt i hi]
  · rw [if_pos (by omega), List.append_assoc, List.append_assoc,
      List.getElem?_append_right (by omega : a.length ≤ i),
      List.getElem?_append_right (by omega : a.length ≤ i)]
    by_cases hb : i - a.length < b.length
    · rw [List.getElem?_append_left (by omega : i - a.length < b'.length),
        List.getElem?_eq_getElem (by omega : i - a.length < b'.length)]
      rfl
    · rw [List.getElem?_eq_none (by omega : b'.length ≤ i - a.length),
        List.getElem?_append_right (by omega), List.getElem?_append_right (by omega), h]
      rfl

theorem tcp_header_pedacos (s : Socket) (flags : UInt8) : ∃ pre : List UInt8, pre.length = 16 ∧
    ∀ c, tcp_header s flags c = pre ++ bytes16 c ++ bytes16 0 := by
  refine ⟨bytes16 (htons s.local_port) ++ bytes16 (htons s.remote_port) ++
    bytes32 (htonl s.seq_num) ++ bytes32 (if flags &&& TCP_ACK ≠ 0 then htonl s.ack_num else 0) ++
    [(5 : UInt8) <<< 4, flags] ++ bytes16 (htons 2048), ?_, fun c => ?_⟩
  · simp
  · simp only [tcp_header, List.append_assoc]

theorem toNat_seg_len (h : data.length ≤ 1460) :
    (UInt16.ofNat (TCP_HDR_LEN + data.length)).toNat = TCP_HDR_LEN + data.length := by
  rw [UInt16.toNat_ofNat']
  unfold TCP_HDR_LEN
  omega

/-- The segment that is sent is the header, with its checksum, and the data. -/
theorem segmento_tcp_eq (h : data.length ≤ 1460) : segmento_tcp t sock flags data =
    tcp_header (t.sockets sock) flags (tcp_checksum t.net_our_ip (t.sockets sock).remote_ip
      (tcp_header (t.sockets sock) flags 0 ++ data) (UInt16.ofNat (TCP_HDR_LEN + data.length))) ++
      data := by
  obtain ⟨pre, hpre, heq⟩ := tcp_header_pedacos (t.sockets sock) flags
  have hlen : ∀ c, (tcp_header (t.sockets sock) flags c).length = TCP_HDR_LEN := fun c => by
    rw [heq]
    simp [hpre, TCP_HDR_LEN]
  have hout : copia (copia t.tcp_out 0 (tcp_header (t.sockets sock) flags 0)) TCP_HDR_LEN data =
      copia t.tcp_out 0 (tcp_header (t.sockets sock) flags 0 ++ data) := by
    rw [← hlen 0, copia_copia]
  have htake : ∀ c, trecho (copia t.tcp_out 0 (tcp_header (t.sockets sock) flags c ++ data))
      (TCP_HDR_LEN + data.length) = tcp_header (t.sockets sock) flags c ++ data := fun c => by
    rw [← hlen c, ← List.length_append, trecho_copia]
  have hmeio : ∀ c : UInt16,
      copia (copia t.tcp_out 0 (tcp_header (t.sockets sock) flags 0 ++ data)) 16 (bytes16 c) =
        copia t.tcp_out 0 (tcp_header (t.sockets sock) flags c ++ data) := fun c => by
    rw [heq, heq, List.append_assoc (pre ++ bytes16 0), List.append_assoc (pre ++ bytes16 c)]
    have h := copia_meio t.tcp_out pre (bytes16 0) (bytes16 c) (bytes16 0 ++ data) rfl
    rwa [hpre] at h
  unfold segmento_tcp
  dsimp only
  rw [hout, toNat_seg_len h, htake, hmeio, htake]

/-- The sum that the checksum of a segment is the complement of, before it is folded. -/
theorem toNat_soma_pseudo (src_ip dst_ip : UInt32) (n : UInt16) {seg : List UInt8}
    (hl : seg.length ≤ 1500) :
    (soma ((src_ip >>> 16) + (src_ip &&& (0xFFFF : UInt32)) + (dst_ip >>> 16) +
      (dst_ip &&& (0xFFFF : UInt32)) + IP_PROTO_TCP.toUInt32 + n.toUInt32) seg).toNat =
      soma_pseudo src_ip dst_ip n.toNat + littleSum seg := by
  have hs := src_ip.toNat_lt
  have hd := dst_ip.toNat_lt
  have hn := n.toNat_lt
  have halto : ∀ ip : UInt32, (ip >>> 16).toNat = ip.toNat / 65536 := fun ip => by
    rw [UInt32.toNat_shiftRight]
    exact Nat.shiftRight_eq_div_pow _ _
  have hbaixo : ∀ ip : UInt32, (ip &&& (0xFFFF : UInt32)).toNat = ip.toNat % 65536 := fun ip => by
    rw [UInt32.toNat_and]
    exact Nat.and_two_pow_sub_one_eq_mod _ 16
  have h6 : IP_PROTO_TCP.toUInt32.toNat = 6 := rfl
  have hp : ((src_ip >>> 16) + (src_ip &&& (0xFFFF : UInt32)) + (dst_ip >>> 16) +
      (dst_ip &&& (0xFFFF : UInt32)) + IP_PROTO_TCP.toUInt32 + n.toUInt32).toNat =
      soma_pseudo src_ip dst_ip n.toNat := by
    unfold soma_pseudo
    simp only [UInt32.toNat_add, halto, hbaixo, h6, UInt16.toNat_toUInt32]
    omega
  have hlt : soma_pseudo src_ip dst_ip n.toNat ≤ 4 * 65535 + 6 + 65535 := by
    unfold soma_pseudo
    omega
  rw [toNat_soma (by rw [hp]; omega), hp]

/-- The standard sum of the segment is all ones just where turning the bytes of the words of the
pseudo-header round does not change its sum. -/
theorem checksumPadrao_segmento_tcp (h : data.length ≤ 1460) :
    ChecksumPadrao t.net_our_ip (t.sockets sock).remote_ip (segmento_tcp t sock flags data) ↔
      257 ∣ soma_pseudo t.net_our_ip (t.sockets sock).remote_ip (TCP_HDR_LEN + data.length) := by
  obtain ⟨pre, hpre, heq⟩ := tcp_header_pedacos (t.sockets sock) flags
  have hmeio : ∀ c, tcp_header (t.sockets sock) flags c ++ data =
      pre ++ bytes16 c ++ (bytes16 0 ++ data) := fun c => by
    rw [heq, List.append_assoc]
  have hlen : ∀ c, (tcp_header (t.sockets sock) flags c ++ data).length =
      TCP_HDR_LEN + data.length := fun c => by
    rw [hmeio]
    simp [hpre, TCP_HDR_LEN]
    omega
  rw [segmento_tcp_eq h]
  generalize hc : tcp_checksum _ _ _ _ = c
  unfold ChecksumPadrao
  rw [hlen]
  have hn : TCP_HDR_LEN + data.length < 65536 := by
    unfold TCP_HDR_LEN
    omega
  -- what the receiver sums, and what the sender summed
  have hbig : Reduced _ (ocSum (bigWords (pseudo_header t.net_our_ip (t.sockets sock).remote_ip
      (TCP_HDR_LEN + data.length) ++ (tcp_header (t.sockets sock) flags c ++ data)))) :=
    ocSum_reduced bigWords_lt
  change Reduced (bigSum _) _ at hbig
  rw [hbig.eq_top_iff, bigSum_append _ (by rw [length_pseudo_header]), bigSum_pseudo_header hn]
  have hswap : _ % 65535 = _ % 65535 := bigSum_modEq (tcp_header (t.sockets sock) flags c ++ data)
  rw [hmeio c, soma_com_checksum (by rw [hpre]), ← hmeio, ← hmeio] at hswap
  have hseg : (tcp_header (t.sockets sock) flags 0 ++ data).length ≤ 1500 := by
    rw [hlen]
    unfold TCP_HDR_LEN
    omega
  have hs := toNat_soma_pseudo t.net_our_ip (t.sockets sock).remote_ip
    (UInt16.ofNat (TCP_HDR_LEN + data.length)) hseg
  rw [toNat_seg_len h] at hs
  unfold tcp_checksum at hc
  dsimp only at hc
  have hr := dobra_reduced (soma (((t.net_our_ip >>> 16) + (t.net_our_ip &&& (0xFFFF : UInt32)) +
    ((t.sockets sock).remote_ip >>> 16) + ((t.sockets sock).remote_ip &&& (0xFFFF : UInt32)) +
    IP_PROTO_TCP.toUInt32 + (UInt16.ofNat (TCP_HDR_LEN + data.length)).toUInt32))
    (tcp_header (t.sockets sock) flags 0 ++ data))
  have hcn := congrArg UInt16.toNat hc
  rw [toNat_complemento] at hcn
  have hlt := hr.lt
  have hm : _ % 65535 = _ % 65535 := hr.modEq
  rw [hs] at hm
  have hpos : soma_pseudo t.net_our_ip (t.sockets sock).remote_ip
      (TCP_HDR_LEN + data.length) ≠ 0 := by
    unfold soma_pseudo
    omega
  omega

/-- The checksum of the segments that `tcp_send_segment` sends is the standard one just where the
halves of the two addresses, 6 and the length add up to a multiple of 257. -/
theorem the_tcp_checksum_is_standard_iff_the_pseudo_sum_is_a_multiple_of_257 (t : Rede)
    (sock : Indice) (flags : UInt8) (data : List UInt8) (h : data.length ≤ 1460) :
    (∀ ip_send : IpSend, ∃ t', tcp_send_segment ip_send t sock flags data =
      ip_send t' (t.sockets sock).remote_ip IP_PROTO_TCP (segmento_tcp t sock flags data)) ∧
    (ChecksumPadrao t.net_our_ip (t.sockets sock).remote_ip (segmento_tcp t sock flags data) ↔
      257 ∣ soma_pseudo t.net_our_ip (t.sockets sock).remote_ip (TCP_HDR_LEN + data.length)) :=
  ⟨fun _ => ⟨_, rfl⟩, checksumPadrao_segmento_tcp h⟩

/-- A machine at `our_ip` with a socket open to `remote_ip`. -/
def rede_com_par (our_ip remote_ip : UInt32) : Rede :=
  { Rede.inicio [] [] fun _ => true with net_our_ip := our_ip }.muda 0 fun s =>
    { s with remote_ip := remote_ip, local_port := 49152, remote_port := 80 }

/-- The SYN from 10.0.0.250 to 10.0.0.1 has the standard checksum. -/
theorem a_syn_from_250_to_1_has_the_standard_checksum :
    ChecksumPadrao (rede_com_par 0x0A0000FA 0x0A000001).net_our_ip
      ((rede_com_par 0x0A0000FA 0x0A000001).sockets 0).remote_ip
      (segmento_tcp (rede_com_par 0x0A0000FA 0x0A000001) 0 TCP_SYN []) :=
  (the_tcp_checksum_is_standard_iff_the_pseudo_sum_is_a_multiple_of_257
    (rede_com_par 0x0A0000FA 0x0A000001) 0 TCP_SYN [] (Nat.zero_le _)).2.mpr (by decide +kernel)

/-- The SYN from 192.168.1.2 to 192.168.1.1 has another checksum. -/
theorem a_syn_at_home_has_another_checksum : ¬ ∀ (t : Rede) (sock : Indice) (flags : UInt8)
    (data : List UInt8), data.length ≤ 1460 →
      ChecksumPadrao t.net_our_ip (t.sockets sock).remote_ip (segmento_tcp t sock flags data) := by
  intro h
  have hs := checksumPadrao_segmento_tcp (Nat.zero_le _) |>.mp
    (h (rede_com_par 0xC0A80102 0xC0A80101) 0 TCP_SYN [] (Nat.zero_le _))
  exact absurd hs (by decide +kernel)

end Segmento

end SpaceOS.Net
