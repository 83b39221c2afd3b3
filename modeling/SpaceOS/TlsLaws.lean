-- When the nonces of SpaceTLS are unique: a connection counts its records, and two connections are
-- told apart by nothing but their pre-shared keys.
import Mathlib.Algebra.Group.Nat.Defs
import SpaceOS.Tls

namespace SpaceOS.Tls

/-! ## Nonces -/

theorem length_nonce_de_envio (psk : List UInt8) : (nonce_de_envio psk).length = 12 := by
  unfold nonce_de_envio hmac_sha256 sha256 sha256_final be32
  simp

theorem take_nonce_inc {nonce : List UInt8} (h : nonce.length = 12) (seq : UInt32) :
    (nonce_inc nonce seq).take 8 = nonce.take 8 := by
  unfold nonce_inc
  rw [List.take_append_of_le_length (by simp; omega), List.take_take, Nat.min_self]

theorem seq_eq_of_bytes {a b : UInt32} (h0 : a.toUInt8 = b.toUInt8)
    (h1 : (a >>> 8).toUInt8 = (b >>> 8).toUInt8) (h2 : (a >>> 16).toUInt8 = (b >>> 16).toUInt8)
    (h3 : (a >>> 24).toUInt8 = (b >>> 24).toUInt8) : a = b := by
  have e : ∀ x : UInt32, ∀ k : Nat, k < 32 →
      (x >>> UInt32.ofNat k).toUInt8.toNat = x.toNat / 2 ^ k % 256 := by
    intro x k hk
    rw [UInt32.toNat_toUInt8, UInt32.toNat_shiftRight, UInt32.toNat_ofNat', Nat.shiftRight_eq_div_pow,
      Nat.mod_eq_of_lt (by omega : k < 2 ^ 32), Nat.mod_eq_of_lt hk]
  have e0 := congrArg UInt8.toNat h0
  have e1 := congrArg UInt8.toNat h1
  have e2 := congrArg UInt8.toNat h2
  have e3 := congrArg UInt8.toNat h3
  rw [UInt32.toNat_toUInt8, UInt32.toNat_toUInt8] at e0
  rw [show (8 : UInt32) = UInt32.ofNat 8 from rfl, e _ 8 (by omega), e _ 8 (by omega)] at e1
  rw [show (16 : UInt32) = UInt32.ofNat 16 from rfl, e _ 16 (by omega), e _ 16 (by omega)] at e2
  rw [show (24 : UInt32) = UInt32.ofNat 24 from rfl, e _ 24 (by omega), e _ 24 (by omega)] at e3
  have ha := a.toNat_lt
  have hb := b.toNat_lt
  rw [← UInt32.toNat_inj]
  omega

/-- The nonces of one connection differ as long as their sequence numbers do. -/
theorem nonce_inc_inj {nonce : List UInt8} (h : nonce.length = 12) {a b : UInt32}
    (he : nonce_inc nonce a = nonce_inc nonce b) : a = b := by
  have hd : (nonce.drop 8).length = 4 := by
    rw [List.length_drop, h]
  rcases hx : nonce.drop 8 with _ | ⟨w, _ | ⟨x, _ | ⟨y, _ | ⟨z, l⟩⟩⟩⟩
  · rw [hx] at hd
    exact absurd hd (by simp)
  · rw [hx] at hd
    exact absurd hd (by simp)
  · rw [hx] at hd
    exact absurd hd (by simp)
  · rw [hx] at hd
    exact absurd hd (by simp)
  · unfold nonce_inc at he
    rw [hx] at he
    have he' := List.append_cancel_left he
    simp only [List.zipWith_cons_cons, List.cons.injEq, UInt8.xor_right_inj] at he'
    exact seq_eq_of_bytes he'.1 he'.2.1 he'.2.2.1 he'.2.2.2.1

/-! ## What a run keeps -/

/-- How many records a connection has sent. -/
def contagem (t : Slots) (numero : Nat) : Nat := t.cifrados.countP fun c => c.conexao.numero = numero

/-- The connection in a slot has its own number, its keys and its count; every call of the cipher
has the key of its connection and a nonce from its count. -/
structure Contado (t : Slots) : Prop where
  numero_lt : ∀ i c, t.dono i = some c → c.numero < t.conexoes
  separados : ∀ i j c d, t.dono i = some c → t.dono j = some d → c.numero = d.numero → i = j
  com_dono : ∀ i, (t.socks i).ready = true → (t.dono i).isSome
  chaves : ∀ i c, t.dono i = some c → (t.socks i).send_key = chave_de_envio c.psk ∧
    (t.socks i).send_nonce = nonce_de_envio c.psk ∧
    (t.socks i).send_seq = UInt32.ofNat (contagem t c.numero)
  antigos : ∀ e ∈ t.cifrados, e.conexao.numero < t.conexoes
  mesma : ∀ e ∈ t.cifrados, ∀ i c, t.dono i = some c → e.conexao.numero = c.numero → e.conexao = c
  cifrados : ∀ e ∈ t.cifrados, e.key = chave_de_envio e.conexao.psk ∧
    ∃ k < contagem t e.conexao.numero,
      e.nonce = nonce_inc (nonce_de_envio e.conexao.psk) (UInt32.ofNat k)

theorem contado_inicio : Contado inicio where
  numero_lt := fun _ _ h => absurd h (by simp [inicio])
  separados := fun _ _ _ _ h => absurd h (by simp [inicio])
  com_dono := fun _ h => absurd h (by simp [inicio])
  chaves := fun _ _ h => absurd h (by simp [inicio])
  antigos := fun _ h => absurd h (by simp [inicio])
  mesma := fun _ h => absurd h (by simp [inicio])
  cifrados := fun _ h => absurd h (by simp [inicio])

/-- A slot whose sending half stays, and that is not ready where it was not. -/
theorem Contado.com_sock {t : Slots} (h : Contado t) {i : Nat} {s : Sock}
    (hk : s.send_key = (t.socks i).send_key) (hn : s.send_nonce = (t.socks i).send_nonce)
    (hs : s.send_seq = (t.socks i).send_seq)
    (hr : s.ready = true → (t.dono i).isSome) : Contado (com_sock t i s) := by
  refine ⟨h.numero_lt, h.separados, ?_, ?_, h.antigos, h.mesma, h.cifrados⟩
  · intro j hj
    unfold Tls.com_sock at hj ⊢
    dsimp only at hj ⊢
    by_cases hji : j = i
    · rw [if_pos hji] at hj
      rw [hji]
      exact hr hj
    · rw [if_neg hji] at hj
      exact h.com_dono j hj
  · intro j c hc
    have hc' := h.chaves j c hc
    unfold Tls.com_sock
    dsimp only
    by_cases hji : j = i
    · subst hji
      rw [if_pos rfl, hk, hn, hs]
      exact hc'
    · rw [if_neg hji]
      exact hc'

theorem dono_novo {t : Slots} {i j : Nat} {c nova : Conexao}
    (h : (if j = i then some nova else t.dono j) = some c) :
    j = i ∧ c = nova ∨ j ≠ i ∧ t.dono j = some c := by
  split at h
  · rename_i hj
    exact Or.inl ⟨hj, (Option.some.inj h).symm⟩
  · rename_i hj
    exact Or.inr ⟨hj, h⟩

/-- The next connection has sent nothing. -/
theorem Contado.contagem_nova {t : Slots} (h : Contado t) : contagem t t.conexoes = 0 := by
  unfold contagem
  rw [List.countP_eq_zero]
  intro e he
  have := h.antigos e he
  simp
  omega

/-- A new connection in a slot. -/
theorem Contado.conecta {t : Slots} (h : Contado t) (i : Nat) (tcp_sock : Int) (psk : List UInt8) :
    Contado (Tls.com_sock
      { t with
        dono := fun j => if j = i then some ⟨t.conexoes, psk⟩ else t.dono j
        conexoes := t.conexoes + 1 } i (sock_novo tcp_sock psk)) := by
  unfold Tls.com_sock
  dsimp only
  constructor
  case numero_lt =>
    intro j c hc
    rcases dono_novo hc with ⟨_, rfl⟩ | ⟨_, hc⟩
    · exact Nat.lt_succ_self _
    · exact Nat.lt_succ_of_lt (h.numero_lt j c hc)
  case separados =>
    intro j k c d hc hd hcd
    rcases dono_novo hc with ⟨rfl, rfl⟩ | ⟨_, hc⟩
    · rcases dono_novo hd with ⟨rfl, rfl⟩ | ⟨_, hd⟩
      · rfl
      · exact absurd hcd (Nat.ne_of_gt (h.numero_lt k d hd))
    · rcases dono_novo hd with ⟨_, rfl⟩ | ⟨_, hd⟩
      · exact absurd hcd (Nat.ne_of_lt (h.numero_lt j c hc))
      · exact h.separados j k c d hc hd hcd
  case com_dono =>
    intro j hj
    dsimp only at hj ⊢
    split at hj
    · exact absurd hj (by simp [sock_novo])
    · rename_i hji
      rw [if_neg hji]
      exact h.com_dono j hj
  case chaves =>
    intro j c hc
    dsimp only
    rcases dono_novo hc with ⟨rfl, rfl⟩ | ⟨hji, hc⟩
    · rw [if_pos rfl]
      refine ⟨rfl, rfl, ?_⟩
      change _ = UInt32.ofNat (contagem t t.conexoes)
      rw [h.contagem_nova]
      rfl
    · rw [if_neg hji]
      exact h.chaves j c hc
  case antigos => exact fun e he => Nat.lt_succ_of_lt (h.antigos e he)
  case mesma =>
    intro e he j c hc hec
    rcases dono_novo hc with ⟨_, rfl⟩ | ⟨_, hc⟩
    · exact absurd hec (Nat.ne_of_lt (h.antigos e he))
    · exact h.mesma e he j c hc hec
  case cifrados => exact h.cifrados

theorem contagem_append {t : Slots} {i : Nat} {s : Sock} (e : Chamada) (numero : Nat) :
    contagem { Tls.com_sock t i s with cifrados := t.cifrados ++ [e] } numero =
      contagem t numero + if e.conexao.numero = numero then 1 else 0 := by
  unfold contagem
  rw [List.countP_append, List.countP_singleton]
  by_cases h : e.conexao.numero = numero
  · simp [h]
  · simp [h]

/-- A record of the connection in a slot. -/
theorem Contado.envia {t : Slots} (h : Contado t) {i : Nat} {c : Conexao} {s : Sock} {e : Chamada}
    (hc : t.dono i = some c) (hk : s.send_key = (t.socks i).send_key)
    (hn : s.send_nonce = (t.socks i).send_nonce) (hs : s.send_seq = (t.socks i).send_seq + 1)
    (he : e.conexao = c) (hek : e.key = (t.socks i).send_key)
    (hen : e.nonce = nonce_inc (t.socks i).send_nonce (t.socks i).send_seq) :
    Contado { Tls.com_sock t i s with cifrados := t.cifrados ++ [e] } := by
  obtain ⟨h1, h2, h3⟩ := h.chaves i c hc
  refine ⟨h.numero_lt, h.separados, ?_, ?_, ?_, ?_, ?_⟩
  · intro j hj
    by_cases hji : j = i
    · rw [hji]
      change (t.dono i).isSome
      rw [hc]
      rfl
    · change (if j = i then s else t.socks j).ready = true at hj
      rw [if_neg hji] at hj
      exact h.com_dono j hj
  · intro j d hd
    rw [contagem_append, he]
    change (if j = i then s else t.socks j).send_key = _ ∧
      (if j = i then s else t.socks j).send_nonce = _ ∧ (if j = i then s else t.socks j).send_seq = _
    by_cases hji : j = i
    · rw [hji] at hd
      have hdc : d = c := Option.some.inj (hd.symm.trans hc)
      rw [if_pos hji, hdc, if_pos rfl, hk, hn, hs, h1, h2, h3]
      exact ⟨rfl, rfl, UInt32.ofNat_add _ _ |>.symm⟩
    · rw [if_neg hji, if_neg fun hcd => hji (h.separados j i d c hd hc hcd.symm), Nat.add_zero]
      exact h.chaves j d hd
  · intro f hf
    rcases List.mem_append.mp hf with hf | hf
    · exact h.antigos f hf
    · rw [List.mem_singleton.mp hf, he]
      exact h.numero_lt i c hc
  · intro f hf j d hd hfd
    rcases List.mem_append.mp hf with hf | hf
    · exact h.mesma f hf j d hd hfd
    · rw [List.mem_singleton.mp hf, he] at hfd ⊢
      have hij := h.separados i j c d hc hd hfd
      rw [← hij] at hd
      exact Option.some.inj (hc.symm.trans hd)
  · intro f hf
    rw [contagem_append]
    rcases List.mem_append.mp hf with hf | hf
    · obtain ⟨hfk, k, hk, hfn⟩ := h.cifrados f hf
      exact ⟨hfk, k, Nat.lt_add_right _ hk, hfn⟩
    · rw [List.mem_singleton.mp hf, he, if_pos rfl, hek, hen, h1, h2, h3]
      exact ⟨rfl, contagem t c.numero, Nat.lt_succ_self _, rfl⟩

/-! ## Uniqueness -/

/-- The condition on a step: a record is sent only on a connection that has sent fewer than 2^32
records, and no other connection that has sent one derives the same key and the same first eight
bytes of the nonce from its pre-shared key. -/
def EnvioNovo (t : Slots) : Evento → Prop
  | .send sock _ _ =>
    0 ≤ sock → sock < STLS_MAX_SOCKS → (t.socks sock.toNat).ready = true →
      ∀ c, t.dono sock.toNat = some c → contagem t c.numero < 2 ^ 32 ∧
        ∀ e ∈ t.cifrados, e.conexao.numero ≠ c.numero →
          (chave_de_envio e.conexao.psk, (nonce_de_envio e.conexao.psk).take 8) ≠
            (chave_de_envio c.psk, (nonce_de_envio c.psk).take 8)
  | _ => True

/-- Every step of a run meets the condition. -/
def EnviosNovos : Slots → List Evento → Prop
  | _, [] => True
  | t, e :: es => EnvioNovo t e ∧ EnviosNovos (passo t e) es

theorem nonce_novo {t : Slots} (h : Contado t) {i : Nat} {c : Conexao} (hc : t.dono i = some c)
    (hlt : contagem t c.numero < 2 ^ 32)
    (hnovo : ∀ e ∈ t.cifrados, e.conexao.numero ≠ c.numero →
      (chave_de_envio e.conexao.psk, (nonce_de_envio e.conexao.psk).take 8) ≠
        (chave_de_envio c.psk, (nonce_de_envio c.psk).take 8)) {e : Chamada}
    (he : e ∈ t.cifrados) : (e.key, e.nonce) ≠
      ((t.socks i).send_key, nonce_inc (t.socks i).send_nonce (t.socks i).send_seq) := by
  obtain ⟨h1, h2, h3⟩ := h.chaves i c hc
  obtain ⟨hk, k, hkc, hn⟩ := h.cifrados e he
  rw [h1, h2, h3, hk, hn]
  intro heq
  obtain ⟨e1, e2⟩ := Prod.mk.inj heq
  by_cases hcon : e.conexao.numero = c.numero
  · rw [h.mesma e he i c hc hcon] at e2 hkc
    have hseq := congrArg UInt32.toNat (nonce_inc_inj (length_nonce_de_envio c.psk) e2)
    rw [UInt32.toNat_ofNat', UInt32.toNat_ofNat'] at hseq
    omega
  · apply hnovo e he hcon
    rw [e1, ← take_nonce_inc (length_nonce_de_envio _) (UInt32.ofNat k), e2,
      take_nonce_inc (length_nonce_de_envio _)]

/-- One step. -/
theorem contado_passo {t : Slots} (h : Contado t) (hu : NonceUnico t) {e : Evento}
    (he : EnvioNovo t e) : Contado (passo t e) ∧ NonceUnico (passo t e) := by
  cases e with
  | connect tcp_sock psk resp =>
    unfold passo tls_connect
    dsimp only
    split
    · exact ⟨h, hu⟩
    · rename_i slot _
      have hc := h.conecta slot tcp_sock psk
      split
      · refine ⟨?_, hu⟩
        have hr := hc.com_sock (i := slot) (s := { sock_novo tcp_sock psk with ready := true })
          (by simp [Tls.com_sock]) (by simp [Tls.com_sock]) (by simp [Tls.com_sock])
          (by simp [Tls.com_sock])
        have heq : ∀ (u : Slots) (a b : Sock),
            Tls.com_sock (Tls.com_sock u slot a) slot b = Tls.com_sock u slot b := by
          intro u a b
          unfold Tls.com_sock
          congr 1
          funext j
          dsimp only
          split <;> rfl
        rw [heq] at hr
        exact hr
      · exact ⟨hc, hu⟩
  | send sock data r =>
    unfold passo tls_send
    dsimp only
    split
    · exact ⟨h, hu⟩
    · rename_i hs
      obtain ⟨hs0, hs⟩ := not_or.mp hs
      obtain ⟨hs4, hr⟩ := not_or.mp hs
      have hr' : (t.socks sock.toNat).ready = true := by simpa using hr
      obtain ⟨c, hc⟩ := Option.isSome_iff_exists.mp (h.com_dono _ hr')
      obtain ⟨hlt, hnovo⟩ := he (by omega) (by omega) hr' c hc
      refine ⟨?_, ?_⟩
      · exact h.envia hc rfl rfl rfl (by simp [hc]) rfl rfl
      · refine List.pairwise_append.mpr ⟨hu, List.pairwise_singleton _ _, fun a ha b hb _ => ?_⟩
        rw [List.mem_singleton.mp hb]
        exact nonce_novo h hc hlt hnovo ha
  | close sock =>
    unfold passo tls_close
    dsimp only
    split
    · exact ⟨h, hu⟩
    · exact ⟨h.com_sock rfl rfl rfl (fun hf => absurd hf (by simp)), hu⟩

theorem contado_rodar {t : Slots} (h : Contado t) (hu : NonceUnico t) {es : List Evento}
    (hes : EnviosNovos t es) : Contado (rodar t es) ∧ NonceUnico (rodar t es) := by
  induction es generalizing t with
  | nil => exact ⟨h, hu⟩
  | cons e es ih =>
    obtain ⟨h1, h2⟩ := contado_passo h hu hes.1
    exact ih h1 h2 hes.2

/-- An answer to the handshake. -/
def resposta : List UInt8 := [0x00, 0x53, 0x4C, 0x53, 1, 1, 0, 0]

/-- Two records on one connection. -/
def dois_registros : List Evento :=
  [.connect 3 [7] resposta, .send 0 [1] 25, .send 0 [2] 25, .close 0]

theorem contagem_le (t : Slots) (numero : Nat) : contagem t numero ≤ t.cifrados.length :=
  List.countP_le_length

/-- Two connections with one pre-shared key, one after the other, and a record on each. -/
def mesma_psk : List Evento :=
  [.connect 3 [7] resposta, .send 0 [1] 25, .close 0, .connect 3 [7] resposta, .send 0 [2] 25]

end SpaceOS.Tls
