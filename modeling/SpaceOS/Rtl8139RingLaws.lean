-- The read pointer of the receive ring against the places where the card lays the packets: they agree
-- as long as the pointer stays within the 8192 bytes of the ring.
import SpaceOS.Rtl8139Ring
import SpaceOS.Rtl8139Laws
import Mathlib.Data.List.GetD

open Lib.Bytes

namespace SpaceOS.Rtl8139.Anel

open SpaceOS.Net (bytes16 copia)

/-! ## Places -/

section Posicao

variable {ps : List Pacote} {p : Pacote} {k j : Nat}

theorem length_bytes (p : Pacote) : p.bytes.length = p.corpo.length + 4 := by
  simp [Pacote.bytes]
  omega

theorem bytes_le_tam (p : Pacote) : p.bytes.length ≤ p.tam := by
  rw [length_bytes]
  unfold Pacote.tam
  omega

theorem tam_pos (p : Pacote) : 4 ≤ p.tam := by
  unfold Pacote.tam
  omega

@[simp] theorem posicao_zero (ps : List Pacote) : posicao ps 0 = 0 := by simp [posicao]

theorem posicao_succ (h : ps[k]? = some p) : posicao ps (k + 1) = posicao ps k + p.tam := by
  simp [posicao, List.take_add_one, h]

theorem posicao_append (h : k ≤ ps.length) (qs : List Pacote) :
    posicao (ps ++ qs) k = posicao ps k := by
  rw [posicao, List.take_append_of_le_length h, posicao]

theorem posicao_concat (ps : List Pacote) (p : Pacote) :
    posicao (ps ++ [p]) (ps.length + 1) = posicao ps ps.length + p.tam := by
  rw [posicao_succ (p := p) (by simp), posicao_append (Nat.le_refl _)]

theorem four_dvd_tam (p : Pacote) : p.tam % 4 = 0 := Nat.mul_mod_left _ _

theorem four_dvd_posicao (ps : List Pacote) (k : Nat) : posicao ps k % 4 = 0 := by
  unfold posicao
  induction ps.take k with
  | nil => rfl
  | cons p ps ih =>
    have hp := four_dvd_tam p
    rw [List.map_cons, List.sum_cons]
    omega

theorem posicao_mono (h : k ≤ j) : posicao ps k ≤ posicao ps j := by
  obtain ⟨d, rfl⟩ := Nat.exists_eq_add_of_le h
  unfold posicao
  rw [List.take_add, List.map_append, List.sum_append]
  exact Nat.le_add_right _ _

/-- A packet ends before the place of any later one. -/
theorem posicao_lt (h : ps[k]? = some p) (hj : k < j) : posicao ps k + p.tam ≤ posicao ps j := by
  rw [← posicao_succ h]
  exact posicao_mono hj

/-- Two stretches of the ring that are less than one round apart do not meet, although the second may
begin in the next round. -/
theorem trechos_apartados {n a b u v i j : Nat} (hab : a + u ≤ b) (hbn : b + v ≤ a + n)
    (hi : i < u) (hj : j < v) : a % n + i ≠ b % n + j := by
  have ha := Nat.div_add_mod a n
  have hb := Nat.div_add_mod b n
  have hr := Nat.mod_lt a (show 0 < n by omega)
  have hle : a / n ≤ b / n := Nat.div_le_div_right (by omega)
  rcases Nat.lt_or_eq_of_le hle with hlt | heq
  · have hm : n * (a / n + 1) ≤ n * (b / n) := Nat.mul_le_mul_left n hlt
    rw [Nat.mul_add, Nat.mul_one] at hm
    omega
  · rw [heq] at ha
    omega

end Posicao

/-! ## The invariant -/

/-- The pointer stands at the packet that is due, the card knows it, the packets from there on lie
whole in the buffer, and every reading so far was right. -/
structure Sincrono (s : Estado) : Prop where
  k_le : s.k ≤ s.colocados.length
  ptr : s.rx_read_ptr.toNat % RX_RING = posicao s.colocados s.k % RX_RING
  lido : s.lido = posicao s.colocados s.k % RX_RING
  cabe : posicao s.colocados s.colocados.length < posicao s.colocados s.k + RX_RING
  anel : ∀ j p, s.k ≤ j → s.colocados[j]? = some p →
    ∀ i (h : i < p.bytes.length), s.rx_buf (posicao s.colocados j % RX_RING + i) = p.bytes[i]
  certas : ∀ l ∈ s.leituras, l.Certa s.colocados

theorem sincrono_inicio : Sincrono .inicio :=
  ⟨Nat.le_refl 0, rfl, rfl, by decide, fun j p _ h => by simp [Estado.inicio] at h,
    fun l h => absurd h List.not_mem_nil⟩

section Chegada

variable {s : Estado} {p : Pacote} {ps : List Pacote}

theorem Leitura.Certa.append {l : Leitura} (h : l.Certa ps) (qs : List Pacote) :
    l.Certa (ps ++ qs) := by
  obtain ⟨p, hp, hh, hb⟩ := h
  have hk : l.k < ps.length := (List.getElem?_eq_some_iff.mp hp).1
  refine ⟨p, ?_, ?_, hb⟩
  · rw [List.getElem?_append_left hk, hp]
  · rw [posicao_append (Nat.le_of_lt hk), hh]

theorem Sincrono.espera (h : Sincrono s) :
    s.espera = posicao s.colocados s.colocados.length - posicao s.colocados s.k := by
  have hc := h.cabe
  have hm : posicao s.colocados _ ≤ posicao s.colocados _ := posicao_mono h.k_le
  unfold Estado.espera Estado.cbr
  rw [h.lido]
  unfold RX_RING at *
  omega

theorem coloca_igual (s : Estado) (p : Pacote) :
    (s.coloca p).k = s.k ∧ (s.coloca p).leituras = s.leituras ∧ (s.coloca p).turno = s.turno ∧
      (s.coloca p).rx_read_ptr = s.rx_read_ptr ∧ (s.coloca p).capr = s.capr := by
  unfold Estado.coloca
  split <;> exact ⟨rfl, rfl, rfl, rfl, rfl⟩

/-- A packet that comes waits behind the others, which it leaves as they are. -/
theorem Sincrono.coloca (h : Sincrono s) (p : Pacote) : Sincrono (s.coloca p) := by
  unfold Estado.coloca
  split
  · rename_i hroom
    rw [h.espera] at hroom
    have hm : posicao s.colocados _ ≤ posicao s.colocados _ := posicao_mono h.k_le
    have hk := posicao_append h.k_le [p]
    have hlen : (s.colocados ++ [p]).length = s.colocados.length + 1 := by simp
    refine ⟨?_, ?_, ?_, ?_, ?_, fun l hl => (h.certas l hl).append [p]⟩
    · rw [hlen]
      exact Nat.le_succ_of_le h.k_le
    · dsimp only
      rw [hk, h.ptr]
    · exact h.lido.trans (by rw [hk])
    · dsimp only
      rw [hlen, posicao_concat, hk]
      omega
    · intro j q hj hq i hi
      dsimp only at hj hq ⊢
      rcases Nat.lt_trichotomy j s.colocados.length with hlt | rfl | hgt
      · rw [List.getElem?_append_left hlt] at hq
        rw [posicao_append (Nat.le_of_lt hlt)]
        have hq' := posicao_lt hq hlt
        have hkj : posicao s.colocados _ ≤ posicao s.colocados _ := posicao_mono hj
        have hi' := Nat.lt_of_lt_of_le hi (bytes_le_tam q)
        unfold Net.copia
        split
        · rename_i hge
          have hne : ∀ d < p.bytes.length, posicao s.colocados j % RX_RING + i ≠ s.cbr + d := by
            intro d hd
            have hd' := Nat.lt_of_lt_of_le hd (bytes_le_tam p)
            exact trechos_apartados hq' (by omega) hi' hd'
          have hd : p.bytes.length ≤ posicao s.colocados j % RX_RING + i - s.cbr := by
            by_contra hd
            exact hne _ (Nat.lt_of_not_le hd) (by omega)
          rw [List.getD_eq_default _ _ hd]
          exact h.anel j q hj hq i hi
        · exact h.anel j q hj hq i hi
      · rw [List.getElem?_concat_length] at hq
        cases hq
        rw [posicao_append (Nat.le_refl _)]
        unfold Net.copia Estado.cbr
        rw [if_pos (Nat.le_add_right _ _), Nat.add_sub_cancel_left, List.getD_eq_getElem _ _ hi]
      · rw [List.getElem?_eq_none (by rw [hlen]; omega)] at hq
        cases hq
  · exact h

theorem Sincrono.chegam (ps : List Pacote) (h : Sincrono s) :
    Sincrono (ps.foldl Estado.coloca s) := by
  induction ps generalizing s with
  | nil => exact h
  | cons p ps ih => exact ih (h.coloca p)

theorem chegam_igual (ps : List Pacote) (s : Estado) :
    (ps.foldl Estado.coloca s).k = s.k ∧ (ps.foldl Estado.coloca s).leituras = s.leituras ∧
      (ps.foldl Estado.coloca s).turno = s.turno := by
  induction ps generalizing s with
  | nil => exact ⟨rfl, rfl, rfl⟩
  | cons p ps ih =>
    obtain ⟨h1, h2, h3⟩ := ih (s.coloca p)
    obtain ⟨e1, e2, e3, _⟩ := coloca_igual s p
    exact ⟨h1.trans e1, h2.trans e2, h3.trans e3⟩

end Chegada

/-! ## One turn -/

section Volta

variable {ambiente : Nat → Escolha} {s : Estado} {p : Pacote}

theorem Sincrono.leituras (h : Sincrono s) {l : Leitura} (hl : l.Certa s.colocados) :
    Sincrono { s with leituras := s.leituras ++ [l] } := by
  refine ⟨h.k_le, h.ptr, h.lido, h.cabe, h.anel, fun l' hm => ?_⟩
  rcases List.mem_append.mp hm with hm | hm
  · exact h.certas l' hm
  · rw [List.mem_singleton.mp hm]
    exact hl

/-- Within the ring, the driver reads the header of the packet that is due where it lies. -/
theorem Sincrono.header (h : Sincrono s) (hn : s.rx_read_ptr.toNat < RX_RING) :
    s.rx_read_ptr.toNat % (RX_BUF_SIZE - 1500) = posicao s.colocados s.k % RX_RING := by
  have hp := h.ptr
  rw [Nat.mod_eq_of_lt hn] at hp
  unfold RX_RING RX_BUF_SIZE at *
  omega

theorem Sincrono.campos (h : Sincrono s) (hk : s.colocados[s.k]? = some p) :
    UInt16.ofNat (half s.rx_buf (posicao s.colocados s.k % RX_RING)) = p.status ∧
      UInt16.ofNat (half s.rx_buf (posicao s.colocados s.k % RX_RING + 2)) =
        UInt16.ofNat p.corpo.length := by
  have hl := length_bytes p
  have hb := h.anel s.k p (Nat.le_refl _) hk
  constructor
  · exact half_bytes16 (hb 0 (by omega)) (hb 1 (by omega))
  · exact half_bytes16 (hb 2 (by omega)) (hb 3 (by omega))

theorem toNat_rx_len (p : Pacote) : (UInt16.ofNat p.corpo.length).toNat = p.corpo.length := by
  rw [UInt16.toNat_ofNat', Nat.mod_eq_of_lt p.length_lt]

theorem length_of_not_ruim (h : ¬ ruim p.status (UInt16.ofNat p.corpo.length)) :
    0 < p.corpo.length ∧ p.corpo.length ≤ 1518 := by
  simp only [ruim, not_or, UInt16.not_lt, gt_iff_lt] at h
  obtain ⟨-, h0, h1⟩ := h
  have hle := UInt16.le_iff_toNat_le.mp h1
  rw [toNat_rx_len] at hle
  refine ⟨Nat.pos_of_ne_zero fun hz => h0 ?_, hle⟩
  rw [hz]
  rfl

/-- The pointer is aligned. -/
theorem Sincrono.ptr_mod (h : Sincrono s) : s.rx_read_ptr.toNat % 4 = 0 := by
  have hp := h.ptr
  have h4 := four_dvd_posicao s.colocados s.k
  unfold RX_RING at hp
  omega

theorem Sincrono.ptr_eq (h : Sincrono s) (hn : s.rx_read_ptr.toNat < RX_RING) :
    s.rx_read_ptr.toNat = posicao s.colocados s.k % RX_RING := by
  rw [← h.ptr, Nat.mod_eq_of_lt hn]

/-- What is copied of the packet that is due, where it ends in the first 8208 bytes. -/
theorem Sincrono.copiado (h : Sincrono s) (hk : s.colocados[s.k]? = some p)
    (hn : s.rx_read_ptr.toNat < RX_RING) (hr : ¬ ruim p.status (UInt16.ofNat p.corpo.length))
    {livre : Bool} {bytes : List UInt8}
    (hc : s.copiado (UInt16.ofNat p.corpo.length) livre = some bytes)
    (hi : s.rx_read_ptr.toNat + p.corpo.length ≤ RX_BUF_SIZE - 1500) :
    bytes = p.corpo.take (p.corpo.length - 4) := by
  obtain ⟨hpos, hle⟩ := length_of_not_ruim hr
  have h4 := h.ptr_mod
  unfold Estado.copiado at hc
  dsimp only at hc
  split at hc
  · rename_i hfit
    have hsub : (UInt16.ofNat p.corpo.length - 4).toNat =
        (65536 - 4 + p.corpo.length) % 65536 := by
      rw [UInt16.toNat_sub, toNat_rx_len]
      rfl
    rw [hsub] at hfit hc
    unfold NETBUF_SIZE at hfit
    have hge : 4 ≤ p.corpo.length := by omega
    have hlen : (65536 - 4 + p.corpo.length) % 65536 = p.corpo.length - 4 := by omega
    have hoff : (s.rx_read_ptr.toNat + 4) % (RX_BUF_SIZE - 1500) = s.rx_read_ptr.toNat + 4 := by
      unfold RX_RING at hn
      unfold RX_BUF_SIZE
      omega
    rw [hlen, hoff] at hc
    unfold copia_pacote at hc
    rw [if_pos (by omega)] at hc
    cases hc
    refine List.ext_getElem (by simp) fun i h1 h2 => ?_
    have hib : i < p.corpo.length - 4 := by simpa using h1
    have hb := h.anel s.k p (Nat.le_refl _) hk (4 + i) (by rw [length_bytes]; omega)
    rw [← h.ptr_eq hn] at hb
    rw [List.getElem_map, List.getElem_range, Nat.add_assoc, hb]
    simp [Pacote.bytes, bytes16, Nat.add_comm 4 i]
  · cases hc

/-- The driver past the packet that is due. -/
theorem Sincrono.avanca (h : Sincrono s) (hk : s.colocados[s.k]? = some p)
    (hn : s.rx_read_ptr.toNat < RX_RING) (hr : ¬ ruim p.status (UInt16.ofNat p.corpo.length)) :
    Sincrono (s.avanca (UInt16.ofNat p.corpo.length)) := by
  obtain ⟨-, hle⟩ := length_of_not_ruim hr
  have h4 := h.ptr_mod
  have hs := posicao_succ hk
  have hptr : (Rtl8139.avanca s.rx_read_ptr (UInt16.ofNat p.corpo.length)).toNat =
      s.rx_read_ptr.toNat + p.tam := by
    unfold Rtl8139.avanca
    rw [toNat_align]
    simp only [UInt16.toNat_add, UInt16.toNat_ofNat', UInt16.toNat_ofNat]
    unfold Pacote.tam RX_RING at *
    omega
  have hpn := h.ptr_eq hn
  have ht : p.tam ≤ 1524 := by
    unfold Pacote.tam
    omega
  refine ⟨?_, ?_, ?_, ?_, ?_, h.certas⟩
  · exact (List.getElem?_eq_some_iff.mp hk).1
  · change (Rtl8139.avanca s.rx_read_ptr _).toNat % RX_RING = posicao s.colocados (s.k + 1) % RX_RING
    rw [hptr, hs, hpn]
    exact Nat.mod_add_mod _ _ _
  · change ((Rtl8139.avanca s.rx_read_ptr _ - 16).toNat + 16) % RX_RING =
      posicao s.colocados (s.k + 1) % RX_RING
    rw [UInt16.toNat_sub, hptr, hs]
    change ((65536 - 16 + _) % 65536 + 16) % _ = _
    unfold RX_RING at *
    omega
  · change posicao s.colocados s.colocados.length < posicao s.colocados (s.k + 1) + RX_RING
    have := h.cabe
    omega
  · intro j q hj hq
    exact h.anel j q (Nat.le_of_succ_le hj) hq

/-- The pointer set to CBR while nothing comes. -/
theorem Sincrono.reinicia (h : Sincrono s) : Sincrono (s.reinicia []) := by
  have hlt : s.cbr < RX_RING := Nat.mod_lt _ (by decide)
  have hc : (UInt16.ofNat s.cbr).toNat = s.cbr := by
    rw [UInt16.toNat_ofNat']
    unfold RX_RING at hlt
    omega
  have hmod : s.cbr % RX_RING = posicao s.colocados s.colocados.length % RX_RING := Nat.mod_mod _ _
  refine ⟨Nat.le_refl _, ?_, ?_, ?_, ?_, h.certas⟩
  · change (UInt16.ofNat s.cbr).toNat % RX_RING = _
    rw [hc, hmod]
    rfl
  · change ((UInt16.ofNat s.cbr - 16).toNat + 16) % RX_RING =
      posicao s.colocados s.colocados.length % RX_RING
    rw [UInt16.toNat_sub, hc, ← hmod]
    change ((65536 - 16 + _) % 65536 + 16) % _ = _
    unfold RX_RING at *
    omega
  · exact Nat.lt_add_of_pos_right (by decide)
  · intro j q hj hq
    have hjl := (List.getElem?_eq_some_iff.mp hq).1
    exact absurd hj (Nat.not_le.mpr hjl)

/-- Where packets wait, one is due. -/
theorem Sincrono.devido (h : Sincrono s) {e : Escolha} (hv : ¬ s.vazio e) :
    ∃ p, s.colocados[s.k]? = some p := by
  rcases Nat.lt_or_eq_of_le h.k_le with hlt | heq
  · exact ⟨_, List.getElem?_eq_getElem hlt⟩
  · refine absurd (Or.inr ?_) hv
    rw [h.lido, heq]
    rfl

end Volta

/-! ## Runs -/

section Corrida

variable {ambiente : Nat → Escolha} {poll : UInt16 → Estado → Nat × Estado} {s : Estado}

/-- A call keeps the readings there are. -/
def Guarda (f : Estado → Estado) : Prop := ∀ s, s.leituras <+: (f s).leituras

theorem leituras_reinicia (s : Estado) (ps : List Pacote) :
    (s.reinicia ps).leituras = s.leituras :=
  (chegam_igual ps { s with capr := UInt16.ofNat s.cbr - 16 }).2.1

theorem guarda_recv_cb (hp : ∀ isr, Guarda fun s => (poll isr s).2) (isrs : List UInt16) :
    Guarda fun s => recv_cb poll s isrs := by
  induction isrs with
  | nil => exact fun s => List.prefix_refl _
  | cons isr isrs ih => exact fun s => (hp isr s).trans (ih _)

theorem guarda_poll_laco (hp : ∀ isr, Guarda fun s => (poll isr s).2) (n : Nat) :
    Guarda fun s => (poll_laco ambiente poll n s).2 := by
  induction n with
  | zero => exact fun s => List.prefix_refl _
  | succ n ih =>
    intro s
    have hch : ((ambiente s.turno).chega.foldl Estado.coloca
        { s with turno := s.turno + 1 }).leituras = s.leituras :=
      (chegam_igual (ambiente s.turno).chega { s with turno := s.turno + 1 }).2.1
    unfold poll_laco
    dsimp only
    generalize (ambiente s.turno).chega.foldl Estado.coloca { s with turno := s.turno + 1 } = s1
      at hch ⊢
    rw [← hch]
    split
    · exact List.prefix_refl _
    · split
      · dsimp only
        rw [leituras_reinicia]
        exact List.prefix_append _ _
      · dsimp only
        refine List.IsPrefix.trans ?_ (ih _)
        split
        · refine List.IsPrefix.trans ?_ (guarda_recv_cb hp _ _)
          exact List.prefix_append _ _
        · exact List.prefix_append _ _

theorem guarda_rtl8139_poll (n : Nat) (isr : UInt16) :
    Guarda fun s => (rtl8139_poll ambiente n isr s).2 := by
  induction n generalizing isr with
  | zero => exact fun s => List.prefix_refl _
  | succ n ih =>
    intro s
    unfold rtl8139_poll
    dsimp only
    split
    · exact List.prefix_refl _
    · exact guarda_poll_laco ih n s

theorem guarda_polls (n : Nat) (isrs : List UInt16) : Guarda (polls ambiente n isrs) := by
  induction isrs with
  | nil => exact fun s => List.prefix_refl _
  | cons isr isrs ih => exact fun s => (guarda_rtl8139_poll n isr s).trans (ih _)

/-- A poll that finds ISR clear does nothing. -/
theorem rtl8139_poll_quieto {n : Nat} {isr : UInt16} (h : ¬ rx_isr isr) (s : Estado) :
    rtl8139_poll ambiente n isr s = (0, s) := by
  cases n with
  | zero => rfl
  | succ n => exact if_pos h

theorem recv_cb_quieto {n : Nat} {isrs : List UInt16} (h : ∀ isr ∈ isrs, ¬ rx_isr isr)
    (s : Estado) : recv_cb (rtl8139_poll ambiente n) s isrs = s := by
  induction isrs with
  | nil => rfl
  | cons isr isrs ih =>
    unfold recv_cb
    rw [List.foldl_cons, rtl8139_poll_quieto (h isr List.mem_cons_self)]
    exact ih fun x hx => h x (List.mem_cons_of_mem _ hx)

/-- A loop whose readings meet the condition leaves the pointer at the packet that is due. -/
theorem Sincrono.poll_laco (hq : SemAninhar ambiente) {m : Nat} (n : Nat) (h : Sincrono s)
    (hc : ∀ l ∈ (Anel.poll_laco ambiente (rtl8139_poll ambiente m) n s).2.leituras, l.Cumpre) :
    Sincrono (Anel.poll_laco ambiente (rtl8139_poll ambiente m) n s).2 := by
  induction n generalizing s with
  | zero => exact h
  | succ n ih =>
    have h0 : Sincrono { s with turno := s.turno + 1 } :=
      ⟨h.k_le, h.ptr, h.lido, h.cabe, h.anel, h.certas⟩
    have h1 := h0.chegam (ambiente s.turno).chega
    unfold Anel.poll_laco at hc ⊢
    dsimp only at hc ⊢
    generalize (ambiente s.turno).chega.foldl Estado.coloca { s with turno := s.turno + 1 } = s1
      at h1 hc ⊢
    by_cases hv : s1.vazio (ambiente s.turno)
    · rw [if_pos hv]
      exact h1
    rw [if_neg hv] at hc ⊢
    obtain ⟨p, hk⟩ := h1.devido hv
    have hcampos : s1.rx_read_ptr.toNat < RX_RING →
        s1.rx_read_ptr.toNat % (RX_BUF_SIZE - 1500) = posicao s1.colocados s1.k % RX_RING ∧
        UInt16.ofNat (half s1.rx_buf (s1.rx_read_ptr.toNat % (RX_BUF_SIZE - 1500))) = p.status ∧
        UInt16.ofNat (half s1.rx_buf (s1.rx_read_ptr.toNat % (RX_BUF_SIZE - 1500) + 2)) =
          UInt16.ofNat p.corpo.length := fun hn => by
      rw [h1.header hn]
      exact ⟨rfl, h1.campos hk⟩
    generalize s1.rx_read_ptr.toNat % (RX_BUF_SIZE - 1500) = header at hc hcampos ⊢
    generalize UInt16.ofNat (half s1.rx_buf header) = rx_status at hc hcampos ⊢
    generalize UInt16.ofNat (half s1.rx_buf (header + 2)) = rx_len at hc hcampos ⊢
    by_cases hr : ruim rx_status rx_len
    · rw [if_pos hr] at hc ⊢
      dsimp only at hc ⊢
      rw [leituras_reinicia] at hc
      have hl := hc _ (List.mem_append_right _ (List.mem_singleton_self _))
      obtain ⟨hh, -, -⟩ := hcampos hl.no_anel
      have hentre : (ambiente s.turno).entre = [] := hl.calmo hr
      rw [hentre]
      refine (h1.leituras ⟨p, hk, hh, fun bytes hb => ?_⟩).reinicia
      cases hb
    · rw [if_neg hr] at hc ⊢
      dsimp only at hc ⊢
      simp only [recv_cb_quieto (hq s.turno), ite_self] at hc ⊢
      have hl := hc _ ((guarda_poll_laco (guarda_rtl8139_poll m) n _).subset
        (List.mem_append_right _ (List.mem_singleton_self _)))
      obtain ⟨hh, hst, hlen⟩ := hcampos hl.no_anel
      subst hst hlen
      refine ih (Sincrono.avanca (h1.leituras ⟨p, hk, hh, fun bytes hb => ?_⟩) hk hl.no_anel hr) hc
      refine h1.copiado hk hl.no_anel hr hb ?_
      have hi := hl.inteiro fun h => by
        rw [hb] at h
        cases h
      rwa [toNat_rx_len] at hi

/-- In a run without polls in callbacks whose readings meet the condition, every reading is right. -/
theorem sincrono_polls (hq : SemAninhar ambiente) (n : Nat) (isrs : List UInt16) (h : Sincrono s)
    (hc : ∀ l ∈ (polls ambiente n isrs s).leituras, l.Cumpre) :
    Sincrono (polls ambiente n isrs s) := by
  induction isrs generalizing s with
  | nil => exact h
  | cons isr isrs ih =>
    refine ih ?_ hc
    have hc1 : ∀ l ∈ (rtl8139_poll ambiente n isr s).2.leituras, l.Cumpre := fun l hl =>
      hc l ((guarda_polls n isrs _).subset hl)
    cases n with
    | zero => exact h
    | succ n =>
      unfold rtl8139_poll at hc1
      dsimp only
      unfold rtl8139_poll
      split
      · exact h
      · rename_i hi
        rw [if_neg hi] at hc1
        exact h.poll_laco hq n hc1

end Corrida

/-- While the pointer stays within the ring, nothing copied ends past 8208, no poll runs inside another
and nothing comes while the pointer is set again, each header is read where its packet lies and each
copy holds the bytes of its packet. -/
theorem each_header_is_read_in_its_place {ambiente : Nat → Escolha} (hq : SemAninhar ambiente)
    (n : Nat) (isrs : List UInt16)
    (hc : ∀ l ∈ (polls ambiente n isrs .inicio).leituras, l.Cumpre) :
    ∀ l ∈ (polls ambiente n isrs .inicio).leituras,
      l.Certa (polls ambiente n isrs .inicio).colocados :=
  (sincrono_polls hq n isrs sincrono_inicio hc).certas

instance (l : Leitura) : Decidable l.Cumpre :=
  decidable_of_iff (l.rx_read_ptr.toNat < RX_RING ∧
      (l.copiados ≠ none → l.rx_read_ptr.toNat + l.rx_len.toNat ≤ RX_BUF_SIZE - 1500) ∧
      (ruim l.rx_status l.rx_len → l.entre.isEmpty = true))
    ⟨fun ⟨h1, h2, h3⟩ => ⟨h1, h2, fun h => List.isEmpty_iff.mp (h3 h)⟩,
      fun h => ⟨h.no_anel, h.inteiro, fun hr => List.isEmpty_iff.mpr (h.calmo hr)⟩⟩

/-- A packet of `n` bytes and without error. -/
def pacote_de (n : Nat) (h : n < 65536) : Pacote :=
  ⟨1, List.replicate n 65, by rwa [List.length_replicate]⟩

/-- A packet of 10 bytes, and one with an error behind it. -/
def poucos : Nat → Escolha
  | 0 => ⟨[pacote_de 10 (by decide), ⟨0, [1, 2, 3, 4], by decide⟩], true, true, [], []⟩
  | _ + 1 => ⟨[], true, true, [], []⟩

theorem sem_aninhar_poucos : SemAninhar poucos := by
  rintro (_ | k) isr hi
  · cases hi
  · cases hi

theorem two_headers_are_read_in_their_places :
    (polls poucos 5 [ISR_ROK] .inicio).leituras.length = 2 ∧
      ∀ l ∈ (polls poucos 5 [ISR_ROK] .inicio).leituras,
        l.Certa (polls poucos 5 [ISR_ROK] .inicio).colocados :=
  ⟨by decide +kernel,
    each_header_is_read_in_its_place sem_aninhar_poucos 5 [ISR_ROK] (by decide +kernel)⟩

/-- Packets that fill the ring just once, and one more. No buffer is free. -/
def uma_volta : Nat → Escolha
  | 0 => ⟨List.replicate 5 (pacote_de 1518 (by decide)), true, false, [], []⟩
  | 1 => ⟨[pacote_de 568 (by decide), pacote_de 60 (by decide)], true, false, [], []⟩
  | _ + 2 => ⟨[], true, false, [], []⟩

/-- The header of the seventh packet lies at 0 and is read at 8192. -/
theorem the_pointer_leaves_the_ring : ¬ ∀ ambiente n isrs, SemAninhar ambiente →
    ∀ l ∈ (polls ambiente n isrs .inicio).leituras,
      l.Certa (polls ambiente n isrs .inicio).colocados := by
  intro h
  have hq : SemAninhar uma_volta := by
    rintro (_ | _ | k) isr hi
    · cases hi
    · cases hi
    · cases hi
  have h6 : (polls uma_volta 10 [ISR_ROK] .inicio).leituras[6]?.map Leitura.header = some 8192 := by
    decide +kernel
  obtain ⟨l, hl, hh⟩ := Option.map_eq_some_iff.mp h6
  obtain ⟨p, -, hp, -⟩ := h uma_volta 10 [ISR_ROK] hq l (List.mem_of_getElem? hl)
  have hlt : posicao (polls uma_volta 10 [ISR_ROK] .inicio).colocados l.k % RX_RING < RX_RING :=
    Nat.mod_lt _ (by decide)
  rw [← hp, hh] at hlt
  exact absurd hlt (by decide)

end SpaceOS.Rtl8139.Anel
