-- The receive ring: each packet that the card puts into it is passed on once, in order, as long
-- as no poll runs inside another and the ring has not come round.
import SpaceOS.Rtl8139
import Mathlib.Algebra.BigOperators.Group.List.Basic

open Lib.Bytes

namespace SpaceOS.Rtl8139

open SpaceOS.Net (bytes16 copia)

/-! ## Packets in the ring -/

/-- The packets lie one after another from `p` on. -/
def Contem (m : Memory) : Nat → List Quadro → Prop
  | _, [] => True
  | p, f :: fs => (∀ i (h : i < f.bytes.length), m (p + i) = f.bytes[i]) ∧ Contem m (p + f.tam) fs

section Pacotes

variable {m m' : Memory} {p : Nat} {f : Quadro} {fs gs : List Quadro}

theorem length_bytes (f : Quadro) : f.bytes.length = f.data.length + 8 := by
  have := f.crc_length
  simp [Quadro.bytes]
  omega

theorem bytes_le_tam (f : Quadro) : f.bytes.length ≤ f.tam := by
  rw [length_bytes]
  unfold Quadro.tam
  omega

theorem tam_pos (f : Quadro) : 8 ≤ f.tam := by
  unfold Quadro.tam
  omega

@[simp] theorem ocupado_nil : ocupado [] = 0 := rfl

@[simp] theorem ocupado_cons (f : Quadro) (fs : List Quadro) :
    ocupado (f :: fs) = f.tam + ocupado fs := by simp [ocupado]

@[simp] theorem ocupado_append (fs gs : List Quadro) :
    ocupado (fs ++ gs) = ocupado fs + ocupado gs := by simp [ocupado]

theorem four_dvd_ocupado (fs : List Quadro) : ocupado fs % 4 = 0 := by
  induction fs with
  | nil => rfl
  | cons f fs ih =>
    rw [ocupado_cons]
    unfold Quadro.tam
    omega

theorem Contem.congr (h : Contem m p fs) (hm : ∀ a < p + ocupado fs, m' a = m a) :
    Contem m' p fs := by
  induction fs generalizing p with
  | nil => trivial
  | cons f fs ih =>
    rw [ocupado_cons] at hm
    refine ⟨fun i hi => ?_, ih h.2 fun a ha => hm a (by omega)⟩
    have := bytes_le_tam f
    rw [hm _ (by omega), h.1 i hi]

theorem contem_append (h : Contem m p fs) (hg : Contem m (p + ocupado fs) gs) :
    Contem m p (fs ++ gs) := by
  induction fs generalizing p with
  | nil => simpa using hg
  | cons f fs ih =>
    refine ⟨h.1, ih h.2 ?_⟩
    rw [ocupado_cons, ← Nat.add_assoc] at hg
    exact hg

theorem contem_copia (m : Memory) (p : Nat) (f : Quadro) : Contem (copia m p f.bytes) p [f] := by
  refine ⟨fun i hi => ?_, trivial⟩
  unfold copia
  rw [if_pos (Nat.le_add_right p i), Nat.add_sub_cancel_left]
  simp [hi]

theorem copia_antes {l : List UInt8} {a : Nat} (h : a < p) : copia m p l a = m a :=
  if_neg (Nat.not_le.mpr h)

/-- A 16-bit word read back from its two bytes. -/
theorem half_bytes16 {v : UInt16} (h0 : m p = v.toUInt8) (h1 : m (p + 1) = (v >>> 8).toUInt8) :
    UInt16.ofNat (half m p) = v := by
  have hlt := v.toNat_lt
  have hs : (v >>> 8).toNat = v.toNat / 256 := by
    rw [UInt16.toNat_shiftRight]
    exact Nat.shiftRight_eq_div_pow _ _
  rw [← UInt16.toNat_inj]
  unfold half
  rw [h0, h1, UInt16.toNat_ofNat', UInt16.toNat_toUInt8, UInt16.toNat_toUInt8, hs]
  omega

theorem Contem.status (h : Contem m p (f :: fs)) : UInt16.ofNat (half m p) = f.status := by
  have hl := length_bytes f
  refine half_bytes16 ?_ ?_
  · have h0 := h.1 0 (by omega)
    rwa [Nat.add_zero] at h0
  · exact h.1 1 (by omega)

theorem Contem.len (h : Contem m p (f :: fs)) :
    UInt16.ofNat (half m (p + 2)) = UInt16.ofNat (f.data.length + 4) := by
  have hl := length_bytes f
  refine half_bytes16 ?_ ?_
  · exact h.1 2 (by omega)
  · exact h.1 3 (by omega)

theorem Contem.data (h : Contem m p (f :: fs)) :
    ((List.range f.data.length).map fun i => m (p + 4 + i)) = f.data := by
  have hl := length_bytes f
  refine List.ext_getElem (by simp) fun i h1 h2 => ?_
  have hi := h.1 (4 + i) (by omega)
  rw [List.getElem_map, List.getElem_range, Nat.add_assoc, hi]
  simp [Quadro.bytes, bytes16, Nat.add_comm 4 i, List.getElem_append_left h2]

end Pacotes

/-! ## The read pointer -/

/-- The low two bits cleared. -/
theorem toNat_align (x : UInt16) : (x &&& ~~~ 3).toNat = x.toNat / 4 * 4 := by
  have hlt := x.toNat_lt
  rw [UInt16.toNat_and]
  change x.toNat &&& 65532 = _
  have h1 : (65532 : Nat) = (2 ^ 14 - 1) <<< 2 := rfl
  have h2 : x.toNat / 4 * 4 = (x.toNat >>> 2) <<< 2 := by
    rw [Nat.shiftRight_eq_div_pow, Nat.shiftLeft_eq]
  rw [h1, h2]
  refine Nat.eq_of_testBit_eq fun i => ?_
  rw [Nat.testBit_and, Nat.testBit_shiftLeft, Nat.testBit_shiftLeft, Nat.testBit_two_pow_sub_one,
    Nat.testBit_shiftRight]
  by_cases hi : 2 ≤ i
  · have h2i : 2 + (i - 2) = i := by omega
    rw [h2i]
    by_cases h16 : i < 16
    · have : i - 2 < 14 := by omega
      simp [hi, this]
    · have hz : x.toNat.testBit i = false :=
        Nat.testBit_lt_two_pow (Nat.lt_of_lt_of_le hlt (Nat.pow_le_pow_right (by omega) (by omega)))
      simp [hz]
  · simp [hi]

theorem toNat_avanca {ptr : UInt16} {f : Quadro} (h4 : ptr.toNat % 4 = 0)
    (hle : ptr.toNat + f.tam < RX_RING) :
    (avanca ptr (UInt16.ofNat (f.data.length + 4))).toNat = ptr.toNat + f.tam := by
  unfold Quadro.tam RX_RING at *
  unfold avanca
  rw [toNat_align]
  simp only [UInt16.toNat_add, UInt16.toNat_ofNat', UInt16.toNat_ofNat]
  omega

/-! ## The invariant of the loop -/

/-- The packets of `vistos` are done with and those of `pend` wait in the ring. -/
structure Coerente (s : Placa) (vistos pend : List Quadro) : Prop where
  colocados : s.colocados = vistos ++ pend
  cabe : ocupado s.colocados < RX_RING
  ptr : s.rx_read_ptr.toNat = ocupado vistos
  lido : s.lido = ocupado vistos
  anel : Contem s.rx_buf (ocupado vistos) pend
  entregues : s.entregues.Sublist (vistos.map Quadro.data)
  contas : s.entregues.length + s.perdidos = vistos.length

section Laco

variable {ambiente : Nat → Escolha} {s : Placa} {vistos pend : List Quadro} {f : Quadro}

theorem coerente_inicio : Coerente Placa.inicio [] [] :=
  ⟨rfl, by decide, rfl, rfl, trivial, List.Sublist.refl [], rfl⟩

theorem Coerente.cbr (h : Coerente s vistos pend) : s.cbr = ocupado vistos + ocupado pend := by
  have hc := h.cabe
  unfold Placa.cbr
  rw [Nat.mod_eq_of_lt hc, h.colocados, ocupado_append]

/-- A packet that comes waits behind the others. -/
theorem Coerente.coloca (h : Coerente s vistos pend) (hc : ocupado s.colocados + f.tam < RX_RING) :
    Coerente (s.coloca f) vistos (pend ++ [f]) := by
  have hcbr := h.cbr
  refine ⟨?_, ?_, h.ptr, h.lido, ?_, h.entregues, h.contas⟩
  · change s.colocados ++ [f] = _
    rw [h.colocados, List.append_assoc]
  · change ocupado (s.colocados ++ [f]) < _
    simpa using hc
  · change Contem (copia s.rx_buf s.cbr f.bytes) _ _
    refine contem_append (h.anel.congr fun a ha => copia_antes (by omega)) ?_
    rw [hcbr]
    exact contem_copia _ _ _

theorem Coerente.chegam {fs : List Quadro} (h : Coerente s vistos pend)
    (hc : ocupado (s.colocados ++ fs) < RX_RING) :
    Coerente (fs.foldl Placa.coloca s) vistos (pend ++ fs) := by
  induction fs generalizing s pend with
  | nil => simpa using h
  | cons f fs ih =>
    rw [ocupado_append, ocupado_cons] at hc
    have hf := h.coloca (f := f) (by omega)
    have hcol : (s.coloca f).colocados = s.colocados ++ [f] := rfl
    have hrest := ih hf (by
      rw [hcol]
      simp
      omega)
    rwa [List.append_assoc, List.singleton_append] at hrest

theorem colocados_chegam (fs : List Quadro) (s : Placa) :
    (fs.foldl Placa.coloca s).colocados = s.colocados ++ fs ∧
      (fs.foldl Placa.coloca s).turno = s.turno := by
  induction fs generalizing s with
  | nil => simp
  | cons f fs ih =>
    rw [List.foldl_cons, (ih _).1, (ih _).2]
    simp [Placa.coloca]

/-- Where packets wait, the driver reads the header of the first one. -/
theorem Coerente.header (h : Coerente s vistos (f :: pend)) :
    UInt16.ofNat (half s.rx_buf (s.rx_read_ptr.toNat % (RX_BUF_SIZE - 1500))) = f.status ∧
    UInt16.ofNat (half s.rx_buf (s.rx_read_ptr.toNat % (RX_BUF_SIZE - 1500) + 2)) =
      UInt16.ofNat (f.data.length + 4) := by
  have hc := h.cabe
  rw [h.colocados, ocupado_append] at hc
  have hmod : s.rx_read_ptr.toNat % (RX_BUF_SIZE - 1500) = ocupado vistos := by
    rw [h.ptr]
    unfold RX_RING at hc
    unfold RX_BUF_SIZE
    omega
  rw [hmod]
  exact ⟨h.anel.status, h.anel.len⟩

theorem Coerente.copia (h : Coerente s vistos (f :: pend)) :
    copia_pacote s.rx_buf ((s.rx_read_ptr.toNat + 4) % (RX_BUF_SIZE - 1500)) f.data.length =
      f.data := by
  have hc := h.cabe
  have htam : f.data.length + 8 ≤ f.tam := by
    rw [← length_bytes]
    exact bytes_le_tam f
  rw [h.colocados, ocupado_append, ocupado_cons] at hc
  have hmod : (s.rx_read_ptr.toNat + 4) % (RX_BUF_SIZE - 1500) = ocupado vistos + 4 := by
    rw [h.ptr]
    unfold RX_RING at hc
    unfold RX_BUF_SIZE
    omega
  unfold copia_pacote
  rw [hmod, if_pos (by unfold RX_RING at hc; unfold RX_BUF_SIZE; omega)]
  exact h.anel.data

/-- A poll that finds ISR clear does nothing. -/
theorem rtl8139_poll_quieto {n : Nat} {isr : UInt16} (h : ¬ rx_isr isr) (s : Placa) :
    rtl8139_poll ambiente n isr s = (0, s) := by
  cases n with
  | zero => rfl
  | succ n => exact if_pos h

theorem recv_cb_quieto {n : Nat} {isrs : List UInt16} (h : ∀ isr ∈ isrs, ¬ rx_isr isr) (s : Placa)
    (data : List UInt8) : recv_cb (rtl8139_poll ambiente n) s data isrs =
      { s with entregues := s.entregues ++ [data] } := by
  unfold recv_cb
  generalize { s with entregues := s.entregues ++ [data] } = s'
  induction isrs with
  | nil => rfl
  | cons isr isrs ih =>
    rw [List.foldl_cons, rtl8139_poll_quieto (h isr List.mem_cons_self)]
    exact ih fun x hx => h x (List.mem_cons_of_mem _ hx)

/-- The driver past the first packet that waits. -/
theorem Coerente.passa {n : Nat} {e : Escolha} (h : Coerente s vistos (f :: pend))
    (hq : ∀ isr ∈ e.aninha, ¬ rx_isr isr) :
    ∃ s', (Rtl8139.passa (rtl8139_poll ambiente n) s (UInt16.ofNat (f.data.length + 4)) e).2 = s' ∧
      s'.turno = s.turno ∧ s'.colocados = s.colocados ∧
      Coerente { s' with
        rx_read_ptr := avanca s'.rx_read_ptr (UInt16.ofNat (f.data.length + 4))
        capr := avanca s'.rx_read_ptr (UInt16.ofNat (f.data.length + 4)) - 16 }
        (vistos ++ [f]) pend := by
  have hc := h.cabe
  rw [h.colocados, ocupado_append, ocupado_cons] at hc
  have hle := f.data_le
  have hpkt : (UInt16.ofNat (f.data.length + 4) - 4).toNat = f.data.length := by
    rw [UInt16.toNat_sub, UInt16.toNat_ofNat']
    change (65536 - 4 + _) % 65536 = _
    omega
  have hptr : (avanca s.rx_read_ptr (UInt16.ofNat (f.data.length + 4))).toNat =
      ocupado (vistos ++ [f]) := by
    have h4 : s.rx_read_ptr.toNat % 4 = 0 := by
      rw [h.ptr]
      exact four_dvd_ocupado vistos
    rw [toNat_avanca h4 (by rw [h.ptr]; omega), h.ptr]
    simp
  have hlido : ((avanca s.rx_read_ptr (UInt16.ofNat (f.data.length + 4)) - 16).toNat + 16) %
      RX_RING = ocupado (vistos ++ [f]) := by
    have hlt : ocupado (vistos ++ [f]) < RX_RING := by
      simp
      omega
    rw [UInt16.toNat_sub, hptr]
    change ((65536 - 16 + _) % 65536 + 16) % _ = _
    unfold RX_RING at *
    omega
  have hanel : Contem s.rx_buf (ocupado (vistos ++ [f])) pend := by
    have htail := h.anel.2
    simpa using htail
  have hcol : s.colocados = vistos ++ [f] ++ pend := by
    rw [h.colocados]
    simp
  unfold Rtl8139.passa
  dsimp only
  rw [hpkt, if_pos (by unfold NETBUF_SIZE; omega)]
  split
  · rw [recv_cb_quieto hq, h.copia]
    refine ⟨_, rfl, rfl, rfl, hcol, h.cabe, hptr, hlido, hanel, ?_, ?_⟩
    · rw [List.map_append]
      exact h.entregues.append (List.Sublist.refl _)
    · have := h.contas
      simp
      omega
  · refine ⟨_, rfl, rfl, rfl, hcol, h.cabe, hptr, hlido, hanel, ?_, ?_⟩
    · rw [List.map_append]
      exact h.entregues.trans (List.sublist_append_left _ _)
    · have := h.contas
      simp
      omega

/-- The packets that the card puts into the ring in the first `k` turns. -/
def chegados (ambiente : Nat → Escolha) (k : Nat) : List Quadro :=
  (List.range k).flatMap fun j => (ambiente j).chega

theorem chegados_succ (k : Nat) :
    chegados ambiente (k + 1) = chegados ambiente k ++ (ambiente k).chega := by
  simp [chegados, List.range_succ]

/-- No poll inside a callback finds a packet announced in ISR. -/
def SemAninhar (ambiente : Nat → Escolha) : Prop := ∀ k, ∀ isr ∈ (ambiente k).aninha, ¬ rx_isr isr

/-- What the card receives does not go round the ring. -/
def SemVolta (ambiente : Nat → Escolha) : Prop := ∀ k, ocupado (chegados ambiente k) < RX_RING

theorem eight_mul_length_le (fs : List Quadro) : 8 * fs.length ≤ ocupado fs := by
  induction fs with
  | nil => simp
  | cons f fs ih =>
    have := tam_pos f
    rw [ocupado_cons, List.length_cons]
    omega

/-- The loop takes the header of a packet that the card has put into the ring. -/
theorem header_aceito (f : Quadro) : ¬ (f.status &&& 0x0001 = 0 ∨
    UInt16.ofNat (f.data.length + 4) = 0 ∨ UInt16.ofNat (f.data.length + 4) > 1518) := by
  have hle := f.data_le
  have hrx : (UInt16.ofNat (f.data.length + 4)).toNat = f.data.length + 4 := by
    rw [UInt16.toNat_ofNat']
    omega
  rintro (h0 | h0 | h0)
  · exact f.ok h0
  · have := congrArg UInt16.toNat h0
    rw [hrx] at this
    exact absurd this (Nat.succ_ne_zero _)
  · have := UInt16.lt_iff_toNat_lt.mp h0
    rw [hrx] at this
    change 1518 < _ at this
    omega

/-- The loop goes through the packets that wait, and ends with none where CR shows them all. -/
theorem Coerente.poll_laco {m : Nat} (hq : SemAninhar ambiente) (hv : SemVolta ambiente) (n : Nat)
    (h : Coerente s vistos pend) (hc : s.colocados = chegados ambiente s.turno) :
    ∃ s' vistos' pend', (Rtl8139.poll_laco ambiente (rtl8139_poll ambiente m) n s).2 = s' ∧
      Coerente s' vistos' pend' ∧ s'.colocados = chegados ambiente s'.turno ∧
      ((∀ k, (ambiente k).avisa) → pend' = [] ∨ vistos.length + n ≤ vistos'.length) := by
  induction n generalizing s vistos pend with
  | zero => exact ⟨s, vistos, pend, rfl, h, hc, fun _ => Or.inr (Nat.le_refl _)⟩
  | succ n ih =>
    obtain ⟨hcol, htur⟩ :=
      colocados_chegam (ambiente s.turno).chega { s with turno := s.turno + 1 }
    have hcol' : (s.colocados ++ (ambiente s.turno).chega) = chegados ambiente (s.turno + 1) := by
      rw [chegados_succ, hc]
    have h0 : Coerente { s with turno := s.turno + 1 } vistos pend :=
      ⟨h.colocados, h.cabe, h.ptr, h.lido, h.anel, h.entregues, h.contas⟩
    have h1 := h0.chegam (show ocupado (s.colocados ++ (ambiente s.turno).chega) < RX_RING by
      rw [hcol']
      exact hv _)
    unfold Rtl8139.poll_laco
    dsimp only
    generalize (ambiente s.turno).chega.foldl Placa.coloca { s with turno := s.turno + 1 } = s1
      at h1 hcol htur
    have hc1 : s1.colocados = chegados ambiente s1.turno := by
      rw [hcol, htur]
      exact hcol'
    by_cases hvazio : s1.vazio (ambiente s.turno)
    · rw [if_pos hvazio]
      refine ⟨s1, vistos, _, rfl, h1, hc1, fun hav => Or.inl ?_⟩
      have hlido := hvazio.resolve_left (not_not.mpr (hav _))
      rw [h1.cbr, h1.lido] at hlido
      have h8 := eight_mul_length_le (pend ++ (ambiente s.turno).chega)
      exact List.eq_nil_of_length_eq_zero (by omega)
    · rw [if_neg hvazio]
      obtain ⟨f, rest, hrest⟩ : ∃ f rest, pend ++ (ambiente s.turno).chega = f :: rest := by
        refine List.exists_cons_of_ne_nil fun hnil => hvazio (Or.inr ?_)
        rw [h1.cbr, h1.lido, hnil, ocupado_nil, Nat.add_zero]
      rw [hrest] at h1
      obtain ⟨hst, hlen⟩ := h1.header
      rw [hst, hlen, if_neg (header_aceito f)]
      obtain ⟨s2, hs2, htur2, hcol2, h2⟩ := h1.passa (n := m) (hq s.turno)
      obtain ⟨s3, vistos', pend', hs3, h3, hc3, hend⟩ := ih h2 (by
        change s2.colocados = chegados ambiente s2.turno
        rw [hcol2, htur2, hc1])
      refine ⟨s3, vistos', pend', ?_, h3, hc3, fun hav => ?_⟩
      · rw [← hs3, ← hs2]
      · refine (hend hav).imp id fun hle => ?_
        rw [List.length_append, List.length_singleton] at hle
        omega

theorem Coerente.rtl8139_poll (hq : SemAninhar ambiente) (hv : SemVolta ambiente) (n : Nat)
    (isr : UInt16) (h : Coerente s vistos pend) (hc : s.colocados = chegados ambiente s.turno) :
    ∃ s' vistos' pend', (Rtl8139.rtl8139_poll ambiente n isr s).2 = s' ∧
      Coerente s' vistos' pend' ∧ s'.colocados = chegados ambiente s'.turno ∧
      (rx_isr isr → 1024 < n → (∀ k, (ambiente k).avisa) → pend' = []) := by
  cases n with
  | zero => exact ⟨s, vistos, pend, rfl, h, hc, fun _ hn => absurd hn (by omega)⟩
  | succ n =>
    unfold Rtl8139.rtl8139_poll
    by_cases hi : rx_isr isr
    · rw [if_neg (not_not.mpr hi)]
      obtain ⟨s', vistos', pend', hs', h', hc', hend⟩ := h.poll_laco (m := n) hq hv n hc
      refine ⟨s', vistos', pend', hs', h', hc', fun _ hn hav => (hend hav).resolve_right ?_⟩
      have h8 := eight_mul_length_le vistos'
      have hlt := h'.cabe
      rw [h'.colocados, ocupado_append] at hlt
      unfold RX_RING at hlt
      omega
    · rw [if_pos hi]
      exact ⟨s, vistos, pend, rfl, h, hc, fun hx => absurd hx hi⟩

theorem coerente_polls (hq : SemAninhar ambiente) (hv : SemVolta ambiente) (n : Nat)
    (isrs : List UInt16) (h : Coerente s vistos pend)
    (hc : s.colocados = chegados ambiente s.turno) :
    ∃ vistos' pend', Coerente (polls ambiente n isrs s) vistos' pend' ∧
      (polls ambiente n isrs s).colocados = chegados ambiente (polls ambiente n isrs s).turno := by
  induction isrs generalizing s vistos pend with
  | nil => exact ⟨vistos, pend, h, hc⟩
  | cons isr isrs ih =>
    obtain ⟨s', vistos', pend', hs', h', hc', _⟩ := h.rtl8139_poll hq hv n isr hc
    unfold polls
    rw [List.foldl_cons, hs']
    exact ih h' hc'

/-- The packets of the card are those that were passed on, each once and in order, those for which
there was no buffer, and those that the card holds as unread. -/
def CadaUmaVez (s : Placa) : Prop :=
  ∃ vistos pend, s.colocados = vistos ++ pend ∧
    s.entregues.Sublist (vistos.map Quadro.data) ∧
    s.entregues.length + s.perdidos = vistos.length ∧
    (s.cbr + RX_RING - s.lido) % RX_RING = ocupado pend

theorem Coerente.cada_uma_vez (h : Coerente s vistos pend) : CadaUmaVez s := by
  have hc := h.cabe
  rw [h.colocados, ocupado_append] at hc
  refine ⟨vistos, pend, h.colocados, h.entregues, h.contas, ?_⟩
  rw [h.cbr, h.lido]
  unfold RX_RING at *
  omega

/-- Where no poll inside a callback finds a packet announced and the ring does not come round, each
packet is passed on once and in order, and a poll that has the turns for it and sees what waits
leaves none. -/
theorem each_frame_is_passed_on_once (hq : SemAninhar ambiente) (hv : SemVolta ambiente) (n : Nat)
    (isrs : List UInt16) : CadaUmaVez (polls ambiente n isrs Placa.inicio) ∧
    ∀ isr, rx_isr isr → 1024 < n → (∀ k, (ambiente k).avisa) →
      (polls ambiente n (isrs ++ [isr]) Placa.inicio).entregues.length +
          (polls ambiente n (isrs ++ [isr]) Placa.inicio).perdidos =
        (polls ambiente n (isrs ++ [isr]) Placa.inicio).colocados.length := by
  obtain ⟨vistos, pend, h, hc⟩ := coerente_polls hq hv n isrs coerente_inicio rfl
  refine ⟨h.cada_uma_vez, fun isr hi hn hav => ?_⟩
  obtain ⟨s', vistos', pend', hs', h', _, hend⟩ := h.rtl8139_poll hq hv n isr hc
  have hlast : polls ambiente n (isrs ++ [isr]) Placa.inicio = s' := by
    unfold polls at *
    rw [List.foldl_append, List.foldl_cons, List.foldl_nil, hs']
  rw [hlast, h'.contas, h'.colocados, hend hi hn hav, List.append_nil]

end Laco

/-! ## A poll inside the callback -/

/-- A packet of one byte. -/
def um_byte (b : UInt8) : Quadro := ⟨1, [b], [0, 0, 0, 0], by decide, by simp, rfl⟩

/-- Two packets come before the first turn, and the callback of the first one polls with `isr`. -/
def dois_pacotes (isr : UInt16) : Nat → Escolha
  | 0 => ⟨[um_byte 65, um_byte 66], true, true, [isr]⟩
  | _ + 1 => ⟨[], true, true, []⟩

theorem sem_volta_dois_pacotes (isr : UInt16) : SemVolta (dois_pacotes isr) := by
  intro k
  have hk : chegados (dois_pacotes isr) k = [] ∨
      chegados (dois_pacotes isr) k = [um_byte 65, um_byte 66] := by
    induction k with
    | zero => exact Or.inl rfl
    | succ k ih =>
      rw [chegados_succ]
      cases k with
      | zero => exact Or.inr rfl
      | succ k =>
        change _ ++ [] = _ ∨ _ ++ [] = _
        rwa [List.append_nil]
  rcases hk with hk | hk
  · rw [hk]
    decide
  · rw [hk]
    decide

/-- The poll of the callback finds ISR clear. -/
theorem two_frames_are_passed_on : CadaUmaVez (polls (dois_pacotes 0) 5 [ISR_ROK] Placa.inicio) := by
  refine (each_frame_is_passed_on_once ?_ (sem_volta_dois_pacotes 0) 5 [ISR_ROK]).1
  rintro (_ | k) isr hi
  · obtain rfl := List.mem_singleton.mp hi
    decide
  · cases hi

/-- The poll of the callback finds a packet announced, and reads the first one again. -/
theorem a_nested_poll_passes_a_frame_on_twice : ¬ ∀ ambiente n isrs, SemVolta ambiente →
    CadaUmaVez (polls ambiente n isrs Placa.inicio) := by
  intro h
  obtain ⟨vistos, pend, hcol, _, hlen, _⟩ :=
    h (dois_pacotes ISR_ROK) 9 [ISR_ROK] (sem_volta_dois_pacotes ISR_ROK)
  have h3 : (polls (dois_pacotes ISR_ROK) 9 [ISR_ROK] Placa.inicio).entregues.length = 3 := by decide
  have h2 : (polls (dois_pacotes ISR_ROK) 9 [ISR_ROK] Placa.inicio).colocados.length = 2 := by decide
  rw [hcol, List.length_append] at h2
  omega

end SpaceOS.Rtl8139
