-- What `http_get` keeps of a response, however the response is cut into the parts that `tcp_recv`
-- returns: the body, where one part holds the whole end of the header and what it has behind it fits.
import Mathlib.Data.List.SplitLengths
import SpaceOS.Checksums
import SpaceOS.PkgRemote

open Lib.Bytes SpaceOS.Net

namespace SpaceOS.Pkg

/-! ## The response -/

/-- The end of a header lies at place `i`. -/
def TemFim (l : List UInt8) (i : Nat) : Prop := FIM_HEADER <+: l.drop i

/-- A response: its header without the CR LF CR LF at the end, the number of bytes of its body, and the
lengths of the parts in which it arrives. -/
structure Envio where
  inicio : List UInt8
  corpo : Nat
  tams : List Nat
  primeiro : ∀ i < inicio.length, ¬ TemFim (inicio ++ FIM_HEADER) i
  partes : ∀ n ∈ tams, 1 ≤ n ∧ n ≤ 256
  soma : tams.sum = (inicio ++ FIM_HEADER).length + corpo

/-- The size of a buffer, which lies beside the 256 bytes of `http_buf` in the address space. -/
structure Saida where
  max_size : UInt32
  cabe : max_size.toNat + 256 ≤ 2 ^ 32

namespace Envio

variable (e : Envio) (m : Saida)

def header : List UInt8 := e.inicio ++ FIM_HEADER

/-- The parts are those of the response with body `body`. -/
structure Corta (body : List UInt8) (partes : List (List UInt8)) : Prop where
  corpo : body.length = e.corpo
  tams : partes.map List.length = e.tams
  bytes : partes.flatten = e.header ++ body

/-- `http_get` stores the body as far as it fits, and nothing else, and gives its length. -/
def Certo : Prop :=
  ∀ path repo_host out_buf body partes, e.Corta body partes →
    let r := http_get path repo_host out_buf m.max_size partes
    r.out_len.toNat = min m.max_size.toNat body.length ∧
      r.out_buf = copia out_buf 0 (body.take m.max_size.toNat)

/-- The whole end of the header lies in the part of `n` bytes behind the parts `antes`. -/
def FimEm (antes : List Nat) (n : Nat) : Prop :=
  antes.sum + 4 ≤ e.header.length ∧ e.header.length ≤ antes.sum + n

/-- There is nothing to store, or one part holds the whole end of the header, and what it has behind it
fits into the buffer. -/
def Inteiro : Prop :=
  m.max_size = 0 ∨ e.corpo = 0 ∨
    ∃ antes n depois, e.tams = antes ++ n :: depois ∧ e.FimEm antes n ∧
      antes.sum + n - e.header.length ≤ m.max_size.toNat

end Envio

/-! ## The search -/

section Busca

variable {l l' : List UInt8} {i k n : Nat}

theorem temFim_iff : TemFim l i ↔ (l.drop i).take 4 = FIM_HEADER := by
  unfold TemFim
  rw [List.prefix_iff_eq_take]
  exact eq_comm

theorem temFim_zero : TemFim l 0 ↔ l.take 4 = FIM_HEADER := temFim_iff

theorem TemFim.le (h : TemFim l i) : i + 4 ≤ l.length := by
  have hle := h.length_le
  rw [List.length_drop] at hle
  change 4 ≤ _ at hle
  omega

theorem temFim_cons {b : UInt8} : TemFim (b :: l) (i + 1) ↔ TemFim l i := Iff.rfl

/-- The search finds the first end of a header. -/
theorem header_end_pos_eq_some (h : TemFim l i) (hlt : ∀ j < i, ¬ TemFim l j) :
    header_end_pos l = some (i + 4) := by
  induction l generalizing i with
  | nil =>
    have hle := h.le
    simp at hle
  | cons b p ih =>
    unfold header_end_pos
    cases i with
    | zero => rw [if_pos (temFim_zero.mp h)]
    | succ i =>
      rw [if_neg fun h0 => hlt 0 (Nat.succ_pos i) (temFim_zero.mpr h0),
        ih (temFim_cons.mp h) fun j hj hfim => hlt (j + 1) (Nat.succ_lt_succ hj) hfim]
      rfl

theorem header_end_pos_eq_none (h : ∀ i, ¬ TemFim l i) : header_end_pos l = none := by
  induction l with
  | nil => rfl
  | cons b p ih =>
    unfold header_end_pos
    rw [if_neg fun h0 => h 0 (temFim_zero.mpr h0), ih fun i hi => h (i + 1) hi]
    rfl

/-- What lies at a place of a part lies in the whole. -/
theorem TemFim.append (h : TemFim l i) (pre suf : List UInt8) :
    TemFim (pre ++ l ++ suf) (pre.length + i) := by
  have hle := h.le
  unfold TemFim at h ⊢
  rw [List.append_assoc, List.drop_append, List.drop_eq_nil_of_le (by omega), List.nil_append,
    Nat.add_sub_cancel_left, List.drop_append_of_le_length (by omega)]
  exact h.trans (List.prefix_append _ _)

/-- And the other way round, where it ends in the part. -/
theorem TemFim.of_append (pre suf : List UInt8) (h : TemFim (pre ++ l ++ suf) (pre.length + i))
    (hi : i + 4 ≤ l.length) : TemFim l i := by
  unfold TemFim at h ⊢
  rw [List.append_assoc, List.drop_append, List.drop_eq_nil_of_le (by omega), List.nil_append,
    Nat.add_sub_cancel_left, List.drop_append_of_le_length (by omega)] at h
  refine List.prefix_of_prefix_length_le h (List.prefix_append _ _) ?_
  rw [List.length_drop]
  change 4 ≤ _
  omega

end Busca

/-! ## The loop -/

section Laco

variable {m : Saida} {out_buf : Memory} {s : Leitura} {b buf : List UInt8}
  {partes : List (List UInt8)}

/-- The buffer holds the bytes `b` of the body. -/
structure Guardou (m : Saida) (out_buf : Memory) (b : List UInt8) (s : Leitura) : Prop where
  cabe : b.length ≤ m.max_size.toNat
  total : s.total.toNat = b.length
  bytes : s.out_buf = copia out_buf 0 b
  header_done : s.header_done = true

theorem toNat_length (h : buf.length ≤ 256) :
    (UInt32.ofNat buf.length).toNat = buf.length := by
  rw [UInt32.toNat_ofNat']
  omega

/-- Behind the header, a part is stored as far as it fits. -/
theorem Guardou.parte (h : Guardou m out_buf b s) (hp : buf.length ≤ 256)
    (hlt : s.total < m.max_size) :
    Guardou m out_buf ((b ++ buf).take m.max_size.toNat) (recebe_parte m.max_size s buf) := by
  obtain ⟨hcabe, htotal, hbytes, hdone⟩ := h
  have hmax := m.cabe
  have hlt' : s.total.toNat < m.max_size.toNat := hlt
  have hn := toNat_length hp
  have hsum : (s.total + UInt32.ofNat buf.length).toNat = b.length + buf.length := by
    rw [UInt32.toNat_add, hn, htotal]
    omega
  have hle : s.total + UInt32.ofNat buf.length ≤ m.max_size ↔
      b.length + buf.length ≤ m.max_size.toNat := by
    rw [UInt32.le_iff_toNat_le, hsum]
  have hsub : (m.max_size - s.total).toNat = m.max_size.toNat - b.length := by
    rw [UInt32.toNat_sub_of_le _ _ (UInt32.le_of_lt hlt), htotal]
  unfold recebe_parte
  dsimp only
  rw [if_neg (by simp [hdone]), hbytes, htotal, copia_copia]
  by_cases hfit : b.length + buf.length ≤ m.max_size.toNat
  · rw [if_pos (hle.mpr hfit), hn, List.take_length,
      List.take_of_length_le (by rw [List.length_append]; exact hfit)]
    refine ⟨by rw [List.length_append]; exact hfit, ?_, rfl, hdone⟩
    rw [hsum, List.length_append]
  · have htake : (b ++ buf).take m.max_size.toNat =
        b ++ buf.take (m.max_size.toNat - b.length) := by
      rw [List.take_append, List.take_of_length_le hcabe]
    rw [if_neg fun h => hfit (hle.mp h), hsub, htake]
    have hlen : (b ++ buf.take (m.max_size.toNat - b.length)).length = m.max_size.toNat := by
      rw [List.length_append, List.length_take]
      omega
    refine ⟨Nat.le_of_eq hlen, ?_, rfl, hdone⟩
    rw [hlen]
    change (s.total + (m.max_size - s.total)).toNat = _
    rw [UInt32.toNat_add, hsub, htotal]
    omega

theorem take_take_append (l r : List UInt8) (k : Nat) :
    (l.take k ++ r).take k = (l ++ r).take k := by
  have hk : k - min k l.length = k - l.length := by omega
  rw [List.take_append, List.take_append, List.take_take, Nat.min_self, List.length_take, hk]

/-- Behind the header, the parts are stored as far as they fit. -/
theorem Guardou.laco (h : Guardou m out_buf b s) (hp : ∀ p ∈ partes, p.length ≤ 256) :
    Guardou m out_buf ((b ++ partes.flatten).take m.max_size.toNat)
      (http_laco m.max_size partes s) := by
  induction partes generalizing b s with
  | nil =>
    rw [List.flatten_nil, List.append_nil, List.take_of_length_le h.cabe]
    exact h
  | cons p ps ih =>
    unfold http_laco
    by_cases hlt : s.total < m.max_size
    · rw [if_pos hlt]
      have hstep := ih (h.parte (hp p List.mem_cons_self) hlt) fun q hq =>
        hp q (List.mem_cons_of_mem p hq)
      rwa [take_take_append, List.append_assoc, ← List.flatten_cons] at hstep
    · rw [if_neg hlt]
      have hge : m.max_size.toNat ≤ b.length := by
        rw [← h.total]
        exact Nat.le_of_not_lt hlt
      have htake : (b ++ (p :: ps).flatten).take m.max_size.toNat = b := by
        rw [List.take_append_of_le_length hge, List.take_of_length_le h.cabe]
      rw [htake]
      exact h

/-- Parts without the end of a header are passed over. -/
theorem http_laco_antes {antes : List (List UInt8)} (hmax : m.max_size ≠ 0)
    (h : ∀ p ∈ antes, header_end_pos p = none) :
    http_laco m.max_size (antes ++ partes) ⟨out_buf, 0, false⟩ =
      http_laco m.max_size partes ⟨out_buf, 0, false⟩ := by
  induction antes with
  | nil => rfl
  | cons p ps ih =>
    have hpos : (0 : UInt32) < m.max_size := UInt32.pos_iff_ne_zero.mpr hmax
    rw [List.cons_append, http_laco, if_pos hpos]
    have hp : recebe_parte m.max_size ⟨out_buf, 0, false⟩ p = ⟨out_buf, 0, false⟩ := by
      unfold recebe_parte
      rw [h p List.mem_cons_self]
      rfl
    rw [hp, ih fun q hq => h q (List.mem_cons_of_mem p hq)]

/-- The part with the end of the header: what it has behind it is stored where all of it fits. -/
theorem recebe_header {k : Nat} (h : header_end_pos buf = some k) (hk : k ≤ buf.length)
    (hp : buf.length ≤ 256) :
    Guardou m out_buf (if buf.length - k ≤ m.max_size.toNat then buf.drop k else [])
      (recebe_parte m.max_size ⟨out_buf, 0, false⟩ buf) := by
  have hn := toNat_length hp
  have hkn : (UInt32.ofNat k).toNat = k := by
    rw [UInt32.toNat_ofNat']
    omega
  have hbody : (UInt32.ofNat buf.length - UInt32.ofNat k).toNat = buf.length - k := by
    rw [UInt32.toNat_sub_of_le, hn, hkn]
    rw [UInt32.le_iff_toNat_le, hn, hkn]
    exact hk
  have hle : (0 : UInt32) + (UInt32.ofNat buf.length - UInt32.ofNat k) ≤ m.max_size ↔
      buf.length - k ≤ m.max_size.toNat := by
    rw [UInt32.zero_add, UInt32.le_iff_toNat_le, hbody]
  have hpos : UInt32.ofNat buf.length - UInt32.ofNat k > 0 ↔ 0 < buf.length - k := by
    rw [gt_iff_lt, UInt32.lt_iff_toNat_lt, hbody]
    rfl
  unfold recebe_parte
  dsimp only
  rw [if_pos Bool.false_ne_true, h]
  dsimp only
  by_cases hfit : buf.length - k ≤ m.max_size.toNat
  · rw [if_pos hfit]
    by_cases h0 : 0 < buf.length - k
    · rw [if_pos ⟨hpos.mpr h0, hle.mpr hfit⟩]
      refine ⟨by rw [List.length_drop]; exact hfit, ?_, rfl, rfl⟩
      rw [UInt32.zero_add, hbody, List.length_drop]
    · rw [if_neg fun hc => h0 (hpos.mp hc.1), List.drop_eq_nil_of_le (by omega)]
      exact ⟨Nat.zero_le _, rfl, (copia_nil out_buf 0).symm, rfl⟩
  · rw [if_neg hfit, if_neg fun hc => hfit (hle.mp hc.2)]
    exact ⟨Nat.zero_le _, rfl, (copia_nil out_buf 0).symm, rfl⟩

end Laco

/-! ## The run on a response -/

section Resposta

variable {e : Envio} {m : Saida} {out_buf : Memory} {body : List UInt8}
  {partes : List (List UInt8)} {antes depois : List Nat} {n : Nat}

theorem length_header (e : Envio) : e.header.length = e.inicio.length + 4 := List.length_append

theorem fim_do_header (e : Envio) (body : List UInt8) :
    TemFim (e.header ++ body) e.inicio.length := by
  unfold TemFim Envio.header
  rw [List.append_assoc, List.drop_left]
  exact List.prefix_append _ _

theorem sem_fim_antes (body : List UInt8) {i : Nat} (hi : i < e.inicio.length) :
    ¬ TemFim (e.header ++ body) i := by
  intro h
  have hlen := length_header e
  refine e.primeiro i hi (TemFim.of_append [] body ?_ ?_)
  · rw [List.nil_append, List.length_nil, Nat.zero_add]
    exact h
  · change i + 4 ≤ e.header.length
    omega

/-- A part of the response and what comes before it. -/
theorem Envio.Corta.parte (h : e.Corta body partes) (ht : e.tams = antes ++ n :: depois) :
    ∃ ps p qs, partes = ps ++ p :: qs ∧ ps.flatten.length = antes.sum ∧ p.length = n := by
  have hmap := h.tams
  rw [ht] at hmap
  obtain ⟨ps, rs, rfl, hps, hrs⟩ := List.map_eq_append_iff.mp hmap
  obtain ⟨p, qs, rfl, hp, -⟩ := List.map_eq_cons_iff.mp hrs
  exact ⟨ps, p, qs, rfl, by rw [List.length_flatten, hps], hp⟩

theorem Envio.Corta.le (h : e.Corta body partes) {p : List UInt8} (hp : p ∈ partes) :
    p.length ≤ 256 := by
  refine (e.partes p.length ?_).2
  rw [← h.tams]
  exact List.mem_map_of_mem hp

/-- The end of a header in a part is one in the response. -/
theorem Envio.Corta.temFim (h : e.Corta body partes) {ps qs : List (List UInt8)} {p : List UInt8}
    (hp : partes = ps ++ p :: qs) {i : Nat} (hi : TemFim p i) :
    TemFim (e.header ++ body) (ps.flatten.length + i) := by
  have hw := hi.append ps.flatten qs.flatten
  rwa [List.append_assoc, ← List.flatten_cons, ← List.flatten_append, ← hp, h.bytes] at hw

/-- Where a part holds the whole end of the header: what is stored. What this part has behind the
header is left out where it does not fit. -/
theorem run_com_fim (h : e.Corta body partes) (hmax : m.max_size ≠ 0)
    (ht : e.tams = antes ++ n :: depois) (hf : e.FimEm antes n) :
    Guardou m out_buf
      ((if antes.sum + n - e.header.length ≤ m.max_size.toNat then body
        else body.drop (antes.sum + n - e.header.length)).take m.max_size.toNat)
      (http_laco m.max_size partes ⟨out_buf, 0, false⟩) := by
  obtain ⟨ps, p, qs, hpartes, hps, hpn⟩ := h.parte ht
  obtain ⟨hf1, hf2⟩ := hf
  have hlen := length_header e
  have hbytes := h.bytes
  rw [hpartes, List.flatten_append, List.flatten_cons, ← List.append_assoc] at hbytes
  -- the parts before it have no end of a header
  have hantes : ∀ q ∈ ps, header_end_pos q = none := by
    intro q hq
    refine header_end_pos_eq_none fun i hi => ?_
    obtain ⟨as, bs, rfl⟩ := List.append_of_mem hq
    have hle := hi.le
    have hqs : partes = as ++ q :: (bs ++ p :: qs) := by
      rw [hpartes, List.append_assoc, List.cons_append]
    have hw := h.temFim hqs hi
    rw [List.flatten_append, List.flatten_cons, List.length_append, List.length_append] at hps
    exact sem_fim_antes body (by omega) hw
  have hfim : header_end_pos p = some (e.inicio.length - antes.sum + 4) := by
    refine header_end_pos_eq_some ?_ fun j hj hfim => ?_
    · refine TemFim.of_append ps.flatten qs.flatten ?_ (by omega)
      rw [hbytes, hps, Nat.add_sub_cancel' (by omega)]
      exact fim_do_header e body
    · have hw := h.temFim hpartes hfim
      exact sem_fim_antes body (by omega) hw
  have hcorpo : body = p.drop (e.inicio.length - antes.sum + 4) ++ qs.flatten := by
    have hd := congrArg (List.drop e.header.length) hbytes
    rw [List.drop_left, List.append_assoc, List.drop_append, List.drop_eq_nil_of_le (by omega),
      List.nil_append, List.drop_append_of_le_length (by omega)] at hd
    rw [← hd]
    congr 2
    omega
  have hresto : p.length - (e.inicio.length - antes.sum + 4) =
      antes.sum + n - e.header.length := by omega
  have hp256 : p.length ≤ 256 := h.le (hpartes ▸ List.mem_append_right _ List.mem_cons_self)
  have hqs256 : ∀ q ∈ qs, q.length ≤ 256 := fun q hq =>
    h.le (hpartes ▸ List.mem_append_right _ (List.mem_cons_of_mem p hq))
  have hp : Guardou m out_buf _ _ := recebe_header hfim (by omega) hp256
  have hg := hp.laco hqs256
  rw [hpartes, http_laco_antes hmax hantes, http_laco,
    if_pos (UInt32.pos_iff_ne_zero.mpr hmax)]
  rw [hresto] at hg
  by_cases hfit : antes.sum + n - e.header.length ≤ m.max_size.toNat
  · rw [if_pos hfit, ← hcorpo] at hg
    rwa [if_pos hfit]
  · rw [if_neg hfit, List.nil_append] at hg
    have hdrop : body.drop (antes.sum + n - e.header.length) = qs.flatten := by
      rw [hcorpo, List.drop_append, List.drop_eq_nil_of_le (by rw [List.length_drop]; omega),
        List.nil_append, List.length_drop, hresto, Nat.sub_self, List.drop_zero]
    rwa [if_neg hfit, hdrop]

/-- Where no part holds the whole end of the header, and the body has no line feed: all is passed
over. -/
theorem run_sem_fim (h : e.Corta body partes) (hmax : m.max_size ≠ 0) (hb : 10 ∉ body)
    (hno : ∀ antes n depois, e.tams = antes ++ n :: depois → ¬ e.FimEm antes n) :
    http_laco m.max_size partes ⟨out_buf, 0, false⟩ = ⟨out_buf, 0, false⟩ := by
  have hlen := length_header e
  have hnone : ∀ p ∈ partes, header_end_pos p = none := by
    intro p hp
    refine header_end_pos_eq_none fun i hi => ?_
    obtain ⟨ps, qs, hpartes⟩ := List.append_of_mem hp
    have hle := hi.le
    have hw := h.temFim hpartes hi
    rcases Nat.lt_trichotomy (ps.flatten.length + i) e.inicio.length with hlt | heq | hgt
    · exact sem_fim_antes body hlt hw
    · have hsum : (ps.map List.length).sum = ps.flatten.length := List.length_flatten.symm
      have htams : e.tams = ps.map List.length ++ p.length :: qs.map List.length := by
        rw [← h.tams, hpartes, List.map_append, List.map_cons]
      exact hno _ _ _ htams ⟨by omega, by omega⟩
    · -- the last byte of it would lie in the body
      obtain ⟨t, ht⟩ := hw
      have hbyte : (FIM_HEADER ++ t)[3]? = _ := congrArg (fun l : List UInt8 => l[3]?) ht
      rw [List.getElem?_append_left (by decide), List.getElem?_drop,
        List.getElem?_append_right (by omega)] at hbyte
      exact hb (List.mem_of_getElem? hbyte.symm)
  have hrun : http_laco m.max_size (partes ++ []) ⟨out_buf, 0, false⟩ = _ :=
    http_laco_antes hmax hnone
  rwa [List.append_nil] at hrun

theorem certo_of_guardou {path repo_host : List UInt8}
    (h : Guardou m out_buf (body.take m.max_size.toNat)
      (http_laco m.max_size partes ⟨out_buf, 0, false⟩)) :
    (http_get path repo_host out_buf m.max_size partes).out_len.toNat =
        min m.max_size.toNat body.length ∧
      (http_get path repo_host out_buf m.max_size partes).out_buf =
        copia out_buf 0 (body.take m.max_size.toNat) := by
  refine ⟨?_, h.bytes⟩
  rw [← List.length_take]
  exact h.total

/-- Where nothing is stored and nothing is to be stored. -/
theorem certo_sem_nada {path repo_host : List UInt8}
    (hrun : http_laco m.max_size partes ⟨out_buf, 0, false⟩ = ⟨out_buf, 0, false⟩)
    (hbody : body.take m.max_size.toNat = []) :
    (http_get path repo_host out_buf m.max_size partes).out_len.toNat =
        min m.max_size.toNat body.length ∧
      (http_get path repo_host out_buf m.max_size partes).out_buf =
        copia out_buf 0 (body.take m.max_size.toNat) := by
  unfold http_get
  dsimp only
  rw [hrun, ← List.length_take, hbody, copia_nil]
  exact ⟨rfl, rfl⟩

theorem Envio.Inteiro.certo (h : e.Inteiro m) : e.Certo m := by
  intro path repo_host out_buf body partes hc
  dsimp only
  by_cases hmax : m.max_size = 0
  · refine certo_sem_nada ?_ (by rw [hmax]; rfl)
    cases partes with
    | nil => rfl
    | cons p ps =>
      rw [hmax]
      rfl
  by_cases hfim : ∃ antes n depois, e.tams = antes ++ n :: depois ∧ e.FimEm antes n
  · rcases h with h0 | h0 | ⟨antes, n, depois, ht, hf, hfit⟩
    · exact absurd h0 hmax
    · obtain ⟨antes, n, depois, ht, hf⟩ := hfim
      have hnil : body = [] := List.length_eq_zero_iff.mp (hc.corpo.trans h0)
      have hg : Guardou m out_buf _ _ := run_com_fim hc hmax ht hf
      rw [hnil, List.drop_nil, ite_self] at hg
      rw [hnil]
      exact certo_of_guardou hg
    · have hg : Guardou m out_buf _ _ := run_com_fim hc hmax ht hf
      rw [if_pos hfit] at hg
      exact certo_of_guardou hg
  · rcases h with h0 | h0 | ⟨antes, n, depois, ht, hf, -⟩
    · exact absurd h0 hmax
    · have hnil : body = [] := List.length_eq_zero_iff.mp (hc.corpo.trans h0)
      subst hnil
      exact certo_sem_nada (run_sem_fim hc hmax (by simp) fun antes n depois ht hf =>
        hfim ⟨antes, n, depois, ht, hf⟩) List.take_nil
    · exact absurd ⟨antes, n, depois, ht, hf⟩ hfim

/-- The parts of the response with a given body. -/
theorem Envio.corta_de (h : body.length = e.corpo) :
    e.Corta body (e.tams.splitLengths (e.header ++ body)) := by
  have hlen : (e.header ++ body).length = e.header.length + e.corpo := by
    rw [List.length_append, h]
  have hsum : e.tams.sum = (e.header ++ body).length := e.soma.trans hlen.symm
  exact ⟨h, List.map_splitLengths_length _ _ hsum.le, List.flatten_splitLengths _ _ hsum.ge⟩

theorem Envio.Certo.inteiro (h : e.Certo m) : e.Inteiro m := by
  by_contra hno
  obtain ⟨hmax, hcorpo, hfit⟩ : m.max_size ≠ 0 ∧ e.corpo ≠ 0 ∧
      ∀ antes n depois, e.tams = antes ++ n :: depois → e.FimEm antes n →
        ¬ antes.sum + n - e.header.length ≤ m.max_size.toNat := by
    refine ⟨fun h0 => hno (Or.inl h0), fun h0 => hno (Or.inr (Or.inl h0)), ?_⟩
    exact fun antes n depois ht hf hle => hno (Or.inr (Or.inr ⟨antes, n, depois, ht, hf, hle⟩))
  have hpos : 0 < m.max_size.toNat :=
    Nat.pos_of_ne_zero fun h0 => hmax (UInt32.toNat_inj.mp h0)
  by_cases hfim : ∃ antes n depois, e.tams = antes ++ n :: depois ∧ e.FimEm antes n
  · -- zeros for what is left out, and ones behind it
    obtain ⟨antes, n, depois, ht, hf⟩ := hfim
    have hlt := hfit antes n depois ht hf
    have hsum := e.soma
    have hhdr : e.header.length = (e.inicio ++ FIM_HEADER).length := rfl
    rw [ht, List.sum_append, List.sum_cons, ← hhdr] at hsum
    obtain ⟨k, hk⟩ : ∃ k, k = antes.sum + n - e.header.length := ⟨_, rfl⟩
    rw [← hk] at hlt
    have hb : (List.replicate k (0 : UInt8) ++ List.replicate (e.corpo - k) 1).length =
        e.corpo := by
      rw [List.length_append, List.length_replicate, List.length_replicate]
      omega
    have hc := Envio.corta_de hb
    have hg : Guardou m (fun _ => 0) _ _ := run_com_fim hc hmax ht hf
    obtain ⟨hlen, hbytes⟩ := h [] [] (fun _ => 0) _ _ hc
    rw [← hk, if_neg hlt, List.drop_left' List.length_replicate] at hg
    have htotal := hg.total
    rw [List.length_take, List.length_replicate] at htotal
    have htotal' := hlen.symm.trans htotal
    rw [hb] at htotal'
    have hfirst := congrFun (hbytes.symm.trans hg.bytes) 0
    have hcopia : ∀ l : List UInt8, copia (fun _ => 0) 0 l 0 = l.getD 0 0 := fun l => rfl
    rw [hcopia, hcopia, List.getD_eq_getElem?_getD, List.getD_eq_getElem?_getD,
      List.getElem?_take_of_lt hpos, List.getElem?_take_of_lt hpos,
      List.getElem?_append_left (by rw [List.length_replicate]; omega),
      List.getElem?_replicate_of_lt (by omega), List.getElem?_replicate_of_lt (by omega)] at hfirst
    exact absurd hfirst (by decide)
  · have hb : (List.replicate e.corpo (0 : UInt8)).length = e.corpo := List.length_replicate
    have hc := Envio.corta_de hb
    have hrun : http_laco m.max_size _ ⟨fun _ => 0, 0, false⟩ = _ :=
      run_sem_fim hc hmax (by simp) fun antes n depois ht hf => hfim ⟨antes, n, depois, ht, hf⟩
    have hlen := (h [] [] (fun _ => 0) _ _ hc).1
    unfold http_get at hlen
    dsimp only at hlen
    rw [hrun, hb] at hlen
    change 0 = min _ _ at hlen
    omega

/-- The body of a response is stored exactly as far as it fits, for each cut into these parts, exactly
where there is nothing to store, or one part holds the whole end of the header and what it has behind
it fits. The search looks at one part alone, and what does not fit of the first part is left out. -/
theorem the_body_is_stored_iff (e : Envio) (m : Saida) : e.Certo m ↔ e.Inteiro m :=
  ⟨Envio.Certo.inteiro, Envio.Inteiro.certo⟩

end Resposta

/-- A response whose header is cut in its end: CR LF, CR LF and one byte. -/
def envio_cortado : Envio where
  inicio := []
  corpo := 1
  tams := [2, 3]
  primeiro := nofun
  partes := by decide
  soma := rfl

theorem a_header_cut_in_its_end_loses_the_body : ¬ ∀ (e : Envio) (m : Saida), e.Certo m := by
  intro h
  have hc : envio_cortado.Corta [65] [[13, 10], [13, 10, 65]] := ⟨rfl, rfl, rfl⟩
  have hlen := (h envio_cortado ⟨1024, by decide⟩ [] [] (fun _ => 0) _ _ hc).1
  exact absurd hlen (by decide)

end SpaceOS.Pkg
