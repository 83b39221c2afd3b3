-- What `pkg_remote_search` prints of any response, and where it reads and writes: the lines with
-- the query, as long as the list leaves room for its zero and has none itself.
import SpaceOS.HttpBody
import SpaceOS.Lib.Lines
import SpaceOS.Lib.Text

open Lib.Bytes Lib.Lines Lib.Text SpaceOS.Net

namespace SpaceOS.Pkg

/-! ## A text in the buffer -/

/-- The text `t` stands at `p`, with its zero. -/
def Texto (buf : Memory) : Nat → List UInt8 → Prop
  | p, [] => p < LIST_BUF ∧ buf p = 0
  | p, c :: t => p < LIST_BUF ∧ buf p = c ∧ c ≠ 0 ∧ Texto buf (p + 1) t

section Textos

variable {buf : Memory} {p : Nat} {t l q : List UInt8} {c : UInt8}

theorem le_lista_eq (h : p < LIST_BUF) : le_lista buf p = some (buf p) := if_pos h

theorem texto_iff : Texto buf p t ↔ TextAt LIST_BUF buf p t := by
  induction t generalizing p with
  | nil => exact Iff.rfl
  | cons c t ih => exact and_congr_right' (and_congr_right' (and_congr_right' ih))

theorem Texto.lt (h : Texto buf p t) : p + t.length < LIST_BUF := (texto_iff.mp h).lt

/-- A zero written behind a line makes it a text, and leaves what comes behind it. -/
theorem Texto.corta (h : Texto buf p (l ++ c :: t)) :
    poe_lista buf (p + l.length) 0 = some (putByte buf (p + l.length) 0) ∧
      buf (p + l.length) = c ∧ Texto (putByte buf (p + l.length) 0) p l ∧
      Texto (putByte buf (p + l.length) 0) (p + l.length + 1) t := by
  have ht := texto_iff.mp h
  have hlt := ht.drop.1
  exact ⟨if_pos hlt, ht.drop.2.1, texto_iff.mpr ht.cut, texto_iff.mpr ht.behind_cut⟩

/-! ## The loops -/

theorem fim_da_linha_scan (n p : Nat) :
    fim_da_linha buf n p = scan LIST_BUF (fun c => ¬ (c ≠ 0 ∧ c ≠ 10)) buf n p := by
  induction n generalizing p with
  | zero => rfl
  | succ n ih =>
    rw [fim_da_linha, scan]
    refine congrArg _ (funext fun c => ?_)
    by_cases hc : c ≠ 0 ∧ c ≠ 10
    · rw [if_pos hc, if_neg (by simpa using hc), ih]
    · rw [if_neg hc, if_pos (decide_eq_true hc)]

theorem fim_da_linha_eq {r : List UInt8} (h : Texto buf p (l ++ r)) (hl : 10 ∉ l)
    (hr : r = [] ∨ ∃ t, r = 10 :: t) {n : Nat} (hn : l.length < n) :
    fim_da_linha buf n p = some (p + l.length) := by
  rw [fim_da_linha_scan]
  refine (texto_iff.mp h).scan_eq (fun c hc => ?_) ?_ hn
  · have h0 : c ≠ 0 := fun h0 => (texto_iff.mp h).zero_not_mem (h0 ▸ List.mem_append_left r hc)
    have h10 : c ≠ 10 := fun h10 => hl (h10 ▸ hc)
    exact decide_eq_false fun hn => hn ⟨h0, h10⟩
  · rcases hr with rfl | ⟨t, rfl⟩ <;> rfl

theorem texto_em_eq (h : Texto buf p t) {n : Nat} (hn : t.length < n) :
    texto_em buf n p = some t := by
  induction t generalizing p n with
  | nil =>
    obtain ⟨n, rfl⟩ : ∃ m, n = m + 1 := ⟨n - 1, by omega⟩
    rw [texto_em, le_lista_eq h.1, Option.bind_some, if_pos h.2]
  | cons c t ih =>
    rw [List.length_cons] at hn
    obtain ⟨n, rfl⟩ : ∃ m, n = m + 1 := ⟨n - 1, by omega⟩
    rw [texto_em, le_lista_eq h.1, Option.bind_some, h.2.1, if_neg h.2.2.1, ih h.2.2.2 (by omega)]
    rfl

theorem casa_eq (h : Texto buf p t) (hq : 0 ∉ q) : casa buf p q = some (decide (q <+: t)) := by
  induction q generalizing p t with
  | nil => rw [casa, decide_eq_true (List.nil_prefix)]
  | cons b q ih =>
    obtain ⟨hb, hq'⟩ := List.ne_and_not_mem_of_not_mem_cons hq
    rw [casa]
    cases t with
    | nil =>
      rw [le_lista_eq h.1, Option.bind_some, h.2, if_neg hb, decide_eq_false (by simp)]
    | cons c t =>
      rw [le_lista_eq h.1, Option.bind_some, h.2.1]
      by_cases hcb : c = b
      · rw [if_pos hcb, ih h.2.2.2 hq', hcb]
        simp
      · rw [if_neg hcb, decide_eq_false fun hp => hcb (List.cons_prefix_cons.mp hp).1.symm]

theorem acha_eq (h : Texto buf p t) (hq : 0 ∉ q) (hne : q ≠ []) {n : Nat} (hn : t.length < n) :
    acha buf q n p = some (decide (q <:+: t)) := by
  induction t generalizing p n with
  | nil =>
    obtain ⟨n, rfl⟩ : ∃ m, n = m + 1 := ⟨n - 1, by omega⟩
    rw [acha, le_lista_eq h.1, Option.bind_some, if_pos h.2,
      decide_eq_false fun hi => hne (List.infix_nil.mp hi)]
  | cons c t ih =>
    rw [List.length_cons] at hn
    obtain ⟨n, rfl⟩ : ∃ m, n = m + 1 := ⟨n - 1, by omega⟩
    have hresto := ih h.2.2.2 (n := n) (by omega)
    rw [acha, le_lista_eq h.1, Option.bind_some, h.2.1, if_neg h.2.2.1, casa_eq h hq]
    by_cases hp : q <+: c :: t
    · obtain ⟨b, q', rfl⟩ := List.exists_cons_of_ne_nil hne
      have hhead : (b :: q').head? = some c := congrArg some (List.cons_prefix_cons.mp hp).1
      rw [if_pos hhead, decide_eq_true hp, decide_eq_true (List.infix_cons_iff.mpr (Or.inl hp))]
      rfl
    · have hiff : q <:+: c :: t ↔ q <:+: t :=
        List.infix_cons_iff.trans (or_iff_right hp)
      rw [decide_eq_false hp, Option.bind_some, if_neg Bool.false_ne_true, ite_self, hresto,
        decide_eq_decide.mpr hiff]

theorem Texto.fim (h : Texto buf p t) : buf (p + t.length) = 0 := by
  have ht := texto_iff.mp h
  rw [← List.append_nil t] at ht
  exact ht.drop.2

/-- The bytes of the buffer up to the first zero. -/
theorem texto_de {body : List UInt8} (hb : ∀ j (hj : j < body.length), buf (p + j) = body[j])
    (h0 : buf (p + body.length) = 0) (hlt : p + body.length < LIST_BUF) :
    Texto buf p (body.takeWhile (· ≠ 0)) := by
  induction body generalizing p with
  | nil => exact ⟨hlt, h0⟩
  | cons c t ih =>
    rw [List.length_cons, ← Nat.add_assoc, Nat.add_right_comm] at h0 hlt
    have hc : buf p = c := hb 0 (Nat.succ_pos _)
    by_cases hz : c = 0
    · rw [List.takeWhile_cons_of_neg (by simpa using hz)]
      exact ⟨by omega, hc.trans hz⟩
    · have hresto := ih (p := p + 1) (fun j hj => by
        rw [Nat.add_right_comm]
        exact hb (j + 1) (Nat.succ_lt_succ hj)) h0 hlt
      rw [List.takeWhile_cons_of_pos (by simpa using hz)]
      exact ⟨by omega, hc, hz, hresto⟩

/-- The line contains the query. -/
def Contem (query l : List UInt8) : Bool := decide (query <:+: l)

variable {query : List UInt8}

theorem mostra_eq (hq : 0 ∉ query) (h : Texto buf p l) :
    (if query = [] then some true else acha buf query VOLTAS_LISTA p) = some (Contem query l) := by
  by_cases hne : query = []
  · rw [if_pos hne, hne]
    exact congrArg some (decide_eq_true List.nil_infix).symm
  · have hlt := h.lt
    rw [if_neg hne, acha_eq h hq hne (by unfold VOLTAS_LISTA; omega)]
    rfl

theorem linha_eq (h : Texto buf p l) (found : Bool) :
    (if found then (texto_em buf VOLTAS_LISTA p).map fun l => [l] else some []) =
      some (if found then [l] else []) := by
  have hlt := h.lt
  rw [texto_em_eq h (by unfold VOLTAS_LISTA; omega)]
  cases found <;> rfl

theorem le_lista_inicio (h : Texto buf p t) (hne : t ≠ []) :
    le_lista buf p = some (buf p) ∧ buf p ≠ 0 := by
  obtain ⟨c, t', rfl⟩ := List.exists_cons_of_ne_nil hne
  exact ⟨le_lista_eq h.1, h.2.1.symm ▸ h.2.2.1⟩

/-- One turn, at a line that ends with a line feed. -/
theorem lista_linha (hq : 0 ∉ query) (h : Texto buf p (l ++ 10 :: t)) (hl : 10 ∉ l) (n : Nat) :
    lista query (n + 1) buf p =
      (lista query n (putByte buf (p + l.length) 0) (p + l.length + 1)).map fun r =>
        ((if Contem query l then [l] else []) ++ r.1, r.2) := by
  have hlt := h.lt
  rw [List.length_append, List.length_cons] at hlt
  obtain ⟨hpoe, hdez, hlinha, -⟩ := h.corta
  obtain ⟨hle, h0⟩ := le_lista_inicio h (by simp)
  have hfim := fim_da_linha_eq (n := VOLTAS_LISTA) h hl (Or.inr ⟨t, rfl⟩)
    (by unfold VOLTAS_LISTA; omega)
  rw [lista, hle, Option.bind_some, if_neg h0, hfim, Option.bind_some, le_lista_eq (by omega),
    Option.bind_some, hdez, if_pos rfl, hpoe, Option.bind_some, mostra_eq hq hlinha,
    Option.bind_some, linha_eq hlinha, Option.bind_some, if_pos rfl]

/-- One turn, at a line that ends with the text. -/
theorem lista_ultima (hq : 0 ∉ query) (h : Texto buf p l) (hl : 10 ∉ l) (hne : l ≠ []) (n : Nat) :
    lista query (n + 1) buf p = (lista query n buf (p + l.length)).map fun r =>
      ((if Contem query l then [l] else []) ++ r.1, r.2) := by
  have hlt := h.lt
  obtain ⟨hle, h0⟩ := le_lista_inicio h hne
  have hfim := fim_da_linha_eq (n := VOLTAS_LISTA) (l := l) (r := [])
    (by rw [List.append_nil]; exact h) hl (Or.inl rfl) (by unfold VOLTAS_LISTA; omega)
  have hdez : ¬ (0 : UInt8) = 10 := by decide
  rw [lista, hle, Option.bind_some, if_neg h0, hfim, Option.bind_some, le_lista_eq hlt,
    Option.bind_some, h.fim, if_neg hdez, Option.bind_some, mostra_eq hq h, Option.bind_some,
    linha_eq h, Option.bind_some, if_neg hdez]

theorem lista_fim (h : Texto buf p []) (n : Nat) : lista query (n + 1) buf p = some ([], buf) := by
  rw [lista, le_lista_eq h.1, Option.bind_some, if_pos h.2]

/-- The loop shows the lines with the query. -/
theorem lista_eq (hq : 0 ∉ query) (h : Texto buf p t) {n : Nat} (hn : t.length < n) :
    ∃ buf', lista query n buf p = some ((lines 10 t).filter (Contem query), buf') ∧
      ∀ i, LIST_BUF ≤ i → buf' i = buf i := by
  induction n generalizing buf p t with
  | zero => exact absurd hn (Nat.not_lt_zero _)
  | succ n ih =>
    have hlt := h.lt
    rcases eq_or_ne t [] with rfl | hne
    · exact ⟨buf, lista_fim h n, fun _ _ => rfl⟩
    by_cases hnl : 10 ∈ t
    · obtain ⟨l, r, rfl, hl⟩ := List.eq_append_cons_of_mem hnl
      rw [List.length_append, List.length_cons] at hn hlt
      obtain ⟨-, -, -, hresto⟩ := h.corta
      obtain ⟨buf', he, hfora⟩ := ih hresto (by omega)
      refine ⟨buf', ?_, fun i hi => (hfora i hi).trans (putByte_ne _ _ (by omega))⟩
      rw [lista_linha hq h hl, he, lines_append_nl hl, List.filter_cons]
      cases Contem query l <;> rfl
    · have hpos := List.length_pos_iff.mpr hne
      obtain ⟨buf', he, hfora⟩ := ih (t := []) (p := p + t.length) ⟨hlt, h.fim⟩
        (by rw [List.length_nil]; omega)
      refine ⟨buf', ?_, hfora⟩
      rw [lista_ultima hq h hnl hne, he, lines_of_not_mem hnl hne, List.filter_cons]
      cases Contem query t <;> rfl

end Textos

/-! ## What is received -/

/-- The bytes behind the first end of a header that one part holds. -/
def corpo_recebido : List (List UInt8) → List UInt8
  | [] => []
  | p :: ps => (header_end_pos p).elim (corpo_recebido ps) fun k => p.drop k ++ ps.flatten

/-- The calls before `http_get` have succeeded. -/
def Conexao.Aberta (c : Conexao) : Prop := c.rtl8139_ready = true ∧ c.server_ip ≠ 0 ∧ 0 ≤ c.sock

instance (c : Conexao) : Decidable c.Aberta := inferInstanceAs (Decidable (_ ∧ _))

/-- The body, or nothing without a connection. -/
def recebido (c : Conexao) (partes : List (List UInt8)) : List UInt8 :=
  if c.Aberta then corpo_recebido partes else []

section Recebido

variable {list_buf : Memory} {partes : List (List UInt8)} {l : List UInt8} {m : Saida}

theorem header_end_pos_le {k : Nat} (h : header_end_pos l = some k) : k ≤ l.length := by
  induction l generalizing k with
  | nil => exact absurd h (by simp [header_end_pos])
  | cons b p ih =>
    rw [header_end_pos] at h
    split at h
    · rename_i htake
      have hlen := congrArg List.length htake
      rw [List.length_take] at hlen
      obtain rfl := Option.some.inj h
      change _ = 4 at hlen
      omega
    · obtain ⟨k, hk, rfl⟩ := Option.map_eq_some_iff.mp h
      exact Nat.succ_le_succ (ih hk)

/-- The loop of `http_get` takes the body as far as it fits. -/
theorem http_laco_corpo (hm : 256 ≤ m.max_size.toNat) (hp : ∀ p ∈ partes, p.length ≤ 256) :
    (http_laco m.max_size partes ⟨list_buf, 0, false⟩).total.toNat =
        min m.max_size.toNat (corpo_recebido partes).length ∧
      (http_laco m.max_size partes ⟨list_buf, 0, false⟩).out_buf =
        copia list_buf 0 ((corpo_recebido partes).take m.max_size.toNat) := by
  induction partes with
  | nil =>
    rw [corpo_recebido, List.take_nil, copia_nil]
    exact ⟨(Nat.min_zero _).symm, rfl⟩
  | cons p ps ih =>
    have hps : ∀ q ∈ ps, q.length ≤ 256 := fun q hq => hp q (List.mem_cons_of_mem p hq)
    have hpos : (0 : UInt32) < m.max_size := UInt32.lt_iff_toNat_lt.mpr (by
      change 0 < _
      omega)
    rw [http_laco, if_pos hpos, corpo_recebido]
    cases hk : header_end_pos p with
    | none =>
      have hnada : recebe_parte m.max_size ⟨list_buf, 0, false⟩ p = ⟨list_buf, 0, false⟩ := by
        unfold recebe_parte
        rw [hk]
        rfl
      rw [hnada]
      exact ih hps
    | some k =>
      have hle := hp p List.mem_cons_self
      have hcabe : p.length - k ≤ m.max_size.toNat := by omega
      have hh : Guardou m list_buf (if p.length - k ≤ m.max_size.toNat then p.drop k else [])
          (recebe_parte m.max_size ⟨list_buf, 0, false⟩ p) :=
        recebe_header hk (header_end_pos_le hk) hle
      rw [if_pos hcabe] at hh
      have hg := hh.laco hps
      refine ⟨?_, hg.bytes⟩
      rw [hg.total, List.length_take]
      rfl

theorem http_get_corpo (path repo_host : List UInt8) (list_buf : Memory)
    (hp : ∀ p ∈ partes, p.length ≤ 256) :
    (http_get path repo_host list_buf (UInt32.ofNat LIST_BUF) partes).out_len.toNat =
        min LIST_BUF (corpo_recebido partes).length ∧
      (http_get path repo_host list_buf (UInt32.ofNat LIST_BUF) partes).out_buf =
        copia list_buf 0 ((corpo_recebido partes).take LIST_BUF) :=
  http_laco_corpo (m := ⟨UInt32.ofNat LIST_BUF, by decide⟩) (by decide) hp

/-- It fails exactly if there is no body. -/
theorem http_get_vazio (path repo_host : List UInt8) (list_buf : Memory)
    (hp : ∀ p ∈ partes, p.length ≤ 256) :
    (http_get path repo_host list_buf (UInt32.ofNat LIST_BUF) partes).retorno < 0 ∨
        (http_get path repo_host list_buf (UInt32.ofNat LIST_BUF) partes).out_len = 0 ↔
      corpo_recebido partes = [] := by
  obtain ⟨hlen, -⟩ := http_get_corpo path repo_host list_buf hp
  have hret : (http_get path repo_host list_buf (UInt32.ofNat LIST_BUF) partes).retorno =
      if (http_get path repo_host list_buf (UInt32.ofNat LIST_BUF) partes).out_len > 0 then 0
      else -1 := rfl
  have hmax : LIST_BUF = 4096 := rfl
  rw [hret, ← List.length_eq_zero_iff, ← UInt32.toNat_inj, UInt32.toNat_zero, hlen]
  by_cases h0 : (corpo_recebido partes).length = 0
  · exact iff_of_true (Or.inr (by omega)) h0
  · have hpos : (http_get path repo_host list_buf (UInt32.ofNat LIST_BUF) partes).out_len > 0 := by
      refine UInt32.lt_iff_toNat_lt.mpr ?_
      rw [hlen, UInt32.toNat_zero]
      omega
    rw [if_pos hpos]
    exact iff_of_false (by omega) h0

end Recebido

/-! ## The law -/

/-- The lines of the list among what is written. -/
def Escrito.da_lista : Escrito → Option (List UInt8)
  | .texto _ => none
  | .linha l => some l

section Lei

variable (c : Conexao) (repo_host : List UInt8) (list_buf : Memory) (query : List UInt8)
  (partes : List (List UInt8))

/-- The search ends, with no access outside of its buffer, and shows the lines of the body that
contain the query. -/
def Mostra : Prop :=
  ∃ r, pkg_remote_search c repo_host list_buf query partes = some r ∧
    r.escrito.filterMap Escrito.da_lista =
      (lines 10 (recebido c partes)).filter (Contem query) ∧
    ∀ i, LIST_BUF ≤ i → r.list_buf i = list_buf i

variable {c repo_host list_buf query partes}

theorem mostra_sem_conexao (h : ¬ c.Aberta) : Mostra c repo_host list_buf query partes := by
  have hnada : recebido c partes = [] := if_neg h
  unfold Mostra
  rw [hnada]
  unfold pkg_remote_search
  by_cases h1 : c.rtl8139_ready = false
  · rw [if_pos h1]
    exact ⟨_, rfl, rfl, fun _ _ => rfl⟩
  by_cases h2 : c.server_ip = 0
  · rw [if_neg h1, if_pos h2]
    exact ⟨_, rfl, rfl, fun _ _ => rfl⟩
  by_cases h3 : c.sock < 0
  · rw [if_neg h1, if_neg h2, if_pos h3]
    exact ⟨_, rfl, rfl, fun _ _ => rfl⟩
  · exact absurd ⟨by simpa using h1, h2, by omega⟩ h

/-- With a connection: what is received decides. -/
theorem pkg_remote_search_aberta (h : c.Aberta) (hp : ∀ p ∈ partes, p.length ≤ 256) :
    pkg_remote_search c repo_host list_buf query partes =
      if corpo_recebido partes = [] then
        some ⟨-1, [.texto "spk search: repositorio nao respondeu"], list_buf⟩
      else
        (poe_lista (copia list_buf 0 ((corpo_recebido partes).take LIST_BUF))
          (min LIST_BUF (corpo_recebido partes).length) 0).bind fun list_buf =>
            (lista query VOLTAS_LISTA list_buf 0).map fun r =>
              ⟨0, [.texto "Pacotes disponiveis:", .texto ""] ++ r.1.map .linha, r.2⟩ := by
  obtain ⟨hlen, hbytes⟩ := http_get_corpo PACKAGES_LIST repo_host list_buf hp
  have hvazio := http_get_vazio PACKAGES_LIST repo_host list_buf hp
  unfold pkg_remote_search
  rw [if_neg (by simp [h.1]), if_neg h.2.1, if_neg (by have := h.2.2; omega)]
  dsimp only
  by_cases hnada : corpo_recebido partes = []
  · rw [if_pos (hvazio.mpr hnada), if_pos hnada, hbytes, hnada, List.take_nil, copia_nil]
  · rw [if_neg fun ho => hnada (hvazio.mp ho), if_neg hnada, hbytes, hlen]

theorem contem_prefix {a b : List UInt8} (hab : a <+: b) (ha : Contem query a = true) :
    Contem query b = true :=
  decide_eq_true ((of_decide_eq_true ha).trans hab.isInfix)

theorem filterMap_da_lista (ls : List (List UInt8)) :
    (ls.map Escrito.linha).filterMap Escrito.da_lista = ls := by
  rw [List.filterMap_map]
  exact List.filterMap_some

theorem cleanUpTo_nada : CleanUpTo 0 (Contem query) (lines 10 ([] : List UInt8)) :=
  cleanUpTo_of_not_mem List.not_mem_nil

/-- The buffer after the body and its zero. -/
def com_zero (list_buf : Memory) (body : List UInt8) : Memory :=
  putByte (copia list_buf 0 body) body.length 0

theorem com_zero_texto (list_buf : Memory) {body : List UInt8} (h : body.length < LIST_BUF) :
    Texto (com_zero list_buf body) 0 (body.takeWhile (· ≠ 0)) := by
  refine texto_de (fun j hj => ?_) ?_ (by omega)
  · unfold com_zero
    rw [Nat.zero_add, putByte_ne _ _ (Nat.ne_of_lt hj), copia_dentro (Nat.zero_le j) hj]
    rfl
  · rw [Nat.zero_add]
    exact if_pos rfl

theorem com_zero_fora {body : List UInt8} (h : body.length < LIST_BUF) {i : Nat}
    (hi : LIST_BUF ≤ i) : com_zero list_buf body i = list_buf i := by
  unfold com_zero
  rw [putByte_ne _ _ (by omega), copia_fora (by omega)]

/-- A body that leaves room for its zero: the lines up to the first zero are shown. -/
theorem pkg_remote_search_curta (repo_host : List UInt8) (list_buf : Memory) (h : c.Aberta)
    (hq : 0 ∉ query) (hp : ∀ p ∈ partes, p.length ≤ 256) (hne : corpo_recebido partes ≠ [])
    (hlt : (corpo_recebido partes).length < LIST_BUF) :
    ∃ r, pkg_remote_search c repo_host list_buf query partes = some r ∧
      r.escrito.filterMap Escrito.da_lista =
        (lines 10 ((corpo_recebido partes).takeWhile (· ≠ 0))).filter (Contem query) ∧
      ∀ i, LIST_BUF ≤ i → r.list_buf i = list_buf i := by
  have htexto := com_zero_texto list_buf hlt
  have hmenor : ((corpo_recebido partes).takeWhile (· ≠ 0)).length < VOLTAS_LISTA := by
    have := htexto.lt
    unfold VOLTAS_LISTA
    omega
  obtain ⟨fim, he, hfora⟩ := lista_eq hq htexto hmenor
  have hpoe : poe_lista (copia list_buf 0 (corpo_recebido partes))
      (corpo_recebido partes).length 0 = some (com_zero list_buf (corpo_recebido partes)) :=
    if_pos hlt
  refine ⟨⟨0, [.texto "Pacotes disponiveis:", .texto ""] ++ List.map .linha _, fim⟩, ?_,
    filterMap_da_lista _, ?_⟩
  · rw [pkg_remote_search_aberta h hp, if_neg hne, List.take_of_length_le (Nat.le_of_lt hlt),
      Nat.min_eq_right (Nat.le_of_lt hlt), hpoe, Option.bind_some, he, Option.map_some]
  · exact fun i hi => (hfora i hi).trans (com_zero_fora hlt hi)

/-- A body of 4096 bytes or more fills the buffer, and the zero goes behind it. -/
theorem pkg_remote_search_longa (h : c.Aberta) (hp : ∀ p ∈ partes, p.length ≤ 256)
    (hge : LIST_BUF ≤ (corpo_recebido partes).length) :
    pkg_remote_search c repo_host list_buf query partes = none := by
  have hne : corpo_recebido partes ≠ [] := by
    intro hnada
    rw [hnada] at hge
    exact absurd hge (by decide)
  have hpoe : ∀ buf, poe_lista buf LIST_BUF 0 = none := fun _ => if_neg (Nat.lt_irrefl _)
  rw [pkg_remote_search_aberta h hp, if_neg hne, Nat.min_eq_left hge, hpoe, Option.bind_none]

/-- The search keeps to its buffer and shows the lines with the query exactly if the body leaves
room for a zero and has no zero in a line that it shows, or in front of one. -/
theorem the_list_is_printed_iff (hq : 0 ∉ query) (hp : ∀ p ∈ partes, p.length ≤ 256) :
    Mostra c repo_host list_buf query partes ↔
      (recebido c partes).length < LIST_BUF ∧
        CleanUpTo 0 (Contem query) (lines 10 (recebido c partes)) := by
  by_cases h : c.Aberta
  · have hcorpo : recebido c partes = corpo_recebido partes := if_pos h
    unfold Mostra
    rw [hcorpo]
    by_cases hne : corpo_recebido partes = []
    · rw [pkg_remote_search_aberta h hp, if_pos hne, hne]
      exact iff_of_true ⟨_, rfl, rfl, fun _ _ => rfl⟩ ⟨by decide, cleanUpTo_nada⟩
    · by_cases hlt : (corpo_recebido partes).length < LIST_BUF
      · obtain ⟨r, hr, hlinhas, hfora⟩ := pkg_remote_search_curta repo_host list_buf h hq hp
          hne hlt
        rw [← filter_lines_takeWhile_iff (fun a b => contem_prefix) (by decide), hr]
        constructor
        · rintro ⟨r', hr', hl, -⟩
          obtain rfl := Option.some.inj hr'
          exact ⟨hlt, hlinhas.symm.trans hl⟩
        · rintro ⟨-, hl⟩
          exact ⟨r, rfl, hlinhas.trans hl, hfora⟩
      · refine iff_of_false ?_ fun hc => hlt hc.1
        rintro ⟨r, hr, -, -⟩
        rw [pkg_remote_search_longa h hp (Nat.le_of_not_lt hlt)] at hr
        exact Option.some_ne_none r hr.symm
  · have hnada : recebido c partes = [] := if_neg h
    refine iff_of_true (mostra_sem_conexao h) ?_
    rw [hnada]
    exact ⟨by decide, cleanUpTo_nada⟩

end Lei

/-- The connection is there. -/
def conectado : Conexao := ⟨true, 1, 0⟩

/-- Two lines of which one contains the query. -/
theorem a_list_of_two_lines_is_printed :
    Mostra conectado [] (fun _ => 0) [66] [FIM_HEADER ++ [65, 66, 10, 67]] := by
  refine (the_list_is_printed_iff (by decide) (by decide)).mpr ⟨by decide, ?_⟩
  exact cleanUpTo_of_not_mem (by decide)

/-- A body of 4096 bytes, in parts of 256. -/
def lista_cheia : List (List UInt8) := FIM_HEADER :: List.replicate 16 (List.replicate 256 65)

/-- It fills the buffer, and a zero is written behind the end of it. -/
theorem a_full_list_is_written_past_the_buffer :
    ¬ ∀ (c : Conexao) (repo_host : List UInt8) (list_buf : Memory) (query : List UInt8)
        (partes : List (List UInt8)), 0 ∉ query → (∀ p ∈ partes, p.length ≤ 256) →
        Mostra c repo_host list_buf query partes := by
  intro h
  have hp : ∀ p ∈ lista_cheia, p.length ≤ 256 := by
    intro p hp
    rcases List.mem_cons.mp hp with rfl | hp
    · decide
    · rw [List.eq_of_mem_replicate hp, List.length_replicate]
  have hcorpo : corpo_recebido lista_cheia =
      (List.replicate 16 (List.replicate 256 65)).flatten := rfl
  have hcheia : LIST_BUF ≤ (corpo_recebido lista_cheia).length := by
    rw [hcorpo, List.length_flatten, List.map_replicate, List.sum_replicate, List.length_replicate]
    decide
  obtain ⟨r, hr, -, -⟩ := h conectado [] (fun _ => 0) [] lista_cheia (by decide) hp
  rw [pkg_remote_search_longa (by decide) hp hcheia] at hr
  exact Option.some_ne_none r hr.symm

end SpaceOS.Pkg
