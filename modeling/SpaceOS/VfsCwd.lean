-- The current directory: its path and its cluster after calls of `vfs_chdir`, on a volume that
-- does not change.
import SpaceOS.VfsPaths

open Lib.Bytes Lib.Bytes.ByteStr Lib.CString SpaceOS.Fat32

namespace SpaceOS.Vfs

/-! ## Directories reached -/

/-- The components of a path that are looked up. -/
abbrev pecas (path : List UInt8) : List (List UInt8) := (path.splitOn BARRA).filter proprio

/-- From a directory to another, by the names of directories. -/
inductive Chega (v : Bpb) (d : Disco) : Nat → List (List UInt8) → Nat → Prop
  | fim {a : Nat} : Chega v d a [] a
  | passo {a b : Nat} {tok : List UInt8} {toks : List (List UInt8)} {e : Dirent} :
      fat32_find v d a (fat32_normalize tok) = some (some e) → is_dir e = true →
      Chega v d e.cluster toks b → Chega v d a (tok :: toks) b

section Chegada

variable {v : Bpb} {d : Disco} {a b c : Nat} {xs ys : List (List UInt8)}

theorem Chega.unico (h : Chega v d a xs b) (h' : Chega v d a xs c) : b = c := by
  induction h with
  | fim =>
    cases h' with
    | fim => rfl
  | passo hf _ _ ih =>
    cases h' with
    | passo hf' _ h' =>
      rw [hf] at hf'
      cases hf'
      exact ih h'

theorem Chega.vazio (h : Chega v d a [] c) : c = a := by
  cases h
  rfl

theorem chega_append : Chega v d a (xs ++ ys) c ↔ ∃ b, Chega v d a xs b ∧ Chega v d b ys c := by
  induction xs generalizing a with
  | nil =>
    constructor
    · exact fun h => ⟨a, .fim, h⟩
    · rintro ⟨b, hb, h⟩
      rwa [hb.vazio] at h
  | cons x xs ih =>
    constructor
    · intro h
      cases h with
      | passo hf hd h =>
        obtain ⟨b, hb, h⟩ := ih.mp h
        exact ⟨b, .passo hf hd hb, h⟩
    · rintro ⟨b, hb, h⟩
      cases hb with
      | passo hf hd hb => exact .passo hf hd (ih.mpr ⟨b, hb, h⟩)

/-- The directory itself, or the directory of a file that is the last piece. -/
def Toca (v : Bpb) (d : Disco) (a : Nat) (toks : List (List UInt8)) (c : Nat) : Prop :=
  Chega v d a (toks.filter proprio) c ∨ ∃ ts t e, toks = ts ++ [t] ∧ proprio t = true ∧
    Chega v d a (ts.filter proprio) c ∧
    fat32_find v d c (fat32_normalize t) = some (some e) ∧ is_dir e = false

theorem resolve_laco_zero {toks : List (List UInt8)} :
    resolve_laco v d toks a = some (0, c) ↔ Chega v d a (toks.filter proprio) c := by
  induction toks generalizing a with
  | nil =>
    constructor
    · intro h
      cases h
      exact .fim
    · intro h
      cases h
      rfl
  | cons tok toks ih =>
    rw [resolve_laco]
    by_cases hp : proprio tok = false
    · rw [if_pos (proprio_eq_false.mp hp), List.filter_cons_of_neg (by simp [hp])]
      exact ih
    have hn : ¬ (tok = [] ∨ tok = [46]) := fun h => hp (proprio_eq_false.mpr h)
    rw [if_neg hn, List.filter_cons_of_pos (by simpa using hp)]
    constructor
    · intro h
      rcases hf : fat32_find v d a (fat32_normalize tok) with _ | _ | e
      · rw [hf] at h
        cases h
      · rw [hf] at h
        cases h
      rw [hf, Option.bind_some] at h
      dsimp only at h
      split at h
      · exact .passo hf ‹_› (ih.mp h)
      · split at h <;> cases h
    · intro h
      cases h with
      | passo hf hd h =>
        rw [hf, Option.bind_some]
        dsimp only
        rw [if_pos hd]
        exact ih.mpr h

/-- What `resolve_dir` counts as a success. -/
theorem Toca.of_resolve {toks : List (List UInt8)} {r : Int}
    (h : resolve_laco v d toks a = some (r, c)) (hr : 0 ≤ r) : Toca v d a toks c := by
  induction toks generalizing a with
  | nil =>
    cases h
    exact .inl .fim
  | cons tok toks ih =>
    rw [resolve_laco] at h
    by_cases hp : proprio tok = false
    · rw [if_pos (proprio_eq_false.mp hp)] at h
      rcases ih h with hc | ⟨ts, t, e, rfl, ht, hc, hf⟩
      · refine .inl ?_
        rwa [List.filter_cons_of_neg (by simp [hp])]
      · refine .inr ⟨tok :: ts, t, e, rfl, ht, ?_, hf⟩
        rwa [List.filter_cons_of_neg (by simp [hp])]
    have hn : ¬ (tok = [] ∨ tok = [46]) := fun h => hp (proprio_eq_false.mpr h)
    have hp : proprio tok = true := by simpa using hp
    rw [if_neg hn] at h
    rcases hf : fat32_find v d a (fat32_normalize tok) with _ | _ | e
    · rw [hf] at h
      cases h
    · rw [hf] at h
      cases h
      exact absurd hr (by decide)
    rw [hf, Option.bind_some] at h
    dsimp only at h
    split at h
    · rename_i hd
      rcases ih h with hc | ⟨ts, t, e', rfl, ht, hc, hf'⟩
      · refine .inl ?_
        rw [List.filter_cons_of_pos hp]
        exact .passo hf hd hc
      · refine .inr ⟨tok :: ts, t, e', rfl, ht, ?_, hf'⟩
        rw [List.filter_cons_of_pos hp]
        exact .passo hf hd hc
    · rename_i hd
      split at h
      · cases h
        exact absurd hr (by decide)
      · rename_i hv
        cases h
        rw [not_not] at hv
        subst hv
        exact .inr ⟨[], tok, e, rfl, hp, .fim, hf, by simpa using hd⟩

end Chegada

/-! ## Directories of a well formed volume -/

/-- The directory that a `..` entry leads to; 0 stands for the root. -/
def volta (v : Bpb) (e : Dirent) : Nat := if e.cluster = 0 then v.root_cluster else e.cluster

/-- A well formed volume: the directories below the root have a first cluster and a `..` that leads
back, the root has none. -/
structure ComPontos (v : Bpb) (d : Disco) : Prop where
  bem : BemFormado v d
  raiz : fat32_find v d v.root_cluster PONTO_PONTO = some none
  sub : ∀ q name11 e, Dir v d q → name11 ≠ PONTO → name11 ≠ PONTO_PONTO →
    fat32_find v d q name11 = some (some e) → is_dir e = true →
    e.cluster ≠ 0 ∧ ∃ e', fat32_find v d e.cluster PONTO_PONTO = some (some e') ∧ volta v e' = q

section Volume

variable {v : Bpb} {d : Disco} {a c : Nat} {xs : List (List UInt8)}

theorem ComPontos.sub_cluster (h : ComPontos v d) : SubComCluster v d :=
  fun q name11 e hq h1 h2 hf hd => (h.sub q name11 e hq h1 h2 hf hd).1

theorem Chega.dir (h : ComPontos v d) (hc : Chega v d a xs c) (ha : Dir v d a) : Dir v d c := by
  induction hc with
  | fim => exact ha
  | passo hf hd _ ih => exact ih (dir_de_find h.bem h.sub_cluster ha (normalize_ponto _) hf hd)

end Volume

/-! ## The text of the path -/

/-- A path with a slash at its end. -/
def com_barra (t : List UInt8) : List UInt8 := if t.getLast? = some BARRA then t else t ++ [BARRA]

section Texto

variable {b : Buffer} {t pre last path : List UInt8}

theorem pecas_append (s a : List UInt8) : pecas (s ++ BARRA :: a) = pecas s ++ pecas a := by
  unfold pecas
  rw [List.splitOn_append_cons_self, List.filter_append]

theorem pecas_nil : pecas [] = [] := rfl

theorem pecas_com_barra (t a : List UInt8) : pecas (com_barra t ++ a) = pecas t ++ pecas a := by
  unfold com_barra
  split
  · rename_i h
    obtain ⟨s, rfl⟩ := List.getLast?_eq_some_iff.mp h
    rw [List.append_assoc, List.singleton_append, pecas_append, pecas_append, pecas_nil,
      List.append_nil]
  · rw [List.append_assoc, List.singleton_append, pecas_append]

theorem texto_muda_cwd (cwd : CwdPath) (c : Nat) (nb : Buffer) :
    text (muda_cwd cwd c nb).path = (text nb).take 255 ∧
      strlen (muda_cwd cwd c nb).path ≠ none := by
  have ht : text (muda_cwd cwd c nb).path = (text nb).take 255 := by
    have hlen : ((text nb).take 255).length ≤ 255 := List.length_take_le _ _
    refine text_eq (by omega) (fun h => zero_not_mem_text nb (List.mem_of_mem_take h))
      fun j hj => ?_
    unfold muda_cwd
    dsimp only
    by_cases hj' : j = 255
    · subst hj'
      rw [byte_putByte_self _ _ (by decide), List.getD_eq_default _ _ (by omega)]
    · have hj'' : j < 255 := by omega
      rw [byte_putByte_ne _ _ hj', byte_strncpy _ _ _ _ (by omega), if_pos (by omega)]
      simp [List.getD, hj'']
  refine ⟨ht, ?_⟩
  rw [strlen_eq (by rw [ht]; exact Nat.lt_of_le_of_lt (List.length_take_le _ _) (by decide))]
  simp

/-- The copy of the path on the stack, where it ends there. -/
theorem texto_copia (pilha : Buffer) (ht0 : 0 ∉ t) (ht : t.length ≤ 255)
    (hp : t.length = 255 → pilha.byte 255 = 0) : text (strncpy pilha 0 t 255) = t := by
  refine text_eq (by omega) ht0 fun j hj => ?_
  rw [byte_strncpy _ _ _ _ (by omega)]
  by_cases hj' : j < 255
  · rw [if_pos (by omega), Nat.sub_zero]
  · have hj' : j = 255 := by omega
    subst hj'
    rw [if_neg (by omega), hp (by omega), List.getD_eq_default _ _ (by omega)]

/-- The last slash of a text that has one behind the first byte. -/
theorem find_ultima (hb : text b = pre ++ BARRA :: last) (hpre : pre ≠ []) (hl : BARRA ∉ last) :
    ((List.range' 1 ((text b).length - 1)).reverse.find? fun i => b.byte i = BARRA) =
      some pre.length := by
  have hlen : (text b).length = pre.length + 1 + last.length := by
    rw [hb, List.length_append, List.length_cons]
    omega
  have hle := length_text_le b
  have hpos : 0 < pre.length := List.length_pos_iff.mpr hpre
  have hr : List.range' 1 ((text b).length - 1) =
      List.range' 1 (pre.length - 1) ++ pre.length :: List.range' (pre.length + 1) last.length := by
    have h1 : (text b).length - 1 = (pre.length - 1) + (last.length + 1) := by omega
    rw [h1, ← List.range'_append_1, List.range'_succ, show 1 + (pre.length - 1) = pre.length by omega]
  have hdepois : (List.range' (pre.length + 1) last.length).reverse.find?
      (fun i => decide (b.byte i = BARRA)) = none := by
    refine List.find?_eq_none.mpr fun i hi => ?_
    have hi := List.mem_range'_1.mp (List.mem_reverse.mp hi)
    have hbi : b.byte i = (text b).getD i 0 := byte_text (by omega) (by omega)
    rw [decide_eq_true_iff, hbi, hb, List.getD_append_right _ _ _ _ (by omega)]
    have hs : i - pre.length = (i - pre.length - 1) + 1 := by omega
    rw [hs, List.getD_cons_succ, List.getD_eq_getElem _ _ (by omega)]
    exact fun he => hl (he ▸ List.getElem_mem _)
  have hbarra : b.byte pre.length = BARRA := by
    rw [byte_text (by omega) (by omega), hb, List.getD_append_right _ _ _ _ le_rfl, Nat.sub_self]
    rfl
  rw [hr, List.reverse_append, List.reverse_cons, List.append_assoc, List.find?_append, hdepois,
    Option.none_or, List.singleton_append, List.find?_cons]
  simp [hbarra]

/-- `..` takes the last slash and what follows it off the path. -/
theorem texto_tira_ultimo (hlt : (text b).length < 256) (hb : text b = pre ++ BARRA :: last)
    (hpre : pre ≠ []) (hl : BARRA ∉ last) :
    ∃ nb, tira_ultimo b = some nb ∧ text nb = pre := by
  have hlen : (text b).length = pre.length + 1 + last.length := by
    rw [hb, List.length_append, List.length_cons]
    omega
  have hpos : 0 < pre.length := List.length_pos_iff.mpr hpre
  have ht : text (b.putByte pre.length 0) = pre := by
    rw [text_putByte_zero (by omega) (by omega), hb, List.take_left]
  refine ⟨b.putByte pre.length 0, ?_, ht⟩
  unfold tira_ultimo
  rw [strlen_eq hlt, Option.bind_some, if_pos (by omega), find_ultima hb hpre hl]
  dsimp only
  rw [strlen_eq (by rw [ht]; omega), Option.map_some, ht, if_neg (by omega)]

/-- A relative argument is put behind the path and a slash, as far as there is room. -/
theorem texto_junta_nome (ht : text b ≠ []) (hlt : (com_barra (text b)).length ≤ 255)
    (hpath : 0 ∉ path) :
    ∃ nb, junta_nome b path = some nb ∧
      (text nb).take 255 = (com_barra (text b) ++ path).take 255 := by
  have hpos : 0 < (text b).length := List.length_pos_iff.mpr ht
  have hle : (text b).length ≤ (com_barra (text b)).length := by
    unfold com_barra
    split
    · exact le_rfl
    · rw [List.length_append]
      omega
  have hult : b.byte ((text b).length - 1) = BARRA ↔ (text b).getLast? = some BARRA := by
    rw [byte_text (by omega) (by omega), List.getD_eq_getElem _ _ (by omega),
      List.getLast?_eq_getElem?, List.getElem?_eq_getElem (by omega), Option.some_inj]
  unfold junta_nome
  rw [strlen_eq (by omega), Option.bind_some, if_neg (by omega)]
  by_cases hb : b.byte ((text b).length - 1) = BARRA
  · have hcb : com_barra (text b) = text b := if_pos (hult.mp hb)
    rw [if_neg fun h => h.1 hb, if_neg (not_not.mpr hb)]
    dsimp only
    rw [strlen_eq (by omega), Option.map_some, hcb]
    exact ⟨_, rfl, take_text_strncpy hpath rfl (by omega) (by decide)⟩
  · have hcb : com_barra (text b) = text b ++ [BARRA] := if_neg fun h => hb (hult.mpr h)
    have hlt' : (text b).length + 1 ≤ 255 := by
      rw [hcb, List.length_append] at hlt
      exact hlt
    have htb : text ((b.putByte (text b).length BARRA).putByte ((text b).length + 1) 0) =
        text b ++ [BARRA] := by
      have hlen : (text b ++ [BARRA]).length = (text b).length + 1 := List.length_append
      refine text_eq (by omega) (fun h => ?_) fun j hj => ?_
      · rcases List.mem_append.mp h with h | h
        · exact zero_not_mem_text b h
        · exact absurd (List.mem_singleton.mp h) (by decide)
      · by_cases h1 : j = (text b).length + 1
        · subst h1
          rw [byte_putByte_self _ _ (by omega), List.getD_eq_default _ _ (by omega)]
        by_cases h2 : j = (text b).length
        · subst h2
          rw [byte_putByte_ne _ _ h1, byte_putByte_self _ _ (by omega),
            List.getD_append_right _ _ _ _ le_rfl, Nat.sub_self]
          rfl
        · rw [byte_putByte_ne _ _ h1, byte_putByte_ne _ _ h2, byte_text (by omega) (by omega),
            List.getD_append _ _ _ _ (by omega)]
    rw [if_neg fun h => by omega, if_pos hb]
    dsimp only
    rw [strlen_eq (by rw [htb, List.length_append]; exact Nat.lt_succ_of_le hlt'), Option.map_some,
      hcb, ← htb]
    refine ⟨_, rfl, take_text_strncpy hpath rfl ?_ (by decide)⟩
    rw [htb, List.length_append]
    exact hlt'

end Texto

/-! ## A call -/

/-- The path ends with a zero and is absolute, the cluster is the one of a directory, and the path
leads to it. -/
structure Coerente (v : Bpb) (d : Disco) (cwd : CwdPath) : Prop where
  montado : cwd.montado = true
  termina : strlen cwd.path ≠ none
  absoluto : (text cwd.path).head? = some BARRA
  pasta : Dir v d cwd.cluster
  resolve : resolve_dir v d cwd.toCwd (text cwd.path) = some (0, cwd.cluster)

/-- The condition on a call, by its branches. -/
def Fiel (v : Bpb) (d : Disco) (cwd : CwdPath) (pilha : Buffer) (path : List UInt8) : Prop :=
  let t := text cwd.path
  if path.head? = some BARRA then
    -- what the code takes from the argument is what the bytes that are kept of it lead to
    ∀ c, Toca v d v.root_cluster ((path.take 256).splitOn BARRA) c →
      Chega v d v.root_cluster (pecas (path.take 255)) c
  else if path = [46, 46] then
    -- the path ends in a component, and its last slash is not its first byte
    cwd.cluster = v.root_cluster ∨ ((t.length = 255 → pilha.byte 255 = 0) ∧
      ∃ us x, t.splitOn BARRA = us ++ [x] ∧ us ≠ [] ∧ us ≠ [[]] ∧ proprio x = true)
  else
    -- piece by piece, what is kept of the argument leads to the directory with its name
    ∀ e, fat32_find v d cwd.cluster (fat32_normalize path) = some (some e) → is_dir e = true →
      (t.length = 255 → pilha.byte 255 = 0) ∧ (com_barra t).length ≤ 255 ∧
        Chega v d cwd.cluster (pecas (path.take (255 - (com_barra t).length))) e.cluster

section Passo

variable {v : Bpb} {d : Disco} {s : CwdPath} {pilha nb : Buffer} {path t : List UInt8} {c : Nat}

theorem resolve_absoluto {cwd : Cwd} (h : t.head? = some BARRA) (hl : t.length ≤ 255) :
    resolve_dir v d cwd t = some (0, c) ↔ Chega v d v.root_cluster (pecas t) c := by
  rw [resolve_dir_eq hl, origem, if_pos h, resolve_laco_zero]

theorem resolve_argumento {cwd : Cwd} (h : path.head? = some BARRA) :
    resolve_dir v d cwd path = resolve_laco v d ((path.take 256).splitOn BARRA) v.root_cluster := by
  obtain ⟨p, rfl⟩ := List.head?_eq_some_iff.mp h
  have hs : (BARRA :: p.take 255).splitOn BARRA = [] :: (p.take 255).splitOn BARRA := by
    have := List.splitOn_append_cons_self (a := BARRA) [] (p.take 255)
    rwa [List.splitOn_nil] at this
  rw [resolve_dir, if_pos h, List.take_succ_cons, hs, resolve_laco, if_pos (.inl rfl), List.tail_cons]

theorem Coerente.length_le (h : Coerente v d s) : (text s.path).length ≤ 255 := by
  have := h.termina
  unfold strlen at this
  split at this
  · omega
  · exact absurd rfl this

/-- The walk along the path that a coherent state has. -/
theorem Coerente.chega (h : Coerente v d s) :
    Chega v d v.root_cluster (pecas (text s.path)) s.cluster :=
  (resolve_absoluto h.absoluto h.length_le).mp h.resolve

/-- The new state is coherent where the text that is kept leads to the new cluster. -/
theorem Coerente.muda (h : Coerente v d s) (ht : (text nb).take 255 = t)
    (ha : t.head? = some BARRA) (hd : Dir v d c) (hc : Chega v d v.root_cluster (pecas t) c) :
    Coerente v d (muda_cwd s c nb) := by
  obtain ⟨htext, hlen⟩ := texto_muda_cwd s c nb
  rw [ht] at htext
  refine ⟨h.montado, hlen, by rw [htext]; exact ha, hd, ?_⟩
  rw [htext]
  exact (resolve_absoluto ha (by rw [← ht]; exact List.length_take_le _ _)).mpr hc

/-- An absolute argument. -/
theorem passo_absoluto (hv : ComPontos v d) (h : Coerente v d s) (h0 : 0 ∉ path)
    (hp : path.head? = some BARRA) (hf : Fiel v d s pilha path) :
    ∃ r s', vfs_chdir v d s pilha path = some (r, s') ∧ Coerente v d s' := by
  rw [Fiel, if_pos hp] at hf
  obtain ⟨r, c, hr, _⟩ := resolve_laco_retorna hv.bem hv.sub_cluster
    ((path.take 256).splitOn BARRA) .raiz
  rw [vfs_chdir, if_pos h.montado, if_pos hp, resolve_argumento hp, hr, Option.map_some]
  dsimp only
  split
  · exact ⟨-1, s, rfl, h⟩
  rename_i hr0
  have hc := hf c (Toca.of_resolve hr (by omega))
  refine ⟨0, _, rfl, h.muda (take_text_strncpy_zero h0 (by decide)) ?_ (hc.dir hv .raiz) hc⟩
  obtain ⟨p, rfl⟩ := List.head?_eq_some_iff.mp hp
  rfl

/-- `..`. -/
theorem passo_sobe (hv : ComPontos v d) (h : Coerente v d s) (hf : Fiel v d s pilha [46, 46]) :
    ∃ r s', vfs_chdir v d s pilha [46, 46] = some (r, s') ∧ Coerente v d s' := by
  have hh : ([46, 46] : List UInt8).head? ≠ some BARRA := by decide
  rw [Fiel, if_neg hh, if_pos rfl] at hf
  rw [vfs_chdir, if_pos h.montado, if_neg hh, if_pos rfl]
  rcases hf with hraiz | ⟨hpilha, us, x, hus, hne, hne', hx⟩
  · rw [hraiz, hv.raiz]
    exact ⟨-1, s, rfl, h⟩
  have hlen := h.length_le
  have htext := texto_copia pilha (zero_not_mem_text s.path) hlen hpilha
  have hchega := h.chega
  rcases formas (text s.path) with hb | ⟨last, hb, he⟩ | ⟨pre, last, hpre, hb, he⟩
  · rw [List.splitOn_eq_singleton hb] at hus
    have hn : [] = us := List.append_inj_left' (hus : [] ++ [text s.path] = us ++ [x]) rfl
    exact absurd hn.symm hne
  · have hs : (BARRA :: last).splitOn BARRA = [[], last] := splitOn_barra [] hb
    rw [he, hs] at hus
    have hn : [[]] = us := List.append_inj_left' (hus : [[]] ++ [last] = us ++ [x]) rfl
    exact absurd hn.symm hne'
  · have hs := splitOn_barra pre hb
    rw [he, hs] at hus
    obtain rfl : last = x := List.singleton_inj.mp (List.append_inj_right' hus rfl)
    -- the directory above is the one before the last component
    have hpecas : pecas (text s.path) = pecas pre ++ [last] := by
      rw [he, pecas_append, pecas, pecas, List.splitOn_eq_singleton hb, List.filter_cons_of_pos hx]
      rfl
    rw [hpecas, chega_append] at hchega
    obtain ⟨q, hq, hlast⟩ := hchega
    cases hlast with
    | @passo _ _ _ _ e hfind hdir hfim =>
      have hqd := hq.dir hv .raiz
      obtain ⟨_, e', hfind', hvolta⟩ := hv.sub q _ e hqd (normalize_ponto _).1 (normalize_ponto _).2
        hfind hdir
      obtain ⟨nb, hnb, htnb⟩ := texto_tira_ultimo (by rw [htext]; omega) (htext.trans he)
        hpre hb
      rw [hfim.vazio, hfind', Option.bind_some]
      dsimp only
      rw [hnb]
      have hle : pre.length ≤ 255 := by
        rw [he, List.length_append] at hlen
        omega
      have hhead : pre.head? = some BARRA := by
        have := h.absoluto
        rwa [he, List.head?_append_of_ne_nil _ hpre] at this
      refine ⟨0, _, rfl, h.muda (t := pre) ?_ hhead ?_ ?_⟩
      · rw [htnb, List.take_of_length_le hle]
      · change Dir v d (volta v e')
        rwa [hvolta]
      · change Chega v d v.root_cluster (pecas pre) (volta v e')
        rwa [hvolta]

/-- A name in the current directory. -/
theorem passo_relativo (hv : ComPontos v d) (h : Coerente v d s) (h0 : 0 ∉ path)
    (hp : path.head? ≠ some BARRA) (hp' : path ≠ [46, 46]) (hf : Fiel v d s pilha path) :
    ∃ r s', vfs_chdir v d s pilha path = some (r, s') ∧ Coerente v d s' := by
  rw [Fiel, if_neg hp, if_neg hp'] at hf
  rw [vfs_chdir, if_pos h.montado, if_neg hp, if_neg hp']
  obtain ⟨fe, hfe⟩ := find_retorna hv.bem h.pasta (fat32_normalize path)
  rw [hfe, Option.bind_some]
  cases fe with
  | none => exact ⟨-1, s, rfl, h⟩
  | some e =>
    dsimp only
    split
    · rename_i hd
      obtain ⟨hpilha, hcabe, hchega⟩ := hf e hfe hd
      have htext := texto_copia pilha (zero_not_mem_text s.path) h.length_le hpilha
      have hne : text s.path ≠ [] := fun hn => by
        have := h.absoluto
        rw [hn] at this
        cases this
      have hhead : (com_barra (text s.path)).head? = some BARRA := by
        unfold com_barra
        split
        · exact h.absoluto
        · rw [List.head?_append_of_ne_nil _ hne]
          exact h.absoluto
      obtain ⟨nb, hnb, htnb⟩ := texto_junta_nome (b := strncpy pilha 0 (text s.path) 255)
        (by rw [htext]; exact hne) (by rw [htext]; exact hcabe) h0
      rw [htext, List.take_append, List.take_of_length_le hcabe] at htnb
      rw [hnb]
      have hdir := dir_de_find hv.bem hv.sub_cluster h.pasta (normalize_ponto _) hfe hd
      refine ⟨0, _, rfl, h.muda htnb ?_ hdir ?_⟩
      · rw [List.head?_append, hhead]
        rfl
      · rw [pecas_com_barra]
        exact chega_append.mpr ⟨_, h.chega, hchega⟩
    · exact ⟨-1, s, rfl, h⟩

/-- A call under the condition returns and keeps the path and the cluster together. -/
theorem Coerente.passo (hv : ComPontos v d) (h : Coerente v d s) (h0 : 0 ∉ path)
    (hf : Fiel v d s pilha path) :
    ∃ r s', vfs_chdir v d s pilha path = some (r, s') ∧ Coerente v d s' := by
  by_cases hp : path.head? = some BARRA
  · exact passo_absoluto hv h h0 hp hf
  by_cases hp' : path = [46, 46]
  · subst hp'
    exact passo_sobe hv h hf
  · exact passo_relativo hv h h0 hp hp' hf

/-! ## The law -/

/-- The states after calls that meet `I`, from the one that `vfs_init` leaves. -/
inductive Anda (v : Bpb) (d : Disco) (I : CwdPath → Buffer → List UInt8 → Prop) : CwdPath → Prop
  | inicio : Anda v d I (vfs_init (some v))
  | passo {s s' : CwdPath} {pilha : Buffer} {path : List UInt8} {r : Int} : Anda v d I s → 0 ∉ path →
      I s pilha path → vfs_chdir v d s pilha path = some (r, s') → Anda v d I s'

theorem coerente_inicio (v : Bpb) (d : Disco) : Coerente v d (vfs_init (some v)) := by
  have ht : text (vfs_init (some v)).path = [BARRA] := by
    change text (strncpy (zero : Buffer) 0 [BARRA] 255) = [BARRA]
    decide
  refine ⟨rfl, ?_, by rw [ht]; rfl, .raiz, ?_⟩
  · rw [strlen_eq (by rw [ht]; decide)]
    simp
  · rw [ht, resolve_absoluto rfl (by decide)]
    exact .fim

/-- In every run of calls that meet the condition the path of the current directory leads to its
cluster, which is the one of a directory, and the next such call returns. -/
theorem the_path_leads_to_the_cluster (hv : ComPontos v d) (h : Anda v d (Fiel v d) s) :
    Coerente v d s ∧ ∀ pilha path, 0 ∉ path → Fiel v d s pilha path →
      ∃ r s', vfs_chdir v d s pilha path = some (r, s') := by
  have hc : Coerente v d s := by
    induction h with
    | inicio => exact coerente_inicio v d
    | passo _ h0 hf hr ih =>
      obtain ⟨r', s', hr', hc⟩ := ih.passo hv h0 hf
      rw [hr] at hr'
      cases hr'
      exact hc
  refine ⟨hc, fun pilha path h0 hf => ?_⟩
  obtain ⟨r, s', hr, _⟩ := hc.passo hv h0 hf
  exact ⟨r, s', hr⟩

end Passo

/-! ## A volume with one directory -/

/-- `A` in the root directory. -/
def disco_com_pasta : Disco :=
  ((fat32_create pequeno disco_pequeno 2 (fat32_normalize [65]) FAT32_ATTR_DIR).getD
    (0, disco_pequeno)).2

theorem pasta_bem : BemFormado pequeno disco_com_pasta := by
  obtain ⟨c, d', hc, hb, _⟩ : ∃ c d', fat32_create pequeno disco_pequeno 2 (fat32_normalize [65])
      FAT32_ATTR_DIR = some (c, d') ∧ BemFormado pequeno d' ∧ _ :=
    create_spec pequeno_bem .raiz (by decide) (Or.inl rfl)
  have hd : disco_com_pasta = d' := by
    rw [disco_com_pasta, hc]
    rfl
  rw [hd]
  exact hb

theorem cadeia_raiz : Cadeia pequeno disco_com_pasta 2 [2] := .last (by decide +kernel)

theorem cadeia_pasta : Cadeia pequeno disco_com_pasta 3 [3] := .last (by decide +kernel)

theorem vivo_raiz {cs : List Nat} {x : Slot} (hc : Cadeia pequeno disco_com_pasta 2 cs)
    (hv : Vivo disco_com_pasta (entradas pequeno cs) x) :
    (dirent disco_com_pasta x).cluster = 3 := by
  obtain rfl := Lib.Links.Chain.unique hc cadeia_raiz
  have h : ∀ x ∈ entradas pequeno [2], (dirent disco_com_pasta x).first ≠ 0 →
    (dirent disco_com_pasta x).cluster = 3 := by decide +kernel
  exact h x hv.mem hv.first_ne

theorem vivo_pasta {cs : List Nat} {x : Slot} (hc : Cadeia pequeno disco_com_pasta 3 cs)
    (hv : Vivo disco_com_pasta (entradas pequeno cs) x) : EhPonto (dirent disco_com_pasta x) := by
  obtain rfl := Lib.Links.Chain.unique hc cadeia_pasta
  have h : ∀ x ∈ entradas pequeno [3], (dirent disco_com_pasta x).first ≠ 0 →
    (dirent disco_com_pasta x).raw11 = PONTO ∨ (dirent disco_com_pasta x).raw11 = PONTO_PONTO := by
    decide +kernel
  exact h x hv.mem hv.first_ne

theorem dirs_pasta {q : Nat} (h : Dir pequeno disco_com_pasta q) : q = 2 ∨ q = 3 := by
  induction h with
  | raiz => exact .inl rfl
  | sub _ hc hv hn _ _ ih =>
    rcases ih with rfl | rfl
    · exact .inr (vivo_raiz hc hv)
    · exact absurd (vivo_pasta hc hv) hn

theorem pasta_com_pontos : ComPontos pequeno disco_com_pasta where
  bem := pasta_bem
  raiz := by
    have h : (fat32_find pequeno disco_com_pasta 2 PONTO_PONTO).map Option.isNone = some true := by
      decide +kernel
    obtain ⟨r, hr, hn⟩ := Option.map_eq_some_iff.mp h
    exact hr.trans (congrArg some (Option.isNone_iff_eq_none.mp hn))
  sub := fun q name11 e hq h1 h2 hf _ => by
    obtain ⟨cs, x, hc, hv, rfl, hraw, _⟩ := find_vivo pasta_bem hq hf
    rcases dirs_pasta hq with rfl | rfl
    · rw [vivo_raiz hc hv]
      have h : (fat32_find pequeno disco_com_pasta 3 PONTO_PONTO).map (Option.map (volta pequeno)) =
        some (some 2) := by decide +kernel
      obtain ⟨r, hr, hn⟩ := Option.map_eq_some_iff.mp h
      obtain ⟨e', rfl, he'⟩ := Option.map_eq_some_iff.mp hn
      exact ⟨by decide, e', hr, he'⟩
    · have hp := vivo_pasta hc hv
      unfold EhPonto at hp
      rw [hraw] at hp
      exact absurd hp (not_or.mpr ⟨h1, h2⟩)

/-- The state after a call that returns. -/
def depois (s : CwdPath) (path : List UInt8) : CwdPath :=
  ((vfs_chdir pequeno disco_com_pasta s zero path).map (·.2)).getD s

theorem anda_depois {I : CwdPath → Buffer → List UInt8 → Prop} {s : CwdPath} {path : List UInt8}
    (h : Anda pequeno disco_com_pasta I s) (h0 : 0 ∉ path) (hI : I s zero path)
    (hr : (vfs_chdir pequeno disco_com_pasta s zero path).isSome) :
    Anda pequeno disco_com_pasta I (depois s path) := by
  obtain ⟨⟨r, s'⟩, hs⟩ := Option.isSome_iff_exists.mp hr
  have he : depois s path = s' := by
    unfold depois
    rw [hs]
    rfl
  rw [he]
  exact .passo h h0 hI hs

/-- The law after `cd A`. -/
theorem the_path_leads_to_a_directory : ∃ s,
    Anda pequeno disco_com_pasta (Fiel pequeno disco_com_pasta) s ∧ s.cluster = 3 ∧
      text s.path = [47, 65] ∧ Coerente pequeno disco_com_pasta s := by
  have hf : Fiel pequeno disco_com_pasta (vfs_init (some pequeno)) zero [65] := by
    rw [Fiel, if_neg (by decide), if_neg (by decide)]
    intro e he hd
    exact ⟨by decide, by decide, .passo he hd .fim⟩
  have h : Anda pequeno disco_com_pasta (Fiel pequeno disco_com_pasta)
    (depois (vfs_init (some pequeno)) [65]) :=
    anda_depois .inicio (by decide) hf (by decide +kernel)
  exact ⟨_, h, by decide +kernel, by decide +kernel,
    (the_path_leads_to_the_cluster pasta_com_pontos h).1⟩

/-- After `cd A` and `cd ..` the cluster is the one of the root and the path is still `/A`. -/
theorem the_path_stays_behind : ¬ ∀ v d, ComPontos v d → ∀ s, Anda v d (fun _ _ _ => True) s →
    Coerente v d s := by
  intro h
  have h1 : Anda pequeno disco_com_pasta (fun _ _ _ => True)
      (depois (depois (vfs_init (some pequeno)) [65]) [46, 46]) :=
    anda_depois (anda_depois .inicio (by decide) trivial (by decide +kernel)) (by decide) trivial
      (by decide +kernel)
  exact absurd (h _ _ pasta_com_pontos _ h1).resolve (by decide +kernel)

end SpaceOS.Vfs
