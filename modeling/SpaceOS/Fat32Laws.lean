-- Creating, writing and deleting files on a well formed FAT32 volume, in any order: the chains of
-- the objects end, none has a cluster twice, and no two have a cluster in common.
import SpaceOS.Fat32Entries

open Lib.Bytes Lib.Bytes.ByteStr Lib.Links

namespace SpaceOS.Fat32

section Passos

variable {v : Bpb} {d : Disco} {c n p : Nat} {cs : List Nat} {x : Slot} {name11 : List UInt8}
  {attr : UInt8}

/-! ## Names -/

theorem k_toupper_ne {a b : UInt8} (h : a ≠ b) (hb : b < 65) : k_toupper a ≠ b := by
  unfold k_toupper
  split
  · rename_i ha
    intro he
    have h1 := UInt8.le_iff_toNat_le.mp ha.1
    have h2 := UInt8.lt_iff_toNat_lt.mp hb
    have h3 := congrArg UInt8.toNat he
    rw [UInt8.toNat_sub_of_le _ _ (UInt8.le_iff_toNat_le.mpr (Nat.le_trans (by decide) h1))] at h3
    change 97 ≤ a.toNat at h1
    change b.toNat < 65 at h2
    change a.toNat - 32 = b.toNat at h3
    omega
  · exact h

theorem normalize_first_ponto (f : List UInt8) : (fat32_normalize f).getD 0 0 ≠ 46 := by
  unfold fat32_normalize com_espacos
  cases f with
  | nil => decide
  | cons a f =>
    by_cases ha : a = 46
    · subst ha
      simp
    · simp [ha]
      exact k_toupper_ne ha (by decide)

theorem normalize_first {f : List UInt8} (h : 0 ∉ f) :
    (fat32_normalize f).getD 0 0 ≠ 0 ∧ (fat32_normalize f).getD 0 0 ≠ 46 := by
  refine ⟨?_, normalize_first_ponto f⟩
  unfold fat32_normalize com_espacos
  cases f with
  | nil => decide
  | cons a f =>
    by_cases ha : a = 46
    · subst ha
      simp
    · have hne : a ≠ 0 := fun h0 => h (h0 ▸ List.mem_cons_self)
      simp [ha]
      exact k_toupper_ne hne (by decide)

theorem normalize_ponto (f : List UInt8) :
    fat32_normalize f ≠ PONTO ∧ fat32_normalize f ≠ PONTO_PONTO :=
  ⟨fun he => normalize_first_ponto f (by rw [he]; rfl),
    fun he => normalize_first_ponto f (by rw [he]; rfl)⟩

/-! ## Create -/

theorem acha_livre {ss : List Slot} (h : ss.findSome? (olha_livre d) = some x) :
    ∃ pre post, Livre d ss pre post x := by
  obtain ⟨pre, y, post, hss, hy, hpre⟩ := List.findSome?_eq_some_iff.mp h
  unfold olha_livre at hy
  split at hy
  · rename_i hf
    obtain rfl := Option.some.inj hy
    refine ⟨pre, post, hss, fun z hz => ?_, hf⟩
    have hnone := hpre z hz
    unfold olha_livre at hnone
    split at hnone
    · exact absurd hnone (by simp)
    · rename_i hn
      exact not_or.mp hn
  · exact absurd hy (by simp)

/-- The entries of the directory after a create: the first free one is the new one, and the ones
before it are as they were. -/
structure Criado (v : Bpb) (d d' : Disco) (p : Nat) (cs : List Nat) (c : Nat) (e : Dirent) :
    Prop where
  cadeia : Cadeia v d' p cs
  fora : c ∉ cs
  novo : ∃ pre post x, Livre d (entradas v cs) pre post x ∧ dirent d' x = e ∧
    ∀ y ∈ pre, dirent d' y = dirent d y

/-- What a create does to the directories: one entry is new, and a new directory is empty. -/
structure Acresce (v : Bpb) (d d' : Disco) (p : Nat) (c : Nat) (e : Dirent) (x : Slot) :
    Prop where
  faixa : EmFaixa v c
  lugar : ∀ cs, Cadeia v d p cs → x ∈ entradas v cs
  novo : dirent d' x = e
  entre : Entre v (· = x) (fun q => q = c ∧ Cadeia v d' c [c] ∧ PastaNova v d' c) d d'

theorem Livre.transfere {d' : Disco} {ss pre post : List Slot} (h : Livre d' ss pre post x)
    (he : ∀ y ∈ ss, dirent d' y = dirent d y) : Livre d ss pre post x := by
  have hss := h.eq
  refine ⟨hss, fun y hy => ?_, ?_⟩
  · rw [← he y (hss ▸ List.mem_append_left _ hy)]
    exact h.antes y hy
  · rw [← he x (hss ▸ List.mem_append_right _ List.mem_cons_self)]
    exact h.livre

/-- The new cluster of `fat32_create`, before its entry is written. -/
theorem cluster_novo (h : BemFormado v d) (hn : EmFaixa v n) (h0 : fat32_read_fat v d n = 0)
    (p : Nat) (attr : UInt8) (d' : Disco)
    (hd' : d' = if attr &&& FAT32_ATTR_DIR ≠ 0 then
        pontos v (zera_cluster v (fat32_write_fat_entry v d n 0x0FFFFFFF) n) n p
      else zera_cluster v (fat32_write_fat_entry v d n 0x0FFFFFFF) n) :
    Avulsa v d' n [n] ∧ (attr &&& FAT32_ATTR_DIR ≠ 0 → PastaNova v d' n) ∧ SoEm v [n] d d' := by
  have ha := aloca h hn h0
  have hz := so_dados_zera h.geo hn (fat32_write_fat_entry v d n 0x0FFFFFFF)
  have hm := so_em_fat (d := d) h.geo hn 0x0FFFFFFF
  subst hd'
  split
  · have hp := hz.trans (so_dados_pontos h.geo hn p _)
    exact ⟨ha.dados hp, fun _ => pasta_nova h.geo, hm.trans hp.so_em⟩
  · rename_i hnd
    exact ⟨ha.dados hz, fun hd => absurd hd hnd, hm.trans hz.so_em⟩

/-- The volume where `fat32_create` looks for a free entry: the cluster `n` is taken. -/
structure Tomado (v : Bpb) (d : Disco) (attr : UInt8) (n : Nat) (d' : Disco) : Prop where
  faixa : EmFaixa v n
  livre : fat32_read_fat v d n = 0
  avulsa : Avulsa v d' n [n]
  pasta : attr &&& FAT32_ATTR_DIR ≠ 0 → PastaNova v d' n
  so_em : SoEm v [n] d d'

/-- The steps of `fat32_create`: no cluster is free, or one is taken, and then the directory has no
free entry, or the first one is written. -/
theorem create_passos (h : BemFormado v d) (hp : Dir v d p) {cs : List Nat} (hc : Cadeia v d p cs)
    (name11 : List UInt8) (attr : UInt8) :
    (Cheio v d ∧ fat32_create v d p name11 attr = some (0, d)) ∨
      ∃ n d', Tomado v d attr n d' ∧
        (((∀ y ∈ entradas v cs, olha_livre d' y = none) ∧
            fat32_create v d p name11 attr = some (0, d')) ∨
          ∃ pre post x, Livre d' (entradas v cs) pre post x ∧ fat32_create v d p name11 attr =
            some (n, gravar_dirent d' x (novo_dirent name11 attr n))) := by
  unfold fat32_create
  rcases alloc_spec v d with ⟨hcheio, halloc⟩ | ⟨n, hn, h0, halloc⟩
  · rw [halloc]
    exact Or.inl ⟨hcheio, rfl⟩
  right
  rw [halloc]
  have hn0 : n ≠ 0 := by
    unfold EmFaixa at hn
    omega
  dsimp only
  rw [if_neg hn0]
  generalize hd' : (if attr &&& FAT32_ATTR_DIR ≠ 0 then
      pontos v (zera_cluster v (fat32_write_fat_entry v d n 0x0FFFFFFF) n) n p
    else zera_cluster v (fat32_write_fat_entry v d n 0x0FFFFFFF) n) = d'
  obtain ⟨ha, hnova, hm⟩ := cluster_novo h hn h0 p attr d' hd'.symm
  obtain ⟨hc', _⟩ := ((solta_livre h0).pastas h hm).entradas hp hc
  refine ⟨n, d', ⟨hn, h0, ha, hnova, hm⟩, ?_⟩
  rw [percorre_voltas h.geo hc']
  rcases hf : (cs.flatMap (slots v)).findSome? (olha_livre d') with _ | x
  · exact Or.inl ⟨List.findSome?_eq_none_iff.mp hf, rfl⟩
  · obtain ⟨pre, post, hl⟩ := acha_livre hf
    exact Or.inr ⟨pre, post, x, hl, rfl⟩

/-- A call of `fat32_create` returns, and the volume is well formed again; the new cluster of a file
is its chain. -/
theorem create_spec (h : BemFormado v d) (hp : Dir v d p) (hname : name11.getD 0 0 ≠ 0)
    (hattr : attr = FAT32_ATTR_DIR ∨ attr = FAT32_ATTR_ARCHIVE) :
    ∃ c d', fat32_create v d p name11 attr = some (c, d') ∧ BemFormado v d' ∧
      (attr = FAT32_ATTR_ARCHIVE → c ≠ 0 → Arq v d' c [c]) ∧
      (c ≠ 0 → ∀ cs, Cadeia v d p cs → Criado v d d' p cs c (novo_dirent name11 attr c)) ∧
      (c = 0 → Reduz v d d' ∧ (d' = d → Cheio v d)) ∧
      (c ≠ 0 → ∃ x, Acresce v d d' p c (novo_dirent name11 attr c) x) := by
  obtain ⟨cs, hc⟩ := h.cadeia hp
  rcases create_passos h hp hc name11 attr with ⟨hcheio, hcria⟩ | ⟨n, d', ht, hcria⟩
  · rw [hcria]
    exact ⟨0, d, rfl, h, fun _ hne => absurd rfl hne, fun hne => absurd rfl hne,
      fun _ => ⟨Reduz.refl v d, fun _ => hcheio⟩, fun hne => absurd rfl hne⟩
  obtain ⟨hn, h0, ha, hnova, hm⟩ := ht
  have hpastas := (solta_livre h0).pastas h hm
  obtain ⟨hc', hsame⟩ := hpastas.entradas hp hc
  have hp' := hpastas.dir hp
  have hreduz := hpastas.reduz h
  rcases hcria with ⟨_, hcria⟩ | ⟨pre, post, x, hl, hcria⟩
  · rw [hcria]
    refine ⟨0, d', rfl, ha.bem, fun _ hne => absurd rfl hne, fun hne => absurd rfl hne,
      fun _ => ⟨hreduz, fun he => ?_⟩, fun hne => absurd rfl hne⟩
    -- the new cluster is in use now, though no entry has it
    rw [he] at ha
    exact absurd h0 (ha.cadeia.em_uso List.mem_cons_self)
  · rw [hcria]
    have hlt := hn.lt_eof h.geo
    have heof := eof_eq
    have hvol : (novo_dirent name11 attr n).attr &&& FAT32_ATTR_VOLUME = 0 := by
      rw [novo_attr]
      rcases hattr with rfl | rfl
      · decide
      · decide
    obtain ⟨hb, harq, hentre⟩ := nova_entrada (e := novo_dirent name11 attr n) ha hp' hc' hl
      (by rw [novo_first]; exact hname) (novo_cluster (by omega)) hvol hnova
    have hss : entradas v cs = pre ++ x :: post := hl.eq
    have hx : x ∈ entradas v cs := hss ▸ List.mem_append_right _ List.mem_cons_self
    have hn0 : n ≠ 0 := Cadeia.ne_zero ha.cadeia
    refine ⟨n, _, rfl, hb, fun harc _ => harq ?_, fun _ ks hk => ?_, fun h0 => absurd h0 hn0,
      fun _ => ⟨x, hn, fun ks hk => Chain.unique hc hk ▸ hx, dirent_escrita ha.bem hc' hx,
        hreduz.entre hentre⟩⟩
    · unfold EhDir
      rw [novo_attr, harc]
      decide
    · obtain rfl := Chain.unique hc hk
      have hnd : (entradas v cs).Nodup := entradas_nodup h.geo hc'
      rw [hss] at hnd
      refine ⟨(cadeia_dirent ha.bem hc' hx).mpr hc', hc.livre h0, pre, post, x,
        hl.transfere hsame, dirent_escrita ha.bem hc' hx, fun y hy => ?_⟩
      have hmem : y ∈ entradas v cs := hss ▸ List.mem_append_left _ hy
      rw [dirent_outra ha.bem hc' hmem, hsame y hmem]
      exact (List.nodup_append.mp hnd).2.2 y hy x List.mem_cons_self

/-- On a full disk `fat32_create` fails and leaves the volume. -/
theorem create_cheio (h : Cheio v d) (p : Nat) (name11 : List UInt8) (attr : UInt8) :
    fat32_create v d p name11 attr = some (0, d) := by
  unfold fat32_create
  rcases alloc_spec v d with ⟨_, halloc⟩ | ⟨n, hn, h0, _⟩
  · rw [halloc]
    rfl
  · exact absurd h0 (h n hn)

/-! ## Write -/

/-- Where the loop of `fat32_write_file` is: at a cluster of the chain, or past its last one. -/
def NaCadeia (v : Bpb) (d : Disco) (cs : List Nat) (cluster prev_cluster : Nat) : Prop :=
  cluster ∈ cs ∨ cluster ≥ FAT32_EOF ∧ prev_cluster ∈ cs ∧ elo v d prev_cluster = some none

/-- The sectors of a cluster of the chain are written, and the loop goes to the next one. -/
theorem passo_write (dados : List UInt8) (h : Arq v d c cs) (hn : n ∈ cs) :
    Arq v (grava_cluster v d n dados) c cs ∧ SoEm v cs d (grava_cluster v d n dados) ∧
      NaCadeia v (grava_cluster v d n dados) cs
        (fat32_read_fat v (grava_cluster v d n dados) n) n := by
  have hm := so_dados_grava h.bem.geo (h.cadeia.em_faixa hn) dados d
  have h' := h.dados hn hm
  refine ⟨h', hm.so_em.mono fun x hx => (List.mem_singleton.mp hx) ▸ hn, ?_⟩
  have hl := h'.cadeia.linked n hn
  rcases he : elo v (grava_cluster v d n dados) n with _ | _ | m
  · exact absurd he hl
  · exact Or.inr ⟨elo_none he, hn, he⟩
  · rw [(elo_some he).1]
    exact Or.inl (h'.cadeia.next_mem hn he)

theorem write_laco_spec (fuel : Nat) {prev_cluster : Nat} {dados : List UInt8}
    (h : Arq v d c cs) (hl : NaCadeia v d cs n prev_cluster) (hf : dados.length < fuel) :
    ∃ r d' cs', write_laco v fuel d n prev_cluster dados = some (r, d') ∧ Arq v d' c cs' ∧
      Poupa v cs d d' := by
  induction fuel generalizing d n prev_cluster dados cs with
  | zero => omega
  | succ fuel ih =>
    rw [write_laco]
    by_cases hd : dados = []
    · rw [if_pos hd]
      exact ⟨0, d, cs, rfl, h, Poupa.refl v cs d⟩
    rw [if_neg hd]
    have hlen : (dados.drop (512 * v.spc)).length < fuel := by
      have := List.length_pos_iff.mpr hd
      have := h.bem.geo.spc_pos
      rw [List.length_drop]
      omega
    rcases hl with hn | ⟨hge, hz, he⟩
    · have hr := h.cadeia.em_faixa hn
      have hlt := hr.lt_eof h.bem.geo
      have hn0 : n ≠ 0 := by
        unfold EmFaixa at hr
        omega
      rw [if_neg (by omega)]
      dsimp only
      rw [if_neg hn0]
      obtain ⟨h', hm, hl'⟩ := passo_write dados h hn
      obtain ⟨r, d', cs', hw, ha, hp⟩ := ih h' hl' hlen
      exact ⟨r, d', cs', hw, ha, hm.poupa.trans hp⟩
    · rw [if_pos (Or.inr hge)]
      rcases alloc_spec v d with ⟨_, halloc⟩ | ⟨m, hm, h0, halloc⟩
      · rw [halloc]
        exact ⟨-1, d, cs, rfl, h, Poupa.refl v cs d⟩
      · have hr := h.cadeia.em_faixa hz
        have hm0 : m ≠ 0 := by
          unfold EmFaixa at hm
          omega
        have hz0 : prev_cluster ≠ 0 := by
          unfold EmFaixa at hr
          omega
        rw [halloc]
        dsimp only
        rw [if_neg hm0, if_pos hz0]
        dsimp only
        rw [if_neg hm0]
        have hmem : m ∈ cs ++ [m] := List.mem_append_right _ (List.mem_singleton.mpr rfl)
        obtain ⟨h', hg, hl'⟩ := passo_write dados (h.liga hz he hm h0) hmem
        obtain ⟨r, d', cs', hw, ha, hp⟩ := ih h' hl' hlen
        have hlig := so_em_liga (d := d) h.bem.geo hz hr hm
        exact ⟨r, d', cs', hw, ha, hp.livre h0 (hlig.trans hg)⟩

/-- A call of `fat32_write_file` returns, also where the disk gets full, and the volume is well
formed; only the clusters of the file and free ones change. -/
theorem write_spec (buf : List UInt8) (h : Arq v d c cs) :
    ∃ r d' cs', fat32_write_file v d c buf = some (r, d') ∧ Arq v d' c cs' ∧ Poupa v cs d d' := by
  obtain ⟨r, d', cs', hw, h'⟩ := write_laco_spec (buf.length + 1) h
    (Or.inl (Chain.head_mem h.cadeia) : NaCadeia v d cs c 0) (Nat.lt_succ_self buf.length)
  unfold fat32_write_file
  rw [hw]
  exact ⟨_, d', cs', rfl, h'⟩

/-- The same where there is no cluster yet. -/
theorem write_zero_spec (buf : List UInt8) (h : BemFormado v d) :
    ∃ r d', fat32_write_file v d 0 buf = some (r, d') ∧ BemFormado v d' := by
  unfold fat32_write_file
  rw [write_laco]
  by_cases hd : buf = []
  · rw [if_pos hd]
    exact ⟨_, d, rfl, h⟩
  rw [if_neg hd, if_pos (Or.inl rfl)]
  rcases alloc_spec v d with ⟨_, halloc⟩ | ⟨m, hm, h0, halloc⟩
  · rw [halloc]
    exact ⟨_, d, rfl, h⟩
  · have hm0 : m ≠ 0 := by
      unfold EmFaixa at hm
      omega
    rw [halloc]
    dsimp only
    rw [if_neg hm0]
    dsimp only
    rw [if_neg hm0, if_neg (not_not.mpr rfl)]
    have hlen : (buf.drop (512 * v.spc)).length < buf.length := by
      have := List.length_pos_iff.mpr hd
      have := h.geo.spc_pos
      rw [List.length_drop]
      omega
    obtain ⟨h', _, hl'⟩ := passo_write buf (aloca h hm h0).arq (List.mem_singleton.mpr rfl)
    obtain ⟨r, d', _, hw, ha, _⟩ := write_laco_spec _ h' hl' hlen
    rw [hw]
    exact ⟨_, d', rfl, ha.bem⟩

/-! ## Delete -/

theorem apagado_first (e : Dirent) : (apagado e).first = 0xE5 := rfl

/-- An entry that a search may take. -/
structure Serve (d : Disco) (name11 : List UInt8) (x : Slot) : Prop where
  first : (dirent d x).first ≠ 0
  marca : (dirent d x).first ≠ 0xE5
  lfn : (dirent d x).attr ≠ FAT32_ATTR_LFN
  nome : (dirent d x).raw11 = name11

theorem olha_find_iff {z : Slot} : olha_find d name11 x = some (some z) ↔
    z = x ∧ Serve d name11 x ∧ (dirent d x).attr &&& FAT32_ATTR_VOLUME = 0 := by
  unfold olha_find
  dsimp only
  constructor
  · intro h
    split at h
    · cases h
    split at h
    · cases h
    split at h
    · cases h
    split at h
    · cases h
    split at h
    · cases h
      rename_i h0 h5 hl hv hn
      exact ⟨rfl, ⟨h0, h5, hl, hn⟩, not_not.mp hv⟩
    · cases h
  · rintro ⟨rfl, ⟨h0, h5, hl, hn⟩, hv⟩
    rw [if_neg h0, if_neg h5, if_neg hl, if_neg (not_not.mpr hv), if_pos hn]

theorem olha_delete_iff {z : Slot} : olha_delete d name11 x = some (some z) ↔
    z = x ∧ Serve d name11 x := by
  unfold olha_delete
  dsimp only
  constructor
  · intro h
    split at h
    · cases h
    split at h
    · cases h
    split at h
    · cases h
    split at h
    · cases h
      rename_i h0 h5 hl hn
      exact ⟨rfl, h0, h5, hl, hn⟩
    · cases h
  · rintro ⟨rfl, h0, h5, hl, hn⟩
    rw [if_neg h0, if_neg h5, if_neg hl, if_pos hn]

/-- A search goes past an entry that is not the end marker. -/
theorem Serve.vivo {pre post : List Slot} (h : Serve d name11 x)
    (hpre : ∀ y ∈ pre, (dirent d y).first ≠ 0) : Vivo d (pre ++ x :: post) x := by
  refine ⟨?_, h.marca, h.lfn⟩
  rw [(takeWhile_meio post (fun y hy => decide_eq_true (hpre y hy)) (decide_eq_true h.first)).1]
  exact List.mem_append_right _ List.mem_cons_self

theorem first_ne_of_delete {y : Slot} (h : olha_delete d name11 y = none) :
    (dirent d y).first ≠ 0 := fun h0 => by
  unfold olha_delete at h
  rw [if_pos h0] at h
  cases h

theorem first_ne_of_find {y : Slot} (h : olha_find d name11 y = none) :
    (dirent d y).first ≠ 0 := fun h0 => by
  unfold olha_find at h
  rw [if_pos h0] at h
  cases h

/-- What `fat32_delete` finds: a live entry with the name. -/
theorem acha_delete {ss : List Slot}
    (h : ss.findSome? (olha_delete d name11) = some (some x)) :
    Vivo d ss x ∧ (dirent d x).raw11 = name11 := by
  obtain ⟨pre, y, post, rfl, hy, hpre⟩ := List.findSome?_eq_some_iff.mp h
  obtain ⟨rfl, hs⟩ := olha_delete_iff.mp hy
  exact ⟨hs.vivo fun z hz => first_ne_of_delete (hpre z hz), hs.nome⟩

/-- What `fat32_find` finds: a live entry with the name, and no label. -/
theorem acha_find {ss : List Slot}
    (h : ss.findSome? (olha_find d name11) = some (some x)) :
    Vivo d ss x ∧ (dirent d x).raw11 = name11 ∧ (dirent d x).attr &&& FAT32_ATTR_VOLUME = 0 := by
  obtain ⟨pre, y, post, rfl, hy, hpre⟩ := List.findSome?_eq_some_iff.mp h
  obtain ⟨rfl, hs, hv⟩ := olha_find_iff.mp hy
  exact ⟨hs.vivo fun z hz => first_ne_of_find (hpre z hz), hs.nome, hv⟩

/-- The volume after the live entry `x` got the mark of a deleted one. -/
structure Marcou (v : Bpb) (d d' : Disco) (x : Slot) : Prop where
  cadeia : ∀ a as, Cadeia v d' a as ↔ Cadeia v d a as
  antes : (dirent d x).first ≠ 0
  marca : (dirent d' x).first = 0xE5
  outros : ∀ q ks, Cadeia v d q ks → ∀ y ∈ entradas v ks, y ≠ x → dirent d' y = dirent d y

section Marcou

variable {d' : Disco}

/-- The end marker of a directory stays where it was. -/
theorem Marcou.mesmo_fim (hm : Marcou v d d' x) {q : Nat} {ks : List Nat} (hk : Cadeia v d q ks) :
    ∀ y ∈ entradas v ks, decide ((dirent d' y).first ≠ 0) = decide ((dirent d y).first ≠ 0) := by
  intro y hy
  by_cases hyx : y = x
  · subst hyx
    rw [hm.marca, decide_eq_true hm.antes]
    rfl
  · rw [hm.outros q ks hk y hy hyx]

theorem Marcou.vivos (hm : Marcou v d d' x) {q : Nat} {ks : List Nat} (hk : Cadeia v d q ks)
    {y : Slot} (hy : Vivo d' (entradas v ks) y) :
    Vivo d (entradas v ks) y ∧ dirent d' y = dirent d y := by
  have hyx : y ≠ x := by
    rintro rfl
    exact hy.2.1 hm.marca
  have he := hm.outros q ks hk y hy.mem hyx
  obtain ⟨h1, h2, h3⟩ := hy
  rw [(takeWhile_congr (hm.mesmo_fim hk)).1] at h1
  rw [he] at h2 h3
  exact ⟨⟨h1, h2, h3⟩, he⟩

/-- There is one object less. -/
theorem Marcou.objetos (hm : Marcou v d d' x) (h : BemFormado v d) :
    (∀ q, Dir v d' q → Dir v d q) ∧ ∀ o c, Objeto v d' o c → Objeto v d o c ∧ o ≠ some x := by
  obtain ⟨hdirs, hobjs⟩ := h.transfere d' (fun _ _ => False)
    (fun q ks _ hk => ⟨(hm.cadeia q ks).mpr hk, fun y hv _ => Or.inl (hm.vivos hk hv)⟩)
    (fun _ _ hf _ => hf.elim)
  refine ⟨fun q hq => (hdirs q hq).resolve_right fun ⟨_, hf, _⟩ => hf, fun o c ho => ?_⟩
  refine ⟨(hobjs o c ho).resolve_right fun ⟨_, _, hf⟩ => hf, ?_⟩
  rintro rfl
  cases ho with
  | entrada _ _ hv _ => exact hv.2.1 hm.marca

/-- The way from the root to a directory does not pass the entry, or it passes the directory of the
entry before. -/
theorem Marcou.caminho (hm : Marcou v d d' x) (h : BemFormado v d) (hp : Dir v d p)
    (hc : Cadeia v d p cs) (hx : Vivo d (entradas v cs) x) {q : Nat} (hq : Dir v d q) :
    Dir v d' q ∨ Dir v d' p := by
  induction hq with
  | raiz => exact Or.inl .raiz
  | @sub q as y hq ha hv hny hdir hne ih =>
    rcases ih with ih | ih
    · by_cases hyx : y = x
      · subst hyx
        obtain rfl := fora_de_outra h hp hc hx.mem hq ha hv.mem
        exact Or.inr ih
      · have hy := hm.outros q as ha y hv.mem hyx
        obtain ⟨h1, h2, h3⟩ := hv
        rw [← (takeWhile_congr (hm.mesmo_fim ha)).1] at h1
        rw [← hy] at h2 h3 hny hdir hne ⊢
        exact Or.inl (.sub ih ((hm.cadeia q as).mpr ha) ⟨h1, h2, h3⟩ hny hdir hne)
    · exact Or.inr ih

theorem Marcou.bem (hm : Marcou v d d' x) (h : BemFormado v d) : BemFormado v d' := by
  obtain ⟨hdirs, hobjs⟩ := hm.objetos h
  refine ⟨h.geo, h.raiz, ?_, ?_, ?_, ?_⟩
  · intro o c ho hne
    obtain ⟨as, ha⟩ := h.cadeias o c (hobjs o c ho).1 hne
    exact ⟨as, (hm.cadeia c as).mpr ha⟩
  · intro o o' c c' as as' ho ho' hne ha ha'
    exact h.disjuntas o o' c c' as as' (hobjs o c ho).1 (hobjs o' c' ho').1 hne
      ((hm.cadeia c as).mp ha) ((hm.cadeia c' as').mp ha')
  · intro q as y hq ha hv hvl
    have ha := (hm.cadeia q as).mp ha
    obtain ⟨hv', hy⟩ := hm.vivos ha hv
    rw [hy] at hvl ⊢
    exact h.rotulos q as y (hdirs q hq) ha hv' hvl
  · intro q as hq ha
    have ha := (hm.cadeia q as).mp ha
    unfold Fim
    rw [(takeWhile_congr (hm.mesmo_fim ha)).2]
    intro y hy
    have hf := h.fim q as (hdirs q hq) ha y hy
    have he := hm.mesmo_fim ha y (List.dropWhile_subset _ hy)
    rw [hf] at he
    simpa using he

end Marcou

theorem marcou_gravar (h : BemFormado v d) (hc : Cadeia v d p cs) (hx : Vivo d (entradas v cs) x)
    {e : Dirent} (h5 : e.first = 0xE5) : Marcou v d (gravar_dirent d x e) x where
  cadeia _ _ := cadeia_dirent h hc hx.mem
  antes := hx.first_ne
  marca := by rw [dirent_escrita h hc hx.mem, h5]
  outros _ _ hk _ hy hne := dirent_outra h hk hy hne

/-- The mark takes one object away; its chain is of no object then. -/
theorem apaga_entrada (h : BemFormado v d) (hp : Dir v d p) (hc : Cadeia v d p cs)
    (hx : Vivo d (entradas v cs) x) (hn : ¬ EhPonto (dirent d x)) {e : Dirent}
    (h5 : e.first = 0xE5) :
    BemFormado v (gravar_dirent d x e) ∧
      (∀ ks, Cadeia v d (dirent d x).cluster ks →
        Cadeia v (gravar_dirent d x e) (dirent d x).cluster ks ∧
        Solta v (gravar_dirent d x e) ks) ∧
      Dir v (gravar_dirent d x e) p ∧ Reduz v d (gravar_dirent d x e) := by
  have hm := marcou_gravar h hc hx h5
  obtain ⟨hdirs, hobjs⟩ := hm.objetos h
  refine ⟨hm.bem h, fun ks hk => ⟨(hm.cadeia _ ks).mpr hk, ?_⟩, ?_, ?_⟩
  · intro o c as ho ha z hz hz'
    obtain ⟨ho, hne⟩ := hobjs o c ho
    exact h.disjuntas o (some x) c _ as ks ho (.entrada hp hc hx hn) hne ((hm.cadeia c as).mp ha)
      hk z hz' hz
  · exact (hm.caminho h hp hc hx hp).elim id id
  · intro q as hq ha
    have ha := (hm.cadeia q as).mp ha
    exact Or.inr ⟨hdirs q hq, ha, fun y hv => Or.inr (hm.vivos ha hv)⟩

/-- The volume after the entry `x` of a directory was deleted. -/
structure Apagou (v : Bpb) (d d' : Disco) (p : Nat) (cs : List Nat) (x : Slot) : Prop where
  bem : BemFormado v d'
  dir : Dir v d' p
  cadeia : Cadeia v d' p cs
  marca : dirent d' x = apagado (dirent d x)
  outros : ∀ y ∈ entradas v cs, y ≠ x → dirent d' y = dirent d y
  reduz : Reduz v d d'

theorem Apagou.pastas {d' d'' : Disco} (h : Apagou v d d' p cs x) (hx : x ∈ entradas v cs)
    (hb : BemFormado v d'') (hp : Pastas v d' d'') : Apagou v d d'' p cs x := by
  obtain ⟨hc, he⟩ := hp.entradas h.dir h.cadeia
  refine ⟨hb, hp.dir h.dir, hc, (he x hx).trans h.marca, fun y hy hne => ?_,
    h.reduz.reduz (hp.reduz h.bem)⟩
  exact (he y hy).trans (h.outros y hy hne)

/-- The volume `d'` with the mark at `x`, and what is left when the chain of the entry is freed. -/
structure Liberado (v : Bpb) (d : Disco) (x : Slot) (d' d'' : Disco) (ks : List Nat) : Prop where
  marcado : d' = gravar_dirent d x (apagado (dirent d x))
  libera : libera v (voltas v) d' (dirent d x).cluster = some d''
  cadeia : ∀ as, Cadeia v d (dirent d x).cluster as → as = ks ∧ Cadeia v d' (dirent d x).cluster ks
  solta : Solta v d' ks
  so_em : SoEm v ks d' d''
  nada : (dirent d x).cluster = 0 → d'' = d'

/-- The steps of `fat32_delete`: an entry that is found is marked, and its chain is freed. -/
theorem delete_passos (h : BemFormado v d) (hp : Dir v d p) (hc : Cadeia v d p cs)
    (hname : name11 ≠ PONTO ∧ name11 ≠ PONTO_PONTO)
    (hf : (entradas v cs).findSome? (olha_delete d name11) = some (some x)) :
    ∃ d' d'' ks, Liberado v d x d' d'' ks ∧ fat32_delete v d p name11 = some (0, d'') ∧
      Apagou v d d' p cs x := by
  obtain ⟨hv, hraw⟩ := acha_delete hf
  have hn : ¬ EhPonto (dirent d x) := by
    unfold EhPonto
    rw [hraw]
    exact not_or.mpr hname
  obtain ⟨hb, hsolta, hdir, hreduz⟩ := apaga_entrada h hp hc hv hn (apagado_first (dirent d x))
  have hmarcado : Apagou v d (gravar_dirent d x (apagado (dirent d x))) p cs x := by
    exact ⟨hb, hdir, (cadeia_dirent h hc hv.mem).mpr hc, dirent_escrita h hc hv.mem,
      fun y hy hne => dirent_outra h hc hy hne, hreduz⟩
  unfold fat32_delete
  rw [percorre_voltas h.geo hc, show (cs.flatMap (slots v)).findSome? _ = _ from hf,
    Option.bind_some]
  dsimp only
  by_cases h0 : (dirent d x).cluster = 0
  · have hl : libera v (voltas v) (gravar_dirent d x (apagado (dirent d x)))
        (dirent d x).cluster = some (gravar_dirent d x (apagado (dirent d x))) := by
      unfold voltas
      rw [libera, if_neg (by omega)]
    refine ⟨_, _, [], ⟨rfl, hl, fun as ha => absurd h0 (Cadeia.ne_zero ha),
      fun _ _ _ _ _ _ hz => absurd hz List.not_mem_nil, SoEm.refl v [] _, fun _ => rfl⟩, ?_,
      hmarcado⟩
    rw [hl]
    rfl
  · obtain ⟨ks, hk⟩ := h.cadeias _ _ (.entrada hp hc hv hn) h0
    obtain ⟨hk', hs⟩ := hsolta ks hk
    obtain ⟨d'', hl, hm⟩ := libera_spec h.geo hk'
      (Nat.lt_of_le_of_lt hk'.length_le (by unfold voltas; omega) : ks.length < voltas v)
    refine ⟨_, d'', ks, ⟨rfl, hl, fun as ha => ⟨Chain.unique ha hk, hk'⟩, hs, hm,
      fun he => absurd he h0⟩, ?_, hmarcado⟩
    rw [hl]
    rfl

theorem delete_achou (h : BemFormado v d) (hp : Dir v d p) (hc : Cadeia v d p cs)
    (hname : name11 ≠ PONTO ∧ name11 ≠ PONTO_PONTO)
    (hf : (entradas v cs).findSome? (olha_delete d name11) = some (some x)) :
    ∃ d', fat32_delete v d p name11 = some (0, d') ∧ Apagou v d d' p cs x := by
  obtain ⟨d', d'', ks, hl, hd, ha⟩ := delete_passos h hp hc hname hf
  exact ⟨d'', hd, ha.pastas (acha_delete hf).1.mem (ha.bem.muda_solta hl.solta hl.so_em).1
    (hl.solta.pastas ha.bem hl.so_em)⟩

/-- A call of `fat32_delete` returns, and the volume is well formed again. -/
theorem delete_spec (h : BemFormado v d) (hp : Dir v d p)
    (hname : name11 ≠ PONTO ∧ name11 ≠ PONTO_PONTO) :
    ∃ r d', fat32_delete v d p name11 = some (r, d') ∧ BemFormado v d' ∧ Reduz v d d' := by
  obtain ⟨cs, hc⟩ := h.cadeia hp
  rcases hf : (entradas v cs).findSome? (olha_delete d name11) with _ | _ | x
  · refine ⟨-1, d, ?_, h, Reduz.refl v d⟩
    unfold fat32_delete
    rw [percorre_voltas h.geo hc, show (cs.flatMap (slots v)).findSome? _ = _ from hf]
    rfl
  · refine ⟨-1, d, ?_, h, Reduz.refl v d⟩
    unfold fat32_delete
    rw [percorre_voltas h.geo hc, show (cs.flatMap (slots v)).findSome? _ = _ from hf]
    rfl
  · obtain ⟨d', hd, ha⟩ := delete_achou h hp hc hname hf
    exact ⟨0, d', hd, ha.bem, ha.reduz⟩

/-! ## An empty volume -/

/-- A volume whose root has one cluster and no entry has no other directory, and no live entry. -/
theorem sem_vivos (hc : Cadeia v d v.root_cluster [v.root_cluster])
    (h0 : ∀ y ∈ slots v v.root_cluster, (dirent d y).first = 0) {q : Nat} (hq : Dir v d q) :
    q = v.root_cluster ∧ ∀ cs, Cadeia v d q cs → (∀ y ∈ entradas v cs, (dirent d y).first = 0) ∧
      ∀ y, ¬ Vivo d (entradas v cs) y := by
  have hss : ∀ cs, Cadeia v d v.root_cluster cs →
      (∀ y ∈ entradas v cs, (dirent d y).first = 0) ∧ ∀ y, ¬ Vivo d (entradas v cs) y := by
    intro cs hcs
    obtain rfl := Chain.unique hcs hc
    rw [entradas, List.flatMap_singleton]
    exact ⟨h0, fun y hv => hv.first_ne (h0 y hv.mem)⟩
  induction hq with
  | raiz => exact ⟨rfl, hss⟩
  | sub _ hcs hv _ _ _ ih => exact absurd hv ((ih.2 _ hcs).2 _)

/-- Such a volume is well formed. -/
theorem bem_vazio (g : Geometria v) (hr : v.root_cluster ≠ 0)
    (hc : Cadeia v d v.root_cluster [v.root_cluster])
    (h0 : ∀ y ∈ slots v v.root_cluster, (dirent d y).first = 0) : BemFormado v d := by
  have hobj : ∀ o c, Objeto v d o c → o = none ∧ c = v.root_cluster := by
    intro o c ho
    cases ho with
    | raiz => exact ⟨rfl, rfl⟩
    | entrada hp hcs hv _ => exact absurd hv (((sem_vivos hc h0 hp).2 _ hcs).2 _)
  refine ⟨g, hr, ?_, ?_, ?_, ?_⟩
  · intro o c ho _
    obtain ⟨_, rfl⟩ := hobj o c ho
    exact ⟨_, hc⟩
  · intro o o' c c' _ _ ho ho' hne _ _ _ _ _
    exact hne ((hobj o c ho).1.trans (hobj o' c' ho').1.symm)
  · intro q cs y hq hcs hv _
    exact absurd hv (((sem_vivos hc h0 hq).2 cs hcs).2 y)
  · intro q cs hq hcs y hy
    exact ((sem_vivos hc h0 hq).2 cs hcs).1 y (List.dropWhile_subset _ hy)

/-- The first chain of an empty volume. -/
theorem raiz_vazia (g : Geometria v) (hr : EmFaixa v v.root_cluster) :
    Cadeia v (fat32_write_fat_entry v (fun _ => zero) v.root_cluster 0x0FFFFFFF) v.root_cluster
        [v.root_cluster] ∧
      ∀ y ∈ slots v v.root_cluster, (dirent
        (fat32_write_fat_entry v (fun _ => zero) v.root_cluster 0x0FFFFFFF) y).first = 0 := by
  refine ⟨.last (elo_fim g hr), fun y hy => ?_⟩
  rw [dirent_write_fat g hr _ (slots_ge g hr hy)]
  exact dirent_zero rfl

/-- Two clusters of one sector; the root has the first. -/
def pequeno : Bpb := ⟨1, 0, 1, 2, 2⟩

def disco_pequeno : Disco := fat32_write_fat_entry pequeno (fun _ => zero) 2 0x0FFFFFFF

theorem pequeno_geo : Geometria pequeno := ⟨by decide, by decide, by decide, by decide⟩

theorem pequeno_bem : BemFormado pequeno disco_pequeno := by
  obtain ⟨hc, h0⟩ := raiz_vazia pequeno_geo ⟨by decide, by decide⟩
  exact bem_vazio pequeno_geo (by decide) hc h0

/-! ## Any sequence of calls -/

/-- The disk, and the cluster that the last `fat32_create` of a file returned, as long as no other
call but writes has come. -/
structure Estado where
  disco : Disco
  aberto : Option Nat

inductive Chamada
  | create (parent_cluster : Nat) (filename : List UInt8) (attr : UInt8)
  | write (buf : List UInt8)
  | delete (parent_cluster : Nat) (filename : List UInt8)

/-- The calls that come in a state. -/
def Permitida (v : Bpb) (s : Estado) : Chamada → Prop
  | .create p f attr => Dir v s.disco p ∧ 0 ∉ f ∧
      (attr = FAT32_ATTR_DIR ∨ attr = FAT32_ATTR_ARCHIVE)
  | .write _ => s.aberto ≠ none
  | .delete p f => Dir v s.disco p ∧ 0 ∉ f

/-- A call; `none` where it does not return. -/
def chama (v : Bpb) (s : Estado) : Chamada → Option Estado
  | .create p f attr =>
    (fat32_create v s.disco p (fat32_normalize f) attr).map fun r =>
      ⟨r.2, if attr = FAT32_ATTR_ARCHIVE then some r.1 else none⟩
  | .write buf =>
    s.aberto.bind fun c => (fat32_write_file v s.disco c buf).map fun r => ⟨r.2, some c⟩
  | .delete p f => (fat32_delete v s.disco p (fat32_normalize f)).map fun r => ⟨r.2, none⟩

/-- The states after any number of calls. -/
inductive Alcanca (v : Bpb) (s : Estado) : Estado → Prop
  | nada : Alcanca v s s
  | mais {s' s'' : Estado} {op : Chamada} : Alcanca v s s' → Permitida v s' op →
      chama v s' op = some s'' → Alcanca v s s''

/-- What every call keeps. -/
structure Bom (v : Bpb) (s : Estado) : Prop where
  bem : BemFormado v s.disco
  aberto : ∀ c, s.aberto = some c → c ≠ 0 → ∃ cs, Arq v s.disco c cs

/-- A call returns and keeps the invariant. -/
theorem Bom.chama {s : Estado} (h : Bom v s) (op : Chamada) (hp : Permitida v s op) :
    ∃ s', chama v s op = some s' ∧ Bom v s' := by
  cases op with
  | create p f attr =>
    obtain ⟨hd, hf, hattr⟩ := hp
    obtain ⟨c, d', hc, hb, ha, _⟩ := create_spec h.bem hd (normalize_first hf).1 hattr
    refine ⟨_, congrArg (Option.map _) hc, hb, fun c' hc' hne => ?_⟩
    dsimp only at hc'
    split at hc'
    · rename_i harc
      obtain rfl := Option.some.inj hc'
      exact ⟨[c], ha harc hne⟩
    · exact absurd hc' (by simp)
  | write buf =>
    obtain ⟨c, hc⟩ := Option.ne_none_iff_exists'.mp hp
    by_cases h0 : c = 0
    · subst h0
      obtain ⟨r, d', hw, hb⟩ := write_zero_spec buf h.bem
      refine ⟨⟨d', some 0⟩, ?_, hb, fun c' hc' hne => absurd (Option.some.inj hc').symm hne⟩
      unfold Fat32.chama
      dsimp only
      rw [hc, Option.bind_some, hw]
      rfl
    · obtain ⟨cs, ha⟩ := h.aberto c hc h0
      obtain ⟨r, d', cs', hw, ha', _⟩ := write_spec buf ha
      refine ⟨⟨d', some c⟩, ?_, ha'.bem, fun c' hc' _ => ⟨cs', ?_⟩⟩
      · unfold Fat32.chama
        dsimp only
        rw [hc, Option.bind_some, hw]
        rfl
      · obtain rfl := Option.some.inj hc'
        exact ha'
  | delete p f =>
    obtain ⟨hd, _⟩ := hp
    obtain ⟨r, d', hc, hb, _⟩ := delete_spec h.bem hd (normalize_ponto f)
    refine ⟨_, congrArg (Option.map _) hc, hb, fun c' hc' _ => absurd hc' ?_⟩
    exact Option.some_ne_none c' ∘ Eq.symm

theorem Alcanca.bom {s s' : Estado} (h : Bom v s) (hr : Alcanca v s s') : Bom v s' := by
  induction hr with
  | nada => exact h
  | mais _ hp hc ih =>
    obtain ⟨s₁, hs, hb⟩ := ih.chama _ hp
    rw [hc] at hs
    exact Option.some.inj hs ▸ hb

/-- FAT chain safety: after any sequence of calls the chain of each object ends and has no cluster
twice, the chains of two objects have no cluster in common, and the next call returns. -/
theorem cadeias_seguras {s : Estado} (h : BemFormado v d) (hr : Alcanca v ⟨d, none⟩ s) :
    (∀ o c, Objeto v s.disco o c → c ≠ 0 → ∃ cs, Cadeia v s.disco c cs ∧ cs.Nodup) ∧
      Disjuntas v s.disco ∧
      ∀ op, Permitida v s op → (chama v s op).isSome := by
  have hb : Bom v s := hr.bom ⟨h, fun _ hc _ => absurd hc (by simp)⟩
  refine ⟨fun o c ho hne => ?_, hb.bem.disjuntas, fun op hp => ?_⟩
  · obtain ⟨cs, hc⟩ := hb.bem.cadeias o c ho hne
    exact ⟨cs, hc, Chain.nodup hc⟩
  · obtain ⟨s', hs, _⟩ := hb.chama op hp
    rw [hs]
    rfl

/-- A file is created on a volume of two clusters and can be deleted then. -/
theorem cadeias_seguras_pequeno : ∃ s, Alcanca pequeno ⟨disco_pequeno, none⟩ s ∧
    s.aberto ≠ none ∧ Disjuntas pequeno s.disco ∧
    (chama pequeno s (.delete 2 [65])).isSome := by
  have hp : Permitida pequeno ⟨disco_pequeno, none⟩ (.create 2 [65] FAT32_ATTR_ARCHIVE) :=
    ⟨.raiz, by decide, Or.inr rfl⟩
  obtain ⟨s, hs, _⟩ := Bom.chama ⟨pequeno_bem, fun _ hc _ => absurd hc (by simp)⟩ _ hp
  have hr : Alcanca pequeno ⟨disco_pequeno, none⟩ s := .mais .nada hp hs
  have hseg := cadeias_seguras pequeno_bem hr
  refine ⟨s, hr, ?_, hseg.2.1, hseg.2.2 _ ⟨.raiz, by decide⟩⟩
  unfold chama at hs
  obtain ⟨r, _, rfl⟩ := Option.map_eq_some_iff.mp hs
  simp

end Passos

end SpaceOS.Fat32
