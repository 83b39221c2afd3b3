-- The names in the directories of a FAT32 volume: when two live entries of one directory can come
-- to have the same name.
import SpaceOS.VfsPaths

open Lib.Bytes Lib.Bytes.ByteStr Lib.Links

namespace SpaceOS.Fat32

section Renomeia

variable {v : Bpb} {d d' : Disco} {p : Nat} {cs : List Nat} {x y : Slot} {e e' : Dirent}
  {name11 new_name11 : List UInt8}

/-! ## A change of a name -/

/-- The entries say the same but for the name. -/
structure Igual (e' e : Dirent) : Prop where
  zero : e'.first = 0 ↔ e.first = 0
  marca : e'.first = 0xE5 ↔ e.first = 0xE5
  attr : e'.attr = e.attr
  cluster : e'.cluster = e.cluster
  ponto : EhPonto e' ↔ EhPonto e

theorem Igual.refl (e : Dirent) : Igual e e := ⟨Iff.rfl, Iff.rfl, rfl, rfl, Iff.rfl⟩

theorem vivo_igual {ss : List Slot} (h : ∀ y ∈ ss, Igual (dirent d' y) (dirent d y)) :
    Vivo d' ss x ↔ Vivo d ss x := by
  have ht := (takeWhile_congr (f := fun y => decide ((dirent d' y).first ≠ 0))
    (g := fun y => decide ((dirent d y).first ≠ 0)) (l := ss)
    fun y hy => decide_eq_decide.mpr (not_congr (h y hy).zero)).1
  unfold Vivo
  rw [ht]
  refine and_congr_right fun h1 => ?_
  have hx := h x (List.takeWhile_subset _ h1)
  rw [hx.attr, Ne, Ne, hx.marca]

theorem fim_igual {ss : List Slot} (h : ∀ y ∈ ss, Igual (dirent d' y) (dirent d y))
    (hf : Fim d ss) : Fim d' ss := by
  have ht := (takeWhile_congr (f := fun y => decide ((dirent d' y).first ≠ 0))
    (g := fun y => decide ((dirent d y).first ≠ 0)) (l := ss)
    fun y hy => decide_eq_decide.mpr (not_congr (h y hy).zero)).2
  unfold Fim
  rw [ht]
  exact fun y hy => (h y (List.dropWhile_subset _ hy)).zero.mpr (hf y hy)

/-- Names do not matter to the directories and the objects of a volume. -/
theorem BemFormado.igual (h : BemFormado v d) (helo : elo v d' = elo v d)
    (he : ∀ q cs, Dir v d q → Cadeia v d q cs → ∀ y ∈ entradas v cs,
      Igual (dirent d' y) (dirent d y)) :
    BemFormado v d' ∧ ∀ q, Dir v d' q ↔ Dir v d q := by
  have hcad : ∀ a as, Cadeia v d' a as ↔ Cadeia v d a as := by
    intro a as
    unfold Cadeia
    rw [helo]
  have hdir : ∀ q, Dir v d' q → Dir v d q := by
    intro q hq
    induction hq with
    | raiz => exact .raiz
    | @sub q as y _ ha hv hn hd hne ih =>
      have ha := (hcad q as).mp ha
      have hy := he q as ih ha
      have hi := hy y hv.mem
      unfold EhDir at hd
      rw [hi.cluster] at hne ⊢
      rw [hi.attr] at hd
      exact .sub ih ha ((vivo_igual hy).mp hv) (mt hi.ponto.mpr hn) hd hne
  have hdir' : ∀ q, Dir v d q → Dir v d' q := by
    intro q hq
    induction hq with
    | raiz => exact .raiz
    | @sub q as y hq ha hv hn hd hne ih =>
      have hy := he q as hq ha
      have hi := hy y hv.mem
      unfold EhDir at hd
      rw [← hi.cluster] at hne ⊢
      rw [← hi.attr] at hd
      exact .sub ih ((hcad q as).mpr ha) ((vivo_igual hy).mpr hv) (mt hi.ponto.mp hn) hd hne
  have hobj : ∀ o c, Objeto v d' o c → Objeto v d o c := by
    intro o c ho
    cases ho with
    | raiz => exact .raiz
    | @entrada q as y hq ha hv hn =>
      have ha := (hcad q as).mp ha
      have hq := hdir q hq
      have hy := he q as hq ha
      have hi := hy y hv.mem
      rw [hi.cluster]
      exact .entrada hq ha ((vivo_igual hy).mp hv) (mt hi.ponto.mpr hn)
  refine ⟨⟨h.geo, h.raiz, ?_, ?_, ?_, ?_⟩, fun q => ⟨hdir q, hdir' q⟩⟩
  · intro o c ho hne
    obtain ⟨as, ha⟩ := h.cadeias o c (hobj o c ho) hne
    exact ⟨as, (hcad c as).mpr ha⟩
  · intro o o' c c' as as' ho ho' hne ha ha'
    exact h.disjuntas o o' c c' as as' (hobj o c ho) (hobj o' c' ho') hne ((hcad c as).mp ha)
      ((hcad c' as').mp ha')
  · intro q as y hq ha hv hvl
    have ha := (hcad q as).mp ha
    have hy := he q as (hdir q hq) ha
    have hi := hy y hv.mem
    rw [hi.attr] at hvl
    rw [hi.cluster]
    exact h.rotulos q as y (hdir q hq) ha ((vivo_igual hy).mp hv) hvl
  · intro q as hq ha
    have ha := (hcad q as).mp ha
    exact fim_igual (he q as (hdir q hq) ha) (h.fim q as (hdir q hq) ha)

@[simp] theorem com_nome_byte (e : Dirent) (name11 : List UInt8) {j : Nat} (hj : j < 32) :
    (com_nome e name11).byte j = if j < 11 then name11.getD j 0 else e.byte j := by
  unfold byte mem com_nome
  rw [dif_pos hj, dif_pos hj]

theorem com_nome_first : (com_nome e name11).first = name11.getD 0 0 :=
  com_nome_byte e name11 (by decide)

theorem com_nome_attr : (com_nome e name11).attr = e.attr := com_nome_byte e name11 (by decide)

theorem com_nome_cluster : (com_nome e name11).cluster = e.cluster := rfl

theorem com_nome_raw11 (h : name11.length = 11) : (com_nome e name11).raw11 = name11 := by
  unfold Dirent.raw11
  refine List.ext_getElem (by simp [h]) fun i hi hi' => ?_
  have h11 : i < 11 := by omega
  rw [List.getElem_map, List.getElem_range, com_nome_byte e name11 (by omega), if_pos h11,
    List.getD_eq_getElem _ _ hi']

/-- A name as `fat32_normalize` makes it. -/
structure Nome (name11 : List UInt8) : Prop where
  tamanho : name11.length = 11
  primeiro : name11.getD 0 0 ≠ 0
  ponto : name11 ≠ PONTO ∧ name11 ≠ PONTO_PONTO

theorem Nome.not_ponto (h : Nome name11) (he : e.raw11 = name11) : ¬ EhPonto e := by
  unfold EhPonto
  rw [he]
  exact not_or.mpr h.ponto

theorem nome_normalize {f : List UInt8} (h : 0 ∉ f) : Nome (fat32_normalize f) :=
  ⟨Vfs.normalize_length f, (normalize_first h).1, normalize_ponto f⟩

theorem igual_com_nome (hn : Nome new_name11) (h5 : new_name11.getD 0 0 ≠ 0xE5)
    (h0 : e.first ≠ 0) (he : e.first ≠ 0xE5) (hp : ¬ EhPonto e) :
    Igual (com_nome e new_name11) e := by
  refine ⟨?_, ?_, com_nome_attr, com_nome_cluster, ?_⟩
  · rw [com_nome_first]
    exact iff_of_false hn.primeiro h0
  · rw [com_nome_first]
    exact iff_of_false h5 he
  · exact iff_of_false (hn.not_ponto (com_nome_raw11 hn.tamanho)) hp

/-- The entry `x` of the directory has a new name, and the other live entries are ones of before. -/
structure Renomeou (v : Bpb) (d d' : Disco) (p : Nat) (x : Slot) (new_name11 : List UInt8) :
    Prop where
  vivo : ∀ cs, Cadeia v d p cs → Vivo d (entradas v cs) x
  nao_ponto : ¬ EhPonto (dirent d x)
  novo : dirent d' x = com_nome (dirent d x) new_name11
  entre : Entre v (· = x) (fun _ => False) d d'

/-- An entry gets a new name, and the volume is well formed again. -/
theorem muda_nome (h : BemFormado v d) (hp : Dir v d p) (hc : Cadeia v d p cs)
    (hx : Vivo d (entradas v cs) x) (hpx : ¬ EhPonto (dirent d x)) (hn : Nome new_name11) :
    BemFormado v (gravar_dirent d x (com_nome (dirent d x) new_name11)) ∧
      Renomeou v d (gravar_dirent d x (com_nome (dirent d x) new_name11)) p x new_name11 := by
  have hself : dirent (gravar_dirent d x (com_nome (dirent d x) new_name11)) x =
      com_nome (dirent d x) new_name11 := dirent_escrita h hc hx.mem
  have hvivo : ∀ as, Cadeia v d p as → Vivo d (entradas v as) x := by
    intro as ha
    rwa [Chain.unique ha hc]
  by_cases h5 : new_name11.getD 0 0 = 0xE5
  · -- the name looks like the one of a deleted entry: the entry is gone
    obtain ⟨hb, _, _, hr⟩ := apaga_entrada h hp hc hx hpx (com_nome_first.trans h5)
    refine ⟨hb, hvivo, hpx, hself, fun q as hq ha => ?_⟩
    obtain ⟨hq, ha, hv⟩ := (hr q as hq ha).resolve_left id
    exact Or.inr ⟨hq, ha, fun y hy => Or.inr ((hv y hy).resolve_left id)⟩
  generalize hd' : gravar_dirent d x (com_nome (dirent d x) new_name11) = d' at hself ⊢
  have helo : elo v d' = elo v d := by
    rw [← hd']
    exact elo_dirent h hc hx.mem
  have hsame : ∀ q as, Cadeia v d q as → ∀ y ∈ entradas v as, y ≠ x →
      dirent d' y = dirent d y := by
    intro q as ha y hy hne
    rw [← hd']
    exact dirent_outra h ha hy hne
  have higual : ∀ q as, Dir v d q → Cadeia v d q as → ∀ y ∈ entradas v as,
      Igual (dirent d' y) (dirent d y) := by
    intro q as _ ha y hy
    by_cases hyx : y = x
    · subst hyx
      rw [hself]
      exact igual_com_nome hn h5 hx.first_ne hx.2.1 hpx
    · rw [hsame q as ha y hy hyx]
      exact Igual.refl _
  obtain ⟨hb, hdir⟩ := h.igual helo higual
  refine ⟨hb, hvivo, hpx, hself, fun q as hq ha => ?_⟩
  have hq := (hdir q).mp hq
  have ha : Cadeia v d q as := by
    unfold Cadeia at ha ⊢
    rwa [helo] at ha
  refine Or.inr ⟨hq, ha, fun y hy => ?_⟩
  by_cases hyx : y = x
  · exact Or.inl hyx
  · exact Or.inr ⟨(vivo_igual (higual q as hq ha)).mp hy, hsame q as ha y hy.mem hyx⟩

/-! ## The entry that a search takes -/

/-- The entry where the search `f` ends, if it takes one. -/
def busca (v : Bpb) (d : Disco) (f : Slot → Option (Option Slot)) (p : Nat) :
    Option (Option Slot) :=
  (percorre v d f (voltas v) p).map (·.bind id)

theorem busca_eq (g : Geometria v) (hc : Cadeia v d p cs) (f : Slot → Option (Option Slot)) :
    busca v d f p = some (((entradas v cs).findSome? f).bind id) := by
  unfold busca
  rw [percorre_voltas g hc]
  rfl

theorem find_busca : fat32_find v d p name11 =
    (busca v d (olha_find d name11) p).map (Option.map (dirent d)) := by
  unfold fat32_find busca
  rw [Option.map_map]
  rfl

theorem rename_busca : fat32_rename v d p name11 new_name11 =
    (busca v d (olha_delete d name11) p).map fun r =>
      match r with
      | some x => (0, gravar_dirent d x (com_nome (dirent d x) new_name11))
      | none => (-1, d) := by
  unfold fat32_rename busca
  rw [Option.map_map]
  congr 1
  funext r
  rcases r with _ | _ | x <;> rfl

theorem busca_some {f : Slot → Option (Option Slot)} (g : Geometria v) (hc : Cadeia v d p cs)
    (h : busca v d f p = some (some x)) : (entradas v cs).findSome? f = some (some x) := by
  rw [busca_eq g hc] at h
  rcases hf : (entradas v cs).findSome? f with _ | y
  · rw [hf] at h
    cases h
  · rw [hf] at h
    exact congrArg some (Option.some.inj h)

/-- A call of `fat32_rename` returns, and the volume is well formed again; it fails where no entry
has the old name. -/
theorem rename_spec (h : BemFormado v d) (hp : Dir v d p) (ho : Nome name11)
    (hn : Nome new_name11) :
    (busca v d (olha_delete d name11) p = some none ∧
      fat32_rename v d p name11 new_name11 = some (-1, d)) ∨
    ∃ d' x, fat32_rename v d p name11 new_name11 = some (0, d') ∧ BemFormado v d' ∧
      Renomeou v d d' p x new_name11 := by
  obtain ⟨cs, hc⟩ := h.cadeia hp
  have hb := busca_eq h.geo hc (olha_delete d name11)
  rw [rename_busca]
  rcases hf : busca v d (olha_delete d name11) p with _ | _ | x
  · rw [hf] at hb
    cases hb
  · exact Or.inl ⟨rfl, rfl⟩
  · obtain ⟨hv, hraw⟩ := acha_delete (busca_some h.geo hc hf)
    obtain ⟨hb, hr⟩ := muda_nome h hp hc hv (ho.not_ponto hraw) hn
    exact Or.inr ⟨_, x, rfl, hb, hr⟩

/-! ## Unique names -/

/-- A live entry that is no label. -/
def Conta (d : Disco) (ss : List Slot) (x : Slot) : Prop :=
  Vivo d ss x ∧ (dirent d x).attr &&& FAT32_ATTR_VOLUME = 0

def NomesUnicos (v : Bpb) (d : Disco) : Prop :=
  ∀ q cs, Dir v d q → Cadeia v d q cs → ∀ y z, Conta d (entradas v cs) y →
    Conta d (entradas v cs) z → (dirent d y).raw11 = (dirent d z).raw11 → y = z

/-- The directories other than `.` and `..` have a first cluster. -/
def PastasComCluster (v : Bpb) (d : Disco) : Prop :=
  ∀ q cs, Dir v d q → Cadeia v d q cs → ∀ y, Conta d (entradas v cs) y → ¬ EhPonto (dirent d y) →
    EhDir (dirent d y) → (dirent d y).cluster ≠ 0

/-- A well formed volume whose directories have no name twice. -/
structure Ordenado (v : Bpb) (d : Disco) : Prop where
  bem : BemFormado v d
  pastas : PastasComCluster v d
  nomes : NomesUnicos v d

theorem conta_igual {ss : List Slot} (hv : Vivo d ss y) (he : dirent d' y = dirent d y)
    (h : Conta d' ss y) : Conta d ss y := ⟨hv, he ▸ h.2⟩

/-- A change of one entry at most keeps the names unique, where no other entry has its name, and new
directories have none twice. -/
theorem Ordenado.entre {novo : Slot → Prop} {pasta : Nat → Prop} (h : Ordenado v d)
    (hb : BemFormado v d') (he : Entre v novo pasta d d') (hum : ∀ y z, novo y → novo z → y = z)
    (hnovo : ∀ x, novo x → ∀ q cs, Dir v d q → Cadeia v d q cs → Conta d' (entradas v cs) x →
      (EhDir (dirent d' x) → (dirent d' x).cluster ≠ 0) ∧
        ∀ z, Conta d (entradas v cs) z → z ≠ x → (dirent d z).raw11 ≠ (dirent d' x).raw11)
    (hpasta : ∀ q cs, pasta q → Cadeia v d' q cs →
      (∀ y, Conta d' (entradas v cs) y → EhPonto (dirent d' y)) ∧
        ∀ y z, Conta d' (entradas v cs) y → Conta d' (entradas v cs) z →
          (dirent d' y).raw11 = (dirent d' z).raw11 → y = z) : Ordenado v d' := by
  refine ⟨hb, fun q cs hq hc y hy hn hd => ?_, fun q cs hq hc y z hy hz hr => ?_⟩
  · rcases he q cs hq hc with hp | ⟨hq, hc, hv⟩
    · exact absurd ((hpasta q cs hp hc).1 y hy) hn
    rcases hv y hy.1 with hx | ⟨hyv, hye⟩
    · exact (hnovo y hx q cs hq hc hy).1 hd
    · have hy := conta_igual hyv hye hy
      rw [hye] at hn hd ⊢
      exact h.pastas q cs hq hc y hy hn hd
  · rcases he q cs hq hc with hp | ⟨hq, hc, hv⟩
    · exact (hpasta q cs hp hc).2 y z hy hz hr
    by_cases hyz : y = z
    · exact hyz
    exfalso
    rcases hv y hy.1 with hyn | ⟨hyv, hye⟩ <;> rcases hv z hz.1 with hzn | ⟨hzv, hze⟩
    · exact hyz (hum y z hyn hzn)
    · rw [hze] at hr
      exact (hnovo y hyn q cs hq hc hy).2 z (conta_igual hzv hze hz) (Ne.symm hyz) hr.symm
    · rw [hye] at hr
      exact (hnovo z hzn q cs hq hc hz).2 y (conta_igual hyv hye hy) hyz hr
    · rw [hye, hze] at hr
      exact hyz (h.nomes q cs hq hc y z (conta_igual hyv hye hy) (conta_igual hzv hze hz) hr)

theorem Ordenado.reduz (h : Ordenado v d) (hb : BemFormado v d') (hr : Reduz v d d') :
    Ordenado v d' :=
  h.entre hb hr (fun _ _ hf => hf.elim) (fun _ hf => hf.elim) (fun _ _ hf => hf.elim)

/-- Where the search of `fat32_find` takes no entry, no entry has the name. -/
theorem sem_o_nome (g : Geometria v) (hc : Cadeia v d p cs)
    (hf : busca v d (olha_find d name11) p = some none) (hz : Conta d (entradas v cs) x) :
    (dirent d x).raw11 ≠ name11 := by
  intro hr
  obtain ⟨⟨hmem, h5, hl⟩, hvol⟩ := hz
  rw [busca_eq g hc] at hf
  have hprimeiro : ∀ y ∈ (entradas v cs).takeWhile (fun y => (dirent d y).first ≠ 0),
      (dirent d y).first ≠ 0 := fun y hy =>
    of_decide_eq_true (List.all_eq_true.mp List.all_takeWhile y hy)
  have hx : olha_find d name11 x = some (some x) :=
    olha_find_iff.mpr ⟨rfl, ⟨hprimeiro x hmem, h5, hl, hr⟩, hvol⟩
  -- before the end marker the search takes the first entry that it stops at
  rw [← List.takeWhile_append_dropWhile (p := fun y => (dirent d y).first ≠ 0)
    (l := entradas v cs), List.findSome?_append] at hf
  rcases ht : ((entradas v cs).takeWhile fun y => (dirent d y).first ≠ 0).findSome?
    (olha_find d name11) with _ | r
  · rw [List.findSome?_eq_none_iff.mp ht x hmem] at hx
    cases hx
  · obtain ⟨y, hy, hyr⟩ := List.exists_of_findSome?_eq_some ht
    rw [ht, Option.some_or, Option.bind_some, id] at hf
    rcases Vfs.olha_find_ou name11 (hprimeiro y hy) with hn | hs
    · rw [hn] at hyr
      cases hyr
    · rw [hs] at hyr
      cases hyr
      cases hf

/-- A directory that has the entry is the one where it was searched. -/
theorem mesma_pasta (h : BemFormado v d) (hp : Dir v d p)
    (hx : ∀ cs, Cadeia v d p cs → x ∈ entradas v cs) {q : Nat} (hq : Dir v d q)
    (hc : Cadeia v d q cs) (hxc : x ∈ entradas v cs) : q = p := by
  obtain ⟨as, ha⟩ := h.cadeia hp
  exact fora_de_outra h hp ha (hx as ha) hq hc hxc

/-- A rename to a name that is not found keeps the names unique. -/
theorem Ordenado.renomeia (h : Ordenado v d) (hb : BemFormado v d') (hp : Dir v d p)
    (hn : Nome new_name11) (hr : Renomeou v d d' p x new_name11)
    (hf : busca v d (olha_find d new_name11) p = some none) : Ordenado v d' := by
  refine h.entre hb hr.entre (fun _ _ hy hz => hy.trans hz.symm) ?_ (fun _ _ hf => hf.elim)
  rintro y rfl q cs hq hc hy
  obtain rfl := mesma_pasta h.bem hp (fun as ha => (hr.vivo as ha).mem) hq hc hy.1.mem
  obtain ⟨_, hvol⟩ := hy
  rw [hr.novo, com_nome_attr] at hvol
  rw [hr.novo, com_nome_raw11 hn.tamanho]
  refine ⟨fun hd => ?_, fun z hz _ => sem_o_nome h.bem.geo hc hf hz⟩
  unfold EhDir at hd
  rw [com_nome_attr] at hd
  rw [com_nome_cluster]
  exact h.pastas q cs hq hc y ⟨hr.vivo cs hc, hvol⟩ hr.nao_ponto hd

/-- A new entry whose name is not found keeps the names unique. -/
theorem Ordenado.acresce {c : Nat} {attr : UInt8} (h : Ordenado v d) (hb : BemFormado v d')
    (hp : Dir v d p) (hn : Nome name11)
    (ha : Acresce v d d' p c (novo_dirent name11 attr c) x)
    (hf : busca v d (olha_find d name11) p = some none) : Ordenado v d' := by
  refine h.entre hb ha.entre (fun _ _ hy hz => hy.trans hz.symm) ?_ ?_
  · rintro y rfl q cs hq hc hy
    obtain rfl := mesma_pasta h.bem hp ha.lugar hq hc hy.1.mem
    have hlt := ha.faixa.lt_eof h.bem.geo
    have heof := eof_eq
    have hc0 : c ≠ 0 := fun h0 => by
      have := ha.faixa.1
      omega
    rw [ha.novo, novo_raw11 hn.tamanho, novo_cluster (by omega)]
    exact ⟨fun _ => hc0, fun z hz _ => sem_o_nome h.bem.geo hc hf hz⟩
  · rintro q cs ⟨rfl, hq, hnova⟩ hc
    obtain rfl := Chain.unique hc hq
    have hmem : ∀ y, Conta d' (entradas v [q]) y → y ∈ slots v q := by
      intro y hy
      have hm := hy.1.mem
      rwa [entradas, List.flatMap_singleton] at hm
    exact ⟨fun y hy => (hnova.pontos y (hmem y hy) hy.1.first_ne).1,
      fun y z hy hz hr => hnova.unicos y (hmem y hy) z (hmem z hz) hy.1.first_ne hz.1.first_ne hr⟩

/-- `fat32_create` keeps the names unique where the disk is full or the name is not found. -/
theorem Ordenado.create {attr : UInt8} (h : Ordenado v d) (hp : Dir v d p) (hn : Nome name11)
    (hattr : attr = FAT32_ATTR_DIR ∨ attr = FAT32_ATTR_ARCHIVE)
    (hf : Cheio v d ∨ busca v d (olha_find d name11) p = some none) :
    ∃ c d', fat32_create v d p name11 attr = some (c, d') ∧ Ordenado v d' ∧
      (attr = FAT32_ATTR_ARCHIVE → c ≠ 0 → Arq v d' c [c]) := by
  obtain ⟨c, d', hc, hb, harq, _, hz, ha⟩ := create_spec h.bem hp hn.primeiro hattr
  refine ⟨c, d', hc, ?_, harq⟩
  by_cases hc0 : c = 0
  · exact h.reduz hb (hz hc0).1
  · obtain ⟨x, hx⟩ := ha hc0
    rcases hf with hcheio | hf
    · rw [create_cheio hcheio] at hc
      cases hc
      exact absurd rfl hc0
    · exact h.acresce hb hp hn hx hf

/-- What `vfs_write` deletes before it creates: the file that was found. -/
theorem Ordenado.apaga (h : Ordenado v d) (hp : Dir v d p) (hn : Nome name11)
    (hf : busca v d (olha_find d name11) p = some none ∨
      busca v d (olha_delete d name11) p = busca v d (olha_find d name11) p) :
    ∃ d', Vfs.apaga_antigo v d p name11 = some d' ∧ Ordenado v d' ∧ Dir v d' p ∧
      busca v d' (olha_find d' name11) p = some none := by
  obtain ⟨cs, hc⟩ := h.bem.cadeia hp
  unfold Vfs.apaga_antigo
  rw [find_busca]
  rcases hb : busca v d (olha_find d name11) p with _ | _ | x
  · rw [busca_eq h.bem.geo hc] at hb
    cases hb
  · exact ⟨d, rfl, h, hp, hb⟩
  rw [hb] at hf
  have hd := busca_some h.bem.geo hc (hf.resolve_left (by simp))
  obtain ⟨hv, hraw, hvol⟩ := acha_find (busca_some h.bem.geo hc hb)
  obtain ⟨d', hdel, ha⟩ := delete_achou h.bem hp hc hn.ponto hd
  refine ⟨d', ?_, h.reduz ha.bem ha.reduz, ha.dir, ?_⟩
  · change (fat32_delete v d p name11).map (·.2) = some d'
    rw [hdel]
    rfl
  -- the name had one entry, which is gone
  rcases hb' : busca v d' (olha_find d' name11) p with _ | _ | y
  · rw [busca_eq ha.bem.geo ha.cadeia] at hb'
    cases hb'
  · rfl
  exfalso
  obtain ⟨hv', hraw', hvol'⟩ := acha_find (busca_some ha.bem.geo ha.cadeia hb')
  obtain ⟨_, _, hvelhos⟩ := (ha.reduz p cs ha.dir ha.cadeia).resolve_left id
  obtain ⟨hyv, hye⟩ := (hvelhos y hv').resolve_left id
  rw [hye] at hraw' hvol'
  obtain rfl := h.nomes p cs hp hc y x ⟨hyv, hvol'⟩ ⟨hv, hvol⟩ (hraw'.trans hraw.symm)
  exact hv'.2.1 (by rw [ha.marca]; rfl)

end Renomeia

end SpaceOS.Fat32

namespace SpaceOS.Vfs

open SpaceOS.Fat32

/-! ## The calls -/

/-- The calls that change a volume. -/
inductive Chamada
  | write (path buf : List UInt8)
  | mkdir (path : List UInt8)
  | unlink (path : List UInt8)
  | rename (old_path new_path : List UInt8)

namespace Chamada

def faz (v : Bpb) (d : Disco) (cwd : Cwd) : Chamada → Option (Int × Disco)
  | write path buf => vfs_write v d cwd path buf
  | mkdir path => vfs_mkdir v d cwd path
  | unlink path => vfs_unlink v d cwd path
  | rename old_path new_path => vfs_rename v d cwd old_path new_path

def paths : Chamada → List (List UInt8)
  | write path _ => [path]
  | mkdir path => [path]
  | unlink path => [path]
  | rename old_path new_path => [old_path, new_path]

end Chamada

/-- The paths are strings, and start at a directory of the volume. -/
def Parte (v : Bpb) (d : Disco) (cwd : Cwd) (op : Chamada) : Prop :=
  cwd.montado = true → ∀ path ∈ op.paths, 0 ∉ path ∧ Dir v d (origem v cwd path)

/-- The condition on a call. -/
def Distinta (v : Bpb) (d : Disco) (cwd : Cwd) : Chamada → Prop
  | .write path _ =>
    -- what is deleted is the file that was found, and not a label with its name
    ∀ p n, alvo v d cwd path = some (some (p, n)) → busca v d (olha_find d n) p = some none ∨
      busca v d (olha_delete d n) p = busca v d (olha_find d n) p
  | .mkdir path =>
    ∀ p n, alvo v d cwd path = some (some (p, n)) →
      Cheio v d ∨ busca v d (olha_find d n) p = some none
  | .unlink _ => True
  | .rename old_path new_path =>
    ∀ p n n', alvo v d cwd old_path = some (some (p, n)) →
      alvo v d cwd new_path = some (some (p, n')) →
      busca v d (olha_delete d n) p = some none ∨ busca v d (olha_find d n') p = some none

section Calls

variable {v : Bpb} {d d' : Disco} {cwd : Cwd} {p : Nat} {path n n' : List UInt8} {op : Chamada}

theorem vfs_rename_alvo (hm : cwd.montado) (old_path new_path : List UInt8) :
    vfs_rename v d cwd old_path new_path = (alvo v d cwd old_path).bind fun a =>
      match a with
      | none => some (-1, d)
      | some (p, n) => (alvo v d cwd new_path).bind fun b =>
        match b with
        | none => some (-1, d)
        | some (q, n') =>
          if p = q then fat32_rename v d p n n' else (fat32_find v d p n).map fun _ => (-1, d) := by
  rw [← resolve_pai_bind, vfs_rename, if_pos hm]
  simp only [← resolve_pai_bind]

theorem faz_desmontado (hm : ¬ cwd.montado) (op : Chamada) : op.faz v d cwd = some (-1, d) := by
  cases op with
  | write path buf => exact if_neg hm
  | mkdir path => exact if_neg hm
  | unlink path => exact if_neg hm
  | rename old_path new_path => exact if_neg hm

/-! ## Where a call goes -/

theorem sub_com_cluster (h : Ordenado v d) : SubComCluster v d := by
  intro q name11 e hq h1 h2 hf hd
  obtain ⟨cs, x, hc, hv, rfl, hraw, hl⟩ := find_vivo h.bem hq hf
  have hdir : (dirent d x).attr &&& FAT32_ATTR_DIR ≠ 0 := of_decide_eq_true hd
  refine h.pastas q cs hq hc x ⟨hv, hl⟩ ?_ hdir
  unfold EhPonto
  rw [hraw]
  exact not_or.mpr ⟨h1, h2⟩

theorem split_subset (path : List UInt8) : (path_split_last path).2 ⊆ path := by
  unfold path_split_last
  split
  · exact List.Subset.refl _
  · split
    · exact List.Subset.refl _
    · exact List.drop_subset _ _

theorem split_head (h : (path_split_last path).1 ≠ []) :
    (path_split_last path).1.head? = path.head? := by
  unfold path_split_last at h ⊢
  split at h
  · exact absurd rfl h
  · split at h
    · exact absurd rfl h
    · rename_i slash _ h0
      rw [if_neg h0]
      dsimp only
      rw [List.take_take, List.head?_take, if_neg (by omega)]

/-- The parent of a path is searched to an end, and is a directory of the volume. -/
theorem resolve_pai_dir (h : BemFormado v d) (hs : SubComCluster v d)
    (ho : Dir v d (origem v cwd path)) :
    ∃ r p, resolve_pai v d cwd path = some (r, p) ∧ (0 ≤ r → Dir v d p) := by
  unfold resolve_pai
  dsimp only
  split
  · exact ⟨0, _, rfl, fun _ => ho⟩
  · rename_i hne
    unfold origem at ho
    unfold resolve_dir
    rw [split_head hne]
    split
    · exact resolve_laco_retorna h hs _ .raiz
    · rename_i hb
      rw [if_neg hb] at ho
      exact resolve_laco_retorna h hs _ ho

theorem alvo_do_volume (h : BemFormado v d) (hs : SubComCluster v d) (h0 : 0 ∉ path)
    (ho : Dir v d (origem v cwd path)) :
    ∃ a, alvo v d cwd path = some a ∧ ∀ p n, a = some (p, n) → Dir v d p ∧ Nome n := by
  obtain ⟨r, q, hr, hq⟩ := resolve_pai_dir h hs ho
  unfold alvo
  rw [hr, Option.map_some]
  refine ⟨_, rfl, fun p n ha => ?_⟩
  dsimp only at ha
  split at ha
  · cases ha
  · cases ha
    exact ⟨hq (by omega), nome_normalize fun hm => h0 (split_subset path hm)⟩

theorem alvo_retorna (h : Ordenado v d) (h0 : 0 ∉ path) (ho : Dir v d (origem v cwd path)) :
    ∃ a, alvo v d cwd path = some a ∧ ∀ p n, a = some (p, n) → Dir v d p ∧ Nome n :=
  alvo_do_volume h.bem (sub_com_cluster h) h0 ho

/-! ## What a call keeps -/

theorem write_em_spec (h : Ordenado v d) (buf : List UInt8) (hp : Dir v d p) (hn : Nome n)
    (hf : busca v d (olha_find d n) p = some none ∨
      busca v d (olha_delete d n) p = busca v d (olha_find d n) p) :
    ∃ r d', write_em v d buf (some (p, n)) = some (r, d') ∧ Ordenado v d' := by
  obtain ⟨d₁, hap, h₁, hp₁, hb₁⟩ := h.apaga hp hn hf
  obtain ⟨c, d₂, hcr, h₂, harq⟩ := h₁.create hp₁ hn (Or.inr rfl) (Or.inr hb₁)
  unfold write_em
  dsimp only
  rw [hap, Option.bind_some, hcr, Option.bind_some]
  dsimp only
  split
  · exact ⟨-1, d₂, rfl, h₂⟩
  · rename_i hc0
    have ha := harq rfl hc0
    obtain ⟨r, d₃, cs', hw, ha', hpoupa⟩ := write_spec buf ha
    exact ⟨r, d₃, hw, h₂.reduz ha'.bem ((ha.pastas hpoupa).reduz h₂.bem)⟩

theorem mkdir_em_spec (h : Ordenado v d) (hp : Dir v d p) (hn : Nome n)
    (hf : Cheio v d ∨ busca v d (olha_find d n) p = some none) :
    ∃ r d', mkdir_em v d (some (p, n)) = some (r, d') ∧ Ordenado v d' := by
  obtain ⟨c, d', hc, h', _⟩ := h.create hp hn (Or.inl rfl) hf
  unfold mkdir_em
  dsimp only
  rw [hc]
  exact ⟨_, d', rfl, h'⟩

theorem unlink_em_spec (h : Ordenado v d) (hp : Dir v d p) (hn : Nome n) :
    ∃ r d', unlink_em v d (some (p, n)) = some (r, d') ∧ Ordenado v d' := by
  obtain ⟨r, d', hd, hb, hr⟩ := delete_spec h.bem hp hn.ponto
  exact ⟨r, d', hd, h.reduz hb hr⟩

theorem rename_em_spec (h : Ordenado v d) (hp : Dir v d p) (hn : Nome n) (hn' : Nome n')
    (hf : busca v d (olha_delete d n) p = some none ∨ busca v d (olha_find d n') p = some none) :
    ∃ r d', fat32_rename v d p n n' = some (r, d') ∧ Ordenado v d' := by
  rcases rename_spec h.bem hp hn hn' with ⟨_, hr⟩ | ⟨d', x, hr, hb, hx⟩
  · exact ⟨-1, d, hr, h⟩
  rcases hf with hf | hf
  · rw [rename_busca, hf] at hr
    cases hr
  · exact ⟨0, d', hr, h.renomeia hb hp hn' hx hf⟩

/-- A call that resolves a path, and keeps the volume wherever the path leads. -/
theorem alvo_ordenado (h : Ordenado v d) (h0 : 0 ∉ path) (ho : Dir v d (origem v cwd path))
    {f : Option (Nat × List UInt8) → Option (Int × Disco)} (hnada : f none = some (-1, d))
    (hf : ∀ p n, alvo v d cwd path = some (some (p, n)) → Dir v d p → Nome n →
      ∃ r d', f (some (p, n)) = some (r, d') ∧ Ordenado v d') :
    ∃ r d', (alvo v d cwd path).bind f = some (r, d') ∧ Ordenado v d' := by
  obtain ⟨a, ha, hdir⟩ := alvo_retorna h h0 ho
  rw [ha, Option.bind_some]
  rcases a with _ | ⟨p, n⟩
  · exact ⟨-1, d, hnada, h⟩
  · obtain ⟨hp, hn⟩ := hdir p n rfl
    exact hf p n ha hp hn

/-- A call under the condition returns, and keeps the volume well formed and its names unique. -/
theorem passo_ordenado (h : Ordenado v d) (hp : Parte v d cwd op) (hd : Distinta v d cwd op) :
    ∃ r d', op.faz v d cwd = some (r, d') ∧ Ordenado v d' := by
  by_cases hm : cwd.montado = true
  · have hp := hp hm
    cases op with
    | write path buf =>
      obtain ⟨h0, ho⟩ := hp path List.mem_cons_self
      change ∃ r d', vfs_write v d cwd path buf = some (r, d') ∧ _
      rw [vfs_write_alvo hm]
      exact alvo_ordenado h h0 ho rfl fun p n ha hp hn => write_em_spec h buf hp hn (hd p n ha)
    | mkdir path =>
      obtain ⟨h0, ho⟩ := hp path List.mem_cons_self
      change ∃ r d', vfs_mkdir v d cwd path = some (r, d') ∧ _
      rw [vfs_mkdir_alvo hm]
      exact alvo_ordenado h h0 ho rfl fun p n ha hp hn => mkdir_em_spec h hp hn (hd p n ha)
    | unlink path =>
      obtain ⟨h0, ho⟩ := hp path List.mem_cons_self
      change ∃ r d', vfs_unlink v d cwd path = some (r, d') ∧ _
      rw [vfs_unlink_alvo hm]
      exact alvo_ordenado h h0 ho rfl fun p n _ hp hn => unlink_em_spec h hp hn
    | rename old_path new_path =>
      obtain ⟨h0, ho⟩ := hp old_path List.mem_cons_self
      obtain ⟨h0', ho'⟩ := hp new_path (List.mem_cons_of_mem _ List.mem_cons_self)
      change ∃ r d', vfs_rename v d cwd old_path new_path = some (r, d') ∧ _
      rw [vfs_rename_alvo hm]
      refine alvo_ordenado h h0 ho rfl fun p n ha hp hn => ?_
      refine alvo_ordenado h h0' ho' rfl fun q n' hb _ hn' => ?_
      dsimp only
      split
      · rename_i hpq
        subst hpq
        exact rename_em_spec h hp hn hn' (hd p n n' ha hb)
      · obtain ⟨r, hr⟩ := find_retorna h.bem hp n
        rw [hr]
        exact ⟨-1, d, rfl, h⟩
  · exact ⟨-1, d, faz_desmontado hm op, h⟩

/-! ## Calls onto a name that exists -/

/-- The call is to give a name that an entry of the directory has. -/
def Existe (v : Bpb) (d : Disco) (cwd : Cwd) : Chamada → Prop
  | .mkdir path => ∃ p n e, alvo v d cwd path = some (some (p, n)) ∧
      fat32_find v d p n = some (some e)
  | .rename _ new_path => ∃ q n e, alvo v d cwd new_path = some (some (q, n)) ∧
      fat32_find v d q n = some (some e)
  | _ => False

theorem busca_of_find {e : Dirent} (hf : fat32_find v d p n = some (some e)) :
    busca v d (olha_find d n) p ≠ some none := by
  intro hb
  rw [find_busca, hb] at hf
  cases hf

theorem mkdir_falha_iff (h : Ordenado v d) (hp : Parte v d cwd (.mkdir path))
    (hm : cwd.montado = true) (he : Existe v d cwd (.mkdir path)) :
    vfs_mkdir v d cwd path = some (-1, d) ↔ Distinta v d cwd (.mkdir path) := by
  obtain ⟨p, n, e, ha, hf⟩ := he
  obtain ⟨h0, ho⟩ := hp hm path List.mem_cons_self
  obtain ⟨a, ha', hdir⟩ := alvo_retorna h h0 ho
  obtain ⟨hp, hn⟩ := hdir p n (Option.some.inj (ha'.symm.trans ha))
  have hiff : Distinta v d cwd (.mkdir path) ↔ Cheio v d := by
    constructor
    · exact fun hd => (hd p n ha).resolve_right (busca_of_find hf)
    · exact fun hc _ _ _ => Or.inl hc
  rw [hiff, vfs_mkdir_alvo hm, ha, Option.bind_some]
  unfold mkdir_em
  dsimp only
  constructor
  · intro hr
    obtain ⟨c, d', hc, _, _, _, hz, _⟩ := create_spec h.bem hp hn.primeiro
      (Or.inl (rfl : FAT32_ATTR_DIR = _))
    rw [hc, Option.map_some] at hr
    obtain ⟨hr, hd'⟩ := Prod.mk.inj (Option.some.inj hr)
    by_cases hc0 : c = 0
    · exact (hz hc0).2 hd'
    · rw [if_neg hc0] at hr
      exact absurd hr (by decide)
  · intro hc
    rw [create_cheio hc]
    rfl

theorem rename_falha_iff {old_path new_path : List UInt8} (h : Ordenado v d)
    (hp : Parte v d cwd (.rename old_path new_path)) (hm : cwd.montado = true)
    (he : Existe v d cwd (.rename old_path new_path)) :
    vfs_rename v d cwd old_path new_path = some (-1, d) ↔
      Distinta v d cwd (.rename old_path new_path) := by
  obtain ⟨q, n', e, hb, hf⟩ := he
  obtain ⟨h0, ho⟩ := hp hm old_path List.mem_cons_self
  obtain ⟨a, ha, hdir⟩ := alvo_retorna h h0 ho
  rw [vfs_rename_alvo hm, ha, Option.bind_some]
  rcases a with _ | ⟨p, n⟩
  · refine iff_of_true rfl fun p n n'' ha' _ => ?_
    rw [ha] at ha'
    cases ha'
  obtain ⟨hp, hn⟩ := hdir p n rfl
  dsimp only
  rw [hb, Option.bind_some]
  dsimp only
  split
  · rename_i hpq
    subst hpq
    have hiff : Distinta v d cwd (.rename old_path new_path) ↔
        busca v d (olha_delete d n) p = some none := by
      constructor
      · exact fun hd => (hd p n n' ha hb).resolve_right (busca_of_find hf)
      · intro hnada p₁ n₁ n₂ ha' _
        rw [ha] at ha'
        cases ha'
        exact Or.inl hnada
    rw [hiff, rename_busca]
    rcases busca v d (olha_delete d n) p with _ | _ | x
    · simp
    · simp
    · simp
  · -- across directories the code always fails, and the condition asks nothing
    rename_i hpq
    obtain ⟨r, hr⟩ := find_retorna h.bem hp n
    rw [hr]
    refine iff_of_true rfl fun p₁ n₁ n₂ ha' hb' => ?_
    rw [ha] at ha'
    rw [hb] at hb'
    cases ha'
    cases hb'
    exact absurd rfl hpq

/-- A call onto a name that exists fails and leaves the volume, under the condition and only then. -/
theorem existe_falha_iff (h : Ordenado v d) (hp : Parte v d cwd op) (hm : cwd.montado = true)
    (he : Existe v d cwd op) : op.faz v d cwd = some (-1, d) ↔ Distinta v d cwd op := by
  cases op with
  | write path buf => exact he.elim
  | unlink path => exact he.elim
  | mkdir path => exact mkdir_falha_iff h hp hm he
  | rename old_path new_path => exact rename_falha_iff h hp hm he

/-! ## The law -/

/-- The volumes after calls that meet `I`. -/
inductive Corre (v : Bpb) (I : Disco → Cwd → Chamada → Prop) (d : Disco) : Disco → Prop
  | nada : Corre v I d d
  | mais {d' d'' : Disco} {cwd : Cwd} {op : Chamada} {r : Int} : Corre v I d d' →
      Parte v d' cwd op → I d' cwd op → op.faz v d' cwd = some (r, d'') → Corre v I d d''

theorem Corre.ordenado (h : Ordenado v d) (hr : Corre v (Distinta v) d d') : Ordenado v d' := by
  induction hr with
  | nada => exact h
  | mais _ hp hd hf ih =>
    obtain ⟨r, d₁, hf', h₁⟩ := passo_ordenado ih hp hd
    rw [hf] at hf'
    cases hf'
    exact h₁

end Calls

/-! ## Empty volumes -/

theorem ordenado_vazio {v : Bpb} (g : Geometria v) (hr : EmFaixa v v.root_cluster) :
    Ordenado v (fat32_write_fat_entry v (fun _ => zero) v.root_cluster 0x0FFFFFFF) := by
  obtain ⟨hc, h0⟩ := raiz_vazia g hr
  refine ⟨bem_vazio g (by have := hr.1; omega) hc h0, fun q cs hq hcs y hy => ?_,
    fun q cs hq hcs y z hy => ?_⟩
  · exact absurd hy.1 (((sem_vivos hc h0 hq).2 cs hcs).2 y)
  · exact absurd hy.1 (((sem_vivos hc h0 hq).2 cs hcs).2 y)

/-- The volume after `vfs_mkdir` in the root directory. -/
def com_mkdir (v : Bpb) (d : Disco) (path : List UInt8) : Disco :=
  ((vfs_mkdir v d ⟨true, v.root_cluster⟩ path).map (·.2)).getD d

theorem corre_mkdir {v : Bpb} {I : Disco → Cwd → Chamada → Prop} {d d' : Disco}
    {path : List UInt8} (h : Corre v I d d') (h0 : 0 ∉ path)
    (hI : I d' ⟨true, v.root_cluster⟩ (.mkdir path))
    (hr : (vfs_mkdir v d' ⟨true, v.root_cluster⟩ path).isSome) :
    Corre v I d (com_mkdir v d' path) := by
  obtain ⟨⟨r, d''⟩, hd⟩ := Option.isSome_iff_exists.mp hr
  have he : com_mkdir v d' path = d'' := by
    unfold com_mkdir
    rw [hd]
    rfl
  rw [he]
  refine .mais h (fun _ path' hp => ?_) hI hd
  obtain rfl := List.mem_singleton.mp hp
  refine ⟨h0, ?_⟩
  rw [origem, ite_self]
  exact .raiz

/-- Three clusters of one sector; the root has the first. -/
def medio : Bpb := ⟨1, 0, 1, 2, 3⟩

/-- Only the root's entry of the table is set there. -/
def disco_medio : Disco := fat32_write_fat_entry medio (fun _ => zero) 2 0x0FFFFFFF

end SpaceOS.Vfs
