-- What the driver does to the entries of a directory: a free one is taken for a new file, or one is
-- marked as deleted, and the contents of a new directory.
import SpaceOS.Fat32Clusters

open Lib.Bytes Lib.Bytes.ByteStr Lib.Links

namespace SpaceOS.Fat32

section Entradas

variable {v : Bpb} {d : Disco} {c n p q : Nat} {cs ks : List Nat} {x y : Slot} {e : Dirent}

/-! ## Lists that end at a mark -/

theorem takeWhile_meio {α : Type} {f : α → Bool} {pre : List α} {a : α} (post : List α)
    (hpre : ∀ y ∈ pre, f y) (ha : f a) :
    (pre ++ a :: post).takeWhile f = pre ++ a :: post.takeWhile f ∧
      (pre ++ a :: post).dropWhile f = post.dropWhile f := by
  rw [List.takeWhile_append_of_pos hpre, List.dropWhile_append_of_pos hpre,
    List.takeWhile_cons_of_pos ha, List.dropWhile_cons_of_pos ha]
  exact ⟨rfl, rfl⟩

theorem takeWhile_fim {α : Type} {f : α → Bool} {pre : List α} {a : α} (post : List α)
    (hpre : ∀ y ∈ pre, f y) (ha : ¬ f a) :
    (pre ++ a :: post).takeWhile f = pre ∧ (pre ++ a :: post).dropWhile f = a :: post := by
  rw [List.takeWhile_append_of_pos hpre, List.dropWhile_append_of_pos hpre,
    List.takeWhile_cons_of_neg ha, List.dropWhile_cons_of_neg ha, List.append_nil]
  exact ⟨rfl, rfl⟩

/-! ## One entry is written -/

/-- An entry lies in the directory that has its cluster, and in no other chain. -/
theorem fora_de_outra (h : BemFormado v d) (hp : Dir v d p) (hc : Cadeia v d p cs)
    (hx : x ∈ entradas v cs) (hq : Dir v d q) (hk : Cadeia v d q ks) (hx' : x ∈ entradas v ks) :
    q = p := by
  obtain ⟨_, _, a, ha, hxa⟩ := h.em_faixa hc hx
  obtain ⟨_, _, b, hb, hxb⟩ := h.em_faixa hk hx'
  obtain rfl := slots_inj h.geo (hc.em_faixa ha) (hk.em_faixa hb) hxa hxb
  obtain ⟨o, ho, _⟩ := hp.objeto h.raiz
  exact h.pasta_unica hq hk ho hc hb ha

theorem dirent_outra (h : BemFormado v d) (hk : Cadeia v d q ks) (hy : y ∈ entradas v ks)
    (hne : y ≠ x) : dirent (gravar_dirent d x e) y = dirent d y :=
  dirent_ne (h.em_faixa hk hy).2.1 hne e

theorem dirent_escrita (h : BemFormado v d) (hc : Cadeia v d p cs) (hx : x ∈ entradas v cs) :
    dirent (gravar_dirent d x e) x = e :=
  dirent_self (h.em_faixa hc hx).2.1 e

theorem elo_dirent (h : BemFormado v d) (hc : Cadeia v d p cs) (hx : x ∈ entradas v cs) :
    elo v (gravar_dirent d x e) = elo v d := by
  obtain ⟨_, _, a, ha, hxa⟩ := h.em_faixa hc hx
  exact (so_dados_dirent h.geo (hc.em_faixa ha) hxa e).elo

theorem cadeia_dirent (h : BemFormado v d) (hc : Cadeia v d p cs) (hx : x ∈ entradas v cs) :
    Cadeia v (gravar_dirent d x e) q ks ↔ Cadeia v d q ks := by
  unfold Cadeia
  rw [elo_dirent h hc hx]

theorem read_fat_dirent (h : BemFormado v d) (hc : Cadeia v d p cs) (hx : x ∈ entradas v cs)
    (hn : EmFaixa v n) : fat32_read_fat v (gravar_dirent d x e) n = fat32_read_fat v d n := by
  obtain ⟨_, _, a, ha, hxa⟩ := h.em_faixa hc hx
  exact (so_dados_dirent h.geo (hc.em_faixa ha) hxa e n hn).1

/-- The entries of the directories other than the one that is written to. -/
theorem pasta_igual (h : BemFormado v d) (hp : Dir v d p) (hc : Cadeia v d p cs)
    (hx : x ∈ entradas v cs) (hq : Dir v d q) (hk : Cadeia v d q ks) (hne : q ≠ p) :
    ∀ y ∈ entradas v ks, dirent (gravar_dirent d x e) y = dirent d y := by
  intro y hy
  refine dirent_outra h hk hy fun he => hne ?_
  exact fora_de_outra h hp hc hx hq hk (he ▸ hy)

/-! ## A new entry -/

/-- The first free entry of a directory. -/
structure Livre (d : Disco) (ss pre post : List Slot) (x : Slot) : Prop where
  eq : ss = pre ++ x :: post
  antes : ∀ y ∈ pre, (dirent d y).first ≠ 0 ∧ (dirent d y).first ≠ 0xE5
  livre : (dirent d x).first = 0 ∨ (dirent d x).first = 0xE5

/-- Behind a free entry that is the end marker there are only free ones. -/
theorem Livre.atras {ss pre post : List Slot} (hl : Livre d ss pre post x) (hf : Fim d ss)
    (h0 : (dirent d x).first = 0) : ∀ z ∈ post, (dirent d z).first = 0 := by
  intro z hz
  unfold Fim at hf
  rw [hl.eq, (takeWhile_fim post (fun w hw => decide_eq_true (hl.antes w hw).1)
    (by rw [h0]; simp)).2] at hf
  exact hf z (List.mem_cons_of_mem _ hz)

/-- The walk over the directory after the write: the new entry is passed, behind it the old ones
decide. -/
theorem Livre.depois {pre post : List Slot} (h : BemFormado v d) (hc : Cadeia v d p cs)
    (hl : Livre d (entradas v cs) pre post x) (he : e.first ≠ 0) :
    (∀ y ∈ entradas v cs, y ≠ x → dirent (gravar_dirent d x e) y = dirent d y) ∧ x ∉ pre ∧
      x ∉ post ∧
      (entradas v cs).takeWhile (fun y => decide ((dirent (gravar_dirent d x e) y).first ≠ 0)) =
        pre ++ x :: post.takeWhile (fun y => decide ((dirent d y).first ≠ 0)) ∧
      (entradas v cs).dropWhile (fun y => decide ((dirent (gravar_dirent d x e) y).first ≠ 0)) =
        post.dropWhile fun y => decide ((dirent d y).first ≠ 0) := by
  have hx : x ∈ entradas v cs := hl.eq ▸ List.mem_append_right _ List.mem_cons_self
  have hself : dirent (gravar_dirent d x e) x = e := dirent_escrita h hc hx
  have hsame : ∀ y ∈ entradas v cs, y ≠ x → dirent (gravar_dirent d x e) y = dirent d y :=
    fun y hy hne => dirent_outra h hc hy hne
  refine ⟨hsame, ?_⟩
  have hnd : (entradas v cs).Nodup := entradas_nodup h.geo hc
  have hss : entradas v cs = pre ++ x :: post := hl.eq
  rw [hss] at hnd hsame ⊢
  obtain ⟨_, hnd, hdis⟩ := List.nodup_append.mp hnd
  have hpre : x ∉ pre := fun hmem => hdis x hmem x List.mem_cons_self rfl
  have hpost : x ∉ post := (List.nodup_cons.mp hnd).1
  have hposts := takeWhile_congr (f := fun y => decide ((dirent (gravar_dirent d x e) y).first ≠ 0))
    (g := fun y => decide ((dirent d y).first ≠ 0)) (l := post) fun y hy => by
      rw [hsame y (List.mem_append_right _ (List.mem_cons_of_mem _ hy)) fun hyx => hpost (hyx ▸ hy)]
  obtain ⟨ht, hd⟩ := takeWhile_meio
    (f := fun y => decide ((dirent (gravar_dirent d x e) y).first ≠ 0)) post (a := x)
    (fun y hy => by
      rw [hsame y (List.mem_append_left _ hy) fun hyx => hpre (hyx ▸ hy)]
      exact decide_eq_true (hl.antes y hy).1)
    (by rw [hself]; exact decide_eq_true he)
  exact ⟨hpre, hpost, ht.trans (by rw [hposts.1]), hd.trans hposts.2⟩

/-- In the directory that gets the entry the other live ones are the old ones. -/
theorem Livre.vivos {pre post : List Slot} (h : BemFormado v d) (hp : Dir v d p)
    (hc : Cadeia v d p cs) (hl : Livre d (entradas v cs) pre post x) (he : e.first ≠ 0) :
    (∀ y, Vivo (gravar_dirent d x e) (entradas v cs) y → y = x ∨
        (Vivo d (entradas v cs) y ∧ dirent (gravar_dirent d x e) y = dirent d y)) ∧
      Fim (gravar_dirent d x e) (entradas v cs) := by
  obtain ⟨hsame, hxpre, hxpost, ht', hd'⟩ := hl.depois h hc he
  have hfim := h.fim p cs hp hc
  have hantes : ∀ y ∈ pre, decide ((dirent d y).first ≠ 0) = true :=
    fun y hy => decide_eq_true (hl.antes y hy).1
  have hss : entradas v cs = pre ++ x :: post := hl.eq
  have hpost : ∀ y ∈ post, dirent (gravar_dirent d x e) y = dirent d y := fun y hy =>
    hsame y (hss ▸ List.mem_append_right _ (List.mem_cons_of_mem _ hy)) fun hyx => hxpost (hyx ▸ hy)
  unfold Vivo Fim
  rw [ht', hd']
  unfold Fim at hfim
  rw [hss] at hsame hfim ⊢
  rcases hl.livre with h0 | h5
  · -- the entry was the end marker: behind it there are only free entries
    have ht := (takeWhile_fim (f := fun y => decide ((dirent d y).first ≠ 0)) post (a := x) hantes
      (by rw [h0]; simp)).1
    have hzero := hl.atras (h.fim p cs hp hc) h0
    have hnada : post.takeWhile (fun y => decide ((dirent d y).first ≠ 0)) = [] := by
      cases post with
      | nil => rfl
      | cons b post =>
        exact List.takeWhile_cons_of_neg (by rw [hzero b List.mem_cons_self]; simp)
    refine ⟨fun y hy => ?_, fun y hy => ?_⟩
    · obtain ⟨hy, h2, h3⟩ := hy
      rw [hnada] at hy
      rcases List.mem_append.mp hy with hy | hy
      · have hpre := hsame y (List.mem_append_left _ hy) fun hyx => hxpre (hyx ▸ hy)
        rw [hpre] at h2 h3
        exact Or.inr ⟨⟨by rw [ht]; exact hy, h2, h3⟩, hpre⟩
      · exact Or.inl (List.mem_singleton.mp hy)
    · have hy := List.dropWhile_subset _ hy
      rw [hpost y hy]
      exact hzero y hy
  · obtain ⟨ht, hd⟩ := takeWhile_meio (f := fun y => decide ((dirent d y).first ≠ 0))
      post (a := x) hantes (by rw [h5]; decide)
    rw [hd] at hfim
    refine ⟨fun y hy => ?_, fun y hy => ?_⟩
    · obtain ⟨hy, h2, h3⟩ := hy
      by_cases hyx : y = x
      · exact Or.inl hyx
      · have hmem : y ∈ pre ++ x :: post := by
          rcases List.mem_append.mp hy with hy | hy
          · exact List.mem_append_left _ hy
          · exact List.mem_append_right _ (List.mem_cons_of_mem _ (List.takeWhile_subset _
              ((List.mem_cons.mp hy).resolve_left hyx)))
        rw [hsame y hmem hyx] at h2 h3
        exact Or.inr ⟨⟨by rw [ht]; exact hy, h2, h3⟩, hsame y hmem hyx⟩
    · rw [hpost y (List.dropWhile_subset _ hy)]
      exact hfim y hy

/-- The cluster of a new directory: nothing but `.` and `..`. -/
structure PastaNova (v : Bpb) (d : Disco) (n : Nat) : Prop where
  pontos : ∀ z ∈ slots v n, (dirent d z).first ≠ 0 →
    EhPonto (dirent d z) ∧ (dirent d z).attr &&& FAT32_ATTR_VOLUME = 0
  unicos : ∀ y ∈ slots v n, ∀ z ∈ slots v n, (dirent d y).first ≠ 0 → (dirent d z).first ≠ 0 →
    (dirent d y).raw11 = (dirent d z).raw11 → y = z
  fim : Fim d (slots v n)

theorem Vivo.first_ne {ss : List Slot} (h : Vivo d ss y) : (dirent d y).first ≠ 0 := by
  obtain ⟨h, _, _⟩ := h
  have hall := List.all_takeWhile (p := fun y => decide ((dirent d y).first ≠ 0)) (l := ss)
  exact of_decide_eq_true (List.all_eq_true.mp hall y h)

theorem PastaNova.dirent {d' : Disco} (h : PastaNova v d n)
    (he : ∀ y ∈ slots v n, Fat32.dirent d' y = Fat32.dirent d y) : PastaNova v d' n := by
  refine ⟨fun z hz hf => ?_, fun y hy z hz hfy hfz hr => ?_, fim_congr he h.fim⟩
  · rw [he z hz] at hf ⊢
    exact h.pontos z hz hf
  · rw [he y hy] at hfy hr
    rw [he z hz] at hfz hr
    exact h.unicos y hy z hz hfy hfz hr

/-- The volume after the entry `e` was put at `x`, for the cluster `n`. -/
structure Entrou (v : Bpb) (d d' : Disco) (x : Slot) (e : Dirent) (n : Nat) : Prop where
  cadeia : ∀ a as, Cadeia v d' a as ↔ Cadeia v d a as
  entrada : Fat32.dirent d' x = e
  vivos : ∀ q ks, Dir v d q → Cadeia v d q ks → ∀ y, Vivo d' (entradas v ks) y → y = x ∨
    (Vivo d (entradas v ks) y ∧ Fat32.dirent d' y = Fat32.dirent d y)
  fim : ∀ q ks, Dir v d q → Cadeia v d q ks → Fim d' (entradas v ks)
  pasta : EhDir e → PastaNova v d' n

/-- The first free entry of a directory gets a cluster of no object. -/
theorem Livre.entrou {pre post : List Slot} (h : Avulsa v d n [n]) (hp : Dir v d p)
    (hc : Cadeia v d p cs) (hl : Livre d (entradas v cs) pre post x) (he : e.first ≠ 0)
    (hnova : EhDir e → PastaNova v d n) : Entrou v d (gravar_dirent d x e) x e n := by
  have hb := h.bem
  have hx : x ∈ entradas v cs := hl.eq ▸ List.mem_append_right _ List.mem_cons_self
  obtain ⟨hvivos, hfim⟩ := hl.vivos hb hp hc he
  constructor
  case cadeia => exact fun a as => cadeia_dirent hb hc hx
  case entrada => exact dirent_escrita hb hc hx
  case vivos =>
    intro q ks hq hk y hv
    by_cases hqp : q = p
    · subst hqp
      obtain rfl := Chain.unique hk hc
      exact hvivos y hv
    · have hsame := pasta_igual (e := e) hb hp hc hx hq hk hqp
      exact Or.inr ⟨(vivo_congr hsame).mp hv, hsame y hv.mem⟩
  case fim =>
    intro q ks hq hk
    by_cases hqp : q = p
    · subst hqp
      obtain rfl := Chain.unique hk hc
      exact hfim
    · exact fim_congr (pasta_igual (e := e) hb hp hc hx hq hk hqp) (hb.fim q ks hq hk)
  case pasta =>
    -- the entries of the new cluster are as they were
    refine fun hd => (hnova hd).dirent fun y hy => dirent_ne (slots_lt hy) (fun hyx => ?_) e
    obtain ⟨_, _, a, ha, hxa⟩ := hb.em_faixa hc hx
    have hrn := h.cadeia.em_faixa List.mem_cons_self
    obtain rfl := slots_inj hb.geo hrn (hc.em_faixa ha) (hyx ▸ hy) hxa
    obtain ⟨o, ho, _⟩ := hp.objeto hb.raiz
    exact h.solta o p cs ho hc n List.mem_cons_self ha

section Entrou

variable {d' : Disco}

theorem Entrou.unica (hr : Entrou v d d' x e n) (h : Avulsa v d n [n]) {as : List Nat}
    (ha : Cadeia v d' n as) : as = [n] :=
  Chain.unique ((hr.cadeia n as).mp ha) h.cadeia

/-- A new directory has nothing but `.` and `..`. -/
theorem Entrou.ponto (hr : Entrou v d d' x e n) (h : Avulsa v d n [n]) (hd : EhDir e)
    {as : List Nat} (ha : Cadeia v d' n as) (hy : Vivo d' (entradas v as) y) :
    EhPonto (Fat32.dirent d' y) ∧ (Fat32.dirent d' y).attr &&& FAT32_ATTR_VOLUME = 0 := by
  refine (hr.pasta hd).pontos y ?_ hy.first_ne
  have hmem := hy.mem
  rw [hr.unica h ha, entradas, List.flatMap_singleton] at hmem
  exact hmem

/-- There is one object more. -/
theorem Entrou.objetos (hr : Entrou v d d' x e n) (h : Avulsa v d n [n]) (hcl : e.cluster = n) :
    (∀ q, Dir v d' q → Dir v d q ∨ (q = n ∧ EhDir e)) ∧
      ∀ o c, Objeto v d' o c → Objeto v d o c ∨ (o = some x ∧ c = n) := by
  obtain ⟨hdirs, hobjs⟩ := h.bem.transfere d' (fun y m => y = x ∧ m = n)
    (fun q ks hq hk => by
      refine ⟨(hr.cadeia q ks).mpr hk, fun y hv _ => ?_⟩
      rcases hr.vivos q ks hq hk y hv with rfl | hold
      · exact Or.inr ⟨rfl, by rw [hr.entrada, hcl]⟩
      · exact Or.inl hold)
    (fun y m hy hd as ha z hz => by
      obtain ⟨rfl, rfl⟩ := hy
      rw [hr.entrada] at hd
      exact (hr.ponto h hd ha hz).1)
  refine ⟨fun q hq => ?_, fun o c ho => ?_⟩
  · rcases hdirs q hq with hq | ⟨y, ⟨rfl, rfl⟩, hd⟩
    · exact Or.inl hq
    · rw [hr.entrada] at hd
      exact Or.inr ⟨rfl, hd⟩
  · rcases hobjs o c ho with ho | ⟨y, rfl, rfl, rfl⟩
    · exact Or.inl ho
    · exact Or.inr ⟨rfl, rfl⟩

theorem Entrou.bem (hr : Entrou v d d' x e n) (h : Avulsa v d n [n]) (hcl : e.cluster = n)
    (hvol : e.attr &&& FAT32_ATTR_VOLUME = 0) : BemFormado v d' := by
  have hb := h.bem
  obtain ⟨hdirs, hobjs⟩ := hr.objetos h hcl
  refine ⟨hb.geo, hb.raiz, ?_, ?_, ?_, ?_⟩
  · intro o c ho hne
    rcases hobjs o c ho with ho | ⟨_, rfl⟩
    · obtain ⟨as, ha⟩ := hb.cadeias o c ho hne
      exact ⟨as, (hr.cadeia c as).mpr ha⟩
    · exact ⟨[c], (hr.cadeia c [c]).mpr h.cadeia⟩
  · intro o o' c c' as as' ho ho' hne ha ha' z hz hz'
    have ha := (hr.cadeia c as).mp ha
    have ha' := (hr.cadeia c' as').mp ha'
    rcases hobjs o c ho with ho | ⟨rfl, rfl⟩
    · rcases hobjs o' c' ho' with ho' | ⟨rfl, rfl⟩
      · exact hb.disjuntas o o' c c' as as' ho ho' hne ha ha' z hz hz'
      · rw [Chain.unique ha' h.cadeia] at hz'
        exact h.solta o c as ho ha z hz' hz
    · rcases hobjs o' c' ho' with ho' | ⟨rfl, rfl⟩
      · rw [Chain.unique ha h.cadeia] at hz
        exact h.solta o' c' as' ho' ha' z hz hz'
      · exact hne rfl
  · intro q as y hq ha hv hvl
    rcases hdirs q hq with hq | ⟨rfl, hd⟩
    · rcases hr.vivos q as hq ((hr.cadeia q as).mp ha) y hv with rfl | ⟨hold, hsame⟩
      · rw [hr.entrada] at hvl
        exact absurd hvol hvl
      · rw [hsame] at hvl ⊢
        exact hb.rotulos q as y hq ((hr.cadeia q as).mp ha) hold hvl
    · exact absurd (hr.ponto h hd ha hv).2 hvl
  · intro q as hq ha
    rcases hdirs q hq with hq | ⟨rfl, hd⟩
    · exact hr.fim q as hq ((hr.cadeia q as).mp ha)
    · rw [hr.unica h ha, entradas, List.flatMap_singleton]
      exact (hr.pasta hd).fim

end Entrou

/-- A cluster of no object becomes the one of a new entry. -/
theorem nova_entrada {pre post : List Slot} (h : Avulsa v d n [n]) (hp : Dir v d p)
    (hc : Cadeia v d p cs) (hl : Livre d (entradas v cs) pre post x) (he : e.first ≠ 0)
    (hcl : e.cluster = n) (hvol : e.attr &&& FAT32_ATTR_VOLUME = 0)
    (hnova : EhDir e → PastaNova v d n) :
    BemFormado v (gravar_dirent d x e) ∧ (¬ EhDir e → Arq v (gravar_dirent d x e) n [n]) ∧
      Entre v (· = x) (fun q => q = n ∧ Cadeia v (gravar_dirent d x e) n [n] ∧
        PastaNova v (gravar_dirent d x e) n) d (gravar_dirent d x e) := by
  have hr := hl.entrou h hp hc he hnova
  have hbem := hr.bem h hcl hvol
  have hcad := (hr.cadeia n [n]).mpr h.cadeia
  obtain ⟨hdirs, hobjs⟩ := hr.objetos h hcl
  refine ⟨hbem, fun hnd => ⟨hbem, hcad, fun hd => ?_, ?_⟩, fun q as hq ha => ?_⟩
  · rcases hdirs n hd with hd | ⟨_, hd⟩
    · exact h.arq.pasta hd
    · exact hnd hd
  · intro o c ks ho hk hne
    rcases hobjs o c ho with ho | ⟨_, rfl⟩
    · exact h.solta o c ks ho ((hr.cadeia c ks).mp hk)
    · exact absurd rfl hne
  · rcases hdirs q hq with hq | ⟨rfl, hd⟩
    · have ha := (hr.cadeia q as).mp ha
      exact Or.inr ⟨hq, ha, hr.vivos q as hq ha⟩
    · exact Or.inl ⟨rfl, hcad, hr.pasta hd⟩

/-! ## The fields of an entry -/

section Campos

variable {name11 : List UInt8} {attr : UInt8} {cluster : Nat}

@[simp] theorem novo_first : (novo_dirent name11 attr cluster).first = name11.getD 0 0 := rfl

@[simp] theorem novo_attr : (novo_dirent name11 attr cluster).attr = attr := rfl

@[simp] theorem novo_size : (novo_dirent name11 attr cluster).size = 0 := rfl

theorem novo_cluster (h : cluster < 2 ^ 32) :
    (novo_dirent name11 attr cluster).cluster = cluster := by
  change ((UInt8.ofNat (cluster / 2 ^ 16)).toNat + 256 * (UInt8.ofNat (cluster / 2 ^ 24)).toNat)
    * 2 ^ 16 + ((UInt8.ofNat cluster).toNat + 256 * (UInt8.ofNat (cluster / 2 ^ 8)).toNat) = cluster
  simp only [UInt8.toNat_ofNat']
  omega

theorem novo_raw11 (h : name11.length = 11) :
    (novo_dirent name11 attr cluster).raw11 = name11 := by
  unfold Dirent.raw11
  refine List.ext_getElem (by simp [h]) fun i hi hi' => ?_
  have h11 : i < 11 := by omega
  rw [List.getElem_map, List.getElem_range]
  change (if hm : i < 32 then novo_dirent name11 attr cluster ⟨i, hm⟩ else 0) = _
  rw [dif_pos (by omega)]
  unfold novo_dirent
  rw [if_pos h11]
  simp [List.getD, hi']

theorem dirent_zero (hz : d x.1 = zero) : (dirent d x).first = 0 := by
  change (dirent d x).byte 0 = 0
  unfold dirent
  rw [hz, byte_slice _ _ (by decide), byte_zero]

end Campos

/-! ## A new directory -/

theorem zera_setores (l : List Nat) (base : Nat) (d : Disco) (t : Nat) :
    l.foldl (fun d s => gravar d (base + s) zero) d (base + t) =
      if t ∈ l then zero else d (base + t) := by
  induction l generalizing d with
  | nil => rfl
  | cons s l ih =>
    rw [List.foldl_cons, ih]
    by_cases ht : t ∈ l
    · rw [if_pos ht, if_pos (List.mem_cons_of_mem _ ht)]
    · rw [if_neg ht]
      by_cases hts : t = s
      · subst hts
        rw [gravar_self, if_pos List.mem_cons_self]
      · rw [gravar_ne _ (by omega), if_neg fun h => (List.mem_cons.mp h).elim hts ht]

theorem zera_dirent (h : y ∈ slots v n) : (dirent (zera_cluster v d n) y).first = 0 := by
  obtain ⟨s, hs, i, _, rfl⟩ := mem_slots.mp h
  refine dirent_zero ?_
  unfold zera_cluster
  rw [zera_setores, if_pos (List.mem_range.mpr hs)]

theorem slots_cons (g : Geometria v) :
    ∃ rest, slots v n = (cluster_to_lba v n, 0) :: (cluster_to_lba v n, 1) :: rest := by
  obtain ⟨k, hk⟩ : ∃ k, v.spc = k + 1 := ⟨v.spc - 1, by have := g.spc_pos; omega⟩
  unfold slots
  rw [hk, List.range_succ_eq_map (n := k), List.flatMap_cons, Nat.add_zero]
  exact ⟨_, rfl⟩

theorem pasta_nova (g : Geometria v) :
    PastaNova v (pontos v (zera_cluster v d n) n p) n := by
  obtain ⟨rest, hss⟩ := slots_cons (n := n) g
  have hnd := slots_nodup (v := v) (c := n)
  rw [hss] at hnd
  obtain ⟨h0, hnd⟩ := List.nodup_cons.mp hnd
  obtain ⟨h1, _⟩ := List.nodup_cons.mp hnd
  have e0 : dirent (pontos v (zera_cluster v d n) n p) (cluster_to_lba v n, 0) =
      novo_dirent PONTO FAT32_ATTR_DIR n := by
    unfold pontos
    rw [dirent_ne (Nat.zero_lt_succ 15) (by simp), dirent_self (Nat.zero_lt_succ 15)]
  have e1 : dirent (pontos v (zera_cluster v d n) n p) (cluster_to_lba v n, 1) =
      novo_dirent PONTO_PONTO FAT32_ATTR_DIR p := by
    unfold pontos
    rw [dirent_self (show 1 < 16 by decide)]
  have hrest : ∀ y ∈ rest, (dirent (pontos v (zera_cluster v d n) n p) y).first = 0 := by
    intro y hy
    have hmem : y ∈ slots v n := by
      rw [hss]
      exact List.mem_cons_of_mem _ (List.mem_cons_of_mem _ hy)
    have hy0 : y ≠ (cluster_to_lba v n, 0) := fun he =>
      h0 (List.mem_cons_of_mem _ (he ▸ hy))
    have hy1 : y ≠ (cluster_to_lba v n, 1) := fun he => h1 (he ▸ hy)
    unfold pontos
    rw [dirent_ne (slots_lt hmem) hy1, dirent_ne (slots_lt hmem) hy0]
    exact zera_dirent hmem
  have hcasos : ∀ z ∈ slots v n, (dirent (pontos v (zera_cluster v d n) n p) z).first ≠ 0 →
      z = (cluster_to_lba v n, 0) ∨ z = (cluster_to_lba v n, 1) := by
    intro z hz hf
    rw [hss] at hz
    rcases List.mem_cons.mp hz with hz | hz
    · exact Or.inl hz
    · rcases List.mem_cons.mp hz with hz | hz
      · exact Or.inr hz
      · exact absurd (hrest z hz) hf
  refine ⟨fun z hz hf => ?_, fun y hy z hz hfy hfz hr => ?_, ?_⟩
  · rcases hcasos z hz hf with rfl | rfl
    · rw [e0]
      exact ⟨Or.inl (novo_raw11 rfl), by rw [novo_attr]; decide⟩
    · rw [e1]
      exact ⟨Or.inr (novo_raw11 rfl), by rw [novo_attr]; decide⟩
  · rcases hcasos y hy hfy with rfl | rfl <;> rcases hcasos z hz hfz with rfl | rfl
    · rfl
    · rw [e0, e1, novo_raw11 rfl, novo_raw11 rfl] at hr
      exact absurd hr (by decide)
    · rw [e0, e1, novo_raw11 rfl, novo_raw11 rfl] at hr
      exact absurd hr (by decide)
    · rfl
  · unfold Fim
    rw [hss, List.dropWhile_cons_of_pos (by rw [e0, novo_first]; decide),
      List.dropWhile_cons_of_pos (by rw [e1, novo_first]; decide)]
    exact fun y hy => hrest y (List.dropWhile_subset _ hy)

end Entradas

end SpaceOS.Fat32
