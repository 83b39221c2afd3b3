-- What the driver does to clusters: one is taken, cleared, written, linked to a chain or freed, and
-- the chains of the other objects stay as they are.
import SpaceOS.Fat32Objects

open Lib.Bytes Lib.Bytes.ByteStr Lib.Links

namespace SpaceOS.Fat32

section Clusters

variable {v : Bpb} {d d' : Disco} {c n : Nat} {cs cs' ns : List Nat}

/-! ## Allocation -/

def Cheio (v : Bpb) (d : Disco) : Prop := ∀ c, EmFaixa v c → fat32_read_fat v d c ≠ 0

/-- The disk is full, or a free cluster becomes a chain of its own. -/
theorem alloc_spec (v : Bpb) (d : Disco) :
    (Cheio v d ∧ fat32_alloc_cluster v d = (0, d)) ∨
      ∃ n, EmFaixa v n ∧ fat32_read_fat v d n = 0 ∧
        fat32_alloc_cluster v d = (n, fat32_write_fat_entry v d n 0x0FFFFFFF) := by
  unfold fat32_alloc_cluster
  rcases hf : ((List.range v.total_clusters).map (· + 2)).find?
    (fun c => fat32_read_fat v d c = 0) with _ | n
  · refine Or.inl ⟨fun c hc h0 => ?_, rfl⟩
    unfold EmFaixa at hc
    have hmem : c ∈ (List.range v.total_clusters).map (· + 2) :=
      List.mem_map.mpr ⟨c - 2, List.mem_range.mpr (by omega), by omega⟩
    exact absurd (decide_eq_true h0) (List.find?_eq_none.mp hf c hmem)
  · refine Or.inr ⟨n, ?_, by simpa using List.find?_some hf, rfl⟩
    obtain ⟨k, hk, rfl⟩ := List.mem_map.mp (List.mem_of_find?_eq_some hf)
    have := List.mem_range.mp hk
    unfold EmFaixa
    omega

theorem SoEm.mono (h : SoEm v cs d d') (hs : cs ⊆ cs') : SoEm v cs' d d' :=
  fun c hc hn => h c hc fun hmem => hn (hs hmem)

theorem so_em_fat (g : Geometria v) (hn : EmFaixa v n) (x : Nat) :
    SoEm v [n] d (fat32_write_fat_entry v d n x) := by
  intro c hc hne
  have hne := fun h => hne (List.mem_singleton.mpr h)
  exact ⟨read_write_ne g hn hc x hne, fun y hy => dirent_write_fat g hn x (slots_ge g hc hy)⟩

theorem elo_fat (g : Geometria v) (hn : EmFaixa v n) (x : Nat) (hc : c ≠ n) :
    elo v (fat32_write_fat_entry v d n x) c = elo v d c := by
  unfold elo
  by_cases hr : EmFaixa v c
  · rw [read_write_ne g hn hr x hc]
  · rw [if_neg fun h => hr h.1, if_neg fun h => hr h.1]

theorem elo_fim (g : Geometria v) (hn : EmFaixa v n) :
    elo v (fat32_write_fat_entry v d n 0x0FFFFFFF) n = some none := by
  have hv : fat32_read_fat v (fat32_write_fat_entry v d n 0x0FFFFFFF) n = 0x0FFFFFFF :=
    read_write_self g hn _
  unfold elo
  rw [hv, if_pos ⟨hn, by decide⟩]
  rfl

theorem solta_livre (h0 : fat32_read_fat v d n = 0) : Solta v d [n] := by
  intro o c ks _ hk x hx
  rw [List.mem_singleton.mp hx]
  exact hk.livre h0

/-- A well formed volume with a chain that is of no object. -/
structure Avulsa (v : Bpb) (d : Disco) (c : Nat) (cs : List Nat) : Prop where
  bem : BemFormado v d
  cadeia : Cadeia v d c cs
  solta : Solta v d cs

theorem Avulsa.muda (h : Avulsa v d c cs) (hm : SoEm v cs d d') (hc : Cadeia v d' c cs) :
    Avulsa v d' c cs := by
  obtain ⟨hb, hk⟩ := h.bem.muda_solta h.solta hm
  refine ⟨hb, hc, fun o c' ks ho hks x hx => ?_⟩
  have ho' := (h.bem.menos (h.solta.pastas h.bem hm)).objetos o c' ho
  obtain ⟨ls, hl⟩ := h.bem.cadeias o c' ho' (Cadeia.ne_zero hks)
  rw [Chain.unique hks (hk o c' ls ho' hl)]
  exact h.solta o c' ls ho' hl x hx

theorem aloca (h : BemFormado v d) (hn : EmFaixa v n) (h0 : fat32_read_fat v d n = 0) :
    Avulsa v (fat32_write_fat_entry v d n 0x0FFFFFFF) n [n] := by
  have hm := so_em_fat (d := d) h.geo hn 0x0FFFFFFF
  have hs := solta_livre h0
  obtain ⟨hb, hk⟩ := h.muda_solta hs hm
  refine ⟨hb, .last (elo_fim h.geo hn), fun o c ks ho hks x hx => ?_⟩
  have ho' := (h.menos (hs.pastas h hm)).objetos o c ho
  obtain ⟨ls, hl⟩ := h.cadeias o c ho' (Cadeia.ne_zero hks)
  rw [Chain.unique hks (hk o c ls ho' hl)]
  exact hs o c ls ho' hl x hx

/-! ## The contents of a cluster -/

/-- Only the sectors of a cluster change. -/
def SoDados (v : Bpb) (n : Nat) (d d' : Disco) : Prop :=
  ∀ c, EmFaixa v c → fat32_read_fat v d' c = fat32_read_fat v d c ∧
    (c ≠ n → ∀ y ∈ slots v c, dirent d' y = dirent d y)

theorem SoDados.refl (v : Bpb) (n : Nat) (d : Disco) : SoDados v n d d :=
  fun _ _ => ⟨rfl, fun _ _ _ => rfl⟩

theorem SoDados.trans {d'' : Disco} (h : SoDados v n d d') (h' : SoDados v n d' d'') :
    SoDados v n d d'' :=
  fun c hc => ⟨((h' c hc).1).trans (h c hc).1,
    fun hne y hy => ((h' c hc).2 hne y hy).trans ((h c hc).2 hne y hy)⟩

theorem SoDados.so_em (h : SoDados v n d d') : SoEm v [n] d d' :=
  fun c hc hn => ⟨(h c hc).1, (h c hc).2 fun he => hn (List.mem_singleton.mpr he)⟩

theorem SoDados.elo (h : SoDados v n d d') : elo v d' = elo v d := by
  funext c
  by_cases hr : EmFaixa v c
  · exact elo_congr (h c hr).1
  · unfold Fat32.elo
    rw [if_neg fun h => hr h.1, if_neg fun h => hr h.1]

theorem so_dados_gravar (g : Geometria v) (hn : EmFaixa v n) {s : Nat} (hs : s < v.spc)
    (b : Setor) : SoDados v n d (gravar d (cluster_to_lba v n + s) b) := by
  intro c hc
  refine ⟨read_fat_gravar g hc (data_le_lba g hn) b, fun hne y hy => ?_⟩
  obtain ⟨t, ht, i, _, rfl⟩ := mem_slots.mp hy
  unfold dirent
  rw [gravar_ne]
  intro he
  exact hne (lba_inj g hc hn ht hs he).1

/-- A loop of writes to the sectors of a cluster. -/
theorem so_dados_laco (f : Disco → Nat → Disco) {l : List Nat}
    (h : ∀ d, ∀ s ∈ l, SoDados v n d (f d s)) (d : Disco) : SoDados v n d (l.foldl f d) := by
  induction l generalizing d with
  | nil => exact SoDados.refl v n d
  | cons s l ih =>
    rw [List.foldl_cons]
    exact (h d s List.mem_cons_self).trans
      (ih (fun d t ht => h d t (List.mem_cons_of_mem _ ht)) (f d s))

theorem so_dados_zera (g : Geometria v) (hn : EmFaixa v n) (d : Disco) :
    SoDados v n d (zera_cluster v d n) :=
  so_dados_laco _ (fun _ _ hs => so_dados_gravar g hn (List.mem_range.mp hs) _) d

theorem so_dados_grava (g : Geometria v) (hn : EmFaixa v n) (dados : List UInt8) (d : Disco) :
    SoDados v n d (grava_cluster v d n dados) := by
  refine so_dados_laco _ (fun d s hs => ?_) d
  split
  · exact so_dados_gravar g hn (List.mem_range.mp hs) _
  · exact SoDados.refl v n d

theorem so_dados_dirent (g : Geometria v) (hn : EmFaixa v n) {x : Slot} (hx : x ∈ slots v n)
    (e : Dirent) : SoDados v n d (gravar_dirent d x e) := by
  obtain ⟨s, hs, i, _, rfl⟩ := mem_slots.mp hx
  unfold gravar_dirent
  exact so_dados_gravar g hn hs _

theorem primeiro_slot (g : Geometria v) {i : Nat} (hi : i < 16) :
    (cluster_to_lba v n, i) ∈ slots v n :=
  mem_slots.mpr ⟨0, g.spc_pos, i, hi, by rw [Nat.add_zero]⟩

theorem so_dados_pontos (g : Geometria v) (hn : EmFaixa v n) (p : Nat) (d : Disco) :
    SoDados v n d (pontos v d n p) := by
  unfold pontos
  exact (so_dados_dirent g hn (primeiro_slot g (by decide)) _).trans
    (so_dados_dirent g hn (primeiro_slot g (by decide)) _)

theorem Avulsa.dados (h : Avulsa v d n [n]) (hm : SoDados v n d d') : Avulsa v d' n [n] := by
  refine h.muda hm.so_em ?_
  unfold Cadeia
  rw [hm.elo]
  exact h.cadeia

/-! ## A file and its chain -/

/-- A well formed volume with the chain of a file: of no directory, and of no object with another
first cluster. -/
structure Arq (v : Bpb) (d : Disco) (c : Nat) (cs : List Nat) : Prop where
  bem : BemFormado v d
  cadeia : Cadeia v d c cs
  pasta : ¬ Dir v d c
  outros : ∀ o c' ks, Objeto v d o c' → Cadeia v d c' ks → c' ≠ c → ∀ y ∈ cs, y ∉ ks

theorem Avulsa.arq (h : Avulsa v d c cs) : Arq v d c cs := by
  refine ⟨h.bem, h.cadeia, fun hd => ?_, fun o c' ks ho hk _ => h.solta o c' ks ho hk⟩
  obtain ⟨o, ho, _⟩ := hd.objeto h.bem.raiz
  exact h.solta o c cs ho h.cadeia c (Chain.head_mem h.cadeia) (Chain.head_mem h.cadeia)

/-- The chain of a file may grow by clusters of no object. -/
theorem Arq.muda (h : Arq v d c cs) (hs : Solta v d ns) (hm : SoEm v (cs ++ ns) d d')
    (hc : Cadeia v d' c cs') (hsub : cs' ⊆ cs ++ ns) : Arq v d' c cs' := by
  have hfora : ∀ o c' ks, Objeto v d o c' → Cadeia v d c' ks → c' ≠ c →
      ∀ y ∈ cs ++ ns, y ∉ ks := by
    intro o c' ks ho hk hne y hy
    rcases List.mem_append.mp hy with hy | hy
    · exact h.outros o c' ks ho hk hne y hy
    · exact hs o c' ks ho hk y hy
  have hcad : ∀ o c' ks, Objeto v d o c' → Cadeia v d c' ks → c' ≠ c → Cadeia v d' c' ks := by
    intro o c' ks ho hk hne
    refine hk.mesma_fat fun x hx => (hm x (hk.em_faixa hx) fun hmem => ?_).1
    exact hfora o c' ks ho hk hne x hmem hx
  have hpastas : Pastas v d d' := by
    intro q ks hq hk x hx
    obtain ⟨o, ho, _⟩ := hq.objeto h.bem.raiz
    have hne : q ≠ c := fun he => h.pasta (he ▸ hq)
    exact hm x (hk.em_faixa hx) fun hmem => hfora o q ks ho hk hne x hmem hx
  -- the chains after the change: the one of the file, and the old ones
  have hquem : ∀ o c' ks, Objeto v d o c' → Cadeia v d' c' ks →
      (c' = c ∧ ks = cs') ∨ (c' ≠ c ∧ Cadeia v d c' ks) := by
    intro o c' ks ho hk
    by_cases he : c' = c
    · subst he
      exact Or.inl ⟨rfl, Chain.unique hk hc⟩
    · obtain ⟨ls, hl⟩ := h.bem.cadeias o c' ho (Cadeia.ne_zero hk)
      rw [Chain.unique hk (hcad o c' ls ho hl he)]
      exact Or.inr ⟨he, hl⟩
  have hmenos := h.bem.menos hpastas
  refine ⟨h.bem.muda hpastas ?_ ?_, hc, fun hd => h.pasta (hmenos.dirs c hd), ?_⟩
  · intro o c' ho hne
    by_cases he : c' = c
    · exact ⟨cs', he ▸ hc⟩
    · obtain ⟨ls, hl⟩ := h.bem.cadeias o c' ho hne
      exact ⟨ls, hcad o c' ls ho hl he⟩
  · intro o o' a a' ks ks' ho ho' hne hk hk' x hx hx'
    rcases hquem o a ks ho hk with ⟨rfl, rfl⟩ | ⟨ha, hka⟩
    · rcases hquem o' a' ks' ho' hk' with ⟨rfl, rfl⟩ | ⟨ha', hka'⟩
      · exact h.bem.disjuntas o o' _ _ cs cs ho ho' hne h.cadeia h.cadeia _
          (Chain.head_mem h.cadeia) (Chain.head_mem h.cadeia)
      · exact hfora o' a' ks' ho' hka' ha' x (hsub hx) hx'
    · rcases hquem o' a' ks' ho' hk' with ⟨rfl, rfl⟩ | ⟨_, hka'⟩
      · exact hfora o a ks ho hka ha x (hsub hx') hx
      · exact h.bem.disjuntas o o' a a' ks ks' ho ho' hne hka hka' x hx hx'
  · intro o c' ks ho hk hne y hy
    rcases hquem o c' ks (hmenos.objetos o c' ho) hk with ⟨he, _⟩ | ⟨_, hka⟩
    · exact absurd he hne
    · exact hfora o c' ks (hmenos.objetos o c' ho) hka hne y (hsub hy)

theorem Arq.dados (h : Arq v d c cs) (hn : n ∈ cs) (hm : SoDados v n d d') : Arq v d' c cs := by
  have hs : Solta v d [] := fun _ _ _ _ _ _ hx => absurd hx List.not_mem_nil
  refine h.muda hs ?_ ?_ (by simp)
  · exact hm.so_em.mono fun x hx => by
      rw [List.mem_singleton.mp hx]
      exact List.mem_append_left _ hn
  · unfold Cadeia
    rw [hm.elo]
    exact h.cadeia

theorem so_em_liga {z : Nat} (g : Geometria v) (hz : z ∈ cs) (hr : EmFaixa v z)
    (hn : EmFaixa v n) :
    SoEm v (cs ++ [n]) d
      (fat32_write_fat_entry v (fat32_write_fat_entry v d n 0x0FFFFFFF) z n) := by
  refine SoEm.trans ((so_em_fat g hn _).mono ?_) ((so_em_fat g hr n).mono ?_)
  · exact List.subset_append_right _ _
  · intro x hx
    rw [List.mem_singleton.mp hx]
    exact List.mem_append_left _ hz

/-- A cluster is taken and linked to the last one of the chain. -/
theorem Arq.liga {z : Nat} (h : Arq v d c cs) (hz : z ∈ cs) (hl : elo v d z = some none)
    (hn : EmFaixa v n) (h0 : fat32_read_fat v d n = 0) :
    Arq v (fat32_write_fat_entry v (fat32_write_fat_entry v d n 0x0FFFFFFF) z n) c
      (cs ++ [n]) := by
  have g := h.bem.geo
  have hrz := h.cadeia.em_faixa hz
  have hnz : n ≠ z := fun he => h.cadeia.livre h0 (he ▸ hz)
  have hlt := hn.lt_eof g
  refine h.muda (solta_livre h0) (so_em_liga g hz hrz hn) ?_ (List.Subset.refl _)
  refine Chain.extend (d := n) h.cadeia hz hl ?_ ?_ (.last ?_)
  · intro x hx hxz
    have hxn : x ≠ n := fun he => h.cadeia.livre h0 (he ▸ hx)
    rw [elo_fat g hrz n hxz, elo_fat g hn _ hxn]
  · have hv : fat32_read_fat v (fat32_write_fat_entry v
        (fat32_write_fat_entry v d n 0x0FFFFFFF) z n) z = n := by
      have := eof_eq
      rw [read_write_self g hrz, Nat.mod_eq_of_lt (by omega)]
    unfold elo
    rw [hv, if_pos ⟨hrz, by unfold EmFaixa at hn; omega⟩, if_neg (by omega)]
  · rw [elo_fat g hrz n hnz]
    exact elo_fim g hn

/-- Outside of some clusters the ones in use stay as they are. -/
def Poupa (v : Bpb) (cs : List Nat) (d d' : Disco) : Prop :=
  ∀ z, EmFaixa v z → z ∉ cs → fat32_read_fat v d z ≠ 0 →
    fat32_read_fat v d' z = fat32_read_fat v d z ∧ ∀ y ∈ slots v z, dirent d' y = dirent d y

theorem Poupa.refl (v : Bpb) (cs : List Nat) (d : Disco) : Poupa v cs d d :=
  fun _ _ _ _ => ⟨rfl, fun _ _ => rfl⟩

theorem SoEm.poupa (h : SoEm v cs d d') : Poupa v cs d d' := fun z hz hn _ => h z hz hn

theorem Poupa.trans {d'' : Disco} (h : Poupa v cs d d') (h' : Poupa v cs d' d'') :
    Poupa v cs d d'' := by
  intro z hz hn h0
  obtain ⟨hr, he⟩ := h z hz hn h0
  obtain ⟨hr', he'⟩ := h' z hz hn (hr ▸ h0)
  exact ⟨hr'.trans hr, fun y hy => (he' y hy).trans (he y hy)⟩

/-- A cluster that was free may change as well. -/
theorem Poupa.livre {d₀ : Disco} (h : Poupa v (cs ++ [n]) d d')
    (h0 : fat32_read_fat v d₀ n = 0) (hm : SoEm v (cs ++ [n]) d₀ d) : Poupa v cs d₀ d' := by
  intro z hz hn hr
  have hmem : z ∉ cs ++ [n] := by
    intro hmem
    rcases List.mem_append.mp hmem with hmem | hmem
    · exact hn hmem
    · rw [List.mem_singleton.mp hmem] at hr
      exact hr h0
  exact hm.poupa.trans h z hz hmem hr

/-- A chain of clusters that stay as they are, with its entries. -/
theorem Poupa.cadeia {ks : List Nat} (h : Poupa v cs d d') (hk : Cadeia v d c ks)
    (hn : ∀ x ∈ ks, x ∉ cs) :
    Cadeia v d' c ks ∧ ∀ y ∈ entradas v ks, dirent d' y = dirent d y := by
  have hp : ∀ x ∈ ks, fat32_read_fat v d' x = fat32_read_fat v d x ∧
      ∀ y ∈ slots v x, dirent d' y = dirent d y :=
    fun x hx => h x (hk.em_faixa hx) (hn x hx) (hk.em_uso hx)
  refine ⟨hk.mesma_fat fun x hx => (hp x hx).1, fun y hy => ?_⟩
  obtain ⟨x, hx, hy⟩ := List.mem_flatMap.mp hy
  exact (hp x hx).2 y hy

/-- What is written to a file leaves the directories. -/
theorem Arq.pastas (h : Arq v d c cs) (hp : Poupa v cs d d') : Pastas v d d' := by
  intro q ks hq hk z hz
  obtain ⟨o, ho, _⟩ := hq.objeto h.bem.raiz
  have hqc : q ≠ c := fun he => h.pasta (he ▸ hq)
  exact hp z (hk.em_faixa hz) (fun hzc => h.outros o q ks ho hk hqc z hzc hz) (hk.em_uso hz)

/-! ## A chain is freed -/

theorem libera_spec (g : Geometria v) {fuel : Nat} (h : Cadeia v d c cs) (hf : cs.length < fuel) :
    ∃ d', libera v fuel d c = some d' ∧ SoEm v cs d d' := by
  induction cs generalizing d c fuel with
  | nil => cases h
  | cons k cs ih =>
    obtain ⟨m, rfl⟩ : ∃ m, fuel = m + 1 := ⟨fuel - 1, by omega⟩
    obtain rfl : k = c := by
      cases h with
      | last _ => rfl
      | cons _ _ => rfl
    have hr := h.em_faixa List.mem_cons_self
    have hm := so_em_fat (d := d) g hr 0
    have hlt := hr.lt_eof g
    rw [List.length_cons] at hf
    rw [libera, if_pos ⟨hr.1, hlt⟩]
    have hnd := List.nodup_cons.mp (Chain.nodup h)
    cases h with
    | last he =>
      obtain ⟨j, rfl⟩ : ∃ j, m = j + 1 := ⟨m - 1, by omega⟩
      refine ⟨_, ?_, hm⟩
      have := elo_none he
      rw [libera, if_neg (by omega)]
    | @cons _ e _ he ht =>
      have ht' : Cadeia v (fat32_write_fat_entry v d k 0) e cs :=
        Chain.congr ht fun x hx => elo_fat g hr 0 fun hxk => hnd.1 (hxk ▸ hx)
      obtain ⟨d', hl, hs⟩ := ih ht' (by omega : cs.length < m)
      rw [(elo_some he).1]
      refine ⟨d', hl, SoEm.trans (hm.mono ?_) (hs.mono (List.subset_cons_self _ _))⟩
      exact List.cons_subset_cons _ (List.nil_subset _)

end Clusters

end SpaceOS.Fat32
