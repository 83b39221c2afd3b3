-- Lost clusters: in use, and on the chain of no object. A file that is deleted, created or written
-- loses none.
import SpaceOS.Fat32RoundTrip

open Lib.Bytes Lib.Bytes.ByteStr Lib.Links Lib.Trail

namespace SpaceOS.Fat32

/-- An object has the cluster on its chain. -/
def DeObjeto (v : Bpb) (d : Disco) (c : Nat) : Prop :=
  ∃ o a as, Objeto v d o a ∧ Cadeia v d a as ∧ c ∈ as

def Perdido (v : Bpb) (d : Disco) (c : Nat) : Prop :=
  EmFaixa v c ∧ fat32_read_fat v d c ≠ 0 ∧ ¬ DeObjeto v d c

/-- The clusters of the objects are still those of objects, or free; the others that are in use now
and were not before are those of objects. -/
structure SemPerda (v : Bpb) (d d' : Disco) : Prop where
  objetos : ∀ c, DeObjeto v d c → fat32_read_fat v d' c ≠ 0 → DeObjeto v d' c
  livres : ∀ c, EmFaixa v c → fat32_read_fat v d c = 0 → fat32_read_fat v d' c ≠ 0 →
    DeObjeto v d' c

section Perda

variable {v : Bpb} {d d' : Disco} {c n p : Nat} {cs ks : List Nat} {x : Slot}
  {name11 : List UInt8}

theorem SemPerda.perdido (h : SemPerda v d d') (hc : Perdido v d' c) : Perdido v d c := by
  obtain ⟨hr, huso, hno⟩ := hc
  exact ⟨hr, fun h0 => hno (h.livres c hr h0 huso), fun ho => hno (h.objetos c ho huso)⟩

/-! ## Objects that stay -/

/-- The objects after a change that keeps the entries of the directories: `perde` are those that it
takes away, and none of them is a directory. -/
theorem objetos_ficam (perde : Slot → Prop)
    (h1 : ∀ q as y, Dir v d q → Cadeia v d q as → Vivo d (entradas v as) y →
      ¬ EhPonto (dirent d y) → Cadeia v d' q as ∧
        (perde y ∨ (Vivo d' (entradas v as) y ∧ dirent d' y = dirent d y)))
    (h2 : ∀ y, perde y → EhDir (dirent d y) → (dirent d y).cluster = 0) :
    (∀ q, Dir v d q → Dir v d' q) ∧
      ∀ o a, Objeto v d o a → (∃ y, o = some y ∧ perde y) ∨ Objeto v d' o a := by
  have hdir : ∀ q, Dir v d q → Dir v d' q := by
    intro q hq
    induction hq with
    | raiz => exact .raiz
    | @sub q as y hq ha hv hn hd hne ih =>
      obtain ⟨ha', hp | ⟨hv', he⟩⟩ := h1 q as y hq ha hv hn
      · exact absurd (h2 y hp hd) hne
      · rw [← he] at hn hd hne ⊢
        exact .sub ih ha' hv' hn hd hne
  refine ⟨hdir, fun o a ho => ?_⟩
  cases ho with
  | raiz => exact Or.inr .raiz
  | @entrada q as y hq ha hv hn =>
    obtain ⟨ha', hp | ⟨hv', he⟩⟩ := h1 q as y hq ha hv hn
    · exact Or.inl ⟨y, rfl, hp⟩
    · rw [← he] at hn ⊢
      exact Or.inr (.entrada (hdir q hq) ha' hv' hn)

theorem Pastas.objetos (hp : Pastas v d d') {o : Option Slot} {a : Nat} (ho : Objeto v d o a) :
    Objeto v d' o a := by
  have hf := objetos_ficam (fun _ => False) (fun q as y hq ha hv _ => by
    obtain ⟨ha', he⟩ := hp.entradas hq ha
    exact ⟨ha', Or.inr ⟨(vivo_congr he).mpr hv, he y hv.mem⟩⟩) (fun _ hf _ => hf.elim)
  exact (hf.2 o a ho).resolve_left fun ⟨_, _, hf⟩ => hf

/-! ## Delete -/

theorem Cadeia.visitado (g : Geometria v) (h : Cadeia v d c cs) {y : Nat} (hy : y ∈ cs) :
    Visitado v d c y := by
  have hvai : ∀ {a as}, Cadeia v d a as → ¬ FimDaCadeia a := fun ha =>
    not_not.mpr ⟨(ha.em_faixa (Chain.head_mem ha)).1, (ha.em_faixa (Chain.head_mem ha)).lt_eof g⟩
  induction h with
  | @last c hc =>
    rw [List.mem_singleton.mp hy]
    exact .start (hvai (.last hc))
  | @cons c m cs hc hm ih =>
    have hcn := hvai (.cons hc hm)
    rcases List.mem_cons.mp hy with rfl | hy
    · exact .start hcn
    · refine Visits.head hcn ?_
      rw [(elo_some hc).1]
      exact ih hy

/-- The clusters of a chain are free when it was freed. -/
theorem libera_zera (g : Geometria v) (h : Cadeia v d c cs) {fuel : Nat}
    (hl : libera v fuel d c = some d') {y : Nat} (hy : y ∈ cs) : fat32_read_fat v d' y = 0 := by
  obtain ⟨d'', k, hrun, hw⟩ := libera_acaba v d c
  obtain rfl : d' = d'' := by
    have hmais := libera_mais k hl
    rw [hrun (fuel + k) (Nat.le_add_left k fuel)] at hmais
    exact (Option.some.inj hmais).symm
  have hv := h.visitado g hy
  have hz := hw.visited y (visitado_iff.mpr hv)
  rw [tabela_eq hv.not_stop] at hz
  rw [read_fat_entrada, hz, Nat.zero_mod]

/-- The mark on an entry that is no directory takes the object of this entry alone. -/
theorem Marcou.objetos_ficam {dₘ : Disco} (hm : Marcou v d dₘ x)
    (hdir : EhDir (dirent d x) → (dirent d x).cluster = 0) {o : Option Slot} {a : Nat}
    (ho : Objeto v d o a) : o = some x ∨ Objeto v dₘ o a := by
  have hficam := Fat32.objetos_ficam (· = x)
    (fun q as y _ ha hv _ => by
      refine ⟨(hm.cadeia q as).mpr ha, ?_⟩
      by_cases hyx : y = x
      · exact Or.inl hyx
      · have he := hm.outros q as ha y hv.mem hyx
        obtain ⟨h1, h2, h3⟩ := hv
        rw [← (takeWhile_congr (hm.mesmo_fim ha)).1] at h1
        rw [← he] at h2 h3
        exact Or.inr ⟨⟨h1, h2, h3⟩, he⟩)
    (fun y hy hd => by
      subst hy
      exact hdir hd)
  exact (hficam.2 o a ho).imp_left fun ⟨y, hoy, hyx⟩ => hyx ▸ hoy

/-- Deleting an entry that is no directory: its chain is free then, and all other objects stay. -/
theorem Liberado.sem_perda {dₘ : Disco} (h : BemFormado v d) (hp : Dir v d p)
    (hc : Cadeia v d p cs) (hx : Vivo d (entradas v cs) x) (hn : ¬ EhPonto (dirent d x))
    (hdir : EhDir (dirent d x) → (dirent d x).cluster = 0) (hl : Liberado v d x dₘ d' ks)
    (hb : BemFormado v dₘ) : SemPerda v d d' := by
  have hm : Marcou v d dₘ x := by
    rw [hl.marcado]
    exact marcou_gravar h hc hx (apagado_first _)
  have hpastas := hl.solta.pastas hb hl.so_em
  constructor
  case objetos =>
    rintro y ⟨o, a, as, ho, ha, hy⟩ huso
    rcases hm.objetos_ficam hdir ho with rfl | ho'
    · -- the chain of the entry itself
      obtain rfl := ho.unico (.entrada hp hc hx hn)
      obtain ⟨rfl, ha'⟩ := hl.cadeia as ha
      exact absurd (libera_zera h.geo ha' hl.libera hy) huso
    · exact ⟨o, a, as, hpastas.objetos ho',
        (hb.muda_solta hl.solta hl.so_em).2 o a as ho' ((hm.cadeia a as).mpr ha), hy⟩
  case livres =>
    intro y hy h0 huso
    have hfat : fat32_read_fat v dₘ y = 0 := by
      rw [hl.marcado, read_fat_dirent h hc hx.mem hy, h0]
    by_cases h0c : (dirent d x).cluster = 0
    · rw [hl.nada h0c, hfat] at huso
      exact absurd rfl huso
    by_cases hyk : y ∈ ks
    · obtain ⟨ls, hls⟩ := h.cadeias _ _ (.entrada hp hc hx hn) h0c
      exact absurd (libera_zera h.geo (hl.cadeia ls hls).2 hl.libera hyk) huso
    · rw [(hl.so_em y hy hyk).1, hfat] at huso
      exact absurd rfl huso

/-! ## Create -/

theorem mem_takeWhile_mono {α : Type} {f g : α → Bool} {l : List α} {a : α}
    (h : ∀ y ∈ l, f y → g y) (ha : a ∈ l.takeWhile f) : a ∈ l.takeWhile g := by
  induction l with
  | nil => exact ha
  | cons b l ih =>
    by_cases hb : f b
    · rw [List.takeWhile_cons_of_pos hb] at ha
      rw [List.takeWhile_cons_of_pos (h b List.mem_cons_self hb)]
      rcases List.mem_cons.mp ha with rfl | ha
      · exact List.mem_cons_self
      · exact List.mem_cons_of_mem _ (ih (fun y hy => h y (List.mem_cons_of_mem _ hy)) ha)
    · rw [List.takeWhile_cons_of_neg hb] at ha
      exact absurd ha List.not_mem_nil

/-- A live entry is live after another one was put at a free place. -/
theorem Livre.vivo {pre post : List Slot} {e : Dirent} (h : BemFormado v d)
    (hc : Cadeia v d p cs) (hl : Livre d (entradas v cs) pre post x) (he : e.first ≠ 0) {q : Nat}
    (hk : Cadeia v d q ks) {y : Slot} (hy : Vivo d (entradas v ks) y) :
    Vivo (gravar_dirent d x e) (entradas v ks) y ∧ dirent (gravar_dirent d x e) y = dirent d y := by
  have hx : x ∈ entradas v cs := hl.eq ▸ List.mem_append_right _ List.mem_cons_self
  have hself : dirent (gravar_dirent d x e) x = e := dirent_escrita h hc hx
  have hyx : y ≠ x := by
    rintro rfl
    rcases hl.livre with h0 | h5
    · exact hy.first_ne h0
    · exact hy.2.1 h5
  have hsame := dirent_outra (e := e) h hk hy.mem hyx
  obtain ⟨hy, h2, h3⟩ := hy
  refine ⟨⟨mem_takeWhile_mono (fun z hz hf => decide_eq_true ?_) hy, by rwa [hsame],
    by rwa [hsame]⟩, hsame⟩
  by_cases hzx : z = x
  · rw [hzx, hself]
    exact he
  · rw [dirent_outra h hk hz hzx]
    exact of_decide_eq_true hf

/-- The new entry is a live one. -/
theorem Livre.vivo_novo {pre post : List Slot} {e : Dirent} (h : BemFormado v d)
    (hc : Cadeia v d p cs) (hl : Livre d (entradas v cs) pre post x) (he : e.first ≠ 0)
    (h5 : e.first ≠ 0xE5) (hlfn : e.attr ≠ FAT32_ATTR_LFN) :
    Vivo (gravar_dirent d x e) (entradas v cs) x := by
  have hss := hl.eq
  change entradas v cs = pre ++ x :: post at hss
  have hnd : (entradas v cs).Nodup := entradas_nodup h.geo hc
  have hx : x ∈ entradas v cs := hss ▸ List.mem_append_right _ List.mem_cons_self
  have hself : dirent (gravar_dirent d x e) x = e := dirent_escrita h hc hx
  refine ⟨?_, by rwa [hself], by rwa [hself]⟩
  rw [hss] at hnd ⊢
  rw [(takeWhile_meio post (fun y hy => decide_eq_true ?_) (decide_eq_true (by rwa [hself]))).1]
  · exact List.mem_append_right _ List.mem_cons_self
  · have hyx : y ≠ x := (List.nodup_append.mp hnd).2.2 y hy x List.mem_cons_self
    rw [dirent_outra h hc (hss ▸ List.mem_append_left _ hy) hyx]
    exact (hl.antes y hy).1

/-- A new file: its cluster is the one that is taken, and all objects stay. -/
theorem Tomado.sem_perda {d₁ : Disco} {pre post : List Slot} (h : BemFormado v d) (hp : Dir v d p)
    (hc : Cadeia v d p cs) (ht : Tomado v d FAT32_ATTR_ARCHIVE n d₁)
    (hl : Livre d₁ (entradas v cs) pre post x) (h0 : name11.getD 0 0 ≠ 0)
    (h5 : name11.getD 0 0 ≠ 0xE5) (hlen : name11.length = 11)
    (hname : name11 ≠ PONTO ∧ name11 ≠ PONTO_PONTO) :
    SemPerda v d (gravar_dirent d₁ x (novo_dirent name11 FAT32_ATTR_ARCHIVE n)) ∧
      Objeto v (gravar_dirent d₁ x (novo_dirent name11 FAT32_ATTR_ARCHIVE n)) (some x) n := by
  have hs := solta_livre ht.livre
  have hpastas := hs.pastas h ht.so_em
  obtain ⟨hc₁, _⟩ := hpastas.entradas hp hc
  have hb := ht.avulsa.bem
  have hx : x ∈ entradas v cs := hl.eq ▸ List.mem_append_right _ List.mem_cons_self
  have hlt := ht.faixa.lt_eof h.geo
  have heof := eof_eq
  generalize hd' : gravar_dirent d₁ x (novo_dirent name11 FAT32_ATTR_ARCHIVE n) = d'
  have hcad : ∀ a as, Cadeia v d' a as ↔ Cadeia v d₁ a as := by
    intro a as
    rw [← hd']
    exact cadeia_dirent hb hc₁ hx
  have hself : dirent d' x = novo_dirent name11 FAT32_ATTR_ARCHIVE n := by
    rw [← hd']
    exact dirent_escrita hb hc₁ hx
  have hficam : (∀ q, Dir v d₁ q → Dir v d' q) ∧ ∀ o a, Objeto v d₁ o a →
      (∃ y, o = some y ∧ False) ∨ Objeto v d' o a := objetos_ficam _ (fun q as y _ ha hv _ => by
    rw [← hd']
    exact ⟨hd' ▸ (hcad q as).mpr ha, Or.inr (hl.vivo hb hc₁ (by rwa [novo_first]) ha hv)⟩)
    (fun _ hf _ => hf.elim)
  have hnovo : Objeto v d' (some x) n := by
    have hvivo : Vivo d' (entradas v cs) x := by
      rw [← hd']
      refine hl.vivo_novo hb hc₁ (by rwa [novo_first]) (by rwa [novo_first]) ?_
      rw [novo_attr]
      decide
    have ho := Objeto.entrada (hficam.1 p (hpastas.dir hp)) ((hcad p cs).mpr hc₁) hvivo (by
      rw [hself]
      unfold EhPonto
      rw [novo_raw11 hlen]
      exact not_or.mpr hname)
    rwa [hself, novo_cluster (by omega)] at ho
  have hfat : ∀ y, EmFaixa v y → fat32_read_fat v d' y = fat32_read_fat v d₁ y := by
    intro y hy
    rw [← hd']
    exact read_fat_dirent hb hc₁ hx hy
  refine ⟨⟨?_, ?_⟩, hnovo⟩
  · rintro y ⟨o, a, as, ho, ha, hy⟩ _
    have ho' := (hficam.2 o a (hpastas.objetos ho)).resolve_left fun ⟨_, _, hf⟩ => hf
    exact ⟨o, a, as, ho', (hcad a as).mpr ((h.muda_solta hs ht.so_em).2 o a as ho ha), hy⟩
  · intro y hy hy0 huso
    by_cases hyn : y = n
    · subst hyn
      exact ⟨some x, y, [y], hnovo, (hcad y [y]).mpr ht.avulsa.cadeia, List.mem_cons_self⟩
    · rw [hfat y hy, (ht.so_em y hy fun hmem => hyn (List.mem_singleton.mp hmem)).1, hy0] at huso
      exact absurd rfl huso

/-! ## Write -/

/-- What is written to a file goes to its chain, and the new clusters there were free. -/
theorem Escrita.sem_perda {dados : List UInt8} {r : Int} {ns : List Nat} (h : Arq v d n [n])
    (ho : Objeto v d (some x) n) (hp : Poupa v [n] d d') (he : Escrita v d n dados r d' ns) :
    SemPerda v d d' := by
  have hpastas := h.pastas hp
  constructor
  case objetos =>
    rintro y ⟨o, a, as, ho', ha, hy⟩ _
    by_cases han : a = n
    · subst han
      obtain rfl := Chain.unique ha h.cadeia
      rw [List.mem_singleton.mp hy]
      exact ⟨o, a, a :: ns, hpastas.objetos ho', he.cadeia, List.mem_cons_self⟩
    · have hfora : ∀ z ∈ as, z ∉ n :: ns := by
        intro z hz hmem
        rcases List.mem_cons.mp hmem with rfl | hmem
        · exact h.outros o a as ho' ha han z List.mem_cons_self hz
        · exact ha.em_uso hz (he.livres z hmem).2
      have ha' : Cadeia v d' a as := ha.mesma_fat fun z hz =>
        read_fat_congr (he.intactos z (ha.em_faixa hz) (hfora z hz)).entrada
      exact ⟨o, a, as, hpastas.objetos ho', ha', hy⟩
  case livres =>
    intro y hy h0 huso
    by_cases hmem : y ∈ n :: ns
    · exact ⟨some x, n, n :: ns, hpastas.objetos ho, he.cadeia, hmem⟩
    · rw [read_fat_congr (he.intactos y hy hmem).entrada] at huso
      exact absurd h0 huso

end Perda

end SpaceOS.Fat32
