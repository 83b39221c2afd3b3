-- The tree of a volume: as long as every new entry finds a place in a directory and no
-- directory with entries is removed, each inode in use hangs below the root by one entry.
import SpaceOS.SpaceFsReadBack

open Lib.Bytes Lib.BlockProg Lib.Ownership SpaceOS.Ata
open Function (update update_self update_of_ne)

namespace SpaceOS.SpaceFs

/-! ## Entries that stay -/

section Ficam

variable {v v' v1 w : Volume} {p b s e i child : Nat} {dir' : Inode} {dblk : Setor}
  {name : List UInt8}

theorem Igual.symm {j : Nat} (h : Igual v v' j) : Igual v' v j where
  ino := h.ino.symm
  dado := fun b hb h0 => by
    rw [h.ino] at h0 ⊢
    exact (h.dado b hb h0).symm

/-- An entry of an inode that has not changed. -/
theorem Igual.fica {j b e c : Nat} (h : Igual v v' j) (hu : v'.imap j = true)
    (g : Entrada v j b e c) : Entrada v' j b e c := h.symm.entrada hu g

/-- A new entry leaves every other one where it was. -/
theorem Aberto.fica (ha : Aberto v p b s dir' dblk w) (hp : p < SFS_INODE_MAX)
    (hu : v.imap p = true) (hb : b < 10) (hv : Volume.vaga dblk = some e) {j b' e' c : Nat}
    (g : Entrada v j b' e' c) : Entrada (w.entrou p s dir' dblk e child name) j b' e' c := by
  have huso : (w.entrou p s dir' dblk e child name).imap = v.imap := ha.imap_eq
  have hs0 : s ≠ 0 := by
    have := ha.dado.1
    unfold SFS_DATA_START at this
    omega
  by_cases hj : j = p
  · subst hj
    have ht : inode_type ((w.entrou j s dir' dblk e child name).ino j) = 2 := by
      rw [ha.type]
      exact g.dir
    by_cases hb' : b' = b
    · subst hb'
      obtain ⟨h1, h2⟩ := ha.velho g.bloco
      have hbl : inode_block ((w.entrou j s dir' dblk e child name).ino j) b' = s := by
        rw [ha.block, update_self, ha.block_self]
      have hne : e' ≠ e := by
        rintro rfl
        have hnome := g.nome
        rw [h1, h2, (vaga_some _ hv).2] at hnome
        exact g.vivo hnome.symm
      refine ⟨hp, by rw [huso]; exact hu, ht, hb, by rw [hbl]; exact hs0, g.vez, ?_, g.vivo⟩
      rw [hbl]
      change dirent_inode (update w.dado s _ s) e' = c
      rw [update_self, dirent_por_ne _ _ _ g.vez hne, ← h2, ← h1]
      exact g.nome
    · have hbl : inode_block ((w.entrou j s dir' dblk e child name).ino j) b' =
          inode_block (v.ino j) b' := by
        rw [ha.block, update_self, ha.block_ne b' g.lugar hb']
      have hne : inode_block (v.ino j) b' ≠ s := by
        intro hs
        exact hb' (ha.posse.unique (i := j) (b := b') (j := j) (c := b) (r := s)
          ⟨⟨hp, hu⟩, g.lugar, by rw [update_self, ha.block_ne b' g.lugar hb', hs], hs0⟩
          ⟨⟨hp, hu⟩, hb, by rw [update_self, ha.block_self], hs0⟩).2
      refine ⟨hp, by rw [huso]; exact hu, ht, g.lugar, by rw [hbl]; exact g.bloco, g.vez, ?_,
        g.vivo⟩
      rw [hbl]
      change dirent_inode (update w.dado s _ _) e' = c
      rw [update_of_ne hne, ha.dado_eq]
      exact g.nome
  · refine (ha.igual hp hu hb g.lt g.uso hj).fica ?_ g
    rw [huso]
    exact g.uso

/-- An inode taken for a new file or directory leaves every entry where it was. -/
theorem fica_novo {t ticks : Nat} (ha : v.alloc_inode = (some i, v1)) {j b e c : Nat}
    (g : Entrada v j b e c) : Entrada (v1.por_ino i (inode_novo t ticks)) j b e c := by
  obtain ⟨_, hfree, himap, _⟩ := alloc_inode_some ha
  have hj : j ≠ i := by
    rintro rfl
    have := g.uso
    rw [hfree] at this
    exact absurd this (by decide)
  refine (igual_novo ha hj).fica ?_ g
  change v1.imap j = true
  rw [himap, update_of_ne hj]
  exact g.uso

/-- The removal of `i` clears no entry but its own and those in it. -/
theorem fica_apagou (hc : Coeso v) (h : Entrada v p b e i) {j b' e' c : Nat}
    (g : Entrada v j b' e' c) (hj : j ≠ i) (hci : c ≠ i) :
    Entrada (v.apagou i p b e) j b' e' c := by
  obtain ⟨himap, hino, hdado, _⟩ := apaga_rest v i
  have hji : (v.apagou i p b e).ino j = v.ino j := by
    change (v.apaga i).ino j = v.ino j
    rw [hino, update_of_ne hj]
  refine ⟨g.lt, ?_, by rw [hji]; exact g.dir, g.lugar, by rw [hji]; exact g.bloco, g.vez, ?_,
    g.vivo⟩
  · change (v.apaga i).imap j = true
    rw [himap, update_of_ne hj]
    exact g.uso
  · rw [hji]
    change dirent_inode (update (v.apaga i).dado _ _ (inode_block (v.ino j) b')) e' = c
    rw [hdado]
    by_cases hs : inode_block (v.ino j) b' = inode_block (v.ino p) b
    · obtain ⟨rfl, rfl⟩ := hc.posse.unique (i := j) (b := b') (j := p) (c := b) g.tem (hs ▸ h.tem)
      rw [update_self]
      have hne : e' ≠ e := by
        rintro rfl
        exact hci (g.nome.symm.trans h.nome)
      rw [dirent_por_inode_ne _ _ g.vez hne]
      exact g.nome
    · rw [update_of_ne hs]
      exact g.nome

end Ficam

/-! ## The tree -/

/-- Every inode in use lies below the root. -/
def Arvore (v : Volume) : Prop := ∀ i < SFS_INODE_MAX, v.imap i = true → ∃ n, Fundo v n i

section Tree

variable {v v' v1 : Volume} {p i : Nat} {name path buf : List UInt8}

/-- What lies below the root still does where the entries outside `i` stay, and `i` has none. -/
theorem Fundo.leva (hi : ∀ b e c, ¬ Entrada v i b e c)
    (h : ∀ {j b e c}, Entrada v j b e c → j ≠ i → c ≠ i → Entrada v' j b e c) {n j : Nat}
    (hf : Fundo v n j) (hj : j ≠ i) : Fundo v' n j := by
  induction hf with
  | raiz => exact .raiz
  | @desce n p b e c hf g ih =>
    have hp : p ≠ i := by
      rintro rfl
      exact hi _ _ _ g
    exact .desce (ih hp) (h g hp hj)

theorem Fundo.leva_tudo (h : ∀ {j b e c}, Entrada v j b e c → Entrada v' j b e c) {n j : Nat}
    (hf : Fundo v n j) : Fundo v' n j := by
  induction hf with
  | raiz => exact .raiz
  | desce _ g ih => exact .desce ih (h g)

/-- The directory `q` has a place for an entry. -/
structure Acolhe (v : Volume) (q : Nat) : Prop where
  dir : inode_type (v.ino q) = 2
  lugar : ∃ b < 10, (∀ c < b, Cheio v (v.ino q) c) ∧ Vago v (v.ino q) b

theorem Igual.acolhe (h : Igual v v1 p) (hbmap : ∀ n < BMAP_BITS, v1.bmap n = v.bmap n)
    (ha : Acolhe v p) : Acolhe v1 p := by
  obtain ⟨b, hb, hpre, hv⟩ := ha.lugar
  exact ⟨by rw [h.ino]; exact ha.dir, b, hb,
    fun c hc => (h.cheio (Nat.lt_trans hc hb)).mpr (hpre c hc), (h.vago hbmap hb).mpr hv⟩

/-- `dir_add_entry` in a directory with a place puts the entry there and leaves the others. -/
theorem entrada_dir_add (name : List UInt8) (hc : Coeso v) (hp : p < SFS_INODE_MAX)
    (hu : v.imap p = true) (ha : Acolhe v p) (hi : i < SFS_INODE_MAX) (hi0 : i ≠ 0) :
    (∃ b e, Entrada (v.dir_add_entry p i name).2 p b e i) ∧
      ∀ {j b e c}, Entrada v j b e c → Entrada (v.dir_add_entry p i name).2 j b e c := by
  unfold Volume.dir_add_entry
  rcases dir_add_laco_cases p i name (List.range 10) (v.ino p) v with ⟨_, hf⟩ |
    ⟨pre, b, post, s, dir', dblk, w, e, hr, _, hab, hv, he⟩
  · exact absurd ha.lugar (not_lugar hf)
  · have hb : b < 10 := List.mem_range.mp (by rw [hr]; simp)
    have hab := coeso_abre_bloco hc hp hu hb hab
    rw [he]
    exact ⟨⟨b, e, hab.entrada_nova hp hu ha.dir hb (vaga_some _ hv).1 hi hi0⟩,
      fun g => hab.fica hp hu hb hv g⟩

/-- A new inode with an entry keeps the tree whole. -/
theorem arvore_cria (name : List UInt8) (hc : Coeso v) (h : Arvore v) (hp : p < SFS_INODE_MAX)
    (hu : v.imap p = true) {t : Nat} (ht : t = 1 ∨ t = 2) (ticks : Nat)
    (ha : (∃ j, 1 ≤ j ∧ j < SFS_INODE_MAX ∧ v.imap j = false) → Acolhe v p) :
    Arvore (v.cria p name t ticks).2 := by
  unfold Volume.cria
  rcases hx : v.alloc_inode with ⟨_ | i, v1⟩
  · rcases v.alloc_inode_cases with ⟨_, he⟩ | ⟨i, _, _, _, _, he⟩ <;> rw [he] at hx <;> cases hx
    exact h
  obtain ⟨⟨h1, hi⟩, hfree, himap, _, _, hbmap⟩ := alloc_inode_some hx
  have hpi : p ≠ i := by
    rintro rfl
    rw [hfree] at hu
    exact absurd hu (by decide)
  have hup : (v1.por_ino i (inode_novo t ticks)).imap p = true := by
    change v1.imap p = true
    rw [himap, update_of_ne hpi, hu]
  have hac : Acolhe (v1.por_ino i (inode_novo t ticks)) p :=
    (igual_novo hx hpi).acolhe (fun n _ => congrFun hbmap n) (ha ⟨i, h1, hi, hfree⟩)
  obtain ⟨⟨b, e, hnova⟩, hficam⟩ := entrada_dir_add name (coeso_novo ticks hc hx ht)
    hp hup hac hi (by omega)
  have hleva : ∀ {n j}, Fundo v n j → Fundo
      ((v1.por_ino i (inode_novo t ticks)).dir_add_entry p i name).2 n j :=
    fun hf => hf.leva_tudo fun g => hficam (fica_novo hx g)
  intro j hj huj
  rw [(dir_add_entry_rest _ p i name).1] at huj
  change v1.imap j = true at huj
  rw [himap] at huj
  by_cases hji : j = i
  · subst hji
    obtain ⟨n, hf⟩ := h p hp hu
    exact ⟨n + 1, (hleva hf).desce hnova⟩
  · rw [update_of_ne hji] at huj
    obtain ⟨n, hf⟩ := h j hj huj
    exact ⟨n, hleva hf⟩

/-- Data put into an inode without entries. -/
theorem arvore_enche (hc : Coeso v) (h : Arvore v) (hsem : ∀ b e c, ¬ Entrada v i b e c) :
    Arvore (v.enche i buf).2 := by
  intro j hj hu
  rw [enche_imap] at hu
  obtain ⟨n, hf⟩ := h j hj hu
  refine ⟨n, hf.leva_tudo fun {k b e c} g => ?_⟩
  have hk : k ≠ i := by
    rintro rfl
    exact hsem _ _ _ g
  refine (igual_enche hc g.lt g.uso hk).fica ?_ g
  rw [enche_imap]
  exact g.uso

theorem arvore_esvazia (h : Arvore v) (hsem : ∀ b e c, ¬ Entrada v i b e c) :
    Arvore (v.esvazia i) := by
  intro j hj hu
  rw [(esvazia_rest v i).1] at hu
  obtain ⟨n, hf⟩ := h j hj hu
  refine ⟨n, hf.leva_tudo fun {k b e c} g => ?_⟩
  have hk : k ≠ i := by
    rintro rfl
    exact hsem _ _ _ g
  refine (igual_esvazia hk).fica ?_ g
  rw [(esvazia_rest v i).1]
  exact g.uso

/-- A new entry of this path finds a place, if an inode is free for it. -/
def Cabida (v : Volume) (path : List UInt8) : Prop :=
  ∀ q, v.parent_find (path_split path).1 = some q →
    (∃ j, 1 ≤ j ∧ j < SFS_INODE_MAX ∧ v.imap j = false) → Acolhe v q

theorem arvore_write (hc : Coeso v) (h : Arvore v) (ticks : Nat)
    (hd : ∀ i q, v.resolve path = some (i, q) → inode_type (v.ino i) = 2 →
      buf = [] ∧ ∀ b e c, ¬ Entrada v i b e c)
    (hn : v.resolve path = none → buf.length ≤ 10 * 512 → Cabida v path) :
    Arvore (v.write path buf ticks).2 := by
  unfold Volume.write
  split
  · exact h
  rename_i hlen
  cases hp : v.parent_find (path_split path).1 with
  | none => exact h
  | some q =>
    obtain ⟨hq1, hq2⟩ := hc.navegavel.parent_find hp
    dsimp only
    unfold Volume.write_inode
    cases hr : v.resolve path with
    | none =>
      obtain ⟨g1, g2⟩ := coeso_cria hc hq1 hq2 (path_split path).2 (t := 1) (Or.inl rfl) ticks
      have g3 := arvore_cria (path_split path).2 hc h hq1 hq2 (t := 1) (Or.inl rfl) ticks
        (hn hr (by omega) q hp)
      dsimp only
      rcases hx : v.cria q (path_split path).2 1 ticks with ⟨_ | i, v'⟩ <;> rw [hx] at g1 g2 g3
      · exact g3
      · obtain ⟨_, _, hino⟩ := g2 i rfl
        refine arvore_enche g1 g3 fun b e c g => ?_
        have := g.dir
        rw [hino, type_novo] at this
        exact absurd this (by decide)
    | some x =>
      obtain ⟨i, r⟩ := x
      obtain ⟨⟨hi, hu⟩, _⟩ := hc.navegavel.resolve hr
      have hsem : ∀ b e c, ¬ Entrada v i b e c := fun b e c g => (hd i r hr g.dir).2 b e c g
      refine arvore_enche (coeso_esvazia hc hi hu) (arvore_esvazia h hsem) fun b e c g => ?_
      exact (entrada_esvazia g).2 rfl

theorem arvore_mkdir (hc : Coeso v) (h : Arvore v) (ticks : Nat) (hn : Cabida v path) :
    Arvore (v.mkdir path ticks).2 := by
  unfold Volume.mkdir
  cases hp : v.parent_find (path_split path).1 with
  | none => exact h
  | some q =>
    obtain ⟨hq1, hq2⟩ := hc.navegavel.parent_find hp
    have := arvore_cria (path_split path).2 hc h hq1 hq2 (Or.inr rfl) ticks (hn q hp)
    dsimp only
    rcases hx : v.cria q (path_split path).2 2 ticks with ⟨_ | i, v'⟩ <;> rw [hx] at this
    · exact this
    · exact this

theorem arvore_unlink (hc : Coeso v) (h : Arvore v)
    (hd : ∀ i q, v.resolve path = some (i, q) → i ≠ 0 ∧ ∀ b e c, ¬ Entrada v i b e c) :
    Arvore (v.unlink path).2 := by
  rcases unlink_cases hc fun i p hr => (hd i p hr).1 with he | ⟨i, p, b, e, hr, hent, he⟩
  · rw [he]
    exact h
  · obtain ⟨_, hsem⟩ := hd i p hr
    rw [he]
    intro j hj hu
    change (v.apaga i).imap j = true at hu
    rw [(apaga_rest v i).1] at hu
    have hji : j ≠ i := by
      rintro rfl
      rw [update_self] at hu
      exact absurd hu (by decide)
    rw [update_of_ne hji] at hu
    obtain ⟨n, hf⟩ := h j hj hu
    exact ⟨n, hf.leva hsem (fun g hk hc' => fica_apagou hc hent g hk hc') hji⟩

end Tree

/-! ## The law -/

/-- A new entry of this path finds a place, if an inode is free for it. -/
def Recebe (m : Mem) (d : Disco) (path : List UInt8) : Prop :=
  ∀ q, pai m d path = some q →
    (∃ j, 1 ≤ j ∧ j < SFS_INODE_MAX ∧ bm_test m.fs.imap j = false) → Acolhe (lido m d) q

/-- A write empties no directory that has entries, a new entry finds a place in a directory, and
an unlink removes neither the root nor a directory that has entries. -/
def Liga (m : Mem) (d : Disco) : Chamada → Prop
  | .write path buf _ =>
    (∀ i, acha m d path = some i → inode_type (ino d i) = 2 →
      buf = [] ∧ ∀ b e c, ¬ Entrada (lido m d) i b e c) ∧
    (acha m d path = none → buf.length ≤ 10 * 512 → Recebe m d path)
  | .mkdir path _ => Recebe m d path
  | .unlink path => ∀ i, acha m d path = some i → i ≠ 0 ∧ ∀ b e c, ¬ Entrada (lido m d) i b e c

/-- Each inode in use but the root is named by one entry of a directory, which lies below the
root, and each entry names an inode in use. -/
structure UmNome (m : Mem) (d : Disco) : Prop where
  nome : ∀ i < SFS_INODE_MAX, i ≠ 0 → bm_test m.fs.imap i = true →
    ∃ p b e, Entrada (lido m d) p b e i ∧ (∃ n, Fundo (lido m d) n p) ∧
      ∀ p' b' e', Entrada (lido m d) p' b' e' i → p' = p ∧ b' = b ∧ e' = e
  vivo : ∀ p b e i, Entrada (lido m d) p b e i → i < SFS_INODE_MAX ∧ bm_test m.fs.imap i = true

section Law

variable {m : Mem} {d : Disco} {v : Volume} {path : List UInt8}

theorem entrada_lido_iff (hv : Vivo m d v) (hc : Coeso v) {p b e c : Nat} :
    Entrada (lido m d) p b e c ↔ Entrada v p b e c := by
  constructor
  · intro g
    have hu : v.imap p = true := (hv.rep.imap p g.lt).symm.trans g.uso
    exact (igual_lido hv hc g.lt hu).entrada hu g
  · intro g
    exact (igual_lido hv hc g.lt g.uso).fica ((hv.rep.imap p g.lt).trans g.uso) g

theorem fundo_lido (hv : Vivo m d v) (hc : Coeso v) {n j : Nat} (h : Fundo v n j) :
    Fundo (lido m d) n j := h.leva_tudo (entrada_lido_iff hv hc).mpr

theorem Recebe.cabida (hv : Vivo m d v) (hc : Coeso v) (h : Recebe m d path) : Cabida v path := by
  intro q hq hfree
  obtain ⟨hq1, hq2⟩ := hc.navegavel.parent_find hq
  obtain ⟨j, h1, hj, hf⟩ := hfree
  have ha := h q ((pai_eq hv hc path).trans hq) ⟨j, h1, hj, (hv.rep.imap j hj).trans hf⟩
  exact (igual_lido hv hc hq1 hq2).symm.acolhe (fun n hn => (hv.rep.bmap n hn).symm) ha

theorem Liga.poupa {c : Chamada} (h : Liga m d c) : Poupa m d c := by
  cases c with
  | write path buf ticks => exact fun i hi ht => (h.1 i hi ht).1
  | mkdir path ticks => trivial
  | unlink path => exact fun hi => (h 0 hi).1 rfl

theorem Liga.arvore {c : Chamada} (hv : Vivo m d v) (hc : Coeso v) (ha : Arvore v)
    (h : Liga m d c) : Arvore (c.no_volume v) := by
  have hacha : ∀ {path i q}, v.resolve path = some (i, q) → acha m d path = some i := fun hr => by
    rw [acha_eq hv hc.navegavel, hr]
    rfl
  have hsem : ∀ {i}, (∀ b e c, ¬ Entrada (lido m d) i b e c) → ∀ b e c, ¬ Entrada v i b e c :=
    fun hs b e c g => hs b e c ((entrada_lido_iff hv hc).mpr g)
  cases c with
  | write path buf ticks =>
    refine arvore_write hc ha ticks (fun i q hr ht => ?_) fun hr hlen => ?_
    · obtain ⟨⟨hi, _⟩, _⟩ := hc.navegavel.resolve hr
      obtain ⟨g1, g2⟩ := h.1 i (hacha hr) (by rw [hv.rep.ino i hi]; exact ht)
      exact ⟨g1, hsem g2⟩
    · exact (h.2 ((acha_none_iff hv hc path).mpr hr) hlen).cabida hv hc
  | mkdir path ticks => exact arvore_mkdir hc ha ticks (Recebe.cabida hv hc h)
  | unlink path =>
    refine arvore_unlink hc ha fun i q hr => ?_
    obtain ⟨g1, g2⟩ := h i (hacha hr)
    exact ⟨g1, hsem g2⟩

theorem arvore_novo_volume : Arvore (Volume.novo d) := by
  intro i _ hu
  obtain rfl : i = 0 := of_decide_eq_true hu
  exact ⟨0, .raiz⟩

/-- The invariant of a run that loses no inode. -/
theorem Alcanca.arvore (h : Alcanca SemResto Liga m d) :
    ∃ v, Vivo m d v ∧ Coeso v ∧ Arvore v :=
  h.invariante (fun _ hr => ⟨coeso_novo_volume hr, arvore_novo_volume⟩)
    (fun _ hc => ⟨_, hc.1.navegavel⟩) fun hv hc _ hp =>
      ⟨Poupa.coeso hv hc.1 hp.poupa, hp.arvore hv hc.1 hc.2⟩

theorem Arvore.um_nome (ha : Arvore v) (hv : Vivo m d v) (hc : Coeso v) : UmNome m d where
  nome := by
    intro i hi hi0 hu
    rw [hv.rep.imap i hi] at hu
    obtain ⟨n, hf⟩ := ha i hi hu
    cases hf with
    | raiz => exact absurd rfl hi0
    | @desce n p b e _ hf g =>
      refine ⟨p, b, e, (entrada_lido_iff hv hc).mpr g, ⟨n, fundo_lido hv hc hf⟩, ?_⟩
      intro p' b' e' g'
      obtain ⟨h1, h2, h3⟩ := hc.uma_vez ((entrada_lido_iff hv hc).mp g') g
      exact ⟨h1, h2, h3⟩
  vivo := by
    intro p b e i g
    obtain ⟨hi, hu, _⟩ := hc.filho ((entrada_lido_iff hv hc).mp g)
    exact ⟨hi, (hv.rep.imap i hi).trans hu⟩

end Law

section Arquivo

variable {v : Volume} {path : List UInt8} {p i : Nat} {v1 : Volume} {ticks : Nat}

/-- The entry of a directory made under a file goes into the data of the file, so that no
directory names the new inode. -/
theorem mkdir_em_arquivo (hc : Coeso v) (hp : v.parent_find (path_split path).1 = some p)
    (ht : inode_type (v.ino p) = 1) (hx : v.alloc_inode = (some i, v1)) :
    (v.mkdir path ticks).2.imap i = true ∧ ∀ j b e, ¬ Entrada (v.mkdir path ticks).2 j b e i := by
  obtain ⟨hp1, hp2⟩ := hc.navegavel.parent_find hp
  obtain ⟨⟨_, hi⟩, hfree, himap, _⟩ := alloc_inode_some hx
  have hpi : p ≠ i := by
    rintro rfl
    rw [hfree] at hp2
    exact absurd hp2 (by decide)
  have hn := coeso_novo ticks hc hx (t := 2) (Or.inr rfl)
  have hup : (v1.por_ino i (inode_novo 2 ticks)).imap p = true := by
    change v1.imap p = true
    rw [himap, update_of_ne hpi, hp2]
  have hv' : (v.mkdir path ticks).2 =
      ((v1.por_ino i (inode_novo 2 ticks)).dir_add_entry p i (path_split path).2).2 := by
    unfold Volume.mkdir
    rw [hp]
    dsimp only
    unfold Volume.cria
    rw [hx]
  rw [hv']
  constructor
  · rw [(dir_add_entry_rest _ p i _).1]
    change v1.imap i = true
    rw [himap, update_self]
  · intro j b e
    unfold Volume.dir_add_entry
    rcases dir_add_laco_cases p i (path_split path).2 (List.range 10)
        ((v1.por_ino i (inode_novo 2 ticks)).ino p) (v1.por_ino i (inode_novo 2 ticks)) with
      ⟨he, _⟩ | ⟨pre, b', post, s, dir', dblk, w, e', hr, _, hab, hvg, he⟩
    · rw [he]
      exact fun g => (entrada_novo hc hx g).2.1 rfl
    · have hb : b' < 10 := List.mem_range.mp (by rw [hr]; simp)
      have hab := coeso_abre_bloco hn hp1 hup hb hab
      rw [he]
      intro g
      have hdir := g.dir
      rcases hab.entrada hp1 hup hb (vaga_some _ hvg).1 hi g with g | g
      · exact (entrada_novo hc hx g).2.1 rfl
      · cases g
        change inode_type ((w.entrou p s dir' dblk e i (path_split path).2).ino p) = 2 at hdir
        rw [hab.type, (igual_novo hx hpi).ino, ht] at hdir
        exact absurd hdir (by decide)

/-- An empty volume has room for a first file of one byte. -/
theorem primeiro_cabe {d : Disco} (hr : ino d 0 = inode_novo 2 0) :
    Cabe (Volume.novo d) 0 [97] := by
  have hino : (Volume.novo d).ino 0 = inode_novo 2 0 := hr
  refine ⟨by decide, by rw [hino, type_novo], by rw [hino, size_novo]; decide, 0, by decide,
    fun c hlt => absurd hlt (Nat.not_lt_zero c), ?_⟩
  unfold Vago
  rw [hino, if_pos (block_novo _ _ (by decide))]
  exact ⟨0, by rw [BMAP_BITS_eq]; decide, rfl⟩

/-- The first file takes one inode. -/
theorem primeiro_imap {d : Disco} (hres : (Volume.novo d).resolve [97] = none) :
    ∃ k, ((Volume.novo d).write [97] [65] 0).2.imap = update (Volume.novo d).imap k true := by
  have hp : (Volume.novo d).parent_find (path_split [97]).1 = some 0 := rfl
  unfold Volume.write
  rw [if_neg (show ¬ 10 * 512 < [(65 : UInt8)].length by decide), hp]
  dsimp only
  unfold Volume.write_inode
  rw [hres]
  dsimp only
  unfold Volume.cria
  rcases hx : (Volume.novo d).alloc_inode with ⟨_ | k, w⟩
  · rcases (Volume.novo d).alloc_inode_cases with ⟨hf, _⟩ | ⟨j, _, _, _, _, he⟩
    · exact absurd rfl (List.find?_eq_none.mp hf 1 (by decide))
    · rw [he] at hx
      cases hx
  · obtain ⟨_, _, himap, _⟩ := alloc_inode_some hx
    refine ⟨k, ?_⟩
    dsimp only
    rw [enche_imap, (dir_add_entry_rest _ _ _ _).1]
    exact himap

/-- What the first file of an empty volume leaves: the file `a`, and inodes that are free. -/
theorem primeiro_arquivo {d : Disco} (hr : ino d 0 = inode_novo 2 0) :
    ∃ i, ((Volume.novo d).write [97] [65] 0).2.resolve [97] = some (i, 0) ∧
      inode_type (((Volume.novo d).write [97] [65] 0).2.ino i) = 1 ∧
      ∃ k, 1 ≤ k ∧ k < SFS_INODE_MAX ∧
        ((Volume.novo d).write [97] [65] 0).2.imap k = false := by
  have hc := coeso_novo_volume hr
  have hcam : Caminho [97] := by
    unfold Caminho
    decide
  obtain ⟨hres, hone⟩ := primeiro_write [97] (v := Volume.novo d) (fun _ => rfl) (fun _ => rfl) hr
    (by decide) (by decide) (by decide) 65
  have hfile : ∀ i q, (Volume.novo d).resolve [97] = some (i, q) →
      inode_type ((Volume.novo d).ino i) = 1 := fun i q h => by
    rw [hres] at h
    cases h
  have hread := (read_after_write hc (legivel_novo_volume hr) hcam (by decide) hfile
    (show (Volume.novo d).write [97] [65] 0 = (some 1, _) from Prod.ext hone rfl)).mpr
    (fun _ => ⟨0, rfl, primeiro_cabe hr⟩) 0
  unfold Volume.read at hread
  cases h1 : ((Volume.novo d).write [97] [65] 0).2.resolve [97] with
  | none =>
    rw [h1] at hread
    cases hread
  | some x =>
    obtain ⟨i, q⟩ := x
    rw [h1] at hread
    dsimp only at hread
    have ht : inode_type (((Volume.novo d).write [97] [65] 0).2.ino i) = 1 := by
      by_contra ht
      rw [if_pos ht] at hread
      cases hread
    have hq : q = 0 := by
      rw [resolve_parent _ hcam.1 (by decide)] at h1
      obtain ⟨j, _, hj⟩ := Option.map_eq_some_iff.mp h1
      exact (Prod.mk.inj hj).2.symm
    subst hq
    refine ⟨i, rfl, ht, ?_⟩
    -- one inode more than the root is in use, so one of 1 and 2 is free
    obtain ⟨k, hk⟩ := primeiro_imap hres
    rw [hk]
    by_cases h : k = 1
    · exact ⟨2, by decide, by decide, by rw [update_of_ne (by omega)]; rfl⟩
    · exact ⟨1, by decide, by decide, by rw [update_of_ne (Ne.symm h)]; rfl⟩

end Arquivo

end SpaceOS.SpaceFs
