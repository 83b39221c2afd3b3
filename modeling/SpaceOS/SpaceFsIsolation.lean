-- A write or a mkdir leaves what a read of any other file returns, as long as it empties no
-- directory and its new entry goes into a directory that has no entry of its name.
import SpaceOS.SpaceFsTree

open Lib.Bytes Lib.BlockProg Lib.Ownership SpaceOS.Ata
open Function (update update_self update_of_ne)

namespace SpaceOS.SpaceFs

/-! ## The first entry of a name -/

section Primeira

variable {v v' : Volume} {dir : Inode} {p c : Nat} {tok : List UInt8}

/-- A search that ends in block `b` has found nothing in the blocks before. -/
theorem busca_primeira {k m n i : Nat}
    (h : v.busca dir tok (List.range' k m) (n - 16 * k) = some i) :
    ∃ b e, b < k + m ∧ inode_block dir b ≠ 0 ∧
      busca_bloco (v.dado (inode_block dir b)) tok (n - 16 * b) = some e ∧
      dirent_inode (v.dado (inode_block dir b)) e = i ∧
      ∀ x, k ≤ x → x < b → busca_bloco (v.dado (inode_block dir x)) tok (n - 16 * x) = none := by
  induction m generalizing k with
  | zero => cases h
  | succ m ih =>
    rw [List.range'_succ, Volume.busca] at h
    split at h
    · cases h
    split at h
    · cases h
    rename_i hb0
    cases hx : busca_bloco (v.dado (inode_block dir k)) tok (n - 16 * k) with
    | some e =>
      rw [hx] at h
      cases h
      exact ⟨k, e, by omega, hb0, hx, rfl, fun x h1 h2 => by omega⟩
    | none =>
      rw [hx] at h
      have hn : n - 16 * k - SFS_DIRENTS_PER_BLK = n - 16 * (k + 1) := by
        unfold SFS_DIRENTS_PER_BLK
        omega
      dsimp only at h
      rw [hn] at h
      obtain ⟨b, e, hb, h0, he, hi, hpre⟩ := ih h
      refine ⟨b, e, by omega, h0, he, hi, fun x h1 h2 => ?_⟩
      by_cases hxk : x = k
      · rw [hxk]
        exact hx
      · exact hpre x (by omega) h2

/-- A search finds the first entry of the name. -/
theorem entra_primeira (hl : Legivel v) (hp : p < SFS_INODE_MAX ∧ v.imap p = true)
    (h : v.entra p tok = some c) :
    ∃ b e, Entrada v p b e c ∧ nome v p b e = tok ∧
      ∀ b' e' c', Entrada v p b' e' c' → nome v p b' e' = tok → b < b' ∨ b = b' ∧ e ≤ e' := by
  obtain ⟨ht, hb⟩ := Volume.entra_busca h
  rw [List.range_eq_range'] at hb
  obtain ⟨b, e, hlt, hb0, he, hi, hpre⟩ := busca_primeira (k := 0) hb
  obtain ⟨h1, h2, h3, h4⟩ := Volume.busca_bloco_some he
  have g : Entrada v p b e c := ⟨hp.1, hp.2, ht, by omega, hb0, h1, hi, by rwa [hi] at h3⟩
  refine ⟨b, e, g, (hl.dirent_name g).symm.trans h4, fun b' e' c' g' hn => ?_⟩
  have hconta := hl.conta g'
  have hvivo : dirent_inode (v.dado (inode_block (v.ino p) b')) e' ≠ 0 := by
    rw [g'.nome]
    exact g'.vivo
  rcases Nat.lt_trichotomy b b' with hbb | rfl | hbb
  · exact Or.inl hbb
  · refine Or.inr ⟨rfl, ?_⟩
    by_contra hlt'
    have hf := (List.find?_range_eq_some.mp he).2.2 e' (by omega)
    rw [hl.dirent_name g', hn] at hf
    simp [hvivo] at hf
  · have hv := g'.vez
    unfold SFS_DIRENTS_PER_BLK at hv
    exact absurd ((hl.dirent_name g').trans hn)
      (busca_bloco_none (hpre b' (Nat.zero_le _) hbb) g'.vez (by omega) hvivo)

/-- Where a directory has the same entries of a name, a search for it gives the same. -/
theorem entra_congr_nome (hl : Legivel v) (hl' : Legivel v')
    (hp : p < SFS_INODE_MAX ∧ v.imap p = true) (hu : v'.imap p = true)
    (ht : inode_type (v.ino p) = 2) (ht' : inode_type (v'.ino p) = 2)
    (h : ∀ b e c, (Entrada v p b e c ∧ nome v p b e = tok) ↔
      (Entrada v' p b e c ∧ nome v' p b e = tok)) : v'.entra p tok = v.entra p tok := by
  cases hx : v.entra p tok with
  | none =>
    refine (entra_none_iff hl' hp.1 hu ht').mpr fun b e c g hn => ?_
    obtain ⟨g', hn'⟩ := (h b e c).mpr ⟨g, hn⟩
    exact (entra_none_iff hl hp.1 hp.2 ht).mp hx b e c g' hn'
  | some c =>
    obtain ⟨b, e, g, hn, hmin⟩ := entra_primeira hl hp hx
    obtain ⟨g1, hn1⟩ := (h b e c).mp ⟨g, hn⟩
    cases hx' : v'.entra p tok with
    | none => exact absurd hn1 ((entra_none_iff hl' hp.1 hu ht').mp hx' b e c g1)
    | some c' =>
      obtain ⟨b', e', g', hn', hmin'⟩ := entra_primeira hl' ⟨hp.1, hu⟩ hx'
      obtain ⟨g2, hn2⟩ := (h b' e' c').mpr ⟨g', hn'⟩
      have h1 := hmin b' e' c' g2 hn2
      have h2 := hmin' b e c g1 hn1
      obtain rfl : b = b' := by omega
      obtain rfl : e = e' := by omega
      rw [← g1.nome, ← g'.nome]

end Primeira

/-! ## Searches after a new entry -/

section Outros

variable {v v1 v2 w : Volume} {p b s e i child t ticks : Nat} {dir' : Inode} {dblk : Setor}
  {name tok : List UInt8}

theorem Aberto.livre (ha : Aberto v p b s dir' dblk w) (hv : Volume.vaga dblk = some e) {c : Nat} :
    ¬ Entrada v p b e c := by
  intro g
  obtain ⟨h1, h2⟩ := ha.velho g.bloco
  have hn := g.nome
  rw [h1, h2, (vaga_some _ hv).2] at hn
  exact g.vivo hn.symm

/-- A new entry changes no search for another name. -/
theorem entra_outro_nome (hc : Coeso v) (hl : Legivel v) (hp : p < SFS_INODE_MAX)
    (hu : v.imap p = true) (ht : inode_type (v.ino p) = 2) (hi : i < SFS_INODE_MAX)
    (hs : CabeNoTamanho v p) (h0 : 0 ∉ name) (hne : tok ≠ name.take SFS_NAME_MAX) :
    (v.dir_add_entry p i name).2.entra p tok = v.entra p tok := by
  have hl' := legivel_dir_add hc hl hp hu hi hs name
  unfold Volume.dir_add_entry at hl' ⊢
  rcases dir_add_laco_cases p i name (List.range 10) (v.ino p) v with ⟨he, _⟩ |
    ⟨pre, b, post, s, dir', dblk, w, e, hr, _, ha, hv, he⟩
  · rw [he]
  · have hb : b < 10 := List.mem_range.mp (by rw [hr]; simp)
    have hab := coeso_abre_bloco hc hp hu hb ha
    have he16 := (vaga_some _ hv).1
    rw [he] at hl' ⊢
    change Legivel (w.entrou p s dir' dblk e i name) at hl'
    have hu' : (w.entrou p s dir' dblk e i name).imap p = true := by
      rw [← hu]
      exact congrFun hab.imap_eq p
    change (w.entrou p s dir' dblk e i name).entra p tok = v.entra p tok
    refine entra_congr_nome hl hl' ⟨hp, hu⟩ hu' ht (by rw [hab.type]; exact ht) fun b' e' c => ?_
    have hvelho : ∀ {b' e' c}, Entrada v p b' e' c →
        nome (w.entrou p s dir' dblk e i name) p b' e' = nome v p b' e' := by
      intro b' e' c g
      have hbe : ¬ (p = p ∧ b' = b ∧ e' = e) := by
        rintro ⟨_, rfl, rfl⟩
        exact hab.livre hv g
      exact congrArg nome_de (hab.registro_velho hp hu hb g hbe)
    constructor
    · rintro ⟨g, hn⟩
      exact ⟨hab.fica hp hu hb hv g, (hvelho g).trans hn⟩
    · rintro ⟨g, hn⟩
      rcases hab.entrada hp hu hb he16 hi g with g' | g'
      · exact ⟨g', (hvelho g').symm.trans hn⟩
      · cases g'
        refine absurd ?_ hne
        rw [← hn]
        unfold nome
        rw [hab.registro_novo, nome_dirent_por he16 h0]

/-- What a search finds before a new entry of another name, it finds after. -/
theorem entra_cria_leva (hc : Coeso v) (hl : Legivel v) (hp : p < SFS_INODE_MAX)
    (hu : v.imap p = true) (ht : t = 1 ∨ t = 2) (hs : CabeNoTamanho v p) (h0 : 0 ∉ name)
    (hx : v.cria p name t ticks = (some i, v2))
    (hd : inode_type (v.ino p) = 2 ∧ (name = [] ∨ v.entra p (name.take SFS_NAME_MAX) = none))
    {j c : Nat} (hj : j < SFS_INODE_MAX ∧ v.imap j = true) (htok : tok ≠ [])
    (h : v.entra j tok = some c) : v2.entra j tok = some c := by
  unfold Volume.cria at hx
  rcases ha : v.alloc_inode with ⟨_ | k, v1⟩
  · rw [ha] at hx
    cases hx
  rw [ha] at hx
  cases hx
  obtain ⟨⟨h1, hi⟩, hfree, himap, _⟩ := alloc_inode_some ha
  have hne : ∀ {k}, v.imap k = true → k ≠ i := by
    rintro k hk rfl
    rw [hfree] at hk
    exact absurd hk (by decide)
  have huso : ∀ {k}, v.imap k = true → (v1.por_ino i (inode_novo t ticks)).imap k = true := by
    intro k hk
    change v1.imap k = true
    rw [himap, update_of_ne (hne hk)]
    exact hk
  have hig : ∀ {k}, v.imap k = true → Igual v (v1.por_ino i (inode_novo t ticks)) k :=
    fun hk => igual_novo ha (hne hk)
  by_cases hjp : j = p
  · subst hjp
    have hdif : tok ≠ name.take SFS_NAME_MAX := by
      rintro rfl
      rcases hd.2 with rfl | hn
      · exact htok rfl
      · rw [hn] at h
        cases h
    rw [entra_outro_nome (coeso_novo ticks hc ha ht) (legivel_novo hc hl ha) hp (huso hu)
      (by rw [(hig hu).ino]; exact hd.1) hi
      (by unfold CabeNoTamanho; rw [(hig hu).ino]; exact hs) h0 hdif, (hig hu).entra]
    exact h
  · have hdir := igual_dir_add i name (coeso_novo ticks hc ha ht) hp (huso hu) hj.1
      (huso hj.2) hjp
    rw [hdir.entra, (hig hj.2).entra]
    exact h

end Outros

/-! ## Walks and reads that stay -/

section Fica

variable {v v' : Volume} {p i : Nat} {path q buf : List UInt8}

/-- A walk that succeeds stays where each of its searches does. -/
theorem caminho_leva (hc : Coeso v)
    (h : ∀ j tok c, j < SFS_INODE_MAX ∧ v.imap j = true → tok ≠ [] → v.entra j tok = some c →
      v'.entra j tok = some c) {toks : List (List UInt8)} {cur parent : Nat} {r : Nat × Nat}
    (hcur : cur < SFS_INODE_MAX ∧ v.imap cur = true)
    (hw : v.caminho toks cur parent = some r) : v'.caminho toks cur parent = some r := by
  induction toks generalizing cur parent with
  | nil => exact hw
  | cons tok toks ih =>
    rw [Volume.caminho] at hw ⊢
    split at hw
    · rename_i ht
      rw [if_pos ht]
      exact ih hcur hw
    · rename_i ht
      rw [if_neg ht]
      cases hj : v.entra cur tok with
      | none =>
        rw [hj] at hw
        cases hw
      | some j =>
        rw [hj] at hw
        rw [h cur tok j hcur ht hj]
        exact ih (hc.navegavel.entra hcur hj) hw

theorem read_laco_congr {x : Inode} {l : List Nat} (h : ∀ b ∈ l, inode_block x b ≠ 0 →
    v'.dado (inode_block x b) = v.dado (inode_block x b)) (n : Nat) (done : List UInt8) :
    v'.read_laco x n l done = v.read_laco x n l done := by
  induction l generalizing done with
  | nil => rfl
  | cons b l ih =>
    rw [Volume.read_laco, Volume.read_laco]
    by_cases h0 : inode_block x b = 0
    · rw [if_pos h0, if_pos h0]
    · rw [if_neg h0, if_neg h0, h b List.mem_cons_self h0,
        ih fun c hc => h c (List.mem_cons_of_mem _ hc)]

/-- A read of an inode that has not changed, under a path that still leads to it. -/
theorem read_congr {r : Nat} (hr : v.resolve q = some (i, r)) (hr' : v'.resolve q = some (i, r))
    (h : Igual v v' i) (max : Nat) : v'.read q max = v.read q max := by
  unfold Volume.read
  rw [hr, hr']
  dsimp only
  rw [h.ino, read_laco_congr fun b hb h0 => h.dado b (List.mem_range.mp hb) h0]

/-- The new entry of this path goes into a directory that has no entry of its name, as far as
the name fits. -/
def Inedita (v : Volume) (path : List UInt8) : Prop :=
  ∀ p, v.parent_find (path_split path).1 = some p →
    (∃ j, 1 ≤ j ∧ j < SFS_INODE_MAX ∧ v.imap j = false) →
      inode_type (v.ino p) = 2 ∧ ((path_split path).2 = [] ∨
        v.entra p ((path_split path).2.take SFS_NAME_MAX) = none)

/-- A new inode and its entry change no file, and no path to one. -/
theorem cria_leva (hc : Coeso v) (hl : Legivel v) (hp0 : 0 ∉ path)
    (hp : v.parent_find (path_split path).1 = some p) (hs : CabeNoTamanho v p)
    (hin : Inedita v path) {t : Nat} (ht : t = 1 ∨ t = 2) {ticks k : Nat} {v2 : Volume}
    (hx : v.cria p (path_split path).2 t ticks = (some k, v2)) :
    (∀ j tok c, j < SFS_INODE_MAX ∧ v.imap j = true → tok ≠ [] → v.entra j tok = some c →
      v2.entra j tok = some c ∧ v2.imap j = true) ∧
    ∀ j < SFS_INODE_MAX, v.imap j = true → inode_type (v.ino j) = 1 →
      Igual v v2 j ∧ v2.imap j = true ∧ j ≠ k := by
  obtain ⟨hp1, hp2⟩ := hc.navegavel.parent_find hp
  have hx' := hx
  unfold Volume.cria at hx'
  rcases ha : v.alloc_inode with ⟨_ | i, v1⟩
  · rw [ha] at hx'
    cases hx'
  rw [ha] at hx'
  cases hx'
  obtain ⟨⟨h1, hi⟩, hfree, himap, _⟩ := alloc_inode_some ha
  have hd := hin p hp ⟨k, h1, hi, hfree⟩
  have hne : ∀ {j}, v.imap j = true → j ≠ k := by
    rintro j huj rfl
    rw [hfree] at huj
    exact absurd huj (by decide)
  have huso : ∀ {j}, v.imap j = true → (v1.por_ino k (inode_novo t ticks)).imap j = true := by
    intro j huj
    change v1.imap j = true
    rw [himap, update_of_ne (hne huj)]
    exact huj
  have hu2 : ∀ {j}, v.imap j = true → ((v1.por_ino k (inode_novo t ticks)).dir_add_entry p k
      (path_split path).2).2.imap j = true := by
    intro j huj
    rw [(dir_add_entry_rest _ _ _ _).1]
    exact huso huj
  refine ⟨fun j tok c hj htok h => ⟨entra_cria_leva hc hl hp1 hp2 ht hs (zero_nao_no_nome hp0) hx hd
    hj htok h, hu2 hj.2⟩, fun j hj huj htj => ?_⟩
  have hjp : j ≠ p := by
    rintro rfl
    rw [htj] at hd
    exact absurd hd.1 (by decide)
  exact ⟨(igual_novo ha (hne huj)).trans (igual_dir_add _ _ (coeso_novo ticks hc ha ht) hp1
    (huso hp2) hj (huso huj) hjp), hu2 huj, hne huj⟩

/-- Data put into a file changes no search that succeeds. -/
theorem enche_leva (hc : Coeso v) (ht : inode_type (v.ino i) ≠ 2) {j c : Nat} {tok : List UInt8}
    (hj : j < SFS_INODE_MAX ∧ v.imap j = true) (h : v.entra j tok = some c) :
    (v.enche i buf).2.entra j tok = some c := by
  have hji : j ≠ i := by
    rintro rfl
    rw [entra_arquivo ht] at h
    cases h
  rw [(igual_enche hc hj.1 hj.2 hji).entra]
  exact h

/-- Data put into an inode that no search enters changes no search that succeeds. -/
theorem reescreve_leva (hc : Coeso v) (hi : i < SFS_INODE_MAX) (hu : v.imap i = true)
    (hsem : ∀ b e c, ¬ Entrada v i b e c) {j c : Nat} {tok : List UInt8}
    (hj : j < SFS_INODE_MAX ∧ v.imap j = true) (h : v.entra j tok = some c) :
    ((v.esvazia i).enche i buf).2.entra j tok = some c := by
  have hji : j ≠ i := by
    rintro rfl
    obtain ⟨b, e, g⟩ := entra_entrada hj h
    exact hsem b e c g
  have huj : (v.esvazia i).imap j = true := by
    rw [(esvazia_rest v i).1]
    exact hj.2
  rw [((igual_esvazia hji).trans (igual_enche (coeso_esvazia hc hi hu) hj.1 huj hji)).entra]
  exact h

/-- A write leaves every other file. -/
theorem read_outro_write (hc : Coeso v) (hl : Legivel v) (hp0 : 0 ∉ path) (ticks : Nat)
    (hd : ∀ j s, v.resolve path = some (j, s) → inode_type (v.ino j) = 2 →
      buf = [] ∧ ∀ b e c, ¬ Entrada v j b e c)
    (hn : v.resolve path = none → buf.length ≤ 10 * 512 → Inedita v path ∧
      ∀ p, v.parent_find (path_split path).1 = some p → CabeNoTamanho v p)
    {r : Nat} (hq : v.resolve q = some (i, r)) (ht : inode_type (v.ino i) = 1)
    (hne : ∀ s, v.resolve path ≠ some (i, s)) (max : Nat) :
    (v.write path buf ticks).2.read q max = v.read q max := by
  obtain ⟨⟨hi, hu⟩, _⟩ := hc.navegavel.resolve hq
  unfold Volume.write
  split
  · rfl
  rename_i hlen
  cases hp : v.parent_find (path_split path).1 with
  | none => rfl
  | some p =>
    dsimp only
    unfold Volume.write_inode
    cases hr : v.resolve path with
    | none =>
      obtain ⟨hin, hs⟩ := hn hr (by omega)
      obtain ⟨hp1, hp2⟩ := hc.navegavel.parent_find hp
      dsimp only
      rcases hx : v.cria p (path_split path).2 1 ticks with ⟨_ | k, v2⟩
      · unfold Volume.cria at hx
        rcases v.alloc_inode_cases with ⟨_, he⟩ | ⟨j, _, _, _, _, he⟩ <;> rw [he] at hx <;> cases hx
        rfl
      · obtain ⟨g1, _⟩ := coeso_cria hc hp1 hp2 (path_split path).2 (t := 1) (Or.inl rfl) ticks
        obtain ⟨l1, l2⟩ := cria_leva hc hl hp0 hp (hs p hp) hin (Or.inl rfl) hx
        rw [hx] at g1
        dsimp only
        obtain ⟨hk, huk, hino⟩ := (coeso_cria hc hp1 hp2 (path_split path).2 (t := 1) (Or.inl rfl)
          ticks).2 k (by rw [hx])
        rw [hx] at huk hino
        obtain ⟨hig, hu2, hik⟩ := l2 i hi hu ht
        have hr' : (v2.enche k buf).2.resolve q = some (i, r) := by
          refine caminho_leva (v := v) hc (fun j tok c hj htok h => ?_) ⟨by decide, hc.raiz⟩ hq
          obtain ⟨hc2, huj⟩ := l1 j tok c hj htok h
          exact enche_leva g1 (by rw [hino, type_novo]; decide) ⟨hj.1, huj⟩ hc2
        exact read_congr hq hr' (hig.trans (igual_enche g1 hi hu2 hik)) max
    | some x =>
      obtain ⟨j, s⟩ := x
      obtain ⟨⟨hj, huj⟩, _⟩ := hc.navegavel.resolve hr
      have hij : i ≠ j := by
        rintro rfl
        exact hne s hr
      have hsem : ∀ b e c, ¬ Entrada v j b e c := fun b e c g => (hd j s hr g.dir).2 b e c g
      have hue : (v.esvazia j).imap i = true := by
        rw [(esvazia_rest v j).1]
        exact hu
      have hr' : ((v.esvazia j).enche j buf).2.resolve q = some (i, r) :=
        caminho_leva hc (fun _ _ _ hk _ h => reescreve_leva hc hj huj hsem hk h)
          ⟨by decide, hc.raiz⟩ hq
      exact read_congr hq hr' ((igual_esvazia hij).trans (igual_enche (coeso_esvazia hc hj huj) hi
        hue hij)) max

/-- A mkdir leaves every file. -/
theorem read_outro_mkdir (hc : Coeso v) (hl : Legivel v) (hp0 : 0 ∉ path) (ticks : Nat)
    (hin : Inedita v path)
    (hs : ∀ p, v.parent_find (path_split path).1 = some p → CabeNoTamanho v p)
    {r : Nat} (hq : v.resolve q = some (i, r)) (ht : inode_type (v.ino i) = 1) (max : Nat) :
    (v.mkdir path ticks).2.read q max = v.read q max := by
  obtain ⟨⟨hi, hu⟩, _⟩ := hc.navegavel.resolve hq
  unfold Volume.mkdir
  cases hp : v.parent_find (path_split path).1 with
  | none => rfl
  | some p =>
    dsimp only
    rcases hx : v.cria p (path_split path).2 2 ticks with ⟨_ | k, v2⟩
    · unfold Volume.cria at hx
      rcases v.alloc_inode_cases with ⟨_, he⟩ | ⟨j, _, _, _, _, he⟩ <;> rw [he] at hx <;> cases hx
      rfl
    · obtain ⟨l1, l2⟩ := cria_leva hc hl hp0 hp (hs p hp) hin (Or.inr rfl) hx
      have hr' : v2.resolve q = some (i, r) :=
        caminho_leva hc (fun j tok c hj htok h => (l1 j tok c hj htok h).1) ⟨by decide, hc.raiz⟩ hq
      exact read_congr hq hr' (l2 i hi hu ht).1 max

end Fica

/-! ## The law -/

/-- The new entry of this path goes into a directory that has no entry of its name. -/
def Estreia (m : Mem) (d : Disco) (path : List UInt8) : Prop :=
  ∀ p, pai m d path = some p →
    (∃ j, 1 ≤ j ∧ j < SFS_INODE_MAX ∧ bm_test m.fs.imap j = false) →
      inode_type (ino d p) = 2 ∧ ((path_split path).2 = [] ∨
        (lido m d).entra p ((path_split path).2.take SFS_NAME_MAX) = none)

/-- A write or a mkdir that empties no directory with entries, and whose new entry goes into a
directory that has no entry of its name. -/
def Isola (m : Mem) (d : Disco) : Chamada → Prop
  | .write path buf _ =>
    (∀ j, acha m d path = some j → inode_type (ino d j) = 2 →
      buf = [] ∧ ∀ b e c, ¬ Entrada (lido m d) j b e c) ∧
    (acha m d path = none → buf.length ≤ 10 * 512 → Estreia m d path)
  | .mkdir path _ => Estreia m d path
  | .unlink _ => False

/-- A read of the path returns the same in both states, for every `max`. -/
def LeIgual (m : Mem) (d : Disco) (m' : Mem) (d' : Disco) (path : List UInt8) : Prop :=
  ∀ max, ∃ r m1 d1 m2 d2, ((pelo_journal (spfs_read path max)).run m).exec d = some ((r, m1), d1) ∧
    ((pelo_journal (spfs_read path max)).run m').exec d' = some ((r, m2), d2)

section Law

variable {m m' : Mem} {d d' : Disco} {v v' : Volume} {path q : List UInt8} {c : Chamada}

theorem le_igual_iff (hv : Vivo m d v) (hc : Coeso v) (hv' : Vivo m' d' v') (hc' : Coeso v') :
    LeIgual m d m' d' q ↔ ∀ max, v'.read q max = v.read q max := by
  refine forall_congr' fun max => ?_
  obtain ⟨m1, d1, he, _⟩ := (refina_spfs_read hc.navegavel q max).pelo_journal hv
  obtain ⟨m2, d2, he', _⟩ := (refina_spfs_read hc'.navegavel q max).pelo_journal hv'
  constructor
  · rintro ⟨r, n1, e1, n2, e2, h1, h2⟩
    rw [he] at h1
    rw [he'] at h2
    have hr1 := congrArg (fun r => r.1.1) (Option.some.inj h1)
    have hr2 := congrArg (fun r => r.1.1) (Option.some.inj h2)
    exact hr2.trans hr1.symm
  · intro h
    dsimp only at he he'
    rw [h] at he'
    exact ⟨_, m1, d1, m2, d2, he, he'⟩

theorem Estreia.inedita (hv : Vivo m d v) (hc : Coeso v) (h : Estreia m d path) :
    Inedita v path := by
  intro p hp hfree
  obtain ⟨hp1, hp2⟩ := hc.navegavel.parent_find hp
  obtain ⟨j, h1, hj, hf⟩ := hfree
  obtain ⟨ht, hn⟩ := h p ((pai_eq hv hc path).trans hp) ⟨j, h1, hj, (hv.rep.imap j hj).trans hf⟩
  rw [hv.rep.ino p hp1] at ht
  rw [(igual_lido hv hc hp1 hp2).entra] at hn
  exact ⟨ht, hn⟩

/-- What the law says, on the volume. -/
theorem Isola.read (hv : Vivo m d v) (hc : Coeso v) (hl : Legivel v) (hp : Caminho c.path)
    (hg : Guarda m d c) (hi : Isola m d c) {i r : Nat} (hq : v.resolve q = some (i, r))
    (ht : inode_type (v.ino i) = 1) (hne : acha m d c.path ≠ some i) (max : Nat) :
    (c.no_volume v).read q max = v.read q max := by
  have hacha : ∀ {path j s}, v.resolve path = some (j, s) → acha m d path = some j := fun hr => by
    rw [acha_eq hv hc.navegavel, hr]
    rfl
  cases c with
  | write path buf ticks =>
    refine read_outro_write hc hl hp.2 ticks (fun j s hr htj => ?_) (fun hr hlen => ?_) hq ht
      (fun s hr => hne (hacha hr)) max
    · obtain ⟨⟨hj, _⟩, _⟩ := hc.navegavel.resolve hr
      obtain ⟨g1, g2⟩ := hi.1 j (hacha hr) (by rw [hv.rep.ino j hj]; exact htj)
      exact ⟨g1, fun b e x g => g2 b e x ((entrada_lido_iff hv hc).mpr g)⟩
    · have hnone := (acha_none_iff hv hc path).mpr hr
      refine ⟨(hi.2 hnone hlen).inedita hv hc, fun p hpf => ?_⟩
      exact cabe_no_tamanho_lido hv hc hpf (hg.2 hnone p ((pai_eq hv hc path).trans hpf))
  | mkdir path ticks =>
    refine read_outro_mkdir hc hl hp.2 ticks (Estreia.inedita hv hc hi) (fun p hpf => ?_) hq ht max
    exact cabe_no_tamanho_lido hv hc hpf (hg.2 p ((pai_eq hv hc path).trans hpf))
  | unlink path => exact hi.elim

/-- In every run that guards the directories, a write or a mkdir that empties no directory with
entries, and whose new entry goes into a directory that has no entry of its name, leaves what a
read returns of each regular file but the one it is called on. -/
theorem other_files_read_the_same (h : Alcanca SemResto Guarda m d) (hp : Caminho c.path)
    (hg : Guarda m d c) (hi : Isola m d c) {i : Nat} (ha : acha m d q = some i)
    (ht : inode_type (ino d i) = 1) (hne : acha m d c.path ≠ some i) :
    ∃ m' d', (c.executa.run m).exec d = some (((), m'), d') ∧ LeIgual m d m' d' q := by
  obtain ⟨v, hv, hc, hl⟩ := h.legivel
  obtain ⟨m', d', he, hv'⟩ := hv.chama hc.navegavel c
  refine ⟨m', d', he, (le_igual_iff hv hc hv' (hg.1.coeso hv hc)).mpr fun max => ?_⟩
  rw [acha_eq hv hc.navegavel] at ha
  obtain ⟨⟨j, r⟩, hr, rfl⟩ := Option.map_eq_some_iff.mp ha
  obtain ⟨⟨hj, _⟩, _⟩ := hc.navegavel.resolve hr
  rw [hv.rep.ino j hj] at ht
  exact hi.read hv hc hl hp hg hr ht hne max

end Law

/-! ## The root written -/

/-- After a first file `a`, a write of no data to the root leaves nothing to read at `a`. -/
theorem a_write_to_the_root_loses_a_file : ¬ ∀ m d, Alcanca (fun _ => True) (fun _ _ _ => True) m d →
    ∀ path buf ticks q i, Caminho path → Caminho q → acha m d q = some i →
      inode_type (ino d i) = 1 → acha m d path ≠ some i →
      ∀ m' d', ((Chamada.write path buf ticks).executa.run m).exec d = some (((), m'), d') →
        LeIgual m d m' d' q := by
  intro h
  obtain ⟨m, d, ha, hv, hr⟩ := alcanca_vazio (fun _ _ => trivial) fun _ _ _ => True
  have hc := coeso_novo_volume hr
  obtain ⟨hres, _⟩ := primeiro_write [97] (v := Volume.novo d) (fun _ => rfl) (fun _ => rfl) hr
    (by decide) (by decide) (by decide) 65
  have hcam : Caminho [97] := by
    unfold Caminho
    decide
  obtain ⟨m1, d1, he1, hv1⟩ := hv.chama hc.navegavel (.write [97] [65] 0)
  have ha1 := ha.chama (c := .write [97] [65] 0) hcam trivial he1
  have hc1 := coeso_write hc [97] [65] 0 fun i q hx => by
    rw [hres] at hx
    cases hx
  obtain ⟨i, hi, ht, _⟩ := primeiro_arquivo hr
  generalize hv1' : ((Volume.novo d).write [97] [65] 0).2 = v1 at hi ht hc1
  change Vivo m1 d1 ((Volume.novo d).write [97] [65] 0).2 at hv1
  rw [hv1'] at hv1
  obtain ⟨⟨hi1, _⟩, _⟩ := hc1.navegavel.resolve hi
  obtain ⟨m2, d2, he2, hv2⟩ := hv1.chama hc1.navegavel (.write [BARRA] [] 0)
  have hc2 := coeso_write hc1 [BARRA] [] 0 fun _ _ _ => Or.inr rfl
  have hi0 : i ≠ 0 := by
    rintro rfl
    rw [hc1.raiz_dir] at ht
    exact absurd ht (by decide)
  have hle := h m1 d1 ha1 [BARRA] [] 0 [97] i (by unfold Caminho; decide) hcam
    (by rw [acha_eq hv1 hc1.navegavel, hi]; rfl) (by rw [hv1.rep.ino i hi1]; exact ht)
    (by rw [acha_eq hv1 hc1.navegavel]; exact fun h => hi0 (Option.some.inj h).symm) m2 d2 he2
  have hread := (le_igual_iff hv1 hc1 hv2 hc2).mp hle 0
  have hv2' : (v1.write [BARRA] [] 0).2 = ((v1.esvazia 0).enche 0 []).2 := rfl
  have hsize : inode_size ((v1.write [BARRA] [] 0).2.ino 0) = 0 := by
    obtain ⟨x, w, he, _, hx⟩ := enche_escrito (v1.esvazia 0) 0 []
    have hx0 : (w.por_ino 0 x).ino 0 = x := by simp [Volume.por_ino]
    rw [hv2', he, hx0, hx rfl, size_por_size]
    rfl
  have hnone : (v1.write [BARRA] [] 0).2.resolve [97] = none := by
    rw [resolve_parent _ hcam.1 (by decide)]
    have hp : (v1.write [BARRA] [] 0).2.parent_find (path_split [97]).1 = some 0 := rfl
    rw [hp, Option.bind_some, entra_vazio (by rw [hsize])]
    rfl
  change (v1.write [BARRA] [] 0).2.read [97] 0 = v1.read [97] 0 at hread
  rw [read_none hnone] at hread
  unfold Volume.read at hread
  rw [hi] at hread
  dsimp only at hread
  rw [if_neg (not_not.mpr ht)] at hread
  cases hread

/-! ## A second file -/

theorem size_dir_add {v : Volume} (hc : Coeso v) {p : Nat} (hp : p < SFS_INODE_MAX)
    (hu : v.imap p = true) (i : Nat) (name : List UInt8) :
    inode_size ((v.dir_add_entry p i name).2.ino p) ≤ inode_size (v.ino p) + 32 := by
  unfold Volume.dir_add_entry
  rcases dir_add_laco_cases p i name (List.range 10) (v.ino p) v with ⟨he, _⟩ |
    ⟨pre, b, post, s, dir', dblk, w, e, hr, _, ha, _, he⟩
  · rw [he]
    exact Nat.le_add_right _ _
  · have hb : b < 10 := List.mem_range.mp (by rw [hr]; simp)
    rw [he]
    change inode_size ((w.entrou p s dir' dblk e i name).ino p) ≤ _
    rw [(coeso_abre_bloco hc hp hu hb ha).size]
    exact Nat.mod_le _ _

/-- After the first file `a` of an empty volume, the root has no entry `b` and room for more. -/
theorem raiz_depois {d : Disco} (hr : ino d 0 = inode_novo 2 0) :
    ((Volume.novo d).write [97] [65] 0).2.entra 0 [98] = none ∧
      inode_size (((Volume.novo d).write [97] [65] 0).2.ino 0) ≤ 32 := by
  have hc := coeso_novo_volume hr
  have hl := legivel_novo_volume hr
  obtain ⟨hres, _⟩ := primeiro_write [97] (v := Volume.novo d) (fun _ => rfl) (fun _ => rfl) hr
    (by decide) (by decide) (by decide) 65
  have hraiz : (Volume.novo d).ino 0 = inode_novo 2 0 := hr
  have hp : (Volume.novo d).parent_find (path_split [97]).1 = some 0 := rfl
  unfold Volume.write
  rw [if_neg (show ¬ 10 * 512 < [(65 : UInt8)].length by decide), hp]
  dsimp only
  unfold Volume.write_inode
  rw [hres]
  dsimp only
  obtain ⟨g1, g2⟩ := coeso_cria hc (by decide) hc.raiz (path_split [97]).2 (t := 1) (Or.inl rfl) 0
  rcases hx : (Volume.novo d).cria 0 (path_split [97]).2 1 0 with ⟨_ | i, w⟩
  · unfold Volume.cria at hx
    rcases (Volume.novo d).alloc_inode_cases with ⟨_, he⟩ | ⟨j, _, _, _, _, he⟩ <;>
      rw [he] at hx <;> cases hx
    exact ⟨entra_vazio (by rw [hraiz, size_novo]) _, by rw [hraiz, size_novo]; decide⟩
  · obtain ⟨hi, hu, hino⟩ := g2 i (by rw [hx])
    rw [hx] at g1 hu hino
    dsimp only
    have hi0 : (0 : Nat) ≠ i := by
      rintro rfl
      have := g1.raiz_dir
      rw [hino, type_novo] at this
      exact absurd this (by decide)
    have hig : Igual w (w.enche i [65]).2 0 := igual_enche g1 (by decide) g1.raiz hi0
    rw [hig.entra, hig.ino]
    unfold Volume.cria at hx
    rcases ha : (Volume.novo d).alloc_inode with ⟨_ | k, v1⟩
    · rw [ha] at hx
      cases hx
    rw [ha] at hx
    cases hx
    have hn := coeso_novo 0 hc ha (t := 1) (Or.inl rfl)
    have hi1 : Igual (Volume.novo d) (v1.por_ino i (inode_novo 1 0)) 0 := igual_novo ha hi0
    have hz : inode_size ((v1.por_ino i (inode_novo 1 0)).ino 0) = 0 := by
      rw [hi1.ino, hraiz, size_novo]
    have hdir : inode_type ((v1.por_ino i (inode_novo 1 0)).ino 0) = 2 := by
      rw [hi1.ino, hraiz, type_novo]
    have hs : CabeNoTamanho (v1.por_ino i (inode_novo 1 0)) 0 := fun _ => by rw [hz]; decide
    constructor
    · rw [entra_outro_nome hn (legivel_novo hc hl ha) (by decide) hn.raiz hdir hi hs (by decide)
        (by decide)]
      exact entra_vazio (by rw [hz]) _
    · have := size_dir_add hn (by decide) hn.raiz i (path_split [97]).2
      omega

/-- The law at a second file `b`, next to a file `a`. -/
theorem a_second_file_leaves_the_first : ∃ m d m' d', Alcanca SemResto Guarda m d ∧
    ((Chamada.write [98] [66] 0).executa.run m).exec d = some (((), m'), d') ∧
    LeIgual m d m' d' [97] := by
  obtain ⟨m, d, ha, hv, hr⟩ := alcanca_vazio (fun _ h => h) Guarda
  have hc := coeso_novo_volume hr
  obtain ⟨hres, _⟩ := primeiro_write [97] (v := Volume.novo d) (fun _ => rfl) (fun _ => rfl) hr
    (by decide) (by decide) (by decide) 65
  have hfirst : acha m d [97] = none := (acha_none_iff hv hc _).mpr hres
  have hg : Guarda m d (.write [97] [65] 0) := by
    refine ⟨fun i hi => ?_, fun _ q hq => ?_⟩
    · rw [hfirst] at hi
      cases hi
    · obtain rfl : 0 = q := Option.some.inj hq
      change inode_type (ino d 0) = 2 → inode_size (ino d 0) + 32 < 2 ^ 32
      rw [hr, size_novo]
      exact fun _ => by decide
  obtain ⟨m1, d1, he1, hv1⟩ := hv.chama hc.navegavel (.write [97] [65] 0)
  have ha1 := ha.chama (c := .write [97] [65] 0) (by unfold Caminho; decide) hg he1
  have hc1 := hg.1.coeso hv hc
  obtain ⟨i, hi, ht, _⟩ := primeiro_arquivo hr
  obtain ⟨hb, hsize⟩ := raiz_depois hr
  change Coeso ((Volume.novo d).write [97] [65] 0).2 at hc1
  change Vivo m1 d1 ((Volume.novo d).write [97] [65] 0).2 at hv1
  generalize ((Volume.novo d).write [97] [65] 0).2 = v1 at hc1 hv1 hi ht hb hsize
  obtain ⟨⟨hi1, _⟩, _⟩ := hc1.navegavel.resolve hi
  have hraiz : ino d1 0 = v1.ino 0 := hv1.rep.ino 0 (by decide)
  have hsecond : acha m1 d1 [98] = none := by
    rw [acha_none_iff hv1 hc1, resolve_parent _ (by decide) (by decide)]
    have hp : v1.parent_find (path_split [98]).1 = some 0 := rfl
    have hn : (path_split [98]).2 = [98] := by decide
    rw [hp, Option.bind_some, hn, hb]
    rfl
  have hg1 : Guarda m1 d1 (.write [98] [66] 0) := by
    refine ⟨fun j hj => ?_, fun _ q hq => ?_⟩
    · rw [hsecond] at hj
      cases hj
    · obtain rfl : 0 = q := Option.some.inj hq
      change inode_type (ino d1 0) = 2 → inode_size (ino d1 0) + 32 < 2 ^ 32
      rw [hraiz]
      omega
  have hiso : Isola m1 d1 (.write [98] [66] 0) := by
    refine ⟨fun j hj => ?_, fun _ _ p hp _ => ?_⟩
    · rw [hsecond] at hj
      cases hj
    · obtain rfl : 0 = p := Option.some.inj hp
      refine ⟨by rw [hraiz]; exact hc1.raiz_dir, Or.inr ?_⟩
      rw [(igual_lido hv1 hc1 (by decide) hc1.raiz).entra]
      exact hb
  obtain ⟨m2, d2, he2, hle⟩ := other_files_read_the_same (c := .write [98] [66] 0) (q := [97]) ha1
    (by unfold Caminho; decide) hg1 hiso (i := i) (by rw [acha_eq hv1 hc1.navegavel, hi]; rfl)
    (by rw [hv1.rep.ino i hi1]; exact ht) (by
      change acha m1 d1 [98] ≠ some i
      rw [hsecond]
      exact fun h => by cases h)
  exact ⟨m1, d1, m2, d2, ha1, he2, hle⟩

end SpaceOS.SpaceFs
