-- Names in a directory: as long as no mkdir takes a name that its directory already has, no
-- directory has two entries of one name, and a path that is unlinked leads nowhere until it is
-- created again.
import SpaceOS.SpaceFsIsolation

open Lib.Bytes Lib.BlockProg Lib.Ownership SpaceOS.Ata
open Function (update update_self update_of_ne)

namespace SpaceOS.SpaceFs

/-! ## Where the entries of a volume come from -/

/-- No directory has two entries of one name. -/
def Unicos (v : Volume) : Prop := ∀ ⦃p b e c b' e' c'⦄, Entrada v p b e c → Entrada v p b' e' c' →
  nome v p b e = nome v p b' e' → b = b' ∧ e = e'

/-- Each entry of `v'` is one of `v`, under the same name, or one that `N` allows. -/
def Traz (N : Nat → Nat → List UInt8 → Prop) (v v' : Volume) : Prop :=
  ∀ ⦃j b e c⦄, Entrada v' j b e c →
    (Entrada v j b e c ∧ nome v' j b e = nome v j b e) ∨ N j c (nome v' j b e)

/-- No new entry. -/
def nenhuma : Nat → Nat → List UInt8 → Prop := fun _ _ _ => False

section Traz

variable {v v' w w' : Volume} {N : Nat → Nat → List UInt8 → Prop} {p i b s e : Nat}
  {name : List UInt8}

theorem Traz.refl (N : Nat → Nat → List UInt8 → Prop) (v : Volume) : Traz N v v :=
  fun _ _ _ _ g => Or.inl ⟨g, rfl⟩

theorem Traz.trans (h : Traz N v w) (h' : Traz nenhuma w v') : Traz N v v' := by
  intro j b e c g
  rcases h' g with ⟨g1, hn⟩ | hf
  · rw [hn]
    exact h g1
  · exact hf.elim

theorem Traz.depois (h : Traz nenhuma v w) (h' : Traz N w v') : Traz N v v' := by
  intro j b e c g
  rcases h' g with ⟨g1, hn⟩ | hN
  · rcases h g1 with ⟨g2, hn2⟩ | hf
    · exact Or.inl ⟨g2, hn.trans hn2⟩
    · exact hf.elim
  · exact Or.inr hN

theorem Traz.mono {N' : Nat → Nat → List UInt8 → Prop} (h : Traz N v v')
    (hN : ∀ j c nm, N j c nm → N' j c nm) : Traz N' v v' :=
  fun _ _ _ _ g => (h g).imp_right (hN _ _ _)

/-- A volume whose entries are entries that were there before, in inodes that have not changed. -/
theorem traz_iguais (h : ∀ {j b e c}, Entrada v' j b e c → Entrada v j b e c ∧ Igual v v' j) :
    Traz nenhuma v v' := by
  intro j b e c g
  obtain ⟨g1, hi⟩ := h g
  exact Or.inl ⟨g1, congrArg nome_de (hi.registro g1.lugar g1.bloco)⟩

theorem traz_esvazia (v : Volume) (i : Nat) : Traz nenhuma v (v.esvazia i) :=
  traz_iguais fun g => ⟨(entrada_esvazia g).1, igual_esvazia (entrada_esvazia g).2⟩

theorem traz_enche {buf : List UInt8} (hc : Coeso v) (hz : ∀ b < 10, inode_block (v.ino i) b = 0)
    (ht : inode_type (v.ino i) ≠ 2 ∨ buf = []) : Traz nenhuma v (v.enche i buf).2 :=
  traz_iguais fun g => by
    obtain ⟨g1, hj⟩ := entrada_enche hc hz ht g
    exact ⟨g1, igual_enche hc g1.lt g1.uso hj⟩

theorem traz_apagou (hc : Coeso v) (h : Entrada v p b e i) :
    Traz nenhuma v (v.apagou i p b e) := by
  intro j b' e' c g
  exact Or.inl ⟨(entrada_apagou hc h g).1, congrArg nome_de (registro_apagou hc h g)⟩

/-- The entry that `dir_add_entry` makes. -/
def Entrante (v : Volume) (p i : Nat) (name : List UInt8) : Nat → Nat → List UInt8 → Prop :=
  fun j c nm => Acolhe v p ∧ j = p ∧ c = i ∧ nm = name.take SFS_NAME_MAX

theorem traz_dir_add (hc : Coeso v) (hp : p < SFS_INODE_MAX) (hu : v.imap p = true)
    (hi : i < SFS_INODE_MAX) (h0 : 0 ∉ name) :
    Traz (Entrante v p i name) v (v.dir_add_entry p i name).2 := by
  unfold Volume.dir_add_entry
  rcases dir_add_laco_cases p i name (List.range 10) (v.ino p) v with ⟨he, _⟩ |
    ⟨pre, b, post, s, dir', dblk, w, e, hr, hpre, ha, hv, he⟩
  · rw [he]
    exact Traz.refl _ _
  · have hb : b < 10 := List.mem_range.mp (by rw [hr]; simp)
    have hab := coeso_abre_bloco hc hp hu hb ha
    have he16 := (vaga_some _ hv).1
    rw [he]
    change Traz _ v (w.entrou p s dir' dblk e i name)
    intro j b' e' c g
    rcases hab.entrada hp hu hb he16 hi g with g1 | g1
    · refine Or.inl ⟨g1, congrArg nome_de (hab.registro_velho hp hu hb g1 ?_)⟩
      rintro ⟨rfl, rfl, rfl⟩
      exact hab.livre hv g1
    · cases g1
      have hdir : inode_type (v.ino p) = 2 := by
        rw [← hab.type p]
        exact g.dir
      rw [range_append_cons hr] at hpre
      refine Or.inr ⟨⟨hdir, b, hb, fun x hx => hpre x (List.mem_range.mpr hx),
        lugar_de_abre ha hv⟩, rfl, rfl, ?_⟩
      unfold nome
      rw [hab.registro_novo, nome_dirent_por he16 h0]

/-- A new inode with an entry: the only new entry is that of the inode, which has none itself. -/
theorem traz_cria {v2 : Volume} {t ticks : Nat} (hc : Coeso v) (hp : p < SFS_INODE_MAX)
    (hu : v.imap p = true) (ht : t = 1 ∨ t = 2) (h0 : 0 ∉ name)
    (hx : v.cria p name t ticks = (some i, v2)) :
    Traz (Entrante v p i name) v v2 ∧ (1 ≤ i ∧ i < SFS_INODE_MAX ∧ v.imap i = false) ∧
      ∀ b e c, ¬ Entrada v2 i b e c := by
  unfold Volume.cria at hx
  rcases ha : v.alloc_inode with ⟨_ | k, v1⟩
  · rw [ha] at hx
    cases hx
  rw [ha] at hx
  cases hx
  obtain ⟨⟨h1, hi⟩, hfree, himap, _, _, hbmap⟩ := alloc_inode_some ha
  have hpi : p ≠ i := by
    rintro rfl
    rw [hfree] at hu
    exact absurd hu (by decide)
  have hn := coeso_novo ticks hc ha ht
  have hup : (v1.por_ino i (inode_novo t ticks)).imap p = true := by
    change v1.imap p = true
    rw [himap, update_of_ne hpi]
    exact hu
  have hnovo : Traz nenhuma v (v1.por_ino i (inode_novo t ticks)) := traz_iguais fun g => by
    obtain ⟨g1, _, hj⟩ := entrada_novo hc ha g
    exact ⟨g1, igual_novo ha hj⟩
  have hig : Igual v (v1.por_ino i (inode_novo t ticks)) p := igual_novo ha hpi
  have hadd : Traz (Entrante (v1.por_ino i (inode_novo t ticks)) p i name) _ _ :=
    traz_dir_add hn hp hup hi h0
  refine ⟨hnovo.depois (hadd.mono fun j c nm h => ⟨?_, h.2⟩), ⟨h1, hi, hfree⟩, fun b e c g => ?_⟩
  · exact hig.symm.acolhe (fun n _ => (congrFun hbmap n).symm) h.1
  · rcases hadd g with ⟨g1, _⟩ | ⟨_, hj, _⟩
    · exact (entrada_novo hc ha g1).2.2 rfl
    · exact hpi hj.symm

end Traz

/-! ## Unique names -/

section Unicos

variable {v v' : Volume} {N : Nat → Nat → List UInt8 → Prop}

/-- New entries keep the names unique where their directory has no entry of the name. -/
theorem Unicos.traz (hu : Unicos v) (hc' : Coeso v') (h : Traz N v v')
    (hum : ∀ {j j' c c' nm nm'}, N j c nm → N j' c' nm' → c = c')
    (hN : ∀ {j c nm b e x}, N j c nm → Entrada v j b e x → nome v j b e ≠ nm) : Unicos v' := by
  intro p b e c b' e' c' g g' hn
  rcases h g with ⟨g1, h1⟩ | h1 <;> rcases h g' with ⟨g2, h2⟩ | h2
  · exact hu g1 g2 (h1.symm.trans (hn.trans h2))
  · exact absurd (h1.symm.trans hn) (hN h2 g1)
  · exact absurd (h2.symm.trans hn.symm) (hN h1 g2)
  · have hcc := hum h1 h2
    subst hcc
    exact (hc'.uma_vez g g').2

theorem Unicos.mesmas (hu : Unicos v) (h : Traz nenhuma v v') : Unicos v' := by
  intro p b e c b' e' c' g g' hn
  rcases h g with ⟨g1, h1⟩ | hf
  · rcases h g' with ⟨g2, h2⟩ | hf
    · exact hu g1 g2 (h1.symm.trans (hn.trans h2))
    · exact hf.elim
  · exact hf.elim

/-- Where the names are unique, a search that succeeds afterwards succeeded before, or it finds a
new entry. -/
theorem entra_traz {j c : Nat} {tok : List UInt8} (hl : Legivel v) (hu : Unicos v)
    (hl' : Legivel v') (h : Traz N v v') (hj : j < SFS_INODE_MAX ∧ v'.imap j = true)
    (he : v'.entra j tok = some c) : v.entra j tok = some c ∨ N j c tok := by
  obtain ⟨b, e, g, hn, _⟩ := entra_primeira hl' hj he
  rcases h g with ⟨g1, h1⟩ | h1
  · refine Or.inl (entra_unica hl g1 (h1.symm.trans hn) fun b' e' c' g' hn' => ?_)
    obtain ⟨rfl, rfl⟩ := hu g1 g' ((h1.symm.trans hn).trans hn'.symm)
    exact g'.nome.symm.trans g1.nome
  · rw [hn] at h1
    exact Or.inr h1

end Unicos

/-! ## The components of a path that count -/

/-- The components of a path without the empty ones. -/
def tokens (path : List UInt8) : List (List UInt8) := (Volume.componentes path).filter (· ≠ [])

section Tokens

variable {v v' : Volume} {N : Nat → Nat → List UInt8 → Prop} {path a : List UInt8}
  {toks : List (List UInt8)} {p q r : Nat}

theorem caminho_filter (v : Volume) (toks : List (List UInt8)) (cur parent : Nat) :
    v.caminho (toks.filter (· ≠ [])) cur parent = v.caminho toks cur parent := by
  induction toks generalizing cur parent with
  | nil => rfl
  | cons tok toks ih =>
    by_cases ht : tok = []
    · rw [List.filter_cons_of_neg (by simpa using ht), ih, Volume.caminho, if_pos ht]
    · rw [List.filter_cons_of_pos (by simpa using ht), Volume.caminho, Volume.caminho, if_neg ht,
        if_neg ht]
      cases v.entra cur tok with
      | none => rfl
      | some j => exact ih j cur

theorem resolve_tokens (v : Volume) (path : List UInt8) :
    v.resolve path = v.caminho (tokens path) 0 0 := (caminho_filter v _ 0 0).symm

theorem tokens_ne_nil {t : List UInt8} (h : t ∈ tokens path) : t ≠ [] := by
  simpa using (List.mem_filter.mp h).2

/-- The last step of a walk. -/
theorem caminho_snoc (v : Volume) {t : List UInt8} (ht : t ≠ []) (toks : List (List UInt8)) :
    v.caminho (toks ++ [t]) 0 0 = (v.caminho toks 0 0).bind fun r =>
      (v.entra r.1 t).map fun i => (i, r.1) := by
  rw [caminho_append]
  refine congrArg (Option.bind _) (funext fun r => ?_)
  rw [Volume.caminho, if_neg ht]
  cases v.entra r.1 t <;> rfl

theorem caminho_snoc_some {t : List UInt8} (ht : t ≠ [])
    (h : v.caminho (toks ++ [t]) 0 0 = some (q, r)) :
    (∃ s, v.caminho toks 0 0 = some (r, s)) ∧ v.entra r t = some q := by
  rw [caminho_snoc v ht] at h
  cases hx : v.caminho toks 0 0 with
  | none =>
    rw [hx] at h
    cases h
  | some x =>
    obtain ⟨r', s⟩ := x
    rw [hx] at h
    obtain ⟨i, hi, he⟩ := Option.map_eq_some_iff.mp h
    cases he
    exact ⟨⟨s, rfl⟩, hi⟩

/-- A walk that succeeds afterwards succeeded before, or its last step takes a new entry. -/
theorem caminho_traz (hl : Legivel v) (hu : Unicos v) (hc' : Coeso v') (hl' : Legivel v')
    (h : Traz N v v') (hvazio : ∀ {j c nm b e x}, N j c nm → ¬ Entrada v' c b e x) :
    ∀ (toks : List (List UInt8)), (∀ t ∈ toks, t ≠ []) → ∀ {q r},
      v'.caminho toks 0 0 = some (q, r) → v.caminho toks 0 0 = some (q, r) ∨
        ∃ pre t s, toks = pre ++ [t] ∧ v.caminho pre 0 0 = some (r, s) ∧ N r q t := by
  intro toks
  induction toks using List.reverseRecOn with
  | nil => exact fun _ _ _ he => Or.inl he
  | append_singleton toks t ih =>
    intro hne q r he
    have ht : t ≠ [] := hne t (by simp)
    obtain ⟨⟨s, hs⟩, hx⟩ := caminho_snoc_some ht he
    have huso := (hc'.navegavel.caminho ⟨by decide, hc'.raiz⟩ hs).1
    rcases ih (fun t' h' => hne t' (List.mem_append_left _ h')) hs with hold | ⟨_, _, _, _, _, hN⟩
    · rcases entra_traz hl hu hl' h huso hx with hx | hN
      · refine Or.inl ?_
        rw [caminho_snoc v ht, hold, Option.bind_some, hx]
        rfl
      · exact Or.inr ⟨toks, t, s, rfl, hold, hN⟩
    · obtain ⟨b, e, g⟩ := entra_entrada huso hx
      exact absurd g (hvazio hN)

/-- A path leads to an inode by one way only. -/
theorem caminho_unico (hc : Coeso v) (hl : Legivel v) :
    ∀ (as : List (List UInt8)), (∀ t ∈ as, t ≠ []) → ∀ (bs : List (List UInt8)),
      (∀ t ∈ bs, t ≠ []) → ∀ {q r s}, v.caminho as 0 0 = some (q, r) →
        v.caminho bs 0 0 = some (q, s) → as = bs := by
  have hraiz : ∀ {toks : List (List UInt8)} {t : List UInt8} {r}, t ≠ [] →
      v.caminho (toks ++ [t]) 0 0 ≠ some (0, r) := by
    intro toks t r ht he
    obtain ⟨⟨s, hs⟩, hx⟩ := caminho_snoc_some ht he
    obtain ⟨b, e, g⟩ := entra_entrada
      (hc.navegavel.caminho ⟨by decide, hc.raiz⟩ hs).1 hx
    exact g.vivo rfl
  intro as
  induction as using List.reverseRecOn with
  | nil =>
    intro _ bs hb q r s ha he
    cases ha
    rcases List.eq_nil_or_concat bs with rfl | ⟨bs, t, rfl⟩
    · rfl
    · rw [List.concat_eq_append] at hb he
      exact absurd he (hraiz (hb t (by simp)))
  | append_singleton as t ih =>
    intro ha bs hb q r s he he'
    have ht : t ≠ [] := ha t (by simp)
    rcases List.eq_nil_or_concat bs with rfl | ⟨bs, t', rfl⟩
    · cases he'
      exact absurd he (hraiz ht)
    · rw [List.concat_eq_append] at hb he' ⊢
      have ht' : t' ≠ [] := hb t' (by simp)
      obtain ⟨⟨x, hx⟩, h1⟩ := caminho_snoc_some ht he
      obtain ⟨⟨y, hy⟩, h2⟩ := caminho_snoc_some ht' he'
      have hr := (hc.navegavel.caminho ⟨by decide, hc.raiz⟩ hx).1
      have hs := (hc.navegavel.caminho ⟨by decide, hc.raiz⟩ hy).1
      -- the entry of `q` is the last step of both walks
      obtain ⟨b, e, g, hn, _⟩ := entra_primeira hl hr h1
      obtain ⟨b', e', g', hn', _⟩ := entra_primeira hl hs h2
      obtain ⟨rfl, rfl, rfl⟩ := hc.uma_vez g g'
      rw [ih (fun t' h' => ha t' (List.mem_append_left _ h')) bs
        (fun t' h' => hb t' (List.mem_append_left _ h')) hx hy, ← hn, ← hn']

theorem filter_snoc (as : List (List UInt8)) (b : List UInt8) : (as ++ [b]).filter (· ≠ []) =
    as.filter (· ≠ []) ++ if b = [] then [] else [b] := by
  rw [List.filter_append]
  by_cases hn : b = []
  · rw [if_pos hn, hn]
    rfl
  · rw [if_neg hn, List.filter_cons_of_pos (by simpa using hn)]
    rfl

/-- The components of a path are those of its parent and its name. -/
theorem tokens_split (hlen : path.length ≤ 127) : tokens path = tokens (path_split path).1 ++
    if (path_split path).2 = [] then [] else [(path_split path).2] := by
  unfold tokens Volume.componentes
  rcases path_split_cases path with ⟨hb, hs⟩ | ⟨a, b, hp, hb, hs⟩
  · have hhead : path.head? ≠ some BARRA := fun h => hb (List.mem_of_head? h)
    rw [hs, if_neg hhead, List.take_of_length_le hlen]
    rw [partes_sem_barra hb]
    exact filter_snoc [] path
  · rw [hs]
    cases a with
    | nil =>
      subst hp
      rw [if_pos (by simp), List.take_of_length_le (by simp at hlen ⊢; omega)]
      rw [List.nil_append, List.tail_cons, partes_sem_barra hb]
      exact filter_snoc [] b
    | cons x a =>
      subst hp
      have hlen' : (a ++ BARRA :: b).length ≤ 127 := by simp at hlen ⊢; omega
      by_cases hx : x = BARRA
      · rw [if_pos (by simp [hx]), if_pos (by simp [hx])]
        simp only [List.cons_append, List.tail_cons]
        rw [List.take_of_length_le hlen', List.take_of_length_le (by simp at hlen ⊢; omega)]
        rw [partes_append a hb]
        exact filter_snoc _ b
      · rw [if_neg (by simp [hx]), if_neg (by simp [hx]), List.take_of_length_le hlen,
          List.take_of_length_le (by simp at hlen ⊢; omega)]
        rw [partes_append (x :: a) hb]
        exact filter_snoc _ b

/-- The parent of a path is found by the walk over its components. -/
theorem parent_find_caminho (h : v.parent_find a = some p) :
    ∃ s, v.caminho (tokens a) 0 0 = some (p, s) := by
  unfold Volume.parent_find at h
  split at h
  · rename_i ha
    cases h
    subst ha
    exact ⟨0, rfl⟩
  · obtain ⟨⟨i, s⟩, hr, rfl⟩ := Option.map_eq_some_iff.mp h
    exact ⟨s, (resolve_tokens v a).symm.trans hr⟩

end Tokens

/-! ## What the calls do to the entries -/

/-- A new inode `i` in the directory of the path: no entry is new but its own. -/
structure Criou (v v' : Volume) (path : List UInt8) (p i : Nat) : Prop where
  pai : v.parent_find (path_split path).1 = some p
  livre : 1 ≤ i ∧ i < SFS_INODE_MAX ∧ v.imap i = false
  traz : Traz (Entrante v p i (path_split path).2) v v'
  vazio : ∀ b e c, ¬ Entrada v' i b e c

/-- If a new entry of this path finds a place, the directory has no entry of its name. -/
def Inconfundivel (v : Volume) (path : List UInt8) : Prop :=
  ∀ p, v.parent_find (path_split path).1 = some p →
    (∃ j, 1 ≤ j ∧ j < SFS_INODE_MAX ∧ v.imap j = false) → Acolhe v p →
      ∀ b e c, Entrada v p b e c → nome v p b e ≠ (path_split path).2

/-- The components of a path have at most 27 characters. -/
def Curto (path : List UInt8) : Prop := ∀ t ∈ tokens path, t.length ≤ SFS_NAME_MAX

section Calls

variable {v v' : Volume} {path q buf : List UInt8} {p i ticks : Nat}

theorem Curto.nome (h : Curto path) (hlen : path.length ≤ 127) :
    (path_split path).2.take SFS_NAME_MAX = (path_split path).2 := by
  refine List.take_of_length_le ?_
  by_cases hn : (path_split path).2 = []
  · rw [hn]
    exact Nat.zero_le _
  · refine h _ ?_
    rw [tokens_split hlen, if_neg hn]
    exact List.mem_append_right _ (List.mem_singleton_self _)

theorem cria_none {t : Nat} {name : List UInt8} (hx : v.cria p name t ticks = (none, v')) :
    v' = v := by
  unfold Volume.cria at hx
  rcases v.alloc_inode_cases with ⟨_, he⟩ | ⟨j, _, _, _, _, he⟩ <;> rw [he] at hx <;> cases hx
  rfl

theorem traz_write (hc : Coeso v) (h0 : 0 ∉ path)
    (hd : ∀ i q, v.resolve path = some (i, q) → inode_type (v.ino i) ≠ 2 ∨ buf = []) :
    Traz nenhuma v (v.write path buf ticks).2 ∨ v.resolve path = none ∧
      ∃ p i, Criou v (v.write path buf ticks).2 path p i := by
  unfold Volume.write
  split
  · exact Or.inl (Traz.refl _ _)
  cases hp : v.parent_find (path_split path).1 with
  | none => exact Or.inl (Traz.refl _ _)
  | some p =>
    obtain ⟨hp1, hp2⟩ := hc.navegavel.parent_find hp
    dsimp only
    unfold Volume.write_inode
    cases hr : v.resolve path with
    | none =>
      dsimp only
      rcases hx : v.cria p (path_split path).2 1 ticks with ⟨_ | i, v2⟩
      · rw [cria_none hx]
        exact Or.inl (Traz.refl _ _)
      · obtain ⟨ht, hlivre, hvazio⟩ := traz_cria hc hp1 hp2 (Or.inl rfl) (zero_nao_no_nome h0) hx
        obtain ⟨g1, g2⟩ := coeso_cria hc hp1 hp2 (path_split path).2 (t := 1) (Or.inl rfl) ticks
        rw [hx] at g1 g2
        obtain ⟨_, _, hino⟩ := g2 i rfl
        dsimp only at hino
        have hz : ∀ b < 10, inode_block (v2.ino i) b = 0 := fun b hb => by
          rw [hino, block_novo _ _ hb]
        have hty : inode_type (v2.ino i) ≠ 2 ∨ buf = [] := Or.inl (by
          rw [hino, type_novo]
          decide)
        exact Or.inr ⟨rfl, p, i, hp, hlivre, ht.trans (traz_enche g1 hz hty),
          fun b e c g => hvazio b e c (entrada_enche g1 hz hty g).1⟩
    | some x =>
      obtain ⟨i, q⟩ := x
      obtain ⟨⟨hi, hu⟩, _⟩ := hc.navegavel.resolve hr
      refine Or.inl ((traz_esvazia v i).trans (traz_enche (coeso_esvazia hc hi hu)
        (fun b hb => esvazia_block b hb) ?_))
      rw [esvazia_type]
      exact hd i q hr

theorem traz_mkdir (path : List UInt8) (ticks : Nat) (hc : Coeso v) (h0 : 0 ∉ path) :
    Traz nenhuma v (v.mkdir path ticks).2 ∨
    ∃ p i, Criou v (v.mkdir path ticks).2 path p i := by
  unfold Volume.mkdir
  cases hp : v.parent_find (path_split path).1 with
  | none => exact Or.inl (Traz.refl _ _)
  | some p =>
    obtain ⟨hp1, hp2⟩ := hc.navegavel.parent_find hp
    dsimp only
    rcases hx : v.cria p (path_split path).2 2 ticks with ⟨_ | i, v2⟩
    · rw [cria_none hx]
      exact Or.inl (Traz.refl _ _)
    · obtain ⟨ht, hlivre, hvazio⟩ := traz_cria hc hp1 hp2 (Or.inr rfl) (zero_nao_no_nome h0) hx
      exact Or.inr ⟨p, i, hp, hlivre, ht, hvazio⟩

theorem traz_unlink (hc : Coeso v) (h : ∀ i p, v.resolve path = some (i, p) → i ≠ 0) :
    Traz nenhuma v (v.unlink path).2 := by
  rcases unlink_cases hc h with he | ⟨i, p, b, e, _, hent, he⟩
  · rw [he]
    exact Traz.refl _ _
  · rw [he]
    exact traz_apagou hc hent

/-- The new entry of a path that led nowhere has a name of its own. -/
theorem inconfundivel_write (hc : Coeso v) (hl : Legivel v) (hlen : path.length ≤ 127)
    (hr : v.resolve path = none) : Inconfundivel v path := by
  intro p hp _ ha b e c g
  obtain ⟨hp1, hp2⟩ := hc.navegavel.parent_find hp
  by_cases hn : (path_split path).2 = []
  · obtain ⟨s, hs⟩ := parent_find_caminho hp
    rw [resolve_tokens, tokens_split hlen, if_pos hn, List.append_nil, hs] at hr
    cases hr
  · rw [resolve_parent v hlen hn, hp, Option.bind_some] at hr
    exact (entra_none_iff hl hp1 hp2 ha.dir).mp (Option.map_eq_none_iff.mp hr) b e c g

theorem Criou.unicos (h : Criou v v' path p i) (hu : Unicos v) (hc' : Coeso v')
    (hlen : path.length ≤ 127) (hcu : Curto path) (hs : Inconfundivel v path) : Unicos v' := by
  refine hu.traz hc' h.traz ?_ ?_
  · rintro j j' c c' nm nm' ⟨_, _, hci, _⟩ ⟨_, _, hci', _⟩
    exact hci.trans hci'.symm
  · rintro j c nm b e x ⟨ha, rfl, _, rfl⟩ g
    rw [hcu.nome hlen]
    exact hs j h.pai ⟨i, h.livre⟩ ha b e x g

/-- A path that led nowhere and leads somewhere after a creation is the path created. -/
theorem Criou.so_este (h : Criou v v' path p i) (hc : Coeso v) (hl : Legivel v) (hu : Unicos v)
    (hc' : Coeso v') (hl' : Legivel v') (hlen : path.length ≤ 127) (hcu : Curto path)
    (hq : v.resolve q = none) (hq' : v'.resolve q ≠ none) : tokens path = tokens q := by
  rw [resolve_tokens] at hq hq'
  obtain ⟨⟨x, r⟩, hx⟩ := Option.ne_none_iff_exists'.mp hq'
  rcases caminho_traz hl hu hc' hl' h.traz
      (by rintro j c nm b e y ⟨_, _, rfl, _⟩; exact h.vazio b e y)
      (tokens q) (fun t ht => tokens_ne_nil ht) hx with hold | ⟨pre, t, s, hpre, hs, hN⟩
  · rw [hq] at hold
    cases hold
  · obtain ⟨_, rfl, _, hnm⟩ := hN
    have hmem : ∀ t' ∈ pre ++ [t], t' ≠ [] := fun t' ht' => tokens_ne_nil (hpre ▸ ht')
    have ht : t ≠ [] := hmem t (by simp)
    rw [hcu.nome hlen] at hnm
    obtain ⟨s', hs'⟩ := parent_find_caminho h.pai
    have hpar := caminho_unico hc hl pre
      (fun t' ht' => hmem t' (List.mem_append_left _ ht'))
      _ (fun t' ht' => tokens_ne_nil ht') hs hs'
    rw [tokens_split hlen, if_neg (hnm ▸ ht), ← hpar, ← hnm, hpre]

/-- A path that led nowhere still does after a call that makes no entry. -/
theorem resolve_none_traz (hl : Legivel v) (hu : Unicos v) (hc' : Coeso v') (hl' : Legivel v')
    (h : Traz nenhuma v v') (hq : v.resolve q = none) : v'.resolve q = none := by
  rw [resolve_tokens] at hq ⊢
  cases hx : v'.caminho (tokens q) 0 0 with
  | none => rfl
  | some x =>
    obtain ⟨i, r⟩ := x
    rcases caminho_traz hl hu hc' hl' h (fun hf => hf.elim) (tokens q)
        (fun t ht => tokens_ne_nil ht) hx with hold | ⟨_, _, _, _, _, hf⟩
    · rw [hq] at hold
      cases hold
    · exact hf.elim

/-- A path that is unlinked leads nowhere. -/
theorem resolve_unlink (hc : Coeso v) (hl : Legivel v) (hu : Unicos v) {r : Nat}
    (hr : v.resolve path = some (i, r)) (h0 : i ≠ 0) : (v.unlink path).2.resolve path = none := by
  have h : ∀ j p, v.resolve path = some (j, p) → j ≠ 0 := fun j p hj => by
    rw [hr] at hj
    cases hj
    exact h0
  have hc' := coeso_unlink hc h
  have hl' := legivel_unlink hc hl h
  have ht := traz_unlink hc h
  obtain ⟨b, e, hent, he⟩ := unlink_some hc hr h0
  cases hx : (v.unlink path).2.resolve path with
  | none => rfl
  | some x =>
    exfalso
    obtain ⟨k, s⟩ := x
    rw [resolve_tokens] at hr hx
    rcases caminho_traz hl hu hc' hl' ht (fun hf => hf.elim) (tokens path)
        (fun t ht => tokens_ne_nil ht) hx with hold | ⟨_, _, _, _, _, hf⟩
    · -- the walk ends in the inode removed, which no entry names any more
      rw [hr] at hold
      cases hold
      obtain ⟨_, hip | ⟨hp, tok, hent'⟩⟩ := hc'.navegavel.caminho ⟨by decide, hc'.raiz⟩ hx
      · cases hip
        exact h0 rfl
      · obtain ⟨b', e', g⟩ := entra_entrada hp hent'
        rw [he] at g
        exact (entrada_apagou hc hent g).2.1 rfl
    · exact hf.elim

end Calls

/-! ## The law -/

/-- If a mkdir of this path makes an entry, its directory has none of the name. -/
def SemIgual (m : Mem) (d : Disco) (path : List UInt8) : Prop :=
  ∀ p, pai m d path = some p →
    (∃ j, 1 ≤ j ∧ j < SFS_INODE_MAX ∧ bm_test m.fs.imap j = false) → Acolhe (lido m d) p →
      ∀ b e c, Entrada (lido m d) p b e c → nome (lido m d) p b e ≠ (path_split path).2

/-- The call guards the directories, its components have at most 27 characters, and if it is a
mkdir it makes no second entry of a name. -/
def Distingue (m : Mem) (d : Disco) (c : Chamada) : Prop :=
  Guarda m d c ∧ Curto c.path ∧
    match c with
    | .write _ _ _ => True
    | .mkdir path _ => SemIgual m d path
    | .unlink _ => True

/-- The call is a write or a mkdir of the path, which leads somewhere after it. -/
def Recria (path : List UInt8) (c : Chamada) (m : Mem) (d : Disco) : Prop :=
  (match c with
    | .write _ _ _ => True
    | .mkdir _ _ => True
    | .unlink _ => False) ∧
  tokens c.path = tokens path ∧ acha m d path ≠ none

/-- The states after calls that satisfy `P`, none of which creates the path. -/
inductive Segue (P : Mem → Disco → Chamada → Prop) (path : List UInt8) (m0 : Mem) (d0 : Disco) :
    Mem → Disco → Prop
  | fica : Segue P path m0 d0 m0 d0
  | chama {m m' : Mem} {d d' : Disco} {c : Chamada} (h : Segue P path m0 d0 m d)
    (hc : Caminho c.path) (hp : P m d c) (he : (c.executa.run m).exec d = some (((), m'), d'))
    (hr : ¬ Recria path c m' d') : Segue P path m0 d0 m' d'

section Law

variable {m m' : Mem} {d d' : Disco} {v : Volume} {path q : List UInt8} {c : Chamada}

theorem nome_lido (hv : Vivo m d v) (hc : Coeso v) {p b e i : Nat} (g : Entrada v p b e i) :
    nome (lido m d) p b e = nome v p b e :=
  congrArg nome_de ((igual_lido hv hc g.lt g.uso).registro g.lugar g.bloco)

theorem Unicos.lido (hv : Vivo m d v) (hc : Coeso v) (hu : Unicos v) :
    Unicos (SpaceFs.lido m d) := by
  intro p b e i b' e' i' g g' hn
  have h1 := (entrada_lido_iff hv hc).mp g
  have h2 := (entrada_lido_iff hv hc).mp g'
  rw [nome_lido hv hc h1, nome_lido hv hc h2] at hn
  exact hu h1 h2 hn

theorem SemIgual.inconfundivel (hv : Vivo m d v) (hc : Coeso v) (h : SemIgual m d path) :
    Inconfundivel v path := by
  intro p hp hfree ha b e i g
  obtain ⟨hp1, hp2⟩ := hc.navegavel.parent_find hp
  obtain ⟨j, h1, hj, hf⟩ := hfree
  have hac := (igual_lido hv hc hp1 hp2).acolhe (fun n hn => hv.rep.bmap n hn) ha
  rw [← nome_lido hv hc g]
  exact h p ((pai_eq hv hc path).trans hp) ⟨j, h1, hj, (hv.rep.imap j hj).trans hf⟩ hac b e i
    ((entrada_lido_iff hv hc).mpr g)

theorem Poupa.write (hv : Vivo m d v) (hc : Coeso v) {buf : List UInt8} {ticks : Nat}
    (h : Poupa m d (.write path buf ticks)) {i r : Nat} (hr : v.resolve path = some (i, r)) :
    inode_type (v.ino i) ≠ 2 ∨ buf = [] := by
  obtain ⟨⟨hi, _⟩, _⟩ := hc.navegavel.resolve hr
  by_cases ht : inode_type (v.ino i) = 2
  · refine Or.inr (h i ?_ ((congrArg inode_type (hv.rep.ino i hi)).trans ht))
    rw [acha_eq hv hc.navegavel, hr]
    rfl
  · exact Or.inl ht

theorem Poupa.unlink (hv : Vivo m d v) (hc : Coeso v) (h : Poupa m d (.unlink path)) {i r : Nat}
    (hr : v.resolve path = some (i, r)) : i ≠ 0 := by
  rintro rfl
  refine h ?_
  rw [acha_eq hv hc.navegavel, hr]
  rfl

/-- What a call that tells the names apart does to the entries. -/
theorem Distingue.cases (hv : Vivo m d v) (hc : Coeso v) (hl : Legivel v) (hp : Caminho c.path)
    (h : Distingue m d c) : Traz nenhuma v (c.no_volume v) ∨
      (∀ path, c ≠ .unlink path) ∧ Inconfundivel v c.path ∧
        ∃ p i, Criou v (c.no_volume v) c.path p i := by
  obtain ⟨hg, _, hm⟩ := h
  cases c with
  | write path buf ticks =>
    rcases traz_write hc hp.2 (fun i r hr => hg.1.write hv hc hr) with h | ⟨hr, hcr⟩
    · exact Or.inl h
    · exact Or.inr ⟨nofun, inconfundivel_write hc hl hp.1 hr, hcr⟩
  | mkdir path ticks =>
    rcases traz_mkdir path ticks hc hp.2 with h | hcr
    · exact Or.inl h
    · exact Or.inr ⟨nofun, SemIgual.inconfundivel hv hc hm, hcr⟩
  | unlink path => exact Or.inl (traz_unlink hc fun i r hr => hg.1.unlink hv hc hr)

/-- The invariant of a step. -/
theorem Distingue.unicos (hv : Vivo m d v) (hc : Coeso v) (hl : Legivel v) (hu : Unicos v)
    (hp : Caminho c.path) (h : Distingue m d c) : Unicos (c.no_volume v) := by
  rcases h.cases hv hc hl hp with ht | ⟨_, hs, p, i, hcr⟩
  · exact hu.mesmas ht
  · exact hcr.unicos hu (h.1.1.coeso hv hc) hp.1 h.2.1 hs

/-- A call that does not create the path leaves it leading nowhere. -/
theorem Distingue.segue (hv : Vivo m d v) (hc : Coeso v) (hl : Legivel v) (hu : Unicos v)
    (hp : Caminho c.path) (h : Distingue m d c) (hv' : Vivo m' d' (c.no_volume v))
    (hr : ¬ Recria path c m' d') (hq : v.resolve path = none) :
    (c.no_volume v).resolve path = none := by
  have hc' := h.1.1.coeso hv hc
  have hl' := h.1.legivel hv hc hl
  rcases h.cases hv hc hl hp with ht | ⟨hno, _, p, i, hcr⟩
  · exact resolve_none_traz hl hu hc' hl' ht hq
  · by_contra hq'
    refine hr ⟨?_, hcr.so_este hc hl hu hc' hl' hp.1 h.2.1 hq hq', fun hn =>
      hq' ((acha_none_iff hv' hc' path).mp hn)⟩
    cases c with
    | write _ _ _ => trivial
    | mkdir _ _ => trivial
    | unlink path => exact hno path rfl

theorem unicos_novo_volume (hr : ino d 0 = inode_novo 2 0) : Unicos (Volume.novo d) :=
  fun _ _ _ _ _ _ _ g => absurd g (sem_entrada_novo hr)

/-- The invariant of a run that tells the names apart. -/
theorem Alcanca.unicos (h : Alcanca SemResto Distingue m d) :
    ∃ v, Vivo m d v ∧ Coeso v ∧ Legivel v ∧ Unicos v :=
  h.invariante
    (fun _ hr => ⟨coeso_novo_volume hr, legivel_novo_volume hr, unicos_novo_volume hr⟩)
    (fun _ hc => ⟨_, hc.1.navegavel⟩) fun hv ⟨hc, hl, hu⟩ hcam hp =>
      ⟨hp.1.1.coeso hv hc, hp.1.legivel hv hc hl, hp.unicos hv hc hl hu hcam⟩

/-- The invariant of the calls after an unlink. -/
theorem Segue.sem {m0 : Mem} {d0 : Disco} (h : Segue Distingue path m0 d0 m d)
    (h0 : ∃ v, Vivo m0 d0 v ∧ Coeso v ∧ Legivel v ∧ Unicos v ∧ v.resolve path = none) :
    ∃ v, Vivo m d v ∧ Coeso v ∧ Legivel v ∧ Unicos v ∧ v.resolve path = none := by
  induction h with
  | fica => exact h0
  | @chama m m' d d' c _ hcam hp he hr ih =>
    obtain ⟨v, hv, hc, hl, hu, hq⟩ := ih
    obtain ⟨m1, d1, he1, hv1⟩ := hv.chama hc.navegavel c
    rw [he1] at he
    cases he
    exact ⟨_, hv1, hp.1.1.coeso hv hc, hp.1.legivel hv hc hl, hp.unicos hv hc hl hu hcam,
      hp.segue hv hc hl hu hcam hv1 hr hq⟩

/-- No lookup of the path finds anything. -/
structure Perdido (m : Mem) (d : Disco) (path : List UInt8) : Prop where
  acha : acha m d path = none
  le : ∀ max, ∃ m' d', ((pelo_journal (spfs_read path max)).run m).exec d = some ((none, m'), d')
  solta : ∃ m' d', ((pelo_journal (spfs_unlink path)).run m).exec d = some ((false, m'), d')

theorem perdido_of_resolve (hv : Vivo m d v) (hc : Coeso v) (h : v.resolve path = none) :
    Perdido m d path where
  acha := (acha_none_iff hv hc path).mpr h
  le := fun max => by
    obtain ⟨m', d', he, _⟩ := (refina_spfs_read hc.navegavel path max).pelo_journal hv
    rw [read_none h] at he
    exact ⟨m', d', he⟩
  solta := by
    obtain ⟨m', d', he, _⟩ := (refina_spfs_unlink hc.navegavel path).pelo_journal hv
    have hf : (v.unlink path).1 = false := by
      unfold Volume.unlink
      rw [h]
    rw [hf] at he
    exact ⟨m', d', he⟩

/-- In every run that guards the directories, with components of at most 27 characters, and in
which no mkdir makes a second entry of a name, no directory has two entries of one name; and
after an unlink that returns 0 no lookup of the path succeeds until it is created again. -/
theorem names_are_unique_and_an_unlinked_path_is_gone (h : Alcanca SemResto Distingue m d) :
    Unicos (lido m d) ∧ ∀ path m1 d1 m' d', Distingue m d (.unlink path) →
      ((pelo_journal (spfs_unlink path)).run m).exec d = some ((true, m1), d1) →
      Segue Distingue path m1 d1 m' d' → ∀ q, tokens q = tokens path → Perdido m' d' q := by
  obtain ⟨v, hv, hc, hl, hu⟩ := h.unicos
  refine ⟨hu.lido hv hc, fun path m1 d1 m' d' hd he hs q hq => ?_⟩
  obtain ⟨m2, d2, he2, hv2⟩ := (refina_spfs_unlink hc.navegavel path).pelo_journal hv
  rw [he2] at he
  have hone : (v.unlink path).1 = true := congrArg (fun r => r.1.1) (Option.some.inj he)
  obtain ⟨rfl, rfl⟩ : m2 = m1 ∧ d2 = d1 := by
    have := Option.some.inj he
    exact ⟨congrArg (fun r => r.1.2) this, congrArg Prod.snd this⟩
  have hd0 : ∀ {i r}, v.resolve path = some (i, r) → i ≠ 0 := fun hr => hd.1.1.unlink hv hc hr
  obtain ⟨⟨i, r⟩, hr⟩ : ∃ x, v.resolve path = some x := by
    refine Option.ne_none_iff_exists'.mp fun hn => ?_
    unfold Volume.unlink at hone
    rw [hn] at hone
    cases hone
  have hu2 : Unicos (v.unlink path).2 := hu.mesmas (traz_unlink hc fun _ _ => hd0)
  obtain ⟨w, hw, hcw, _, _, hnone⟩ := hs.sem ⟨_, hv2, coeso_unlink hc fun _ _ => hd0,
    legivel_unlink hc hl fun _ _ => hd0, hu2, resolve_unlink hc hl hu hr (hd0 hr)⟩
  refine perdido_of_resolve hw hcw ?_
  rw [resolve_tokens, hq, ← resolve_tokens]
  exact hnone

end Law

/-- The law at a first file `a` that is written and unlinked. -/
theorem a_first_file_is_unlinked : ∃ m d m1 d1, Alcanca SemResto Distingue m d ∧
    Unicos (lido m d) ∧ ((pelo_journal (spfs_unlink [97])).run m).exec d = some ((true, m1), d1) ∧
    Perdido m1 d1 [97] := by
  obtain ⟨m, d, ha, hv, hr⟩ := alcanca_vazio (fun _ h => h) Distingue
  have hc := coeso_novo_volume hr
  have hcurto : Curto [97] := by
    unfold Curto
    decide
  obtain ⟨hres, _⟩ := primeiro_write [97] (v := Volume.novo d) (fun _ => rfl) (fun _ => rfl) hr
    (by decide) (by decide) (by decide) 65
  have hfirst : acha m d [97] = none := (acha_none_iff hv hc _).mpr hres
  have hg : Guarda m d (.write [97] [65] 0) := by
    refine ⟨fun i hi => ?_, fun _ q hq => ?_⟩
    · rw [hfirst] at hi
      cases hi
    · obtain rfl : 0 = q := Option.some.inj hq
      change inode_type (ino d 0) = 2 → inode_size (ino d 0) + 32 < 2 ^ 32
      rw [hr, size_novo]
      exact fun _ => by decide
  obtain ⟨m1, d1, he1, hv1⟩ := hv.chama hc.navegavel (.write [97] [65] 0)
  have ha1 := ha.chama (c := .write [97] [65] 0) (by unfold Caminho; decide)
    ⟨hg, hcurto, trivial⟩ he1
  have hc1 := hg.1.coeso hv hc
  obtain ⟨i, hi, ht, _⟩ := primeiro_arquivo hr
  change Coeso ((Volume.novo d).write [97] [65] 0).2 at hc1
  change Vivo m1 d1 ((Volume.novo d).write [97] [65] 0).2 at hv1
  generalize ((Volume.novo d).write [97] [65] 0).2 = v1 at hc1 hv1 hi ht
  have hi0 : i ≠ 0 := by
    rintro rfl
    rw [hc1.raiz_dir] at ht
    exact absurd ht (by decide)
  have hd : Distingue m1 d1 (.unlink [97]) := by
    refine ⟨⟨?_, trivial⟩, hcurto, trivial⟩
    change acha m1 d1 [97] ≠ some 0
    rw [acha_eq hv1 hc1.navegavel, hi]
    exact fun h => hi0 (Option.some.inj h)
  obtain ⟨m2, d2, he2, _⟩ := (refina_spfs_unlink hc1.navegavel [97]).pelo_journal hv1
  have hone : (v1.unlink [97]).1 = true := by
    unfold Volume.unlink
    rw [hi]
  rw [hone] at he2
  obtain ⟨hu, hgone⟩ := names_are_unique_and_an_unlinked_path_is_gone ha1
  exact ⟨m1, d1, m2, d2, ha1, hu, he2, hgone [97] m2 d2 m2 d2 hd he2 .fica [97] rfl⟩

/-! ## A directory made twice -/

section Duas

variable {v v1 : Volume} {p i : Nat}

/-- A mkdir in a directory with a place: the new entry, and the old ones as they were. -/
theorem mkdir_entra (path : List UInt8) (ticks : Nat) (hc : Coeso v) (h0 : 0 ∉ path)
    (hp : v.parent_find (path_split path).1 = some p) (hx : v.alloc_inode = (some i, v1))
    (ha : Acolhe v p) :
    (∃ b e, Entrada (v.mkdir path ticks).2 p b e i ∧
      nome (v.mkdir path ticks).2 p b e = (path_split path).2.take SFS_NAME_MAX) ∧
    ∀ {j b e c}, Entrada v j b e c → Entrada (v.mkdir path ticks).2 j b e c ∧
      nome (v.mkdir path ticks).2 j b e = nome v j b e := by
  obtain ⟨hp1, hp2⟩ := hc.navegavel.parent_find hp
  obtain ⟨⟨h1, hi⟩, hfree, himap, _, _, hbmap⟩ := alloc_inode_some hx
  have hpi : p ≠ i := by
    rintro rfl
    rw [hfree] at hp2
    exact absurd hp2 (by decide)
  have hup : (v1.por_ino i (inode_novo 2 ticks)).imap p = true := by
    change v1.imap p = true
    rw [himap, update_of_ne hpi]
    exact hp2
  have hcria : v.cria p (path_split path).2 2 ticks =
      (some i, ((v1.por_ino i (inode_novo 2 ticks)).dir_add_entry p i (path_split path).2).2) := by
    unfold Volume.cria
    rw [hx]
  have hmk : (v.mkdir path ticks).2 =
      ((v1.por_ino i (inode_novo 2 ticks)).dir_add_entry p i (path_split path).2).2 := by
    unfold Volume.mkdir
    rw [hp]
    dsimp only
    rw [hcria]
  obtain ⟨ht, _, _⟩ := traz_cria hc hp1 hp2 (Or.inr rfl) (zero_nao_no_nome h0) hcria
  obtain ⟨⟨b, e, hnova⟩, hficam⟩ := entrada_dir_add (path_split path).2
    (coeso_novo ticks hc hx (Or.inr rfl)) hp1 hup
    ((igual_novo hx hpi).acolhe (fun n _ => congrFun hbmap n) ha) hi (by omega)
  rw [hmk]
  have hvelho : ∀ {j b e}, ¬ Entrada v j b e i := fun g => by
    have := (hc.filho g).2.1
    rw [hfree] at this
    exact absurd this (by decide)
  constructor
  · refine ⟨b, e, hnova, ?_⟩
    rcases ht hnova with ⟨g, _⟩ | ⟨_, _, _, hn⟩
    · exact absurd g hvelho
    · exact hn
  · intro j b e c g
    have g' := hficam (fica_novo hx g)
    refine ⟨g', ?_⟩
    rcases ht g' with ⟨_, hn⟩ | ⟨_, _, rfl, _⟩
    · exact hn
    · exact absurd g hvelho

/-- A root with at most one entry has a place for another. -/
theorem acolhe_raiz (hc : Coeso v) (hone : ∀ b e c, Entrada v 0 b e c → c = i)
    (hfree : ∃ n < BMAP_BITS, v.bmap n = false) : Acolhe v 0 := by
  refine ⟨hc.raiz_dir, 0, by decide, fun c hlt => absurd hlt (Nat.not_lt_zero c), ?_⟩
  unfold Vago
  split
  · exact hfree
  · rename_i h0
    intro hv
    have g : ∀ e < SFS_DIRENTS_PER_BLK, Entrada v 0 0 e i := fun e he => by
      have g : Entrada v 0 0 e _ :=
        ⟨by decide, hc.raiz, hc.raiz_dir, by decide, h0, he, rfl, vaga_none hv he⟩
      have hi := hone _ _ _ g
      rwa [hi] at g
    have := (hc.uma_vez (g 0 (by decide)) (g 1 (by decide))).2.2
    exact absurd this (by decide)

/-- The root of an empty volume, and what the first directory in it leaves. -/
theorem primeiro_mkdir {d : Disco} (hr : ino d 0 = inode_novo 2 0) :
    (∃ i b e, Entrada ((Volume.novo d).mkdir [97] 0).2 0 b e i ∧
      nome ((Volume.novo d).mkdir [97] 0).2 0 b e = [97]) ∧
    Acolhe ((Volume.novo d).mkdir [97] 0).2 0 ∧
      ∃ k, 1 ≤ k ∧ k < SFS_INODE_MAX ∧ ((Volume.novo d).mkdir [97] 0).2.imap k = false := by
  have hc := coeso_novo_volume hr
  have hp : (Volume.novo d).parent_find (path_split [97]).1 = some 0 := rfl
  have ha : Acolhe (Volume.novo d) 0 := acolhe_raiz (i := 0) hc
    (fun b e c g => absurd g (sem_entrada_novo hr)) ⟨0, by rw [BMAP_BITS_eq]; decide, rfl⟩
  rcases (Volume.novo d).alloc_inode_cases with ⟨hf, _⟩ | ⟨i, h1, hi, hfree, _, hx⟩
  · exact absurd rfl (List.find?_eq_none.mp hf 1 (by decide))
  obtain ⟨⟨b, e, g, hn⟩, _⟩ := mkdir_entra [97] 0 hc (by decide) hp hx ha
  refine ⟨⟨i, b, e, g, hn⟩, acolhe_raiz (i := i) (coeso_mkdir hc [97] 0) (fun b' e' c g' => ?_) ?_,
    ?_⟩
  · rcases traz_mkdir [97] 0 hc (by decide) with ht | ⟨q, k, hcr⟩
    · rcases ht g' with ⟨g0, _⟩ | hf
      · exact absurd g0 (sem_entrada_novo hr)
      · exact hf.elim
    · rcases hcr.traz g with ⟨g0, _⟩ | ⟨_, _, rfl, _⟩
      · exact absurd g0 (sem_entrada_novo hr)
      rcases hcr.traz g' with ⟨g0, _⟩ | ⟨_, _, rfl, _⟩
      · exact absurd g0 (sem_entrada_novo hr)
      · rfl
  · unfold Volume.mkdir Volume.cria
    rw [hp, hx]
    exact livre_depois_da_entrada (fun _ => rfl) 0 i _
  · unfold Volume.mkdir Volume.cria
    rw [hp, hx]
    dsimp only
    rw [(dir_add_entry_rest _ _ _ _).1]
    change ∃ k, 1 ≤ k ∧ k < SFS_INODE_MAX ∧ update (Volume.novo d).imap i true k = false
    by_cases h : i = 1
    · exact ⟨2, by decide, by decide, by rw [update_of_ne (by omega)]; rfl⟩
    · exact ⟨1, by decide, by decide, by rw [update_of_ne (Ne.symm h)]; rfl⟩

end Duas

/-- A directory `a` made twice has two entries in the root. -/
theorem a_mkdir_takes_a_name_twice :
    ¬ ∀ m d, Alcanca (fun _ => True) (fun _ _ c => Curto c.path) m d → Unicos (lido m d) := by
  intro h
  obtain ⟨m, d, ha, hv, hr⟩ := alcanca_vazio (fun _ _ => trivial) fun _ _ c => Curto c.path
  have hc := coeso_novo_volume hr
  have hcam : Caminho [97] := by
    unfold Caminho
    decide
  have hcurto : Curto [97] := by
    unfold Curto
    decide
  obtain ⟨m1, d1, he1, hv1⟩ := hv.chama hc.navegavel (.mkdir [97] 0)
  have ha1 := ha.chama (c := .mkdir [97] 0) hcam hcurto he1
  have hc1 := coeso_mkdir hc [97] 0
  obtain ⟨⟨i, b, e, g, hn⟩, hac, k, hk1, hk, hfree⟩ := primeiro_mkdir hr
  change Vivo m1 d1 ((Volume.novo d).mkdir [97] 0).2 at hv1
  generalize ((Volume.novo d).mkdir [97] 0).2 = v1 at hv1 hc1 g hn hac hfree
  obtain ⟨m2, d2, he2, hv2⟩ := hv1.chama hc1.navegavel (.mkdir [97] 0)
  have ha2 := ha1.chama (c := .mkdir [97] 0) hcam hcurto he2
  have hc2 := coeso_mkdir hc1 [97] 0
  rcases v1.alloc_inode_cases with ⟨hf, _⟩ | ⟨j, _, _, hj, _, hx⟩
  · have := List.find?_eq_none.mp hf k (List.mem_range'_1.mpr ⟨hk1, by
      unfold SFS_INODE_MAX at hk ⊢
      omega⟩)
    simp [hfree] at this
  · obtain ⟨⟨b', e', g', hn'⟩, hficam⟩ := mkdir_entra [97] 0 hc1 (by decide)
      rfl hx hac
    obtain ⟨g2, hn2⟩ := hficam g
    have hnome : nome (v1.mkdir [97] 0).2 0 b e = nome (v1.mkdir [97] 0).2 0 b' e' :=
      hn2.trans (hn.trans hn'.symm)
    have hu := h m2 d2 ha2 ((entrada_lido_iff hv2 hc2).mpr g2) ((entrada_lido_iff hv2 hc2).mpr g')
      ((nome_lido hv2 hc2 g2).trans (hnome.trans (nome_lido hv2 hc2 g').symm))
    obtain ⟨rfl, rfl⟩ := hu
    have hij : i = j := g2.nome.symm.trans g'.nome
    rw [← hij, (hc1.filho g).2.1] at hj
    exact absurd hj (by decide)

end SpaceOS.SpaceFs
