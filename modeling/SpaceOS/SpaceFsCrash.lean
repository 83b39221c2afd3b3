-- A power cut in the middle of a write, a mkdir or an unlink: after the next mount each other file
-- reads the same.
import SpaceOS.SpaceFsCuts

open Lib.Bytes Lib.BlockProg Lib.Ownership SpaceOS.Ata
open Function (update update_self update_of_ne)

namespace SpaceOS.SpaceFs

/-! ## What the other files need -/

/-- Every search in `v` that succeeds, but for one that finds `x`, finds the same in `w`, and the inode
`k` and its data are the same. -/
structure Preserva (v : Volume) (x : Option Nat) (k : Nat) (w : Volume) : Prop where
  navega : ∃ T, Navegavel T w
  entra : ∀ j tok c, j < SFS_INODE_MAX ∧ v.imap j = true → tok ≠ [] → some c ≠ x →
    v.entra j tok = some c → w.entra j tok = some c
  igual : Igual v w k

/-- The inodes in use. -/
def Volume.EmUso (v : Volume) (i : Nat) : Prop := i < SFS_INODE_MAX ∧ v.imap i = true

section Preserva

variable {v w y : Volume} {x : Option Nat} {k i : Nat} {q : List UInt8}

theorem cego_preserva : Cego (Preserva v x k) := by
  intro w y hi hd h
  obtain ⟨T, hT⟩ := h.navega
  have hig : ∀ j, Igual w y j := fun j => ⟨congrFun hi j, fun b _ _ => congrFun hd _⟩
  refine ⟨⟨T, ⟨hT.raiz, hT.lt, ?_, ?_⟩⟩, fun j tok c hj ht hc he => ?_, h.igual.trans (hig k)⟩
  · rw [hi]
    exact hT.bons
  · rw [hi, hd]
    exact hT.filhos
  · rw [(hig j).entra]
    exact h.entra j tok c hj ht hc he

theorem preserva_self (hc : Coeso v) : Preserva v x k v :=
  ⟨⟨_, hc.navegavel⟩, fun _ _ _ _ _ _ h => h, rfl, fun _ _ _ => rfl⟩

/-- From a volume on which only the inode `i` differs. -/
theorem Preserva.menos_um (h : Preserva v x k w) (hk : k ≠ i) (hf : ∀ tok, w.entra i tok = none)
    (hw : ∀ j, v.EmUso j → j ≠ i → Igual w y j) (hku : v.EmUso k) (hn : ∃ T, Navegavel T y) :
    Preserva v x k y := by
  refine ⟨hn, fun j tok c hj ht hc he => ?_, h.igual.trans (hw k hku hk)⟩
  have hj' := h.entra j tok c hj ht hc he
  by_cases hji : j = i
  · rw [hji, hf] at hj'
    cases hj'
  · rw [(hw j hj hji).entra]
    exact hj'

/-- A walk that starts at an inode that no search enters ends there. -/
theorem caminho_preso (hf : ∀ tok, v.entra i tok = none) {toks : List (List UInt8)} {parent r : Nat}
    (h : v.caminho toks i parent = some (k, r)) : k = i := by
  induction toks generalizing parent with
  | nil =>
    cases h
    rfl
  | cons tok toks ih =>
    rw [Volume.caminho] at h
    split at h
    · exact ih h
    · rw [hf] at h
      cases h

/-- The walk to a file stays. -/
theorem Preserva.caminho (hc : Coeso v) (h : Preserva v x k w) (hx : x ≠ some k)
    (hf : ∀ i, x = some i → ∀ tok, v.entra i tok = none) {toks : List (List UInt8)} {cur parent r : Nat}
    (hcur : v.EmUso cur) (hw : v.caminho toks cur parent = some (k, r)) :
    w.caminho toks cur parent = some (k, r) := by
  induction toks generalizing cur parent with
  | nil => exact hw
  | cons tok toks ih =>
    rw [Volume.caminho] at hw ⊢
    split at hw
    · rename_i ht
      rw [if_pos ht]
      exact ih hcur hw
    · rename_i ht
      rw [if_neg ht]
      cases hj : v.entra cur tok with
      | none =>
        rw [hj] at hw
        cases hw
      | some j =>
        rw [hj] at hw
        have hne : some j ≠ x := by
          rintro rfl
          have := caminho_preso (hf j rfl) hw
          rw [this] at hx
          exact hx rfl
        rw [h.entra cur tok j hcur ht hne hj]
        exact ih (hc.navegavel.entra hcur hj) hw

theorem Preserva.read (hc : Coeso v) (h : Preserva v x k w) (hx : x ≠ some k)
    (hf : ∀ i, x = some i → ∀ tok, v.entra i tok = none) {r : Nat}
    (hq : v.resolve q = some (k, r)) (max : Nat) : w.read q max = v.read q max :=
  read_congr hq (h.caminho hc hx hf ⟨by decide, hc.raiz⟩ hq) h.igual max

end Preserva

/-! ## A block with an entry put in or cleared -/

section Blocos

variable {v w : Volume} {dir : Inode} {dblk : Setor} {e i c n : Nat} {name tok : List UInt8}

/-- A search gives the same where the blocks of the directory do. -/
theorem busca_troca {l : List Nat} (h : ∀ b ∈ l, inode_block dir b ≠ 0 → ∀ n,
    busca_bloco (w.dado (inode_block dir b)) tok n = busca_bloco (v.dado (inode_block dir b)) tok n ∧
      ∀ f, busca_bloco (v.dado (inode_block dir b)) tok n = some f →
        dirent_inode (w.dado (inode_block dir b)) f = dirent_inode (v.dado (inode_block dir b)) f) :
    w.busca dir tok l n = v.busca dir tok l n := by
  induction l generalizing n with
  | nil => rfl
  | cons b l ih =>
    rw [Volume.busca, Volume.busca]
    by_cases h0 : inode_block dir b = 0
    · rw [if_pos h0, if_pos h0]
    · obtain ⟨h1, h2⟩ := h b List.mem_cons_self h0 n
      rw [if_neg h0, if_neg h0, h1, ih fun c hc => h c (List.mem_cons_of_mem _ hc)]
      cases hf : busca_bloco (v.dado (inode_block dir b)) tok n with
      | none => rfl
      | some f =>
        dsimp only
        rw [h2 f hf]

/-- The names of the entries in use end in a NUL. -/
def Nomeado (dblk : Setor) : Prop := ∀ f < SFS_DIRENTS_PER_BLK, dirent_inode dblk f ≠ 0 →
  (dblk.slice (32 * f) 32).byte 31 = 0

/-- An entry of another name, put into a free place, changes no search. -/
theorem busca_bloco_por (hn : Nomeado dblk) (he : Volume.vaga dblk = some e) (h0 : 0 ∉ name)
    (hne : tok ≠ name.take SFS_NAME_MAX) (n : Nat) :
    busca_bloco (dirent_por dblk e i name) tok n = busca_bloco dblk tok n ∧
      ∀ f, busca_bloco dblk tok n = some f →
        dirent_inode (dirent_por dblk e i name) f = dirent_inode dblk f := by
  obtain ⟨he16, hvago⟩ := vaga_some _ he
  constructor
  · refine find_congr fun f hf => ?_
    have hf16 : f < SFS_DIRENTS_PER_BLK := by
      have := List.mem_range.mp hf
      omega
    by_cases hfe : f = e
    · subst hfe
      have hnome : dirent_name (dirent_por dblk f i name) f = name.take SFS_NAME_MAX := by
        rw [dirent_name_eq hf16 (nul_dirent_por hf16), nome_dirent_por hf16 h0]
      rw [hnome, hvago]
      simp [Ne.symm hne]
    · rw [dirent_por_ne _ _ _ hf16 hfe]
      by_cases hd : dirent_inode dblk f = 0
      · simp [hd]
      · have hnul := hn f hf16 hd
        have hsl : (dirent_por dblk e i name).slice (32 * f) 32 = dblk.slice (32 * f) 32 :=
          slice_dirent_por_ne hf16 hfe
        rw [dirent_name_eq hf16 (by rw [hsl]; exact hnul), hsl, dirent_name_eq hf16 hnul]
  · intro f hf
    obtain ⟨hf16, _, hd, _⟩ := Volume.busca_bloco_some hf
    refine dirent_por_ne _ _ _ hf16 ?_
    rintro rfl
    exact hd hvago

/-- With an entry cleared, a search that found another one still does. -/
theorem busca_bloco_tira (hn : Nomeado dblk) {f : Nat} (hf : busca_bloco dblk tok n = some f)
    (hfe : f ≠ e) : busca_bloco (dirent_por_inode dblk e 0) tok n = some f := by
  have hkeep : ∀ g < SFS_DIRENTS_PER_BLK, g ≠ e → dirent_inode dblk g ≠ 0 →
      dirent_name (dirent_por_inode dblk e 0) g = dirent_name dblk g := by
    intro g hg hge hd
    have hnul := hn g hg hd
    have hsl : (dirent_por_inode dblk e 0).slice (32 * g) 32 = dblk.slice (32 * g) 32 :=
      slice_dirent_por_inode_ne hge
    rw [dirent_name_eq hg (by rw [hsl]; exact hnul), hsl, dirent_name_eq hg hnul]
  obtain ⟨hf1, hf2, hf3⟩ := List.find?_range_eq_some.mp hf
  obtain ⟨hf16, _, hd, _⟩ := Volume.busca_bloco_some hf
  refine List.find?_range_eq_some.mpr ⟨?_, hf2, fun g hg => ?_⟩
  · rw [dirent_por_inode_ne _ _ hf16 hfe, hkeep f hf16 hfe hd]
    exact hf1
  · have hg16 : g < SFS_DIRENTS_PER_BLK := Nat.lt_trans hg hf16
    by_cases hge : g = e
    · rw [hge, dirent_por_inode_self _ _ (hge ▸ hg16)]
      rfl
    · rw [dirent_por_inode_ne _ _ hg16 hge]
      by_cases hd0 : dirent_inode dblk g = 0
      · simp [hd0]
      · rw [hkeep g hg16 hge hd0]
        exact hf3 g hg

theorem busca_bloco_tira_none (hn : Nomeado dblk) (hf : busca_bloco dblk tok n = none)
    (he : e < SFS_DIRENTS_PER_BLK) : busca_bloco (dirent_por_inode dblk e 0) tok n = none := by
  refine List.find?_eq_none.mpr fun g hg => ?_
  have hg16 : g < SFS_DIRENTS_PER_BLK := by
    have := List.mem_range.mp hg
    omega
  by_cases hge : g = e
  · rw [hge, dirent_por_inode_self _ _ he]
    simp
  · rw [dirent_por_inode_ne _ _ hg16 hge]
    by_cases hd : dirent_inode dblk g = 0
    · simp [hd]
    · have hnul := hn g hg16 hd
      have hsl : (dirent_por_inode dblk e 0).slice (32 * g) 32 = dblk.slice (32 * g) 32 :=
        slice_dirent_por_inode_ne hge
      rw [dirent_name_eq hg16 (by rw [hsl]; exact hnul), hsl, ← dirent_name_eq hg16 hnul]
      exact List.find?_eq_none.mp hf g hg

/-- With an entry of `i` cleared, a search that found another inode still does. -/
theorem busca_tira {s : Nat} (hn : Nomeado (v.dado s)) (he : e < SFS_DIRENTS_PER_BLK)
    (hi : dirent_inode (v.dado s) e = i) {l : List Nat} (h : v.busca dir tok l n = some c) (hci : c ≠ i) :
    (v.por_dado s (dirent_por_inode (v.dado s) e 0)).busca dir tok l n = some c := by
  induction l generalizing n with
  | nil => cases h
  | cons b l ih =>
    rw [Volume.busca] at h ⊢
    split at h
    · cases h
    split at h
    · cases h
    rename_i hn0 hb0
    rw [if_neg hn0, if_neg hb0]
    by_cases hs : inode_block dir b = s
    · have hy : (v.por_dado s (dirent_por_inode (v.dado s) e 0)).dado (inode_block dir b) =
          dirent_por_inode (v.dado s) e 0 := by
        rw [hs]
        exact update_self _ _ _
      rw [hs] at h
      rw [hy]
      cases hf : busca_bloco (v.dado s) tok n with
      | none =>
        rw [hf] at h
        rw [busca_bloco_tira_none hn hf he]
        exact ih h
      | some f =>
        rw [hf] at h
        have hfc : dirent_inode (v.dado s) f = c := Option.some.inj h
        have hfe : f ≠ e := by
          rintro rfl
          exact hci (hfc.symm.trans hi)
        rw [busca_bloco_tira hn hf hfe]
        dsimp only
        rw [dirent_por_inode_ne _ _ (Volume.busca_bloco_some hf).1 hfe, hfc]
    · have hy : (v.por_dado s (dirent_por_inode (v.dado s) e 0)).dado (inode_block dir b) =
          v.dado (inode_block dir b) := update_of_ne hs _ _
      rw [hy]
      cases hf : busca_bloco (v.dado (inode_block dir b)) tok n with
      | none =>
        rw [hf] at h
        exact ih h
      | some f =>
        rw [hf] at h
        exact h

end Blocos

/-! ## The stages of a new file or directory -/

section Cria

variable {v v1 u w : Volume} {p i k t ticks b s e : Nat} {dir' : Inode} {dblk : Setor}
  {name : List UInt8}

/-- The blocks of a directory hold names that end in a NUL. -/
theorem Legivel.nomeado (hl : Legivel v) {j b : Nat} (hj : v.EmUso j) (ht : inode_type (v.ino j) = 2)
    (hb : b < 10) (h0 : inode_block (v.ino j) b ≠ 0) : Nomeado (v.dado (inode_block (v.ino j) b)) :=
  fun _ hf hd => hl.nul ⟨hj.1, hj.2, ht, hb, h0, hf, rfl, hd⟩

/-- The new inode written. -/
theorem preserva_novo (hc : Coeso v) (ha : v.alloc_inode = (some i, v1)) (ht : t = 1 ∨ t = 2)
    (hk : v.EmUso k) : Preserva v none k (v1.por_ino i (inode_novo t ticks)) := by
  have hfree := (alloc_inode_some ha).2.1
  have hne : ∀ {j}, v.EmUso j → j ≠ i := by
    rintro j ⟨-, huj⟩ rfl
    rw [hfree] at huj
    cases huj
  refine ⟨⟨_, (coeso_novo ticks hc ha ht).navegavel⟩, fun j tok c hj _ _ he => ?_, igual_novo ha (hne hk)⟩
  rw [(igual_novo ha (hne hj)).entra]
  exact he

/-- A walk over the volume with the entry written, but not yet its inode. -/
theorem Aberto.navegavel_escrito (hc : Coeso u) (ha : Aberto u p b s dir' dblk w) (hi : u.EmUso i) :
    Navegavel u.EmUso (w.por_dado s (dirent_por dblk e i name)) := by
  have hn := hc.navegavel
  refine ⟨hn.raiz, hn.lt, fun j hj => ?_, fun j hj htj b' hb' h0 f hf hd => ?_⟩
  · change Bons (w.ino j)
    rw [ha.ino_eq]
    exact hn.bons j hj
  · change inode_type (w.ino j) = 2 at htj
    change inode_block (w.ino j) b' ≠ 0 at h0
    change dirent_inode (update w.dado s _ (inode_block (w.ino j) b')) f ≠ 0 at hd
    change u.EmUso (dirent_inode (update w.dado s _ (inode_block (w.ino j) b')) f)
    rw [ha.ino_eq] at htj h0 hd ⊢
    rw [ha.dado_eq] at hd ⊢
    by_cases hs : inode_block (u.ino j) b' = s
    · rw [hs, update_self] at hd ⊢
      by_cases hfe : f = e
      · subst hfe
        rw [dirent_por_self _ _ _ hf, Nat.mod_eq_of_lt (by have := hi.1; unfold SFS_INODE_MAX at this; omega)]
        exact hi
      · rw [dirent_por_ne _ _ _ hf hfe] at hd ⊢
        obtain ⟨-, g2⟩ := ha.antes f hd
        have hfilho := hn.filhos j hj htj b' hb' h0 f hf
        rw [hs, g2] at hfilho
        exact hfilho hd
    · rw [update_of_ne hs] at hd ⊢
      exact hn.filhos j hj htj b' hb' h0 f hf hd

/-- An inode that does not get the entry is the same with the entry written. -/
theorem Aberto.igual_escrito (ha : Aberto u p b s dir' dblk w) (hp : u.EmUso p) (hb : b < 10) {j : Nat}
    (hj : u.EmUso j) (hjp : j ≠ p) : Igual u (w.por_dado s (dirent_por dblk e i name)) j := by
  refine ⟨congrFun ha.ino_eq j, fun b' hb' h0 => ?_⟩
  change update w.dado s _ (inode_block (u.ino j) b') = _
  rw [ha.dado_eq, update_of_ne]
  intro hs
  exact hjp (ha.posse.unique (i := j) (b := b') (j := p) (c := b) (r := s)
    ⟨hj, hb', by rw [update_of_ne hjp]; exact hs, hs ▸ h0⟩
    ⟨hp, hb, by rw [update_self, ha.block_self], hs ▸ h0⟩).1

/-- The directory that gets the entry finds the same other names with it written. -/
theorem Aberto.entra_escrito (hl : Legivel u) (ha : Aberto u p b s dir' dblk w) (hp : u.EmUso p)
    (hb : b < 10) (hv : Volume.vaga dblk = some e) (h0 : 0 ∉ name) {tok : List UInt8}
    (hne : tok ≠ name.take SFS_NAME_MAX) :
    (w.por_dado s (dirent_por dblk e i name)).entra p tok = u.entra p tok := by
  unfold Volume.entra
  change (if inode_type (w.ino p) ≠ 2 then none else Volume.busca _ (w.ino p) tok (List.range 10)
    (inode_size (w.ino p) / 32)) = _
  rw [ha.ino_eq]
  by_cases ht : inode_type (u.ino p) = 2
  · rw [if_neg (not_not.mpr ht), if_neg (not_not.mpr ht)]
    refine busca_troca fun b' hb' h0' n => ?_
    have hb'10 := List.mem_range.mp hb'
    change busca_bloco (update w.dado s _ (inode_block (u.ino p) b')) tok n = _ ∧ ∀ f, _ →
      dirent_inode (update w.dado s _ (inode_block (u.ino p) b')) f = _
    rw [ha.dado_eq]
    by_cases hs : inode_block (u.ino p) b' = s
    · have hbb : b' = b := by
        by_contra hne'
        exact hne' (ha.posse.unique (i := p) (b := b') (j := p) (c := b) (r := s)
          ⟨hp, hb'10, by rw [update_self, ha.block_ne b' hb'10 hne', hs], hs ▸ h0'⟩
          ⟨hp, hb, by rw [update_self, ha.block_self], hs ▸ h0'⟩).2
      subst hbb
      obtain ⟨-, g2⟩ := ha.velho h0'
      have hnome := hl.nomeado hp ht hb h0'
      rw [hs, g2] at hnome
      rw [hs, update_self, g2]
      exact busca_bloco_por hnome hv h0 hne n
    · rw [update_of_ne hs]
      exact ⟨rfl, fun _ _ => rfl⟩
  · rw [if_pos ht, if_pos ht]

/-- A new inode was free, and the others in use stay so. -/
theorem cria_uso (hx : v.cria p name t ticks = (some i, w)) :
    v.imap i = false ∧ ∀ j, v.EmUso j → w.EmUso j := by
  unfold Volume.cria at hx
  rcases ha : v.alloc_inode with ⟨_ | j, v1⟩
  · rw [ha] at hx
    cases hx
  · rw [ha] at hx
    cases hx
    obtain ⟨-, hfree, himap, -⟩ := alloc_inode_some ha
    refine ⟨hfree, fun j hj => ⟨hj.1, ?_⟩⟩
    rw [(dir_add_entry_rest _ _ _ _).1]
    change v1.imap j = true
    have hji : j ≠ i := by
      rintro rfl
      rw [hj.2] at hfree
      cases hfree
    rw [himap, update_of_ne hji]
    exact hj.2

/-- Without a free inode nothing is made. -/
theorem cria_sem_inode (hx : v.cria p name t ticks = (none, w)) : w = v := by
  unfold Volume.cria at hx
  rcases v.alloc_inode_cases with ⟨_, he⟩ | ⟨j, _, _, _, _, he⟩ <;> rw [he] at hx <;> cases hx
  rfl

/-- A new file or directory. -/
theorem preserva_cria (hc : Coeso v) (hl : Legivel v) {path : List UInt8} (hp0 : 0 ∉ path)
    (hp : v.parent_find (path_split path).1 = some p) (hs : CabeNoTamanho v p) (hin : Inedita v path)
    (ht : t = 1 ∨ t = 2) (hk : v.EmUso k) (htk : inode_type (v.ino k) = 1)
    (hx : v.cria p (path_split path).2 t ticks = (some i, w)) : Preserva v none k w := by
  have hpu : v.EmUso p := hc.navegavel.parent_find hp
  obtain ⟨l1, l2⟩ := cria_leva hc hl hp0 hp hs hin ht hx
  have hcc := (coeso_cria hc hpu.1 hpu.2 (path_split path).2 ht ticks).1
  rw [hx] at hcc
  exact ⟨⟨_, hcc.navegavel⟩, fun j tok c hj htok _ hej => (l1 j tok c hj htok hej).1,
    (l2 k hk.1 hk.2 htk).1⟩

/-- The entry written, and the inode of its directory after it. -/
theorem preserva_entrou (hc : Coeso v) (hl : Legivel v) {path : List UInt8} (hp0 : 0 ∉ path)
    (hp : v.parent_find (path_split path).1 = some p) (hs : CabeNoTamanho v p) (hin : Inedita v path)
    (ha : v.alloc_inode = (some i, v1)) (ht : t = 1 ∨ t = 2) (hk : v.EmUso k)
    (htk : inode_type (v.ino k) = 1) (hu : v1.por_ino i (inode_novo t ticks) = u) (hb : b < 10)
    (hx : u.abre_bloco (u.ino p) b = (some (s, dir', dblk), w)) (hv : Volume.vaga dblk = some e)
    (he : u.dir_add_entry p i (path_split path).2 =
      (true, w.entrou p s dir' dblk e i (path_split path).2)) :
    Preserva v none k (w.por_dado s (dirent_por dblk e i (path_split path).2)) ∧
      Preserva v none k (w.entrou p s dir' dblk e i (path_split path).2) := by
  subst hu
  obtain ⟨⟨h1, hi⟩, hfree, himap, _⟩ := alloc_inode_some ha
  have hpu : v.EmUso p := hc.navegavel.parent_find hp
  have hd := hin p hp ⟨i, h1, hi, hfree⟩
  have hne : ∀ {j}, v.EmUso j → j ≠ i := by
    rintro j ⟨-, huj⟩ rfl
    rw [hfree] at huj
    cases huj
  have huso : ∀ {j}, v.EmUso j → (v1.por_ino i (inode_novo t ticks)).EmUso j := by
    intro j hj
    refine ⟨hj.1, ?_⟩
    change v1.imap j = true
    rw [himap, update_of_ne (hne hj)]
    exact hj.2
  have hui : (v1.por_ino i (inode_novo t ticks)).EmUso i := by
    refine ⟨hi, ?_⟩
    change v1.imap i = true
    rw [himap, update_self]
  have hcu := coeso_novo ticks hc ha ht
  have hlu : Legivel (v1.por_ino i (inode_novo t ticks)) := legivel_novo hc hl ha
  have hab := coeso_abre_bloco hcu hpu.1 (huso hpu).2 hb hx
  have hnovo : Preserva v none k (v1.por_ino i (inode_novo t ticks)) := preserva_novo hc ha ht hk
  have hkp : k ≠ p := by
    rintro rfl
    rw [htk] at hd
    exact absurd hd.1 (by decide)
  have h0 := zero_nao_no_nome hp0
  constructor
  · refine ⟨⟨_, hab.navegavel_escrito hcu hui⟩, fun j tok c hj htok hx' hej => ?_,
      hnovo.igual.trans (hab.igual_escrito (huso hpu) hb (huso hk) hkp)⟩
    have hej' := hnovo.entra j tok c hj htok hx' hej
    by_cases hjp : j = p
    · subst hjp
      have hdif : tok ≠ (path_split path).2.take SFS_NAME_MAX := by
        rintro rfl
        rcases hd.2 with hnil | hnone
        · rw [hnil] at htok
          exact htok rfl
        · rw [hnone] at hej
          cases hej
      rw [hab.entra_escrito hlu (huso hpu) hb hv h0 hdif]
      exact hej'
    · rw [(hab.igual_escrito (huso hpu) hb (huso hj) hjp).entra]
      exact hej'
  · have hcria : v.cria p (path_split path).2 t ticks =
        (some i, w.entrou p s dir' dblk e i (path_split path).2) := by
      unfold Volume.cria
      rw [ha]
      dsimp only
      rw [he]
    exact preserva_cria hc hl hp0 hp hs hin ht hk htk hcria

/-- A new inode and its entry, on the disk. -/
theorem aguenta_nomeia (hc : Coeso v) (hl : Legivel v) {path : List UInt8} (hp0 : 0 ∉ path)
    (hp : v.parent_find (path_split path).1 = some p) (hs : CabeNoTamanho v p) (hin : Inedita v path)
    (ha : v.alloc_inode = (some i, v1)) (ht : t = 1 ∨ t = 2) (hk : v.EmUso k)
    (htk : inode_type (v.ino k) = 1) {α : Type} {f : S α}
    (hf : Aguenta (Preserva v none k) f
      ((v1.por_ino i (inode_novo t ticks)).dir_add_entry p i (path_split path).2).2) :
    Aguenta (Preserva v none k) (do
      let _ ← inode_write i (inode_novo t ticks)
      let _ ← dir_add_entry p i (path_split path).2
      f) v1 := by
  obtain ⟨⟨h1, hi⟩, hfree, himap, _⟩ := alloc_inode_some ha
  have hpu : v.EmUso p := hc.navegavel.parent_find hp
  have hpi : p ≠ i := by
    rintro rfl
    rw [hpu.2] at hfree
    cases hfree
  have hJ1 : Preserva v none k v1 := by
    have := cego_alloc_inode cego_preserva (preserva_self (x := none) (k := k) hc)
    rwa [ha] at this
  have hJu : Preserva v none k (v1.por_ino i (inode_novo t ticks)) := preserva_novo hc ha ht hk
  have hcu := coeso_novo ticks hc ha ht
  have hpu' : (v1.por_ino i (inode_novo t ticks)).imap p = true := by
    change v1.imap p = true
    rw [himap, update_of_ne hpi]
    exact hpu.2
  have hb : Bons ((v1.por_ino i (inode_novo t ticks)).ino p) := hcu.navegavel.bons p ⟨hpu.1, hpu'⟩
  refine (aguenta_inode_write hi _ hJ1 hJu).bind (refina_inode_write hi _).lift ?_
  refine (aguenta_dir_add_entry cego_preserva hpu.1 hb hJu fun b hb s dir' dblk w e hx hv he => ?_).bind
    ((anota_dir_add_entry hpu.1 hb i _).refina (Anotado.forgets_dir_add_entry _ _ _)) hf
  exact preserva_entrou hc hl hp0 hp hs hin ha ht hk htk rfl hb hx hv he

end Cria

/-! ## The stages of a write -/

section Enche

variable {v u w y : Volume} {x : Option Nat} {i k : Nat} {buf : List UInt8}

/-- The inodes and the data in use are the same. -/
def Iguais (v w : Volume) : Prop := w.ino = v.ino ∧ ∀ j, v.EmUso j → Igual v w j

theorem navegavel_iguais (hc : Coeso v) (h : Iguais v w) : Navegavel v.EmUso w := by
  have hn := hc.navegavel
  refine ⟨hn.raiz, hn.lt, fun j hj => ?_, fun j hj htj b hb h0 e he hd => ?_⟩
  · rw [h.1]
    exact hn.bons j hj
  · rw [h.1] at htj h0 hd ⊢
    have hdado := (h.2 j hj).dado b hb h0
    rw [hdado] at hd ⊢
    exact hn.filhos j hj htj b hb h0 e he hd

theorem Preserva.iguais (hc : Coeso w) (h : Preserva v x k w) (hu : ∀ j, v.EmUso j → w.EmUso j)
    (hk : v.EmUso k) (hi : Iguais w y) : Preserva v x k y := by
  refine ⟨⟨_, navegavel_iguais hc hi⟩, fun j tok c hj htok hx he => ?_,
    h.igual.trans (hi.2 k (hu k hk))⟩
  rw [(hi.2 j (hu j hj)).entra]
  exact h.entra j tok c hj htok hx he

/-- Data put into a sector without an owner. -/
theorem Iguais.por_dado (hc : Coeso v) {s : Nat} (hs : Livre v s) (h : Iguais v w) (b : Setor) :
    Iguais v (w.por_dado s b) := by
  refine ⟨h.1, fun j hj => ⟨(h.2 j hj).ino, fun b' hb' h0 => ?_⟩⟩
  change update w.dado s b (inode_block (v.ino j) b') = _
  rw [update_of_ne]
  · exact (h.2 j hj).dado b' hb' h0
  · rintro hsj
    obtain ⟨n, hn, rfl, hfree⟩ := hs
    have hm := (hc.posse.mark_of_holds (i := j) ⟨hj, hb', rfl, h0⟩).2
    rw [hsj, Nat.add_sub_cancel_left, hfree] at hm
    cases hm

theorem entra_sem_blocos (hz : inode_block (v.ino i) 0 = 0) (tok : List UInt8) :
    v.entra i tok = none := by
  have hl : List.range 10 = 0 :: List.range' 1 9 := rfl
  unfold Volume.entra
  split
  · rfl
  · rw [hl, Volume.busca]
    simp [hz]

/-- The data of a write, on the disk. -/
theorem aguenta_enche (hc : Coeso u) (hi : u.EmUso i) (hz : ∀ b < 10, inode_block (u.ino i) b = 0)
    (ht : inode_type (u.ino i) ≠ 2 ∨ buf = []) (h : Preserva v x k u)
    (hu : ∀ j, v.EmUso j → u.EmUso j) (hk : v.EmUso k) (hki : k ≠ i) :
    Aguenta (Preserva v x k) (do
      let in_ := (← inode_read i).getD ByteStr.zero
      let (in_, done) ← write_laco buf (List.range 10) (inode_por_size in_ buf.length) 0
      let _ ← inode_write i in_
      pure (some done)) u := by
  have hfim : Preserva v x k (u.enche i buf).2 := by
    refine h.menos_um hki (entra_sem_blocos (hz 0 (by decide))) (fun j hj hji => ?_) hk
      ⟨_, (coeso_enche hc hi.1 hi.2 hz ht).navegavel⟩
    exact igual_enche hc (hu j hj).1 (hu j hj).2 hji
  have hcego : Cego (Iguais u) := by
    intro a b h1 h2 hab
    refine ⟨h1.trans hab.1, fun j hj => ⟨?_, fun b' hb' h0 => ?_⟩⟩
    · rw [h1]
      exact (hab.2 j hj).ino
    · rw [h2]
      exact (hab.2 j hj).dado b' hb' h0
  have hself : Iguais u u := ⟨rfl, fun _ _ => ⟨rfl, fun _ _ _ => rfl⟩⟩
  refine (aguenta_le (reads_inode_read i) h).bind (refina_inode_read hi.1).lift ?_
  have hlaco : Aguenta (Iguais u) (write_laco buf (List.range 10) (inode_por_size (u.ino i) buf.length) 0) u :=
    aguenta_write_laco hcego _ _ _ hself fun w s b hs hw => hw.por_dado hc hs b
  have href := (anota_write_laco buf (List.range 10) (inode_por_size (u.ino i) buf.length) 0 u).refina
    (Anotado.forgets_write_laco _ _ _ _)
  refine (hlaco.mono fun w hw => h.iguais hc hu hk hw).bind href ?_
  have hw := escrito_write_laco buf (fun b hb => List.mem_range.mp hb)
    (inode_por_size (u.ino i) buf.length) 0 u
  have higuais : Iguais u (Volume.write_laco buf (List.range 10)
      (inode_por_size (u.ino i) buf.length) 0 u).2 :=
    ⟨hw.ino_eq, fun j hj => ⟨congrFun hw.ino_eq j, fun b hb h0 =>
      hw.dado_eq _ (hc.posse.mark_of_holds (i := j) ⟨hj, hb, rfl, h0⟩)⟩⟩
  exact (aguenta_inode_write hi.1 _ (h.iguais hc hu hk higuais) hfim).bind
    (refina_inode_write hi.1 _).lift (.pure _ hfim)

end Enche

/-! ## The calls -/

section Chamadas

variable {v : Volume} {k : Nat} {path buf : List UInt8}

/-- The blocks of another file given back. -/
theorem preserva_esvazia {i : Nat} (hc : Coeso v) (hi : v.EmUso i) (hsem : ∀ b e c, ¬ Entrada v i b e c)
    (hk : v.EmUso k) (hki : k ≠ i) : Preserva v none k (v.esvazia i) := by
  refine (preserva_self hc).menos_um hki (fun tok => ?_) (fun j _ hji => igual_esvazia hji) hk
    ⟨_, (coeso_esvazia hc hi.1 hi.2).navegavel⟩
  cases he : v.entra i tok with
  | none => rfl
  | some c =>
    obtain ⟨b, e, g⟩ := entra_entrada hi he
    exact absurd g (hsem b e c)

/-- The inode for a write, on the disk. -/
theorem aguenta_write_inode (hc : Coeso v) (hl : Legivel v) (hp0 : 0 ∉ path) (ticks : Nat) {parent : Nat}
    (hp : v.parent_find (path_split path).1 = some parent)
    (hd : ∀ j s, v.resolve path = some (j, s) → (∀ b e c, ¬ Entrada v j b e c) ∧ k ≠ j)
    (hn : v.resolve path = none → Inedita v path ∧ CabeNoTamanho v parent) (hk : v.EmUso k)
    (htk : inode_type (v.ino k) = 1) :
    Aguenta (Preserva v none k) (write_inode path parent (path_split path).2 ticks) v := by
  have hJ : Preserva v none k v := preserva_self hc
  unfold write_inode
  refine (aguenta_path_find path hJ).bind (refina_path_find hc.navegavel path) ?_
  dsimp only
  rcases hr : v.resolve path with _ | ⟨i, q⟩
  · obtain ⟨hin, hs⟩ := hn hr
    dsimp only
    refine (aguenta_alloc_inode hJ).bind (refina_alloc_inode v) ?_
    have hJ1 := cego_alloc_inode cego_preserva hJ
    rcases ha : v.alloc_inode with ⟨_ | i, v1⟩
    · rw [ha] at hJ1
      exact .pure _ hJ1
    · have hx : v.cria parent (path_split path).2 1 ticks = (some i,
          ((v1.por_ino i (inode_novo 1 ticks)).dir_add_entry parent i (path_split path).2).2) := by
        unfold Volume.cria
        rw [ha]
      exact aguenta_nomeia hc hl hp0 hp hs hin ha (Or.inl rfl) hk htk (f := pure (some i))
        (.pure _ (preserva_cria hc hl hp0 hp hs hin (Or.inl rfl) hk htk hx))
  · obtain ⟨hsem, hki⟩ := hd i q hr
    have hi : v.EmUso i := (hc.navegavel.resolve hr).1
    have hb := hc.navegavel.bons i hi
    have hl10 : ∀ b ∈ List.range 10, b < 10 := fun b hb => List.mem_range.mp hb
    obtain ⟨-, hino, hdado⟩ := free_blocks_of_rest (v.ino i) (List.range 10) v
    have hJ1 : Preserva v none k (Volume.free_blocks_of (v.ino i) (List.range 10) v) :=
      cego_preserva hino hdado hJ
    have hJ2 := preserva_esvazia hc hi hsem hk hki
    refine (aguenta_le (reads_inode_read i) hJ).bind (refina_inode_read hi.1).lift ?_
    refine (aguenta_free_blocks cego_preserva hb hl10 hJ).bind
      ((anota_free_blocks hb hl10 v).refina (Anotado.forgets_free_blocks _ _)) ?_
    exact (aguenta_inode_write hi.1 _ hJ1 hJ2).bind (refina_inode_write hi.1 _).lift (.pure _ hJ2)

/-- A write to another file, or of a new one. -/
theorem aguenta_spfs_write (hc : Coeso v) (hl : Legivel v) (hp0 : 0 ∉ path) (ticks : Nat)
    (hd : ∀ j s, v.resolve path = some (j, s) → inode_type (v.ino j) = 2 →
      buf = [] ∧ ∀ b e c, ¬ Entrada v j b e c)
    (hn : v.resolve path = none → buf.length ≤ 10 * 512 → Inedita v path ∧
      ∀ p, v.parent_find (path_split path).1 = some p → CabeNoTamanho v p)
    (hk : v.EmUso k) (htk : inode_type (v.ino k) = 1) (hne : ∀ s, v.resolve path ≠ some (k, s)) :
    Aguenta (Preserva v none k) (spfs_write path buf ticks) v := by
  have hJ : Preserva v none k v := preserva_self hc
  have hnav := hc.navegavel
  apply Aguenta.get
  intro fs hok _
  rw [hok]
  by_cases hlen : 10 * 512 < buf.length
  · rw [if_pos (by simp [hlen])]
    exact .pure _ hJ
  rw [if_neg (by simpa using hlen)]
  refine (aguenta_parent_find hnav _ hJ).bind
    ((anota_parent_find hnav _).refina (Anotado.forgets_parent_find _)) ?_
  dsimp only
  cases hp : v.parent_find (path_split path).1 with
  | none => exact .pure _ hJ
  | some parent =>
    have hpu : v.EmUso parent := hnav.parent_find hp
    have hd' : ∀ j s, v.resolve path = some (j, s) → (∀ b e c, ¬ Entrada v j b e c) ∧ k ≠ j := by
      intro j s hr
      refine ⟨fun b e c g => (hd j s hr g.dir).2 b e c g, ?_⟩
      rintro rfl
      exact hne s hr
    have hn' : v.resolve path = none → Inedita v path ∧ CabeNoTamanho v parent := fun hr =>
      have h := hn hr (by omega)
      ⟨h.1, h.2 parent hp⟩
    dsimp only
    refine (aguenta_write_inode hc hl hp0 ticks hp hd' hn' hk htk).bind
      ((anota_write_inode hnav path hpu _ ticks).refina (Anotado.forgets_write_inode _ _ _ _)) ?_
    unfold Volume.write_inode
    cases hr : v.resolve path with
    | none =>
      obtain ⟨hin, hs⟩ := hn' hr
      obtain ⟨g1, g2⟩ := coeso_cria hc hpu.1 hpu.2 (path_split path).2 (t := 1) (Or.inl rfl) ticks
      dsimp only
      rcases hx : v.cria parent (path_split path).2 1 ticks with ⟨_ | i, w⟩
      · rw [cria_sem_inode hx]
        exact .pure _ hJ
      · obtain ⟨hi, hu, hino⟩ := g2 i (by rw [hx])
        rw [hx] at g1 hu hino
        obtain ⟨hfree, hmono⟩ := cria_uso hx
        have hki : k ≠ i := by
          rintro rfl
          rw [hk.2] at hfree
          cases hfree
        refine aguenta_enche g1 ⟨hi, hu⟩ (fun b hb => ?_) (Or.inl ?_)
          (preserva_cria hc hl hp0 hp hs hin (Or.inl rfl) hk htk hx) hmono hk hki
        · rw [hino, block_novo _ _ hb]
        · rw [hino, type_novo]
          decide
    | some x =>
      obtain ⟨i, q⟩ := x
      obtain ⟨hsem, hki⟩ := hd' i q hr
      have hi : v.EmUso i := (hnav.resolve hr).1
      have himap := (esvazia_rest v i).1
      have hmono : ∀ j, v.EmUso j → (v.esvazia i).EmUso j := fun j hj =>
        ⟨hj.1, by rw [himap]; exact hj.2⟩
      refine aguenta_enche (coeso_esvazia hc hi.1 hi.2) (hmono i hi) (fun b hb => esvazia_block b hb) ?_
        (preserva_esvazia hc hi hsem hk hki) hmono hk hki
      by_cases ht : inode_type (v.ino i) = 2
      · exact Or.inr (hd i q hr ht).1
      · exact Or.inl (by rwa [esvazia_type])

theorem aguenta_spfs_mkdir (hc : Coeso v) (hl : Legivel v) (hp0 : 0 ∉ path) (ticks : Nat)
    (hin : Inedita v path)
    (hs : ∀ p, v.parent_find (path_split path).1 = some p → CabeNoTamanho v p)
    (hk : v.EmUso k) (htk : inode_type (v.ino k) = 1) :
    Aguenta (Preserva v none k) (spfs_mkdir path ticks) v := by
  have hJ : Preserva v none k v := preserva_self hc
  have hnav := hc.navegavel
  apply Aguenta.get
  intro fs hok _
  rw [hok]
  refine (aguenta_parent_find hnav _ hJ).bind
    ((anota_parent_find hnav _).refina (Anotado.forgets_parent_find _)) ?_
  dsimp only
  cases hp : v.parent_find (path_split path).1 with
  | none => exact .pure _ hJ
  | some parent =>
    dsimp only
    refine (aguenta_alloc_inode hJ).bind (refina_alloc_inode v) ?_
    have hJ1 := cego_alloc_inode cego_preserva hJ
    rcases ha : v.alloc_inode with ⟨_ | i, v1⟩
    · rw [ha] at hJ1
      exact .pure _ hJ1
    · have hx : v.cria parent (path_split path).2 2 ticks = (some i,
          ((v1.por_ino i (inode_novo 2 ticks)).dir_add_entry parent i (path_split path).2).2) := by
        unfold Volume.cria
        rw [ha]
      exact aguenta_nomeia hc hl hp0 hp (hs parent hp) hin ha (Or.inr rfl) hk htk (f := pure true)
        (.pure _ (preserva_cria hc hl hp0 hp (hs parent hp) hin (Or.inr rfl) hk htk hx))

/-- The inode that is taken out of use, on the disk. -/
theorem preserva_apaga {i : Nat} (hc : Coeso v) (hi : v.EmUso i) (hsem : ∀ tok, v.entra i tok = none)
    (hk : v.EmUso k) (hki : k ≠ i) : Preserva v (some i) k (v.apaga i) := by
  obtain ⟨-, hino, hdado, -⟩ := apaga_rest v i
  have hn := hc.navegavel
  refine (preserva_self hc).menos_um hki hsem (fun j _ hji => ⟨?_, fun b _ _ => by rw [hdado]⟩) hk
    ⟨v.EmUso, hn.raiz, hn.lt, fun j hj => ?_, fun j hj htj b hb h0 e he hd => ?_⟩
  · rw [hino, update_of_ne hji]
  · rw [hino]
    by_cases hji : j = i
    · rw [hji, update_self]
      exact (hn.bons i hi).por_type 0
    · rw [update_of_ne hji]
      exact hn.bons j hj
  · have hji : j ≠ i := by
      rintro rfl
      rw [hino, update_self, type_por_type] at htj
      exact absurd htj (by decide)
    rw [hino, update_of_ne hji] at htj h0 hd ⊢
    rw [hdado] at hd ⊢
    exact hn.filhos j hj htj b hb h0 e he hd

/-- Its entry cleared. -/
theorem preserva_tira {i p b e : Nat} (hc : Coeso v) (hl : Legivel v) (hi : v.EmUso i)
    (hsem : ∀ tok, v.entra i tok = none) (hk : v.EmUso k) (hki : k ≠ i)
    (htk : inode_type (v.ino k) = 1) (hp : v.EmUso p) (htp : inode_type (v.ino p) = 2) (hb : b < 10)
    (h0 : inode_block (v.ino p) b ≠ 0) (he : e < SFS_DIRENTS_PER_BLK)
    (hei : dirent_inode (v.dado (inode_block (v.ino p) b)) e = i) :
    Preserva v (some i) k (v.apagou i p b e) := by
  obtain ⟨-, hino, hdado, -⟩ := apaga_rest v i
  have hw := preserva_apaga hc hi hsem hk hki
  have hn := hc.navegavel
  have hy : (v.apagou i p b e).dado = update v.dado (inode_block (v.ino p) b)
      (dirent_por_inode (v.dado (inode_block (v.ino p) b)) e 0) := by
    change update (v.apaga i).dado _ _ = _
    rw [hdado]
  refine ⟨⟨v.EmUso, hn.raiz, hn.lt, fun j hj => ?_, fun j hj htj b' hb' h0' f hf hd => ?_⟩,
    fun j tok c hj htok hne hx => ?_, hw.igual.ino, fun b' hb' h0' => ?_⟩
  · change Bons ((v.apaga i).ino j)
    rw [hino]
    by_cases hji : j = i
    · rw [hji, update_self]
      exact (hn.bons i hi).por_type 0
    · rw [update_of_ne hji]
      exact hn.bons j hj
  · change inode_type ((v.apaga i).ino j) = 2 at htj
    change inode_block ((v.apaga i).ino j) b' ≠ 0 at h0'
    change dirent_inode ((v.apagou i p b e).dado (inode_block ((v.apaga i).ino j) b')) f ≠ 0 at hd
    change v.EmUso (dirent_inode ((v.apagou i p b e).dado (inode_block ((v.apaga i).ino j) b')) f)
    have hji : j ≠ i := by
      rintro rfl
      rw [hino, update_self, type_por_type] at htj
      exact absurd htj (by decide)
    rw [hino, update_of_ne hji] at htj h0' hd ⊢
    rw [hy] at hd ⊢
    have hfilho := hn.filhos j hj htj b' hb' h0' f hf
    by_cases hs : inode_block (v.ino j) b' = inode_block (v.ino p) b
    · rw [hs, update_self] at hd ⊢
      by_cases hfe : f = e
      · rw [hfe, dirent_por_inode_self _ _ he] at hd
        exact absurd rfl hd
      · rw [dirent_por_inode_ne _ _ hf hfe] at hd ⊢
        rw [hs] at hfilho
        exact hfilho hd
    · rw [update_of_ne hs] at hd ⊢
      exact hfilho hd
  · have hci : c ≠ i := fun hci => hne (congrArg some hci)
    have hx' := hw.entra j tok c hj htok hne hx
    obtain ⟨ht, hbusca⟩ := Volume.entra_busca hx'
    unfold Volume.entra
    change (if inode_type ((v.apaga i).ino j) ≠ 2 then none else Volume.busca _ ((v.apaga i).ino j) tok
      (List.range 10) (inode_size ((v.apaga i).ino j) / 32)) = _
    rw [if_neg (not_not.mpr ht)]
    have hnome := hl.nomeado hp htp hb h0
    unfold Volume.apagou
    rw [← hdado] at hnome hei ⊢
    exact busca_tira hnome he hei hbusca hci
  · rw [hy, update_of_ne]
    intro hs
    have hkp := (hc.posse.unique (i := k) (b := b') (j := p) (c := b) (r := inode_block (v.ino p) b)
      ⟨hk, hb', hs, h0⟩ ⟨hp, hb, rfl, h0⟩).1
    rw [hkp, htp] at htk
    exact absurd htk (by decide)

/-- The bit of an inode and the count of the free ones. -/
theorem aguenta_free_inode {J : Volume → Prop} {α : Type} {f : S α} {i : Nat} (hJ : J v)
    (hf : Aguenta J f (v.free_inode i)) :
    Aguenta J (do
      modify fun s => { s with imap := bm_clr s.imap i }
      let _ ← sfs_write_sec SFS_IMAP_SEC (← get).imap
      modify fun s => { s with sb := s.sb.putWord 20 (super_free_inodes s.sb + 1) }
      let _ ← sfs_write_sec SFS_SUPER_SEC (← get).sb
      f) v := by
  intro fs d hr hm
  have hclr : ∀ j < SFS_INODE_MAX, bm_test (bm_clr fs.imap i) j = update v.imap i false j := by
    intro j hj
    rw [bm_test_clr (by simp only [SFS_INODE_MAX, BMAP_BITS_eq] at *; omega), hr.imap j hj]
    by_cases hij : i = j
    · rw [hij, update_self]
      simp
    · rw [update_of_ne (Ne.symm hij)]
      simp [hij]
  have hr' := hr.por_imap hclr (super_free_inodes fs.sb + 1)
  have hm' : super_magic (fs.sb.putWord 20 (super_free_inodes fs.sb + 1)) = SFS_MAGIC := by
    rw [← hm]
    exact fs.sb.word_putWord_ne _ (by omega) (by decide)
  have hv := hr.visto hm hJ
  apply Survives.write_bind hv
  apply Survives.write_bind (hv.bitmap (Or.inl rfl) _)
  refine hf _ _ ?_ hm'
  rw [Volume.free_inode, ← hr.free_inodes]
  exact hr'

/-- An unlink of another file, or of an empty directory. -/
theorem aguenta_spfs_unlink (hc : Coeso v) (hl : Legivel v)
    (hd : ∀ i p, v.resolve path = some (i, p) → i ≠ 0 ∧ k ≠ i ∧ ∀ b e c, ¬ Entrada v i b e c)
    (hk : v.EmUso k) (htk : inode_type (v.ino k) = 1) :
    Aguenta (Preserva v ((v.resolve path).map Prod.fst) k) (spfs_unlink path) v := by
  have hnav := hc.navegavel
  have hJ : Preserva v ((v.resolve path).map Prod.fst) k v := preserva_self hc
  apply Aguenta.get
  intro fs hok _
  rw [hok]
  refine (aguenta_path_find path hJ).bind (refina_path_find hnav path) ?_
  dsimp only
  rcases hr : v.resolve path with _ | ⟨i, p⟩
  · rw [hr] at hJ
    exact .pure _ hJ
  obtain ⟨hi0, hki, hsem'⟩ := hd i p hr
  obtain ⟨b0, e0, g, hun⟩ := unlink_some hc hr hi0
  have hi : v.EmUso i := (hnav.resolve hr).1
  have hp : v.EmUso p := ⟨g.lt, g.uso⟩
  have hpi : p ≠ i := (hc.filho g).2.2.symm
  have hsem : ∀ tok, v.entra i tok = none := by
    intro tok
    cases he : v.entra i tok with
    | none => rfl
    | some c =>
      obtain ⟨b, e, g'⟩ := entra_entrada hi he
      exact absurd g' (hsem' b e c)
  rw [hr] at hJ
  change Preserva v (some i) k v at hJ
  change Aguenta (Preserva v (some i) k) _ v
  have hb := hnav.bons i hi
  have hl10 : ∀ b ∈ List.range 10, b < 10 := fun b hb => List.mem_range.mp hb
  obtain ⟨-, hino, hdado⟩ := free_blocks_of_rest (v.ino i) (List.range 10) v
  have hJ1 : Preserva v (some i) k (Volume.free_blocks_of (v.ino i) (List.range 10) v) :=
    cego_preserva hino hdado hJ
  have hJ3 := preserva_apaga hc hi hsem hk hki
  have hJ2 : Preserva v (some i) k ((Volume.free_blocks_of (v.ino i) (List.range 10) v).por_ino i
      (inode_por_type (v.ino i) 0)) := by
    have hcego : Cego (Preserva v (some i) k) := cego_preserva
    exact @hcego (v.apaga i) _ rfl rfl hJ3
  obtain ⟨-, haino, hadado, -⟩ := apaga_rest v i
  have hpino : (v.apaga i).ino p = v.ino p := by
    rw [haino, update_of_ne hpi]
  refine (aguenta_le (reads_inode_read i) hJ).bind (refina_inode_read hi.1).lift ?_
  refine (aguenta_free_blocks cego_preserva hb hl10 hJ).bind
    ((anota_free_blocks hb hl10 v).refina (Anotado.forgets_free_blocks _ _)) ?_
  refine (aguenta_inode_write hi.1 _ hJ1 hJ2).bind (refina_inode_write hi.1 _).lift ?_
  refine aguenta_free_inode hJ2 ?_
  refine (aguenta_le (reads_inode_read p) hJ3).bind (refina_inode_read (v := v.apaga i) hp.1).lift ?_
  dsimp only
  rw [hpino]
  have hbp : Bons (v.ino p) := hnav.bons p hp
  have htira : ∀ b ∈ List.range 10, ∀ e < SFS_DIRENTS_PER_BLK, inode_block (v.ino p) b ≠ 0 →
      dirent_inode ((v.apaga i).dado (inode_block (v.ino p) b)) e = i →
      Preserva v (some i) k ((v.apaga i).por_dado (inode_block (v.ino p) b)
        (dirent_por_inode ((v.apaga i).dado (inode_block (v.ino p) b)) e 0)) := by
    intro b hb e he h0 hei
    rw [hadado] at hei ⊢
    exact preserva_tira hc hl hi hsem hk hki htk hp g.dir (hl10 b hb) h0 he hei
  refine (aguenta_dir_remove hbp hl10 hJ3 htira).bind (refina_dir_remove hbp i hl10 _).lift ?_
  have hfim : Volume.dir_remove (v.ino p) i (List.range 10) (v.apaga i) = v.apagou i p b0 e0 := by
    rw [← hun]
    unfold Volume.unlink
    rw [hr]
    dsimp only
    rw [hpino]
  dsimp only
  rw [hfim]
  exact .pure _ (preserva_tira hc hl hi hsem hk hki htk hp g.dir g.lugar g.bloco g.vez g.nome)

end Chamadas

end SpaceOS.SpaceFs
