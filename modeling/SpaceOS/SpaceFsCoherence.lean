-- What holds of a SpaceFS volume between two calls: each data sector has one owner, and each
-- entry of a directory names an inode in use that no other entry names. A write to a file, a
-- mkdir and an unlink below the root keep it.
import SpaceOS.SpaceFsOwnership

open Lib.Bytes Lib.Ownership SpaceOS.Ata
open Function (update update_self update_of_ne)

namespace SpaceOS.SpaceFs

/-! ## Entries -/

section Dirents

variable (dblk : Setor) {e f : Nat} (c : Nat) (name : List UInt8)

theorem dirent_por_self (he : e < SFS_DIRENTS_PER_BLK) :
    dirent_inode (dirent_por dblk e c name) e = c % 2 ^ 32 := by
  simp only [SFS_DIRENTS_PER_BLK] at he
  unfold dirent_inode dirent_por
  rw [ByteStr.word_splice_ne _ _ (Or.inl (by omega)) (by simp only [SETOR_SIZE]; omega),
    ByteStr.word_putWord_self _ _ (by simp only [SETOR_SIZE]; omega)]

theorem dirent_por_ne (hf : f < SFS_DIRENTS_PER_BLK) (h : f ≠ e) :
    dirent_inode (dirent_por dblk e c name) f = dirent_inode dblk f := by
  simp only [SFS_DIRENTS_PER_BLK] at hf
  unfold dirent_inode dirent_por
  rw [ByteStr.word_splice_ne _ _ (by omega) (by simp only [SETOR_SIZE]; omega),
    ByteStr.word_putWord_ne _ _ (by omega) (by simp only [SETOR_SIZE]; omega)]

theorem dirent_por_inode_self (he : e < SFS_DIRENTS_PER_BLK) :
    dirent_inode (dirent_por_inode dblk e c) e = c % 2 ^ 32 := by
  simp only [SFS_DIRENTS_PER_BLK] at he
  exact ByteStr.word_putWord_self _ _ (by simp only [SETOR_SIZE]; omega)

theorem dirent_por_inode_ne (hf : f < SFS_DIRENTS_PER_BLK) (h : f ≠ e) :
    dirent_inode (dirent_por_inode dblk e c) f = dirent_inode dblk f := by
  simp only [SFS_DIRENTS_PER_BLK] at hf
  exact ByteStr.word_putWord_ne _ _ (by omega) (by simp only [SETOR_SIZE]; omega)

theorem dirent_zero (e : Nat) : dirent_inode ByteStr.zero e = 0 := ByteStr.word_zero _

theorem vaga_some {e : Nat} (h : Volume.vaga dblk = some e) :
    e < SFS_DIRENTS_PER_BLK ∧ dirent_inode dblk e = 0 := by
  refine ⟨List.mem_range.mp (List.mem_of_find?_eq_some h), ?_⟩
  simpa using List.find?_some h

end Dirents

/-- Entry `e` of block `b` of the directory `i`, which is in use, names the inode `c`. -/
structure Entrada (v : Volume) (i b e c : Nat) : Prop where
  lt : i < SFS_INODE_MAX
  uso : v.imap i = true
  dir : inode_type (v.ino i) = 2
  lugar : b < 10
  bloco : inode_block (v.ino i) b ≠ 0
  vez : e < SFS_DIRENTS_PER_BLK
  nome : dirent_inode (v.dado (inode_block (v.ino i) b)) e = c
  vivo : c ≠ 0

theorem Entrada.tem {v : Volume} {i b e c : Nat} (h : Entrada v i b e c) :
    SpaceFs.tem v.imap v.ino i b (inode_block (v.ino i) b) :=
  ⟨⟨h.lt, h.uso⟩, h.lugar, rfl, h.bloco⟩

/-- Inode `j` and the sectors of its blocks are the same in both volumes. -/
structure Igual (v v' : Volume) (j : Nat) : Prop where
  ino : v'.ino j = v.ino j
  dado : ∀ b < 10, inode_block (v.ino j) b ≠ 0 →
    v'.dado (inode_block (v.ino j) b) = v.dado (inode_block (v.ino j) b)

theorem Igual.trans {v v' v'' : Volume} {j : Nat} (h : Igual v v' j) (h' : Igual v' v'' j) :
    Igual v v'' j where
  ino := h'.ino.trans h.ino
  dado := fun b hb h0 => by
    have := h'.dado b hb (by rwa [h.ino])
    rw [h.ino] at this
    exact this.trans (h.dado b hb h0)

theorem Igual.entrada {v v' : Volume} {j b e c : Nat} (h : Igual v v' j) (hu : v.imap j = true)
    (he : Entrada v' j b e c) : Entrada v j b e c := by
  have hb := he.bloco
  have hn := he.nome
  rw [h.ino] at hb hn
  rw [h.dado b he.lugar hb] at hn
  exact ⟨he.lt, hu, h.ino ▸ he.dir, he.lugar, hb, he.vez, hn, he.vivo⟩

/-- The invariant between two calls. -/
structure Coeso (v : Volume) : Prop where
  raiz : v.imap 0 = true
  raiz_dir : inode_type (v.ino 0) = 2
  tipo : ∀ i < SFS_INODE_MAX, v.imap i = true → inode_type (v.ino i) = 1 ∨ inode_type (v.ino i) = 2
  posse : Posse v.imap v.ino v.bmap nada
  filho : ∀ {i b e c}, Entrada v i b e c → c < SFS_INODE_MAX ∧ v.imap c = true ∧ c ≠ i
  uma_vez : ∀ {i b e j b' e' c}, Entrada v i b e c → Entrada v j b' e' c → i = j ∧ b = b' ∧ e = e'

theorem Coeso.navegavel {v : Volume} (h : Coeso v) :
    Navegavel (fun i => i < SFS_INODE_MAX ∧ v.imap i = true) v where
  raiz := ⟨by decide, h.raiz⟩
  lt := fun _ hi => hi.1
  bons := fun _ hi => h.posse.bons hi.1 hi.2
  filhos := fun _ hi ht _ hb h0 _ he hne =>
    have := h.filho ⟨hi.1, hi.2, ht, hb, h0, he, rfl, hne⟩
    ⟨this.1, this.2.1⟩

/-! ## Ownership when an inode in use is rewritten -/

section Posse

variable {imap : Nat → Bool} {ino : Nat → Inode} {bmap : Nat → Bool} {mao : Nat → Prop}

/-- An inode in use is rewritten with sectors of its own and sectors in hand. -/
theorem Posse.troca (h : Posse imap ino bmap mao) {i : Nat} (hi : i < SFS_INODE_MAX)
    (hu : imap i = true) {x : Inode} (hx : ∀ b s, Tem x b s → mao s ∨ ∃ c, Tem (ino i) c s)
    (hinj : Distintos x) :
    Posse imap (update ino i x) bmap
      fun s => (mao s ∨ ∃ b, Tem (ino i) b s) ∧ ∀ b, ¬ Tem x b s := by
  have ht : ∀ s, (∃ b, tem imap ino i b s) ↔ ∃ b, Tem (ino i) b s := fun s => by
    simp [tem, hi, hu]
  have h' := (h.solta i).adota hi (update_self _ _ _) (x := x)
    (fun b s hb => (hx b s hb).imp_right (ht s).mpr) hinj
  rw [Function.update_idem, ← hu, Function.update_eq_self] at h'
  exact h'.congr_mao fun s => by rw [ht]

theorem tem_por_size (x : Inode) (n b s : Nat) : Tem (inode_por_size x n) b s ↔ Tem x b s := by
  unfold Tem
  rw [block_por_size]

theorem Posse.distintos (h : Posse imap ino bmap mao) {i : Nat} (hi : i < SFS_INODE_MAX)
    (hu : imap i = true) : Distintos (ino i) := fun h1 h2 =>
  (h.unique (i := i) (j := i) ⟨⟨hi, hu⟩, h1⟩ ⟨⟨hi, hu⟩, h2⟩).2

end Posse

/-! ## A new inode -/

section Novo

variable {v v1 : Volume} {i t ticks : Nat}

theorem tem_novo (b s : Nat) : ¬ Tem (inode_novo t ticks) b s := fun h => by
  obtain ⟨hb, h1, h2⟩ := h
  rw [block_novo _ _ hb] at h1
  exact h2 h1.symm

theorem alloc_inode_some (h : v.alloc_inode = (some i, v1)) :
    (1 ≤ i ∧ i < SFS_INODE_MAX) ∧ v.imap i = false ∧ v1.imap = update v.imap i true ∧
      v1.ino = v.ino ∧ v1.dado = v.dado ∧ v1.bmap = v.bmap := by
  rcases v.alloc_inode_cases with ⟨_, he⟩ | ⟨j, h1, hj, hfree, _, he⟩
  · rw [he] at h
    cases h
  · rw [he] at h
    cases h
    exact ⟨⟨h1, hj⟩, hfree, rfl, rfl, rfl, rfl⟩

theorem igual_novo (ha : v.alloc_inode = (some i, v1)) {j : Nat} (hj : j ≠ i) :
    Igual v (v1.por_ino i (inode_novo t ticks)) j := by
  obtain ⟨_, _, _, hino, hdado, _⟩ := alloc_inode_some ha
  refine ⟨?_, fun b _ _ => congrFun hdado _⟩
  change update v1.ino i _ j = v.ino j
  rw [update_of_ne hj, hino]

/-- The volume with the inode just taken written: the entries are the same as before, and none
names the new inode. -/
theorem entrada_novo (hc : Coeso v) (ha : v.alloc_inode = (some i, v1)) {j b e c : Nat}
    (h : Entrada (v1.por_ino i (inode_novo t ticks)) j b e c) :
    Entrada v j b e c ∧ c ≠ i ∧ j ≠ i := by
  obtain ⟨_, hfree, himap, _⟩ := alloc_inode_some ha
  have hj : j ≠ i := by
    rintro rfl
    have hb := h.bloco
    change inode_block (update v1.ino j _ j) b ≠ 0 at hb
    rw [update_self, block_novo _ _ h.lugar] at hb
    exact hb rfl
  have hu : v.imap j = true := by
    have hu : v1.imap j = true := h.uso
    rwa [himap, update_of_ne hj] at hu
  have hent := (igual_novo ha hj).entrada hu h
  refine ⟨hent, ?_, hj⟩
  rintro rfl
  have := (hc.filho hent).2.1
  rw [hfree] at this
  exact absurd this (by decide)

theorem coeso_novo (ticks : Nat) (hc : Coeso v) (ha : v.alloc_inode = (some i, v1)) (ht : t = 1 ∨ t = 2) :
    Coeso (v1.por_ino i (inode_novo t ticks)) := by
  have hent : ∀ {j b e c}, Entrada (v1.por_ino i (inode_novo t ticks)) j b e c →
      Entrada v j b e c ∧ c ≠ i ∧ j ≠ i := fun h => entrada_novo hc ha h
  obtain ⟨⟨h1, hi⟩, hfree, himap, hino, _, hbmap⟩ := alloc_inode_some ha
  have himap' : (v1.por_ino i (inode_novo t ticks)).imap = update v.imap i true := himap
  have hino' : (v1.por_ino i (inode_novo t ticks)).ino = update v.ino i (inode_novo t ticks) := by
    rw [← hino]
    rfl
  have hp : Posse (update v.imap i true) (update v.ino i (inode_novo t ticks)) v.bmap nada :=
    (hc.posse.adota hi hfree (x := inode_novo t ticks) (fun b s h => absurd h (tem_novo b s))
      fun h => absurd h (tem_novo _ _)).congr_mao fun s => by simp [nada]
  refine ⟨?_, ?_, fun j hj hu => ?_, ?_, fun h => ?_, fun h h' => ?_⟩
  · rw [himap', update_of_ne (by omega)]
    exact hc.raiz
  · rw [hino', update_of_ne (by omega)]
    exact hc.raiz_dir
  · rw [himap'] at hu
    rw [hino']
    by_cases hji : j = i
    · rw [hji, update_self, type_novo]
      omega
    · rw [update_of_ne hji] at hu ⊢
      exact hc.tipo j hj hu
  · rw [himap', hino']
    change Posse _ _ v1.bmap nada
    rw [hbmap]
    exact hp
  · obtain ⟨h, hne, _⟩ := hent h
    obtain ⟨g1, g2, g3⟩ := hc.filho h
    refine ⟨g1, ?_, g3⟩
    rw [himap', update_of_ne hne]
    exact g2
  · exact hc.uma_vez (hent h).1 (hent h').1

end Novo

/-! ## A new entry -/

/-- What `abre_bloco` gives for place `b` of the inode `p`: a sector that no other place has. -/
structure Aberto (v : Volume) (p b s : Nat) (dir' : Inode) (dblk : Setor) (w : Volume) : Prop where
  imap_eq : w.imap = v.imap
  ino_eq : w.ino = v.ino
  dado_eq : w.dado = v.dado
  type_eq : inode_type dir' = inode_type (v.ino p)
  size_eq : inode_size dir' = inode_size (v.ino p)
  block_self : inode_block dir' b = s
  block_ne : ∀ c < 10, c ≠ b → inode_block dir' c = inode_block (v.ino p) c
  dado : DeDados s
  posse : Posse v.imap (update v.ino p dir') w.bmap nada
  antes : ∀ e, dirent_inode dblk e ≠ 0 → inode_block (v.ino p) b = s ∧ v.dado s = dblk
  velho : inode_block (v.ino p) b ≠ 0 → inode_block (v.ino p) b = s ∧ v.dado s = dblk

theorem coeso_abre_bloco {v w : Volume} (hc : Coeso v) {p b s : Nat} {dir' : Inode} {dblk : Setor}
    (hp : p < SFS_INODE_MAX) (hu : v.imap p = true) (hb : b < 10)
    (h : v.abre_bloco (v.ino p) b = (some (s, dir', dblk), w)) : Aberto v p b s dir' dblk w := by
  rcases Volume.abre_bloco_cases h with ⟨h0, n, hn, hfree, rfl, rfl, rfl, rfl⟩ |
    ⟨h0, rfl, rfl, rfl, rfl⟩
  · have hs : DeDados (SFS_DATA_START + n) := ⟨Nat.le_add_right _ _, Nat.add_lt_add_left hn _⟩
    have hnew : ∀ c, ¬ Tem (v.ino p) c (SFS_DATA_START + n) := fun c ht => by
      have hm := (hc.posse.mark_of_holds (i := p) ⟨⟨hp, hu⟩, ht⟩).2
      rw [Nat.add_sub_cancel_left, hfree] at hm
      exact absurd hm (by decide)
    have hd : Distintos (v.ino p) := hc.posse.distintos hp hu
    have hd' : Distintos (inode_por_block (v.ino p) b (SFS_DATA_START + n)) :=
      hd.por_block hb h0 hs hnew
    have hmod : (SFS_DATA_START + n) % 2 ^ 32 = SFS_DATA_START + n := by
      simp only [DeDados, SFS_DATA_START, BMAP_BITS_eq] at hs ⊢
      omega
    refine ⟨rfl, rfl, rfl, type_por_block _ _ _, size_por_block _ _ hb, ?_,
      fun c hc hne => block_por_block_ne _ _ hc hne, hs, ?_, fun e he => absurd (dirent_zero e) he,
      fun hne => absurd h0 hne⟩
    · rw [block_por_block_self _ _ hb, hmod]
    · have htem := tem_por_block hb h0 hs
      refine ((hc.posse.toma hn hfree).troca hp hu (fun c t ht => ?_) hd').congr_mao fun t => ?_
      · rcases (htem c t).mp ht with ht | ⟨_, rfl⟩
        · exact Or.inr ⟨c, ht⟩
        · exact Or.inl (Or.inr rfl)
      · unfold nada
        simp only [htem, false_or, false_iff, not_and, not_forall, not_not]
        rintro (rfl | ⟨c, ht⟩)
        · exact ⟨b, Or.inr ⟨rfl, rfl⟩⟩
        · exact ⟨c, Or.inl ht⟩
  · refine ⟨rfl, rfl, rfl, rfl, rfl, rfl, fun _ _ _ => rfl, hc.posse.bons hp hu b hb h0, ?_,
      fun _ _ => ⟨rfl, rfl⟩, fun _ => ⟨rfl, rfl⟩⟩
    rw [Function.update_eq_self]
    exact hc.posse

section Entra

variable {v w : Volume} {p b s e child : Nat} {dir' : Inode} {dblk : Setor} {name : List UInt8}

/-- The volume with the entry written. -/
def Volume.entrou (w : Volume) (p s : Nat) (dir' : Inode) (dblk : Setor) (e child : Nat)
    (name : List UInt8) : Volume :=
  (w.por_dado s (dirent_por dblk e child name)).por_ino p
    (inode_por_size dir' (inode_size dir' + 32))

theorem Aberto.block (ha : Aberto v p b s dir' dblk w) (j c : Nat) :
    inode_block ((w.entrou p s dir' dblk e child name).ino j) c =
      inode_block (update v.ino p dir' j) c := by
  change inode_block (update w.ino p _ j) c = _
  rw [ha.ino_eq]
  by_cases hj : j = p
  · rw [hj, update_self, update_self, block_por_size]
  · rw [update_of_ne hj, update_of_ne hj]

theorem Aberto.type (ha : Aberto v p b s dir' dblk w) (j : Nat) :
    inode_type ((w.entrou p s dir' dblk e child name).ino j) = inode_type (v.ino j) := by
  change inode_type (update w.ino p _ j) = _
  rw [ha.ino_eq]
  by_cases hj : j = p
  · rw [hj, update_self, type_por_size, ha.type_eq]
  · rw [update_of_ne hj]

theorem Aberto.igual (ha : Aberto v p b s dir' dblk w) (hp : p < SFS_INODE_MAX)
    (hu : v.imap p = true) (hb : b < 10) {j : Nat} (hj : j < SFS_INODE_MAX)
    (hju : v.imap j = true) (hjp : j ≠ p) :
    Igual v (w.entrou p s dir' dblk e child name) j := by
  refine ⟨?_, fun b' hb' h0 => ?_⟩
  · change update w.ino p _ j = v.ino j
    rw [update_of_ne hjp, ha.ino_eq]
  · change update w.dado s _ (inode_block (v.ino j) b') = _
    rw [ha.dado_eq, update_of_ne]
    intro hs
    exact hjp (ha.posse.unique (i := j) (b := b') (j := p) (c := b) (r := s)
      ⟨⟨hj, hju⟩, hb', by rw [update_of_ne hjp]; exact hs, hs ▸ h0⟩
      ⟨⟨hp, hu⟩, hb, by rw [update_self, ha.block_self], hs ▸ h0⟩).1

/-- Every entry is one that was there, or the new one. -/
theorem Aberto.entrada (ha : Aberto v p b s dir' dblk w) (hp : p < SFS_INODE_MAX)
    (hu : v.imap p = true) (hb : b < 10) (he : e < SFS_DIRENTS_PER_BLK)
    (hch : child < SFS_INODE_MAX) {j b' e' c : Nat}
    (h : Entrada (w.entrou p s dir' dblk e child name) j b' e' c) :
    Entrada v j b' e' c ∨ (j, b', e', c) = (p, b, e, child) := by
  obtain ⟨h1, h2, h3, h4, h5, h6, h7, h8⟩ := h
  change w.imap j = true at h2
  rw [ha.imap_eq] at h2
  rw [ha.type] at h3
  rw [ha.block] at h5 h7
  change dirent_inode (update w.dado s _ _) e' = c at h7
  rw [ha.dado_eq] at h7
  by_cases hs : inode_block (update v.ino p dir' j) b' = s
  · have hs0 : s ≠ 0 := fun h0 => h5 (hs.trans h0)
    obtain ⟨rfl, rfl⟩ := ha.posse.unique (i := j) (b := b') (j := p) (c := b) (r := s)
      ⟨⟨h1, h2⟩, h4, hs, hs0⟩ ⟨⟨hp, hu⟩, hb, by rw [update_self, ha.block_self], hs0⟩
    rw [hs, update_self] at h7
    by_cases hee : e' = e
    · subst hee
      rw [dirent_por_self _ _ _ he, Nat.mod_eq_of_lt (by unfold SFS_INODE_MAX at hch; omega)] at h7
      exact Or.inr (by rw [h7])
    · rw [dirent_por_ne _ _ _ h6 hee] at h7
      obtain ⟨g1, g2⟩ := ha.antes e' (by rw [h7]; exact h8)
      exact Or.inl ⟨h1, h2, h3, h4, by rw [g1]; exact hs0, h6, by rw [g1, g2]; exact h7, h8⟩
  · rw [update_of_ne hs] at h7
    refine Or.inl ⟨h1, h2, h3, h4, ?_, h6, ?_, h8⟩ <;> by_cases hj : j = p
    · subst hj
      rw [update_self] at h5 hs
      have hne : b' ≠ b := by
        rintro rfl
        exact hs ha.block_self
      rwa [ha.block_ne b' h4 hne] at h5
    · rwa [update_of_ne hj] at h5
    · subst hj
      rw [update_self] at h7 hs
      have hne : b' ≠ b := by
        rintro rfl
        exact hs ha.block_self
      rwa [ha.block_ne b' h4 hne] at h7
    · rwa [update_of_ne hj] at h7

/-- An inode in use that no entry names gets an entry. -/
theorem coeso_entrou (hc : Coeso v) (ha : Aberto v p b s dir' dblk w) (hp : p < SFS_INODE_MAX)
    (hu : v.imap p = true) (hb : b < 10) (he : e < SFS_DIRENTS_PER_BLK)
    (hch : child < SFS_INODE_MAX) (hcu : v.imap child = true) (hcp : child ≠ p)
    (hnew : ∀ {j b e}, ¬ Entrada v j b e child) :
    Coeso (w.entrou p s dir' dblk e child name) := by
  have hent : ∀ {j b' e' c}, Entrada (w.entrou p s dir' dblk e child name) j b' e' c →
      Entrada v j b' e' c ∨ (j, b', e', c) = (p, b, e, child) :=
    fun h => ha.entrada hp hu hb he hch h
  have himap : (w.entrou p s dir' dblk e child name).imap = v.imap := ha.imap_eq
  refine ⟨?_, ?_, fun j hj huj => ?_, ?_, fun h => ?_, fun h h' => ?_⟩
  · rw [himap]
    exact hc.raiz
  · rw [ha.type]
    exact hc.raiz_dir
  · rw [himap] at huj
    rw [ha.type]
    exact hc.tipo j hj huj
  · refine Owned.congr ha.posse (fun j c t => ?_) (fun _ => Iff.rfl) fun _ => Iff.rfl
    unfold tem Tem
    rw [ha.block, himap]
  · rw [himap]
    rcases hent h with h | h
    · exact hc.filho h
    · cases h
      exact ⟨hch, hcu, hcp⟩
  · rcases hent h with h | h <;> rcases hent h' with h' | h'
    · exact hc.uma_vez h h'
    · cases h'
      exact absurd h hnew
    · cases h
      exact absurd h' hnew
    · cases h
      cases h'
      exact ⟨rfl, rfl, rfl⟩

theorem coeso_dir_add (hc : Coeso v) (hp : p < SFS_INODE_MAX) (hu : v.imap p = true)
    (hch : child < SFS_INODE_MAX) (hcu : v.imap child = true) (hcp : child ≠ p)
    (hnew : ∀ {j b e}, ¬ Entrada v j b e child) (name : List UInt8) :
    Coeso (v.dir_add_entry p child name).2 := by
  unfold Volume.dir_add_entry
  rcases dir_add_laco_cases p child name (List.range 10) (v.ino p) v with ⟨he, _⟩ |
    ⟨pre, b, post, s, dir', dblk, w, e, hl, _, ha, hv, he⟩
  · rw [he]
    exact hc
  · have hb : b < 10 := List.mem_range.mp (by rw [hl]; simp)
    rw [he]
    exact coeso_entrou hc (coeso_abre_bloco hc hp hu hb ha) hp hu hb (vaga_some _ hv).1 hch hcu hcp
      hnew

end Entra

/-! ## Giving back, filling, removing -/

section Esvazia

variable {v : Volume} {i : Nat}

/-- The blocks of `i` are given back while it is out of use. -/
theorem posse_limpa (h : Posse v.imap v.ino v.bmap nada) (hi : i < SFS_INODE_MAX)
    (hu : v.imap i = true) :
    Posse (update v.imap i false) v.ino
      (Volume.free_blocks_of (v.ino i) (List.range 10) v).bmap nada := by
  refine (posse_free_blocks (fun b hb => List.mem_range.mp hb) List.nodup_range
    (h.distintos hi hu) (h.solta i) fun b _ s hs => Or.inr ⟨b, ⟨hi, hu⟩, hs⟩).congr_mao fun s => ?_
  unfold nada
  simp only [false_or, false_iff, not_and, not_forall, not_not]
  rintro ⟨b, _, hb⟩
  exact ⟨b, List.mem_range.mpr hb.1, hb⟩

theorem tem_sem_blocos (x : Inode) (b s : Nat) : ¬ Tem (inode_sem_blocos x) b s :=
  fun ⟨hb, h1, h2⟩ => h2 (by rw [← h1, block_sem_blocos _ hb])

theorem esvazia_rest (v : Volume) (i : Nat) :
    (v.esvazia i).imap = v.imap ∧
      (v.esvazia i).ino = update v.ino i (inode_sem_blocos (inode_por_size (v.ino i) 0)) ∧
      (v.esvazia i).dado = v.dado := by
  obtain ⟨h1, h2, h3⟩ := free_blocks_of_rest (v.ino i) (List.range 10) v
  refine ⟨h1, ?_, h3⟩
  change update (Volume.free_blocks_of (v.ino i) (List.range 10) v).ino i _ = _
  rw [h2]

theorem esvazia_block (b : Nat) (hb : b < 10) : inode_block ((v.esvazia i).ino i) b = 0 := by
  rw [(esvazia_rest v i).2.1, update_self, block_sem_blocos _ hb]

theorem igual_esvazia {j : Nat} (hj : j ≠ i) : Igual v (v.esvazia i) j := by
  obtain ⟨_, hino, hdado⟩ := esvazia_rest v i
  exact ⟨by rw [hino, update_of_ne hj], fun b _ _ => by rw [hdado]⟩

theorem entrada_esvazia {j b e c : Nat} (h : Entrada (v.esvazia i) j b e c) :
    Entrada v j b e c ∧ j ≠ i := by
  have hj : j ≠ i := by
    rintro rfl
    exact h.bloco (esvazia_block b h.lugar)
  refine ⟨(igual_esvazia hj).entrada ?_ h, hj⟩
  rw [← (esvazia_rest v i).1]
  exact h.uso

theorem coeso_esvazia (hc : Coeso v) (hi : i < SFS_INODE_MAX) (hu : v.imap i = true) :
    Coeso (v.esvazia i) := by
  obtain ⟨himap, hino, hdado⟩ := esvazia_rest v i
  have htype : ∀ j, inode_type ((v.esvazia i).ino j) = inode_type (v.ino j) := fun j => by
    rw [hino]
    by_cases hj : j = i
    · rw [hj, update_self, type_sem_blocos, type_por_size]
    · rw [update_of_ne hj]
  have hent : ∀ {j b e c}, Entrada (v.esvazia i) j b e c → Entrada v j b e c :=
    fun h => (entrada_esvazia h).1
  refine ⟨by rw [himap]; exact hc.raiz, by rw [htype]; exact hc.raiz_dir, fun j hj huj => ?_, ?_,
    fun h => ?_, fun h h' => hc.uma_vez (hent h) (hent h')⟩
  · rw [himap] at huj
    rw [htype]
    exact hc.tipo j hj huj
  · have h' := (posse_limpa hc.posse hi hu).adota hi (update_self _ _ _)
      (x := inode_sem_blocos (inode_por_size (v.ino i) 0))
      (fun b s hb => absurd hb (tem_sem_blocos _ b s)) fun hb => absurd hb (tem_sem_blocos _ _ _)
    rw [Function.update_idem, ← hu, Function.update_eq_self] at h'
    rw [himap, hino]
    exact h'.congr_mao fun s => by simp [nada]
  · rw [himap]
    exact hc.filho (hent h)

theorem esvazia_type : inode_type ((v.esvazia i).ino i) = inode_type (v.ino i) := by
  rw [(esvazia_rest v i).2.1, update_self, type_sem_blocos, type_por_size]

section Enche

variable {buf : List UInt8}

/-- What `enche` does: the loop of the write, and the inode written. -/
theorem enche_escrito (v : Volume) (i : Nat) (buf : List UInt8) :
    ∃ x w, (v.enche i buf).2 = w.por_ino i x ∧
      Escrito (List.range 10) (inode_por_size (v.ino i) buf.length) v x w ∧
      (buf = [] → x = inode_por_size (v.ino i) buf.length) := by
  refine ⟨_, _, rfl, escrito_write_laco buf (fun b hb => List.mem_range.mp hb) _ 0 v, ?_⟩
  rintro rfl
  rfl

theorem enche_imap (v : Volume) (i : Nat) (buf : List UInt8) :
    (v.enche i buf).2.imap = v.imap := by
  obtain ⟨x, w, he, hw, _⟩ := enche_escrito v i buf
  rw [he]
  exact hw.imap_eq

theorem enche_ino (v : Volume) (i : Nat) (buf : List UInt8) : (v.enche i buf).2.ino =
    update v.ino i (Volume.write_laco buf (List.range 10) (inode_por_size (v.ino i) buf.length) 0
      v).1.1 := by
  have hw := escrito_write_laco buf (l := List.range 10)
    (fun b hb => List.mem_range.mp hb) (inode_por_size (v.ino i) buf.length) 0 v
  exact congrArg (fun f => update f i (Volume.write_laco buf (List.range 10)
    (inode_por_size (v.ino i) buf.length) 0 v).1.1) hw.ino_eq

theorem enche_bmap (v : Volume) (i : Nat) (buf : List UInt8) : (v.enche i buf).2.bmap =
    (Volume.write_laco buf (List.range 10) (inode_por_size (v.ino i) buf.length) 0 v).2.bmap := rfl

theorem enche_type (v : Volume) (i : Nat) (buf : List UInt8) (j : Nat) :
    inode_type ((v.enche i buf).2.ino j) = inode_type (v.ino j) := by
  obtain ⟨x, w, he, hw, _⟩ := enche_escrito v i buf
  rw [he]
  change inode_type (update w.ino i x j) = _
  rw [hw.ino_eq]
  by_cases hj : j = i
  · rw [hj, update_self, hw.type_eq, type_por_size]
  · rw [update_of_ne hj]

theorem igual_enche (hc : Coeso v) {j : Nat} (hj : j < SFS_INODE_MAX) (hu : v.imap j = true)
    (hji : j ≠ i) : Igual v (v.enche i buf).2 j := by
  obtain ⟨x, w, he, hw, _⟩ := enche_escrito v i buf
  rw [he]
  refine ⟨?_, fun b hb h0 => hw.dado_eq _ (hc.posse.mark_of_holds ⟨⟨hj, hu⟩, hb, rfl, h0⟩)⟩
  change update w.ino i x j = v.ino j
  rw [update_of_ne hji, hw.ino_eq]

theorem entrada_enche (hc : Coeso v) (hz : ∀ b < 10, inode_block (v.ino i) b = 0)
    (ht : inode_type (v.ino i) ≠ 2 ∨ buf = []) {j b e c : Nat}
    (h : Entrada (v.enche i buf).2 j b e c) : Entrada v j b e c ∧ j ≠ i := by
  have hu : v.imap j = true := by
    rw [← enche_imap v i buf]
    exact h.uso
  have hj : j ≠ i := by
    rintro rfl
    rcases ht with ht | ht
    · exact ht (by rw [← enche_type v j buf]; exact h.dir)
    · obtain ⟨x, w, he, _, hx⟩ := enche_escrito v j buf
      have hb := h.bloco
      rw [he, hx ht] at hb
      change inode_block (update w.ino j _ j) b ≠ 0 at hb
      rw [update_self, block_por_size] at hb
      exact hb (hz b h.lugar)
  exact ⟨(igual_enche hc h.lt hu hj).entrada hu h, hj⟩

/-- Data may be put into a file without blocks; into a directory only none at all. -/
theorem coeso_enche (hc : Coeso v) (hi : i < SFS_INODE_MAX) (hu : v.imap i = true)
    (hz : ∀ b < 10, inode_block (v.ino i) b = 0) (ht : inode_type (v.ino i) ≠ 2 ∨ buf = []) :
    Coeso (v.enche i buf).2 := by
  have hsem : ∀ b s, ¬ Tem (inode_por_size (v.ino i) buf.length) b s := fun b s h => by
    rw [tem_por_size] at h
    exact h.2.2 (by rw [← h.2.1, hz b h.1])
  have hp : Posse (update v.imap i false) v.ino v.bmap
      fun s => ∃ b, Tem (inode_por_size (v.ino i) buf.length) b s :=
    (hc.posse.solta i).congr_mao fun s => by
      simp only [hsem, nada, exists_false, false_or, false_iff, not_exists]
      exact fun b hb => hb.2.2.2 (by rw [← hb.2.2.1, hz b hb.2.1])
  have hw := posse_write_laco buf (l := List.range 10) (fun b hb => List.mem_range.mp hb)
    List.nodup_range (fun b hb => by rw [block_por_size, hz b (List.mem_range.mp hb)])
    (fun h => absurd h (hsem _ _)) hp 0
  have htype := enche_type v i buf
  have himap := enche_imap v i buf
  have hent : ∀ {j b e c}, Entrada (v.enche i buf).2 j b e c → Entrada v j b e c :=
    fun h => (entrada_enche hc hz ht h).1
  refine ⟨by rw [himap]; exact hc.raiz, by rw [htype]; exact hc.raiz_dir, fun j hj huj => ?_, ?_,
    fun h => ?_, fun h h' => hc.uma_vez (hent h) (hent h')⟩
  · rw [himap] at huj
    rw [htype]
    exact hc.tipo j hj huj
  · have h' := hw.1.adota hi (update_self _ _ _) (fun b s hb => ⟨b, hb⟩) hw.2
    rw [Function.update_idem, ← hu, Function.update_eq_self] at h'
    rw [himap, enche_ino, enche_bmap]
    refine h'.congr_mao fun s => ?_
    simp only [nada, false_iff, not_and, not_forall, not_not]
    exact fun h => h
  · rw [himap]
    exact hc.filho (hent h)

end Enche

end Esvazia

section Unlink

variable {v : Volume} {i p : Nat}

/-- The removal changes nothing or clears an entry. -/
theorem dir_remove_cases (x : Inode) (v : Volume) (i : Nat) (l : List Nat) :
    Volume.dir_remove x i l v = v ∨ ∃ b ∈ l, inode_block x b ≠ 0 ∧ ∃ e < SFS_DIRENTS_PER_BLK,
      Volume.dir_remove x i l v = v.por_dado (inode_block x b)
        (dirent_por_inode (v.dado (inode_block x b)) e 0) := by
  induction l with
  | nil => exact Or.inl rfl
  | cons b l ih =>
    rw [Volume.dir_remove]
    by_cases h0 : inode_block x b = 0
    · rw [if_pos h0]
      exact Or.inl rfl
    rw [if_neg h0]
    cases hf : (List.range SFS_DIRENTS_PER_BLK).find? fun e =>
        dirent_inode (v.dado (inode_block x b)) e = i with
    | some e =>
      have he := List.mem_range.mp (List.mem_of_find?_eq_some hf)
      exact Or.inr ⟨b, List.mem_cons_self, h0, e, he, rfl⟩
    | none =>
      rcases ih with ih | ⟨c, hc, h⟩
      · exact Or.inl ih
      · exact Or.inr ⟨c, List.mem_cons_of_mem b hc, h⟩

theorem dir_remove_ino (x : Inode) (v : Volume) (i : Nat) (l : List Nat) :
    (Volume.dir_remove x i l v).ino = v.ino := by
  rcases dir_remove_cases x v i l with he | ⟨b, _, _, e, _, he⟩ <;> rw [he]
  rfl

/-- The entry that `dir_remove` clears. -/
theorem dir_remove_acha {dir : Inode} {l : List Nat} {pre : List Nat} {b : Nat} {post : List Nat}
    (hl : l = pre ++ b :: post) (hpre : ∀ c ∈ pre, inode_block dir c ≠ 0)
    (hb : inode_block dir b ≠ 0) {e : Nat} (he : e < SFS_DIRENTS_PER_BLK)
    (hi : dirent_inode (v.dado (inode_block dir b)) e = i) :
    ∃ b' ∈ l, inode_block dir b' ≠ 0 ∧ ∃ e' < SFS_DIRENTS_PER_BLK,
      dirent_inode (v.dado (inode_block dir b')) e' = i ∧
      Volume.dir_remove dir i l v = v.por_dado (inode_block dir b')
        (dirent_por_inode (v.dado (inode_block dir b')) e' 0) := by
  induction pre generalizing l with
  | nil =>
    subst hl
    rw [List.nil_append, Volume.dir_remove, if_neg hb]
    cases hf : (List.range SFS_DIRENTS_PER_BLK).find? fun e =>
        dirent_inode (v.dado (inode_block dir b)) e = i with
    | some e' =>
      refine ⟨b, List.mem_cons_self, hb, e', List.mem_range.mp (List.mem_of_find?_eq_some hf), ?_,
        rfl⟩
      simpa using List.find?_some hf
    | none =>
      have := List.find?_eq_none.mp hf e (List.mem_range.mpr he)
      exact absurd hi (by simpa using this)
  | cons a pre ih =>
    subst hl
    rw [List.cons_append, Volume.dir_remove, if_neg (hpre a List.mem_cons_self)]
    cases hf : (List.range SFS_DIRENTS_PER_BLK).find? fun e =>
        dirent_inode (v.dado (inode_block dir a)) e = i with
    | some e' =>
      refine ⟨a, List.mem_cons_self, hpre a List.mem_cons_self, e',
        List.mem_range.mp (List.mem_of_find?_eq_some hf), ?_, rfl⟩
      simpa using List.find?_some hf
    | none =>
      obtain ⟨b', hb', h⟩ := ih rfl fun c hc => hpre c (List.mem_cons_of_mem _ hc)
      exact ⟨b', List.mem_cons_of_mem _ hb', h⟩

theorem apaga_rest (v : Volume) (i : Nat) :
    (v.apaga i).imap = update v.imap i false ∧
      (v.apaga i).ino = update v.ino i (inode_por_type (v.ino i) 0) ∧
      (v.apaga i).dado = v.dado ∧
      (v.apaga i).bmap = (Volume.free_blocks_of (v.ino i) (List.range 10) v).bmap := by
  obtain ⟨h1, h2, h3⟩ := free_blocks_of_rest (v.ino i) (List.range 10) v
  refine ⟨?_, ?_, h3, rfl⟩
  · change update (Volume.free_blocks_of (v.ino i) (List.range 10) v).imap i false = _
    rw [h1]
  · change update (Volume.free_blocks_of (v.ino i) (List.range 10) v).ino i _ = _
    rw [h2]

/-- The volume with `i` taken out of use and its entry, number `e` of block `b` of `p`, cleared. -/
def Volume.apagou (v : Volume) (i p b e : Nat) : Volume :=
  (v.apaga i).por_dado (inode_block (v.ino p) b)
    (dirent_por_inode (v.dado (inode_block (v.ino p) b)) e 0)

theorem entrada_apagou (hc : Coeso v) {b e : Nat} (h : Entrada v p b e i) {j b' e' c : Nat}
    (g : Entrada (v.apagou i p b e) j b' e' c) : Entrada v j b' e' c ∧ c ≠ i ∧ j ≠ i := by
  obtain ⟨h1, h2, h3, _⟩ := apaga_rest v i
  obtain ⟨g1, g2, g3, g4, g5, g6, g7, g8⟩ := g
  change (v.apaga i).imap j = true at g2
  change inode_type ((v.apaga i).ino j) = 2 at g3
  change inode_block ((v.apaga i).ino j) b' ≠ 0 at g5
  change dirent_inode (update (v.apaga i).dado _ _ (inode_block ((v.apaga i).ino j) b')) e' = c
    at g7
  rw [h1] at g2
  have hj : j ≠ i := by
    rintro rfl
    rw [update_self] at g2
    exact absurd g2 (by decide)
  rw [h2, update_of_ne hj] at g3 g5 g7
  rw [update_of_ne hj] at g2
  rw [h3] at g7
  have hv : Entrada v j b' e' c := by
    refine ⟨g1, g2, g3, g4, g5, g6, ?_, g8⟩
    by_cases hs : inode_block (v.ino j) b' = inode_block (v.ino p) b
    · rw [hs, update_self] at g7
      by_cases hee : e' = e
      · rw [hee, dirent_por_inode_self _ _ h.vez] at g7
        exact absurd g7.symm g8
      · rw [dirent_por_inode_ne _ _ g6 hee] at g7
        rw [hs, g7]
    · rwa [update_of_ne hs] at g7
  refine ⟨hv, ?_, hj⟩
  rintro rfl
  obtain ⟨rfl, rfl, rfl⟩ := hc.uma_vez hv h
  rw [update_self, dirent_por_inode_self _ _ h.vez] at g7
  exact h.vivo g7.symm

/-- An inode below the root is taken out of use and its entry cleared. -/
theorem coeso_apagou (hc : Coeso v) {b e : Nat} (h : Entrada v p b e i) :
    Coeso (v.apagou i p b e) := by
  obtain ⟨hi, hu, hip⟩ := hc.filho h
  have h0 : i ≠ 0 := h.vivo
  obtain ⟨h1, h2, h3, h4⟩ := apaga_rest v i
  have hent : ∀ {j b' e' c}, Entrada (v.apagou i p b e) j b' e' c →
      Entrada v j b' e' c ∧ c ≠ i ∧ j ≠ i := fun g => entrada_apagou hc h g
  refine ⟨?_, ?_, fun j hj huj => ?_, ?_, fun g => ?_, fun g g' => hc.uma_vez (hent g).1 (hent g').1⟩
  · change (v.apaga i).imap 0 = true
    rw [h1, update_of_ne h0.symm]
    exact hc.raiz
  · change inode_type ((v.apaga i).ino 0) = 2
    rw [h2, update_of_ne h0.symm]
    exact hc.raiz_dir
  · change (v.apaga i).imap j = true at huj
    change inode_type ((v.apaga i).ino j) = 1 ∨ inode_type ((v.apaga i).ino j) = 2
    rw [h1] at huj
    by_cases hj' : j = i
    · rw [hj', update_self] at huj
      exact absurd huj (by decide)
    · rw [update_of_ne hj'] at huj
      rw [h2, update_of_ne hj']
      exact hc.tipo j hj huj
  · change Posse (v.apaga i).imap (v.apaga i).ino (v.apaga i).bmap nada
    rw [h1, h2, h4]
    exact (posse_limpa hc.posse hi hu).fora (update_self _ _ _) _
  · obtain ⟨g, hne, _⟩ := hent g
    obtain ⟨g1, g2, g3⟩ := hc.filho g
    refine ⟨g1, ?_, g3⟩
    change (v.apaga i).imap _ = true
    rw [h1, update_of_ne hne]
    exact g2

end Unlink

/-! ## The calls -/

section Calls

variable {v : Volume}

theorem dir_add_entry_rest (v : Volume) (p child : Nat) (name : List UInt8) :
    (v.dir_add_entry p child name).2.imap = v.imap ∧
      ∀ j ≠ p, (v.dir_add_entry p child name).2.ino j = v.ino j := by
  unfold Volume.dir_add_entry
  rcases dir_add_laco_cases p child name (List.range 10) (v.ino p) v with ⟨he, _⟩ |
    ⟨pre, b, post, s, dir', dblk, w, e, hl, _, ha, hv, he⟩
  · rw [he]
    exact ⟨rfl, fun _ _ => rfl⟩
  · have hw : w.imap = v.imap ∧ w.ino = v.ino := by
      rcases Volume.abre_bloco_cases ha with ⟨_, n, _, _, _, _, _, rfl⟩ | ⟨_, _, _, _, rfl⟩
      · exact ⟨rfl, rfl⟩
      · exact ⟨rfl, rfl⟩
    rw [he]
    refine ⟨hw.1, fun j hj => ?_⟩
    change update w.ino p _ j = v.ino j
    rw [update_of_ne hj, hw.2]

/-- A new inode under a name. -/
theorem coeso_cria (hc : Coeso v) {p : Nat} (hp : p < SFS_INODE_MAX) (hu : v.imap p = true)
    (name : List UInt8) {t : Nat} (ht : t = 1 ∨ t = 2) (ticks : Nat) :
    Coeso (v.cria p name t ticks).2 ∧ ∀ i, (v.cria p name t ticks).1 = some i →
      i < SFS_INODE_MAX ∧ (v.cria p name t ticks).2.imap i = true ∧
        (v.cria p name t ticks).2.ino i = inode_novo t ticks := by
  unfold Volume.cria
  rcases hx : v.alloc_inode with ⟨_ | i, v1⟩
  · rcases v.alloc_inode_cases with ⟨_, he⟩ | ⟨i, _, _, _, _, he⟩
    · rw [he] at hx
      cases hx
      exact ⟨hc, fun i hi => by cases hi⟩
    · rw [he] at hx
      cases hx
  obtain ⟨⟨_, hi⟩, hfree, himap, _⟩ := alloc_inode_some hx
  have hn := coeso_novo ticks hc hx ht
  have hpi : i ≠ p := by
    rintro rfl
    rw [hfree] at hu
    exact absurd hu (by decide)
  have hui : (v1.por_ino i (inode_novo t ticks)).imap i = true := by
    change v1.imap i = true
    rw [himap, update_self]
  have hup : (v1.por_ino i (inode_novo t ticks)).imap p = true := by
    change v1.imap p = true
    rw [himap, update_of_ne hpi.symm, hu]
  obtain ⟨g1, g2⟩ := dir_add_entry_rest (v1.por_ino i (inode_novo t ticks)) p i name
  refine ⟨coeso_dir_add hn hp hup hi hui hpi (fun h => (entrada_novo hc hx h).2.1 rfl) name,
    fun j hj => ?_⟩
  cases hj
  refine ⟨hi, by rw [g1]; exact hui, ?_⟩
  rw [g2 i hpi]
  exact update_self i _ v1.ino

/-- A write to a path that leads to no directory, or of no data. -/
theorem coeso_write (hc : Coeso v) (path buf : List UInt8) (ticks : Nat)
    (h : ∀ i p, v.resolve path = some (i, p) → inode_type (v.ino i) ≠ 2 ∨ buf = []) :
    Coeso (v.write path buf ticks).2 := by
  unfold Volume.write
  split
  · exact hc
  cases hp : v.parent_find (path_split path).1 with
  | none => exact hc
  | some parent =>
    obtain ⟨hp1, hp2⟩ := hc.navegavel.parent_find hp
    dsimp only
    unfold Volume.write_inode
    cases hr : v.resolve path with
    | none =>
      obtain ⟨g1, g2⟩ := coeso_cria hc hp1 hp2 (path_split path).2 (t := 1) (Or.inl rfl) ticks
      dsimp only
      rcases hx : v.cria parent (path_split path).2 1 ticks with ⟨_ | i, v'⟩ <;> rw [hx] at g1 g2
      · exact g1
      · obtain ⟨hi, hu, hino⟩ := g2 i rfl
        exact coeso_enche g1 hi hu (fun b hb => by rw [hino, block_novo _ _ hb])
          (Or.inl (by rw [hino, type_novo]; decide))
    | some x =>
      obtain ⟨i, q⟩ := x
      obtain ⟨⟨hi, hu⟩, _⟩ := hc.navegavel.resolve hr
      exact coeso_enche (coeso_esvazia hc hi hu) hi (by rw [(esvazia_rest v i).1]; exact hu)
        (fun b hb => esvazia_block b hb) ((h i q hr).imp_left fun ht => by rwa [esvazia_type])

theorem coeso_mkdir (hc : Coeso v) (path : List UInt8) (ticks : Nat) :
    Coeso (v.mkdir path ticks).2 := by
  unfold Volume.mkdir
  cases hp : v.parent_find (path_split path).1 with
  | none => exact hc
  | some parent =>
    obtain ⟨hp1, hp2⟩ := hc.navegavel.parent_find hp
    have := (coeso_cria hc hp1 hp2 (path_split path).2 (Or.inr rfl) ticks).1
    dsimp only
    rcases hx : v.cria parent (path_split path).2 2 ticks with ⟨_ | i, v'⟩ <;> rw [hx] at this
    · exact this
    · exact this

/-- An unlink of a path that leads to an inode below the root. -/
theorem unlink_some (hc : Coeso v) {path : List UInt8} {i p : Nat}
    (hr : v.resolve path = some (i, p)) (h0 : i ≠ 0) :
    ∃ b e, Entrada v p b e i ∧ (v.unlink path).2 = v.apagou i p b e := by
  unfold Volume.unlink
  obtain ⟨_, hip | ⟨⟨hp, hup⟩, tok, ht⟩⟩ := hc.navegavel.resolve hr
  · cases hip
    exact absurd rfl h0
  obtain ⟨h2, hb⟩ := Volume.entra_busca ht
  obtain ⟨pre, b, post, hl, hpre, hb0, e, he, hei, _⟩ := Volume.busca_some hb
  have hent : Entrada v p b e i :=
    ⟨hp, hup, h2, List.mem_range.mp (by rw [hl]; simp), hb0, he, hei, h0⟩
  obtain ⟨g1, g2, g3, g4⟩ := apaga_rest v i
  have hino : (v.apaga i).ino p = v.ino p := by
    rw [g2, update_of_ne (hc.filho hent).2.2.symm]
  rw [hr]
  dsimp only
  rw [hino]
  obtain ⟨b', hb', hb0', e', he', hei', hr'⟩ := dir_remove_acha (v := v.apaga i) (i := i) hl hpre hb0
    he (by rw [g3]; exact hei)
  rw [hr', g3]
  rw [g3] at hei'
  exact ⟨b', e', ⟨hp, hup, h2, List.mem_range.mp hb', hb0', he', hei', h0⟩, rfl⟩

/-- An unlink of a path that does not lead to the root does nothing, or removes an inode and
its entry. -/
theorem unlink_cases (hc : Coeso v) {path : List UInt8}
    (h : ∀ i p, v.resolve path = some (i, p) → i ≠ 0) : (v.unlink path).2 = v ∨
      ∃ i p b e, v.resolve path = some (i, p) ∧ Entrada v p b e i ∧
        (v.unlink path).2 = v.apagou i p b e := by
  cases hr : v.resolve path with
  | none =>
    unfold Volume.unlink
    rw [hr]
    exact Or.inl rfl
  | some x =>
    obtain ⟨i, p⟩ := x
    obtain ⟨b, e, hent, he⟩ := unlink_some hc hr (h i p hr)
    exact Or.inr ⟨i, p, b, e, rfl, hent, he⟩

/-- An unlink of a path that does not lead to the root. -/
theorem coeso_unlink (hc : Coeso v) {path : List UInt8}
    (h : ∀ i p, v.resolve path = some (i, p) → i ≠ 0) : Coeso (v.unlink path).2 := by
  rcases unlink_cases hc h with he | ⟨i, p, b, e, _, hent, he⟩
  · rw [he]
    exact hc
  · rw [he]
    exact coeso_apagou hc hent

end Calls

end SpaceOS.SpaceFs
