-- Names on a volume: every entry of a directory is one that a search reaches, so a search for a
-- name fails only when no entry has it, and finds an entry that has it alone.
import SpaceOS.SpaceFsCoherence
import Mathlib.Data.List.TakeWhile

open Lib.Bytes Lib.Ownership SpaceOS.Ata
open Function (update update_self update_of_ne)

namespace SpaceOS.SpaceFs

/-! ## The bytes of one entry -/

/-- The 32 bytes of entry `e` of block `b` of inode `i`. -/
def registro (v : Volume) (i b e : Nat) : ByteStr 32 :=
  (v.dado (inode_block (v.ino i) b)).slice (32 * e) 32

/-- The name of an entry whose field ends in a NUL. -/
def nome_de (r : ByteStr 32) : List UInt8 :=
  ((List.range 28).map fun c => r.byte (4 + c)).takeWhile (· ≠ 0)

section Registro

variable {dblk : Setor} {e f c : Nat} {name : List UInt8}

theorem dirent_name_eq (he : e < SFS_DIRENTS_PER_BLK) (h : (dblk.slice (32 * e) 32).byte 31 = 0) :
    dirent_name dblk e = nome_de (dblk.slice (32 * e) 32) := by
  simp only [SFS_DIRENTS_PER_BLK] at he
  have hlen : SETOR_SIZE - (32 * e + 4) = 28 + (SETOR_SIZE - (32 * e + 32)) := by
    simp only [SETOR_SIZE]
    omega
  have hpre : ((List.range 28).map fun c => dblk.byte (32 * e + 4 + c)) =
      (List.range 28).map fun c => (dblk.slice (32 * e) 32).byte (4 + c) := by
    refine List.map_congr_left fun c hc => ?_
    have := List.mem_range.mp hc
    rw [ByteStr.byte_slice _ _ (by omega), Nat.add_assoc]
  unfold dirent_name nome_de
  rw [hlen, List.range_add, List.map_append, List.takeWhile_append, hpre, if_neg]
  intro hl
  have hall : ∀ x ∈ (List.range 28).map fun c => (dblk.slice (32 * e) 32).byte (4 + c),
      decide (x ≠ 0) = true := by
    exact List.takeWhile_eq_self_iff.mp ((List.takeWhile_prefix _).eq_of_length hl)
  have := hall _ (List.mem_map.mpr ⟨27, by decide, rfl⟩)
  rw [h] at this
  exact absurd this (by decide)

theorem slice_dirent_por_ne (hf : f < SFS_DIRENTS_PER_BLK)
    (h : f ≠ e) : (dirent_por dblk e c name).slice (32 * f) 32 = dblk.slice (32 * f) 32 := by
  simp only [SFS_DIRENTS_PER_BLK] at hf
  unfold dirent_por
  rw [ByteStr.slice_splice_ne _ _ (by omega) (by simp only [SETOR_SIZE]; omega)]
  refine ByteStr.ext_mem fun x hx => ?_
  rw [ByteStr.mem_slice _ _ hx, ByteStr.mem_slice _ _ hx]
  exact ByteStr.byte_putWord_ne _ _ (by omega)

theorem slice_dirent_por_inode_ne (h : f ≠ e) :
    (dirent_por_inode dblk e c).slice (32 * f) 32 = dblk.slice (32 * f) 32 := by
  refine ByteStr.ext_mem fun x hx => ?_
  rw [ByteStr.mem_slice _ _ hx, ByteStr.mem_slice _ _ hx]
  exact ByteStr.byte_putWord_ne _ _ (by omega)

theorem byte_dirent_por (he : e < SFS_DIRENTS_PER_BLK) {x : Nat} (hx : x < 28) :
    ((dirent_por dblk e c name).slice (32 * e) 32).byte (4 + x) =
      (name.take SFS_NAME_MAX).getD x 0 := by
  simp only [SFS_DIRENTS_PER_BLK] at he
  unfold dirent_por
  rw [ByteStr.byte_slice _ _ (by omega), ByteStr.byte_splice_self _ _ (by omega) (by omega)
    (by simp only [SETOR_SIZE]; omega)]
  have : 32 * e + (4 + x) - (32 * e + 4) = x := by omega
  rw [this]
  unfold ByteStr.byte ByteStr.mem
  rw [dif_pos hx]
  rfl

theorem nul_dirent_por (he : e < SFS_DIRENTS_PER_BLK) :
    ((dirent_por dblk e c name).slice (32 * e) 32).byte 31 = 0 := by
  have h : ((dirent_por dblk e c name).slice (32 * e) 32).byte (4 + 27) =
      (name.take SFS_NAME_MAX).getD 27 0 := byte_dirent_por he (by decide)
  rw [h, List.getD_eq_default]
  rw [List.length_take]
  exact Nat.min_le_left _ _

/-- The name found in a fresh entry: what fits of the one put there. -/
theorem nome_dirent_por (he : e < SFS_DIRENTS_PER_BLK) (h0 : 0 ∉ name) :
    nome_de ((dirent_por dblk e c name).slice (32 * e) 32) = name.take SFS_NAME_MAX := by
  have hl : (name.take SFS_NAME_MAX).length ≤ 27 := by
    rw [List.length_take]
    exact Nat.min_le_left _ _
  generalize hn : name.take SFS_NAME_MAX = n at hl
  have hn0 : ∀ x ∈ n, x ≠ 0 := fun x hx h => h0 (List.mem_of_mem_take (hn ▸ h ▸ hx))
  have hmap : ((List.range 28).map fun x =>
      ((dirent_por dblk e c name).slice (32 * e) 32).byte (4 + x)) =
      n ++ List.replicate (28 - n.length) 0 := by
    refine List.ext_getElem (by simp; omega) fun x hx _ => ?_
    rw [List.length_map, List.length_range] at hx
    rw [List.getElem_map, List.getElem_range, byte_dirent_por he hx, hn, List.getElem_append]
    split
    · rename_i h
      rw [List.getD_eq_getElem _ _ h]
    · rename_i h
      rw [List.getD_eq_default _ _ (by omega), List.getElem_replicate]
  have hr : List.replicate (28 - n.length) (0 : UInt8) = 0 :: List.replicate (27 - n.length) 0 := by
    rw [← List.replicate_succ]
    congr 1
    omega
  unfold nome_de
  rw [hmap, List.takeWhile_append_of_pos fun x hx => decide_eq_true (hn0 x hx), hr,
    List.takeWhile_cons_of_neg (by simp), List.append_nil]

end Registro

/-! ## Volumes whose entries can all be reached -/

/-- Each entry lies within the size of its directory, after blocks that are all there, and its
name ends in a NUL. -/
structure Legivel (v : Volume) : Prop where
  conta : ∀ {i b e c}, Entrada v i b e c → 16 * b + e < inode_size (v.ino i) / 32
  antes : ∀ {i b e c}, Entrada v i b e c → ∀ b' < b, inode_block (v.ino i) b' ≠ 0
  nul : ∀ {i b e c}, Entrada v i b e c → (registro v i b e).byte 31 = 0

theorem Igual.registro {v v' : Volume} {j b e : Nat} (h : Igual v v' j) (hb : b < 10)
    (h0 : inode_block (v.ino j) b ≠ 0) : registro v' j b e = SpaceFs.registro v j b e := by
  rw [SpaceFs.registro, SpaceFs.registro, h.ino, h.dado b hb h0]

/-- A volume keeps to it when its entries are entries that were there before, unchanged. -/
theorem Legivel.mesmas {v v' : Volume} (hl : Legivel v)
    (h : ∀ {j b e c}, Entrada v' j b e c → Entrada v j b e c ∧ v'.ino j = v.ino j ∧
      registro v' j b e = registro v j b e) : Legivel v' where
  conta := fun g => by
    obtain ⟨g, hi, _⟩ := h g
    rw [hi]
    exact hl.conta g
  antes := fun g => by
    obtain ⟨g, hi, _⟩ := h g
    rw [hi]
    exact hl.antes g
  nul := fun g => by
    obtain ⟨g, _, hr⟩ := h g
    rw [hr]
    exact hl.nul g

theorem Legivel.iguais {v v' : Volume} (hl : Legivel v)
    (h : ∀ {j b e c}, Entrada v' j b e c → Entrada v j b e c ∧ Igual v v' j) : Legivel v' :=
  hl.mesmas fun g => by
    obtain ⟨g, hi⟩ := h g
    exact ⟨g, hi.ino, hi.registro g.lugar g.bloco⟩

section Entra

variable {v w : Volume} {p b s e child : Nat} {dir' : Inode} {dblk : Setor} {name : List UInt8}

theorem Aberto.registro_novo (ha : Aberto v p b s dir' dblk w) :
    registro (w.entrou p s dir' dblk e child name) p b e =
      (dirent_por dblk e child name).slice (32 * e) 32 := by
  unfold registro
  rw [ha.block, update_self, ha.block_self]
  change (update w.dado s _ s).slice _ _ = _
  rw [update_self]

/-- An entry that was there keeps its bytes. -/
theorem Aberto.registro_velho (ha : Aberto v p b s dir' dblk w) (hp : p < SFS_INODE_MAX)
    (hu : v.imap p = true) (hb : b < 10) {j b' e' c : Nat} (g : Entrada v j b' e' c)
    (hne : ¬ (j = p ∧ b' = b ∧ e' = e)) :
    registro (w.entrou p s dir' dblk e child name) j b' e' = registro v j b' e' := by
  by_cases hj : j = p
  · subst hj
    by_cases hb' : b' = b
    · subst hb'
      obtain ⟨h1, h2⟩ := ha.velho g.bloco
      unfold registro
      rw [ha.block, update_self, ha.block_self, h1, h2]
      change (update w.dado s _ s).slice _ _ = _
      rw [update_self]
      exact slice_dirent_por_ne g.vez fun h => hne ⟨rfl, rfl, h⟩
    · unfold registro
      rw [ha.block, update_self, ha.block_ne b' g.lugar hb']
      change (update w.dado s _ _).slice _ _ = _
      rw [ha.dado_eq, update_of_ne]
      intro hs
      have h0 : s ≠ 0 := hs ▸ g.bloco
      exact hb' (ha.posse.unique (i := j) (b := b') (j := j) (c := b) (r := s)
        ⟨⟨hp, hu⟩, g.lugar, by rw [update_self, ha.block_ne b' g.lugar hb', hs], h0⟩
        ⟨⟨hp, hu⟩, hb, by rw [update_self, ha.block_self], h0⟩).2
  · exact (ha.igual hp hu hb g.lt g.uso hj).registro g.lugar g.bloco

theorem Aberto.size (ha : Aberto v p b s dir' dblk w) :
    inode_size ((w.entrou p s dir' dblk e child name).ino p) =
      (inode_size (v.ino p) + 32) % 2 ^ 32 := by
  change inode_size (update w.ino p _ p) = _
  rw [update_self, size_por_size, ha.size_eq]

/-- The first free entry of a block. -/
theorem vaga_antes {e : Nat} (h : Volume.vaga dblk = some e) {f : Nat} (hf : f < e) :
    dirent_inode dblk f ≠ 0 := by
  have := List.find?_range_eq_some.mp h
  simpa using this.2.2 f hf

theorem vaga_none (h : Volume.vaga dblk = none) {f : Nat} (hf : f < SFS_DIRENTS_PER_BLK) :
    dirent_inode dblk f ≠ 0 := by
  have := List.find?_eq_none.mp h f (List.mem_range.mpr hf)
  simpa using this

/-- The entry written is the one right after those in use before it. -/
theorem Aberto.conta (ha : Aberto v p b s dir' dblk w) (hl : Legivel v) (hp : p < SFS_INODE_MAX)
    (hu : v.imap p = true) (ht : inode_type (v.ino p) = 2) (hb : b < 10)
    (hpre : ∀ c < b, Cheio v (v.ino p) c) (he : e < SFS_DIRENTS_PER_BLK)
    (hv : Volume.vaga dblk = some e) : 16 * b + e < (inode_size (v.ino p) + 32) / 32 := by
  rcases Nat.eq_zero_or_pos e with he0 | he0
  · rcases Nat.eq_zero_or_pos b with hb0 | hb0
    · omega
    · obtain ⟨h1, h2⟩ := hpre (b - 1) (by omega)
      have h15 : 15 < SFS_DIRENTS_PER_BLK := by decide
      have := hl.conta (i := p) (b := b - 1) (e := 15)
        ⟨hp, hu, ht, by omega, h1, h15, rfl, vaga_none h2 h15⟩
      omega
  · have h0 := vaga_antes hv (f := e - 1) (by omega)
    obtain ⟨h1, h2⟩ := ha.antes _ h0
    have hs : s ≠ 0 := by
      have := ha.dado.1
      unfold SFS_DATA_START at this
      omega
    have := hl.conta (i := p) (b := b) (e := e - 1)
      ⟨hp, hu, ht, hb, by rw [h1]; exact hs, by omega, rfl, by rw [h1, h2]; exact h0⟩
    omega

/-- A new entry in the first free place keeps the volume readable, as long as the size of the
directory does not overflow. -/
theorem legivel_entrou (name : List UInt8) (hl : Legivel v) (ha : Aberto v p b s dir' dblk w)
    (hp : p < SFS_INODE_MAX) (hu : v.imap p = true) (hb : b < 10) (hpre : ∀ c < b, Cheio v (v.ino p) c)
    (he : e < SFS_DIRENTS_PER_BLK) (hv : Volume.vaga dblk = some e) (hch : child < SFS_INODE_MAX)
    (hsize : inode_type (v.ino p) = 2 → inode_size (v.ino p) + 32 < 2 ^ 32) :
    Legivel (w.entrou p s dir' dblk e child name) := by
  have hent : ∀ {j b' e' c}, Entrada (w.entrou p s dir' dblk e child name) j b' e' c →
      Entrada v j b' e' c ∨ (j, b', e', c) = (p, b, e, child) :=
    fun h => ha.entrada hp hu hb he hch h
  have hbloco : ∀ {b'}, b' < 10 → inode_block (v.ino p) b' ≠ 0 →
      inode_block ((w.entrou p s dir' dblk e child name).ino p) b' ≠ 0 := fun {b'} hb' h0 => by
    rw [ha.block, update_self]
    by_cases hbb : b' = b
    · subst hbb
      rw [ha.block_self, ← (ha.velho h0).1]
      exact h0
    · rwa [ha.block_ne b' hb' hbb]
  refine ⟨fun {j b' e' c} g => ?_, fun {j b' e' c} g x hx => ?_, fun {j b' e' c} g => ?_⟩
  · by_cases hj : j = p
    · subst hj
      have ht : inode_type (v.ino j) = 2 := by
        rw [← ha.type]
        exact g.dir
      rw [ha.size, Nat.mod_eq_of_lt (hsize ht)]
      rcases hent g with g | g
      · have := hl.conta g
        omega
      · cases g
        exact ha.conta hl hp hu ht hb hpre he hv
    · rcases hent g with g | g
      · rw [(ha.igual hp hu hb g.lt g.uso hj).ino]
        exact hl.conta g
      · cases g
        exact absurd rfl hj
  · by_cases hj : j = p
    · subst hj
      refine hbloco (Nat.lt_trans hx g.lugar) ?_
      rcases hent g with g | g
      · exact hl.antes g x hx
      · cases g
        exact (hpre x hx).1
    · rcases hent g with g | g
      · rw [(ha.igual hp hu hb g.lt g.uso hj).ino]
        exact hl.antes g x hx
      · cases g
        exact absurd rfl hj
  · by_cases hne : j = p ∧ b' = b ∧ e' = e
    · obtain ⟨rfl, rfl, rfl⟩ := hne
      rw [ha.registro_novo]
      exact nul_dirent_por he
    · rcases hent g with g | g
      · rw [ha.registro_velho hp hu hb g hne]
        exact hl.nul g
      · cases g
        exact absurd ⟨rfl, rfl, rfl⟩ hne

end Entra

/-! ## The calls -/

section Calls

variable {v : Volume}

theorem range_append_cons {n b : Nat} {pre post : List Nat} (h : List.range n = pre ++ b :: post) :
    pre = List.range b := by
  have hlen : n = pre.length + (post.length + 1) := by
    have := congrArg List.length h
    simpa using this
  have hb : pre.length = b := by
    have h1 := congrArg (fun l : List Nat => l[pre.length]?) h
    simpa [hlen] using h1
  have h2 := congrArg (List.take pre.length) h
  rw [List.take_range, List.take_left, Nat.min_eq_left (by omega), hb] at h2
  exact h2.symm

/-- The size of the directory `p` may grow by one entry. -/
def CabeNoTamanho (v : Volume) (p : Nat) : Prop :=
  inode_type (v.ino p) = 2 → inode_size (v.ino p) + 32 < 2 ^ 32

theorem legivel_dir_add (hc : Coeso v) (hl : Legivel v) {p child : Nat} (hp : p < SFS_INODE_MAX)
    (hu : v.imap p = true) (hch : child < SFS_INODE_MAX) (hs : CabeNoTamanho v p)
    (name : List UInt8) : Legivel (v.dir_add_entry p child name).2 := by
  unfold Volume.dir_add_entry
  rcases dir_add_laco_cases p child name (List.range 10) (v.ino p) v with ⟨he, _⟩ |
    ⟨pre, b, post, s, dir', dblk, w, e, hr, hpre, ha, hv, he⟩
  · rw [he]
    exact hl
  · have hb : b < 10 := List.mem_range.mp (by rw [hr]; simp)
    rw [range_append_cons hr] at hpre
    rw [he]
    exact legivel_entrou name hl (coeso_abre_bloco hc hp hu hb ha) hp hu hb
      (fun c hcb => hpre c (List.mem_range.mpr hcb)) (vaga_some _ hv).1 hv hch hs

theorem legivel_novo (hc : Coeso v) (hl : Legivel v) {v1 : Volume} {i t ticks : Nat}
    (ha : v.alloc_inode = (some i, v1)) : Legivel (v1.por_ino i (inode_novo t ticks)) :=
  hl.iguais fun g => by
    obtain ⟨g, _, hj⟩ := entrada_novo hc ha g
    exact ⟨g, igual_novo ha hj⟩

theorem legivel_cria (hc : Coeso v) (hl : Legivel v) {p : Nat} (hp : p < SFS_INODE_MAX)
    (hu : v.imap p = true) (hs : CabeNoTamanho v p) (name : List UInt8) {t : Nat}
    (ht : t = 1 ∨ t = 2) (ticks : Nat) : Legivel (v.cria p name t ticks).2 := by
  unfold Volume.cria
  rcases hx : v.alloc_inode with ⟨_ | i, v1⟩
  · rcases v.alloc_inode_cases with ⟨_, he⟩ | ⟨i, _, _, _, _, he⟩ <;> rw [he] at hx <;> cases hx
    exact hl
  obtain ⟨⟨_, hi⟩, hfree, himap, _⟩ := alloc_inode_some hx
  have hpi : p ≠ i := by
    rintro rfl
    rw [hfree] at hu
    exact absurd hu (by decide)
  have hup : (v1.por_ino i (inode_novo t ticks)).imap p = true := by
    change v1.imap p = true
    rw [himap, update_of_ne hpi, hu]
  refine legivel_dir_add (coeso_novo _ hc hx ht) (legivel_novo hc hl hx) hp hup hi ?_ name
  unfold CabeNoTamanho
  rw [(igual_novo hx hpi).ino]
  exact hs

theorem legivel_esvazia (hl : Legivel v) (i : Nat) : Legivel (v.esvazia i) :=
  hl.iguais fun g => by
    obtain ⟨g, hj⟩ := entrada_esvazia g
    exact ⟨g, igual_esvazia hj⟩

theorem legivel_enche {i : Nat} {buf : List UInt8} (hc : Coeso v) (hl : Legivel v)
    (hz : ∀ b < 10, inode_block (v.ino i) b = 0) (ht : inode_type (v.ino i) ≠ 2 ∨ buf = []) :
    Legivel (v.enche i buf).2 :=
  hl.iguais fun g => by
    obtain ⟨g, hj⟩ := entrada_enche hc hz ht g
    exact ⟨g, igual_enche hc g.lt g.uso hj⟩

theorem legivel_write (hc : Coeso v) (hl : Legivel v) {path buf : List UInt8} (ticks : Nat)
    (h : ∀ i p, v.resolve path = some (i, p) → inode_type (v.ino i) ≠ 2 ∨ buf = [])
    (hs : v.resolve path = none → ∀ p, v.parent_find (path_split path).1 = some p →
      CabeNoTamanho v p) : Legivel (v.write path buf ticks).2 := by
  unfold Volume.write
  split
  · exact hl
  cases hp : v.parent_find (path_split path).1 with
  | none => exact hl
  | some parent =>
    obtain ⟨hp1, hp2⟩ := hc.navegavel.parent_find hp
    dsimp only
    unfold Volume.write_inode
    cases hr : v.resolve path with
    | none =>
      obtain ⟨g1, g2⟩ := coeso_cria hc hp1 hp2 (path_split path).2 (t := 1) (Or.inl rfl) ticks
      have g3 := legivel_cria hc hl hp1 hp2 (hs hr parent hp) (path_split path).2 (t := 1)
        (Or.inl rfl) ticks
      dsimp only
      rcases hx : v.cria parent (path_split path).2 1 ticks with ⟨_ | i, v'⟩ <;>
        rw [hx] at g1 g2 g3
      · exact g3
      · obtain ⟨_, _, hino⟩ := g2 i rfl
        exact legivel_enche g1 g3 (fun b hb => by rw [hino, block_novo _ _ hb])
          (Or.inl (by rw [hino, type_novo]; decide))
    | some x =>
      obtain ⟨i, q⟩ := x
      obtain ⟨⟨hi, hu⟩, _⟩ := hc.navegavel.resolve hr
      exact legivel_enche (coeso_esvazia hc hi hu) (legivel_esvazia hl i)
        (fun b hb => esvazia_block b hb) ((h i q hr).imp_left fun ht => by rwa [esvazia_type])

theorem legivel_mkdir (hc : Coeso v) (hl : Legivel v) (path : List UInt8) (ticks : Nat)
    (hs : ∀ p, v.parent_find (path_split path).1 = some p → CabeNoTamanho v p) :
    Legivel (v.mkdir path ticks).2 := by
  unfold Volume.mkdir
  cases hp : v.parent_find (path_split path).1 with
  | none => exact hl
  | some parent =>
    obtain ⟨hp1, hp2⟩ := hc.navegavel.parent_find hp
    have := legivel_cria hc hl hp1 hp2 (hs parent hp) (path_split path).2 (Or.inr rfl) ticks
    dsimp only
    rcases hx : v.cria parent (path_split path).2 2 ticks with ⟨_ | i, v'⟩ <;> rw [hx] at this
    · exact this
    · exact this

/-- The removal of `i` changes no directory that still has an entry. -/
theorem ino_apagou (hc : Coeso v) {i p b e : Nat} (h : Entrada v p b e i) {j b' e' c : Nat}
    (g : Entrada (v.apagou i p b e) j b' e' c) : (v.apagou i p b e).ino j = v.ino j := by
  obtain ⟨_, _, hj⟩ := entrada_apagou hc h g
  obtain ⟨_, hino, _⟩ := apaga_rest v i
  change (v.apaga i).ino j = v.ino j
  rw [hino, update_of_ne hj]

/-- An entry that stays keeps its bytes. -/
theorem registro_apagou (hc : Coeso v) {i p b e : Nat} (h : Entrada v p b e i) {j b' e' c : Nat}
    (g : Entrada (v.apagou i p b e) j b' e' c) :
    registro (v.apagou i p b e) j b' e' = registro v j b' e' := by
  obtain ⟨g', hci, _⟩ := entrada_apagou hc h g
  obtain ⟨_, _, hdado, _⟩ := apaga_rest v i
  unfold registro
  rw [ino_apagou hc h g]
  change (update (v.apaga i).dado _ _ _).slice _ _ = _
  rw [hdado]
  by_cases hs : inode_block (v.ino j) b' = inode_block (v.ino p) b
  · obtain ⟨rfl, rfl⟩ := hc.posse.unique (i := j) (b := b') (j := p) (c := b) g'.tem
      (hs ▸ h.tem)
    rw [update_self]
    refine slice_dirent_por_inode_ne fun hee => hci ?_
    subst hee
    exact g'.nome.symm.trans h.nome
  · rw [update_of_ne hs]

theorem legivel_apagou (hc : Coeso v) (hl : Legivel v) {i p b e : Nat} (h : Entrada v p b e i) :
    Legivel (v.apagou i p b e) :=
  hl.mesmas fun g => ⟨(entrada_apagou hc h g).1, ino_apagou hc h g, registro_apagou hc h g⟩

theorem legivel_unlink (hc : Coeso v) (hl : Legivel v) {path : List UInt8}
    (h : ∀ i p, v.resolve path = some (i, p) → i ≠ 0) : Legivel (v.unlink path).2 := by
  rcases unlink_cases hc h with he | ⟨i, p, b, e, _, hent, he⟩
  · rw [he]
    exact hl
  · rw [he]
    exact legivel_apagou hc hl hent

end Calls

end SpaceOS.SpaceFs
