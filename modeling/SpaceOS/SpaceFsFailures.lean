-- Writes of SpaceFS that fail or stop early. As long as no data are put into a directory, every
-- block in use is at a place of an inode, and these are too few to use up the bitmap.
import SpaceOS.SpaceFsIndexLaws
import SpaceOS.SpaceFsReadBack
import Mathlib.Data.List.ProdSigma

open Lib.Bytes Lib.Bitmap Lib.BlockProg SpaceOS.Ata
open Function (update update_self update_of_ne)

namespace SpaceOS.SpaceFs

/-- What `spfs_read` gives. -/
def leitura (m : Mem) (d : Disco) (path : List UInt8) (max : Nat) :
    Option (Option (List UInt8)) :=
  (((pelo_journal (spfs_read path max)).run m).exec d).map fun r => r.1.1

/-- The set bits of a bitmap below bit `n`. -/
def bits_postos (bm : Setor) (n : Nat) : Nat := (List.range n).countP (bm_test bm)

/-- The file at the path reads as before, and as many bits of the bitmaps are set. -/
structure Mantem (path : List UInt8) (m : Mem) (d : Disco) (m' : Mem) (d' : Disco) : Prop where
  leitura : ∀ max, leitura m' d' path max = leitura m d path max
  imap : bits_postos m'.fs.imap SFS_INODE_MAX = bits_postos m.fs.imap SFS_INODE_MAX
  bmap : bits_postos m'.fs.bmap (512 * 8) = bits_postos m.fs.bmap (512 * 8)

/-! ## The blocks that a write takes -/

section Blocos

variable {v : Volume} {i : Nat}

theorem unset_tomou {n : Nat} (hn : n < BMAP_BITS) (hfree : v.bmap n = false) (b : Setor) :
    unset (v.tomou n b).bmap BMAP_BITS + 1 = unset v.bmap BMAP_BITS :=
  unset_update_true hn hfree

/-- The loop of `spfs_write` writes as much as the free blocks hold, and takes a block for each
512 bytes begun. -/
theorem write_laco_conta (buf : List UInt8) (l : List Nat) (x : Inode) (done : Nat) (v : Volume)
    (hd : done ≤ buf.length) (hl : buf.length ≤ done + 512 * l.length) :
    (Volume.write_laco buf l x done v).1.2 =
        min buf.length (done + 512 * unset v.bmap BMAP_BITS) ∧
      unset (Volume.write_laco buf l x done v).2.bmap BMAP_BITS =
        unset v.bmap BMAP_BITS - (buf.length - done + 511) / 512 := by
  induction l generalizing x v done with
  | nil =>
    rw [List.length_nil, Nat.mul_zero, Nat.add_zero] at hl
    change done = _ ∧ unset v.bmap BMAP_BITS = _
    omega
  | cons b l ih =>
    rw [List.length_cons] at hl
    rcases write_laco_cons buf b l x done v with ⟨he, hfim⟩ | ⟨hlt, n, hn, hfree, he⟩
    · rw [he]
      dsimp only
      rcases hfim with hfim | hall
      · omega
      · rw [unset_eq_zero.mpr hall]
        omega
    · rw [he]
      have hset := unset_tomou hn hfree
        (bloco_de ((buf.drop done).take (min (buf.length - done) SETOR_SIZE)))
      obtain ⟨h1, h2⟩ := ih (inode_por_block x b (SFS_DATA_START + n))
        (done + min (buf.length - done) SETOR_SIZE)
        (v.tomou n (bloco_de ((buf.drop done).take (min (buf.length - done) SETOR_SIZE))))
        (by omega) (by unfold SETOR_SIZE; omega)
      unfold SETOR_SIZE at *
      omega

theorem enche_conta (v : Volume) (i : Nat) {buf : List UInt8} (hl : buf.length ≤ 10 * 512) :
    (v.enche i buf).1 = min buf.length (512 * unset v.bmap BMAP_BITS) ∧
      unset (v.enche i buf).2.bmap BMAP_BITS =
        unset v.bmap BMAP_BITS - (buf.length + 511) / 512 := by
  have h := write_laco_conta buf (List.range 10) (inode_por_size (v.ino i) buf.length) 0 v
    (Nat.zero_le _) (by rw [List.length_range]; omega)
  rwa [Nat.zero_add, Nat.sub_zero] at h

end Blocos

/-! ## Every block in use is at a place of an inode -/

/-- The inode is the root or in use. -/
def Dono (v : Volume) (i : Nat) : Prop := i < SFS_INODE_MAX ∧ (i = 0 ∨ v.imap i = true)

/-- Every sector with its bit set is at a place of the root or of an inode in use. -/
def Apontado (v : Volume) : Prop :=
  ∀ s, marcado v.bmap s → ∃ i b, Dono v i ∧ Tem (v.ino i) b s

section Apontado

variable {v : Volume} {i : Nat}

/-- There are 2560 places, so there are always ten free blocks. -/
theorem Apontado.sobram (h : Apontado v) : 10 ≤ unset v.bmap BMAP_BITS := by
  have hle := le_unset_add_length (f := v.bmap) (n := BMAP_BITS)
    (l := (List.range SFS_INODE_MAX ×ˢ List.range 10).map fun p =>
      inode_block (v.ino p.1) p.2 - SFS_DATA_START) fun n hn hset => by
    have hm : marcado v.bmap (SFS_DATA_START + n) := by
      refine ⟨⟨Nat.le_add_right _ _, Nat.add_lt_add_left hn _⟩, ?_⟩
      rwa [Nat.add_sub_cancel_left]
    obtain ⟨i, b, ⟨hi, _⟩, hb, hs, _⟩ := h _ hm
    refine List.mem_map.mpr ⟨(i, b), List.mem_product.mpr
      ⟨List.mem_range.mpr hi, List.mem_range.mpr hb⟩, ?_⟩
    dsimp only
    rw [hs, Nat.add_sub_cancel_left]
  rw [List.length_map, List.length_product, List.length_range, List.length_range] at hle
  rw [BMAP_BITS_eq] at hle ⊢
  unfold SFS_INODE_MAX at hle
  omega

theorem Apontado.enche_tudo (h : Apontado v) (i : Nat) {buf : List UInt8}
    (hl : buf.length ≤ 10 * 512) : (v.enche i buf).1 = buf.length := by
  rw [(enche_conta v i hl).1]
  have := h.sobram
  omega

/-- The blocks of an inode given back are marked no more, and no other is newly marked. -/
theorem marcado_free_blocks_of {x : Inode} {l : List Nat} {s : Nat}
    (h : marcado (Volume.free_blocks_of x l v).bmap s) :
    marcado v.bmap s ∧ ∀ b ∈ l, inode_block x b ≠ s := by
  induction l generalizing v with
  | nil => exact ⟨h, fun b hb => absurd hb List.not_mem_nil⟩
  | cons b l ih =>
    rw [Volume.free_blocks_of] at h
    obtain ⟨hm, hl⟩ := ih h
    by_cases h0 : inode_block x b ≠ 0
    · rw [if_pos h0] at hm
      have hset : update v.bmap (inode_block x b - SFS_DATA_START) false (s - SFS_DATA_START) =
        true := hm.2
      have hne : s - SFS_DATA_START ≠ inode_block x b - SFS_DATA_START := fun he => by
        rw [he, update_self] at hset
        exact absurd hset (by decide)
      rw [update_of_ne hne] at hset
      exact ⟨⟨hm.1, hset⟩, List.forall_mem_cons.mpr ⟨fun he => hne (by rw [he]), hl⟩⟩
    · rw [if_neg h0] at hm
      refine ⟨hm, List.forall_mem_cons.mpr ⟨fun he => ?_, hl⟩⟩
      have := hm.1.1
      unfold SFS_DATA_START at this
      omega

/-- The blocks that the loop of `spfs_write` takes are put into the inode. -/
theorem marcado_write_laco (buf : List UInt8) {l : List Nat} (hl : ∀ b ∈ l, b < 10) (hnd : l.Nodup)
    (x : Inode) (done : Nat) {s : Nat} (h : marcado (Volume.write_laco buf l x done v).2.bmap s) :
    marcado v.bmap s ∨ ∃ b, Tem (Volume.write_laco buf l x done v).1.1 b s := by
  induction l generalizing x v done with
  | nil => exact Or.inl h
  | cons b l ih =>
    obtain ⟨hbl, hnd'⟩ := List.nodup_cons.mp hnd
    have hb := hl b List.mem_cons_self
    have hl' : ∀ c ∈ l, c < 10 := fun c hc => hl c (List.mem_cons_of_mem _ hc)
    rcases write_laco_cons buf b l x done v with ⟨he, _⟩ | ⟨_, n, hn, hfree, he⟩
    · rw [he] at h
      exact Or.inl h
    rw [he] at h ⊢
    rcases ih hl' hnd' _ _ h with hm | hm
    · by_cases hs : s = SFS_DATA_START + n
      · refine Or.inr ⟨b, hb, ?_, ?_⟩
        · rw [(escrito_write_laco buf hl' _ _ _).block_eq b hb hbl, block_por_block_self _ _ hb, hs]
          rw [BMAP_BITS_eq] at hn
          unfold SFS_DATA_START
          omega
        · rw [hs]
          unfold SFS_DATA_START
          omega
      · have hset : update v.bmap n true (s - SFS_DATA_START) = true := hm.2
        have hne : s - SFS_DATA_START ≠ n := by
          have := hm.1.1
          omega
        rw [update_of_ne hne] at hset
        exact Or.inl ⟨hm.1, hset⟩
    · exact Or.inr hm

/-- An inode is written: what is marked is at a place of another one, or of its new ones. -/
theorem Apontado.por_ino {x : Inode} (h : ∀ s, marcado v.bmap s →
      (∃ j b, Dono v j ∧ j ≠ i ∧ Tem (v.ino j) b s) ∨ Dono v i ∧ ∃ b, Tem x b s) :
    Apontado (v.por_ino i x) := fun s hm => by
  rcases h s hm with ⟨j, b, hj, hne, ht⟩ | ⟨hi, b, ht⟩
  · refine ⟨j, b, hj, ?_⟩
    change Tem (update v.ino i x j) b s
    rwa [update_of_ne hne]
  · refine ⟨i, b, hi, ?_⟩
    change Tem (update v.ino i x i) b s
    rwa [update_self]

/-- The blocks of inode `i` are given back: what is still marked is at a place of another one. -/
theorem Apontado.devolve (h : Apontado v) (i : Nat) {s : Nat}
    (hm : marcado (Volume.free_blocks_of (v.ino i) (List.range 10) v).bmap s) :
    ∃ j b, Dono v j ∧ j ≠ i ∧ Tem (v.ino j) b s := by
  obtain ⟨hv, hl⟩ := marcado_free_blocks_of hm
  obtain ⟨j, b, hj, ht⟩ := h s hv
  refine ⟨j, b, hj, ?_, ht⟩
  rintro rfl
  exact hl b (List.mem_range.mpr ht.1) ht.2.1

theorem Apontado.esvazia (h : Apontado v) (i : Nat) : Apontado (v.esvazia i) := by
  obtain ⟨h1, h2, _⟩ := free_blocks_of_rest (v.ino i) (List.range 10) v
  refine Apontado.por_ino fun s hm => Or.inl ?_
  obtain ⟨j, b, hj, hne, ht⟩ := h.devolve i hm
  refine ⟨j, b, ?_, hne, ?_⟩
  · unfold Dono
    rwa [h1]
  · rwa [h2]

theorem Apontado.apaga (h : Apontado v) (i : Nat) : Apontado (v.apaga i) := by
  obtain ⟨h1, h2, _, h4⟩ := apaga_rest v i
  intro s hm
  rw [h4] at hm
  obtain ⟨j, b, hj, hne, ht⟩ := h.devolve i hm
  refine ⟨j, b, ?_, ?_⟩
  · unfold Dono
    rwa [h1, update_of_ne hne]
  · rwa [h2, update_of_ne hne]

theorem Apontado.enche (h : Apontado v) (hi : Dono v i) (hz : ∀ b < 10, inode_block (v.ino i) b = 0)
    (buf : List UInt8) : Apontado (v.enche i buf).2 := by
  have hw := escrito_write_laco buf (l := List.range 10) (fun b hb => List.mem_range.mp hb)
    (inode_por_size (v.ino i) buf.length) 0 v
  have hm := fun s => marcado_write_laco buf (l := List.range 10) (v := v)
    (fun b hb => List.mem_range.mp hb) List.nodup_range (inode_por_size (v.ino i) buf.length) 0
    (s := s)
  have he : ∀ r, Volume.write_laco buf (List.range 10) (inode_por_size (v.ino i) buf.length) 0 v =
      r → (v.enche i buf).2 = r.2.por_ino i r.1.1 := fun r hr => hr ▸ rfl
  generalize Volume.write_laco buf (List.range 10) (inode_por_size (v.ino i) buf.length) 0 v = r
    at hw hm he
  rw [he r rfl]
  refine Apontado.por_ino fun s hs => ?_
  unfold Dono
  rw [hw.imap_eq, hw.ino_eq]
  rcases hm s hs with hv | hx
  · obtain ⟨j, b, hj, ht⟩ := h s hv
    refine Or.inl ⟨j, b, hj, ?_, ht⟩
    rintro rfl
    exact ht.2.2 (ht.2.1.symm.trans (hz b ht.1))
  · exact Or.inr ⟨hi, hx⟩

/-- What the block of a new entry changes: a sector taken is put into the directory. -/
theorem marcado_abre_bloco {w : Volume} {x x' : Inode} {b t : Nat} {dblk : Setor} (hb : b < 10)
    (ha : v.abre_bloco x b = (some (t, x', dblk), w)) {s : Nat} (hm : marcado w.bmap s) :
    (∃ c, Tem x' c s) ∨ marcado v.bmap s ∧ ∀ c, Tem x c s → Tem x' c s := by
  rcases Volume.abre_bloco_cases ha with ⟨h0, n, hn, _, rfl, rfl, _, rfl⟩ | ⟨_, _, rfl, _, rfl⟩
  · have hs : DeDados (SFS_DATA_START + n) := ⟨Nat.le_add_right _ _, Nat.add_lt_add_left hn _⟩
    by_cases hsn : s = SFS_DATA_START + n
    · exact Or.inl ⟨b, (tem_por_block hb h0 hs b s).mpr (Or.inr ⟨rfl, hsn⟩)⟩
    · have hset : update v.bmap n true (s - SFS_DATA_START) = true := hm.2
      have hne : s - SFS_DATA_START ≠ n := by
        have := hm.1.1
        omega
      rw [update_of_ne hne] at hset
      exact Or.inr ⟨⟨hm.1, hset⟩, fun c hc => (tem_por_block hb h0 hs c s).mpr (Or.inl hc)⟩
  · exact Or.inr ⟨hm, fun _ h => h⟩

/-- Whether the inode is the root or in use does not change when others come into use. -/
theorem Dono.congr {w : Volume} (h : Dono v i) (hu : w.imap i = v.imap i) : Dono w i :=
  ⟨h.1, by rw [hu]; exact h.2⟩

theorem Apontado.dir_add_entry (h : Apontado v) {p : Nat} (hp : Dono v p) (child : Nat)
    (name : List UInt8) : Apontado (v.dir_add_entry p child name).2 := by
  unfold Volume.dir_add_entry
  rcases dir_add_laco_cases p child name (List.range 10) (v.ino p) v with ⟨he, _⟩ |
    ⟨pre, b, post, t, x', dblk, w, e, hl, _, ha, _, he⟩
  · rw [he]
    exact h
  have hb : b < 10 := List.mem_range.mp (by rw [hl]; simp)
  have hw : w.imap = v.imap ∧ w.ino = v.ino := by
    rcases Volume.abre_bloco_cases ha with ⟨_, n, _, _, _, _, _, rfl⟩ | ⟨_, _, _, _, rfl⟩
    · exact ⟨rfl, rfl⟩
    · exact ⟨rfl, rfl⟩
  have hdono : ∀ j, Dono v j → Dono (w.por_dado t (dirent_por dblk e child name)) j :=
    fun j hj => hj.congr (congrFun hw.1 j)
  rw [he]
  refine Apontado.por_ino fun s hm => ?_
  simp only [tem_por_size]
  rcases marcado_abre_bloco hb ha hm with hx | ⟨hv, hmais⟩
  · exact Or.inr ⟨hdono p hp, hx⟩
  · obtain ⟨j, c, hj, ht⟩ := h s hv
    by_cases hjp : j = p
    · rw [hjp] at ht
      exact Or.inr ⟨hdono p hp, c, hmais c ht⟩
    · refine Or.inl ⟨j, c, hdono j hj, hjp, ?_⟩
      change Tem (w.ino j) c s
      rwa [hw.2]

/-- The inode that `alloc_inode` takes had no place that counted. -/
theorem Dono.alloc_inode {w : Volume} {j : Nat} (hj : Dono v j) (ha : v.alloc_inode = (some i, w)) :
    j ≠ i ∧ Dono w j := by
  obtain ⟨⟨h1, _⟩, hfree, himap, _⟩ := alloc_inode_some ha
  have hji : j ≠ i := by
    rintro rfl
    rcases hj.2 with h0 | hu
    · omega
    · rw [hfree] at hu
      exact absurd hu (by decide)
  exact ⟨hji, hj.congr (by rw [himap, update_of_ne hji])⟩

/-- A file or directory is made, or no inode is free. -/
theorem Apontado.cria (h : Apontado v) {p : Nat} (hp : Dono v p) (name : List UInt8)
    (t ticks : Nat) : v.cria p name t ticks = (none, v) ∨
      ∃ i w, v.cria p name t ticks = (some i, w) ∧ Apontado w ∧ Dono w i ∧
        ∀ b < 10, inode_block (w.ino i) b = 0 := by
  unfold Volume.cria
  rcases hx : v.alloc_inode with ⟨_ | i, w⟩
  · rcases v.alloc_inode_cases with ⟨_, he⟩ | ⟨i, _, _, _, _, he⟩ <;> rw [he] at hx <;> cases hx
    exact Or.inl rfl
  obtain ⟨⟨_, hi⟩, _, himap, hino, _, hbmap⟩ := alloc_inode_some hx
  have hnovo : Apontado (w.por_ino i (inode_novo t ticks)) := Apontado.por_ino fun s hm => by
    rw [hbmap] at hm
    obtain ⟨j, b, hj, ht⟩ := h s hm
    obtain ⟨hji, hjw⟩ := hj.alloc_inode hx
    exact Or.inl ⟨j, b, hjw, hji, by rwa [hino]⟩
  obtain ⟨hpi, hpw⟩ := hp.alloc_inode hx
  obtain ⟨g1, g2⟩ := dir_add_entry_rest (w.por_ino i (inode_novo t ticks)) p i name
  refine Or.inr ⟨i, _, rfl, hnovo.dir_add_entry hpw i name, ⟨hi, Or.inr ?_⟩, fun b hb => ?_⟩
  · rw [g1]
    change w.imap i = true
    rw [himap, update_self]
  · have hself : (w.por_ino i (inode_novo t ticks)).ino i = inode_novo t ticks :=
      update_self i _ w.ino
    rw [g2 i hpi.symm, hself, block_novo _ _ hb]

end Apontado

/-! ## The calls -/

section Calls

variable {T : Nat → Prop} {v : Volume} {m m1 : Mem} {d d1 : Disco} {path buf : List UInt8}
  {ticks : Nat}

/-- A write does nothing, or it writes all. -/
theorem Apontado.write (h : Apontado v) (hn : Navegavel T v) (hT : ∀ i, T i → Dono v i)
    (path buf : List UInt8) (ticks : Nat) : v.write path buf ticks = (none, v) ∨
      (v.write path buf ticks).1 = some buf.length ∧ Apontado (v.write path buf ticks).2 := by
  unfold Volume.write
  split
  · exact Or.inl rfl
  rename_i hlen
  cases hp : v.parent_find (path_split path).1 with
  | none => exact Or.inl rfl
  | some parent =>
    dsimp only
    unfold Volume.write_inode
    cases hr : v.resolve path with
    | none =>
      dsimp only
      rcases h.cria (hT _ (hn.parent_find hp)) (path_split path).2 1 ticks with
        he | ⟨i, w, he, hw, hi, hz⟩ <;> rw [he]
      · exact Or.inl rfl
      · exact Or.inr ⟨congrArg some (hw.enche_tudo i (by omega)), hw.enche hi hz buf⟩
    | some r =>
      have hi : Dono (v.esvazia r.1) r.1 :=
        (hT _ (hn.resolve hr).1).congr (congrFun (esvazia_rest v r.1).1 r.1)
      have hw := h.esvazia r.1
      exact Or.inr ⟨congrArg some (hw.enche_tudo r.1 (by omega)),
        hw.enche hi (fun b hb => esvazia_block b hb) buf⟩

theorem Apontado.mkdir (h : Apontado v) (hn : Navegavel T v) (hT : ∀ i, T i → Dono v i)
    (path : List UInt8) (ticks : Nat) : Apontado (v.mkdir path ticks).2 := by
  unfold Volume.mkdir
  cases hp : v.parent_find (path_split path).1 with
  | none => exact h
  | some parent =>
    dsimp only
    rcases h.cria (hT _ (hn.parent_find hp)) (path_split path).2 2 ticks with
      he | ⟨i, w, he, hw, _⟩ <;> rw [he]
    · exact h
    · exact hw

theorem Apontado.unlink (h : Apontado v) (path : List UInt8) : Apontado (v.unlink path).2 := by
  unfold Volume.unlink
  cases hr : v.resolve path with
  | none => exact h
  | some r =>
    obtain ⟨i, parent⟩ := r
    have ha := h.apaga i
    dsimp only
    rcases dir_remove_cases ((v.apaga i).ino parent) (v.apaga i) i (List.range 10) with
      he | ⟨b, _, _, e, _, he⟩ <;> rw [he]
    · exact ha
    · exact ha

theorem Apontado.chama (h : Apontado v) (hn : Navegavel T v) (hT : ∀ i, T i → Dono v i)
    (c : Chamada) : Apontado (c.no_volume v) := by
  cases c with
  | write path buf ticks =>
    change Apontado (v.write path buf ticks).2
    rcases h.write hn hT path buf ticks with he | ⟨_, hw⟩
    · rwa [he]
    · exact hw
  | mkdir path ticks => exact h.mkdir hn hT path ticks
  | unlink path => exact h.unlink path

/-- Every path can be followed, to inodes in use or to the root. -/
theorem Seguro.navegavel_donos (h : Seguro v) : ∃ T, Navegavel T v ∧ ∀ i, T i → Dono v i := by
  rcases h with hc | hs
  · exact ⟨_, hc.navegavel, fun i hi => ⟨hi.1, Or.inr hi.2⟩⟩
  · exact ⟨_, hs.navegavel, fun i hi => ⟨hs.navegavel.lt i hi, Or.inl hi⟩⟩

theorem Alcanca.apontado (h : Alcanca SemResto PoupaDirs m d) :
    ∃ v, Vivo m d v ∧ Seguro v ∧ Apontado v :=
  h.invariante (J := fun v => Seguro v ∧ Apontado v)
    (fun d hr => ⟨Or.inl (coeso_novo_volume hr), fun _ hm => absurd hm.2 Bool.false_ne_true⟩)
    (fun _ hj => hj.1.navegavel) fun {_ _ _ c} hv hj _ hp => by
      obtain ⟨T, hn, hT⟩ := hj.1.navegavel_donos
      exact ⟨hj.1.chama hv hp, hj.2.chama hn hT c⟩

/-- Two states that hold the same volume read alike and have the same bits set. -/
theorem mantem_de_vivo (hn : Navegavel T v) (hv : Vivo m d v) (hv1 : Vivo m1 d1 v)
    (path : List UInt8) : Mantem path m d m1 d1 where
  leitura := fun max => by
    obtain ⟨m2, d2, he, _⟩ := (refina_spfs_read hn path max).pelo_journal hv
    obtain ⟨m3, d3, he1, _⟩ := (refina_spfs_read hn path max).pelo_journal hv1
    unfold leitura
    rw [he, he1]
    rfl
  imap := List.countP_congr fun i hi => by
    rw [hv.rep.imap i (List.mem_range.mp hi), hv1.rep.imap i (List.mem_range.mp hi)]
  bmap := List.countP_congr fun n hn => by
    have hlt : n < BMAP_BITS := by
      rw [BMAP_BITS_eq]
      exact List.mem_range.mp hn
    rw [hv.rep.bmap n hlt, hv1.rep.bmap n hlt]

/-- In every run in which the log left on the disk has nothing for the first 35 sectors and no write
puts data into a directory, a write that returns -1 or less than it was given leaves the file at its
path and the numbers of set bits as they were. -/
theorem a_failed_write_keeps_the_old_file {ret : Option Nat} (h : Alcanca SemResto PoupaDirs m d)
    (he : ((pelo_journal (spfs_write path buf ticks)).run m).exec d = some ((ret, m1), d1))
    (hf : ∀ n, ret = some n → n < buf.length) : Mantem path m d m1 d1 := by
  obtain ⟨v, hv, hs, ha⟩ := h.apontado
  obtain ⟨T, hn, hT⟩ := hs.navegavel_donos
  obtain ⟨m2, d2, he2, hv2⟩ := (refina_spfs_write hn path buf ticks).pelo_journal hv
  rw [he2] at he
  cases he
  rcases ha.write hn hT path buf ticks with hnone | ⟨hsome, _⟩
  · rw [hnone] at hv2
    exact mantem_de_vivo hn hv hv2 path
  · exact absurd (hf _ hsome) (Nat.lt_irrefl _)

/-- The law at a write into a directory that is not there, right after the mount. -/
theorem a_failed_write_keeps_the_old_file_after_the_mount : ∃ m d m1 d1,
    Alcanca SemResto PoupaDirs m d ∧
      ((pelo_journal (spfs_write [97, 47, 98] [65] 0)).run m).exec d = some ((none, m1), d1) ∧
      Mantem [97, 47, 98] m d m1 d1 := by
  obtain ⟨m, d, ha, hv, hr⟩ := alcanca_vazio (fun _ h => h) PoupaDirs
  have hc := coeso_novo_volume hr
  obtain ⟨m1, d1, he, _⟩ := (refina_spfs_write hc.navegavel [97, 47, 98] [65] 0).pelo_journal hv
  have hres : (Volume.novo d).resolve [97] = none := by
    rw [resolve_parent _ (by decide) (by decide)]
    change ((Volume.novo d).entra 0 [97]).map _ = none
    rw [entra_vazio]
    · rfl
    · change inode_size (ino d 0) / 32 = 0
      rw [hr, size_novo]
  have hp : (Volume.novo d).parent_find (path_split [97, 47, 98]).1 = none := by
    change ((Volume.novo d).resolve [97]).map Prod.fst = none
    rw [hres]
    rfl
  have hw : (Volume.novo d).write [97, 47, 98] [65] 0 = (none, Volume.novo d) := by
    unfold Volume.write
    rw [if_neg (show ¬ 10 * 512 < [(65 : UInt8)].length by decide), hp]
  rw [hw] at he
  exact ⟨m, d, m1, d1, ha, he, a_failed_write_keeps_the_old_file ha he fun _ h => by cases h⟩

end Calls

/-! ## What a write consists of -/

section Escritas

variable {v : Volume} {buf : List UInt8} {ticks : Nat}

theorem resolve_na_raiz {c : UInt8} (h : path_split [c] = ([], [c])) (v : Volume) :
    v.resolve [c] = (v.entra 0 [c]).map fun i => (i, 0) := by
  rw [resolve_parent v (by rw [List.length_singleton]; decide)
    (by rw [h]; exact List.cons_ne_nil c []), h]
  rfl

/-- A write to what is there. -/
theorem write_achado {path : List UInt8} {i p q : Nat} (hr : v.resolve path = some (i, p))
    (hp : v.parent_find (path_split path).1 = some q) (hl : buf.length ≤ 10 * 512) :
    v.write path buf ticks =
      (some ((v.esvazia i).enche i buf).1, ((v.esvazia i).enche i buf).2) := by
  unfold Volume.write
  rw [if_neg (by omega), hp]
  dsimp only
  unfold Volume.write_inode
  rw [hr]

/-- A write to what is not there. -/
theorem write_novo {w : Volume} {path : List UInt8} {i q : Nat} (hr : v.resolve path = none)
    (hp : v.parent_find (path_split path).1 = some q)
    (hc : v.cria q (path_split path).2 1 ticks = (some i, w)) (hl : buf.length ≤ 10 * 512) :
    v.write path buf ticks = (some (w.enche i buf).1, (w.enche i buf).2) := by
  unfold Volume.write
  rw [if_neg (by omega), hp]
  dsimp only
  unfold Volume.write_inode
  rw [hr]
  dsimp only
  rw [hc]

theorem enche_vazio (v : Volume) (i : Nat) :
    (v.enche i []).2.ino i = inode_por_size (v.ino i) 0 := by
  rw [enche_ino, update_self, write_laco_fim (Nat.zero_le _)]
  rfl

/-- What the loop of `spfs_write` keeps marked. -/
theorem marcado_depois_write_laco (buf : List UInt8) (l : List Nat) (x : Inode) (done : Nat)
    {s : Nat} (h : marcado v.bmap s) : marcado (Volume.write_laco buf l x done v).2.bmap s := by
  induction l generalizing x v done with
  | nil => exact h
  | cons b l ih =>
    rcases write_laco_cons buf b l x done v with ⟨he, _⟩ | ⟨_, n, hn, hfree, he⟩ <;> rw [he]
    · exact h
    · exact ih _ _ (marcado_tomou h)

/-- Data of one block, where one is free. -/
theorem write_laco_um {buf : List UInt8} (hpos : 0 < buf.length) (hlen : buf.length ≤ SETOR_SIZE)
    (hb : ∃ n < BMAP_BITS, v.bmap n = false) (x : Inode) :
    ∃ n < BMAP_BITS, Volume.write_laco buf (List.range 10) x 0 v =
      ((inode_por_block x 0 (SFS_DATA_START + n), buf.length), v.tomou n (bloco_de buf)) := by
  have hl : List.range 10 = 0 :: List.range' 1 9 := rfl
  rw [hl]
  rcases write_laco_cons buf 0 (List.range' 1 9) x 0 v with ⟨_, hfim | hall⟩ | ⟨_, n, hn, _, he⟩
  · omega
  · obtain ⟨n, hn, hfree⟩ := hb
    rw [hall n hn] at hfree
    exact absurd hfree (by decide)
  · have hmin : min (buf.length - 0) SETOR_SIZE = buf.length := Nat.min_eq_left hlen
    rw [hmin, List.drop_zero, List.take_length, Nat.zero_add] at he
    exact ⟨n, hn, he.trans (write_laco_fim (Nat.le_refl _) _)⟩

/-- Where no inode in use has blocks, all are free. -/
theorem Coeso.todos_livres (hc : Coeso v)
    (hz : ∀ i, v.imap i = true → ∀ b < 10, inode_block (v.ino i) b = 0) :
    ∀ n < BMAP_BITS, v.bmap n = false := fun n hn => by
  by_contra hset
  have hm : marcado v.bmap (SFS_DATA_START + n) := by
    refine ⟨⟨Nat.le_add_right _ _, Nat.add_lt_add_left hn _⟩, ?_⟩
    rw [Nat.add_sub_cancel_left]
    exact Bool.not_eq_false _ ▸ hset
  obtain hno | ⟨i, b, ⟨_, hu⟩, hb, hs, hne⟩ := (hc.posse.mark_iff _).mp hm
  · exact hno
  · exact hne (hs.symm.trans (hz i hu b hb))

theorem alloc_inode_um (h : v.imap 1 = false) : v.alloc_inode = (some 1, { v with
    imap := update v.imap 1 true
    free_inodes := (v.free_inodes + 2 ^ 32 - 1) % 2 ^ 32 }) := by
  have hl : List.range' 1 (SFS_INODE_MAX - 1) = 1 :: List.range' 2 254 := rfl
  have hf : (List.range' 1 (SFS_INODE_MAX - 1)).find? (fun i => !v.imap i) = some 1 := by
    rw [hl, List.find?_cons_of_pos]
    rw [h]
    rfl
  unfold Volume.alloc_inode
  rw [hf]

/-- The first free inode is made a file of the root. -/
theorem cria_um (h : v.imap 1 = false) (name : List UInt8) (ticks : Nat) : ∃ w,
    w = (Volume.dir_add_entry (Volume.por_ino { v with
        imap := update v.imap 1 true
        free_inodes := (v.free_inodes + 2 ^ 32 - 1) % 2 ^ 32 } 1 (inode_novo 1 ticks)) 0 1 name).2 ∧
      v.cria 0 name 1 ticks = (some 1, w) ∧ w.ino 1 = inode_novo 1 ticks := by
  refine ⟨_, rfl, ?_, ?_⟩
  · unfold Volume.cria
    rw [alloc_inode_um h]
  · rw [(dir_add_entry_rest _ 0 1 name).2 1 (by decide)]
    exact update_self 1 (inode_novo 1 ticks) v.ino

end Escritas

/-! ## Two entries for one inode -/

/-- The data of a block with the entries `f` and `y`, both of inode 1. -/
def dados_cruzados : List UInt8 :=
  [1, 0, 0, 0, 102] ++ List.replicate 27 0 ++ [1, 0, 0, 0, 121] ++ List.replicate 27 0

/-- The block. -/
def bloco_cruzado : Setor := bloco_de dados_cruzados

/-- The block without the entry `f`. -/
def bloco_solto : Setor := dirent_por_inode bloco_cruzado 0 0

/-- The root has one block, whose contents are `dblk`, and a size of `n`; inode 1 is a file, in use
or not, and `c` blocks are free. -/
structure Cruzado (n c : Nat) (uso : Bool) (dblk : Setor) (v : Volume) : Prop where
  imap : v.imap = update (fun i => decide (i = 0)) 1 uso
  dir : inode_type (v.ino 0) = 2
  bloco : marcado v.bmap (inode_block (v.ino 0) 0)
  resto : ∀ b < 10, b ≠ 0 → inode_block (v.ino 0) b = 0
  size : inode_size (v.ino 0) = n
  dado : v.dado (inode_block (v.ino 0) 0) = dblk
  arquivo : inode_type (v.ino 1) ≠ 2
  bons : Bons (v.ino 1)
  livres : unset v.bmap BMAP_BITS = c

section Blocos

theorem entradas_cruzadas : ∀ e < SFS_DIRENTS_PER_BLK,
    dirent_inode bloco_cruzado e ≤ 1 ∧ dirent_inode bloco_solto e ≤ 1 := by decide +kernel

theorem bloco_solto_por : dirent_por bloco_solto 0 1 [102] = bloco_cruzado :=
  funext (by decide +kernel : ∀ i, dirent_por bloco_solto 0 1 [102] i = bloco_cruzado i)

theorem vaga_solto : Volume.vaga bloco_solto = some 0 := by decide +kernel

theorem remove_cruzado : (List.range SFS_DIRENTS_PER_BLK).find?
    (fun e => dirent_inode bloco_cruzado e = 1) = some 0 := by decide +kernel

/-- In the whole block `f` and `y` are found, without its entry `f` is not. -/
theorem busca_cruzado {n : Nat} (hn : 2 ≤ n) :
    (busca_bloco bloco_cruzado [102] n).map (dirent_inode bloco_cruzado) = some 1 ∧
      (busca_bloco bloco_solto [121] n).map (dirent_inode bloco_solto) = some 1 ∧
      busca_bloco bloco_solto [102] n = none := by
  have h2 : 2 ≤ min SFS_DIRENTS_PER_BLK n := Nat.le_min.mpr ⟨by decide, hn⟩
  refine ⟨?_, ?_, ?_⟩
  · have hf : busca_bloco bloco_cruzado [102] n = some 0 := by
      refine List.find?_range_eq_some.mpr ⟨by decide +kernel, List.mem_range.mpr (by omega),
        fun j hj => absurd hj (Nat.not_lt_zero j)⟩
    rw [hf]
    decide +kernel
  · have hy : busca_bloco bloco_solto [121] n = some 1 := by
      refine List.find?_range_eq_some.mpr ⟨by decide +kernel, List.mem_range.mpr (by omega),
        fun j hj => ?_⟩
      obtain rfl : j = 0 := by omega
      decide +kernel
    rw [hy]
    decide +kernel
  · refine List.find?_eq_none.mpr fun e he => ?_
    have hlt : e < SFS_DIRENTS_PER_BLK :=
      Nat.lt_of_lt_of_le (List.mem_range.mp he) (Nat.min_le_left _ _)
    have hall : ∀ e < SFS_DIRENTS_PER_BLK, ¬ (decide (dirent_inode bloco_solto e ≠ 0) &&
      decide (dirent_name bloco_solto e = [102])) = true := by decide +kernel
    exact hall e hlt

end Blocos

section Ciclo

variable {n c : Nat} {uso : Bool} {dblk : Setor} {v : Volume} {buf : List UInt8} {ticks : Nat}

theorem Cruzado.navegavel (h : Cruzado n c uso dblk v)
    (hd : ∀ e < SFS_DIRENTS_PER_BLK, dirent_inode dblk e ≤ 1) : Navegavel (· ≤ 1) v where
  raiz := Nat.zero_le 1
  lt := fun i hi => Nat.lt_of_le_of_lt hi (by decide)
  bons := fun i hi => by
    obtain rfl | rfl : i = 0 ∨ i = 1 := by omega
    · intro b hb hne
      by_cases h0 : b = 0
      · rw [h0]
        exact h.bloco.1
      · exact absurd (h.resto b hb h0) hne
    · exact h.bons
  filhos := fun i hi ht b hb hne e he _ => by
    obtain rfl | rfl : i = 0 ∨ i = 1 := by omega
    · by_cases h0 : b = 0
      · rw [h0, h.dado]
        exact hd e he
      · exact absurd (h.resto b hb h0) hne
    · exact absurd ht h.arquivo

theorem Cruzado.bloco_pos (h : Cruzado n c uso dblk v) : inode_block (v.ino 0) 0 ≠ 0 := by
  have := h.bloco.1.1
  unfold SFS_DATA_START at this
  omega

theorem Cruzado.entra (h : Cruzado n c uso dblk v) (hn : 64 ≤ n) (tok : List UInt8) :
    v.entra 0 tok = (busca_bloco dblk tok (n / 32)).map (dirent_inode dblk) := by
  have hl : List.range 10 = 0 :: 1 :: List.range' 2 8 := rfl
  have h1 := h.resto 1 (by decide) (by decide)
  unfold Volume.entra
  rw [if_neg (not_not.mpr h.dir), hl, Volume.busca, h.size, if_neg (by omega), if_neg h.bloco_pos,
    h.dado]
  cases busca_bloco dblk tok (n / 32) with
  | some e => rfl
  | none =>
    dsimp only
    rw [Volume.busca]
    by_cases h0 : n / 32 - SFS_DIRENTS_PER_BLK = 0
    · rw [if_pos h0]
      rfl
    · rw [if_neg h0, if_pos h1]
      rfl

theorem Cruzado.por_um (h : Cruzado n c uso dblk v) {x : Inode} (ht : inode_type x ≠ 2)
    (hb : Bons x) : Cruzado n c uso dblk (v.por_ino 1 x) := by
  have h0 : (v.por_ino 1 x).ino 0 = v.ino 0 := update_of_ne (show 0 ≠ 1 by decide) x v.ino
  have h1 : (v.por_ino 1 x).ino 1 = x := by
    change update v.ino 1 x 1 = x
    rw [update_self]
  refine ⟨h.imap, ?_, ?_, ?_, ?_, ?_, by rwa [h1], by rwa [h1], h.livres⟩ <;> rw [h0]
  · exact h.dir
  · exact h.bloco
  · exact h.resto
  · exact h.size
  · exact h.dado

/-- Data put into inode 1. -/
theorem Cruzado.enche (h : Cruzado n c uso dblk v) (hl : buf.length ≤ 10 * 512) :
    Cruzado n (c - (buf.length + 511) / 512) uso dblk (v.enche 1 buf).2 := by
  have hw := escrito_write_laco buf (l := List.range 10) (fun b hb => List.mem_range.mp hb)
    (inode_por_size (v.ino 1) buf.length) 0 v
  have hb := bons_write_laco buf (l := List.range 10) (fun b hb => List.mem_range.mp hb)
    (h.bons.por_size buf.length) 0 v
  have h0 : (v.enche 1 buf).2.ino 0 = v.ino 0 := by
    rw [enche_ino, update_of_ne (by decide)]
  refine ⟨(enche_imap v 1 buf).trans h.imap, ?_, ?_, ?_, ?_, ?_, ?_, ?_, ?_⟩
  · rw [h0]
    exact h.dir
  · rw [h0, enche_bmap]
    exact marcado_depois_write_laco _ _ _ _ h.bloco
  · rw [h0]
    exact h.resto
  · rw [h0]
    exact h.size
  · rw [h0]
    exact (hw.dado_eq _ h.bloco).trans h.dado
  · rw [enche_type]
    exact h.arquivo
  · rw [enche_ino, update_self]
    exact hb
  · rw [(enche_conta v 1 hl).2, h.livres]

end Ciclo

/-! ## The calls on such a volume -/

section Chamadas

variable {n c : Nat} {uso : Bool} {dblk : Setor} {v : Volume} {buf : List UInt8} {ticks : Nat}

/-- Inode 1 comes into use or goes out of it. -/
theorem Cruzado.por_uso (h : Cruzado n c uso dblk v) (u : Bool) (f : Nat) :
    Cruzado n c u dblk { v with imap := update v.imap 1 u, free_inodes := f } :=
  ⟨by rw [h.imap, Function.update_idem], h.dir, h.bloco, h.resto, h.size, h.dado, h.arquivo, h.bons,
    h.livres⟩

theorem Cruzado.dir_add (h : Cruzado n c uso bloco_solto v) (hs : n + 32 < 2 ^ 32) :
    Cruzado (n + 32) c uso bloco_cruzado (v.dir_add_entry 0 1 [102]).2 := by
  have hl : List.range 10 = 0 :: List.range' 1 9 := rfl
  have he : v.dir_add_entry 0 1 [102] =
      (true, (v.por_dado (inode_block (v.ino 0) 0) bloco_cruzado).por_ino 0
        (inode_por_size (v.ino 0) (inode_size (v.ino 0) + 32))) := by
    unfold Volume.dir_add_entry
    rw [hl, Volume.dir_add_laco]
    unfold Volume.abre_bloco
    rw [if_neg h.bloco_pos]
    dsimp only
    rw [h.dado, vaga_solto]
    dsimp only
    rw [bloco_solto_por]
  rw [he]
  dsimp only
  generalize hw : Volume.por_ino _ 0 (inode_por_size (v.ino 0) (inode_size (v.ino 0) + 32)) = w
  have h0 : w.ino 0 = inode_por_size (v.ino 0) (inode_size (v.ino 0) + 32) := by
    rw [← hw]
    exact update_self 0 _ v.ino
  have h1 : w.ino 1 = v.ino 1 := by
    rw [← hw]
    change update v.ino 0 (inode_por_size (v.ino 0) (inode_size (v.ino 0) + 32)) 1 = v.ino 1
    rw [update_of_ne (by decide)]
  have hd : w.dado (inode_block (v.ino 0) 0) = bloco_cruzado := by
    rw [← hw]
    exact update_self (inode_block (v.ino 0) 0) _ v.dado
  refine ⟨by rw [← hw]; exact h.imap, ?_, ?_, fun b hb hb0 => ?_, ?_, ?_, ?_, ?_,
    by rw [← hw]; exact h.livres⟩
  · rw [h0, type_por_size]
    exact h.dir
  · rw [h0, block_por_size, ← hw]
    exact h.bloco
  · rw [h0, block_por_size]
    exact h.resto b hb hb0
  · rw [h0, size_por_size, h.size]
    exact Nat.mod_eq_of_lt hs
  · rw [h0, block_por_size]
    exact hd
  · rw [h1]
    exact h.arquivo
  · rw [h1]
    exact h.bons

/-- The first entry of inode 1 is cleared, which is `f`. -/
theorem Cruzado.dir_remove (h : Cruzado n c uso bloco_cruzado v) :
    Cruzado n c uso bloco_solto (Volume.dir_remove (v.ino 0) 1 (List.range 10) v) := by
  have hl : List.range 10 = 0 :: List.range' 1 9 := rfl
  have he : Volume.dir_remove (v.ino 0) 1 (List.range 10) v =
      v.por_dado (inode_block (v.ino 0) 0) bloco_solto := by
    rw [hl, Volume.dir_remove, if_neg h.bloco_pos, h.dado, remove_cruzado]
    rfl
  have hd : update v.dado (inode_block (v.ino 0) 0) bloco_solto (inode_block (v.ino 0) 0) =
    bloco_solto := by rw [update_self]
  rw [he]
  exact ⟨h.imap, h.dir, h.bloco, h.resto, h.size, hd, h.arquivo, h.bons, h.livres⟩

/-- A write to `y` fills inode 1, which is not in use. -/
theorem Cruzado.write_y (h : Cruzado n c false bloco_solto v) (hn : 64 ≤ n)
    (hz : ∀ b < 10, inode_block (v.ino 1) b = 0) (hl : buf.length ≤ 10 * 512) (ticks : Nat) :
    (v.write [121] buf ticks).1 = some (min buf.length (512 * c)) ∧
      Cruzado n (c - (buf.length + 511) / 512) false bloco_solto (v.write [121] buf ticks).2 := by
  have hr : v.resolve [121] = some (1, 0) := by
    rw [resolve_na_raiz (by decide), h.entra hn, (busca_cruzado (by omega)).2.1]
    rfl
  have he : v.esvazia 1 = v.por_ino 1 (inode_sem_blocos (inode_por_size (v.ino 1) 0)) := by
    unfold Volume.esvazia
    rw [free_blocks_of_sem_blocos hz fun b hb => List.mem_range.mp hb]
  have hw : Cruzado n c false bloco_solto (v.esvazia 1) := by
    rw [he]
    refine h.por_um ?_ fun b hb hne => absurd (block_sem_blocos _ hb) hne
    rw [type_sem_blocos, type_por_size]
    exact h.arquivo
  rw [write_achado hr (q := 0) rfl hl]
  exact ⟨congrArg some ((enche_conta _ 1 hl).1.trans (by rw [hw.livres])), hw.enche hl⟩

/-- A write to `f` makes it anew, in inode 1, and what this had for blocks is lost. -/
theorem Cruzado.write_f (h : Cruzado n c false bloco_solto v) (hn : 64 ≤ n) (hs : n + 32 < 2 ^ 32)
    (ticks : Nat) :
    Cruzado (n + 32) c true bloco_cruzado (v.write [102] [] ticks).2 ∧
      ∀ b < 10, inode_block ((v.write [102] [] ticks).2.ino 1) b = 0 := by
  have hr : v.resolve [102] = none := by
    rw [resolve_na_raiz (by decide), h.entra hn, (busca_cruzado (by omega)).2.2]
    rfl
  obtain ⟨w, hw, hcria, hino⟩ := cria_um (by rw [h.imap, update_self]) [102] ticks
  have hwf : Cruzado (n + 32) c true bloco_cruzado w := by
    rw [hw]
    exact ((h.por_uso true _).por_um (by rw [type_novo]; decide) (bons_novo 1 ticks)).dir_add hs
  rw [write_novo hr (q := 0) rfl hcria (Nat.zero_le _)]
  refine ⟨hwf.enche (show ([] : List UInt8).length ≤ 10 * 512 from Nat.zero_le _), fun b hb => ?_⟩
  dsimp only
  rw [enche_vazio, block_por_size, hino, block_novo _ _ hb]

/-- An unlink of `f` takes inode 1 out of use and leaves the entry `y`. -/
theorem Cruzado.unlink_f (h : Cruzado n c true bloco_cruzado v) (hn : 64 ≤ n)
    (hz : ∀ b < 10, inode_block (v.ino 1) b = 0) :
    Cruzado n c false bloco_solto (v.unlink [102]).2 ∧
      ∀ b < 10, inode_block ((v.unlink [102]).2.ino 1) b = 0 := by
  have hr : v.resolve [102] = some (1, 0) := by
    rw [resolve_na_raiz (by decide), h.entra hn, (busca_cruzado (by omega)).1]
    rfl
  obtain ⟨_, hino, _, _⟩ := apaga_rest v 1
  have hw : Cruzado n c false bloco_cruzado (v.apaga 1) := by
    unfold Volume.apaga
    rw [free_blocks_of_sem_blocos hz fun b hb => List.mem_range.mp hb]
    exact (h.por_um (by rw [type_por_type]; decide) (h.bons.por_type 0)).por_uso false _
  unfold Volume.unlink
  rw [hr]
  refine ⟨hw.dir_remove, fun b hb => ?_⟩
  dsimp only
  rw [dir_remove_ino, hino, update_self, block_por_type _ _ hb, hz b hb]

end Chamadas

/-! ## The run -/

section Voltas

variable {n c : Nat} {v : Volume}

/-- A run of calls leads to the volume. -/
def Alcancado (v : Volume) : Prop :=
  ∃ m d, Alcanca (fun _ => True) (fun _ _ _ => True) m d ∧ Vivo m d v

theorem Alcancado.chama {T : Nat → Prop} (h : Alcancado v) (hn : Navegavel T v) {c : Chamada}
    (hc : Caminho c.path) : Alcancado (c.no_volume v) := by
  obtain ⟨m, d, ha, hv⟩ := h
  obtain ⟨m1, d1, he, hv1⟩ := hv.chama hn c
  exact ⟨m1, d1, ha.chama hc trivial he, hv1⟩

/-- A run leads to the volume, on which only the entry `y` names inode 1, which has no blocks. -/
structure Solto (n c : Nat) (v : Volume) : Prop where
  alcancado : Alcancado v
  cruzado : Cruzado n c false bloco_solto v
  vazio : ∀ b < 10, inode_block (v.ino 1) b = 0

theorem solto_de_cruzado (ha : Alcancado v) (h : Cruzado n c true bloco_cruzado v) (hn : 64 ≤ n)
    (hz : ∀ b < 10, inode_block (v.ino 1) b = 0) : Solto n c (v.unlink [102]).2 := by
  obtain ⟨hu, hzu⟩ := h.unlink_f hn hz
  exact ⟨ha.chama (h.navegavel fun e he => (entradas_cruzadas e he).1) (c := .unlink [102])
    (by unfold Caminho; decide), hu, hzu⟩

/-- A turn of three calls: ten blocks are put into `y` and lost. -/
theorem Solto.volta (h : Solto n c v) (hn : 64 ≤ n) (hs : n + 32 < 2 ^ 32) :
    ∃ w, Solto (n + 32) (c - 10) w := by
  obtain ⟨buf, hbuf⟩ : ∃ buf : List UInt8, buf.length = 5120 :=
    ⟨List.replicate 5120 0, List.length_replicate⟩
  have hnav : ∀ {n c v}, Cruzado n c false bloco_solto v → Navegavel (· ≤ 1) v :=
    fun h => h.navegavel fun e he => (entradas_cruzadas e he).2
  obtain ⟨_, hy⟩ := h.cruzado.write_y hn h.vazio (Nat.le_of_eq hbuf) 0
  rw [hbuf] at hy
  obtain ⟨hf, hzf⟩ := hy.write_f hn hs 0
  have ha := h.alcancado.chama (hnav h.cruzado) (c := .write [121] buf 0)
    (show Caminho [121] by unfold Caminho; decide)
  have haf := Alcancado.chama ha (hnav hy) (c := .write [102] [] 0) (by unfold Caminho; decide)
  exact ⟨_, solto_de_cruzado haf hf (by omega) hzf⟩

/-- The data of the two entries are put into a root without blocks. -/
theorem cruzado_de_dados (himap : v.imap = update (fun i => decide (i = 0)) 1 true)
    (ht : inode_type (v.ino 0) = 2) (hz : ∀ b < 10, inode_block (v.ino 0) b = 0)
    (h1 : inode_type (v.ino 1) ≠ 2) (hb1 : Bons (v.ino 1))
    (hb : ∀ n < BMAP_BITS, v.bmap n = false) :
    Cruzado 64 4095 true bloco_cruzado (v.enche 0 dados_cruzados).2 := by
  have hlen : dados_cruzados.length = 64 := by decide
  have hcount := (enche_conta v 0 (show dados_cruzados.length ≤ 10 * 512 by rw [hlen]; decide)).2
  have hlivre : ∃ n < BMAP_BITS, v.bmap n = false := ⟨0, by rw [BMAP_BITS_eq]; decide, hb 0 (by
    rw [BMAP_BITS_eq]
    decide)⟩
  obtain ⟨n, hn, he⟩ := write_laco_um (by rw [hlen]; decide) (by rw [hlen]; decide) hlivre
    (inode_por_size (v.ino 0) dados_cruzados.length)
  have hino : (v.enche 0 dados_cruzados).2.ino = update v.ino 0 (inode_por_block
      (inode_por_size (v.ino 0) dados_cruzados.length) 0 (SFS_DATA_START + n)) := by
    rw [enche_ino, he]
  have hs : (SFS_DATA_START + n) % 2 ^ 32 = SFS_DATA_START + n := by
    rw [BMAP_BITS_eq] at hn
    unfold SFS_DATA_START
    omega
  have hone : (v.enche 0 dados_cruzados).2.ino 1 = v.ino 1 := by
    rw [hino, update_of_ne (by decide)]
  have hbloco : inode_block ((v.enche 0 dados_cruzados).2.ino 0) 0 = SFS_DATA_START + n := by
    rw [hino, update_self, block_por_block_self _ _ (by decide), hs]
  have hdado : (v.enche 0 dados_cruzados).2.dado = (v.tomou n bloco_cruzado).dado :=
    congrArg (fun r : (Inode × Nat) × Volume => r.2.dado) he
  refine ⟨(enche_imap v 0 _).trans himap, (enche_type v 0 _ 0).trans ht, ?_, fun b hb10 hne => ?_,
    ?_, ?_, ?_, ?_, ?_⟩
  · rw [hbloco, enche_bmap, he]
    exact marcado_tomou_self hn _
  · rw [hino, update_self, block_por_block_ne _ _ hb10 hne, block_por_size, hz b hb10]
  · rw [hino, update_self, size_por_block _ _ (by decide), size_por_size, hlen]
    decide
  · rw [hbloco, hdado]
    exact update_self (SFS_DATA_START + n) bloco_cruzado v.dado
  · rwa [hone]
  · rwa [hone]
  · rw [hcount, hlen, unset_eq_self hb, BMAP_BITS_eq]

/-- The first file of an empty volume, under the name `f` and without data, is inode 1. -/
theorem primeiro_f {d : Disco} (hr : ino d 0 = inode_novo 2 0) :
    Coeso ((Volume.novo d).write [102] [] 0).2 ∧
      ((Volume.novo d).write [102] [] 0).2.imap = update (fun i => decide (i = 0)) 1 true ∧
      ((Volume.novo d).write [102] [] 0).2.ino 1 = inode_por_size (inode_novo 1 0) 0 := by
  have hres : (Volume.novo d).resolve [102] = none := by
    rw [resolve_na_raiz (by decide), entra_vazio]
    · rfl
    · change inode_size (ino d 0) / 32 = 0
      rw [hr, size_novo]
  have hc := coeso_write (coeso_novo_volume hr) [102] [] 0 fun i p hx => by
    rw [hres] at hx
    cases hx
  obtain ⟨w, hw, hcria, hino⟩ := cria_um (v := Volume.novo d) rfl [102] 0
  have he : (Volume.novo d).write [102] [] 0 = (some (w.enche 1 []).1, (w.enche 1 []).2) :=
    write_novo hres (q := 0) rfl hcria (Nat.zero_le _)
  refine ⟨hc, ?_, ?_⟩
  · rw [he]
    dsimp only
    rw [enche_imap, hw, (dir_add_entry_rest _ 0 1 [102]).1]
    rfl
  · rw [he]
    dsimp only
    rw [enche_vazio, hino]

/-- The first calls: a file `f`, data for the root that give it a second entry, and an unlink. -/
theorem solto_inicio : ∃ v, Solto 64 4095 v := by
  obtain ⟨m, d, ha, hv, hr⟩ := alcanca_vazio (fun _ _ => trivial) fun _ _ _ => True
  obtain ⟨hc, himap, hone⟩ := primeiro_f hr
  have ha1 : Alcancado ((Volume.novo d).write [102] [] 0).2 :=
    Alcancado.chama ⟨m, d, ha, hv⟩ (coeso_novo_volume hr).navegavel (c := .write [102] [] 0)
      (by unfold Caminho; decide)
  generalize ((Volume.novo d).write [102] [] 0).2 = v1 at hc himap hone ha1
  have hc2 := coeso_esvazia hc (i := 0) (by decide) hc.raiz
  obtain ⟨g1, g2, _⟩ := esvazia_rest v1 0
  have hone2 : (v1.esvazia 0).ino 1 = inode_por_size (inode_novo 1 0) 0 := by
    rw [g2, update_of_ne (by decide), hone]
  have hz1 : ∀ b < 10, inode_block ((v1.esvazia 0).ino 1) b = 0 := fun b hb => by
    rw [hone2, block_por_size, block_novo _ _ hb]
  have hlivres := hc2.todos_livres fun i hu b hb => by
    rw [g1, himap] at hu
    by_cases h1 : i = 1
    · rw [h1]
      exact hz1 b hb
    · rw [update_of_ne h1] at hu
      rw [of_decide_eq_true hu, esvazia_block b hb]
  have hcr := cruzado_de_dados (v := v1.esvazia 0) (g1.trans himap) hc2.raiz_dir
    (fun b hb => esvazia_block b hb) (by rw [hone2, type_por_size, type_novo]; decide)
    (fun b hb hne => absurd (hz1 b hb) hne) hlivres
  have hw2 : v1.write [BARRA] dados_cruzados 0 = (some ((v1.esvazia 0).enche 0 dados_cruzados).1,
      ((v1.esvazia 0).enche 0 dados_cruzados).2) :=
    write_achado (i := 0) (p := 0) (q := 0) rfl rfl (by decide)
  have ha2 : Alcancado (v1.write [BARRA] dados_cruzados 0).2 :=
    Alcancado.chama ha1 hc.navegavel (c := .write [BARRA] dados_cruzados 0)
      (show Caminho [BARRA] by unfold Caminho; decide)
  rw [hw2] at ha2
  refine ⟨_, solto_de_cruzado ha2 hcr (Nat.le_refl _) fun b hb => ?_⟩
  rw [enche_ino, update_of_ne (by decide), hz1 b hb]

theorem solto_voltas (k : Nat) (hk : k ≤ 409) : ∃ v, Solto (64 + 32 * k) (4095 - 10 * k) v := by
  induction k with
  | zero => exact solto_inicio
  | succ k ih =>
    obtain ⟨v, hv⟩ := ih (by omega)
    obtain ⟨w, hw⟩ := hv.volta (by omega) (by omega)
    have hn : 64 + 32 * k + 32 = 64 + 32 * (k + 1) := by omega
    have hc : 4095 - 10 * k - 10 = 4095 - 10 * (k + 1) := by omega
    rw [hn, hc] at hw
    exact ⟨w, hw⟩

end Voltas

theorem bits_postos_bmap {m : Mem} {d : Disco} {v : Volume} (hv : Vivo m d v) :
    bits_postos m.fs.bmap (512 * 8) + unset v.bmap BMAP_BITS = BMAP_BITS := by
  have h := countP_add_unset (bm_test m.fs.bmap) BMAP_BITS
  rw [unset_congr fun n hn => hv.rep.bmap n hn, BMAP_BITS_eq] at h
  rw [BMAP_BITS_eq]
  exact h

/-- After a write of 64 bytes to the root and 409 turns, five blocks are free: a write of 5120 bytes
returns 2560 and has taken them. -/
theorem a_short_write_takes_the_last_blocks :
    ¬ ∀ m d, Alcanca (fun _ => True) (fun _ _ _ => True) m d →
      ∀ path buf ticks ret m1 d1, Caminho path →
        ((pelo_journal (spfs_write path buf ticks)).run m).exec d = some ((ret, m1), d1) →
        (∀ n, ret = some n → n < buf.length) → Mantem path m d m1 d1 := by
  intro h
  obtain ⟨buf, hbuf⟩ : ∃ buf : List UInt8, buf.length = 5120 :=
    ⟨List.replicate 5120 0, List.length_replicate⟩
  obtain ⟨v, hv⟩ := solto_voltas 409 (Nat.le_refl _)
  obtain ⟨m, d, ha, hvivo⟩ := hv.alcancado
  have hnav := hv.cruzado.navegavel fun e he => (entradas_cruzadas e he).2
  obtain ⟨hret, hy⟩ := hv.cruzado.write_y (by decide) hv.vazio (Nat.le_of_eq hbuf) 0
  rw [hbuf] at hret hy
  obtain ⟨m1, d1, he, hv1⟩ := (refina_spfs_write hnav [121] buf 0).pelo_journal hvivo
  rw [hret] at he
  have hm := h m d ha [121] buf 0 _ m1 d1 (by unfold Caminho; decide) he fun n hn => by
    cases hn
    rw [hbuf]
    decide
  have h0 := bits_postos_bmap hvivo
  have h1 := bits_postos_bmap hv1
  have hb := hm.bmap
  rw [hv.cruzado.livres] at h0
  rw [hy.livres] at h1
  omega

end SpaceOS.SpaceFs
