-- The functions of SpaceFS do to the disk and to the caches what their counterparts do to the
-- volume, and the indices they note are in range.
import SpaceOS.JournalLaws
import SpaceOS.SpaceFsIndices
import SpaceOS.SpaceFsVolume

open Lib.Bytes Lib.Bitmap Lib.BlockProg SpaceOS.Ata
open Function (update update_self update_of_ne)

namespace SpaceOS.SpaceFs

open Anotado (N)

/-! ## When the caches and the disk hold a volume -/

/-- The sectors that a mounted file system may touch. -/
def Zona (s : Nat) : Prop := s < 2 ^ 28 ∧ Journal.Fora s

/-- A sector that the block bitmap has a bit for. -/
def DeDados (s : Nat) : Prop := SFS_DATA_START ≤ s ∧ s < SFS_DATA_START + BMAP_BITS

/-- Every block of the inode is a data sector. -/
def Bons (x : Inode) : Prop := ∀ b < 10, inode_block x b ≠ 0 → DeDados (inode_block x b)

theorem DeDados.zona {s : Nat} (h : DeDados s) : Zona s := by
  simp only [DeDados, SFS_DATA_START, BMAP_BITS_eq] at h
  unfold Zona Journal.Fora
  omega

/-- Inode `i` of a disk. -/
def ino (d : Disco) (i : Nat) : Inode := (d (inode_sector i)).slice (inode_off i) 64

/-- The caches `fs` and the disk `d` hold the volume `v`. -/
structure Rep (fs : Fs) (d : Disco) (v : Volume) : Prop where
  ok : fs.sfs_ok = true
  total : super_total_blocks fs.sb = 65536 - SFS_DATA_START
  root : super_root_inode fs.sb = 0
  disk_sb : d SFS_SUPER_SEC = fs.sb
  disk_imap : d SFS_IMAP_SEC = fs.imap
  disk_bmap : d SFS_BMAP_SEC = fs.bmap
  imap : ∀ i < SFS_INODE_MAX, bm_test fs.imap i = v.imap i
  bmap : ∀ n < BMAP_BITS, bm_test fs.bmap n = v.bmap n
  ino : ∀ i < SFS_INODE_MAX, ino d i = v.ino i
  dado : ∀ s, DeDados s → d s = v.dado s
  free_inodes : super_free_inodes fs.sb = v.free_inodes
  free_blocks : super_free_blocks fs.sb = v.free_blocks

theorem inode_sector_bounds {i : Nat} (h : i < SFS_INODE_MAX) :
    3 ≤ inode_sector i ∧ inode_sector i < 35 := by
  simp only [inode_sector, SFS_INODE_SEC, SFS_INODES_PER_SEC, SFS_INODE_MAX] at *
  omega

theorem inode_off_bound (i : Nat) : inode_off i + 64 ≤ SETOR_SIZE := by
  simp only [inode_off, SFS_INODES_PER_SEC, SETOR_SIZE]
  omega

theorem zona_inode {i : Nat} (h : i < SFS_INODE_MAX) : Zona (inode_sector i) := by
  have := inode_sector_bounds h
  unfold Zona Journal.Fora
  omega

/-- Two inodes of one sector lie apart. -/
theorem inode_off_apart {i j : Nat} (hs : inode_sector i = inode_sector j) (hne : i ≠ j) :
    inode_off i + 64 ≤ inode_off j ∨ inode_off j + 64 ≤ inode_off i := by
  simp only [inode_off, inode_sector, SFS_INODE_SEC, SFS_INODES_PER_SEC] at *
  omega

/-- The inodes after a write of one of them. -/
theorem ino_update (d : Disco) (i : Nat) (x : Inode) {j : Nat} :
    ino (update d (inode_sector i) ((d (inode_sector i)).splice (inode_off i) x)) j =
      update (ino d) i x j := by
  by_cases hij : j = i
  · rw [hij, update_self, ino, update_self, ByteStr.slice_splice_self _ _ (inode_off_bound i)]
  · rw [update_of_ne hij]
    unfold ino
    by_cases hs : inode_sector j = inode_sector i
    · rw [hs, update_self, ByteStr.slice_splice_ne _ _ (inode_off_apart hs hij) (inode_off_bound j)]
    · rw [update_of_ne hs]

/-- A write outside the inode table keeps the inodes. -/
theorem ino_update_of_ne {d : Disco} {s : Nat} {b : Setor} {j : Nat} (h : inode_sector j ≠ s) :
    ino (update d s b) j = ino d j := by
  unfold ino
  rw [update_of_ne h]

/-! ## Bitmaps -/

theorem bm_test_set {bm : Setor} {i j : Nat} (hj : j < BMAP_BITS) :
    bm_test (bm_set bm i) j = (decide (i = j) || bm_test bm j) := by
  have h : bm_test (bm_set bm i) j = bit (setBit bm.mem i) j := by
    unfold bm_test bm_set bit
    rw [ByteStr.mem_ofMem _ (by simp only [SETOR_SIZE, BMAP_BITS_eq] at *; omega)]
  rw [h, bit_setBit]
  rfl

theorem bm_test_clr {bm : Setor} {i j : Nat} (hj : j < BMAP_BITS) :
    bm_test (bm_clr bm i) j = (!decide (i = j) && bm_test bm j) := by
  have h : bm_test (bm_clr bm i) j = bit (clearBit bm.mem i) j := by
    unfold bm_test bm_clr bit
    rw [ByteStr.mem_ofMem _ (by simp only [SETOR_SIZE, BMAP_BITS_eq] at *; omega)]
  rw [h, bit_clearBit]
  rfl

/-! ## Refinement -/

/-- From any representation of `v` the program returns `r.1` and leaves one of `r.2`. -/
def Refina {α : Type} (x : S α) (v : Volume) (r : α × Volume) : Prop :=
  ∀ fs d, Rep fs d v → Wp Zona x fs d fun a fs' d' => a = r.1 ∧ Rep fs' d' r.2

/-- The same for a program that leaves the caches alone. -/
def RefinaP {α : Type} (p : Prog Setor α) (v : Volume) (r : α × Volume) : Prop :=
  ∀ fs d, Rep fs d v → p.wp Zona d fun a d' => a = r.1 ∧ Rep fs d' r.2

section Rules

variable {α β : Type} {v : Volume} {r : α × Volume} {r' : β × Volume}

theorem Refina.pure (a : α) (v : Volume) : Refina (Pure.pure a) v (a, v) :=
  fun _ _ h => Wp.pure ⟨rfl, h⟩

theorem Refina.bind {x : S α} {f : α → S β} (hx : Refina x v r) (hf : Refina (f r.1) r.2 r') :
    Refina (x >>= f) v r' := fun fs d h =>
  (hx fs d h).call fun a fs' d' ⟨ha, hr⟩ => by
    subst ha
    exact hf fs' d' hr

theorem RefinaP.lift {p : Prog Setor α} (h : RefinaP p v r) : Refina (liftM p) v r :=
  fun fs d hr => Wp.lift (h fs d hr)

theorem RefinaP.pure (a : α) (v : Volume) : RefinaP (Pure.pure a) v (a, v) :=
  fun _ _ h => ⟨rfl, h⟩

theorem RefinaP.bind {p : Prog Setor α} {f : α → Prog Setor β} (hp : RefinaP p v r)
    (hf : RefinaP (f r.1) r.2 r') : RefinaP (p >>= f) v r' := fun fs d h =>
  Prog.wp_bind.mpr ((hp fs d h).mono fun a d' ⟨ha, hr⟩ => by
    subst ha
    exact hf fs d' hr)

/-- A look at the caches. -/
theorem Refina.get {f : Fs → S β}
    (h : ∀ fs, fs.sfs_ok = true → super_root_inode fs.sb = 0 → Refina (f fs) v r') :
    Refina (MonadState.get >>= f) v r' := fun fs d hr =>
  Wp.get_bind (h fs hr.ok hr.root fs d hr)

end Rules

/-! ## Single accesses -/

theorem refina_read_dado {v : Volume} {s : Nat} (hs : DeDados s) :
    RefinaP (sfs_read_sec s) v (some (v.dado s), v) :=
  fun _ _ h => ⟨hs.zona, by rw [h.dado s hs], h⟩

/-- A write to a data sector. -/
theorem refina_write_dado {v : Volume} {s : Nat} (hs : DeDados s) (b : Setor) :
    RefinaP (sfs_write_sec s b) v (true, v.por_dado s b) := fun fs d h => by
  have hs' := hs
  unfold DeDados SFS_DATA_START at hs'
  refine ⟨hs.zona, rfl, ?_⟩
  exact {
    ok := h.ok, total := h.total, root := h.root
    disk_sb := by rw [update_of_ne (by unfold SFS_SUPER_SEC; omega), h.disk_sb]
    disk_imap := by rw [update_of_ne (by unfold SFS_IMAP_SEC; omega), h.disk_imap]
    disk_bmap := by rw [update_of_ne (by unfold SFS_BMAP_SEC; omega), h.disk_bmap]
    imap := h.imap, bmap := h.bmap
    ino := fun i hi => by
      have := inode_sector_bounds hi
      rw [ino_update_of_ne (by omega)]
      exact h.ino i hi
    dado := fun t ht => by
      change _ = update v.dado s b t
      by_cases hts : t = s
      · rw [hts, update_self, update_self]
      · rw [update_of_ne hts, update_of_ne hts]
        exact h.dado t ht
    free_inodes := h.free_inodes, free_blocks := h.free_blocks }

theorem refina_inode_read {v : Volume} {i : Nat} (hi : i < SFS_INODE_MAX) :
    RefinaP (inode_read i) v (some (v.ino i), v) := fun _ _ h =>
  ⟨zona_inode hi, congrArg some (h.ino i hi), h⟩

theorem refina_inode_write {v : Volume} {i : Nat} (hi : i < SFS_INODE_MAX) (x : Inode) :
    RefinaP (inode_write i x) v (true, v.por_ino i x) := fun fs d h => by
  have hb := inode_sector_bounds hi
  refine ⟨zona_inode hi, zona_inode hi, rfl, ?_⟩
  exact {
    ok := h.ok, total := h.total, root := h.root
    disk_sb := by rw [update_of_ne (by unfold SFS_SUPER_SEC; omega), h.disk_sb]
    disk_imap := by rw [update_of_ne (by unfold SFS_IMAP_SEC; omega), h.disk_imap]
    disk_bmap := by rw [update_of_ne (by unfold SFS_BMAP_SEC; omega), h.disk_bmap]
    imap := h.imap, bmap := h.bmap
    ino := fun j hj => by
      change _ = update v.ino i x j
      rw [ino_update]
      by_cases hji : j = i
      · rw [hji, update_self, update_self]
      · rw [update_of_ne hji, update_of_ne hji, h.ino j hj]
    dado := fun s hs => by
      have hs' := hs
      unfold DeDados SFS_DATA_START at hs'
      rw [update_of_ne (by omega)]
      exact h.dado s hs
    free_inodes := h.free_inodes, free_blocks := h.free_blocks }

/-! ## Allocation -/

theorem find_congr {p q : Nat → Bool} {l : List Nat} (h : ∀ x ∈ l, p x = q x) :
    l.find? p = l.find? q := by
  induction l with
  | nil => rfl
  | cons x l ih =>
    rw [List.find?_cons, List.find?_cons, h x List.mem_cons_self,
      ih fun y hy => h y (List.mem_cons_of_mem _ hy)]

section Super

variable (sb : Setor) (x : Nat)

theorem total_por_free_inodes : super_total_blocks (sb.putWord 20 x) = super_total_blocks sb :=
  sb.word_putWord_ne x (by decide) (by decide)

theorem root_por_free_inodes : super_root_inode (sb.putWord 20 x) = super_root_inode sb :=
  sb.word_putWord_ne x (by decide) (by decide)

theorem free_blocks_por_free_inodes :
    super_free_blocks (sb.putWord 20 x) = super_free_blocks sb :=
  sb.word_putWord_ne x (by decide) (by decide)

theorem free_inodes_por_free_inodes : super_free_inodes (sb.putWord 20 x) = x % 2 ^ 32 :=
  sb.word_putWord_self x (by decide)

theorem total_por_free_blocks : super_total_blocks (sb.putWord 12 x) = super_total_blocks sb :=
  sb.word_putWord_ne x (by decide) (by decide)

theorem root_por_free_blocks : super_root_inode (sb.putWord 12 x) = super_root_inode sb :=
  sb.word_putWord_ne x (by decide) (by decide)

theorem free_inodes_por_free_blocks :
    super_free_inodes (sb.putWord 12 x) = super_free_inodes sb :=
  sb.word_putWord_ne x (by decide) (by decide)

theorem free_blocks_por_free_blocks : super_free_blocks (sb.putWord 12 x) = x % 2 ^ 32 :=
  sb.word_putWord_self x (by decide)

end Super

/-- The caches with a new inode bitmap and a new count of free inodes. -/
theorem Rep.por_imap {fs : Fs} {d : Disco} {v : Volume} (h : Rep fs d v) {bm : Setor}
    {f : Nat → Bool} (hf : ∀ i < SFS_INODE_MAX, bm_test bm i = f i) (x : Nat) :
    Rep { fs with imap := bm, sb := fs.sb.putWord 20 x }
      (update (update d SFS_IMAP_SEC bm) SFS_SUPER_SEC (fs.sb.putWord 20 x))
      { v with imap := f, free_inodes := x % 2 ^ 32 } where
  ok := h.ok
  total := by rw [total_por_free_inodes, h.total]
  root := by rw [root_por_free_inodes, h.root]
  disk_sb := update_self _ _ _
  disk_imap := by rw [update_of_ne (by decide), update_self]
  disk_bmap := by rw [update_of_ne (by decide), update_of_ne (by decide), h.disk_bmap]
  imap := hf
  bmap := h.bmap
  ino := fun i hi => by
    have := inode_sector_bounds hi
    rw [ino_update_of_ne (by unfold SFS_SUPER_SEC; omega),
      ino_update_of_ne (by unfold SFS_IMAP_SEC; omega)]
    exact h.ino i hi
  dado := fun s hs => by
    have hs' := hs
    unfold DeDados SFS_DATA_START at hs'
    rw [update_of_ne (by unfold SFS_SUPER_SEC; omega), update_of_ne (by unfold SFS_IMAP_SEC; omega)]
    exact h.dado s hs
  free_inodes := free_inodes_por_free_inodes _ _
  free_blocks := by rw [free_blocks_por_free_inodes, h.free_blocks]

/-- The caches with a new block bitmap and a new count of free blocks. -/
theorem Rep.por_bmap {fs : Fs} {d : Disco} {v : Volume} (h : Rep fs d v) {bm : Setor}
    {f : Nat → Bool} (hf : ∀ n < BMAP_BITS, bm_test bm n = f n) (x : Nat) :
    Rep { fs with bmap := bm, sb := fs.sb.putWord 12 x }
      (update (update d SFS_BMAP_SEC bm) SFS_SUPER_SEC (fs.sb.putWord 12 x))
      { v with bmap := f, free_blocks := x % 2 ^ 32 } where
  ok := h.ok
  total := by rw [total_por_free_blocks, h.total]
  root := by rw [root_por_free_blocks, h.root]
  disk_sb := update_self _ _ _
  disk_imap := by rw [update_of_ne (by decide), update_of_ne (by decide), h.disk_imap]
  disk_bmap := by rw [update_of_ne (by decide), update_self]
  imap := h.imap
  bmap := hf
  ino := fun i hi => by
    have := inode_sector_bounds hi
    rw [ino_update_of_ne (by unfold SFS_SUPER_SEC; omega),
      ino_update_of_ne (by unfold SFS_BMAP_SEC; omega)]
    exact h.ino i hi
  dado := fun s hs => by
    have hs' := hs
    unfold DeDados SFS_DATA_START at hs'
    rw [update_of_ne (by unfold SFS_SUPER_SEC; omega), update_of_ne (by unfold SFS_BMAP_SEC; omega)]
    exact h.dado s hs
  free_inodes := by rw [free_inodes_por_free_blocks, h.free_inodes]
  free_blocks := free_blocks_por_free_blocks _ _

theorem zona_super : Zona SFS_SUPER_SEC ∧ Zona SFS_IMAP_SEC ∧ Zona SFS_BMAP_SEC := by
  unfold Zona Journal.Fora SFS_SUPER_SEC SFS_IMAP_SEC SFS_BMAP_SEC
  omega

theorem refina_alloc_inode (v : Volume) : Refina alloc_inode v v.alloc_inode := fun fs d h => by
  refine Wp.get_bind ?_
  have hf : (List.range' 1 (SFS_INODE_MAX - 1)).find? (fun i => !bm_test fs.imap i) =
      (List.range' 1 (SFS_INODE_MAX - 1)).find? fun i => !v.imap i :=
    find_congr fun i hi => by
      have hi' := (List.mem_range'_1.mp hi).2
      rw [h.imap i (by simp only [SFS_INODE_MAX] at *; omega)]
  rw [hf]
  rcases v.alloc_inode_cases with ⟨hx, he⟩ | ⟨i, _, _, _, hx, he⟩
  · rw [hx, he]
    exact Wp.pure ⟨rfl, h⟩
  · rw [hx, he]
    have hset : ∀ j < SFS_INODE_MAX, bm_test (bm_set fs.imap i) j = update v.imap i true j :=
      fun j hj => by
        rw [bm_test_set (by simp only [SFS_INODE_MAX, BMAP_BITS_eq] at *; omega), h.imap j hj]
        by_cases hij : i = j
        · rw [hij, update_self]
          simp
        · rw [update_of_ne (Ne.symm hij)]
          simp [hij]
    have := h.por_imap hset (super_free_inodes fs.sb + 2 ^ 32 - 1)
    exact ⟨zona_super.2.1, zona_super.1, rfl, by rw [← h.free_inodes]; exact this⟩

theorem refina_alloc_block (v : Volume) : Refina alloc_block v v.alloc_block := fun fs d h => by
  refine Wp.get_bind ?_
  have hmax : min (super_total_blocks fs.sb) (512 * 8) = BMAP_BITS := by
    have := h.total
    unfold SFS_DATA_START at this
    rw [BMAP_BITS_eq]
    omega
  have hf : (List.range BMAP_BITS).find? (fun i => !bm_test fs.bmap i) =
      (List.range BMAP_BITS).find? fun i => !v.bmap i :=
    find_congr fun i hi => by rw [h.bmap i (List.mem_range.mp hi)]
  rw [hmax, hf]
  rcases v.alloc_block_cases with ⟨hx, he⟩ | ⟨i, _, _, hx, he⟩
  · have hx' : (List.range BMAP_BITS).find? (fun n => !v.bmap n) = none :=
      List.find?_eq_none.mpr fun n hn => by simp [hx n (List.mem_range.mp hn)]
    rw [hx', he]
    exact Wp.pure ⟨rfl, h⟩
  · rw [hx, he]
    have hset : ∀ j < BMAP_BITS, bm_test (bm_set fs.bmap i) j = update v.bmap i true j :=
      fun j hj => by
        rw [bm_test_set hj, h.bmap j hj]
        by_cases hij : i = j
        · rw [hij, update_self]
          simp
        · rw [update_of_ne (Ne.symm hij)]
          simp [hij]
    have := h.por_bmap hset (super_free_blocks fs.sb + 2 ^ 32 - 1)
    exact ⟨zona_super.2.2, zona_super.1, rfl, by rw [← h.free_blocks]; exact this⟩

theorem refina_free_block {v : Volume} {s : Nat} (hs : DeDados s) :
    Refina (free_block s) v ((), v.free_block s) := fun fs d h => by
  unfold free_block
  rw [if_neg (Nat.not_lt.mpr hs.1)]
  have hclr : ∀ j < BMAP_BITS, bm_test (bm_clr fs.bmap (s - SFS_DATA_START)) j =
      update v.bmap (s - SFS_DATA_START) false j := fun j hj => by
    rw [bm_test_clr hj, h.bmap j hj]
    by_cases hij : s - SFS_DATA_START = j
    · rw [hij, update_self]
      simp
    · rw [update_of_ne (Ne.symm hij)]
      simp [hij]
  have := h.por_bmap hclr (super_free_blocks fs.sb + 1)
  exact ⟨zona_super.2.2, zona_super.1, rfl, by rw [Volume.free_block, ← h.free_blocks]; exact this⟩

theorem alloc_block_dados {v v' : Volume} {s : Nat} (h : v.alloc_block = (some s, v')) :
    DeDados s := by
  rcases v.alloc_block_cases with ⟨_, he⟩ | ⟨n, hn, _, _, he⟩
  · rw [he] at h
    cases h
  · rw [he] at h
    cases h
    exact ⟨Nat.le_add_right _ _, Nat.add_lt_add_left hn _⟩

theorem alloc_inode_lt {v v' : Volume} {i : Nat} (h : v.alloc_inode = (some i, v')) :
    1 ≤ i ∧ i < SFS_INODE_MAX := by
  rcases v.alloc_inode_cases with ⟨_, he⟩ | ⟨j, h1, h2, _, _, he⟩
  · rw [he] at h
    cases h
  · rw [he] at h
    cases h
    exact ⟨h1, h2⟩

/-! ## Refinement with notes -/

/-- The noted program refines `r` too, and if the notes before it are in range, so are those after
it. -/
def RefinaN {α : Type} (x : N α) (v : Volume) (r : α × Volume) : Prop :=
  ∀ fs us d, Rep fs d v → (∀ u ∈ us, Uso.EmOrdem u) → Wp Zona x (fs, us) d fun a m d' =>
    a = r.1 ∧ Rep m.1 d' r.2 ∧ ∀ u ∈ m.2, Uso.EmOrdem u

section Notes

variable {α β : Type} {v : Volume} {r : α × Volume} {r' : β × Volume}

/-- The program without its notes refines the same. -/
theorem RefinaN.refina {x : N α} {y : S α} (h : RefinaN x v r) (hf : Forgets x y) : Refina y v r :=
  fun fs d hr => hf.wp ((h fs [] d hr (by simp)).mono fun _ _ _ ⟨ha, hr', _⟩ => ⟨ha, hr'⟩)

theorem RefinaN.pure (a : α) (v : Volume) : RefinaN (Pure.pure a) v (a, v) :=
  fun _ _ _ h hu => Wp.pure ⟨rfl, h, hu⟩

theorem RefinaN.bind {x : N α} {f : α → N β} (hx : RefinaN x v r) (hf : RefinaN (f r.1) r.2 r') :
    RefinaN (x >>= f) v r' := fun fs us d h hu =>
  (hx fs us d h hu).call fun a m d' ⟨ha, hr, hu'⟩ => by
    subst ha
    exact hf m.1 m.2 d' hr hu'

theorem RefinaN.note {u : Uso} (hu : u.EmOrdem) {f : Unit → N β} (hf : RefinaN (f ()) v r') :
    RefinaN (note u >>= f) v r' := fun fs us d h hus =>
  Wp.note_bind (hf fs _ d h (List.forall_mem_append.mpr ⟨hus, by simpa using hu⟩))

theorem Refina.quiet {x : S α} (h : Refina x v r) : RefinaN (quiet x) v r := fun fs _ d hr hu =>
  Wp.quiet ((h fs d hr).mono fun _ _ _ ⟨ha, hr'⟩ => ⟨ha, hr', hu⟩)

theorem RefinaP.anota {p : Prog Setor α} (h : RefinaP p v r) : RefinaN (liftM p) v r :=
  fun fs _ d hr hu => Wp.lift ((h fs d hr).mono fun _ _ ⟨ha, hr'⟩ => ⟨ha, hr', hu⟩)

theorem RefinaN.get {f : Fs × List Uso → N β}
    (h : ∀ fs us, fs.sfs_ok = true → super_root_inode fs.sb = 0 → RefinaN (f (fs, us)) v r') :
    RefinaN (MonadState.get >>= f) v r' := fun fs us d hr hu =>
  Wp.get_bind (h fs us hr.ok hr.root fs us d hr hu)

theorem em_ordem_tabela {i : Nat} (hi : i < SFS_INODE_MAX) :
    (Uso.tabela (inode_sector i)).EmOrdem :=
  ⟨(inode_sector_bounds hi).1, Nat.lt_succ_iff.mp (inode_sector_bounds hi).2⟩

theorem em_ordem_bmap {s : Nat} (hs : DeDados s) : (Uso.bmap (s - SFS_DATA_START)).EmOrdem := by
  unfold DeDados at hs
  rw [BMAP_BITS_eq] at hs
  change s - SFS_DATA_START < 4096
  omega

theorem anota_inode_read {i : Nat} (hi : i < SFS_INODE_MAX) :
    RefinaN (Anotado.inode_read i) v (some (v.ino i), v) :=
  .note (em_ordem_tabela hi) (refina_inode_read hi).anota

theorem anota_inode_write {i : Nat} (hi : i < SFS_INODE_MAX) (x : Inode) :
    RefinaN (Anotado.inode_write i x) v (true, v.por_ino i x) :=
  .note (em_ordem_tabela hi) (refina_inode_write hi x).anota

theorem anota_alloc_inode (v : Volume) : RefinaN Anotado.alloc_inode v v.alloc_inode := by
  refine (refina_alloc_inode v).quiet.bind ?_
  rcases hx : v.alloc_inode with ⟨_ | i, v1⟩
  · exact .pure _ _
  · exact .note (u := .imap i) (alloc_inode_lt hx).2 (.pure _ _)

theorem anota_alloc_block (v : Volume) : RefinaN Anotado.alloc_block v v.alloc_block := by
  refine (refina_alloc_block v).quiet.bind ?_
  rcases hx : v.alloc_block with ⟨_ | s, v1⟩
  · exact .pure _ _
  · exact .note (em_ordem_bmap (alloc_block_dados hx)) (.pure _ _)

theorem anota_free_block {s : Nat} (hs : DeDados s) :
    RefinaN (Anotado.free_block s) v ((), v.free_block s) := by
  unfold Anotado.free_block
  rw [if_neg (Nat.not_lt.mpr hs.1)]
  exact .note (em_ordem_bmap hs) (refina_free_block hs).quiet

theorem anota_free_blocks {in_ : Inode} (hb : Bons in_) {l : List Nat} (hl : ∀ b ∈ l, b < 10)
    (v : Volume) : RefinaN (Anotado.free_blocks in_ l) v ((), Volume.free_blocks_of in_ l v) := by
  induction l generalizing v with
  | nil => exact .pure _ _
  | cons b l ih =>
    have hl' : ∀ b ∈ l, b < 10 := fun x hx => hl x (List.mem_cons_of_mem _ hx)
    rw [Anotado.free_blocks, Volume.free_blocks_of]
    by_cases h0 : inode_block in_ b ≠ 0
    · rw [if_pos h0, if_pos h0]
      exact (anota_free_block (hb b (hl b List.mem_cons_self) h0)).bind (ih hl' _)
    · rw [if_neg h0, if_neg h0]
      exact ih hl' _

end Notes

/-! ## Paths -/

/-- A volume on which every path can be followed: the inodes of `T` have data sectors for blocks,
and the entries of the directories among them name inodes of `T`. -/
structure Navegavel (T : Nat → Prop) (v : Volume) : Prop where
  raiz : T 0
  lt : ∀ i, T i → i < SFS_INODE_MAX
  bons : ∀ i, T i → Bons (v.ino i)
  filhos : ∀ i, T i → inode_type (v.ino i) = 2 →
    ∀ b < 10, inode_block (v.ino i) b ≠ 0 → ∀ e < SFS_DIRENTS_PER_BLK,
      dirent_inode (v.dado (inode_block (v.ino i) b)) e ≠ 0 →
      T (dirent_inode (v.dado (inode_block (v.ino i) b)) e)

section Paths

variable {T : Nat → Prop} {v : Volume}

theorem refina_busca_dir {dir : Inode} (hb : Bons dir) (tok : List UInt8) {l : List Nat}
    (hl : ∀ b ∈ l, b < 10) (entries : Nat) :
    RefinaP (busca_dir dir tok l entries) v (v.busca dir tok l entries, v) := by
  induction l generalizing entries with
  | nil => exact .pure _ _
  | cons b l ih =>
    rw [busca_dir, Volume.busca]
    by_cases h0 : entries = 0
    · rw [if_pos h0, if_pos h0]
      exact .pure _ _
    rw [if_neg h0, if_neg h0]
    by_cases h1 : inode_block dir b = 0
    · rw [if_pos h1, if_pos h1]
      exact .pure _ _
    rw [if_neg h1, if_neg h1]
    refine (refina_read_dado (hb b (hl b List.mem_cons_self) h1)).bind ?_
    dsimp only
    cases busca_bloco (v.dado (inode_block dir b)) tok entries with
    | some e => exact .pure _ _
    | none => exact ih (fun x hx => hl x (List.mem_cons_of_mem _ hx)) _

theorem Navegavel.entra (hn : Navegavel T v) {cur i : Nat} {tok : List UInt8}
    (hc : T cur) (h : v.entra cur tok = some i) : T i := by
  obtain ⟨ht, b, hb, h0, e, he, rfl, hne⟩ := Volume.entra_some h
  exact hn.filhos cur hc ht b hb h0 e he hne

theorem anota_path_laco (hn : Navegavel T v) (toks : List (List UInt8)) {cur parent : Nat}
    (hc : T cur) :
    RefinaN (Anotado.path_laco toks cur parent) v (v.caminho toks cur parent, v) := by
  induction toks generalizing cur parent with
  | nil => exact .pure _ _
  | cons tok toks ih =>
    rw [Anotado.path_laco, Volume.caminho]
    by_cases ht : tok = []
    · rw [if_pos ht, if_pos ht]
      exact ih hc
    rw [if_neg ht, if_neg ht]
    refine (anota_inode_read (hn.lt cur hc)).bind ?_
    dsimp only
    by_cases h2 : inode_type (v.ino cur) ≠ 2
    · have he : v.entra cur tok = none := by rw [Volume.entra, if_pos h2]
      rw [if_pos h2, he]
      exact .pure _ _
    have he : v.entra cur tok =
        v.busca (v.ino cur) tok (List.range 10) (inode_size (v.ino cur) / 32) := by
      rw [Volume.entra, if_neg h2]
    rw [if_neg h2, he]
    refine (refina_busca_dir (hn.bons cur hc) tok
      (fun b hb => List.mem_range.mp hb) _).anota.bind ?_
    cases hx : v.busca (v.ino cur) tok (List.range 10) (inode_size (v.ino cur) / 32) with
    | none => exact .pure _ _
    | some i => exact ih (hn.entra hc (he.trans hx))

theorem anota_path_find (hn : Navegavel T v) (path : List UInt8) :
    RefinaN (Anotado.path_find path) v (v.resolve path, v) :=
  RefinaN.get fun fs us _ hr => by
    dsimp only
    rw [hr]
    exact anota_path_laco hn _ hn.raiz

theorem refina_path_find (hn : Navegavel T v) (path : List UInt8) :
    Refina (path_find path) v (v.resolve path, v) :=
  (anota_path_find hn path).refina (Anotado.forgets_path_find path)

/-- A path leads to an inode of `T`; if not to the root, through an entry of a directory of `T`. -/
theorem Navegavel.caminho (hn : Navegavel T v) {toks : List (List UInt8)} {cur parent i p : Nat}
    (hc : T cur) (h : v.caminho toks cur parent = some (i, p)) :
    T i ∧ ((i, p) = (cur, parent) ∨ T p ∧ ∃ tok, v.entra p tok = some i) := by
  induction toks generalizing cur parent with
  | nil =>
    cases h
    exact ⟨hc, Or.inl rfl⟩
  | cons tok toks ih =>
    rw [Volume.caminho] at h
    split at h
    · exact ih hc h
    split at h
    · cases h
    · rename_i j hj
      obtain ⟨hi, hip | hip⟩ := ih (hn.entra hc hj) h
      · cases hip
        exact ⟨hi, Or.inr ⟨hc, tok, hj⟩⟩
      · exact ⟨hi, Or.inr hip⟩

theorem Navegavel.resolve (hn : Navegavel T v) {path : List UInt8} {i p : Nat}
    (h : v.resolve path = some (i, p)) :
    T i ∧ ((i, p) = (0, 0) ∨ T p ∧ ∃ tok, v.entra p tok = some i) :=
  hn.caminho hn.raiz h

end Paths

/-! ## Directories and data -/

theorem Bons.por_block {x : Inode} (h : Bons x) {b s : Nat} (hb : b < 10) (hs : DeDados s) :
    Bons (inode_por_block x b s) := fun c hc hne => by
  have hs' := hs
  simp only [DeDados, SFS_DATA_START, BMAP_BITS_eq] at hs'
  have hmod : s % 2 ^ 32 = s := Nat.mod_eq_of_lt (by omega)
  by_cases hcb : c = b
  · rw [hcb, block_por_block_self _ _ hb, hmod]
    exact hs
  · rw [block_por_block_ne _ _ hc hcb] at hne ⊢
    exact h c hc hne

theorem Bons.por_type {x : Inode} (h : Bons x) (t : Nat) : Bons (inode_por_type x t) :=
  fun c hc hne => by
    rw [block_por_type _ _ hc] at hne ⊢
    exact h c hc hne

theorem bons_novo (t mtime : Nat) : Bons (inode_novo t mtime) :=
  fun _ hc hne => absurd (block_novo _ _ hc) hne

/-- The block opened is a data sector, and the inode keeps to data sectors. -/
theorem abre_bloco_some {v v' : Volume} {dir dir' : Inode} {b s : Nat} {dblk : Setor}
    (hd : Bons dir) (hb : b < 10) (h : v.abre_bloco dir b = (some (s, dir', dblk), v')) :
    DeDados s ∧ Bons dir' := by
  rcases Volume.abre_bloco_cases h with ⟨_, n, hn, _, rfl, rfl, _⟩ | ⟨h0, rfl, rfl, _⟩
  · have hs : DeDados (SFS_DATA_START + n) := ⟨Nat.le_add_right _ _, Nat.add_lt_add_left hn _⟩
    exact ⟨hs, hd.por_block hb hs⟩
  · exact ⟨hd b hb h0, hd⟩

theorem anota_abre_bloco {dir : Inode} (hd : Bons dir) {b : Nat} (hb : b < 10) (v : Volume) :
    RefinaN (Anotado.abre_bloco dir b) v (v.abre_bloco dir b) := by
  unfold Anotado.abre_bloco Volume.abre_bloco
  by_cases h0 : inode_block dir b = 0
  · rw [if_pos h0, if_pos h0]
    refine (anota_alloc_block v).bind ?_
    rcases v.alloc_block with ⟨_ | s, v1⟩
    · exact .pure _ _
    · exact .pure _ _
  · rw [if_neg h0, if_neg h0]
    exact (refina_read_dado (hd b hb h0)).anota.bind (.pure _ _)

theorem anota_dir_add_laco {dir_inum : Nat} (hi : dir_inum < SFS_INODE_MAX) (child : Nat)
    (name : List UInt8) {l : List Nat} (hl : ∀ b ∈ l, b < 10) {dir : Inode} (hd : Bons dir)
    (v : Volume) :
    RefinaN (Anotado.dir_add_laco dir_inum child name l dir) v
      (Volume.dir_add_laco dir_inum child name l dir v) := by
  induction l generalizing dir v with
  | nil => exact .pure _ _
  | cons b l ih =>
    have hb := hl b List.mem_cons_self
    rw [Anotado.dir_add_laco, Volume.dir_add_laco]
    refine (anota_abre_bloco hd hb v).bind ?_
    rcases hx : v.abre_bloco dir b with ⟨_ | ⟨s, dir', dblk⟩, v1⟩
    · exact .pure _ _
    · obtain ⟨hs, hd'⟩ := abre_bloco_some hd hb hx
      dsimp only
      unfold Volume.vaga
      cases (List.range SFS_DIRENTS_PER_BLK).find? fun e => dirent_inode dblk e = 0 with
      | some e =>
        exact (refina_write_dado hs _).anota.bind
          ((anota_inode_write hi _).bind (.pure _ _))
      | none => exact ih (fun x hx => hl x (List.mem_cons_of_mem _ hx)) hd' v1

theorem anota_dir_add_entry {v : Volume} {dir_inum : Nat} (hi : dir_inum < SFS_INODE_MAX)
    (hd : Bons (v.ino dir_inum)) (child : Nat) (name : List UInt8) :
    RefinaN (Anotado.dir_add_entry dir_inum child name) v (v.dir_add_entry dir_inum child name) :=
  (anota_inode_read hi).bind
    (anota_dir_add_laco hi child name (fun _ hb => List.mem_range.mp hb) hd v)

theorem refina_dir_remove {dir : Inode} (hd : Bons dir) (inum : Nat) {l : List Nat}
    (hl : ∀ b ∈ l, b < 10) (v : Volume) :
    RefinaP (dir_remove dir inum l) v ((), Volume.dir_remove dir inum l v) := by
  induction l with
  | nil => exact .pure _ _
  | cons b l ih =>
    rw [dir_remove, Volume.dir_remove]
    by_cases h0 : inode_block dir b = 0
    · rw [if_pos h0, if_pos h0]
      exact .pure _ _
    rw [if_neg h0, if_neg h0]
    have hs := hd b (hl b List.mem_cons_self) h0
    refine (refina_read_dado hs).bind ?_
    dsimp only
    cases (List.range SFS_DIRENTS_PER_BLK).find? fun e =>
        dirent_inode (v.dado (inode_block dir b)) e = inum with
    | some e => exact (refina_write_dado hs _).bind (.pure _ _)
    | none => exact ih fun x hx => hl x (List.mem_cons_of_mem _ hx)

theorem refina_read_laco {v : Volume} {in_ : Inode} (hb : Bons in_) (to_read : Nat) {l : List Nat}
    (hl : ∀ b ∈ l, b < 10) (done : List UInt8) :
    RefinaP (read_laco in_ to_read l done) v (v.read_laco in_ to_read l done, v) := by
  induction l generalizing done with
  | nil => exact .pure _ _
  | cons b l ih =>
    rw [read_laco, Volume.read_laco]
    by_cases h0 : to_read ≤ done.length
    · rw [if_pos h0, if_pos h0]
      exact .pure _ _
    rw [if_neg h0, if_neg h0]
    by_cases h1 : inode_block in_ b = 0
    · rw [if_pos h1, if_pos h1]
      exact .pure _ _
    rw [if_neg h1, if_neg h1]
    exact (refina_read_dado (hb b (hl b List.mem_cons_self) h1)).bind
      (ih (fun x hx => hl x (List.mem_cons_of_mem _ hx)) _)

theorem anota_write_laco (buf : List UInt8) (l : List Nat) (in_ : Inode) (done : Nat)
    (v : Volume) :
    RefinaN (Anotado.write_laco buf l in_ done) v (Volume.write_laco buf l in_ done v) := by
  induction l generalizing in_ done v with
  | nil => exact .pure _ _
  | cons b l ih =>
    rw [Anotado.write_laco, Volume.write_laco]
    by_cases h0 : buf.length ≤ done
    · rw [if_pos h0, if_pos h0]
      exact .pure _ _
    rw [if_neg h0, if_neg h0]
    refine (anota_alloc_block v).bind ?_
    rcases hx : v.alloc_block with ⟨_ | s, v1⟩
    · exact .pure _ _
    · exact (refina_write_dado (alloc_block_dados hx) _).anota.bind (ih _ _ _)

/-! ## The calls -/

section Calls

variable {T : Nat → Prop} {v : Volume}

theorem refina_spfs_read (hn : Navegavel T v) (path : List UInt8) (max : Nat) :
    Refina (spfs_read path max) v (v.read path max, v) :=
  Refina.get fun fs hok _ => by
    rw [hok, Volume.read]
    refine (refina_path_find hn path).bind ?_
    dsimp only
    rcases hr : v.resolve path with _ | ⟨i, p⟩
    · exact .pure _ _
    obtain ⟨hi, _⟩ := hn.resolve hr
    refine (refina_inode_read (hn.lt i hi)).lift.bind ?_
    dsimp only
    by_cases ht : inode_type (v.ino i) ≠ 1
    · rw [if_pos ht, if_pos ht]
      exact .pure _ _
    · rw [if_neg ht, if_neg ht]
      exact (refina_read_laco (hn.bons i hi) _ (fun _ hb => List.mem_range.mp hb) _).lift.bind
        (.pure _ _)

theorem anota_parent_find (hn : Navegavel T v) (parent_path : List UInt8) :
    RefinaN (Anotado.parent_find parent_path) v (v.parent_find parent_path, v) := by
  unfold Anotado.parent_find Volume.parent_find
  by_cases hp : parent_path = []
  · rw [if_pos hp, if_pos hp]
    exact .pure _ _
  · rw [if_neg hp, if_neg hp]
    refine (anota_path_find hn parent_path).bind ?_
    dsimp only
    rcases v.resolve parent_path with _ | ⟨i, p⟩
    · exact .pure _ _
    · exact .pure _ _

theorem Navegavel.parent_find (hn : Navegavel T v) {parent_path : List UInt8} {p : Nat}
    (h : v.parent_find parent_path = some p) : T p := by
  unfold Volume.parent_find at h
  split at h
  · cases h
    exact hn.raiz
  · obtain ⟨⟨i, q⟩, hr, rfl⟩ := Option.map_eq_some_iff.mp h
    exact (hn.resolve hr).1

theorem anota_esvazia {i : Nat} (hi : i < SFS_INODE_MAX) (hb : Bons (v.ino i)) {β : Type}
    {f : Unit → N β} {r : β × Volume} (hf : RefinaN (f ()) (v.esvazia i) r) :
    RefinaN (do
      let ex := (← Anotado.inode_read i).getD ByteStr.zero
      Anotado.free_blocks ex (List.range 10)
      let _ ← Anotado.inode_write i (inode_sem_blocos (inode_por_size ex 0))
      f ()) v r :=
  (anota_inode_read hi).bind
    ((anota_free_blocks hb (fun _ hb => List.mem_range.mp hb) v).bind
      ((anota_inode_write hi _).bind hf))

/-- What follows the allocation in `cria`. -/
theorem anota_nomeia {i parent : Nat} (hi : i < SFS_INODE_MAX) (hp : parent < SFS_INODE_MAX)
    (hb : Bons (v.ino parent)) (name : List UInt8) (type ticks : Nat) {β : Type} {f : Unit → N β}
    {r : β × Volume}
    (hf : RefinaN (f ()) ((v.por_ino i (inode_novo type ticks)).dir_add_entry parent i name).2 r) :
    RefinaN (do
      let _ ← Anotado.inode_write i (inode_novo type ticks)
      let _ ← Anotado.dir_add_entry parent i name
      f ()) v r := by
  refine (anota_inode_write hi _).bind ((anota_dir_add_entry hp ?_ i name).bind hf)
  change Bons (update v.ino i (inode_novo type ticks) parent)
  by_cases hpi : parent = i
  · rw [hpi, update_self]
    exact bons_novo _ _
  · rw [update_of_ne hpi]
    exact hb

theorem Volume.alloc_inode_ino (v : Volume) : v.alloc_inode.2.ino = v.ino := by
  rcases v.alloc_inode_cases with ⟨_, he⟩ | ⟨i, _, _, _, _, he⟩ <;> rw [he]

theorem anota_write_inode (hn : Navegavel T v) (path : List UInt8) {parent : Nat}
    (hp : T parent) (name : List UInt8) (ticks : Nat) :
    RefinaN (Anotado.write_inode path parent name ticks) v (v.write_inode path parent name ticks) := by
  unfold Anotado.write_inode Volume.write_inode
  refine (anota_path_find hn path).bind ?_
  dsimp only
  rcases hr : v.resolve path with _ | ⟨i, p⟩
  · dsimp only
    refine (anota_alloc_inode v).bind ?_
    have hino := v.alloc_inode_ino
    unfold Volume.cria
    rcases hx : v.alloc_inode with ⟨_ | i, v1⟩
    · exact .pure _ _
    · rw [hx] at hino
      change v1.ino = v.ino at hino
      refine anota_nomeia (alloc_inode_lt hx).2 (hn.lt parent hp) ?_ name 1 ticks
        (f := fun _ => pure (some i)) (.pure _ _)
      rw [hino]
      exact hn.bons parent hp
  · obtain ⟨hi, _⟩ := hn.resolve hr
    exact anota_esvazia (hn.lt i hi) (hn.bons i hi) (f := fun _ => pure (some i)) (.pure _ _)

theorem write_inode_lt (hn : Navegavel T v) {path name : List UInt8} {parent ticks i : Nat}
    {v' : Volume} (h : v.write_inode path parent name ticks = (some i, v')) : i < SFS_INODE_MAX := by
  unfold Volume.write_inode at h
  split at h
  · rename_i hr
    cases h
    exact hn.lt i (hn.resolve hr).1
  · unfold Volume.cria at h
    split at h
    · cases h
    · rename_i hx
      cases h
      exact (alloc_inode_lt hx).2

theorem anota_spfs_write (hn : Navegavel T v) (path buf : List UInt8) (ticks : Nat) :
    RefinaN (Anotado.spfs_write path buf ticks) v (v.write path buf ticks) :=
  RefinaN.get fun fs us hok _ => by
    rw [hok, Volume.write]
    by_cases hlen : 10 * 512 < buf.length
    · rw [if_pos hlen, if_pos (by simp [hlen])]
      exact .pure _ _
    rw [if_neg hlen, if_neg (by simpa using hlen)]
    refine (anota_parent_find hn _).bind ?_
    dsimp only
    cases hp : v.parent_find (path_split path).1 with
    | none => exact .pure _ _
    | some parent =>
      dsimp only
      refine (anota_write_inode hn path (hn.parent_find hp) _ ticks).bind ?_
      rcases hx : v.write_inode path parent (path_split path).2 ticks with ⟨_ | i, v1⟩
      · exact .pure _ _
      · have hi := write_inode_lt hn hx
        refine (anota_inode_read hi).bind ?_
        refine (anota_write_laco buf (List.range 10) _ 0 v1).bind ?_
        exact (anota_inode_write hi _).bind (.pure _ _)

theorem anota_spfs_mkdir (hn : Navegavel T v) (path : List UInt8) (ticks : Nat) :
    RefinaN (Anotado.spfs_mkdir path ticks) v (v.mkdir path ticks) :=
  RefinaN.get fun fs us hok _ => by
    rw [hok, Volume.mkdir]
    refine (anota_parent_find hn _).bind ?_
    dsimp only
    cases hp : v.parent_find (path_split path).1 with
    | none => exact .pure _ _
    | some parent =>
      refine (anota_alloc_inode v).bind ?_
      have hino := v.alloc_inode_ino
      unfold Volume.cria
      rcases hx : v.alloc_inode with ⟨_ | i, v1⟩
      · exact .pure _ _
      · have hp' := hn.parent_find hp
        rw [hx] at hino
        change v1.ino = v.ino at hino
        refine anota_nomeia (alloc_inode_lt hx).2 (hn.lt parent hp') ?_ _ 2 ticks
          (f := fun _ => pure true) (.pure _ _)
        rw [hino]
        exact hn.bons parent hp'

theorem anota_free_inode {i : Nat} (hi : i < SFS_INODE_MAX) {β : Type} {f : Unit → N β}
    {r : β × Volume} (hf : RefinaN (f ()) (v.free_inode i) r) :
    RefinaN (do
      note (.imap i)
      quiet (modify fun s => { s with imap := bm_clr s.imap i })
      let _ ← liftM (sfs_write_sec SFS_IMAP_SEC (← get).1.imap)
      quiet (modify fun s => { s with sb := s.sb.putWord 20 (super_free_inodes s.sb + 1) })
      let _ ← liftM (sfs_write_sec SFS_SUPER_SEC (← get).1.sb)
      f ()) v r := .note (u := .imap i) hi fun fs us d h hu => by
  have hclr : ∀ j < SFS_INODE_MAX, bm_test (bm_clr fs.imap i) j = update v.imap i false j :=
    fun j hj => by
      rw [bm_test_clr (by simp only [SFS_INODE_MAX, BMAP_BITS_eq] at *; omega), h.imap j hj]
      by_cases hij : i = j
      · rw [hij, update_self]
        simp
      · rw [update_of_ne (Ne.symm hij)]
        simp [hij]
  have := h.por_imap hclr (super_free_inodes fs.sb + 1)
  refine ⟨zona_super.2.1, zona_super.1, ?_⟩
  refine hf _ _ _ ?_ hu
  rw [Volume.free_inode, ← h.free_inodes]
  exact this

theorem free_blocks_of_ino (in_ : Inode) (l : List Nat) (v : Volume) :
    (Volume.free_blocks_of in_ l v).ino = v.ino := by
  induction l generalizing v with
  | nil => rfl
  | cons b l ih =>
    rw [Volume.free_blocks_of, ih]
    split <;> rfl

theorem anota_spfs_unlink (hn : Navegavel T v) (path : List UInt8) :
    RefinaN (Anotado.spfs_unlink path) v (v.unlink path) :=
  RefinaN.get fun fs us hok _ => by
    rw [hok, Volume.unlink]
    refine (anota_path_find hn path).bind ?_
    dsimp only
    rcases hr : v.resolve path with _ | ⟨i, p⟩
    · exact .pure _ _
    obtain ⟨hi, hip⟩ := hn.resolve hr
    have hp : T p := by
      rcases hip with hip | hip
      · cases hip
        exact hn.raiz
      · exact hip.1
    have hb : Bons ((v.apaga i).ino p) := by
      change Bons (update (Volume.free_blocks_of (v.ino i) (List.range 10) v).ino i
        (inode_por_type (v.ino i) 0) p)
      rw [free_blocks_of_ino]
      by_cases hpi : p = i
      · rw [hpi, update_self]
        exact (hn.bons i hi).por_type 0
      · rw [update_of_ne hpi]
        exact hn.bons p hp
    refine (anota_inode_read (hn.lt i hi)).bind ?_
    refine (anota_free_blocks (hn.bons i hi) (fun _ hb => List.mem_range.mp hb) v).bind ?_
    refine (anota_inode_write (hn.lt i hi) _).bind ?_
    refine anota_free_inode (hn.lt i hi) (f := fun _ => _) ?_
    refine (anota_inode_read (hn.lt p hp)).bind ?_
    exact (refina_dir_remove hb i (fun _ hb => List.mem_range.mp hb) _).anota.bind (.pure _ _)

/-! ## The calls without their notes -/

theorem refina_spfs_write (hn : Navegavel T v) (path buf : List UInt8) (ticks : Nat) :
    Refina (spfs_write path buf ticks) v (v.write path buf ticks) :=
  (anota_spfs_write hn path buf ticks).refina (Anotado.forgets_spfs_write path buf ticks)

theorem refina_spfs_mkdir (hn : Navegavel T v) (path : List UInt8) (ticks : Nat) :
    Refina (spfs_mkdir path ticks) v (v.mkdir path ticks) :=
  (anota_spfs_mkdir hn path ticks).refina (Anotado.forgets_spfs_mkdir path ticks)

theorem refina_spfs_unlink (hn : Navegavel T v) (path : List UInt8) :
    Refina (spfs_unlink path) v (v.unlink path) :=
  (anota_spfs_unlink hn path).refina (Anotado.forgets_spfs_unlink path)

end Calls

end SpaceOS.SpaceFs
