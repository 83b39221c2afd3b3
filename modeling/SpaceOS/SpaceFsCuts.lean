-- A call of SpaceFS on a plain disk, cut anywhere: the disk shows one of the volumes that the call
-- comes by.
import SpaceOS.SpaceFsReboot

open Lib.Bytes Lib.BlockProg SpaceOS.Ata
open Function (update update_self update_of_ne)

namespace SpaceOS.SpaceFs

/-! ## What a disk shows -/

/-- The disk has a superblock that a mount takes, and shows inodes and data for which `J` holds. -/
structure Visto (J : Volume → Prop) (e : Disco) : Prop where
  magic : super_magic (e SFS_SUPER_SEC) = SFS_MAGIC
  total : super_total_blocks (e SFS_SUPER_SEC) = 65536 - SFS_DATA_START
  root : super_root_inode (e SFS_SUPER_SEC) = 0
  volume : ∃ w, (∀ i < SFS_INODE_MAX, ino e i = w.ino i) ∧ (∀ s, DeDados s → e s = w.dado s) ∧ J w

/-- From any disk that holds `v`, whatever the cut, the program leaves a disk that shows `J`. -/
def Aguenta {α : Type} (J : Volume → Prop) (x : S α) (v : Volume) : Prop :=
  ∀ fs d, Rep fs d v → super_magic fs.sb = SFS_MAGIC → Survives x fs d (Visto J)

/-- Neither the bitmaps nor the counts matter. -/
def Cego (J : Volume → Prop) : Prop := ∀ ⦃v w : Volume⦄, w.ino = v.ino → w.dado = v.dado → J v → J w

section Rules

variable {α β : Type} {J J' : Volume → Prop} {v : Volume} {r : α × Volume} {fs : Fs} {d : Disco}

theorem Rep.visto (h : Rep fs d v) (hm : super_magic fs.sb = SFS_MAGIC) (hJ : J v) : Visto J d where
  magic := by rw [h.disk_sb, hm]
  total := by rw [h.disk_sb, h.total]
  root := by rw [h.disk_sb, h.root]
  volume := ⟨v, h.ino, h.dado, hJ⟩

/-- A write to one of the bitmaps is not seen. -/
theorem Visto.bitmap (h : Visto J d) {s : Nat} (hs : s = SFS_IMAP_SEC ∨ s = SFS_BMAP_SEC) (b : Setor) :
    Visto J (update d s b) := by
  have hs' : s = 1 ∨ s = 2 := hs
  have h0 : SFS_SUPER_SEC ≠ s := by
    unfold SFS_SUPER_SEC
    omega
  obtain ⟨w, h1, h2, h3⟩ := h.volume
  refine ⟨by rw [update_of_ne h0, h.magic], by rw [update_of_ne h0, h.total],
    by rw [update_of_ne h0, h.root], w, fun i hi => ?_, fun x hx => ?_, h3⟩
  · have := inode_sector_bounds hi
    rw [ino_update_of_ne (by omega), h1 i hi]
  · have hx' := hx.1
    unfold SFS_DATA_START at hx'
    rw [update_of_ne (by omega), h2 x hx]

/-- A write to the superblock is seen in the counts alone. -/
theorem Visto.super (h : Visto J d) {b : Setor} (h0 : super_magic b = SFS_MAGIC)
    (h1 : super_total_blocks b = 65536 - SFS_DATA_START) (h2 : super_root_inode b = 0) :
    Visto J (update d SFS_SUPER_SEC b) := by
  obtain ⟨w, g1, g2, g3⟩ := h.volume
  refine ⟨by rw [update_self, h0], by rw [update_self, h1], by rw [update_self, h2], w,
    fun i hi => ?_, fun x hx => ?_, g3⟩
  · have := inode_sector_bounds hi
    rw [ino_update_of_ne (by unfold SFS_SUPER_SEC; omega), g1 i hi]
  · have hx' := hx.1
    unfold SFS_DATA_START at hx'
    rw [update_of_ne (by unfold SFS_SUPER_SEC; omega), g2 x hx]

theorem Aguenta.mono {x : S α} (h : Aguenta J x v) (hJ : ∀ w, J w → J' w) : Aguenta J' x v := by
  intro fs d hr hm
  refine (h fs d hr hm).mono fun e he => ?_
  obtain ⟨w, h1, h2, h3⟩ := he.volume
  exact ⟨he.magic, he.total, he.root, w, h1, h2, hJ w h3⟩

theorem Aguenta.reads {x : S α} (hx : ∀ fs, (x.run fs).Reads) (hJ : J v) : Aguenta J x v :=
  fun fs _ hr hm => .reads (hx fs) (hr.visto hm hJ)

theorem Aguenta.pure (a : α) (hJ : J v) : Aguenta J (Pure.pure a) v := .reads (fun _ => trivial) hJ

theorem Aguenta.bind {x : S α} {f : α → S β} (hx : Aguenta J x v) (hr : Refina x v r)
    (hf : Aguenta J (f r.1) r.2) : Aguenta J (x >>= f) v := by
  intro fs d hv hm
  apply (hx fs d hv hm).bind
  intro a fs' d' he
  obtain ⟨⟨a1, fs1⟩, d1, he1, ha, hr1⟩ := (hr fs d hv).exec
  rw [he1] at he
  cases he
  obtain rfl : a = r.1 := ha
  have hr1 : Rep fs' d' r.2 := hr1
  apply hf fs' d' hr1
  rw [← hr1.disk_sb]
  exact ((hx fs d hv hm).finish he1).magic

/-- A look at the caches. -/
theorem Aguenta.get {f : Fs → S β}
    (h : ∀ fs, fs.sfs_ok = true → super_root_inode fs.sb = 0 → Aguenta J (f fs) v) :
    Aguenta J (MonadState.get >>= f) v := fun fs d hr hm => h fs hr.ok hr.root fs d hr hm

end Rules

/-! ## Single writes -/

section Writes

variable {J : Volume → Prop} {v : Volume}

theorem aguenta_write_dado {s : Nat} (hs : DeDados s) (b : Setor) (h : J v) (h' : J (v.por_dado s b)) :
    Aguenta J (liftM (sfs_write_sec s b)) v := by
  intro fs d hr hm
  obtain ⟨-, -, hr'⟩ := refina_write_dado hs b fs d hr
  exact .write (hr.visto hm h) (hr'.visto hm h')

theorem aguenta_inode_write {i : Nat} (hi : i < SFS_INODE_MAX) (x : Inode) (h : J v)
    (h' : J (v.por_ino i x)) : Aguenta J (liftM (inode_write i x)) v := by
  intro fs d hr hm
  obtain ⟨-, -, -, hr'⟩ := refina_inode_write hi x fs d hr
  apply Survives.lift
  intro d' hc
  have hc : (Prog.write (inode_sector i) ((d (inode_sector i)).splice (inode_off i) x) .ret).Cut d d' ∨
      d' = d := by
    cases hc with
    | here => exact Or.inr rfl
    | read hc => exact Or.inl hc
  rcases hc with hc | rfl
  · rcases hc.of_write with rfl | hc
    · exact hr.visto hm h
    · rw [Prog.Reads.cut (p := Prog.ret true) trivial hc]
      exact hr'.visto hm h'
  · exact hr.visto hm h

/-- A bitmap and then the count of the superblock that goes with it. -/
theorem survives_conta {fs fs' : Fs} {d : Disco} {s n : Nat} {α : Type} {f : Bool → S α}
    (hr : Rep fs d v) (hm : super_magic fs.sb = SFS_MAGIC) (hJ : J v)
    (hs : s = SFS_IMAP_SEC ∨ s = SFS_BMAP_SEC) (b : Setor) {off : Nat}
    (ho : off = 12 ∨ off = 20) (hf : ∀ e, Visto J e → Survives (f true) fs' e (Visto J)) :
    Survives (liftM (sfs_write_sec s b) >>= fun _ => (liftM (sfs_write_sec SFS_SUPER_SEC
      (fs.sb.putWord off n)) >>= f : S α)) fs' d (Visto J) := by
  have hv := hr.visto hm hJ
  have h1 : super_magic (fs.sb.putWord off n) = SFS_MAGIC := by
    rw [← hm]
    exact fs.sb.word_putWord_ne n (by omega) (by decide)
  have h2 : super_total_blocks (fs.sb.putWord off n) = 65536 - SFS_DATA_START := by
    rw [← hr.total]
    exact fs.sb.word_putWord_ne n (by omega) (by decide)
  have h3 : super_root_inode (fs.sb.putWord off n) = 0 := by
    rw [← hr.root]
    exact fs.sb.word_putWord_ne n (by omega) (by decide)
  apply Survives.write_bind hv
  apply Survives.write_bind (hv.bitmap hs b)
  exact hf _ ((hv.bitmap hs b).super h1 h2 h3)

theorem aguenta_alloc_inode (hJ : J v) : Aguenta J alloc_inode v := by
  intro fs d hr hm
  apply Survives.get
  cases (List.range' 1 (SFS_INODE_MAX - 1)).find? fun i => !bm_test fs.imap i with
  | none => exact .pure (hr.visto hm hJ)
  | some i => exact survives_conta hr hm hJ (Or.inl rfl) _ (Or.inr rfl) fun _ he => .pure he

theorem aguenta_alloc_block (hJ : J v) : Aguenta J alloc_block v := by
  intro fs d hr hm
  apply Survives.get
  cases (List.range (min (super_total_blocks fs.sb) (512 * 8))).find? fun i => !bm_test fs.bmap i with
  | none => exact .pure (hr.visto hm hJ)
  | some i => exact survives_conta hr hm hJ (Or.inr rfl) _ (Or.inl rfl) fun _ he => .pure he

theorem aguenta_free_block {s : Nat} (hJ : J v) : Aguenta J (free_block s) v := by
  intro fs d hr hm
  unfold free_block
  by_cases hs : s < SFS_DATA_START
  · rw [if_pos hs]
    exact .pure (hr.visto hm hJ)
  · rw [if_neg hs]
    exact survives_conta (f := fun _ => Pure.pure ()) hr hm hJ (Or.inr rfl) _ (Or.inl rfl) fun _ he =>
      .pure he

theorem aguenta_free_blocks (hc : Cego J) {in_ : Inode} (hb : Bons in_) {l : List Nat}
    (hl : ∀ b ∈ l, b < 10) (hJ : J v) : Aguenta J (free_blocks in_ l) v := by
  induction l generalizing v with
  | nil => exact .pure _ hJ
  | cons b l ih =>
    have hl' : ∀ x ∈ l, x < 10 := fun x hx => hl x (List.mem_cons_of_mem _ hx)
    rw [free_blocks]
    by_cases h0 : inode_block in_ b = 0
    · rw [if_neg (not_not.mpr h0)]
      exact Aguenta.bind (f := fun _ => free_blocks in_ l) (.pure () hJ) (.pure () v) (ih hl' hJ)
    · rw [if_pos h0]
      have hs := hb b (hl b List.mem_cons_self) h0
      have hJ' : J (v.free_block (inode_block in_ b)) := hc (v := v) rfl rfl hJ
      exact Aguenta.bind (f := fun _ => free_blocks in_ l) (aguenta_free_block hJ)
        (refina_free_block hs) (ih hl' hJ')

end Writes

/-! ## Reads -/

section Reads

variable {J : Volume → Prop} {v : Volume}

theorem reads_busca_dir (dir : Inode) (tok : List UInt8) (l : List Nat) (entries : Nat) :
    (busca_dir dir tok l entries).Reads := by
  induction l generalizing entries with
  | nil => trivial
  | cons b l ih =>
    rw [busca_dir]
    split
    · trivial
    split
    · trivial
    refine Prog.Reads.bind (fun _ => trivial) fun r => ?_
    cases r with
    | none => trivial
    | some dblk =>
      dsimp only
      split
      · trivial
      · exact ih _

theorem reads_inode_read (i : Nat) : (inode_read i).Reads := by
  refine Prog.Reads.bind (fun _ => trivial) fun r => ?_
  cases r <;> trivial

theorem reads_path_laco (toks : List (List UInt8)) (cur parent : Nat) :
    (path_laco toks cur parent).Reads := by
  induction toks generalizing cur parent with
  | nil => trivial
  | cons tok toks ih =>
    rw [path_laco]
    split
    · exact ih _ _
    refine (reads_inode_read cur).bind fun r => ?_
    cases r with
    | none => trivial
    | some dir =>
      dsimp only
      split
      · trivial
      refine (reads_busca_dir _ _ _ _).bind fun r => ?_
      cases r with
      | none => trivial
      | some i => exact ih _ _

theorem aguenta_le {α : Type} {p : Prog Setor α} (hp : p.Reads) (hJ : J v) :
    Aguenta J (liftM p : S α) v := .reads (fun _ => hp.bind fun _ => trivial) hJ

theorem aguenta_path_find (path : List UInt8) (hJ : J v) : Aguenta J (path_find path) v :=
  .get fun _ _ _ => aguenta_le (reads_path_laco _ _ _) hJ

theorem aguenta_parent_find {T : Nat → Prop} (hn : Navegavel T v) (path : List UInt8) (hJ : J v) :
    Aguenta J (parent_find path) v := by
  unfold parent_find
  split
  · exact .pure _ hJ
  · refine (aguenta_path_find path hJ).bind (refina_path_find hn path) ?_
    dsimp only
    rcases v.resolve path with _ | ⟨i, p⟩
    · exact .pure _ hJ
    · exact .pure _ hJ

end Reads

/-! ## Loops -/

section Loops

variable {J : Volume → Prop} {v : Volume} {p child : Nat} {name : List UInt8} {dir : Inode}

theorem refina_abre_bloco (hd : Bons dir) {b : Nat} (hb : b < 10) (v : Volume) :
    Refina (abre_bloco dir b) v (v.abre_bloco dir b) :=
  (anota_abre_bloco hd hb v).refina (Anotado.forgets_abre_bloco dir b)

theorem cego_alloc_block (hc : Cego J) (hJ : J v) : J v.alloc_block.2 := by
  rcases v.alloc_block_cases with ⟨_, he⟩ | ⟨n, _, _, _, he⟩
  · rwa [he]
  · rw [he]
    exact hc (v := v) rfl rfl hJ

theorem cego_alloc_inode (hc : Cego J) (hJ : J v) : J v.alloc_inode.2 := by
  rcases v.alloc_inode_cases with ⟨_, he⟩ | ⟨n, _, _, _, _, he⟩
  · rwa [he]
  · rw [he]
    exact hc (v := v) rfl rfl hJ

theorem aguenta_abre_bloco (hc : Cego J) (dir : Inode) (b : Nat) (hJ : J v) :
    Aguenta J (abre_bloco dir b) v := by
  unfold abre_bloco
  split
  · refine (aguenta_alloc_block hJ).bind (refina_alloc_block v) ?_
    have hJ' := cego_alloc_block hc hJ
    cases v.alloc_block.1 with
    | none => exact .pure _ hJ'
    | some s => exact .pure _ hJ'
  · refine .reads (fun fs => ?_) hJ
    refine Prog.Reads.bind (fun _ => trivial) fun r => ?_
    obtain ⟨r, fs'⟩ := r
    cases r <;> trivial

/-- A block that is opened without a place free is one that was there. -/
theorem abre_bloco_cheio {b s : Nat} {dir' : Inode} {dblk : Setor} {w : Volume}
    (h : v.abre_bloco dir b = (some (s, dir', dblk), w)) (hv : Volume.vaga dblk = none) :
    dir' = dir ∧ w = v := by
  rcases Volume.abre_bloco_cases h with ⟨_, n, _, _, _, _, rfl, _⟩ | ⟨_, _, rfl, _, rfl⟩
  · rw [vaga_zero] at hv
    cases hv
  · exact ⟨rfl, rfl⟩

/-- A new entry, where `J` holds with the entry written and with its inode written. -/
theorem aguenta_dir_add_laco (hc : Cego J) (hp : p < SFS_INODE_MAX) {l : List Nat}
    (hl : ∀ b ∈ l, b < 10) (hd : Bons dir) (hJ : J v)
    (h : ∀ b ∈ l, ∀ s dir' dblk w e, v.abre_bloco dir b = (some (s, dir', dblk), w) →
      Volume.vaga dblk = some e → Volume.dir_add_laco p child name l dir v =
        (true, w.entrou p s dir' dblk e child name) →
      J (w.por_dado s (dirent_por dblk e child name)) ∧ J (w.entrou p s dir' dblk e child name)) :
    Aguenta J (dir_add_laco p child name l dir) v := by
  induction l with
  | nil => exact .pure _ hJ
  | cons b l ih =>
    have hb := hl b List.mem_cons_self
    rw [dir_add_laco]
    refine (aguenta_abre_bloco hc dir b hJ).bind (refina_abre_bloco hd hb v) ?_
    rcases hx : v.abre_bloco dir b with ⟨_ | ⟨s, dir', dblk⟩, w⟩
    · refine .pure _ ?_
      have hw : w = v.alloc_block.2 := by
        unfold Volume.abre_bloco at hx
        split at hx
        · split at hx
          · rename_i hy
            cases hx
            rw [hy]
          · cases hx
        · cases hx
      rw [hw]
      exact cego_alloc_block hc hJ
    · have hw : w.ino = v.ino ∧ w.dado = v.dado := by
        rcases Volume.abre_bloco_cases hx with ⟨_, n, _, _, _, _, _, rfl⟩ | ⟨_, _, _, _, rfl⟩ <;>
          exact ⟨rfl, rfl⟩
      obtain ⟨hs, -⟩ := abre_bloco_some hd hb hx
      have hJw : J w := hc hw.1 hw.2 hJ
      dsimp only
      cases hv : Volume.vaga dblk with
      | some e =>
        have hlaco : Volume.dir_add_laco p child name (b :: l) dir v =
            (true, w.entrou p s dir' dblk e child name) := by
          rw [Volume.dir_add_laco, hx]
          dsimp only
          rw [hv]
          rfl
        obtain ⟨h1, h2⟩ := h b List.mem_cons_self s dir' dblk w e hx hv hlaco
        unfold Volume.vaga at hv
        rw [hv]
        refine (aguenta_write_dado hs _ hJw h1).bind (refina_write_dado hs _).lift ?_
        refine (aguenta_inode_write hp _ h1 h2).bind (refina_inode_write hp _).lift ?_
        exact .pure _ h2
      | none =>
        obtain ⟨rfl, rfl⟩ := abre_bloco_cheio hx hv
        have hlaco : Volume.dir_add_laco p child name (b :: l) dir' w =
            Volume.dir_add_laco p child name l dir' w := by
          rw [Volume.dir_add_laco, hx]
          dsimp only
          rw [hv]
        rw [hlaco] at h
        unfold Volume.vaga at hv
        rw [hv]
        exact ih (fun x hx => hl x (List.mem_cons_of_mem _ hx)) fun x hx =>
          h x (List.mem_cons_of_mem _ hx)

theorem aguenta_dir_add_entry (hc : Cego J) (hp : p < SFS_INODE_MAX) (hd : Bons (v.ino p)) (hJ : J v)
    (h : ∀ b < 10, ∀ s dir' dblk w e, v.abre_bloco (v.ino p) b = (some (s, dir', dblk), w) →
      Volume.vaga dblk = some e →
      v.dir_add_entry p child name = (true, w.entrou p s dir' dblk e child name) →
      J (w.por_dado s (dirent_por dblk e child name)) ∧ J (w.entrou p s dir' dblk e child name)) :
    Aguenta J (dir_add_entry p child name) v :=
  (aguenta_le (reads_inode_read p) hJ).bind (refina_inode_read hp).lift
    (aguenta_dir_add_laco hc hp (fun _ hb => List.mem_range.mp hb) hd hJ fun b hb =>
      h b (List.mem_range.mp hb))

/-- The entry of an inode cleared, where `J` holds with it cleared. -/
theorem aguenta_dir_remove {inum : Nat} (hd : Bons dir) {l : List Nat} (hl : ∀ b ∈ l, b < 10)
    (hJ : J v) (h : ∀ b ∈ l, ∀ e < SFS_DIRENTS_PER_BLK, inode_block dir b ≠ 0 →
      dirent_inode (v.dado (inode_block dir b)) e = inum →
      J (v.por_dado (inode_block dir b) (dirent_por_inode (v.dado (inode_block dir b)) e 0))) :
    Aguenta J (liftM (dir_remove dir inum l)) v := by
  intro fs d hr hm
  apply Survives.lift
  intro d' hcut
  have hv := hr.visto hm hJ
  induction l with
  | nil =>
    rw [Prog.Reads.cut (p := dir_remove dir inum []) trivial hcut]
    exact hv
  | cons b l ih =>
    rw [dir_remove] at hcut
    split at hcut
    · rw [Prog.Reads.cut (p := Prog.ret ()) trivial hcut]
      exact hv
    rename_i h0
    have hs := hd b (hl b List.mem_cons_self) h0
    cases hcut with
    | here => exact hv
    | read hcut =>
      dsimp only [Prog.bind] at hcut
      rw [hr.dado _ hs] at hcut
      cases hf : (List.range SFS_DIRENTS_PER_BLK).find? fun i =>
          dirent_inode (v.dado (inode_block dir b)) i = inum with
      | none =>
        rw [hf] at hcut
        exact ih (fun x hx => hl x (List.mem_cons_of_mem _ hx))
          (fun x hx => h x (List.mem_cons_of_mem _ hx)) hcut
      | some e =>
        rw [hf] at hcut
        have he := List.mem_range.mp (List.mem_of_find?_eq_some hf)
        have hJ' := h b List.mem_cons_self e he h0 (by simpa using List.find?_some hf)
        obtain ⟨-, -, hr'⟩ := refina_write_dado hs
          (dirent_por_inode (v.dado (inode_block dir b)) e 0) fs d hr
        rcases Prog.Cut.of_write hcut with rfl | hcut
        · exact hv
        · rw [Prog.Reads.cut (p := Prog.ret ()) trivial hcut]
          exact hr'.visto hm hJ'

/-- Sector `s` is a data sector without an owner. -/
def Livre (v : Volume) (s : Nat) : Prop := ∃ n < BMAP_BITS, s = SFS_DATA_START + n ∧ v.bmap n = false

theorem aguenta_write_laco {buf : List UInt8} (hc : Cego J) (l : List Nat) (in_ : Inode) (done : Nat)
    (hJ : J v) (h : ∀ w s b, Livre v s → J w → J (w.por_dado s b)) :
    Aguenta J (write_laco buf l in_ done) v := by
  induction l generalizing in_ done v with
  | nil => exact .pure _ hJ
  | cons b l ih =>
    rw [write_laco]
    split
    · exact .pure _ hJ
    refine (aguenta_alloc_block hJ).bind (refina_alloc_block v) ?_
    rcases v.alloc_block_cases with ⟨_, he⟩ | ⟨n, hn, hfree, _, he⟩
    · rw [he]
      exact .pure _ hJ
    · have hs : DeDados (SFS_DATA_START + n) := ⟨Nat.le_add_right _ _, Nat.add_lt_add_left hn _⟩
      have hlivre : Livre v (SFS_DATA_START + n) := ⟨n, hn, rfl, hfree⟩
      have hJ1 := cego_alloc_block hc hJ
      rw [he] at hJ1 ⊢
      have hJ2 := h _ _ (bloco_de ((buf.drop done).take (min (buf.length - done) SETOR_SIZE))) hlivre hJ1
      refine (aguenta_write_dado hs _ hJ1 hJ2).bind (refina_write_dado hs _).lift ?_
      refine ih _ _ hJ2 fun w s b' hl => h w s b' ?_
      obtain ⟨k, hk, rfl, hkf⟩ := hl
      refine ⟨k, hk, rfl, ?_⟩
      have hkf' : update v.bmap n true k = false := hkf
      by_cases hkn : k = n
      · rw [hkn, update_self] at hkf'
        cases hkf'
      · rwa [update_of_ne hkn] at hkf'

end Loops

end SpaceOS.SpaceFs
