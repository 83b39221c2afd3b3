-- The free counts of the superblock against the bitmaps: the one of the inodes is right, the one of
-- the blocks also counts the blocks that the bitmap has no bit for.
import SpaceOS.SpaceFsReadBack

open Lib.Bytes Lib.Bitmap Lib.BlockProg SpaceOS.Ata
open Function (update update_self update_of_ne)

namespace SpaceOS.SpaceFs

/-- The blocks that `alloc_block` can still hand out. -/
def blocos_restantes (m : Mem) : Nat :=
  clear m.fs.bmap.mem (min (super_total_blocks m.fs.sb) (512 * 8))

/-- `alloc_block` returns -1. -/
def Falha (m : Mem) (d : Disco) : Prop :=
  ∃ m' d', ((pelo_journal alloc_block).run m).exec d = some ((none, m'), d')

/-- `free_inodes` and `free_blocks` are the numbers of the inodes and blocks that are free. -/
structure Contas (m : Mem) (d : Disco) : Prop where
  inodes : super_free_inodes m.fs.sb = clear m.fs.imap.mem SFS_INODE_MAX
  blocks : super_free_blocks m.fs.sb = blocos_restantes m
  falha : Falha m d ↔ super_free_blocks m.fs.sb = 0

/-- The target of the call is no directory, and what it lies in is one. -/
def Comum (m : Mem) (d : Disco) (c : Chamada) : Prop :=
  (∀ i, acha m d c.path = some i → inode_type (ino d i) ≠ 2) ∧
    ∃ q, pai m d c.path = some q ∧ inode_type (ino d q) = 2

/-- The blocks of the disk that the bitmap has no bit for. -/
def SEM_BIT : Nat := 65536 - SFS_DATA_START - BMAP_BITS

/-- The counts of a volume: that of the blocks is too high by `SEM_BIT`. -/
structure Contadas (v : Volume) : Prop where
  inodes : v.free_inodes = unset v.imap SFS_INODE_MAX
  blocks : v.free_blocks = unset v.bmap BMAP_BITS + SEM_BIT

/-! ## What each step does to the counts -/

section Passos

variable {v : Volume} {x : Inode}

theorem Contadas.blocks_lt (h : Contadas v) : v.free_blocks + 1 < 2 ^ 32 := by
  have hb := h.blocks
  have hle := unset_le v.bmap BMAP_BITS
  unfold SEM_BIT SFS_DATA_START at hb
  rw [BMAP_BITS_eq] at *
  omega

theorem Contadas.inodes_lt (h : Contadas v) : v.free_inodes + 1 < 2 ^ 32 := by
  have hi := h.inodes
  have hle := unset_le v.imap SFS_INODE_MAX
  unfold SFS_INODE_MAX at *
  omega

/-- A free block is taken. -/
theorem Contadas.toma (h : Contadas v) {n : Nat} (hn : n < BMAP_BITS) (hfree : v.bmap n = false) :
    Contadas { v with
      bmap := update v.bmap n true
      free_blocks := (v.free_blocks + 2 ^ 32 - 1) % 2 ^ 32 } := by
  have hlt := h.blocks_lt
  have hb := h.blocks
  have hset := unset_update_true hn hfree
  refine ⟨h.inodes, ?_⟩
  dsimp only
  omega

theorem Contadas.alloc_block (h : Contadas v) : Contadas v.alloc_block.2 := by
  rcases v.alloc_block_cases with ⟨_, he⟩ | ⟨n, hn, hfree, _, he⟩
  · rw [he]
    exact h
  · rw [he]
    exact h.toma hn hfree

theorem Contadas.alloc_inode (h : Contadas v) : Contadas v.alloc_inode.2 := by
  rcases v.alloc_inode_cases with ⟨_, he⟩ | ⟨i, _, hi, hfree, _, he⟩
  · rw [he]
    exact h
  · rw [he]
    have hlt := h.inodes_lt
    have hin := h.inodes
    have hset := unset_update_true hi hfree
    refine ⟨?_, h.blocks⟩
    dsimp only
    omega

/-- A block in use is given back. -/
theorem Contadas.free_block (h : Contadas v) {s : Nat} (hs : marcado v.bmap s) :
    Contadas (v.free_block s) := by
  have hlt := h.blocks_lt
  have hb := h.blocks
  have hclr := unset_update_false (show s - SFS_DATA_START < BMAP_BITS by
    obtain ⟨h1, h2⟩ := hs.1
    omega) hs.2
  refine ⟨h.inodes, ?_⟩
  change (v.free_blocks + 1) % 2 ^ 32 = unset (update v.bmap (s - SFS_DATA_START) false) _ + _
  omega

/-- An inode in use is given back. -/
theorem Contadas.free_inode (h : Contadas v) {i : Nat} (hi : i < SFS_INODE_MAX)
    (hu : v.imap i = true) : Contadas (v.free_inode i) := by
  have hlt := h.inodes_lt
  have hin := h.inodes
  have hclr := unset_update_false hi hu
  refine ⟨?_, h.blocks⟩
  change (v.free_inodes + 1) % 2 ^ 32 = unset (update v.imap i false) _
  omega

/-- The blocks of an inode are given back, each of them once. -/
theorem Contadas.free_blocks_of (h : Contadas v) {l : List Nat} (hl : ∀ b ∈ l, b < 10)
    (hnd : l.Nodup) (hd : Distintos x) (hm : ∀ b ∈ l, ∀ s, Tem x b s → marcado v.bmap s) :
    Contadas (Volume.free_blocks_of x l v) := by
  induction l generalizing v with
  | nil => exact h
  | cons b l ih =>
    obtain ⟨hbl, hnd'⟩ := List.nodup_cons.mp hnd
    have hl' : ∀ c ∈ l, c < 10 := fun c hc => hl c (List.mem_cons_of_mem _ hc)
    rw [Volume.free_blocks_of]
    by_cases h0 : inode_block x b ≠ 0
    · rw [if_pos h0]
      have hb : Tem x b (inode_block x b) := ⟨hl b List.mem_cons_self, rfl, h0⟩
      have hmb := hm b List.mem_cons_self _ hb
      refine ih (h.free_block hmb) hl' hnd' fun c hc s hs => ?_
      have hms := hm c (List.mem_cons_of_mem _ hc) s hs
      refine ⟨hms.1, ?_⟩
      change update v.bmap (inode_block x b - SFS_DATA_START) false (s - SFS_DATA_START) = true
      rw [update_of_ne]
      · exact hms.2
      · intro he
        have hsb : s = inode_block x b := by
          have h1 := hms.1.1
          have h2 := hmb.1.1
          omega
        rw [hsb] at hs
        exact hbl (hd hb hs ▸ hc)
    · rw [if_neg h0]
      exact ih h hl' hnd' fun c hc => hm c (List.mem_cons_of_mem _ hc)

theorem Contadas.abre_bloco (h : Contadas v) (x : Inode) (b : Nat) :
    Contadas (v.abre_bloco x b).2 := by
  have ha := h.alloc_block
  unfold Volume.abre_bloco
  by_cases h0 : inode_block x b = 0
  · rw [if_pos h0]
    rcases hx : v.alloc_block with ⟨_ | s, w⟩ <;> rw [hx] at ha
    · exact ha
    · exact ha
  · rw [if_neg h0]
    exact h

theorem Contadas.dir_add_entry (h : Contadas v) (p child : Nat) (name : List UInt8) :
    Contadas (v.dir_add_entry p child name).2 := by
  unfold Volume.dir_add_entry
  rcases dir_add_laco_cases p child name (List.range 10) (v.ino p) v with ⟨he, _⟩ |
    ⟨pre, b, post, s, dir', dblk, w, e, _, _, ha, _, he⟩
  · rw [he]
    exact h
  · have hw := h.abre_bloco (v.ino p) b
    rw [ha] at hw
    rw [he]
    exact ⟨hw.inodes, hw.blocks⟩

theorem Contadas.write_laco (h : Contadas v) (buf : List UInt8) (l : List Nat) (x : Inode)
    (done : Nat) : Contadas (Volume.write_laco buf l x done v).2 := by
  induction l generalizing v x done with
  | nil => exact h
  | cons b l ih =>
    rcases write_laco_cons buf b l x done v with ⟨he, _⟩ | ⟨_, n, hn, hfree, he⟩
    · rw [he]
      exact h
    · rw [he]
      have ht := h.toma hn hfree
      exact ih (v := v.tomou n _) ⟨ht.inodes, ht.blocks⟩ _ _

theorem Contadas.enche (h : Contadas v) (i : Nat) (buf : List UInt8) :
    Contadas (v.enche i buf).2 := by
  have hw := h.write_laco buf (List.range 10) (inode_por_size (v.ino i) buf.length) 0
  exact ⟨hw.inodes, hw.blocks⟩

theorem Contadas.cria (h : Contadas v) (p : Nat) (name : List UInt8) (t ticks : Nat) :
    Contadas (v.cria p name t ticks).2 := by
  have ha := h.alloc_inode
  unfold Volume.cria
  rcases hx : v.alloc_inode with ⟨_ | i, w⟩ <;> rw [hx] at ha
  · exact ha
  · have hw : Contadas (w.por_ino i (inode_novo t ticks)) := ⟨ha.inodes, ha.blocks⟩
    exact hw.dir_add_entry p i name

end Passos

/-! ## The calls -/

section Calls

variable {v : Volume} {i : Nat}

/-- The blocks of an inode in use are given back. -/
theorem Contadas.devolve (h : Contadas v) (hc : Coeso v) (hi : i < SFS_INODE_MAX)
    (hu : v.imap i = true) : Contadas (Volume.free_blocks_of (v.ino i) (List.range 10) v) :=
  h.free_blocks_of (fun _ hb => List.mem_range.mp hb) List.nodup_range (hc.posse.distintos hi hu)
    fun _ _ _ hs => hc.posse.mark_of_holds ⟨⟨hi, hu⟩, hs⟩

theorem Contadas.esvazia (h : Contadas v) (hc : Coeso v) (hi : i < SFS_INODE_MAX)
    (hu : v.imap i = true) : Contadas (v.esvazia i) :=
  ⟨(h.devolve hc hi hu).inodes, (h.devolve hc hi hu).blocks⟩

theorem Contadas.apaga (h : Contadas v) (hc : Coeso v) (hi : i < SFS_INODE_MAX)
    (hu : v.imap i = true) : Contadas (v.apaga i) := by
  have hd := h.devolve hc hi hu
  have hp : Contadas ((Volume.free_blocks_of (v.ino i) (List.range 10) v).por_ino i
      (inode_por_type (v.ino i) 0)) := ⟨hd.inodes, hd.blocks⟩
  refine hp.free_inode hi ?_
  change (Volume.free_blocks_of (v.ino i) (List.range 10) v).imap i = true
  rw [(free_blocks_of_rest (v.ino i) (List.range 10) v).1]
  exact hu

theorem Contadas.write (h : Contadas v) (hc : Coeso v) (path buf : List UInt8) (ticks : Nat) :
    Contadas (v.write path buf ticks).2 := by
  unfold Volume.write
  split
  · exact h
  cases hp : v.parent_find (path_split path).1 with
  | none => exact h
  | some parent =>
    dsimp only
    unfold Volume.write_inode
    cases hr : v.resolve path with
    | none =>
      have hn := h.cria parent (path_split path).2 1 ticks
      dsimp only
      rcases hx : v.cria parent (path_split path).2 1 ticks with ⟨_ | i, w⟩ <;> rw [hx] at hn
      · exact hn
      · exact hn.enche i buf
    | some r =>
      obtain ⟨⟨hi, hu⟩, _⟩ := hc.navegavel.resolve hr
      exact (h.esvazia hc hi hu).enche r.1 buf

theorem Contadas.mkdir (h : Contadas v) (path : List UInt8) (ticks : Nat) :
    Contadas (v.mkdir path ticks).2 := by
  unfold Volume.mkdir
  cases hp : v.parent_find (path_split path).1 with
  | none => exact h
  | some parent =>
    have hn := h.cria parent (path_split path).2 2 ticks
    dsimp only
    rcases hx : v.cria parent (path_split path).2 2 ticks with ⟨_ | i, w⟩ <;> rw [hx] at hn
    · exact hn
    · exact hn

theorem Contadas.unlink (h : Contadas v) (hc : Coeso v) (path : List UInt8) :
    Contadas (v.unlink path).2 := by
  unfold Volume.unlink
  cases hr : v.resolve path with
  | none => exact h
  | some r =>
    obtain ⟨i, parent⟩ := r
    obtain ⟨⟨hi, hu⟩, _⟩ := hc.navegavel.resolve hr
    have ha := h.apaga hc hi hu
    dsimp only
    rcases dir_remove_cases ((v.apaga i).ino parent) (v.apaga i) i (List.range 10) with
      he | ⟨b, _, _, e, _, he⟩
    · rw [he]
      exact ha
    · rw [he]
      exact ⟨ha.inodes, ha.blocks⟩

theorem contadas_novo (d : Disco) : Contadas (Volume.novo d) := by
  have hraiz : unset (fun i => decide (i = 0)) SFS_INODE_MAX + 1 =
      unset (fun _ => false) SFS_INODE_MAX :=
    unset_of_set (i := 0) (by decide) (fun j hj => decide_eq_false hj) rfl rfl
  rw [unset_eq_self fun _ _ => rfl] at hraiz
  refine ⟨?_, ?_⟩
  · change SFS_INODE_MAX - 1 = unset (fun i => decide (i = 0)) SFS_INODE_MAX
    omega
  · change 65536 - SFS_DATA_START = unset (fun _ => false) BMAP_BITS + SEM_BIT
    rw [unset_eq_self fun _ _ => rfl]
    unfold SEM_BIT SFS_DATA_START
    rw [BMAP_BITS_eq]

end Calls

/-! ## The law -/

section Lei

variable {m : Mem} {d : Disco} {v : Volume}

/-- The counts and bitmaps of the code are those of the volume. -/
theorem Contadas.no_codigo (h : Contadas v) (hv : Vivo m d v) :
    super_free_inodes m.fs.sb = clear m.fs.imap.mem SFS_INODE_MAX ∧
      blocos_restantes m = unset v.bmap BMAP_BITS ∧
      super_free_blocks m.fs.sb = blocos_restantes m + SEM_BIT := by
  have hmin : min (super_total_blocks m.fs.sb) (512 * 8) = BMAP_BITS := by
    rw [hv.rep.total, BMAP_BITS_eq]
    rfl
  have hbmap : blocos_restantes m = unset v.bmap BMAP_BITS := by
    unfold blocos_restantes
    rw [hmin, clear_eq_unset]
    exact unset_congr fun n hn => (hv.rep.bmap n hn).symm ▸ rfl
  refine ⟨?_, hbmap, ?_⟩
  · rw [hv.rep.free_inodes, h.inodes, clear_eq_unset]
    exact unset_congr fun i hi => (hv.rep.imap i hi).symm
  · rw [hv.rep.free_blocks, h.blocks, hbmap]

theorem falha_iff (hv : Vivo m d v) : Falha m d ↔ unset v.bmap BMAP_BITS = 0 := by
  obtain ⟨m', d', he, _⟩ := (refina_alloc_block v).pelo_journal hv
  unfold Falha
  rw [he, unset_eq_zero]
  rcases v.alloc_block_cases with ⟨hall, ha⟩ | ⟨n, hn, hfree, _, ha⟩
  · rw [ha]
    exact ⟨fun _ => hall, fun _ => ⟨m', d', rfl⟩⟩
  · rw [ha]
    refine ⟨fun ⟨_, _, h⟩ => absurd (congrArg (fun r => r.1.1) (Option.some.inj h)) (by simp),
      fun hall => ?_⟩
    rw [hall n hn] at hfree
    exact absurd hfree (by decide)

theorem Comum.poupa (hv : Vivo m d v) (hc : Coeso v) {c : Chamada} (h : Comum m d c) :
    Poupa m d c := by
  cases c with
  | write path buf ticks => exact fun i hi ht => absurd ht (h.1 i hi)
  | mkdir path ticks => trivial
  | unlink path =>
    refine fun h0 => h.1 0 h0 ?_
    rw [hv.rep.ino 0 (by decide)]
    exact hc.raiz_dir

theorem Contadas.chama (h : Contadas v) (hc : Coeso v) (c : Chamada) :
    Contadas (c.no_volume v) := by
  cases c with
  | write path buf ticks => exact h.write hc path buf ticks
  | mkdir path ticks => exact h.mkdir path ticks
  | unlink path => exact h.unlink hc path

theorem Alcanca.contadas (h : Alcanca SemResto Comum m d) :
    ∃ v, Vivo m d v ∧ Coeso v ∧ Contadas v :=
  h.invariante (J := fun v => Coeso v ∧ Contadas v)
    (fun d hr => ⟨coeso_novo_volume hr, contadas_novo d⟩) (fun _ hj => ⟨_, hj.1.navegavel⟩)
    fun {_ _ _ c} hv hj _ hp => ⟨(Comum.poupa hv hj.1 hp).coeso hv hj.1, hj.2.chama hj.1 c⟩

theorem sem_bit_pos : 0 < SEM_BIT := by
  unfold SEM_BIT SFS_DATA_START
  rw [BMAP_BITS_eq]
  decide

/-- The counts are wrong wherever they are as format has set them up. -/
theorem Contadas.nao_contas (h : Contadas v) (hv : Vivo m d v) : ¬ Contas m d := fun hc => by
  have hb := (h.no_codigo hv).2.2
  have hpos := sem_bit_pos
  have := hc.blocks
  omega

theorem blocos_restantes_le (m : Mem) : blocos_restantes m ≤ 4096 :=
  Nat.le_trans (clear_le _ _) (Nat.min_le_right _ _)

/-- A format and a mount leave more blocks counted as free than the bitmap has bits. -/
theorem monta_nao_contas {m0 m1 : Mem} {d0 d1 : Disco} {pilha : Setor}
    (hf : ((spfs_format pilha).run m0).exec d0 = some ((true, m1), d1))
    (hm : (spfs_mount.run m1).exec d1 = some ((true, m), d)) : ¬ Contas m d := fun hc => by
  obtain ⟨m', d', he, hfd, -⟩ := spfs_format_formata pilha m0 d0
  rw [he] at hf
  cases hf
  rw [exec_spfs_mount (by rw [hfd.super]; decide) hfd.magic] at hm
  obtain ⟨r, -, hx⟩ := Option.map_eq_some_iff.mp hm
  cases hx
  have hb := (hc.blocks).trans_le (blocos_restantes_le _)
  change super_free_blocks (d1 SFS_SUPER_SEC) ≤ 4096 at hb
  rw [hfd.super, super_novo_campos.2.2.2] at hb
  unfold SFS_DATA_START at hb
  omega

/-- After a format and a mount of any disk, with no call yet, `free_blocks` counts blocks that the
bitmap has no bit for. In every run whose calls go to no directory it goes on counting them, while
`free_inodes` is right: `alloc_block` fails exactly when 61341 blocks are counted as free. -/
theorem the_blocks_without_a_bit_count_as_free
    (h : Alcanca (fun _ => True) (fun _ _ _ => False) m d ∨ Alcanca SemResto Comum m d) :
    ¬ Contas m d ∧ (Alcanca SemResto Comum m d →
      super_free_inodes m.fs.sb = clear m.fs.imap.mem SFS_INODE_MAX ∧
      super_free_blocks m.fs.sb = blocos_restantes m + SEM_BIT ∧
      (Falha m d ↔ super_free_blocks m.fs.sb = SEM_BIT)) := by
  refine ⟨?_, fun h => ?_⟩
  · rcases h with h | h
    · cases h with
      | monta hf _ hm => exact monta_nao_contas hf hm
      | chama _ _ hp _ => exact hp.elim
    · obtain ⟨v, hv, _, hcont⟩ := h.contadas
      exact hcont.nao_contas hv
  · obtain ⟨v, hv, _, hcont⟩ := h.contadas
    obtain ⟨hi, hr, hb⟩ := hcont.no_codigo hv
    refine ⟨hi, hb, ?_⟩
    rw [falha_iff hv, hb, hr]
    omega

/-- The law at the file system that a format and a mount make on a blank disk. -/
theorem the_blocks_without_a_bit_count_as_free_after_the_mount : ∃ m d,
    Alcanca SemResto Comum m d ∧ super_free_blocks m.fs.sb = blocos_restantes m + SEM_BIT := by
  obtain ⟨m, d, ha, _⟩ := alcanca_vazio (fun _ h => h) Comum
  exact ⟨m, d, ha, ((the_blocks_without_a_bit_count_as_free (Or.inr ha)).2 ha).2.1⟩

/-- Right after the mount the counts are wrong. -/
theorem the_counts_are_wrong_after_the_mount :
    ¬ ∀ m d, Alcanca SemResto Comum m d → Contas m d := by
  intro h
  obtain ⟨m, d, ha, hv, _⟩ := alcanca_vazio (fun _ h => h) Comum
  exact (contadas_novo d).nao_contas hv (h m d ha)

end Lei

end SpaceOS.SpaceFs
