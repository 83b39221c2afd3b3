-- A mounted SpaceFS over its log: each call does to the disk what it does to the volume,
-- format and mount make an empty volume, and the states that a run of calls reaches.
import SpaceOS.SpaceFsMount
import SpaceOS.SpaceFsCoherence

open Lib.Bytes Lib.BlockProg Lib.Ownership SpaceOS.Ata
open Function (update update_self update_of_ne)

namespace SpaceOS.Journal

/-! ## A write through the log, whatever the log holds -/

section Escrita

variable {m : Mem} {d e : Disco} {sec : Nat} {data : Setor}

/-- Every sector of the disk. -/
def Toda : Nat → Prop := fun _ => True

theorem wp_ler1 {β : Type} {Q : β → Mem → Disco → Prop} {lba : Nat} {f : Option Setor → M β}
    (h : Wp Toda (f (some (d (setor lba)))) m d Q) : Wp Toda (liftM (ata_ler1 lba) >>= f) m d Q :=
  ⟨trivial, h⟩

theorem wp_gravar1 {β : Type} {Q : β → Mem → Disco → Prop} {lba : Nat} {f : Bool → M β}
    (h : Wp Toda (f true) m (update d (setor lba) data) Q) :
    Wp Toda (liftM (ata_gravar1 lba data) >>= f) m d Q := ⟨trivial, h⟩

theorem wp_commit_marca (x : Nat) (l : List Nat) (h : Mesmo d e) :
    (commit_marca x l).wp Toda d fun _ d' => Mesmo d' e := by
  induction l with
  | nil => exact h
  | cons i l ih =>
    rw [commit_marca]
    refine Prog.wp_bind.mpr ⟨trivial, ?_⟩
    change Prog.wp Toda (if _ then _ else _) _ _
    split
    · refine ⟨trivial, h.update_dentro ?_ _⟩
      rw [setor_entry]
      exact not_fora_entry i
    · exact ih

theorem wp_commit_avanca {voltas : Nat} (ht : meta_tail m.jmeta < J_MAX_ENTRIES)
    (hv : faltam (meta_head m.jmeta) (meta_tail m.jmeta) < voltas) :
    Wp Toda (commit_avanca voltas) m d fun _ m' d' => m'.j_ok = m.j_ok ∧ d' = d := by
  induction voltas generalizing m with
  | zero => exact absurd hv (Nat.not_lt_zero _)
  | succ voltas ih =>
    refine .get_bind ?_
    split
    · exact ⟨rfl, rfl⟩
    rename_i hne
    refine wp_ler1 ?_
    dsimp only
    split
    · exact ⟨rfl, rfl⟩
    · have hlt := faltam_proximo ht hne
      refine ih (m := { m with jmeta := meta_por_head m.jmeta (proximo (meta_head m.jmeta)) }) ?_ ?_
      · rw [tail_por_head]
        exact ht
      · rw [tail_por_head, head_por_head, proximo_mod]
        omega

theorem wp_journal_begin (hok : m.j_ok = true) (h : Mesmo d e) :
    Wp Toda (journal_begin sec data) m d fun _ m' d' =>
      m'.j_ok = true ∧ meta_tail m'.jmeta < J_MAX_ENTRIES ∧ Mesmo d' e := by
  refine .get_bind ?_
  rw [hok, if_neg (by decide)]
  refine ⟨trivial, trivial, trivial, hok, ?_, ?_⟩
  · dsimp only
    rw [tail_por_next_txid, tail_por_tail, proximo_mod]
    exact proximo_lt _
  · rw [setor_entry, setor_entry_data, setor_meta]
    exact ((h.update_dentro (not_fora_entry _) _).update_dentro (not_fora_entry_data _)
      _).update_dentro not_fora_meta _

theorem wp_journal_commit {txid : Nat} (hok : m.j_ok = true) (ht : meta_tail m.jmeta < J_MAX_ENTRIES)
    (h : Mesmo d e) :
    Wp Toda (journal_commit txid) m d fun _ m' d' => m'.j_ok = true ∧ Mesmo d' e := by
  refine .get_bind ?_
  rw [if_pos hok]
  refine Wp.call_lift (wp_commit_marca txid _ h) fun _ d2 h2 => ?_
  have hv : faltam (meta_head m.jmeta) (meta_tail m.jmeta) < VOLTAS :=
    Nat.lt_of_le_of_lt (faltam_le _ _) (by decide)
  refine (wp_commit_avanca ht hv).call fun _ m3 d3 ⟨hok3, hd3⟩ => .get_bind (wp_gravar1 ?_)
  rw [hd3, setor_meta]
  exact ⟨hok3.trans hok, h2.update_dentro not_fora_meta _⟩

/-- The write returns 0 and changes one sector outside the log. -/
theorem wp_sfs_write_sec (hok : m.j_ok = true) (h : Mesmo d e) :
    Wp Toda (sfs_write_sec sec data) m d fun ret m' d' =>
      ret = true ∧ m'.j_ok = true ∧ Mesmo d' (update e (setor sec) data) := by
  refine (wp_journal_begin hok h).call fun txid m1 d1 ⟨hok1, ht, h1⟩ => wp_gravar1 ?_
  have h2 := h1.update_ambos (setor sec) data
  refine Wp.call (wp_journal_commit hok1 ht h2) fun _ m' d' hq => ⟨rfl, hq⟩

end Escrita

end SpaceOS.Journal

namespace SpaceOS.SpaceFs

open SpaceOS.Journal (J_META_SECTOR J_MAGIC meta_magic meta_head meta_tail pendentes aplica Mesmo
  Fora recover_laco VOLTAS meta_por_head meta_vazia)

/-! ## The calls over the log -/

/-- The disk `e` behind the log shows the disk `d`. -/
def Mostra (t : Journal.Mem) (e d : Disco) : Prop := t.j_ok = true ∧ Mesmo e d

theorem journal_driver_implements : journal_driver.Implements Zona Mostra where
  probe := fun {t e d} h => ⟨t, e, rfl, h⟩
  read := fun {t e d n} hn h => by
    refine ⟨t, e, ?_, h⟩
    rw [← h.2 n hn.2]
    change some ((some (e (setor n)), t), e) = _
    rw [setor_eq hn.1]
  write := fun {t e d n b} hn h => by
    have hs : Fora (setor n) := by
      rw [setor_eq hn.1]
      exact hn.2
    obtain ⟨⟨ret, t'⟩, e', he, hr, hok, hm⟩ := (Journal.wp_sfs_write_sec h.1 h.2).exec
    rw [setor_eq hn.1] at hm
    cases hr
    exact ⟨t', e', he, hok, hm⟩

theorem ino_congr {d e : Disco} {i : Nat} (h : d (inode_sector i) = e (inode_sector i)) :
    ino d i = ino e i := by rw [ino, h, ino]

theorem Rep.congr {fs : Fs} {d e : Disco} {v : Volume} (h : Rep fs e v) (hm : Mesmo d e) :
    Rep fs d v where
  ok := h.ok
  total := h.total
  root := h.root
  disk_sb := (hm _ zona_super.1.2).trans h.disk_sb
  disk_imap := (hm _ zona_super.2.1.2).trans h.disk_imap
  disk_bmap := (hm _ zona_super.2.2.2).trans h.disk_bmap
  imap := h.imap
  bmap := h.bmap
  ino := fun i hi => (ino_congr (hm _ (zona_inode hi).2)).trans (h.ino i hi)
  dado := fun s hs => (hm s hs.zona.2).trans (h.dado s hs)
  free_inodes := h.free_inodes
  free_blocks := h.free_blocks

/-- The memory and the disk of a mounted file system hold the volume `v`. -/
structure Vivo (m : Mem) (d : Disco) (v : Volume) : Prop where
  journal : m.journal.j_ok = true
  rep : Rep m.fs d v

/-- A call over the log returns, and does what it does to the volume. -/
theorem Refina.pelo_journal {α : Type} {x : S α} {v : Volume} {r : α × Volume} (h : Refina x v r)
    {m : Mem} {d : Disco} (hv : Vivo m d v) :
    ∃ m' d', ((pelo_journal x).run m).exec d = some ((r.1, m'), d') ∧ Vivo m' d' r.2 := by
  obtain ⟨⟨a, fs⟩, d', j, e', he, hj, rfl, hr⟩ :=
    Prog.wp.over journal_driver_implements (h m.fs d hv.rep) (t := m.journal) (e := d)
      ⟨hv.journal, fun _ _ => rfl⟩
  refine ⟨⟨fs, j⟩, e', ?_, hj.1, hr.congr hj.2⟩
  change (((x.run m.fs).over journal_driver).run m.journal >>= fun r =>
    Prog.ret (r.1.1, (⟨r.1.2, r.2⟩ : Mem))).exec d = _
  rw [Prog.exec_bind, he]
  rfl

/-! ## Format and mount -/

section Monta

variable {m m' : Mem} {d d' : Disco} {r : Bool}

/-- A disk that has just been formatted. -/
structure Formatado (d : Disco) : Prop where
  super : d SFS_SUPER_SEC = super_novo
  imap : d SFS_IMAP_SEC = bm_set ByteStr.zero 0
  bmap : d SFS_BMAP_SEC = ByteStr.zero
  raiz : ino d 0 = inode_novo 2 0
  magic : meta_magic (d J_META_SECTOR) = J_MAGIC

/-- The volume of a formatted disk. -/
def Volume.novo (d : Disco) : Volume where
  imap i := decide (i = 0)
  bmap _ := false
  ino := SpaceFs.ino d
  dado := d
  free_inodes := SFS_INODE_MAX - 1
  free_blocks := 65536 - SFS_DATA_START

theorem coeso_novo_volume (hr : ino d 0 = inode_novo 2 0) : Coeso (Volume.novo d) := by
  have huso : ∀ i, (Volume.novo d).imap i = true → i = 0 := fun i hi => of_decide_eq_true hi
  have hino : (Volume.novo d).ino 0 = inode_novo 2 0 := hr
  have htem : ∀ i b s, ¬ tem (Volume.novo d).imap (Volume.novo d).ino i b s := by
    rintro i b s ⟨⟨_, hu⟩, ht⟩
    rw [huso i hu, hino] at ht
    exact tem_novo _ _ ht
  have hent : ∀ {i b e c}, ¬ Entrada (Volume.novo d) i b e c := fun h => htem _ _ _ h.tem
  refine ⟨rfl, by rw [hino, type_novo], fun i _ hu => Or.inr (by rw [huso i hu, hino, type_novo]),
    ⟨fun h _ => absurd h (htem _ _ _), fun h _ => h.elim, fun s => ?_⟩,
    fun h => absurd h hent, fun h _ => absurd h hent⟩
  simp only [marcado, Volume.novo, nada, false_or]
  constructor
  · rintro ⟨_, h⟩
    exact absurd h (by decide)
  · rintro ⟨i, b, h⟩
    exact absurd h (htem i b s)

theorem bit_bm_set {n : Nat} (hn : n < BMAP_BITS) :
    bm_test (bm_set ByteStr.zero 0) n = decide (n = 0) := by
  rw [bm_test_set hn]
  have : bm_test ByteStr.zero n = false := by
    unfold bm_test
    simp [Lib.Bitmap.bit]
  rw [this]
  simp [eq_comm]

theorem super_novo_campos : super_total_blocks super_novo = 65536 - SFS_DATA_START ∧
    super_root_inode super_novo = 0 ∧ super_free_inodes super_novo = SFS_INODE_MAX - 1 ∧
    super_free_blocks super_novo = 65536 - SFS_DATA_START := by
  unfold SFS_DATA_START
  decide

theorem rep_novo {e : Disco} (hf : Formatado e) (h : ∀ s < 35, d s = e s) :
    Rep ⟨e SFS_SUPER_SEC, e SFS_IMAP_SEC, e SFS_BMAP_SEC, true⟩ d (Volume.novo d) where
  ok := rfl
  total := by rw [hf.super, super_novo_campos.1]
  root := by rw [hf.super, super_novo_campos.2.1]
  disk_sb := h _ (by decide)
  disk_imap := h _ (by decide)
  disk_bmap := h _ (by decide)
  imap := fun i hi => by
    rw [hf.imap]
    exact bit_bm_set (by simp only [SFS_INODE_MAX, BMAP_BITS_eq] at *; omega)
  bmap := fun n _ => by
    rw [hf.bmap]
    unfold bm_test
    simp [Lib.Bitmap.bit, Volume.novo]
  ino := fun _ _ => rfl
  dado := fun _ _ => rfl
  free_inodes := by rw [hf.super, super_novo_campos.2.2.1]; rfl
  free_blocks := by rw [hf.super, super_novo_campos.2.2.2]; rfl

/-! The accesses that a run of `spfs_format` or `spfs_mount` begins with. -/

section Exec

variable {σ β : Type} {m : σ} {lba : Nat}

theorem exec_presente1 (f : Bool → StateT σ (Prog Setor) β) :
    ((liftM ata_presente1 >>= f).run m).exec d = ((f true).run m).exec d := rfl

theorem exec_ler1 (f : Option Setor → StateT σ (Prog Setor) β) :
    ((liftM (ata_ler1 lba) >>= f).run m).exec d = ((f (some (d (setor lba)))).run m).exec d := rfl

theorem exec_gravar1 (buf : Setor) (f : Bool → StateT σ (Prog Setor) β) :
    ((liftM (ata_gravar1 lba buf) >>= f).run m).exec d =
      ((f true).run m).exec (update d (setor lba) buf) := rfl

theorem exec_modify (g : σ → σ) (f : PUnit → StateT σ (Prog Setor) β) :
    ((modify g >>= f).run m).exec d = ((f ⟨⟩).run (g m)).exec d := rfl

theorem exec_zera_setores (l : List Nat) (hl : ∀ s ∈ l, s < 2 ^ 28)
    (f : Unit → StateT σ (Prog Setor) β) :
    ((liftM (zera_setores l) >>= f).run m).exec d =
      ((f ()).run m).exec fun s => if s ∈ l then ByteStr.zero else d s := by
  induction l generalizing d with
  | nil => simp only [List.not_mem_nil, if_false]; rfl
  | cons s l ih =>
    have h := ih (d := update d (setor s) ByteStr.zero) fun t ht => hl t (List.mem_cons_of_mem _ ht)
    refine Eq.trans ?_ (h.trans ?_)
    · rfl
    · congr 1
      funext t
      rw [setor_eq (hl s List.mem_cons_self)]
      by_cases ht : t = s
      · subst ht
        simp
      · simp [ht]

end Exec

theorem exec_no_journal {α β : Type} (x : Journal.M α) (f : α → StateT Mem (Prog Setor) β) :
    ((no_journal x >>= f).run m).exec d = ((x.run m.journal).exec d).bind fun r =>
      ((f r.1.1).run { m with journal := r.1.2 }).exec r.2 := by
  have h : ((no_journal x >>= f).run m) = x.run m.journal >>= fun r =>
      (f r.1).run { m with journal := r.2 } := by
    change (x.run m.journal >>= fun r => Prog.ret (r.1, ({ m with journal := r.2 } : Mem))) >>=
      (fun r => (f r.1).run r.2) = _
    rw [bind_assoc]
    rfl
  rw [h, Prog.exec_bind]

/-- `journal_init` keeps a valid log and starts an empty one otherwise. -/
theorem exec_journal_init (t : Journal.Mem) (d : Disco) :
    ∃ t' d', (Journal.journal_init.run t).exec d = some (((), t'), d') ∧ t'.j_ok = true ∧
      Mesmo d' d ∧ meta_magic (d' J_META_SECTOR) = J_MAGIC ∧
      (meta_magic (d J_META_SECTOR) ≠ J_MAGIC → d' J_META_SECTOR = meta_vazia) ∧
      (meta_magic (d J_META_SECTOR) = J_MAGIC → d' = d) := by
  by_cases h : meta_magic (d J_META_SECTOR) = J_MAGIC
  · exact ⟨_, _, (Journal.does_journal_init (C := fun _ => True) h trivial).exec_eq, rfl,
      fun _ _ => rfl, h, fun hne => absurd h hne, fun _ => rfl⟩
  · refine ⟨_, _, (Journal.does_journal_init_novo (C := fun _ => True) h trivial trivial).exec_eq,
      rfl, Journal.Mesmo.update_dentro (fun _ _ => rfl) Journal.not_fora_meta _, ?_, fun _ => ?_,
      fun hm => absurd hm h⟩
    · rw [update_self]
      exact Journal.meta_vazia_magic
    · rw [update_self]

/-- `spfs_format` returns 0 and leaves a formatted disk; a log that was valid stays. -/
theorem spfs_format_formata (pilha : Setor) (m : Mem) (d : Disco) :
    ∃ m' d', ((spfs_format pilha).run m).exec d = some ((true, m'), d') ∧ Formatado d' ∧
      (meta_magic (d J_META_SECTOR) ≠ J_MAGIC → d' J_META_SECTOR = meta_vazia) ∧
      (meta_magic (d J_META_SECTOR) = J_MAGIC → ∀ s, 35 ≤ s → d' s = d s) := by
  have hs : setor SFS_SUPER_SEC = 0 ∧ setor SFS_IMAP_SEC = 1 ∧ setor SFS_BMAP_SEC = 2 ∧
    setor SFS_INODE_SEC = 3 := by decide
  have hl : ∀ s ∈ List.range' SFS_INODE_SEC 32, 3 ≤ s ∧ s < 35 := fun s h => by
    have := List.mem_range'_1.mp h
    unfold SFS_INODE_SEC at this
    omega
  have hz : ∀ s, s < 3 ∨ 35 ≤ s → s ∉ List.range' SFS_INODE_SEC 32 := fun s h hm => by
    have := hl s hm
    omega
  unfold spfs_format
  rw [exec_presente1, if_neg (by decide)]
  dsimp only
  rw [exec_modify, exec_gravar1, exec_modify, exec_gravar1, exec_modify, exec_gravar1,
    exec_zera_setores _ fun s h => by have := hl s h; omega, exec_gravar1, exec_no_journal,
    hs.1, hs.2.1, hs.2.2.1, hs.2.2.2]
  generalize hd : update (fun s => if s ∈ List.range' SFS_INODE_SEC 32 then ByteStr.zero else
    update (update (update d 0 super_novo) 1 (bm_set ByteStr.zero 0)) 2 ByteStr.zero s) 3
    (pilha.splice 0 (inode_novo 2 0)) = d1
  have h0 : d1 0 = super_novo := by
    rw [← hd, update_of_ne (by decide), if_neg (hz 0 (by decide))]
    simp
  have h1 : d1 1 = bm_set ByteStr.zero 0 := by
    rw [← hd, update_of_ne (by decide), if_neg (hz 1 (by decide))]
    simp
  have h2 : d1 2 = ByteStr.zero := by
    rw [← hd, update_of_ne (by decide), if_neg (hz 2 (by decide)), update_self]
  have h3 : d1 3 = pilha.splice 0 (inode_novo 2 0) := by
    rw [← hd, update_self]
  have hj : ∀ s, 35 ≤ s → d1 s = d s := fun s h => by
    rw [← hd, update_of_ne (by omega), if_neg (hz s (.inr h)), update_of_ne (by omega),
      update_of_ne (by omega), update_of_ne (by omega)]
  have hmeta := hj J_META_SECTOR (by decide)
  obtain ⟨t', d', he, _, hm, hmagic, hnovo, hvelho⟩ := exec_journal_init m.journal d1
  have hf : ∀ s < 35, d' s = d1 s := fun s h => hm s (Or.inl h)
  have hraiz : ino d' 0 = inode_novo 2 0 := by
    have : inode_sector 0 = 3 := by decide
    rw [ino, this, hf 3 (by decide), h3]
    exact ByteStr.slice_splice_self _ _ (by decide)
  refine ⟨_, d', by rw [he]; rfl, ⟨(hf _ (by decide)).trans h0, (hf _ (by decide)).trans h1,
    (hf _ (by decide)).trans h2, hraiz, hmagic⟩, fun h => hnovo (by rw [hmeta]; exact h),
    fun h s hs => ?_⟩
  rw [hvelho (by rw [hmeta]; exact h)]
  exact hj s hs

/-- Where the loop of `journal_recover` returns, it has done the pending writes. -/
theorem exec_recover_laco {tail voltas idx : Nat}
    (h : (recover_laco tail voltas idx).exec d = some ((), d')) :
    d' = aplica d (pendentes tail voltas idx d) := by
  induction voltas generalizing idx d with
  | zero => cases h
  | succ voltas ih =>
    rw [recover_laco] at h
    rw [pendentes]
    by_cases hi : idx = tail
    · rw [if_pos hi] at h ⊢
      cases h
      rfl
    · rw [if_neg hi] at h ⊢
      have hr := Prog.exec_bind (ata_ler1 (Journal.j_entry_sector idx)) _ d ▸ h
      change Prog.exec (if Journal.hdr_committed (d (setor (Journal.j_entry_sector idx))) = 0
        then _ else _) d = _ at hr
      rw [Journal.setor_entry] at hr
      by_cases hc : Journal.hdr_committed (d (Journal.j_entry_sector idx)) = 0
      · rw [if_pos hc] at hr ⊢
        have := ih (d := update d (setor (Journal.hdr_block_num (d (Journal.j_entry_sector idx))))
          (d (setor (Journal.j_entry_sector idx + 1)))) hr
        rw [Journal.setor_entry_data] at this
        exact this
      · rw [if_neg hc] at hr ⊢
        exact ih hr

theorem exec_journal_recover {t : Journal.Mem} (ht : t.j_ok = true) :
    (Journal.journal_recover.run t).exec d =
      ((recover_laco (meta_tail t.jmeta) VOLTAS (meta_head t.jmeta)).exec d).bind fun r =>
        some (((), ⟨meta_por_head t.jmeta (meta_tail t.jmeta), t.j_ok⟩),
          update r.2 J_META_SECTOR (meta_por_head t.jmeta (meta_tail t.jmeta))) := by
  cases h : (recover_laco (meta_tail t.jmeta) VOLTAS (meta_head t.jmeta)).exec d with
  | some r =>
    exact (Journal.does_journal_recover (C := fun _ => True) ht ⟨h, fun _ _ => trivial⟩
      trivial).exec_eq
  | none =>
    change Prog.exec ((if t.j_ok then _ else _ : Journal.M Unit) t) d = none
    rw [if_pos ht]
    change Prog.exec (((recover_laco (meta_tail t.jmeta) VOLTAS (meta_head t.jmeta)) >>= _) >>= _)
      d = none
    rw [Prog.exec_bind, Prog.exec_bind, h]
    rfl

/-- No write pending in the log of the disk goes to the superblock, a bitmap or the inodes. -/
def SemResto (d : Disco) : Prop :=
  ∀ w ∈ pendentes (meta_tail (d J_META_SECTOR)) VOLTAS (meta_head (d J_META_SECTOR)) d, 35 ≤ w.1

theorem aplica_of_ne {ws : List (Nat × Setor)} {s : Nat} (h : ∀ w ∈ ws, w.1 ≠ s) :
    aplica d ws s = d s := by
  rw [Journal.aplica_apply, Journal.ultima, List.find?_eq_none.mpr fun w hw => ?_]
  · rfl
  · simpa using h w (List.mem_reverse.mp hw)

/-- A mount of a disk with a superblock and a log returns where the replay of the log does. -/
theorem exec_spfs_mount (hs : super_magic (d SFS_SUPER_SEC) = SFS_MAGIC)
    (hm : meta_magic (d J_META_SECTOR) = J_MAGIC) :
    (spfs_mount.run m).exec d =
      ((recover_laco (meta_tail (d J_META_SECTOR)) VOLTAS (meta_head (d J_META_SECTOR))).exec d).map
        fun r => ((true, ⟨⟨d SFS_SUPER_SEC, d SFS_IMAP_SEC, d SFS_BMAP_SEC, true⟩,
          ⟨meta_por_head (d J_META_SECTOR) (meta_tail (d J_META_SECTOR)), true⟩⟩),
          update r.2 J_META_SECTOR
            (meta_por_head (d J_META_SECTOR) (meta_tail (d J_META_SECTOR)))) := by
  have hset : setor SFS_SUPER_SEC = SFS_SUPER_SEC ∧ setor SFS_IMAP_SEC = SFS_IMAP_SEC ∧
    setor SFS_BMAP_SEC = SFS_BMAP_SEC := by decide
  unfold spfs_mount
  rw [exec_presente1, if_neg (by decide), exec_ler1]
  dsimp only
  rw [exec_modify, hset.1, if_neg (not_not.mpr hs), exec_ler1]
  dsimp only
  rw [exec_modify, exec_ler1]
  dsimp only
  rw [exec_modify, exec_no_journal,
    (Journal.does_journal_init (C := fun _ => True) hm trivial).exec_eq, Option.bind_some,
    exec_no_journal, exec_journal_recover rfl, hset.2.1, hset.2.2]
  cases (recover_laco (meta_tail (d J_META_SECTOR)) VOLTAS (meta_head (d J_META_SECTOR))).exec d <;>
    rfl

/-- Where the mount of a formatted disk returns, it returns 0 and the file system is the empty
one. -/
theorem spfs_mount_monta (hf : Formatado d) (hs : SemResto d)
    (h : (spfs_mount.run m).exec d = some ((r, m'), d')) :
    r = true ∧ Vivo m' d' (Volume.novo d') ∧ Coeso (Volume.novo d') ∧ ino d' 0 = inode_novo 2 0 := by
  rw [exec_spfs_mount (by rw [hf.super]; decide) hf.magic] at h
  obtain ⟨⟨⟨⟩, d1⟩, hr, hx⟩ := Option.map_eq_some_iff.mp h
  cases hx
  have hd1 := exec_recover_laco hr
  have heq : ∀ s < 35, update d1 J_META_SECTOR
      (meta_por_head (d J_META_SECTOR) (meta_tail (d J_META_SECTOR))) s = d s := fun s hlt => by
    have hne : s ≠ J_META_SECTOR := by
      unfold J_META_SECTOR
      omega
    rw [update_of_ne hne, hd1, aplica_of_ne fun w hw => ?_]
    have := hs w hw
    omega
  have hraiz := (ino_congr (heq _ (by decide))).trans hf.raiz
  exact ⟨rfl, ⟨rfl, rep_novo hf heq⟩, coeso_novo_volume hraiz, hraiz⟩

end Monta

end SpaceOS.SpaceFs
