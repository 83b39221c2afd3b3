-- A format over an older SpaceFS: the log that the disk had is kept, and the next mount replays
-- it over what the format wrote.
import SpaceOS.SpaceFsRun

open Lib.Bytes Lib.BlockProg SpaceOS.Ata
open Function (update update_of_ne)

namespace SpaceOS.Journal

/-- A replay towards an entry that the ring does not have never ends. -/
theorem exec_recover_laco_sem_fim {tail voltas idx : Nat} (ht : J_MAX_ENTRIES ≤ tail)
    (hne : idx ≠ tail) (d : Disco) : (recover_laco tail voltas idx).exec d = none := by
  induction voltas generalizing idx d with
  | zero => rfl
  | succ voltas ih =>
    have hp : proximo idx ≠ tail := by
      have := proximo_lt idx
      omega
    rw [recover_laco, if_neg hne]
    change Prog.exec (if hdr_committed (d (setor (j_entry_sector idx))) = 0 then _ else _) d = none
    split
    · exact ih hp _
    · exact ih hp d

/-- The pending writes are read from the log alone. -/
theorem pendentes_congr {tail voltas idx : Nat} {d e : Disco} (h : ∀ s, 35 ≤ s → d s = e s) :
    pendentes tail voltas idx d = pendentes tail voltas idx e := by
  induction voltas generalizing idx d e with
  | zero => rfl
  | succ voltas ih =>
    have hb := entry_sector_bounds idx
    rw [pendentes, pendentes, h (j_entry_sector idx) (by omega),
      h (j_entry_sector idx + 1) (by omega)]
    dsimp only
    rw [ih h]
    split
    · rfl
    · split
      · rw [ih (fun s hs => ?_)]
        by_cases he : s = setor (hdr_block_num (e (j_entry_sector idx)))
        · rw [he, Function.update_self, Function.update_self]
        · rw [update_of_ne he, update_of_ne he, h s hs]
      · rfl

end SpaceOS.Journal

namespace SpaceOS.SpaceFs

open SpaceOS.Journal (J_META_SECTOR J_MAGIC J_MAX_ENTRIES meta_magic meta_head meta_tail meta_vazia
  recover_laco VOLTAS ultima)

/-! ## What a format should leave -/

/-- The root is a directory, and no name is found in it. -/
def RaizVazia (d : Disco) : Prop :=
  inode_type (ino d 0) = 2 ∧ ∀ tok,
    (busca_dir (ino d 0) tok (List.range 10) (inode_size (ino d 0) / 32)).exec d = some (none, d)

/-- The disk `d'` holds what the format put on the disk `d1`, and its root directory is empty. -/
structure FicouVazio (d1 d' : Disco) : Prop where
  super : d' SFS_SUPER_SEC = d1 SFS_SUPER_SEC
  imap : d' SFS_IMAP_SEC = d1 SFS_IMAP_SEC
  bmap : d' SFS_BMAP_SEC = d1 SFS_BMAP_SEC
  raiz : ino d' 0 = ino d1 0
  vazia : RaizVazia d'

/-- A format of the disk `d` and then a mount both return 0, and the file system is empty. `m` is
the memory at the format and `n` the one at the mount, which a boot may separate. -/
def FormataVazio (pilha : Setor) (m n : Mem) (d : Disco) : Prop :=
  ∃ m1 d1 n' d', ((spfs_format pilha).run m).exec d = some ((true, m1), d1) ∧ Formatado d1 ∧
    (spfs_mount.run n).exec d1 = some ((true, n'), d') ∧ FicouVazio d1 d'

/-- The log of the disk, where it has one, ends, and its last pending writes to the sectors of the
superblock, the bitmaps and the root inode carry what a format writes there. -/
def LogInofensivo (d : Disco) : Prop :=
  meta_magic (d J_META_SECTOR) = J_MAGIC →
    (meta_head (d J_META_SECTOR) = meta_tail (d J_META_SECTOR) ∨
      meta_tail (d J_META_SECTOR) < J_MAX_ENTRIES) ∧
    (∀ data ∈ ultima (pendentes_do_log d) SFS_SUPER_SEC, data = super_novo) ∧
    (∀ data ∈ ultima (pendentes_do_log d) SFS_IMAP_SEC, data = bm_set ByteStr.zero 0) ∧
    (∀ data ∈ ultima (pendentes_do_log d) SFS_BMAP_SEC, data = ByteStr.zero) ∧
    ∀ data ∈ ultima (pendentes_do_log d) (inode_sector 0),
      data.slice (inode_off 0) 64 = inode_novo 2 0

/-! ## The mount after the format -/

section Monta

variable {d d1 : Disco}

theorem busca_dir_vazio (dir : Inode) (tok : List UInt8) (l : List Nat) :
    busca_dir dir tok l 0 = pure none := by
  cases l with
  | nil => rfl
  | cons b l => rw [busca_dir, if_pos rfl]

theorem raiz_vazia (h : ino d 0 = inode_novo 2 0) : RaizVazia d := by
  refine ⟨by rw [h, type_novo], fun tok => ?_⟩
  have : inode_size (inode_novo 2 0) / 32 = 0 := by decide
  rw [h, this, busca_dir_vazio]
  rfl

/-- The log that a mount finds after a format: the one that the disk had, or none. -/
theorem montavel_formatado (hf : Formatado d1)
    (hn : meta_magic (d J_META_SECTOR) ≠ J_MAGIC → d1 J_META_SECTOR = meta_vazia)
    (hv : meta_magic (d J_META_SECTOR) = J_MAGIC → ∀ s, 35 ≤ s → d1 s = d s) :
    (Montavel d1 ↔ (meta_magic (d J_META_SECTOR) = J_MAGIC →
      meta_head (d J_META_SECTOR) = meta_tail (d J_META_SECTOR) ∨
        meta_tail (d J_META_SECTOR) < J_MAX_ENTRIES)) ∧
    pendentes_do_log d1 =
      if meta_magic (d J_META_SECTOR) = J_MAGIC then pendentes_do_log d else [] := by
  have hsuper : super_magic (d1 SFS_SUPER_SEC) = SFS_MAGIC := by
    rw [hf.super]
    decide
  by_cases hm : meta_magic (d J_META_SECTOR) = J_MAGIC
  · have hmeta : d1 J_META_SECTOR = d J_META_SECTOR := hv hm _ (by decide)
    refine ⟨⟨fun h _ => hmeta ▸ h.fim, fun h => ⟨hsuper, hf.magic, ?_⟩⟩, ?_⟩
    · rw [hmeta]
      exact h hm
    · rw [if_pos hm, pendentes_do_log, pendentes_do_log, hmeta, Journal.pendentes_congr (hv hm)]
  · have h0 : meta_head (d1 J_META_SECTOR) = 0 := by
      rw [hn hm]
      exact Journal.meta_vazia_zero (by decide) (by decide)
    have h1 : meta_tail (d1 J_META_SECTOR) = 0 := by
      rw [hn hm]
      exact Journal.meta_vazia_zero (by decide) (by decide)
    refine ⟨⟨fun _ h => absurd h hm, fun _ => ⟨hsuper, hf.magic, .inl (h0.trans h1.symm)⟩⟩, ?_⟩
    rw [if_neg hm, pendentes_do_log, h0, h1, Journal.pendentes_fim]

/-- What the replay leaves in a sector is what was there, unless the last write to it says
otherwise. -/
theorem montado_igual_iff {β : Type} (f : Setor → β) {s : Nat} (hs : s < J_META_SECTOR) :
    f (montado d s) = f (d s) ↔ ∀ data ∈ ultima (pendentes_do_log d) s, f data = f (d s) := by
  rw [montado_apply d hs]
  cases ultima (pendentes_do_log d) s with
  | none => simp
  | some data => simp

/-- The root directory of a mounted disk is empty where the replay spares the root inode. -/
theorem ficou_vazio_iff (hf : Formatado d) : FicouVazio d (montado d) ↔
    (∀ data ∈ ultima (pendentes_do_log d) SFS_SUPER_SEC, data = super_novo) ∧
    (∀ data ∈ ultima (pendentes_do_log d) SFS_IMAP_SEC, data = bm_set ByteStr.zero 0) ∧
    (∀ data ∈ ultima (pendentes_do_log d) SFS_BMAP_SEC, data = ByteStr.zero) ∧
    ∀ data ∈ ultima (pendentes_do_log d) (inode_sector 0),
      data.slice (inode_off 0) 64 = inode_novo 2 0 := by
  have h0 := montado_igual_iff (d := d) id (s := SFS_SUPER_SEC) (by decide)
  have h1 := montado_igual_iff (d := d) id (s := SFS_IMAP_SEC) (by decide)
  have h2 := montado_igual_iff (d := d) id (s := SFS_BMAP_SEC) (by decide)
  have h3 := montado_igual_iff (d := d) (fun b : Setor => b.slice (inode_off 0) 64)
    (s := inode_sector 0) (by decide)
  simp only [id, hf.super] at h0
  simp only [id, hf.imap] at h1
  simp only [id, hf.bmap] at h2
  change ino (montado d) 0 = ino d 0 ↔ ∀ data ∈ _, _ = ino d 0 at h3
  rw [hf.raiz] at h3
  rw [← h0, ← h1, ← h2, ← h3]
  constructor
  · intro h
    exact ⟨h.super.trans hf.super, h.imap.trans hf.imap, h.bmap.trans hf.bmap,
      h.raiz.trans hf.raiz⟩
  · rintro ⟨e0, e1, e2, e3⟩
    exact ⟨e0.trans hf.super.symm, e1.trans hf.imap.symm, e2.trans hf.bmap.symm,
      e3.trans hf.raiz.symm, raiz_vazia e3⟩

/-- A mount of a formatted disk that returns leaves the disk of the replay, and it returns where
the replay ends. -/
theorem exec_mount_formatado (hf : Formatado d) (n : Mem) :
    (Montavel d → ∃ n', (spfs_mount.run n).exec d = some ((true, n'), montado d)) ∧
      (¬ Montavel d → (spfs_mount.run n).exec d = none) := by
  have hsuper : super_magic (d SFS_SUPER_SEC) = SFS_MAGIC := by
    rw [hf.super]
    decide
  refine ⟨fun h => ⟨_, (does_spfs_mount h).exec_eq⟩, fun h => ?_⟩
  have hfim : meta_head (d J_META_SECTOR) ≠ meta_tail (d J_META_SECTOR) ∧
      J_MAX_ENTRIES ≤ meta_tail (d J_META_SECTOR) := by
    by_contra hx
    exact h ⟨hsuper, hf.magic, by omega⟩
  rw [exec_spfs_mount hsuper hf.magic, Journal.exec_recover_laco_sem_fim hfim.2 hfim.1]
  rfl

end Monta

/-! ## The law -/

/-- A format and a mount leave an empty file system exactly when the log that the disk had does
no harm: a valid log of an older file system is kept by the format, and what is pending in it is
written over the fresh superblock, bitmaps and root. -/
theorem a_format_empties_the_disk_iff (pilha : Setor) (m n : Mem) (d : Disco) :
    FormataVazio pilha m n d ↔ LogInofensivo d := by
  obtain ⟨m1, d1, he, hf, hn, hv⟩ := spfs_format_formata pilha m d
  obtain ⟨hm, hp⟩ := montavel_formatado hf hn hv
  obtain ⟨hx, hx'⟩ := exec_mount_formatado hf n
  have hiff : FormataVazio pilha m n d ↔ Montavel d1 ∧ FicouVazio d1 (montado d1) := by
    constructor
    · rintro ⟨m2, d2, n', d', he2, _, hmount, hfim⟩
      rw [he] at he2
      cases he2
      by_cases h : Montavel d1
      · obtain ⟨n2, hx⟩ := hx h
        rw [hx] at hmount
        cases hmount
        exact ⟨h, hfim⟩
      · rw [hx' h] at hmount
        cases hmount
    · rintro ⟨h, hfim⟩
      obtain ⟨n', hx⟩ := hx h
      exact ⟨m1, d1, n', montado d1, he, hf, hx, hfim⟩
  rw [hiff, ficou_vazio_iff hf, hm, hp, LogInofensivo]
  by_cases h : meta_magic (d J_META_SECTOR) = J_MAGIC
  · simp only [h, if_true, forall_const]
  · simp [h, ultima]

/-- On the disk of a crash in the middle of a write to the block bitmap, the format and the mount
give a block bitmap with a block in use. -/
theorem a_format_keeps_what_was_pending :
    ¬ ∀ pilha m n d, FormataVazio pilha m n d := by
  intro h
  obtain ⟨m1, d1, n', d', he, hf, hmount, hfim⟩ := h ByteStr.zero fs_boot fs_boot bitmap_pendente
  obtain ⟨m2, d2, he2, _, hn, hv⟩ := spfs_format_formata ByteStr.zero fs_boot bitmap_pendente
  rw [he] at he2
  cases he2
  obtain ⟨hm, hp⟩ := montavel_formatado hf hn hv
  obtain ⟨n2, hx⟩ := (exec_mount_formatado hf fs_boot).1
    (hm.mpr fun _ => .inr valido_bitmap_pendente.tail)
  rw [hx] at hmount
  cases hmount
  rw [if_pos valido_bitmap_pendente.magic] at hp
  have h2 := ((ficou_vazio_iff hf).mp hfim).2.2.1
  rw [hp] at h2
  exact bm_set_ne_zero (h2 _ ultima_bitmap_pendente)

end SpaceOS.SpaceFs
