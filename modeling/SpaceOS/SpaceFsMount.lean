-- Mounting SpaceFS: the superblock and the bitmaps are read before the log is replayed, and
-- they agree with the disk exactly when no pending entry changes them.
import SpaceOS.JournalLaws
import SpaceOS.SpaceFs
import Mathlib.Data.List.Induction

open Lib.Bytes Lib.BlockProg SpaceOS.Ata
open Function (update update_self update_of_ne)

namespace SpaceOS.Journal

/-! ## What a replay writes -/

/-- The writes that are pending from entry `idx` to `tail`, in the order of the replay and as
the replay comes to see them: an entry that a pending write overwrites is read as overwritten. -/
def pendentes (tail : Nat) : Nat → Nat → Disco → List (Nat × Setor)
  | 0, _, _ => []
  | voltas + 1, idx, d =>
    if idx = tail then []
    else if hdr_committed (d (j_entry_sector idx)) = 0 then
      let w := (setor (hdr_block_num (d (j_entry_sector idx))), d (j_entry_sector idx + 1))
      w :: pendentes tail voltas (proximo idx) (update d w.1 w.2)
    else pendentes tail voltas (proximo idx) d

/-- The disk after the writes of a list. -/
def aplica (d : Disco) (ws : List (Nat × Setor)) : Disco :=
  ws.foldl (fun d w => update d w.1 w.2) d

/-- The data of the last write to sector `s`. -/
def ultima (ws : List (Nat × Setor)) (s : Nat) : Option Setor :=
  (ws.reverse.find? fun w => w.1 = s).map Prod.snd

theorem aplica_apply (d : Disco) (ws : List (Nat × Setor)) (s : Nat) :
    aplica d ws s = (ultima ws s).getD (d s) := by
  induction ws using List.reverseRecOn with
  | nil => rfl
  | append_singleton ws w ih =>
    have e : aplica d (ws ++ [w]) = update (aplica d ws) w.1 w.2 := by simp [aplica]
    rw [e]
    by_cases hs : w.1 = s
    · subst hs
      simp [ultima]
    · rw [update_of_ne (Ne.symm hs), ih]
      simp [ultima, hs]

/-- The steps from entry `idx` forward to `tail`. -/
def distancia (idx tail : Nat) : Nat := (tail + J_MAX_ENTRIES - idx) % J_MAX_ENTRIES

theorem distancia_proximo {idx tail : Nat} (hi : idx < J_MAX_ENTRIES) (ht : tail < J_MAX_ENTRIES)
    (hne : idx ≠ tail) : distancia (proximo idx) tail + 1 = distancia idx tail := by
  simp only [distancia, proximo, J_MAX_ENTRIES] at *
  omega

theorem distancia_lt (idx tail : Nat) : distancia idx tail < J_MAX_ENTRIES :=
  Nat.mod_lt _ (by decide)

/-- The turns that a walk from `head` to `tail` still takes at most. -/
def faltam (head tail : Nat) : Nat := if head < J_MAX_ENTRIES then distancia head tail else J_MAX_ENTRIES

theorem faltam_proximo {head tail : Nat} (ht : tail < J_MAX_ENTRIES) (hne : head ≠ tail) :
    faltam (proximo head) tail < faltam head tail := by
  have hp := proximo_lt head
  unfold faltam
  rw [if_pos hp]
  split
  · rename_i hh
    have := distancia_proximo hh ht hne
    omega
  · exact distancia_lt _ _

theorem faltam_le (head tail : Nat) : faltam head tail ≤ J_MAX_ENTRIES := by
  unfold faltam
  split
  · exact (distancia_lt _ _).le
  · exact le_rfl

theorem pendentes_fim (tail voltas : Nat) (d : Disco) : pendentes tail voltas tail d = [] := by
  cases voltas with
  | zero => rfl
  | succ voltas => rw [pendentes, if_pos rfl]

/-- The loop of `journal_recover` does the pending writes, whatever they hit. -/
theorem runs_recover_laco {tail : Nat} (ht : tail < J_MAX_ENTRIES) {voltas voltas' idx : Nat}
    {d : Disco} (hv : faltam idx tail < voltas) (hv' : faltam idx tail ≤ voltas') :
    (recover_laco tail voltas idx).Runs d () (aplica d (pendentes tail voltas' idx d))
      (fun _ => True) := by
  induction voltas generalizing voltas' idx d with
  | zero => exact absurd hv (Nat.not_lt_zero _)
  | succ voltas ih =>
    by_cases hne : idx = tail
    · rw [hne, pendentes_fim]
      exact runs_recover_fim trivial
    have hd := faltam_proximo ht hne
    cases voltas' with
    | zero => omega
    | succ voltas' =>
      rw [recover_laco, if_neg hne, pendentes, if_neg hne]
      refine runs_ler1 ?_
      rw [setor_entry]
      dsimp only
      by_cases hc : hdr_committed (d (j_entry_sector idx)) = 0
      · rw [if_pos hc, if_pos hc]
        refine runs_ler1 (runs_gravar1 trivial ?_)
        rw [setor_entry_data]
        exact ih (by omega) (by omega)
      · rw [if_neg hc, if_neg hc]
        exact ih (by omega) (by omega)

end SpaceOS.Journal

namespace SpaceOS.SpaceFs

open SpaceOS.Journal (J_META_SECTOR J_MAGIC J_MAX_ENTRIES meta_magic meta_head meta_tail pendentes
  aplica ultima)

/-! ## The mount -/

/-- A disk with a valid superblock and a valid log. -/
structure Valido (d : Disco) : Prop where
  super : super_magic (d SFS_SUPER_SEC) = SFS_MAGIC
  magic : meta_magic (d J_META_SECTOR) = J_MAGIC
  head : meta_head (d J_META_SECTOR) < J_MAX_ENTRIES
  tail : meta_tail (d J_META_SECTOR) < J_MAX_ENTRIES

/-- A disk with a superblock, and with a log whose replay ends. -/
structure Montavel (d : Disco) : Prop where
  super : super_magic (d SFS_SUPER_SEC) = SFS_MAGIC
  magic : meta_magic (d J_META_SECTOR) = J_MAGIC
  fim : meta_head (d J_META_SECTOR) = meta_tail (d J_META_SECTOR) ∨
    meta_tail (d J_META_SECTOR) < J_MAX_ENTRIES

theorem Valido.montavel {d : Disco} (h : Valido d) : Montavel d := ⟨h.super, h.magic, .inr h.tail⟩

/-- The superblock and the bitmaps in memory are those of the disk. -/
def Coerente (m : Mem) (d : Disco) : Prop :=
  m.fs.sb = d SFS_SUPER_SEC ∧ m.fs.imap = d SFS_IMAP_SEC ∧ m.fs.bmap = d SFS_BMAP_SEC

/-- The writes that are pending in the log of `d`. -/
def pendentes_do_log (d : Disco) : List (Nat × Setor) :=
  pendentes (meta_tail (d J_META_SECTOR)) J_MAX_ENTRIES (meta_head (d J_META_SECTOR)) d

/-- The disk that the mount leaves. -/
def montado (d : Disco) : Disco :=
  update (aplica d (pendentes_do_log d)) J_META_SECTOR
    (Journal.meta_por_head (d J_META_SECTOR) (meta_tail (d J_META_SECTOR)))

theorem does_no_journal {α β : Type} {C : Disco → Prop} {x : Journal.M α}
    {f : α → StateT Mem (Prog Setor) β} {m m' : Mem} {d d' d'' : Disco} {a : α} {b : β}
    {j : Journal.Mem} (h : Does x m.journal d a j d' C)
    (hf : Does (f a) { m with journal := j } d' b m' d'' C) :
    Does (no_journal x >>= f) m d b m' d'' C := Does.bind (Prog.Runs.bind h (.ret h.finish)) hf

theorem does_spfs_mount {m : Mem} {d : Disco} (hd : Montavel d) :
    Does spfs_mount m d true
      ⟨⟨d SFS_SUPER_SEC, d SFS_IMAP_SEC, d SFS_BMAP_SEC, true⟩, ⟨montado d J_META_SECTOR, true⟩⟩
      (montado d) (fun _ => True) := by
  refine does_presente1 ?_
  rw [if_neg (by decide)]
  refine does_ler1 (.modify_bind ?_)
  have hs : setor SFS_SUPER_SEC = SFS_SUPER_SEC ∧ setor SFS_IMAP_SEC = SFS_IMAP_SEC ∧
    setor SFS_BMAP_SEC = SFS_BMAP_SEC := by decide
  rw [hs.1, if_neg (not_not.mpr hd.super)]
  refine does_ler1 (.modify_bind (does_ler1 (.modify_bind ?_)))
  rw [hs.2.1, hs.2.2]
  refine does_no_journal (Journal.does_journal_init hd.magic trivial) ?_
  have hl : (Journal.recover_laco (meta_tail (d J_META_SECTOR)) Journal.VOLTAS
      (meta_head (d J_META_SECTOR))).Runs d () (aplica d (pendentes_do_log d)) (fun _ => True) := by
    rcases hd.fim with h | h
    · rw [pendentes_do_log, h, Journal.pendentes_fim]
      exact Journal.runs_recover_fim trivial
    · have hf := Journal.faltam_le (meta_head (d J_META_SECTOR)) (meta_tail (d J_META_SECTOR))
      exact Journal.runs_recover_laco h (Nat.lt_of_le_of_lt hf (by decide)) hf
  refine does_no_journal (Journal.does_journal_recover rfl hl trivial) ?_
  rw [montado, update_self]
  exact .modify_bind (.pure trivial)

theorem montado_apply (d : Disco) {s : Nat} (hs : s < J_META_SECTOR) :
    montado d s = (ultima (pendentes_do_log d) s).getD (d s) := by
  rw [montado, update_of_ne hs.ne, Journal.aplica_apply]

/-- The mount of a valid disk returns 0, and leaves memory and disk in agreement exactly when
for each of the sectors 0, 1 and 2 the last pending write to it, if there is one, carries what
the sector holds. -/
theorem mount_is_coherent_iff (m : Mem) {d : Disco} (hd : Valido d) :
    ∃ m' d', (spfs_mount.run m).exec d = some ((true, m'), d') ∧
      (Coerente m' d' ↔ ∀ s < 3, ∀ data, ultima (pendentes_do_log d) s = some data → data = d s) := by
  refine ⟨_, _, (does_spfs_mount hd.montavel).exec_eq, ?_⟩
  have hs : ∀ s < 3, (d s = montado d s ↔
      ∀ data, ultima (pendentes_do_log d) s = some data → data = d s) := fun s h => by
    rw [montado_apply d (Nat.lt_trans h (by decide))]
    cases ultima (pendentes_do_log d) s with
    | none => simp
    | some data => simp [eq_comm]
  constructor
  · rintro ⟨h0, h1, h2⟩ s h3
    refine (hs s h3).mp ?_
    match s, h3 with
    | 0, _ => exact h0
    | 1, _ => exact h1
    | 2, _ => exact h2
  · intro h
    exact ⟨(hs 0 (by decide)).mpr (h 0 (by decide)), (hs 1 (by decide)).mpr (h 1 (by decide)),
      (hs 2 (by decide)).mpr (h 2 (by decide))⟩

/-! ## A crash in the middle of a write to the block bitmap -/

/-- A disk as a crash in the middle of a write to the block bitmap leaves it: the entry with the
new bitmap is in the log, the bitmap's own sector still holds the old one. -/
def bitmap_pendente : Disco := fun s =>
  if s = SFS_SUPER_SEC then super_novo
  else if s = J_META_SECTOR then
    Journal.meta_por_next_txid (Journal.meta_por_tail (Journal.meta_por_magic ByteStr.zero J_MAGIC)
      1) 1
  else if s = 36 then Journal.hdr_novo 0 SFS_BMAP_SEC 0 (Journal.djb2 (bm_set ByteStr.zero 0))
  else if s = 37 then bm_set ByteStr.zero 0
  else ByteStr.zero

theorem valido_bitmap_pendente : Valido bitmap_pendente where
  super := by decide
  magic := by decide
  head := by decide
  tail := by decide

theorem ultima_bitmap_pendente :
    ultima (pendentes_do_log bitmap_pendente) SFS_BMAP_SEC = some (bm_set ByteStr.zero 0) := by
  have hhead : meta_head (bitmap_pendente J_META_SECTOR) = 0 := by decide
  have htail : meta_tail (bitmap_pendente J_META_SECTOR) = 1 := by decide
  have hhdr : bitmap_pendente (Journal.j_entry_sector 0) =
    Journal.hdr_novo 0 SFS_BMAP_SEC 0 (Journal.djb2 (bm_set ByteStr.zero 0)) := rfl
  have hdata : bitmap_pendente (Journal.j_entry_sector 0 + 1) = bm_set ByteStr.zero 0 := rfl
  have hfim : ∀ d, pendentes 1 30 1 d = [] := fun d => by rw [pendentes, if_pos rfl]
  have hprox : Journal.proximo 0 = 1 := by decide
  rw [pendentes_do_log, hhead, htail, J_MAX_ENTRIES, pendentes, if_neg (by decide), hhdr,
    Journal.hdr_novo_committed, if_pos (Nat.zero_mod _), Journal.hdr_novo_block_num, hdata, hprox]
  dsimp only
  rw [hfim]
  rfl

def fs_boot : Mem := ⟨⟨ByteStr.zero, ByteStr.zero, ByteStr.zero, false⟩, Journal.Mem.boot⟩

theorem bm_set_ne_zero : bm_set ByteStr.zero 0 ≠ ByteStr.zero := fun h =>
  absurd (congrFun h ⟨0, by decide⟩) (by decide)

/-- After such a crash the mount succeeds and keeps the old bitmap in memory. -/
theorem a_mount_keeps_a_stale_bitmap :
    ¬ ∀ m d, Valido d → ∀ m' d', (spfs_mount.run m).exec d = some ((true, m'), d') →
      Coerente m' d' := by
  intro h
  have hc := h fs_boot bitmap_pendente valido_bitmap_pendente _ _
    (does_spfs_mount valido_bitmap_pendente.montavel).exec_eq
  have h2 : bitmap_pendente SFS_BMAP_SEC = montado bitmap_pendente SFS_BMAP_SEC := hc.2.2
  rw [montado_apply _ (by decide), ultima_bitmap_pendente] at h2
  exact bm_set_ne_zero h2.symm

/-- The law at the same disk. -/
theorem mount_is_not_coherent_after_the_crash :
    ∃ m' d', (spfs_mount.run fs_boot).exec bitmap_pendente = some ((true, m'), d') ∧
      ¬ Coerente m' d' := by
  obtain ⟨m', d', he, hc⟩ := mount_is_coherent_iff fs_boot valido_bitmap_pendente
  refine ⟨m', d', he, fun h => ?_⟩
  exact bm_set_ne_zero (hc.mp h SFS_BMAP_SEC (by decide) _ ultima_bitmap_pendente)

end SpaceOS.SpaceFs
