-- SpaceFS over power cuts: between two calls the log is quiet, a cut in the middle of a call leaves
-- what a cut of the same call without the log can leave, and the next mount finishes it.
import SpaceOS.SpaceFsIsolation
import SpaceOS.Lib.BlockCrash

open Lib.Bytes Lib.BlockProg SpaceOS.Ata
open Function (update update_self update_of_ne)

namespace SpaceOS.SpaceFs

open SpaceOS.Journal (J_META_SECTOR J_MAGIC VOLTAS meta_magic meta_head meta_tail meta_por_head
  recover_laco Mesmo Fora Em Quieto Corte Anel)

/-! ## The log between two calls -/

/-- The disk `e` behind a quiet log shows the disk `d`. -/
structure Calmo (t : Journal.Mem) (e d : Disco) : Prop where
  em : Em t e
  quieto : Quieto e
  mesmo : Mesmo e d

/-- A cut has left the disk `e`. The write that may be in flight makes `d1` of `d0`. -/
def EmVoo (e d0 d1 : Disco) : Prop := ∃ s b, Fora s ∧ d1 = update d0 s b ∧ Corte d0 s b e

section Log

variable {t : Journal.Mem} {e e' d d' : Disco} {m m' : Mem} {v : Volume}

theorem mesmo_trans (h : Mesmo e' e) (h' : Mesmo e d) : Mesmo e' d :=
  fun s hs => (h s hs).trans (h' s hs)

theorem Calmo.em_voo (h : Calmo t e d) : EmVoo e d d :=
  ⟨0, d 0, Or.inl (by decide), (Function.update_eq_self 0 d).symm, Or.inl h.quieto, Or.inl h.mesmo⟩

theorem fora_setor {n : Nat} (hn : Zona n) : Fora (setor n) := by
  rw [setor_eq hn.1]
  exact hn.2

theorem journal_driver_survives : journal_driver.Survives Zona Calmo EmVoo where
  probe := fun h => ⟨_, _, rfl, h⟩
  read := by
    intro t e d n hn h
    refine ⟨t, e, ?_, h⟩
    rw [← h.mesmo n hn.2]
    change some ((some (e (setor n)), t), e) = _
    rw [setor_eq hn.1]
  write := by
    intro t e d n b hn h
    have hs := fora_setor hn
    refine ⟨_, _, (Journal.does_sfs_write_sec h.quieto h.em hs).exec_eq, Journal.em_update _ _,
      Journal.quieto_com_fim h.quieto hs, ?_⟩
    have hm := h.mesmo.update_ambos (setor n) b
    rw [setor_eq hn.1] at hm
    apply mesmo_trans Journal.mesmo_com_fim
    rwa [setor_eq hn.1]
  here := Calmo.em_voo
  cut_probe := by
    intro t e d e' h hc
    have hr : (journal_driver.probe.run t).Reads := fun _ => trivial
    rw [hr.cut hc]
    exact h.em_voo
  cut_read := by
    intro t e d n e' _ h hc
    have hr : ((journal_driver.read n).run t).Reads := fun _ => trivial
    rw [hr.cut hc]
    exact h.em_voo
  cut_write := by
    intro t e d n b e' hn h hc
    have hs := fora_setor hn
    obtain ⟨hq, hv⟩ := (Journal.does_sfs_write_sec h.quieto h.em hs).cut _ hc
    refine ⟨setor n, b, hs, by rw [setor_eq hn.1], hq, ?_⟩
    exact hv.imp (fun hv => mesmo_trans hv h.mesmo) fun hv =>
      mesmo_trans hv (h.mesmo.update_ambos _ _)

/-- A call leaves the log quiet, and keeps of the caches what it keeps without the log. -/
theorem calmo_depois {α : Type} {x : S α} {r : α × Volume} {I : Fs → Prop} (h : Refina x v r)
    (hk : Keeps I x) (hI : I m.fs) {dv : Disco} (hr : Rep m.fs dv v) (hc : Calmo m.journal d dv) :
    ∃ m' d' dv', ((pelo_journal x).run m).exec d = some ((r.1, m'), d') ∧ I m'.fs ∧
      Rep m'.fs dv' r.2 ∧ Calmo m'.journal d' dv' := by
  obtain ⟨⟨a, fs⟩, dv', j, e', he, hj, hI', rfl, hr'⟩ :=
    Prog.wp.over journal_driver_survives.toImplements ((hk m.fs hI).wp (h m.fs dv hr)) hc
  refine ⟨⟨fs, j⟩, e', dv', ?_, hI', hr', hj⟩
  change (((x.run m.fs).over journal_driver).run m.journal >>= fun r =>
    Prog.ret (r.1.1, (⟨r.1.2, r.2⟩ : Mem))).exec d = _
  rw [Prog.exec_bind, he]
  rfl

/-- A cut of a call leaves what cuts of the call without the log can leave. -/
theorem corte_da_chamada {α : Type} {x : S α} {r : α × Volume} (h : Refina x v r) {dv : Disco}
    (hr : Rep m.fs dv v) (hc : Calmo m.journal d dv)
    (hcut : ((pelo_journal x).run m).Cut d d') :
    ∃ d0 d1, (x.run m.fs).Cut dv d0 ∧ (x.run m.fs).Cut dv d1 ∧ EmVoo d' d0 d1 := by
  change (((x.run m.fs).over journal_driver).run m.journal >>= fun r =>
    Prog.ret (r.1.1, (⟨r.1.2, r.2⟩ : Mem))).Cut d d' at hcut
  rcases hcut.of_bind with hcut | ⟨r1, d1, he, hcut⟩
  · exact hcut.over journal_driver_survives (h m.fs dv hr) hc
  · rw [Prog.Reads.cut (p := Prog.ret _) trivial hcut]
    exact (Prog.Cut.of_exec he).over journal_driver_survives (h m.fs dv hr) hc

end Log

/-! ## The mount after a cut -/

section Monta

variable {e d0 d1 : Disco}

theorem Corte.anel {s : Nat} {b : Setor} (h : Corte d0 s b e) : Anel e :=
  h.1.elim Quieto.toAnel Journal.Pendente.toAnel

/-- A mount reads the first three sectors, and then does what a boot does with the log. -/
theorem exec_monta {t : Journal.Mem} {e' : Disco} (m : Mem)
    (hs : super_magic (e SFS_SUPER_SEC) = SFS_MAGIC) (hj : meta_magic (e J_META_SECTOR) = J_MAGIC)
    (hb : (Journal.journal_boot.run Journal.Mem.boot).exec e = some (((), t), e')) :
    (spfs_mount.run m).exec e =
      some ((true, ⟨⟨e SFS_SUPER_SEC, e SFS_IMAP_SEC, e SFS_BMAP_SEC, true⟩, t⟩), e') := by
  have hb' : ((Journal.journal_init.run Journal.Mem.boot).exec e).bind (fun r =>
      (Journal.journal_recover.run r.1.2).exec r.2) = some (((), t), e') := by
    rw [← hb]
    exact (Prog.exec_bind (Journal.journal_init.run Journal.Mem.boot)
      (fun r => Journal.journal_recover.run r.2) e).symm
  rw [(Journal.does_journal_init (C := fun _ => True) hj trivial).exec_eq, Option.bind_some,
    exec_journal_recover rfl] at hb'
  rw [exec_spfs_mount hs hj]
  cases hr : (recover_laco (meta_tail (e J_META_SECTOR)) VOLTAS (meta_head (e J_META_SECTOR))).exec e with
  | none =>
    rw [hr] at hb'
    cases hb'
  | some r =>
    rw [hr] at hb'
    cases hb'
    rfl

/-- The mount after a cut finishes the write that was in flight, or does without it. -/
theorem EmVoo.monta (h : EmVoo e d0 d1) (m : Mem) (h0 : super_magic (d0 SFS_SUPER_SEC) = SFS_MAGIC)
    (h1 : super_magic (d1 SFS_SUPER_SEC) = SFS_MAGIC) :
    ∃ t e', (spfs_mount.run m).exec e =
        some ((true, ⟨⟨e SFS_SUPER_SEC, e SFS_IMAP_SEC, e SFS_BMAP_SEC, true⟩, t⟩), e') ∧
      (Mesmo e d0 ∨ Mesmo e d1) ∧ (Calmo t e' d0 ∨ Calmo t e' d1) := by
  obtain ⟨s, b, hs, rfl, hc⟩ := h
  obtain ⟨e', hb, hq, hv⟩ := hc.does_journal_boot hs
  have hf : Fora SFS_SUPER_SEC := Or.inl (by decide)
  have hmagic : super_magic (e SFS_SUPER_SEC) = SFS_MAGIC := by
    rcases hc.2 with hm | hm
    · rwa [hm _ hf]
    · rwa [hm _ hf]
  refine ⟨_, e', exec_monta m hmagic (Corte.anel hc).magic hb.exec_eq, hc.2, ?_⟩
  exact hv.imp (fun hv => ⟨⟨rfl, rfl⟩, hq, hv⟩) fun hv => ⟨⟨rfl, rfl⟩, hq, hv⟩

end Monta

end SpaceOS.SpaceFs
