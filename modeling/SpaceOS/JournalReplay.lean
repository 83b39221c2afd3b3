-- The replay of the log on a disk of any content: when its loop ends, and what it writes where an
-- entry is damaged.
import SpaceOS.Lib.BlockTrace
import SpaceOS.Lib.Trail
import SpaceOS.SpaceFsMount

open Lib.Bytes Lib.BlockProg Lib.Trail SpaceOS.Ata
open Function (update update_self update_of_ne)

namespace SpaceOS.Journal

/-! ## When the loop ends -/

section Fim

variable {d : Disco} {tail idx : Nat}

/-- An index from the disk that `proximo` does not reach keeps the loop going. -/
theorem recover_laco_sem_fim (ht : J_MAX_ENTRIES ≤ tail) (hne : idx ≠ tail) (voltas : Nat) :
    (recover_laco tail voltas idx).exec d = none := by
  induction voltas generalizing idx d with
  | zero => rfl
  | succ voltas ih =>
    have hp : proximo idx ≠ tail := by
      have := proximo_lt idx
      omega
    rw [recover_laco, if_neg hne]
    change Prog.exec (if hdr_committed _ = 0 then _ else _) d = none
    split
    · exact ih hp
    · exact ih hp

theorem recover_laco_termina (ht : tail < J_MAX_ENTRIES) {voltas : Nat}
    (hv : J_MAX_ENTRIES < voltas) : ∃ d', (recover_laco tail voltas idx).exec d = some ((), d') :=
  have hf := faltam_le idx tail
  ⟨_, (runs_recover_laco ht (Nat.lt_of_le_of_lt hf hv) hf).exec_eq⟩

/-- The loop takes at most `J_MAX_ENTRIES` entries if `tail` is one of them or is where it starts,
and has no end otherwise. -/
theorem recover_laco_termina_iff {voltas : Nat} (hv : J_MAX_ENTRIES < voltas) :
    (∃ d', (recover_laco tail voltas idx).exec d = some ((), d')) ↔
      idx = tail ∨ tail < J_MAX_ENTRIES := by
  constructor
  · rintro ⟨d', he⟩
    by_contra hn
    obtain ⟨hne, ht⟩ := not_or.mp hn
    rw [recover_laco_sem_fim (Nat.not_lt.mp ht) hne] at he
    cases he
  · rintro (rfl | ht)
    · obtain ⟨k, rfl⟩ : ∃ k, voltas = k + 1 := ⟨voltas - 1, by omega⟩
      exact ⟨d, (runs_recover_fim (C := fun _ => True) trivial).exec_eq⟩
    · exact recover_laco_termina ht hv

end Fim

/-- After `journal_init` on the disk `d`, the loop of `journal_recover` ends within
`J_MAX_ENTRIES` entries. -/
def Termina (d : Disco) : Prop :=
  ∃ m d' d'', (journal_init.run Mem.boot).exec d = some (((), m), d') ∧
    (recover_laco (meta_tail m.jmeta) (J_MAX_ENTRIES + 1) (meta_head m.jmeta)).exec d' = some ((), d'')

theorem exec_journal_init_com_log {d : Disco} (hm : meta_magic (d J_META_SECTOR) = J_MAGIC) :
    (journal_init.run Mem.boot).exec d = some (((), ⟨d J_META_SECTOR, true⟩), d) :=
  (does_journal_init (C := fun _ => True) hm trivial).exec_eq

/-- A meta sector whose `tail` is one more than the last entry. -/
def meta_presa : Setor := meta_por_tail meta_vazia J_MAX_ENTRIES

/-- The entries that the replay from entry `idx` writes, header and data as it reads them. -/
def repostas (tail : Nat) : Nat → Nat → Disco → List (Setor × Setor)
  | 0, _, _ => []
  | voltas + 1, idx, d =>
    if idx = tail then []
    else
      let hdr := d (j_entry_sector idx)
      let data := d (j_entry_sector idx + 1)
      if hdr_committed hdr = 0 then
        (hdr, data) :: repostas tail voltas (proximo idx) (update d (setor (hdr_block_num hdr)) data)
      else repostas tail voltas (proximo idx) d

/-- Every write of the loop is one of an entry: its data, to the sector that its header names. -/
theorem writes_recover_laco (tail voltas idx : Nat) (d : Disco) :
    (recover_laco tail voltas idx).writes d =
      (repostas tail voltas idx d).map fun r => (setor (hdr_block_num r.1), r.2) := by
  induction voltas generalizing idx d with
  | zero => rfl
  | succ voltas ih =>
    rw [recover_laco, repostas]
    by_cases hne : idx = tail
    · rw [if_pos hne, if_pos hne]
      rfl
    rw [if_neg hne, if_neg hne]
    change Prog.writes (if hdr_committed (d (setor (j_entry_sector idx))) = 0 then _ else _) d = _
    rw [setor_entry]
    dsimp only
    by_cases hc : hdr_committed (d (j_entry_sector idx)) = 0
    · rw [if_pos hc, if_pos hc, List.map_cons, ← ih]
      change (_, d (setor (j_entry_sector idx + 1))) :: Prog.writes _ (update d _ _) = _
      rw [setor_entry_data]
      rfl
    · rw [if_neg hc, if_neg hc, ← ih]

/-- The entries that a walk from `idx` to `tail` comes to in `voltas` turns. -/
def percurso (tail : Nat) : Nat → Nat → List Nat
  | 0, _ => []
  | voltas + 1, idx => if idx = tail then [] else idx :: percurso tail voltas (proximo idx)

theorem percurso_visits {tail voltas idx i : Nat} (h : i ∈ percurso tail voltas idx) :
    Visits proximo (· = tail) idx i := by
  induction voltas generalizing idx with
  | zero => exact absurd h List.not_mem_nil
  | succ voltas ih =>
    rw [percurso] at h
    split at h
    · exact absurd h List.not_mem_nil
    · rename_i hne
      rcases List.mem_cons.mp h with rfl | h
      · exact .start hne
      · exact (ih h).head hne

/-- Whatever the walk visits, it comes to after some number of turns. -/
theorem visits_percurso {tail idx i : Nat} (h : Visits proximo (· = tail) idx i) :
    ∃ voltas, i ∈ percurso tail voltas idx := by
  have hturn : ∀ {voltas idx i}, i ∈ percurso tail voltas idx → proximo i ≠ tail →
      proximo i ∈ percurso tail (voltas + 1) idx := by
    intro voltas
    induction voltas with
    | zero => exact fun hi _ => absurd hi List.not_mem_nil
    | succ voltas ih =>
      intro idx i hi hne
      rw [percurso] at hi
      split at hi
      · exact absurd hi List.not_mem_nil
      · rename_i hidx
        rw [percurso, if_neg hidx]
        refine List.mem_cons_of_mem _ ?_
        rcases List.mem_cons.mp hi with rfl | hi
        · rw [percurso, if_neg hne]
          exact List.mem_cons_self
        · exact ih hi hne
  induction h with
  | start hc =>
    refine ⟨1, ?_⟩
    rw [percurso, if_neg hc]
    exact List.mem_cons_self
  | step _ hx ih =>
    obtain ⟨voltas, hi⟩ := ih
    exact ⟨voltas + 1, hturn hi hx⟩

/-- Sector `s` is one of the log's: the meta sector or half an entry. -/
def DoLog (s : Nat) : Prop := 35 ≤ s ∧ s ≤ 97

/-- The data is what the header was made for, and goes to a sector outside the log. -/
def Inteira (hdr data : Setor) : Prop :=
  djb2 data = hdr_checksum hdr ∧ ¬ DoLog (setor (hdr_block_num hdr))

/-- Entry `i` of the disk is committed or intact. -/
def Sadia (d : Disco) (i : Nat) : Prop :=
  hdr_committed (d (j_entry_sector i)) = 0 →
    Inteira (d (j_entry_sector i)) (d (j_entry_sector i + 1))

theorem entry_doLog (i : Nat) : DoLog (j_entry_sector i) ∧ DoLog (j_entry_sector i + 1) := by
  have := entry_sector_bounds i
  unfold DoLog
  omega

theorem sadia_update {d : Disco} {s : Nat} (hs : ¬ DoLog s) (b : Setor) (i : Nat) :
    Sadia (update d s b) i ↔ Sadia d i := by
  obtain ⟨h1, h2⟩ := entry_doLog i
  have hne1 : j_entry_sector i ≠ s := fun he => hs (he ▸ h1)
  have hne2 : j_entry_sector i + 1 ≠ s := fun he => hs (he ▸ h2)
  rw [Sadia, Sadia, update_of_ne hne1, update_of_ne hne2]

/-- Up to the first damaged entry no sector of the log changes, so that each entry is read as it was
when the replay began. -/
theorem repostas_inteiras_iff (tail voltas idx : Nat) (d : Disco) :
    (∀ r ∈ repostas tail voltas idx d, Inteira r.1 r.2) ↔
      ∀ i ∈ percurso tail voltas idx, Sadia d i := by
  induction voltas generalizing idx d with
  | zero => exact Iff.intro (fun _ _ h => absurd h List.not_mem_nil) fun _ _ h => absurd h List.not_mem_nil
  | succ voltas ih =>
    rw [repostas, percurso]
    by_cases hne : idx = tail
    · rw [if_pos hne, if_pos hne]
      exact Iff.intro (fun _ _ h => absurd h List.not_mem_nil) fun _ _ h => absurd h List.not_mem_nil
    rw [if_neg hne, if_neg hne, List.forall_mem_cons]
    dsimp only
    by_cases hc : hdr_committed (d (j_entry_sector idx)) = 0
    · rw [if_pos hc, List.forall_mem_cons, ih]
      have hs : Sadia d idx ↔ Inteira (d (j_entry_sector idx)) (d (j_entry_sector idx + 1)) :=
        ⟨fun h => h hc, fun h _ => h⟩
      rw [hs]
      refine and_congr_right fun hi => forall₂_congr fun i _ => ?_
      exact sadia_update hi.2 _ i
    · rw [if_neg hc, ih]
      exact (and_iff_right fun h => absurd h hc).symm

/-- The entries that `journal_recover` writes in the turns of its loop, from the variables `m` and the
disk `d`. -/
def replay (m : Mem) (d : Disco) (voltas : Nat) : List (Setor × Setor) :=
  if m.j_ok then repostas (meta_tail m.jmeta) voltas (meta_head m.jmeta) d else []

theorem writes_j_flush_meta (m : Mem) (d : Disco) :
    (j_flush_meta.run m).writes d = [(J_META_SECTOR, m.jmeta)] := rfl

/-- `journal_recover` writes its entries, and at the end, if it comes to it, the meta sector. -/
theorem writes_journal_recover (m : Mem) (d : Disco) :
    (journal_recover.run m).writes d =
      (replay m d VOLTAS).map (fun r => (setor (hdr_block_num r.1), r.2)) ++
        (((journal_recover.run m).exec d).elim [] fun r =>
          if m.j_ok then [(J_META_SECTOR, r.1.2.jmeta)] else []) := by
  obtain ⟨jmeta, j_ok⟩ := m
  cases j_ok with
  | false => rfl
  | true =>
    have hr : (journal_recover.run ⟨jmeta, true⟩) =
        recover_laco (meta_tail jmeta) VOLTAS (meta_head jmeta) >>= fun _ =>
          j_flush_meta.run ⟨meta_por_head jmeta (meta_tail jmeta), true⟩ := by
      change (recover_laco _ VOLTAS _ >>= fun a => Prog.ret (a, _)) >>= _ = _
      rw [bind_assoc]
      rfl
    rw [hr, Prog.writes_bind, Prog.exec_bind, writes_recover_laco, replay, if_pos rfl]
    rcases (recover_laco (meta_tail jmeta) VOLTAS (meta_head jmeta)).exec d with _ | r
    · rfl
    · rfl

/-- What `journal_recover` writes outside its own clearing of the log is, whatever the number of turns,
the data of intact entries. -/
def SoInteiras (m : Mem) (d : Disco) : Prop := ∀ voltas, ∀ r ∈ replay m d voltas, Inteira r.1 r.2

/-- The replay writes every entry that is not committed, damaged or not; those that it writes are all
intact exactly if each entry from `head` to `tail` is committed or intact when the replay begins. -/
theorem recovery_replays_intact_entries_iff (m : Mem) (d : Disco) :
    ((journal_recover.run m).writes d =
      (replay m d VOLTAS).map (fun r => (setor (hdr_block_num r.1), r.2)) ++
        (((journal_recover.run m).exec d).elim [] fun r =>
          if m.j_ok then [(J_META_SECTOR, r.1.2.jmeta)] else [])) ∧
    (SoInteiras m d ↔ (m.j_ok = true →
      ∀ i, Visits proximo (· = meta_tail m.jmeta) (meta_head m.jmeta) i → Sadia d i)) := by
  refine ⟨writes_journal_recover m d, fun h hok i hi => ?_, fun h voltas => ?_⟩
  · obtain ⟨voltas, hv⟩ := visits_percurso hi
    have hr := h voltas
    rw [replay, if_pos hok] at hr
    exact (repostas_inteiras_iff _ _ _ _).mp hr i hv
  · rw [replay]
    split
    · rename_i hok
      exact (repostas_inteiras_iff _ _ _ _).mpr fun i hi => h hok i (percurso_visits hi)
    · exact fun r hr => absurd hr List.not_mem_nil

/-- One entry, of zeros: not committed, and its checksum is not that of its data. -/
theorem recovery_replays_a_damaged_entry : ¬ ∀ d : Disco, meta_magic (d J_META_SECTOR) = J_MAGIC →
    ∀ m d', (journal_init.run Mem.boot).exec d = some (((), m), d') → SoInteiras m d' := by
  intro hall
  let d : Disco := update (fun _ => ByteStr.zero) J_META_SECTOR (meta_por_tail meta_vazia 1)
  have hd : d J_META_SECTOR = meta_por_tail meta_vazia 1 := update_self _ _ _
  have hm : meta_magic (d J_META_SECTOR) = J_MAGIC := by rw [hd, magic_por_tail, meta_vazia_magic]
  have h1 : ∀ r ∈ replay ⟨d J_META_SECTOR, true⟩ d 1, Inteira r.1 r.2 :=
    hall d hm _ _ (exec_journal_init_com_log hm) 1
  have hh : meta_head (d J_META_SECTOR) = 0 := by
    rw [hd, head_por_tail]
    exact meta_vazia_zero (by decide) (by decide)
  have ht : meta_tail (d J_META_SECTOR) = 1 := by rw [hd]; exact tail_por_tail _ _
  have he : ∀ s, s ≠ J_META_SECTOR → d s = ByteStr.zero := fun s hs => update_of_ne hs _ _
  have hc : hdr_committed ByteStr.zero = 0 := ByteStr.word_zero _
  rw [replay, if_pos rfl, hh, ht, repostas, if_neg (by decide), he _ (entry_ne_meta 0),
    he _ (entry_data_ne_meta 0)] at h1
  dsimp only at h1
  rw [if_pos hc] at h1
  have hi := (h1 _ List.mem_cons_self).1
  rw [show hdr_checksum ByteStr.zero = 0 from ByteStr.word_zero _] at hi
  exact absurd hi (by decide +kernel)

end SpaceOS.Journal
