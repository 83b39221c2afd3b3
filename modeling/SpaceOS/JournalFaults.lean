-- Writes through the log on a disk that refuses some of them: which failures the log stands, so
-- that a block that was not written stays in it for the next replay.
import SpaceOS.JournalReplay

open Lib.Bytes Lib.BlockProg Lib.BlockProg.Prog SpaceOS.Ata
open Function (update update_self update_of_ne)

namespace SpaceOS.Journal

/-! ## The entries of a log -/

/-- Entry `i` lies in `[head, tail)`. -/
def NoLog (head tail i : Nat) : Prop := i < J_MAX_ENTRIES ∧ distancia head i < distancia head tail

section NoLog

variable {head tail i : Nat}

theorem NoLog.ne_tail (h : NoLog head tail i) : i ≠ tail := fun he =>
  Nat.lt_irrefl _ (he ▸ h.2)

theorem noLog_vazio : ¬ NoLog tail tail i := fun h => by
  have := h.2
  simp only [distancia, J_MAX_ENTRIES] at this
  omega

theorem noLog_proximo_head (hh : head < J_MAX_ENTRIES) (ht : tail < J_MAX_ENTRIES)
    (hne : head ≠ tail) : NoLog (proximo head) tail i ↔ NoLog head tail i ∧ i ≠ head := by
  simp only [NoLog, distancia, proximo, J_MAX_ENTRIES] at *
  omega

theorem noLog_head (hh : head < J_MAX_ENTRIES) (ht : tail < J_MAX_ENTRIES) (hne : head ≠ tail) :
    NoLog head tail head := by
  simp only [NoLog, distancia, J_MAX_ENTRIES] at *
  omega

/-- One more entry puts `tail` in the log and takes no other. -/
theorem noLog_proximo_tail (hh : head < J_MAX_ENTRIES) (ht : tail < J_MAX_ENTRIES)
    (h : NoLog head (proximo tail) i) : NoLog head tail i ∨ i = tail := by
  simp only [NoLog, distancia, proximo, J_MAX_ENTRIES] at *
  omega

/-- With room in the ring, one more entry keeps the others. -/
theorem NoLog.proximo_tail (hh : head < J_MAX_ENTRIES) (ht : tail < J_MAX_ENTRIES)
    (hv : proximo tail ≠ head) (h : NoLog head tail i ∨ i = tail) : NoLog head (proximo tail) i := by
  simp only [NoLog, distancia, proximo, J_MAX_ENTRIES] at *
  omega

theorem NoLog.distancia_tail (hh : head < J_MAX_ENTRIES) (ht : tail < J_MAX_ENTRIES)
    (h : NoLog head tail i) : 0 < distancia i tail ∧ distancia i tail < J_MAX_ENTRIES := by
  simp only [NoLog, distancia, J_MAX_ENTRIES] at *
  omega

theorem NoLog.distancia_proximo (hh : head < J_MAX_ENTRIES) (ht : tail < J_MAX_ENTRIES)
    (hv : proximo tail ≠ head) (h : NoLog head tail i) :
    distancia i (proximo tail) = distancia i tail + 1 := by
  simp only [NoLog, distancia, proximo, J_MAX_ENTRIES] at *
  omega

theorem distancia_self_proximo (ht : tail < J_MAX_ENTRIES) : distancia tail (proximo tail) = 1 := by
  unfold distancia
  rcases proximo_cases ht with ⟨he, hlt⟩ | ⟨he, hlt⟩
  · rw [he]
    unfold J_MAX_ENTRIES at *
    omega
  · rw [he]
    unfold J_MAX_ENTRIES at *
    omega

/-- The walk from `head` comes to each entry of the log. -/
theorem NoLog.percurso {voltas : Nat} (hh : head < J_MAX_ENTRIES) (ht : tail < J_MAX_ENTRIES)
    (h : NoLog head tail i) (hv : distancia head i < voltas) : i ∈ percurso tail voltas head := by
  induction voltas generalizing head with
  | zero => exact absurd hv (Nat.not_lt_zero _)
  | succ voltas ih =>
    have hne : head ≠ tail := fun he => noLog_vazio (he ▸ h)
    rw [Journal.percurso, if_neg hne]
    by_cases hi : i = head
    · rw [hi]
      exact List.mem_cons_self
    · refine List.mem_cons_of_mem _ (ih (proximo_lt _) ?_ ?_)
      · exact (noLog_proximo_head hh ht hne).mpr ⟨h, hi⟩
      · have := Journal.distancia_proximo hh h.1 (Ne.symm hi)
        omega

theorem percurso_noLog {voltas : Nat} (hh : head < J_MAX_ENTRIES) (ht : tail < J_MAX_ENTRIES)
    (h : i ∈ percurso tail voltas head) : NoLog head tail i := by
  induction voltas generalizing head with
  | zero => exact absurd h List.not_mem_nil
  | succ voltas ih =>
    rw [percurso] at h
    split at h
    · exact absurd h List.not_mem_nil
    · rename_i hne
      rcases List.mem_cons.mp h with rfl | h
      · exact noLog_head hh ht hne
      · exact ((noLog_proximo_head hh ht hne).mp (ih (proximo_lt _) h)).1

end NoLog

/-! ## The replay of an entry in the log -/

/-- The entry is committed or its block is outside the log. -/
def AlvoFora (d : Disco) (i : Nat) : Prop :=
  hdr_committed (d (j_entry_sector i)) = 0 → Fora (setor (hdr_block_num (d (j_entry_sector i))))

theorem repostas_mem {tail voltas idx i : Nat} {d : Disco}
    (ha : ∀ j ∈ percurso tail voltas idx, AlvoFora d j) (hi : i ∈ percurso tail voltas idx)
    (hc : hdr_committed (d (j_entry_sector i)) = 0) :
    (d (j_entry_sector i), d (j_entry_sector i + 1)) ∈ repostas tail voltas idx d := by
  induction voltas generalizing idx d with
  | zero => exact absurd hi List.not_mem_nil
  | succ voltas ih =>
    rw [percurso] at hi ha
    rw [repostas]
    by_cases hne : idx = tail
    · rw [if_pos hne] at hi
      exact absurd hi List.not_mem_nil
    rw [if_neg hne] at hi ha ⊢
    obtain ⟨ha0, ha⟩ := List.forall_mem_cons.mp ha
    dsimp only
    by_cases hc0 : hdr_committed (d (j_entry_sector idx)) = 0
    · rw [if_pos hc0]
      rcases List.mem_cons.mp hi with rfl | hi
      · exact List.mem_cons_self
      -- the replay of `idx` leaves the log as it was
      have hs := ha0 hc0
      have hsame : ∀ j, update d (setor (hdr_block_num (d (j_entry_sector idx))))
          (d (j_entry_sector idx + 1)) (j_entry_sector j) = d (j_entry_sector j) :=
        fun j => update_of_ne (fora_ne_entry hs j).symm _ _
      have hsame' : update d (setor (hdr_block_num (d (j_entry_sector idx))))
          (d (j_entry_sector idx + 1)) (j_entry_sector i + 1) = d (j_entry_sector i + 1) :=
        update_of_ne (fora_ne_entry_data hs i).symm _ _
      have hr := ih (d := update d (setor (hdr_block_num (d (j_entry_sector idx))))
        (d (j_entry_sector idx + 1))) (fun j hj => by rw [AlvoFora, hsame]; exact ha j hj) hi
        (by rw [hsame]; exact hc)
      rw [hsame, hsame'] at hr
      exact List.mem_cons_of_mem _ hr
    · rw [if_neg hc0]
      rcases List.mem_cons.mp hi with rfl | hi
      · exact absurd hc hc0
      · exact ih ha hi hc

/-- A meta sector that can be trusted. -/
structure MetaBoa (s : Setor) : Prop where
  magic : meta_magic s = J_MAGIC
  head : meta_head s < J_MAX_ENTRIES
  tail : meta_tail s < J_MAX_ENTRIES

/-- Entry `i` of the log with the meta sector `s` holds the write `p` for the next replay. -/
structure Espera (d : Disco) (s : Setor) (p : Nat × Setor) (i : Nat) : Prop where
  no_log : NoLog (meta_head s) (meta_tail s) i
  pendente : hdr_committed (d (j_entry_sector i)) = 0
  bloco : setor (hdr_block_num (d (j_entry_sector i))) = p.1
  dado : d (j_entry_sector i + 1) = p.2

/-- The replay does the writes that wait in the log. -/
theorem Espera.reposta {d : Disco} {s : Setor} {p : Nat × Setor} {i : Nat} (h : Espera d s p i)
    (hs : MetaBoa s) (ha : ∀ j, NoLog (meta_head s) (meta_tail s) j → AlvoFora d j) :
    p ∈ (journal_recover.run ⟨s, true⟩).writes d := by
  have hv : distancia (meta_head s) i < VOLTAS :=
    Nat.lt_trans (distancia_lt _ _) (by decide)
  have hr := repostas_mem (fun j hj => ha j (percurso_noLog hs.head hs.tail hj))
    (h.no_log.percurso hs.head hs.tail hv) h.pendente
  rw [writes_journal_recover, replay, if_pos rfl]
  refine List.mem_append_left _ (List.mem_map.mpr ⟨_, hr, ?_⟩)
  rw [h.bloco, h.dado]

/-- At the next boot. -/
theorem Espera.reposta_no_boot {d : Disco} {p : Nat × Setor} {i : Nat}
    (h : Espera d (d J_META_SECTOR) p i) (hs : MetaBoa (d J_META_SECTOR))
    (ha : ∀ j, NoLog (meta_head (d J_META_SECTOR)) (meta_tail (d J_META_SECTOR)) j → AlvoFora d j) :
    p ∈ (journal_boot.run Mem.boot).writes d := by
  rw [journal_boot, StateT.run_bind, writes_bind_of_exec (exec_journal_init_com_log hs.magic)]
  exact List.mem_append_right _ (h.reposta hs ha)

/-! ## The functions on a disk that refuses writes -/

/-- A write to the disk `d` that marks an entry committed finds its data in its block. -/
def MarcaCerta (s : Nat) (b : Setor) (d : Disco) : Prop :=
  ∀ j, s = j_entry_sector j → hdr_committed b ≠ 0 → d (setor (hdr_block_num b)) = d (s + 1)

/-- Entry `j` is one that the commit of `x` marks. -/
def Procurada (x : Nat) (d : Disco) (j : Nat) : Prop :=
  hdr_txid (d (j_entry_sector j)) = x ∧ hdr_committed (d (j_entry_sector j)) = 0

instance (x : Nat) (d : Disco) (j : Nat) : Decidable (Procurada x d j) :=
  inferInstanceAs (Decidable (_ ∧ _))

/-- The entry of `js` that the commit of `x` marks. -/
def procura (x : Nat) (d : Disco) (js : List Nat) : Option Nat :=
  js.find? fun j => Procurada x d j

/-- The meta sector once an entry is taken. -/
def proxima_meta (s : Setor) : Setor :=
  meta_por_next_txid (meta_por_tail s (proximo (meta_tail s))) (meta_next_txid s + 1)

/-- What `head` passes on the disk `d` on the way from the meta sector `s` to `s'`: the entries in
front that are committed. -/
structure Avanco (d : Disco) (s s' : Setor) : Prop where
  magic : meta_magic s' = meta_magic s
  tail : meta_tail s' = meta_tail s
  next_txid : meta_next_txid s' = meta_next_txid s
  head : meta_head s' < J_MAX_ENTRIES
  antes : ∀ i, NoLog (meta_head s') (meta_tail s) i → NoLog (meta_head s) (meta_tail s) i
  fica : ∀ i, NoLog (meta_head s) (meta_tail s) i → hdr_committed (d (j_entry_sector i)) = 0 →
    NoLog (meta_head s') (meta_tail s) i
  para : meta_head s' = meta_tail s ∨ hdr_committed (d (j_entry_sector (meta_head s'))) = 0

section Spec

variable {ok : Nat → Bool} {E : Nat → Setor → Disco → Prop} {m : Mem} {d : Disco} {i : Nat}
  {sec : Nat} {data : Setor}

theorem wpWith_ler1 {β : Type} {R : β → Mem → Nat → Disco → Prop} {lba : Nat}
    {f : Option Setor → M β} (h : WpWith ok E (f (some (d (setor lba)))) m i d R) :
    WpWith ok E (liftM (ata_ler1 lba) >>= f) m i d R := h

theorem wpWith_gravar1 {β : Type} {R : β → Mem → Nat → Disco → Prop} {lba : Nat} {f : Bool → M β}
    (he : ok i = true → E (setor lba) data d)
    (h : WpWith ok E (f (ok i)) m (i + 1) (attempt (ok i) d (setor lba) data) R) :
    WpWith ok E (liftM (ata_gravar1 lba data) >>= f) m i d R := ⟨he, h⟩

theorem wpWith_commit_marca {x : Nat} {js : List Nat}
    (he : ∀ j, procura x d js = some j → ok i = true →
      E (j_entry_sector j) (hdr_por_committed (d (j_entry_sector j)) 1) d) :
    (commit_marca x js).wpWith ok E i d fun _ i' d' =>
      (procura x d js = none ∧ i' = i ∧ d' = d) ∨
      ∃ j, procura x d js = some j ∧ i' = i + 1 ∧ d' = attempt (ok i) d (j_entry_sector j)
        (hdr_por_committed (d (j_entry_sector j)) 1) := by
  induction js with
  | nil => exact Or.inl ⟨rfl, rfl, rfl⟩
  | cons j js ih =>
    rw [commit_marca]
    refine Prog.wpWith_bind.mpr ?_
    change Prog.wpWith ok E (if hdr_txid (d (setor (j_entry_sector j))) = x ∧ _ then _ else _) i d _
    rw [setor_entry]
    by_cases hp : Procurada x d j
    · have hf : procura x d (j :: js) = some j := List.find?_cons_of_pos (decide_eq_true hp)
      rw [if_pos (show _ ∧ _ from hp)]
      refine ⟨fun hok => ?_, Or.inr ⟨j, hf, rfl, ?_⟩⟩
      · rw [setor_entry]
        exact he j hf hok
      · rw [setor_entry]
    · have hf : procura x d (j :: js) = procura x d js :=
        List.find?_cons_of_neg (by rw [decide_eq_true_iff]; exact hp)
      rw [hf] at he ⊢
      rw [if_neg (show ¬ (_ ∧ _) from hp)]
      exact ih he

theorem Avanco.refl {s : Setor} (h : MetaBoa s) (hp : meta_head s = meta_tail s ∨
    hdr_committed (d (j_entry_sector (meta_head s))) = 0) : Avanco d s s :=
  ⟨rfl, rfl, rfl, h.head, fun _ hi => hi, fun _ hi _ => hi, hp⟩

/-- `head` passes one committed entry, and then others. -/
theorem Avanco.passo {s s' : Setor} (h : MetaBoa s) (hne : meta_head s ≠ meta_tail s)
    (hc : hdr_committed (d (j_entry_sector (meta_head s))) ≠ 0)
    (ha : Avanco d (meta_por_head s (proximo (meta_head s))) s') : Avanco d s s' := by
  obtain ⟨h1, h2, h3, h4, h5, h6, h7⟩ := ha
  have hp := fun i => noLog_proximo_head (i := i) h.head h.tail hne
  rw [head_por_head, tail_por_head, proximo_mod] at h5 h6
  rw [magic_por_head] at h1
  rw [tail_por_head] at h2 h7
  rw [next_txid_por_head] at h3
  refine ⟨h1, h2, h3, h4, fun i hi => ((hp i).mp (h5 i hi)).1, fun i hi hic => h6 i ?_ hic, h7⟩
  exact (hp i).mpr ⟨hi, fun he => hc (he ▸ hic)⟩

theorem MetaBoa.por_head {s : Setor} (h : MetaBoa s) {v : Nat} (hv : v < J_MAX_ENTRIES) :
    MetaBoa (meta_por_head s v) := by
  refine ⟨by rw [magic_por_head, h.magic], ?_, by rw [tail_por_head]; exact h.tail⟩
  rw [head_por_head, Nat.mod_eq_of_lt (Nat.lt_trans hv (by decide))]
  exact hv

theorem wpWith_commit_avanca {voltas : Nat} (hm : MetaBoa m.jmeta)
    (hv : distancia (meta_head m.jmeta) (meta_tail m.jmeta) < voltas) :
    WpWith ok E (commit_avanca voltas) m i d fun _ m' i' d' =>
      i' = i ∧ d' = d ∧ m'.j_ok = m.j_ok ∧ Avanco d m.jmeta m'.jmeta := by
  induction voltas generalizing m with
  | zero => exact absurd hv (Nat.not_lt_zero _)
  | succ voltas ih =>
    refine .get_bind ?_
    split
    · exact ⟨rfl, rfl, rfl, .refl hm (Or.inl ‹_›)⟩
    rename_i hne
    refine wpWith_ler1 ?_
    rw [setor_entry]
    dsimp only
    split
    · exact ⟨rfl, rfl, rfl, .refl hm (Or.inr ‹_›)⟩
    · rename_i hc
      have hd := Journal.distancia_proximo hm.head hm.tail hne
      refine .set_bind (WpWith.mono (ih (m := { m with jmeta := meta_por_head m.jmeta (proximo (meta_head m.jmeta)) })
        (hm.por_head (proximo_lt _)) ?_) ?_)
      · rw [head_por_head, tail_por_head, proximo_mod]
        omega
      · rintro _ m' i' d' ⟨h1, h2, h3, h4⟩
        exact ⟨h1, h2, h3, .passo hm hne hc h4⟩

end Spec

/-! ## One call -/

section Chamada

variable (ok : Nat → Bool) (m : Mem) (d : Disco) (sec : Nat) (data : Setor)

/-- The header sector of the entry that a call takes. -/
def da_vez : Nat := j_entry_sector (meta_tail m.jmeta)

/-- The disk after the header, the data, the meta sector and the block: the first four writes. -/
def tenta_hdr : Disco :=
  attempt (ok 0) d (da_vez m) (hdr_novo (meta_next_txid m.jmeta) sec 0 (djb2 data))

def tenta_dado : Disco := attempt (ok 1) (tenta_hdr ok m d sec data) (da_vez m + 1) data

def tenta_meta : Disco :=
  attempt (ok 2) (tenta_dado ok m d sec data) J_META_SECTOR (proxima_meta m.jmeta)

def tenta_alvo : Disco := attempt (ok 3) (tenta_meta ok m d sec data) (setor sec) data

/-- The entry that the commit marks. -/
def achada : Option Nat :=
  procura (meta_next_txid m.jmeta) (tenta_alvo ok m d sec data) (List.range J_MAX_ENTRIES)

/-- The disk after the commit mark, which is the fifth write if there is one. -/
def tenta_marca : Disco :=
  match achada ok m d sec data with
  | none => tenta_alvo ok m d sec data
  | some j => attempt (ok 4) (tenta_alvo ok m d sec data) (j_entry_sector j)
      (hdr_por_committed (tenta_alvo ok m d sec data (j_entry_sector j)) 1)

/-- The number of the last write, of the meta sector. -/
def ultimo : Nat := if (achada ok m d sec data).isSome then 5 else 4

/-- What the call leaves. -/
structure Depois (m' : Mem) (d' : Disco) : Prop where
  j_ok : m'.j_ok = true
  avanco : Avanco (tenta_marca ok m d sec data) (proxima_meta m.jmeta) m'.jmeta
  disco : d' = attempt (ok (ultimo ok m d sec data)) (tenta_marca ok m d sec data) J_META_SECTOR m'.jmeta

variable {ok m d sec data}

theorem MetaBoa.proxima {s : Setor} (h : MetaBoa s) : MetaBoa (proxima_meta s) := by
  refine ⟨?_, ?_, ?_⟩
  · rw [proxima_meta, magic_por_next_txid, magic_por_tail, h.magic]
  · rw [proxima_meta, head_por_next_txid, head_por_tail]
    exact h.head
  · rw [proxima_meta, tail_por_next_txid, tail_por_tail, proximo_mod]
    exact proximo_lt _

theorem entry_data_ne_entry (i j : Nat) : j_entry_sector i + 1 ≠ j_entry_sector j := by
  simp only [j_entry_sector, J_DATA_START, J_MAX_ENTRIES, J_ENTRY_SECS]
  omega

/-- `E` holds of every write that marks no entry committed. -/
def SoMarcas (E : Nat → Setor → Disco → Prop) : Prop :=
  ∀ s b d, (∀ j, s = j_entry_sector j → hdr_committed b = 0) → E s b d

theorem soMarcas_marcaCerta : SoMarcas MarcaCerta :=
  fun _ _ _ h j he hc => absurd (h j he) hc

variable {E : Nat → Setor → Disco → Prop}

theorem SoMarcas.of_ne (hE : SoMarcas E) {s : Nat} {b : Setor} (h : ∀ j, s ≠ j_entry_sector j) :
    E s b d := hE s b d fun j he => absurd he (h j)

theorem wpWith_journal_begin (hE : SoMarcas E) {txid : Nat} (hok : m.j_ok = true)
    (ht : meta_next_txid m.jmeta = txid) :
    WpWith ok E (journal_begin sec data) m 0 d fun a m' i' d' =>
      a = txid ∧ m' = ⟨proxima_meta m.jmeta, true⟩ ∧ i' = 3 ∧ d' = tenta_meta ok m d sec data := by
  obtain ⟨jmeta, j_ok⟩ := m
  cases hok
  refine .get_bind (wpWith_gravar1 (fun _ => hE _ _ _ fun _ _ => ?_) (wpWith_gravar1 (fun _ => ?_) ?_))
  · rw [hdr_novo_committed, Nat.zero_mod]
  · rw [setor_entry_data]
    exact hE.of_ne (entry_data_ne_entry _)
  · rw [setor_entry, setor_entry_data]
    exact ⟨fun _ => hE.of_ne fun j => (entry_ne_meta j).symm, ht, rfl, rfl, rfl⟩

section Commit

variable (hE : SoMarcas E)
  (he : ∀ j, achada ok m d sec data = some j → ok 4 = true →
    E (j_entry_sector j) (hdr_por_committed (tenta_alvo ok m d sec data (j_entry_sector j)) 1)
      (tenta_alvo ok m d sec data))

include hE he

theorem wpWith_journal_commit {m1 : Mem} (hok : m1.j_ok = true) (hm : MetaBoa m1.jmeta)
    (hx : m1.jmeta = proxima_meta m.jmeta) :
    WpWith ok E (journal_commit (meta_next_txid m.jmeta)) m1 4 (tenta_alvo ok m d sec data)
      fun _ m' _ d' => Depois ok m d sec data m' d' := by
  refine .get_bind ?_
  rw [if_pos hok]
  refine WpWith.call_lift (wpWith_commit_marca he) fun _ i2 d2 h2 => ?_
  have hd2 : i2 = ultimo ok m d sec data ∧ d2 = tenta_marca ok m d sec data := by
    rcases h2 with ⟨hn, rfl, rfl⟩ | ⟨j, hj, rfl, rfl⟩
    · have hn : achada ok m d sec data = none := hn
      rw [ultimo, tenta_marca, hn]
      exact ⟨rfl, rfl⟩
    · have hj : achada ok m d sec data = some j := hj
      rw [ultimo, tenta_marca, hj]
      exact ⟨rfl, rfl⟩
  obtain ⟨rfl, rfl⟩ := hd2
  have hv : distancia (meta_head m1.jmeta) (meta_tail m1.jmeta) < VOLTAS :=
    Nat.lt_trans (distancia_lt _ _) (by decide)
  refine (wpWith_commit_avanca hm hv).call fun _ m3 i3 d3 h3 => ?_
  obtain ⟨rfl, rfl, hok3, ha⟩ := h3
  rw [hx] at ha
  exact ⟨fun _ => hE.of_ne fun j => (entry_ne_meta j).symm, hok3.trans hok, ha, rfl⟩

/-- Whatever writes fail, the call returns and reports whether its block was written. -/
theorem wpWith_sfs_write_sec (hok : m.j_ok = true) (hm : MetaBoa m.jmeta) (hs : Fora (setor sec)) :
    WpWith ok E (sfs_write_sec sec data) m 0 d fun ret m' _ d' =>
      ret = ok 3 ∧ Depois ok m d sec data m' d' := by
  refine (wpWith_journal_begin hE hok rfl).call fun txid m1 i1 d1 h1 => ?_
  obtain ⟨rfl, rfl, rfl, rfl⟩ := h1
  refine wpWith_gravar1 (fun _ => hE.of_ne fun j => fora_ne_entry hs j) ?_
  exact (wpWith_journal_commit hE he rfl hm.proxima rfl).call fun _ m' _ d' h => ⟨rfl, h⟩

end Commit

theorem entry_ne_entry {i j : Nat} (hi : i < J_MAX_ENTRIES) (hj : j < J_MAX_ENTRIES) (h : i ≠ j) :
    j_entry_sector i ≠ j_entry_sector j := by
  rw [entry_sector_eq hi, entry_sector_eq hj]
  omega

/-- The first four writes leave the other entries as they were. -/
theorem tenta_alvo_outra (ht : meta_tail m.jmeta < J_MAX_ENTRIES) (hs : Fora (setor sec)) {i : Nat}
    (hi : i < J_MAX_ENTRIES) (hne : i ≠ meta_tail m.jmeta) :
    tenta_alvo ok m d sec data (j_entry_sector i) = d (j_entry_sector i) ∧
      tenta_alvo ok m d sec data (j_entry_sector i + 1) = d (j_entry_sector i + 1) := by
  have h1 := entry_ne_entry hi ht hne
  have h2 := entry_data_ne_entry (meta_tail m.jmeta) i
  have h3 := entry_data_ne_entry i (meta_tail m.jmeta)
  unfold tenta_alvo tenta_meta tenta_dado tenta_hdr da_vez
  constructor
  · rw [attempt_of_ne _ _ _ (fora_ne_entry hs i).symm, attempt_of_ne _ _ _ (entry_ne_meta i),
      attempt_of_ne _ _ _ h2.symm, attempt_of_ne _ _ _ h1]
  · rw [attempt_of_ne _ _ _ (fora_ne_entry_data hs i).symm, attempt_of_ne _ _ _ (entry_data_ne_meta i),
      attempt_of_ne _ _ _ (by omega), attempt_of_ne _ _ _ h3]

theorem tenta_alvo_hdr (hs : Fora (setor sec)) :
    tenta_alvo ok m d sec data (j_entry_sector (meta_tail m.jmeta)) =
      if ok 0 then hdr_novo (meta_next_txid m.jmeta) sec 0 (djb2 data)
      else d (j_entry_sector (meta_tail m.jmeta)) := by
  unfold tenta_alvo tenta_meta tenta_dado tenta_hdr da_vez
  rw [attempt_of_ne _ _ _ (fora_ne_entry hs _).symm, attempt_of_ne _ _ _ (entry_ne_meta _),
    attempt_of_ne _ _ _ (Nat.succ_ne_self _).symm, attempt_self]

theorem tenta_alvo_dado (hs : Fora (setor sec)) (h1 : ok 1 = true) :
    tenta_alvo ok m d sec data (j_entry_sector (meta_tail m.jmeta) + 1) = data := by
  unfold tenta_alvo tenta_meta tenta_dado da_vez
  rw [attempt_of_ne _ _ _ (fora_ne_entry_data hs _).symm, attempt_of_ne _ _ _ (entry_data_ne_meta _),
    attempt_self, if_pos h1]

theorem tenta_alvo_meta (hs : Fora (setor sec)) :
    tenta_alvo ok m d sec data J_META_SECTOR =
      if ok 2 then proxima_meta m.jmeta else d J_META_SECTOR := by
  unfold tenta_alvo tenta_meta tenta_dado tenta_hdr da_vez
  rw [attempt_of_ne _ _ _ (fora_ne_meta hs).symm, attempt_self,
    attempt_of_ne _ _ _ (entry_data_ne_meta _).symm, attempt_of_ne _ _ _ (entry_ne_meta _).symm]

theorem procura_some {x : Nat} {d : Disco} {js : List Nat} {j : Nat} (h : procura x d js = some j) :
    j ∈ js ∧ Procurada x d j :=
  ⟨List.mem_of_find?_eq_some h, of_decide_eq_true (List.find?_some (p := fun j => decide (Procurada x d j)) h)⟩

/-- With the header written and no other entry with its id in front, the commit marks the entry of the
call. -/
theorem achada_da_vez (ht : meta_tail m.jmeta < J_MAX_ENTRIES) (hs : Fora (setor sec))
    (h0 : ok 0 = true)
    (hd : ∀ j < meta_tail m.jmeta, ¬ Procurada (meta_next_txid m.jmeta) d j) :
    achada ok m d sec data = some (meta_tail m.jmeta) := by
  have hown : Procurada (meta_next_txid m.jmeta) (tenta_alvo ok m d sec data) (meta_tail m.jmeta) := by
    rw [Procurada, tenta_alvo_hdr hs, if_pos h0, hdr_novo_txid, hdr_novo_committed, Nat.zero_mod]
    exact ⟨Nat.mod_eq_of_lt (next_txid_lt _), rfl⟩
  refine List.find?_range_eq_some.mpr ⟨decide_eq_true hown, List.mem_range.mpr ht, fun j hj => ?_⟩
  have hout : tenta_alvo ok m d sec data (j_entry_sector j) = d (j_entry_sector j) :=
    (tenta_alvo_outra ht hs (Nat.lt_trans hj ht) hj.ne).1
  have hn := hd j hj
  rw [Procurada, ← hout] at hn
  rw [Bool.not_eq_true', decide_eq_false_iff_not]
  exact hn

/-- The mark leaves an entry of another transaction alone, and shows on the one that it hits. -/
theorem tenta_marca_entry {i : Nat} (h : hdr_txid (tenta_alvo ok m d sec data (j_entry_sector i)) ≠
      meta_next_txid m.jmeta ∨ hdr_committed (tenta_marca ok m d sec data (j_entry_sector i)) = 0) :
    tenta_marca ok m d sec data (j_entry_sector i) = tenta_alvo ok m d sec data (j_entry_sector i) := by
  unfold tenta_marca at h ⊢
  rcases ha : achada ok m d sec data with _ | j
  · rfl
  rw [ha] at h
  dsimp only at h ⊢
  by_cases he : j_entry_sector i = j_entry_sector j
  · rw [he, attempt_self] at h ⊢
    split
    · rename_i hok
      rw [if_pos hok, committed_por_committed] at h
      exact h.elim (fun hne => absurd (procura_some ha).2.1 hne) fun h1 => absurd h1 (by decide)
    · rfl
  · exact attempt_of_ne _ _ _ he

theorem tenta_marca_of_ne {s : Nat} (h : ∀ j, s ≠ j_entry_sector j) :
    tenta_marca ok m d sec data s = tenta_alvo ok m d sec data s := by
  unfold tenta_marca
  rcases achada ok m d sec data with _ | j
  · rfl
  · exact attempt_of_ne _ _ _ (h j)

section Depois

variable {m' : Mem} {d' : Disco}

theorem Depois.of_ne (h : Depois ok m d sec data m' d') {s : Nat} (hs : s ≠ J_META_SECTOR) :
    d' s = tenta_marca ok m d sec data s := by
  rw [h.disco]
  exact attempt_of_ne _ _ _ hs

/-- The meta sector of the disk is an old one or that of the memory. -/
theorem Depois.meta_sector (h : Depois ok m d sec data m' d') (hs : Fora (setor sec)) :
    d' J_META_SECTOR = if ok (ultimo ok m d sec data) then m'.jmeta
      else if ok 2 then proxima_meta m.jmeta else d J_META_SECTOR := by
  rw [h.disco, attempt_self, tenta_marca_of_ne fun j => (entry_ne_meta j).symm, tenta_alvo_meta hs]

theorem Depois.pendente (h : Depois ok m d sec data m' d') {i : Nat}
    (hc : hdr_committed (d' (j_entry_sector i)) = 0) :
    d' (j_entry_sector i) = tenta_alvo ok m d sec data (j_entry_sector i) := by
  rw [h.of_ne (entry_ne_meta i)] at hc ⊢
  exact tenta_marca_entry (Or.inr hc)

theorem Depois.metaBoa (h : Depois ok m d sec data m' d') (hm : MetaBoa m.jmeta) :
    MetaBoa m'.jmeta :=
  ⟨h.avanco.magic.trans hm.proxima.magic, h.avanco.head, h.avanco.tail ▸ hm.proxima.tail⟩

/-- An entry that was in the log when its meta sector was written is in the log of the memory until
it is committed. -/
theorem Depois.no_log (h : Depois ok m d sec data m' d') {i : Nat}
    (hi : NoLog (meta_head (proxima_meta m.jmeta)) (meta_tail (proxima_meta m.jmeta)) i)
    (hc : hdr_committed (tenta_marca ok m d sec data (j_entry_sector i)) = 0) :
    NoLog (meta_head m'.jmeta) (meta_tail m'.jmeta) i := by
  rw [h.avanco.tail]
  exact h.avanco.fica i hi hc

/-- And in the log of the disk, if it was there before or one of the meta sectors was written. -/
theorem Depois.no_log_disco (h : Depois ok m d sec data m' d') (hs : Fora (setor sec)) {i : Nat}
    (hi : NoLog (meta_head (proxima_meta m.jmeta)) (meta_tail (proxima_meta m.jmeta)) i)
    (hc : hdr_committed (tenta_marca ok m d sec data (j_entry_sector i)) = 0)
    (ho : ok (ultimo ok m d sec data) = false → ok 2 = false →
      NoLog (meta_head (d J_META_SECTOR)) (meta_tail (d J_META_SECTOR)) i) :
    NoLog (meta_head (d' J_META_SECTOR)) (meta_tail (d' J_META_SECTOR)) i := by
  rw [h.meta_sector hs]
  split
  · exact h.no_log hi hc
  split
  · exact hi
  · rename_i h5 h2
    exact ho (Bool.eq_false_iff.mpr h5) (Bool.eq_false_iff.mpr h2)

/-- The log after the call holds no entry but those of before and the new one. -/
theorem Depois.no_log_antes (h : Depois ok m d sec data m' d') (hm : MetaBoa m.jmeta)
    (hs : Fora (setor sec)) {i : Nat} (hne : i ≠ meta_tail m.jmeta)
    (hi : NoLog (meta_head m'.jmeta) (meta_tail m'.jmeta) i ∨
      NoLog (meta_head (d' J_META_SECTOR)) (meta_tail (d' J_META_SECTOR)) i) :
    NoLog (meta_head m.jmeta) (meta_tail m.jmeta) i ∨
      NoLog (meta_head (d J_META_SECTOR)) (meta_tail (d J_META_SECTOR)) i := by
  have hp : NoLog (meta_head (proxima_meta m.jmeta)) (meta_tail (proxima_meta m.jmeta)) i →
      NoLog (meta_head m.jmeta) (meta_tail m.jmeta) i := by
    rw [proxima_meta, head_por_next_txid, head_por_tail, tail_por_next_txid, tail_por_tail, proximo_mod]
    exact fun h => (noLog_proximo_tail hm.head hm.tail h).resolve_right hne
  have hm' : NoLog (meta_head m'.jmeta) (meta_tail m'.jmeta) i →
      NoLog (meta_head m.jmeta) (meta_tail m.jmeta) i := by
    rw [h.avanco.tail]
    exact fun h' => hp (h.avanco.antes i h')
  rw [h.meta_sector hs] at hi
  rcases hi with hi | hi
  · exact Or.inl (hm' hi)
  split at hi
  · exact Or.inl (hm' hi)
  split at hi
  · exact Or.inl (hp hi)
  · exact Or.inr hi

end Depois

end Chamada

/-! ## The writes that wait in the log -/

/-- The failures of one call that the log stands, while the writes `ps` wait in it. Writes 0, 1, 2
are those of `journal_begin`, write 3 is that of the block, write 4 that of the commit mark, and a
last one is of the meta sector. -/
structure Suporta (ok : Nat → Bool) (ps : List (Nat × Setor)) (m : Mem) (d : Disco) (sec : Nat) :
    Prop where
  /-- The block is outside the log. -/
  alvo : Fora (setor sec)
  /-- The ring has room, if a write waits in it. -/
  vaga : ps ≠ [] ∨ ok 3 = false → proximo (meta_tail m.jmeta) ≠ meta_head m.jmeta
  /-- Without the block, the entry is on the disk and in its log, and the mark is not made. -/
  perda : ok 3 = false → ok 0 = true ∧ ok 1 = true ∧ (ok 2 = true ∨ ok 5 = true) ∧ ok 4 = false
  /-- With block and mark, the mark is of this entry, or of none if there is no entry. -/
  marca : ok 3 = true → ok 4 = true →
    (ok 0 = true ∧ ok 1 = true ∧
      ∀ j < meta_tail m.jmeta, ¬ Procurada (meta_next_txid m.jmeta) d j) ∨
    (ok 0 = false ∧ ∀ j < J_MAX_ENTRIES, ¬ Procurada (meta_next_txid m.jmeta) d j)
  /-- Without the header, what was in its place does no harm. -/
  resto : ok 0 = false → AlvoFora d (meta_tail m.jmeta)

/-- Between two calls: the writes of `ps` wait in the log, of the memory and of the disk. -/
structure Retem (ps : List (Nat × Setor)) (m : Mem) (d : Disco) : Prop where
  j_ok : m.j_ok = true
  memoria : MetaBoa m.jmeta
  disco : MetaBoa (d J_META_SECTOR)
  alvos : ∀ i, NoLog (meta_head m.jmeta) (meta_tail m.jmeta) i ∨
    NoLog (meta_head (d J_META_SECTOR)) (meta_tail (d J_META_SECTOR)) i → AlvoFora d i
  cada : ∀ p ∈ ps, ∃ i, Espera d m.jmeta p i ∧ Espera d (d J_META_SECTOR) p i ∧
    hdr_txid (d (j_entry_sector i)) =
      (meta_next_txid m.jmeta + 2 ^ 32 - distancia i (meta_tail m.jmeta)) % 2 ^ 32

section Retem

variable {ok : Nat → Bool} {ps : List (Nat × Setor)} {m m' : Mem} {d d' : Disco} {sec : Nat}
  {data : Setor}

theorem Quieto.retem (hq : Quieto d) (hm : Em m d) : Retem [] m d := by
  have hb : MetaBoa (d J_META_SECTOR) := ⟨hq.magic, hq.head ▸ hq.tail_lt, hq.tail_lt⟩
  refine ⟨hm.ok, hm.jmeta ▸ hb, hb, fun i hi => ?_, fun p hp => absurd hp List.not_mem_nil⟩
  rw [hm.jmeta, hq.head, or_self] at hi
  exact absurd hi noLog_vazio

theorem Suporta.marcaCerta (h : Suporta ok ps m d sec) (hm : MetaBoa m.jmeta) {j : Nat}
    (hj : achada ok m d sec data = some j) (h4 : ok 4 = true) :
    MarcaCerta (j_entry_sector j) (hdr_por_committed (tenta_alvo ok m d sec data (j_entry_sector j)) 1)
      (tenta_alvo ok m d sec data) := by
  have h3 : ok 3 = true := by
    by_contra h3
    have := (h.perda (Bool.eq_false_iff.mpr h3)).2.2.2
    rw [h4] at this
    cases this
  rcases h.marca h3 h4 with ⟨h0, h1, hd⟩ | ⟨h0, hd⟩
  · rw [achada_da_vez hm.tail h.alvo h0 hd] at hj
    cases hj
    intro _ _ _
    rw [tenta_alvo_hdr h.alvo, if_pos h0, block_num_por_committed, hdr_novo_block_num, setor_mod,
      tenta_alvo_dado h.alvo h1]
    unfold tenta_alvo
    rw [attempt_self, if_pos h3]
  · -- no header on the disk has the id, so there is no mark
    obtain ⟨hmem, hp⟩ := procura_some hj
    have hj31 := List.mem_range.mp hmem
    refine absurd ?_ (hd j hj31)
    have hh : tenta_alvo ok m d sec data (j_entry_sector j) = d (j_entry_sector j) := by
      by_cases hne : j = meta_tail m.jmeta
      · rw [hne, tenta_alvo_hdr h.alvo, h0, if_neg (by decide)]
      · exact (tenta_alvo_outra hm.tail h.alvo hj31 hne).1
    rw [Procurada, hh] at hp
    exact hp

theorem Depois.alvos (hd : Depois ok m d sec data m' d') (h : Retem ps m d)
    (hc : Suporta ok ps m d sec) {i : Nat}
    (hi : NoLog (meta_head m'.jmeta) (meta_tail m'.jmeta) i ∨
      NoLog (meta_head (d' J_META_SECTOR)) (meta_tail (d' J_META_SECTOR)) i) : AlvoFora d' i := by
  intro hc0
  have he := hd.pendente hc0
  rw [he] at hc0 ⊢
  by_cases hne : i = meta_tail m.jmeta
  · rw [hne, tenta_alvo_hdr hc.alvo] at hc0 ⊢
    split at hc0
    · rw [if_pos ‹_›, hdr_novo_block_num, setor_mod]
      exact hc.alvo
    · rename_i h0
      rw [if_neg h0]
      exact hc.resto (Bool.eq_false_iff.mpr h0) hc0
  · have hi31 : i < J_MAX_ENTRIES := hi.elim (fun h => h.1) fun h => h.1
    rw [(tenta_alvo_outra h.memoria.tail hc.alvo hi31 hne).1] at hc0 ⊢
    exact h.alvos i (hd.no_log_antes h.memoria hc.alvo hne hi) hc0

/-- The id of an entry that waits is not the next one. -/
theorem txid_que_espera {next dist : Nat} (hn : next < 2 ^ 32) (h0 : 0 < dist)
    (hd : dist < J_MAX_ENTRIES) : (next + 2 ^ 32 - dist) % 2 ^ 32 ≠ next := by
  simp only [J_MAX_ENTRIES] at hd
  omega

theorem proxima_txid (s : Setor) :
    meta_next_txid (proxima_meta s) = (meta_next_txid s + 1) % 2 ^ 32 := by
  rw [proxima_meta, next_txid_por_next_txid]

theorem proxima_tail (s : Setor) : meta_tail (proxima_meta s) = proximo (meta_tail s) := by
  rw [proxima_meta, tail_por_next_txid, tail_por_tail, proximo_mod]

theorem proxima_head (s : Setor) : meta_head (proxima_meta s) = meta_head s := by
  rw [proxima_meta, head_por_next_txid, head_por_tail]

/-- What waits in the log still does after a call. -/
theorem Depois.cada (hd : Depois ok m d sec data m' d') (h : Retem ps m d)
    (hc : Suporta ok ps m d sec) {p : Nat × Setor} (hp : p ∈ ps) :
    ∃ i, Espera d' m'.jmeta p i ∧ Espera d' (d' J_META_SECTOR) p i ∧
      hdr_txid (d' (j_entry_sector i)) =
        (meta_next_txid m'.jmeta + 2 ^ 32 - distancia i (meta_tail m'.jmeta)) % 2 ^ 32 := by
  obtain ⟨i, he, he', hx⟩ := h.cada p hp
  have hh := h.memoria.head
  have ht := h.memoria.tail
  have hv := hc.vaga (Or.inl (List.ne_nil_of_mem hp))
  have hdist := he.no_log.distancia_tail hh ht
  have hout : tenta_alvo ok m d sec data (j_entry_sector i) = d (j_entry_sector i) ∧
      tenta_alvo ok m d sec data (j_entry_sector i + 1) = d (j_entry_sector i + 1) :=
    tenta_alvo_outra ht hc.alvo he.no_log.1 he.no_log.ne_tail
  have hn := next_txid_lt m.jmeta
  have hmarca : tenta_marca ok m d sec data (j_entry_sector i) = d (j_entry_sector i) := by
    rw [tenta_marca_entry (Or.inl ?_), hout.1]
    rw [hout.1, hx]
    exact txid_que_espera hn hdist.1 hdist.2
  have hhdr : d' (j_entry_sector i) = d (j_entry_sector i) :=
    (hd.of_ne (entry_ne_meta i)).trans hmarca
  have hdado : d' (j_entry_sector i + 1) = d (j_entry_sector i + 1) := by
    rw [hd.of_ne (entry_data_ne_meta i), tenta_marca_of_ne (entry_data_ne_entry i), hout.2]
  have hpend : hdr_committed (tenta_marca ok m d sec data (j_entry_sector i)) = 0 := by
    rw [hmarca]
    exact he.pendente
  have hno : NoLog (meta_head (proxima_meta m.jmeta)) (meta_tail (proxima_meta m.jmeta)) i := by
    rw [proxima_head, proxima_tail]
    exact NoLog.proximo_tail hh ht hv (Or.inl he.no_log)
  refine ⟨i, ⟨hd.no_log hno hpend, ?_, ?_, ?_⟩,
    ⟨hd.no_log_disco hc.alvo hno hpend fun _ _ => he'.no_log, ?_, ?_, ?_⟩, ?_⟩
  · rw [hhdr]; exact he.pendente
  · rw [hhdr]; exact he.bloco
  · rw [hdado]; exact he.dado
  · rw [hhdr]; exact he.pendente
  · rw [hhdr]; exact he.bloco
  · rw [hdado]; exact he.dado
  · rw [hhdr, hx, hd.avanco.next_txid, hd.avanco.tail, proxima_txid, proxima_tail,
      he.no_log.distancia_proximo hh ht hv]
    have := hdist.2
    simp only [J_MAX_ENTRIES] at this
    omega

/-- A write that does not reach its block waits in the log. -/
theorem Depois.perdida (hd : Depois ok m d sec data m' d') (h : Retem ps m d)
    (hc : Suporta ok ps m d sec) (h3 : ok 3 = false) :
    ∃ i, Espera d' m'.jmeta (setor sec, data) i ∧ Espera d' (d' J_META_SECTOR) (setor sec, data) i ∧
      hdr_txid (d' (j_entry_sector i)) =
        (meta_next_txid m'.jmeta + 2 ^ 32 - distancia i (meta_tail m'.jmeta)) % 2 ^ 32 := by
  obtain ⟨h0, h1, hmeta, h4⟩ := hc.perda h3
  have hh := h.memoria.head
  have ht := h.memoria.tail
  have hv := hc.vaga (Or.inr h3)
  have hn := next_txid_lt m.jmeta
  have halvo : tenta_alvo ok m d sec data (j_entry_sector (meta_tail m.jmeta)) =
      hdr_novo (meta_next_txid m.jmeta) sec 0 (djb2 data) := by rw [tenta_alvo_hdr hc.alvo, if_pos h0]
  -- there is an entry to mark, and the mark fails
  have hown : Procurada (meta_next_txid m.jmeta) (tenta_alvo ok m d sec data) (meta_tail m.jmeta) := by
    rw [Procurada, halvo, hdr_novo_txid, hdr_novo_committed]
    exact ⟨Nat.mod_eq_of_lt hn, rfl⟩
  obtain ⟨j, hj⟩ : ∃ j, achada ok m d sec data = some j := by
    rw [← Option.isSome_iff_exists, achada, procura, List.find?_isSome]
    exact ⟨_, List.mem_range.mpr ht, decide_eq_true hown⟩
  have hult : ultimo ok m d sec data = 5 := by rw [ultimo, hj]; rfl
  have hmarca : tenta_marca ok m d sec data = tenta_alvo ok m d sec data := by
    unfold tenta_marca
    rw [hj]
    dsimp only
    rw [h4]
    rfl
  have hhdr : d' (j_entry_sector (meta_tail m.jmeta)) =
      hdr_novo (meta_next_txid m.jmeta) sec 0 (djb2 data) := by
    rw [hd.of_ne (entry_ne_meta _), hmarca, halvo]
  have hdado : d' (j_entry_sector (meta_tail m.jmeta) + 1) = data := by
    rw [hd.of_ne (entry_data_ne_meta _), hmarca, tenta_alvo_dado hc.alvo h1]
  have hpend : hdr_committed (tenta_marca ok m d sec data (j_entry_sector (meta_tail m.jmeta))) = 0 := by
    rw [hmarca]
    exact hown.2
  have hno : NoLog (meta_head (proxima_meta m.jmeta)) (meta_tail (proxima_meta m.jmeta))
      (meta_tail m.jmeta) := by
    rw [proxima_head, proxima_tail]
    exact NoLog.proximo_tail hh ht hv (Or.inr rfl)
  have hdisk := hd.no_log_disco hc.alvo hno hpend fun h5 h2 => by
    rw [hult] at h5
    rw [h5, h2] at hmeta
    exact absurd hmeta (by decide)
  refine ⟨meta_tail m.jmeta, ⟨hd.no_log hno hpend, ?_, ?_, hdado⟩, ⟨hdisk, ?_, ?_, hdado⟩, ?_⟩
  · rw [hhdr, hdr_novo_committed, Nat.zero_mod]
  · rw [hhdr, hdr_novo_block_num, setor_mod]
  · rw [hhdr, hdr_novo_committed, Nat.zero_mod]
  · rw [hhdr, hdr_novo_block_num, setor_mod]
  · rw [hhdr, hdr_novo_txid, hd.avanco.next_txid, hd.avanco.tail, proxima_txid, proxima_tail,
      distancia_self_proximo ht]
    omega

/-- One call keeps the writes that wait, and adds its own if its block was not written. -/
theorem Depois.retem (hd : Depois ok m d sec data m' d') (h : Retem ps m d)
    (hc : Suporta ok ps m d sec) :
    Retem (if ok 3 then ps else ps ++ [(setor sec, data)]) m' d' := by
  refine ⟨hd.j_ok, hd.metaBoa h.memoria, ?_, fun i hi => hd.alvos h hc hi, fun p hp => ?_⟩
  · rw [hd.meta_sector hc.alvo]
    split
    · exact hd.metaBoa h.memoria
    split
    · exact h.memoria.proxima
    · exact h.disco
  · split at hp
    · exact hd.cada h hc hp
    · rename_i h3
      rcases List.mem_append.mp hp with hp | hp
      · exact hd.cada h hc hp
      · obtain rfl := List.mem_singleton.mp hp
        exact hd.perdida h hc (Bool.eq_false_iff.mpr h3)

end Retem

/-! ## Runs with failing writes -/

/-- Runs of calls from a state of the log without failures, where writes fail as the log stands it; the
list holds the calls whose block was not written. -/
inductive Falhas : List (Nat × Setor) → Mem → Disco → Prop
  | inicio {d v : Disco} {m : Mem} (h : Alcanca d m v) : Falhas [] m d
  | escrita {ps : List (Nat × Setor)} {m m' : Mem} {d d' : Disco} {ok : Nat → Bool} {sec i : Nat}
    {data : Setor} {ret : Bool} (h : Falhas ps m d) (hc : Suporta ok ps m d sec)
    (he : ((sfs_write_sec sec data).run m).execWith ok 0 d = some ((ret, m'), i, d')) :
    Falhas (if ret then ps else ps ++ [(setor sec, data)]) m' d'

theorem Retem.chama {ps : List (Nat × Setor)} {m : Mem} {d : Disco} {ok : Nat → Bool} {sec : Nat}
    (h : Retem ps m d) (hc : Suporta ok ps m d sec) (data : Setor) :
    (∃ m' i d', ((sfs_write_sec sec data).run m).execWith ok 0 d = some ((ok 3, m'), i, d') ∧
      Retem (if ok 3 then ps else ps ++ [(setor sec, data)]) m' d') ∧
    ∀ w ∈ ((sfs_write_sec sec data).run m).effects ok 0 d, MarcaCerta w.1 w.2.1 w.2.2 := by
  have hw := (wpWith_sfs_write_sec soMarcas_marcaCerta
    (fun j (hj : achada ok m d sec data = some j) h4 => hc.marcaCerta h.memoria hj h4)
    h.j_ok h.memoria hc.alvo).exec
  obtain ⟨⟨⟨ret, m'⟩, i, d', he, hret, hd⟩, hm⟩ := hw
  dsimp only at hret hd
  subst hret
  exact ⟨⟨m', i, d', he, hd.retem h hc⟩, hm⟩

theorem Falhas.retem {ps : List (Nat × Setor)} {m : Mem} {d : Disco} (h : Falhas ps m d) :
    Retem ps m d := by
  induction h with
  | inicio h =>
    obtain ⟨hq, hm, _⟩ := alcanca_quieto h
    exact hq.retem hm
  | @escrita ps m m' d d' ok sec i data ret _ hc he ih =>
    obtain ⟨⟨m2, i2, d2, he2, hr⟩, _⟩ := ih.chama hc data
    rw [he] at he2
    cases he2
    exact hr

/-- In every run with such failures, a write whose block was not written waits in `[head, tail)`, not
committed, and the next replay does it, of the running kernel or at the next boot; the next call
returns, and marks no entry whose data is not in its block. -/
theorem a_lost_write_stays_in_the_log {ps : List (Nat × Setor)} {m : Mem} {d : Disco}
    (h : Falhas ps m d) :
    (∀ p ∈ ps, (∃ i, Espera d m.jmeta p i ∧ Espera d (d J_META_SECTOR) p i) ∧
      p ∈ (journal_recover.run m).writes d ∧ p ∈ (journal_boot.run Mem.boot).writes d) ∧
    ∀ ok sec data, Suporta ok ps m d sec →
      (∃ m' i d', ((sfs_write_sec sec data).run m).execWith ok 0 d = some ((ok 3, m'), i, d')) ∧
      ∀ w ∈ ((sfs_write_sec sec data).run m).effects ok 0 d, MarcaCerta w.1 w.2.1 w.2.2 := by
  have hr := h.retem
  refine ⟨fun p hp => ?_, fun ok sec data hc => ?_⟩
  · obtain ⟨i, he, he', _⟩ := hr.cada p hp
    have hm : m = ⟨m.jmeta, true⟩ := by rw [← hr.j_ok]
    refine ⟨⟨i, he, he'⟩, ?_, ?_⟩
    · rw [hm]
      exact he.reposta hr.memoria fun j hj => hr.alvos j (Or.inl hj)
    · exact he'.reposta_no_boot hr.disco fun j hj => hr.alvos j (Or.inr hj)
  · obtain ⟨⟨m', i, d', he, _⟩, hw⟩ := hr.chama hc data
    exact ⟨⟨m', i, d', he⟩, hw⟩

/-- A blank disk with a fresh log. -/
def disco_novo : Disco := update (fun _ => ByteStr.zero) J_META_SECTOR meta_vazia

theorem alcanca_disco_novo : Alcanca disco_novo ⟨meta_vazia, true⟩ fun _ => ByteStr.zero := by
  have hi : Does journal_init Mem.boot (fun _ => ByteStr.zero) () ⟨meta_vazia, true⟩
      disco_novo (fun _ => True) := does_journal_init_novo (by decide) trivial trivial
  exact .inicio (by decide) hi.exec_eq

theorem meta_vazia_campos : meta_head meta_vazia = 0 ∧ meta_tail meta_vazia = 0 ∧
    meta_next_txid meta_vazia = 0 :=
  ⟨meta_vazia_zero (by decide) (by decide), meta_vazia_zero (by decide) (by decide),
    meta_vazia_zero (by decide) (by decide)⟩

/-- The first call, where the writes of the block and of the mark fail. -/
theorem a_lost_write_stays_in_a_fresh_log : ∃ m d, Falhas [(99, meta_vazia)] m d ∧
    (99, meta_vazia) ∈ (journal_boot.run Mem.boot).writes d := by
  have hf : Falhas [] ⟨meta_vazia, true⟩ disco_novo := .inicio alcanca_disco_novo
  obtain ⟨hh, ht, _⟩ := meta_vazia_campos
  have hc : Suporta (fun i => i ≠ 3 ∧ i ≠ 4) [] ⟨meta_vazia, true⟩ disco_novo 99 := by
    refine ⟨Or.inr (by decide), fun _ => ?_, fun _ => by decide, fun h => absurd h (by decide),
      fun h => absurd h (by decide)⟩
    rw [hh, ht]
    decide
  obtain ⟨m', i, d', he⟩ := ((a_lost_write_stays_in_the_log hf).2 _ 99 meta_vazia hc).1
  have hf' : Falhas [(99, meta_vazia)] m' d' := .escrita hf hc he
  exact ⟨m', d', hf', ((a_lost_write_stays_in_the_log hf').1 _ List.mem_cons_self).2.2⟩

/-- Only the write of the block fails: the entry is committed, and the log is empty. -/
theorem Depois.esquece {m m' : Mem} {d d' : Disco} {sec : Nat} {data : Setor} (hq : Quieto d)
    (hm : Em m d) (hs : Fora (setor sec)) (h : Depois (fun i => i ≠ 3) m d sec data m' d') :
    meta_head m'.jmeta = meta_tail m'.jmeta := by
  have hb : MetaBoa m.jmeta := (hq.retem hm).memoria
  have hhead : meta_head m.jmeta = meta_tail m.jmeta := by rw [hm.jmeta, hq.head]
  have hnone : ∀ j < meta_tail m.jmeta, ¬ Procurada (meta_next_txid m.jmeta) d j := by
    rw [hm.jmeta]
    intro j hj hp
    have := hq.txids j hj
    have htl := hq.tail_lt
    have hn := next_txid_lt (d J_META_SECTOR)
    rw [hp.1] at this
    simp only [J_MAX_ENTRIES] at htl
    omega
  have hmarca : hdr_committed (tenta_marca (fun i => i ≠ 3) m d sec data
      (j_entry_sector (meta_tail m.jmeta))) ≠ 0 := by
    unfold tenta_marca
    rw [achada_da_vez hb.tail hs rfl hnone]
    dsimp only
    rw [attempt_self, if_pos (by decide), committed_por_committed]
    decide
  by_contra hne
  have hi := h.avanco.antes (meta_head m'.jmeta) <| by
    rw [← h.avanco.tail]
    exact noLog_head h.avanco.head (h.metaBoa hb).tail hne
  rw [proxima_head, proxima_tail, hhead] at hi
  have hlast := (noLog_proximo_tail hb.tail hb.tail hi).resolve_left noLog_vazio
  rcases h.avanco.para with hp | hp
  · exact hne (hp.trans h.avanco.tail.symm)
  · rw [hlast] at hp
    exact hmarca hp

theorem a_lost_write_is_committed : ¬ ∀ d v m, Alcanca d m v → ∀ ok sec data, Fora (setor sec) →
    ∀ m' i d', ((sfs_write_sec sec data).run m).execWith ok 0 d = some ((false, m'), i, d') →
      (setor sec, data) ∈ (journal_recover.run m').writes d' := by
  intro hall
  obtain ⟨hq, hm, _⟩ := alcanca_quieto alcanca_disco_novo
  have hs : Fora (setor 99) := Or.inr (by decide)
  have hwp : WpWith (fun i => i ≠ 3) (fun _ _ _ => True) (sfs_write_sec 99 meta_vazia)
      ⟨meta_vazia, true⟩ 0 disco_novo fun ret m' _ d' =>
        ret = false ∧ Depois (fun i => i ≠ 3) ⟨meta_vazia, true⟩ disco_novo 99 meta_vazia m' d' :=
    wpWith_sfs_write_sec (fun _ _ _ _ => trivial) (fun _ _ _ => trivial) hm.ok
      (hq.retem hm).memoria hs
  obtain ⟨⟨⟨ret, m'⟩, i, d', he, hret, hd⟩, _⟩ := hwp.exec
  dsimp only at hret hd
  subst hret
  have hw := hall _ _ _ alcanca_disco_novo _ 99 meta_vazia hs m' i d' he
  have hempty : replay m' d' VOLTAS = [] := by
    rw [replay, if_pos hd.j_ok, hd.esquece hq hm hs]
    exact if_pos rfl
  rw [writes_journal_recover, hempty, List.map_nil, List.nil_append] at hw
  rcases hx : (journal_recover.run m').exec d' with _ | r
  · rw [hx] at hw
    exact absurd hw List.not_mem_nil
  · rw [hx, Option.elim_some, if_pos hd.j_ok] at hw
    have hsec : setor 99 = J_META_SECTOR := congrArg Prod.fst (List.mem_singleton.mp hw)
    exact absurd hsec (by decide)

end SpaceOS.Journal
