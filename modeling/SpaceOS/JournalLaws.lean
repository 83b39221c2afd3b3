-- The laws of the write-ahead log: a write through it either happens or does not, wherever
-- the power goes, also while the log is being replayed.
import SpaceOS.Journal

open Lib.Bytes Lib.BlockProg SpaceOS.Ata
open Function (update update_self update_of_ne)

namespace SpaceOS.Journal

/-! ## Fields and places -/

theorem entry_sector_bounds (j : Nat) : 36 ≤ j_entry_sector j ∧ j_entry_sector j ≤ 96 := by
  simp only [j_entry_sector, J_DATA_START, J_MAX_ENTRIES, J_ENTRY_SECS]
  omega

theorem entry_sector_eq {j : Nat} (h : j < J_MAX_ENTRIES) : j_entry_sector j = 36 + 2 * j := by
  simp only [j_entry_sector, J_DATA_START, J_ENTRY_SECS, Nat.mod_eq_of_lt h]
  omega

theorem setor_entry (j : Nat) : setor (j_entry_sector j) = j_entry_sector j :=
  setor_eq (by have := entry_sector_bounds j; omega)

theorem setor_entry_data (j : Nat) : setor (j_entry_sector j + 1) = j_entry_sector j + 1 :=
  setor_eq (by have := entry_sector_bounds j; omega)

theorem setor_meta : setor J_META_SECTOR = J_META_SECTOR := rfl

theorem proximo_lt (j : Nat) : proximo j < J_MAX_ENTRIES := Nat.mod_lt _ (by decide)

theorem proximo_cases {j : Nat} (h : j < J_MAX_ENTRIES) :
    (proximo j = j + 1 ∧ j + 1 < J_MAX_ENTRIES) ∨ (proximo j = 0 ∧ j + 1 = J_MAX_ENTRIES) := by
  simp only [proximo, J_MAX_ENTRIES] at *
  omega

theorem proximo_ne {j : Nat} (h : j < J_MAX_ENTRIES) : proximo j ≠ j := by
  rcases proximo_cases h with h' | h'
  · omega
  · simp only [J_MAX_ENTRIES] at *
    omega

section Fields

variable (s : Setor) (v : Nat)

@[simp] theorem magic_por_magic : meta_magic (meta_por_magic s v) = v % 2 ^ 32 :=
  s.word_putWord_self v (by decide)

@[simp] theorem head_por_head : meta_head (meta_por_head s v) = v % 2 ^ 32 :=
  s.word_putWord_self v (by decide)

@[simp] theorem tail_por_tail : meta_tail (meta_por_tail s v) = v % 2 ^ 32 :=
  s.word_putWord_self v (by decide)

@[simp] theorem next_txid_por_next_txid : meta_next_txid (meta_por_next_txid s v) = v % 2 ^ 32 :=
  s.word_putWord_self v (by decide)

@[simp] theorem magic_por_head : meta_magic (meta_por_head s v) = meta_magic s :=
  s.word_putWord_ne v (by decide) (by decide)

@[simp] theorem tail_por_head : meta_tail (meta_por_head s v) = meta_tail s :=
  s.word_putWord_ne v (by decide) (by decide)

@[simp] theorem next_txid_por_head : meta_next_txid (meta_por_head s v) = meta_next_txid s :=
  s.word_putWord_ne v (by decide) (by decide)

@[simp] theorem magic_por_tail : meta_magic (meta_por_tail s v) = meta_magic s :=
  s.word_putWord_ne v (by decide) (by decide)

@[simp] theorem head_por_tail : meta_head (meta_por_tail s v) = meta_head s :=
  s.word_putWord_ne v (by decide) (by decide)

@[simp] theorem next_txid_por_tail : meta_next_txid (meta_por_tail s v) = meta_next_txid s :=
  s.word_putWord_ne v (by decide) (by decide)

@[simp] theorem magic_por_next_txid : meta_magic (meta_por_next_txid s v) = meta_magic s :=
  s.word_putWord_ne v (by decide) (by decide)

@[simp] theorem head_por_next_txid : meta_head (meta_por_next_txid s v) = meta_head s :=
  s.word_putWord_ne v (by decide) (by decide)

@[simp] theorem tail_por_next_txid : meta_tail (meta_por_next_txid s v) = meta_tail s :=
  s.word_putWord_ne v (by decide) (by decide)

@[simp] theorem txid_por_committed : hdr_txid (hdr_por_committed s v) = hdr_txid s :=
  s.word_putWord_ne v (by decide) (by decide)

@[simp] theorem block_num_por_committed : hdr_block_num (hdr_por_committed s v) = hdr_block_num s :=
  s.word_putWord_ne v (by decide) (by decide)

@[simp] theorem committed_por_committed : hdr_committed (hdr_por_committed s v) = v % 2 ^ 32 :=
  s.word_putWord_self v (by decide)

variable (txid block_num committed checksum : Nat)

@[simp] theorem hdr_novo_txid :
    hdr_txid (hdr_novo txid block_num committed checksum) = txid % 2 ^ 32 := by
  simp only [hdr_txid, hdr_novo]
  rw [ByteStr.word_putWord_ne _ _ (by decide) (by decide),
    ByteStr.word_putWord_ne _ _ (by decide) (by decide),
    ByteStr.word_putWord_ne _ _ (by decide) (by decide), ByteStr.word_putWord_self _ _ (by decide)]

@[simp] theorem hdr_novo_block_num :
    hdr_block_num (hdr_novo txid block_num committed checksum) = block_num % 2 ^ 32 := by
  simp only [hdr_block_num, hdr_novo]
  rw [ByteStr.word_putWord_ne _ _ (by decide) (by decide),
    ByteStr.word_putWord_ne _ _ (by decide) (by decide), ByteStr.word_putWord_self _ _ (by decide)]

@[simp] theorem hdr_novo_committed :
    hdr_committed (hdr_novo txid block_num committed checksum) = committed % 2 ^ 32 := by
  simp only [hdr_committed, hdr_novo]
  rw [ByteStr.word_putWord_ne _ _ (by decide) (by decide), ByteStr.word_putWord_self _ _ (by decide)]

end Fields

/-! ## What a disk can look like -/

/-- Sector `s` is not one of the log's. -/
def Fora (s : Nat) : Prop := s < 35 ∨ 98 < s

/-- Outside the log, the disk holds `v`. -/
def Mesmo (d v : Disco) : Prop := ∀ s, Fora s → d s = v s

/-- The ring: the entries below `tail` carry the ids just before the next one, so that no entry
ahead of `tail` can be taken for the next transaction. -/
structure Anel (d : Disco) : Prop where
  magic : meta_magic (d J_META_SECTOR) = J_MAGIC
  tail_lt : meta_tail (d J_META_SECTOR) < J_MAX_ENTRIES
  txids : ∀ j < meta_tail (d J_META_SECTOR), hdr_txid (d (j_entry_sector j)) =
    (meta_next_txid (d J_META_SECTOR) + 2 ^ 32 - (meta_tail (d J_META_SECTOR) - j)) % 2 ^ 32

/-- No entry is pending. -/
structure Quieto (d : Disco) : Prop extends Anel d where
  head : meta_head (d J_META_SECTOR) = meta_tail (d J_META_SECTOR)

/-- One entry is pending: it writes `data` to sector `alvo`, or its write is there already. -/
structure Pendente (d : Disco) (alvo : Nat) (data : Setor) : Prop extends Anel d where
  head_lt : meta_head (d J_META_SECTOR) < J_MAX_ENTRIES
  tail : meta_tail (d J_META_SECTOR) = proximo (meta_head (d J_META_SECTOR))
  bloco : setor (hdr_block_num (d (j_entry_sector (meta_head (d J_META_SECTOR))))) = alvo
  pendente : hdr_committed (d (j_entry_sector (meta_head (d J_META_SECTOR)))) = 0 →
    d (j_entry_sector (meta_head (d J_META_SECTOR)) + 1) = data
  feito : hdr_committed (d (j_entry_sector (meta_head (d J_META_SECTOR)))) ≠ 0 → d alvo = data

/-- What a power cut during a write of `data` to sector `alvo` of a disk that holds `v` leaves. -/
def Corte (v : Disco) (alvo : Nat) (data : Setor) (d : Disco) : Prop :=
  (Quieto d ∨ Pendente d alvo data) ∧ (Mesmo d v ∨ Mesmo d (update v alvo data))

theorem Mesmo.update_dentro {d v : Disco} (h : Mesmo d v) {s : Nat} (hs : ¬ Fora s) (b : Setor) :
    Mesmo (update d s b) v := fun x hx => by
  have hxs : x ≠ s := fun he => hs (he ▸ hx)
  rw [update_of_ne hxs]
  exact h x hx

theorem Mesmo.update_ambos {d v : Disco} (h : Mesmo d v) (s : Nat) (b : Setor) :
    Mesmo (update d s b) (update v s b) := fun x hx => by
  by_cases hxs : x = s
  · rw [hxs, update_self, update_self]
  · rw [update_of_ne hxs, update_of_ne hxs]
    exact h x hx

theorem Mesmo.update_igual {d v : Disco} {s : Nat} {b : Setor} (h : Mesmo d (update v s b)) :
    Mesmo (update d s b) (update v s b) := fun x hx => by
  by_cases hxs : x = s
  · rw [hxs, update_self, update_self]
  · rw [update_of_ne hxs]
    exact h x hx

theorem not_fora_meta : ¬ Fora J_META_SECTOR := by
  unfold Fora J_META_SECTOR
  omega

theorem not_fora_entry (j : Nat) : ¬ Fora (j_entry_sector j) := by
  have := entry_sector_bounds j
  unfold Fora
  omega

theorem not_fora_entry_data (j : Nat) : ¬ Fora (j_entry_sector j + 1) := by
  have := entry_sector_bounds j
  unfold Fora
  omega

theorem Anel.congr {d d' : Disco} (h : Anel d) (hm : d' J_META_SECTOR = d J_META_SECTOR)
    (hs : ∀ j < meta_tail (d J_META_SECTOR), d' (j_entry_sector j) = d (j_entry_sector j)) :
    Anel d' := by
  obtain ⟨h1, h2, h3⟩ := h
  rw [← hm] at h1 h2 h3 hs
  exact ⟨h1, h2, fun j hj => by rw [hs j hj]; exact h3 j hj⟩

/-! ## The six writes of `sfs_write_sec` -/

section Escrita

variable (d : Disco) (sec : Nat) (data : Setor)

/-- The entry that the next transaction takes. -/
def entrada : Nat := j_entry_sector (meta_tail (d J_META_SECTOR))

def hdr_da_vez : Setor := hdr_novo (meta_next_txid (d J_META_SECTOR)) sec 0 (djb2 data)

/-- The meta sector with the entry taken. -/
def meta_da_vez : Setor :=
  meta_por_next_txid
    (meta_por_tail (d J_META_SECTOR) (proximo (meta_tail (d J_META_SECTOR))))
    (meta_next_txid (d J_META_SECTOR) + 1)

def com_hdr : Disco := update d (entrada d) (hdr_da_vez d sec data)

def com_dado : Disco := update (com_hdr d sec data) (entrada d + 1) data

def com_meta : Disco := update (com_dado d sec data) J_META_SECTOR (meta_da_vez d)

def com_alvo : Disco := update (com_meta d sec data) (setor sec) data

def com_marca : Disco :=
  update (com_alvo d sec data) (entrada d) (hdr_por_committed (hdr_da_vez d sec data) 1)

def com_fim : Disco := update (com_marca d sec data) J_META_SECTOR
  (meta_por_head (meta_da_vez d) (proximo (meta_tail (d J_META_SECTOR))))

end Escrita

section Cortes

variable {d d' : Disco} {sec : Nat} {data : Setor}

theorem next_txid_lt (s : Setor) : meta_next_txid s < 2 ^ 32 := s.word_lt 12

theorem proximo_mod (j : Nat) : proximo j % 2 ^ 32 = proximo j :=
  Nat.mod_eq_of_lt (Nat.lt_trans (proximo_lt j) (by decide))

/-- The entry taken joins the ring. -/
theorem Anel.proximo (h : Anel d) (hm : meta_magic (d' J_META_SECTOR) = J_MAGIC)
    (ht : meta_tail (d' J_META_SECTOR) = proximo (meta_tail (d J_META_SECTOR)))
    (hn : meta_next_txid (d' J_META_SECTOR) = (meta_next_txid (d J_META_SECTOR) + 1) % 2 ^ 32)
    (hs : ∀ j < meta_tail (d J_META_SECTOR), d' (j_entry_sector j) = d (j_entry_sector j))
    (he : hdr_txid (d' (entrada d)) = meta_next_txid (d J_META_SECTOR)) : Anel d' := by
  have hx := next_txid_lt (d J_META_SECTOR)
  have htl := h.tail_lt
  refine ⟨hm, by rw [ht]; exact proximo_lt _, fun j hj => ?_⟩
  rw [ht] at hj
  rcases proximo_cases htl with ⟨hp, _⟩ | ⟨hp, _⟩
  · rw [ht, hn, hp]
    rw [hp] at hj
    by_cases hjt : j = meta_tail (d J_META_SECTOR)
    · rw [hjt]
      rw [entrada] at he
      rw [he]
      omega
    · have hjl : j < meta_tail (d J_META_SECTOR) := by omega
      rw [hs j hjl, h.txids j hjl]
      simp only [J_MAX_ENTRIES] at htl
      omega
  · omega

theorem fora_ne_entry {s : Nat} (hs : Fora s) (j : Nat) : s ≠ j_entry_sector j :=
  fun he => not_fora_entry j (he ▸ hs)

theorem fora_ne_entry_data {s : Nat} (hs : Fora s) (j : Nat) : s ≠ j_entry_sector j + 1 :=
  fun he => not_fora_entry_data j (he ▸ hs)

theorem fora_ne_meta {s : Nat} (hs : Fora s) : s ≠ J_META_SECTOR :=
  fun he => not_fora_meta (he ▸ hs)

theorem entry_ne_meta (j : Nat) : j_entry_sector j ≠ J_META_SECTOR := by
  have := entry_sector_bounds j
  unfold J_META_SECTOR
  omega

theorem entry_data_ne_meta (j : Nat) : j_entry_sector j + 1 ≠ J_META_SECTOR := by
  have := entry_sector_bounds j
  unfold J_META_SECTOR
  omega

/-- An earlier entry shares no sector with the one of `tail`. -/
theorem Anel.entry_ne (h : Anel d) {j : Nat} (hj : j < meta_tail (d J_META_SECTOR)) :
    j_entry_sector j ≠ entrada d ∧ j_entry_sector j ≠ entrada d + 1 := by
  have htl := h.tail_lt
  rw [entrada, entry_sector_eq htl, entry_sector_eq (Nat.lt_trans hj htl)]
  omega

theorem Quieto.congr (h : Quieto d) (hm : d' J_META_SECTOR = d J_META_SECTOR)
    (hs : ∀ j < meta_tail (d J_META_SECTOR), d' (j_entry_sector j) = d (j_entry_sector j)) :
    Quieto d' := ⟨h.toAnel.congr hm hs, by rw [hm]; exact h.head⟩

theorem setor_mod (n : Nat) : setor (n % 2 ^ 32) = setor n := by
  unfold setor
  omega

/-- With the entry taken and either its data in place or its write done, it is pending. -/
theorem Quieto.pendente (hq : Quieto d) (hm : d' J_META_SECTOR = meta_da_vez d)
    (hs : ∀ j < meta_tail (d J_META_SECTOR), d' (j_entry_sector j) = d (j_entry_sector j))
    (he : (d' (entrada d) = hdr_da_vez d sec data ∧ d' (entrada d + 1) = data) ∨
      (d' (entrada d) = hdr_por_committed (hdr_da_vez d sec data) 1 ∧ d' (setor sec) = data)) :
    Pendente d' (setor sec) data := by
  have hx := next_txid_lt (d J_META_SECTOR)
  have hhead : meta_head (d' J_META_SECTOR) = meta_tail (d J_META_SECTOR) := by
    rw [hm, meta_da_vez, head_por_next_txid, head_por_tail, hq.head]
  have htail : meta_tail (d' J_META_SECTOR) = proximo (meta_tail (d J_META_SECTOR)) := by
    rw [hm, meta_da_vez, tail_por_next_txid, tail_por_tail, proximo_mod]
  have hbloco : hdr_block_num (d' (entrada d)) = sec % 2 ^ 32 := by
    rcases he with ⟨he, _⟩ | ⟨he, _⟩ <;> simp [he, hdr_da_vez]
  have htxid : hdr_txid (d' (entrada d)) = meta_next_txid (d J_META_SECTOR) := by
    have : meta_next_txid (d J_META_SECTOR) % 2 ^ 32 = meta_next_txid (d J_META_SECTOR) :=
      Nat.mod_eq_of_lt hx
    rcases he with ⟨he, _⟩ | ⟨he, _⟩ <;> simpa [he, hdr_da_vez] using this
  have hanel : Anel d' := by
    refine hq.toAnel.proximo ?_ htail ?_ hs htxid
    · rw [hm, meta_da_vez, magic_por_next_txid, magic_por_tail, hq.magic]
    · rw [hm, meta_da_vez, next_txid_por_next_txid]
  have hent : j_entry_sector (meta_head (d' J_META_SECTOR)) = entrada d := by rw [hhead, entrada]
  refine ⟨hanel, by rw [hhead]; exact hq.tail_lt, by rw [htail, hhead], ?_, ?_, ?_⟩
  · rw [hent, hbloco, setor_mod]
  · rw [hent]
    intro h0
    rcases he with ⟨_, he⟩ | ⟨he, _⟩
    · exact he
    · rw [he, committed_por_committed] at h0
      exact absurd h0 (by decide)
  · rw [hent]
    intro h0
    rcases he with ⟨he, _⟩ | ⟨_, he⟩
    · rw [he, hdr_da_vez, hdr_novo_committed] at h0
      exact absurd rfl h0
    · exact he

/-- The sectors that the writes of one call touch, apart from each other. -/
structure Apartados (d : Disco) (alvo : Nat) : Prop where
  alvo_entrada : alvo ≠ entrada d
  alvo_dado : alvo ≠ entrada d + 1
  alvo_meta : alvo ≠ J_META_SECTOR
  entrada_meta : entrada d ≠ J_META_SECTOR
  dado_meta : entrada d + 1 ≠ J_META_SECTOR

theorem apartados (hs : Fora (setor sec)) : Apartados d (setor sec) :=
  ⟨fora_ne_entry hs _, fora_ne_entry_data hs _, fora_ne_meta hs, entry_ne_meta _,
    entry_data_ne_meta _⟩

theorem mesmo_com_dado : Mesmo (com_dado d sec data) d :=
  Mesmo.update_dentro (Mesmo.update_dentro (fun _ _ => rfl) (not_fora_entry _) _)
    (not_fora_entry_data _) _

theorem mesmo_com_alvo : Mesmo (com_alvo d sec data) (update d (setor sec) data) :=
  Mesmo.update_ambos (Mesmo.update_dentro mesmo_com_dado not_fora_meta _) _ _

theorem mesmo_com_marca : Mesmo (com_marca d sec data) (update d (setor sec) data) :=
  Mesmo.update_dentro mesmo_com_alvo (not_fora_entry _) _

theorem mesmo_com_fim : Mesmo (com_fim d sec data) (update d (setor sec) data) :=
  Mesmo.update_dentro mesmo_com_marca not_fora_meta _

/-- The writes of a call leave the entries ahead of `tail` as they were. -/
theorem com_marca_entry (hq : Quieto d) (hs : Fora (setor sec)) {j : Nat}
    (hj : j < meta_tail (d J_META_SECTOR)) :
    com_dado d sec data (j_entry_sector j) = d (j_entry_sector j) ∧
      com_alvo d sec data (j_entry_sector j) = d (j_entry_sector j) ∧
      com_fim d sec data (j_entry_sector j) = d (j_entry_sector j) := by
  obtain ⟨h1, h2⟩ := hq.toAnel.entry_ne hj
  have h3 := entry_ne_meta j
  have h4 := (fora_ne_entry hs j).symm
  simp [com_fim, com_marca, com_alvo, com_meta, com_dado, com_hdr, h1, h2, h3, h4]

theorem corte_com_hdr (hq : Quieto d) : Corte d (setor sec) data (com_hdr d sec data) := by
  refine ⟨Or.inl (hq.congr ?_ fun j hj => ?_), Or.inl ?_⟩
  · exact update_of_ne (entry_ne_meta _).symm _ _
  · exact update_of_ne (hq.toAnel.entry_ne hj).1 _ _
  · exact Mesmo.update_dentro (fun _ _ => rfl) (not_fora_entry _) _

theorem corte_com_dado (hq : Quieto d) (hs : Fora (setor sec)) :
    Corte d (setor sec) data (com_dado d sec data) := by
  refine ⟨Or.inl (hq.congr ?_ fun j hj => (com_marca_entry hq hs hj).1), Or.inl mesmo_com_dado⟩
  have ha : Apartados d _ := apartados hs
  simp [com_dado, com_hdr, ha.entrada_meta.symm, ha.dado_meta.symm]

theorem corte_com_meta (hq : Quieto d) (hs : Fora (setor sec)) :
    Corte d (setor sec) data (com_meta d sec data) := by
  have ha : Apartados d _ := apartados hs
  refine ⟨Or.inr (hq.pendente (update_self _ _ _) (fun j hj => ?_) (Or.inl ⟨?_, ?_⟩)),
    Or.inl (Mesmo.update_dentro mesmo_com_dado not_fora_meta _)⟩
  · rw [com_meta, update_of_ne (entry_ne_meta j)]
    exact (com_marca_entry hq hs hj).1
  · simp [com_meta, com_dado, com_hdr, ha.entrada_meta]
  · simp [com_meta, com_dado, ha.dado_meta]

theorem corte_com_alvo (hq : Quieto d) (hs : Fora (setor sec)) :
    Corte d (setor sec) data (com_alvo d sec data) := by
  have ha : Apartados d _ := apartados hs
  refine ⟨Or.inr (hq.pendente ?_ (fun j hj => (com_marca_entry hq hs hj).2.1) (Or.inl ⟨?_, ?_⟩)),
    Or.inr mesmo_com_alvo⟩
  · simp [com_alvo, com_meta, ha.alvo_meta.symm]
  · simp [com_alvo, com_meta, com_dado, com_hdr, ha.alvo_entrada.symm, ha.entrada_meta]
  · simp [com_alvo, com_meta, com_dado, ha.alvo_dado.symm, ha.dado_meta]

theorem corte_com_marca (hq : Quieto d) (hs : Fora (setor sec)) :
    Corte d (setor sec) data (com_marca d sec data) := by
  have ha : Apartados d _ := apartados hs
  refine ⟨Or.inr (hq.pendente ?_ (fun j hj => ?_) (Or.inr ⟨update_self _ _ _, ?_⟩)),
    Or.inr mesmo_com_marca⟩
  · simp [com_marca, com_alvo, com_meta, ha.entrada_meta.symm, ha.alvo_meta.symm]
  · rw [com_marca, update_of_ne (hq.toAnel.entry_ne hj).1]
    exact (com_marca_entry hq hs hj).2.1
  · simp [com_marca, com_alvo, ha.alvo_entrada]

theorem quieto_com_fim (hq : Quieto d) (hs : Fora (setor sec)) : Quieto (com_fim d sec data) := by
  have ha : Apartados d _ := apartados hs
  have hm : com_fim d sec data J_META_SECTOR =
    meta_por_head (meta_da_vez d) (proximo (meta_tail (d J_META_SECTOR))) := update_self _ _ _
  refine ⟨hq.toAnel.proximo ?_ ?_ ?_ (fun j hj => (com_marca_entry hq hs hj).2.2) ?_, ?_⟩
  · rw [hm, meta_da_vez, magic_por_head, magic_por_next_txid, magic_por_tail, hq.magic]
  · rw [hm, meta_da_vez, tail_por_head, tail_por_next_txid, tail_por_tail, proximo_mod]
  · rw [hm, meta_da_vez, next_txid_por_head, next_txid_por_next_txid]
  · have hx : meta_next_txid (d J_META_SECTOR) % 2 ^ 32 = meta_next_txid (d J_META_SECTOR) :=
      Nat.mod_eq_of_lt (next_txid_lt _)
    simpa [com_fim, com_marca, ha.entrada_meta, hdr_da_vez] using hx
  · rw [hm, head_por_head, proximo_mod, meta_da_vez, tail_por_head, tail_por_next_txid,
      tail_por_tail, proximo_mod]

theorem corte_com_fim (hq : Quieto d) (hs : Fora (setor sec)) :
    Corte d (setor sec) data (com_fim d sec data) :=
  ⟨Or.inl (quieto_com_fim hq hs), Or.inr mesmo_com_fim⟩

end Cortes

/-! ## What the functions do -/

section Spec

variable {C : Disco → Prop} {m : Mem} {d : Disco} {sec : Nat} {data : Setor}

theorem does_j_flush_meta (h : C d) (h' : C (update d J_META_SECTOR m.jmeta)) :
    Does j_flush_meta m d () m (update d J_META_SECTOR m.jmeta) C :=
  .get_bind (does_gravar1 h (.pure h'))

/-- The memory agrees with the meta sector. -/
structure Em (m : Mem) (d : Disco) : Prop where
  ok : m.j_ok = true
  jmeta : m.jmeta = d J_META_SECTOR

theorem em_update (d : Disco) (s : Setor) : Em ⟨s, true⟩ (update d J_META_SECTOR s) :=
  ⟨rfl, by rw [update_self]⟩

theorem does_journal_begin (hm : Em m d) (h0 : C d) (h1 : C (com_hdr d sec data))
    (h2 : C (com_dado d sec data)) (h3 : C (com_meta d sec data)) :
    Does (journal_begin sec data) m d (meta_next_txid (d J_META_SECTOR)) ⟨meta_da_vez d, true⟩
      (com_meta d sec data) C := by
  obtain ⟨jmeta, j_ok⟩ := m
  obtain ⟨rfl, rfl⟩ := hm
  refine .get_bind (does_gravar1 h0 ?_)
  rw [setor_entry]
  refine does_gravar1 h1 ?_
  rw [setor_entry_data]
  have hflush : Does j_flush_meta ⟨meta_da_vez d, true⟩ (com_dado d sec data) ()
    ⟨meta_da_vez d, true⟩ (com_meta d sec data) C := does_j_flush_meta h2 h3
  exact .modify_bind (hflush.bind (.pure h3))

theorem runs_commit_marca {x : Nat} {pre post : List Nat} {t : Nat}
    (hpre : ∀ j ∈ pre, hdr_txid (d (j_entry_sector j)) ≠ x)
    (hx : hdr_txid (d (j_entry_sector t)) = x) (hc : hdr_committed (d (j_entry_sector t)) = 0)
    (h : C d)
    (h' : C (update d (j_entry_sector t) (hdr_por_committed (d (j_entry_sector t)) 1))) :
    (commit_marca x (pre ++ t :: post)).Runs d ()
      (update d (j_entry_sector t) (hdr_por_committed (d (j_entry_sector t)) 1)) C := by
  induction pre with
  | nil =>
    refine runs_ler1 ?_
    rw [setor_entry]
    dsimp only
    rw [if_pos ⟨hx, hc⟩]
    refine runs_gravar1 h ?_
    rw [setor_entry]
    exact .pure h'
  | cons j pre ih =>
    refine runs_ler1 ?_
    rw [setor_entry]
    dsimp only
    rw [if_neg fun he => hpre j List.mem_cons_self he.1]
    exact ih fun i hi => hpre i (List.mem_cons_of_mem _ hi)

theorem does_commit_avanca {voltas : Nat} (h : C d)
    (hne : meta_head m.jmeta ≠ meta_tail m.jmeta) (ht : meta_tail m.jmeta = proximo (meta_head m.jmeta))
    (hc : hdr_committed (d (j_entry_sector (meta_head m.jmeta))) ≠ 0) :
    Does (commit_avanca (voltas + 2)) m d ()
      { m with jmeta := meta_por_head m.jmeta (proximo (meta_head m.jmeta)) } d C := by
  refine .get_bind ?_
  rw [if_neg hne]
  refine does_ler1 ?_
  rw [setor_entry]
  dsimp only
  rw [if_neg hc]
  refine .set_bind (.get_bind ?_)
  rw [if_pos (by rw [head_por_head, tail_por_head, proximo_mod, ht])]
  exact .pure h

theorem range_split {t n : Nat} (h : t < n) :
    ∃ post, List.range n = List.range t ++ t :: post := by
  refine ⟨List.range' (t + 1) (n - t - 1), ?_⟩
  rw [List.range_eq_range', List.range_eq_range', ← List.range'_succ]
  have := List.range'_append_1 (s := 0) (m := t) (n := n - t - 1 + 1)
  rw [Nat.zero_add] at this
  rw [this]
  congr 1
  omega

/-- A write through the log to a sector outside it: whatever the cut, at most this write is
pending, and at the end the disk differs from before in this sector only. -/
theorem does_sfs_write_sec (hq : Quieto d) (hm : Em m d) (hs : Fora (setor sec)) :
    Does (sfs_write_sec sec data) m d true
      ⟨meta_por_head (meta_da_vez d) (proximo (meta_tail (d J_META_SECTOR))), true⟩
      (com_fim d sec data) (Corte d (setor sec) data) := by
  have ha : Apartados d _ := apartados hs
  have hx : meta_next_txid (d J_META_SECTOR) % 2 ^ 32 = meta_next_txid (d J_META_SECTOR) :=
    Nat.mod_eq_of_lt (next_txid_lt _)
  have hent : com_alvo d sec data (entrada d) = hdr_da_vez d sec data := by
    simp [com_alvo, com_meta, com_dado, com_hdr, ha.alvo_entrada.symm, ha.entrada_meta]
  refine (does_journal_begin hm ⟨.inl hq, .inl fun _ _ => rfl⟩ (corte_com_hdr hq)
    (corte_com_dado hq hs) (corte_com_meta hq hs)).bind ?_
  refine does_gravar1 (corte_com_meta hq hs) ?_
  refine Does.bind (a := ()) (.get_bind ?_) (.pure (corte_com_fim hq hs))
  obtain ⟨post, hlist⟩ := range_split hq.tail_lt
  have hmarca : (commit_marca (meta_next_txid (d J_META_SECTOR)) (List.range J_MAX_ENTRIES)).Runs
      (com_alvo d sec data) () (com_marca d sec data) (Corte d (setor sec) data) := by
    have hmarca' : com_marca d sec data = update (com_alvo d sec data) (entrada d)
        (hdr_por_committed (com_alvo d sec data (entrada d)) 1) := by rw [hent]; rfl
    rw [hlist, hmarca']
    refine runs_commit_marca (fun j hj => ?_) ?_ ?_ (corte_com_alvo hq hs) ?_
    · have hj := List.mem_range.mp hj
      have htl := hq.tail_lt
      have := next_txid_lt (d J_META_SECTOR)
      rw [(com_marca_entry hq hs hj).2.1, hq.txids j hj]
      simp only [J_MAX_ENTRIES] at htl
      omega
    · change hdr_txid (com_alvo d sec data (entrada d)) = _
      rw [hent, hdr_da_vez, hdr_novo_txid, hx]
    · change hdr_committed (com_alvo d sec data (entrada d)) = _
      rw [hent, hdr_da_vez, hdr_novo_committed, Nat.zero_mod]
    · change Corte _ _ _ (update _ (entrada d) (hdr_por_committed (com_alvo d sec data (entrada d)) 1))
      rw [← hmarca']
      exact corte_com_marca hq hs
  have hhead : meta_head (meta_da_vez d) = meta_tail (d J_META_SECTOR) := by
    rw [meta_da_vez, head_por_next_txid, head_por_tail, hq.head]
  have htail : meta_tail (meta_da_vez d) = proximo (meta_tail (d J_META_SECTOR)) := by
    rw [meta_da_vez, tail_por_next_txid, tail_por_tail, proximo_mod]
  have hfeito : com_marca d sec data (entrada d) = hdr_por_committed (hdr_da_vez d sec data) 1 :=
    update_self _ _ _
  have havanca : Does (commit_avanca VOLTAS) ⟨meta_da_vez d, true⟩ (com_marca d sec data) ()
      ⟨meta_por_head (meta_da_vez d) (proximo (meta_tail (d J_META_SECTOR))), true⟩
      (com_marca d sec data) (Corte d (setor sec) data) := by
    have hv : VOLTAS = (2 ^ 32 - 2) + 2 := by decide
    rw [hv, ← hhead]
    refine does_commit_avanca (corte_com_marca hq hs) ?_ ?_ ?_
    · rw [hhead, htail]
      exact (proximo_ne hq.tail_lt).symm
    · rw [hhead, htail]
    · dsimp only
      rw [hhead]
      change hdr_committed (com_marca d sec data (entrada d)) ≠ 0
      rw [hfeito, committed_por_committed]
      decide
  rw [if_pos rfl]
  exact (Does.lift hmarca).bind (havanca.bind
    (does_j_flush_meta (corte_com_marca hq hs) (corte_com_fim hq hs)))

theorem does_journal_init (hm : meta_magic (d J_META_SECTOR) = J_MAGIC) (h : C d) :
    Does journal_init m d () ⟨d J_META_SECTOR, true⟩ d C := by
  refine does_presente1 ?_
  rw [if_pos rfl]
  refine does_ler1 (.modify_bind ?_)
  rw [setor_meta, if_neg (not_not.mpr hm)]
  exact .modify h

/-- The meta sector of an empty log. -/
def meta_vazia : Setor := meta_por_magic ByteStr.zero J_MAGIC

theorem does_journal_init_novo (hm : meta_magic (d J_META_SECTOR) ≠ J_MAGIC) (h : C d)
    (h' : C (update d J_META_SECTOR meta_vazia)) :
    Does journal_init m d () ⟨meta_vazia, true⟩ (update d J_META_SECTOR meta_vazia) C := by
  refine does_presente1 ?_
  rw [if_pos rfl]
  refine does_ler1 (.modify_bind ?_)
  rw [setor_meta, if_pos hm]
  have hflush : Does j_flush_meta ⟨meta_vazia, m.j_ok⟩ d () ⟨meta_vazia, m.j_ok⟩
    (update d J_META_SECTOR meta_vazia) C := does_j_flush_meta h h'
  exact .modify_bind (hflush.bind (.modify h'))

theorem meta_vazia_magic : meta_magic meta_vazia = J_MAGIC := by
  rw [meta_vazia, magic_por_magic]
  decide

theorem meta_vazia_zero {i : Nat} (hi : 4 ≤ i) (h : i + 4 ≤ SETOR_SIZE) : meta_vazia.word i = 0 := by
  rw [meta_vazia, meta_por_magic, ByteStr.word_putWord_ne _ _ (Or.inr hi) h, ByteStr.word_zero]

theorem quieto_novo (d : Disco) : Quieto (update d J_META_SECTOR meta_vazia) := by
  have htail : meta_tail meta_vazia = 0 := meta_vazia_zero (by decide) (by decide)
  have hhead : meta_head meta_vazia = 0 := meta_vazia_zero (by decide) (by decide)
  have hm : update d J_META_SECTOR meta_vazia J_META_SECTOR = meta_vazia := update_self _ _ _
  refine ⟨⟨by rw [hm]; exact meta_vazia_magic, by rw [hm, htail]; decide, fun j hj => ?_⟩,
    by rw [hm, htail, hhead]⟩
  rw [hm, htail] at hj
  exact absurd hj (Nat.not_lt_zero j)

/-- The disk with `head` moved up to `tail`. -/
def limpo (d : Disco) : Disco :=
  update d J_META_SECTOR (meta_por_head (d J_META_SECTOR) (meta_tail (d J_META_SECTOR)))

theorem Anel.limpo (h : Anel d) : Quieto (limpo d) := by
  have hm : Journal.limpo d J_META_SECTOR =
    meta_por_head (d J_META_SECTOR) (meta_tail (d J_META_SECTOR)) := update_self _ _ _
  have ht : meta_tail (d J_META_SECTOR) % 2 ^ 32 = meta_tail (d J_META_SECTOR) :=
    Nat.mod_eq_of_lt (Nat.lt_trans h.tail_lt (by decide))
  refine ⟨⟨?_, ?_, fun j hj => ?_⟩, ?_⟩
  · rw [hm, magic_por_head, h.magic]
  · rw [hm, tail_por_head]
    exact h.tail_lt
  · rw [hm, tail_por_head] at hj
    rw [hm, tail_por_head, next_txid_por_head, Journal.limpo, update_of_ne (entry_ne_meta j)]
    exact h.txids j hj
  · rw [hm, head_por_head, tail_por_head, ht]

/-- Once the loop of `journal_recover` has come from `d` to `d'`, the log is cleared. -/
theorem does_journal_recover {d' : Disco} (hok : m.j_ok = true)
    (hl : (recover_laco (meta_tail m.jmeta) VOLTAS (meta_head m.jmeta)).Runs d () d' C)
    (h : C (update d' J_META_SECTOR (meta_por_head m.jmeta (meta_tail m.jmeta)))) :
    Does journal_recover m d () { m with jmeta := meta_por_head m.jmeta (meta_tail m.jmeta) }
      (update d' J_META_SECTOR (meta_por_head m.jmeta (meta_tail m.jmeta))) C := by
  refine .get_bind ?_
  rw [if_pos hok]
  exact (Does.lift hl).bind (.modify_bind (does_j_flush_meta hl.finish h))

theorem Pendente.congr {d' : Disco} {alvo : Nat} (h : Pendente d alvo data)
    (hd : ∀ s, s ≠ alvo → d' s = d s) (ha : Fora alvo) (hv : d' alvo = data) :
    Pendente d' alvo data := by
  have hm : d' J_META_SECTOR = d J_META_SECTOR := hd _ (fora_ne_meta ha).symm
  have hs : ∀ j, d' (j_entry_sector j) = d (j_entry_sector j) :=
    fun j => hd _ (fora_ne_entry ha j).symm
  have hs' : ∀ j, d' (j_entry_sector j + 1) = d (j_entry_sector j + 1) :=
    fun j => hd _ (fora_ne_entry_data ha j).symm
  obtain ⟨h0, h1, h2, h3, h4, _⟩ := h
  rw [← hm] at h1 h2 h3 h4
  exact ⟨h0.congr hm fun j _ => hs j, h1, h2, by rw [hs]; exact h3,
    by rw [hs, hs']; exact h4, fun _ => hv⟩

theorem runs_recover_fim {tail voltas : Nat} (h : C d) :
    (recover_laco tail (voltas + 1) tail).Runs d () d C := by
  rw [recover_laco, if_pos rfl]
  exact .pure h

/-- The replay of the pending entry, cut or not, only does the write that was pending. -/
theorem Pendente.runs_recover_laco {v : Disco} {alvo : Nat} (hp : Pendente d alvo data)
    (ha : Fora alvo) (hv : Mesmo d v ∨ Mesmo d (update v alvo data)) (voltas : Nat) :
    ∃ d', (recover_laco (meta_tail (d J_META_SECTOR)) (voltas + 2)
        (meta_head (d J_META_SECTOR))).Runs d () d' (Corte v alvo data) ∧
      d' J_META_SECTOR = d J_META_SECTOR ∧ Pendente d' alvo data ∧
      (Mesmo d' v ∨ Mesmo d' (update v alvo data)) := by
  have hne : meta_head (d J_META_SECTOR) ≠ meta_tail (d J_META_SECTOR) := by
    rw [hp.tail]
    exact (proximo_ne hp.head_lt).symm
  have h0 : Corte v alvo data d := ⟨Or.inr hp, hv⟩
  by_cases hc : hdr_committed (d (j_entry_sector (meta_head (d J_META_SECTOR)))) = 0
  · have hp' : Pendente (update d alvo data) alvo data :=
      hp.congr (fun s hs => update_of_ne hs _ _) ha (update_self _ _ _)
    have hv' : Mesmo (update d alvo data) (update v alvo data) := by
      rcases hv with hv | hv
      · exact hv.update_ambos _ _
      · exact hv.update_igual
    refine ⟨update d alvo data, ?_, update_of_ne (fora_ne_meta ha).symm _ _, hp', Or.inr hv'⟩
    rw [recover_laco, if_neg hne]
    refine runs_ler1 ?_
    rw [setor_entry]
    dsimp only
    rw [if_pos hc]
    refine runs_ler1 ?_
    rw [setor_entry_data]
    dsimp only
    refine runs_gravar1 h0 ?_
    rw [hp.bloco, hp.pendente hc, hp.tail]
    exact runs_recover_fim ⟨Or.inr hp', Or.inr hv'⟩
  · refine ⟨d, ?_, rfl, hp, hv⟩
    rw [recover_laco, if_neg hne]
    refine runs_ler1 ?_
    rw [setor_entry]
    dsimp only
    rw [if_neg hc, hp.tail]
    exact runs_recover_fim h0

/-- A boot after a cut, itself cut or not, ends with no entry pending and the write in flight
done or not done. -/
theorem Corte.does_journal_boot {v : Disco} {alvo : Nat} (h : Corte v alvo data d)
    (ha : Fora alvo) :
    ∃ d', Does journal_boot Mem.boot d () ⟨d' J_META_SECTOR, true⟩ d' (Corte v alvo data) ∧
      Quieto d' ∧ (Mesmo d' v ∨ Mesmo d' (update v alvo data)) := by
  obtain ⟨hqp, hv⟩ := id h
  have hanel : Anel d := hqp.elim Quieto.toAnel Pendente.toAnel
  have hvoltas : VOLTAS = (2 ^ 32 - 2) + 2 := by decide
  obtain ⟨d1, hl, hd1, hanel1, hv1⟩ : ∃ d1,
      (recover_laco (meta_tail (d J_META_SECTOR)) VOLTAS (meta_head (d J_META_SECTOR))).Runs
        d () d1 (Corte v alvo data) ∧
      d1 J_META_SECTOR = d J_META_SECTOR ∧ Anel d1 ∧
      (Mesmo d1 v ∨ Mesmo d1 (update v alvo data)) := by
    rcases hqp with hq | hp
    · refine ⟨d, ?_, rfl, hanel, hv⟩
      rw [hvoltas, hq.head]
      exact runs_recover_fim h
    · obtain ⟨d1, h1, h2, h3, h4⟩ := hp.runs_recover_laco ha hv (2 ^ 32 - 2)
      exact ⟨d1, by rw [hvoltas]; exact h1, h2, h3.toAnel, h4⟩
  have hv2 : Mesmo (limpo d1) v ∨ Mesmo (limpo d1) (update v alvo data) :=
    hv1.imp (fun h => h.update_dentro not_fora_meta _) fun h => h.update_dentro not_fora_meta _
  have hc2 : Corte v alvo data (limpo d1) := ⟨Or.inl hanel1.limpo, hv2⟩
  refine ⟨limpo d1, ?_, hanel1.limpo, hv2⟩
  rw [limpo, hd1] at hc2 ⊢
  rw [update_self]
  exact (does_journal_init hanel.magic h).bind (does_journal_recover rfl hl hc2)

end Spec

/-! ## Runs with power cuts -/

/-- A boot on disk `d`, begun again after each power cut, ends with the memory `m'` and the
disk `d'`. -/
inductive Reinicia : Disco → Mem → Disco → Prop
  | inteira {d d' : Disco} {m' : Mem}
    (h : (journal_boot.run Mem.boot).exec d = some (((), m'), d')) : Reinicia d m' d'
  | cortada {d d1 d' : Disco} {m' : Mem} (h : (journal_boot.run Mem.boot).Cut d d1)
    (h' : Reinicia d1 m' d') : Reinicia d m' d'

/-- The states of a run: the disk, the memory, and the values that the sectors outside the log
should have. A cut during a write leaves the sector of that write with what is found there. -/
inductive Alcanca : Disco → Mem → Disco → Prop
  | inicio {d d' : Disco} {m : Mem} (h : meta_magic (d J_META_SECTOR) ≠ J_MAGIC)
    (he : (journal_init.run Mem.boot).exec d = some (((), m), d')) : Alcanca d' m d
  | escrita {d d' v : Disco} {m m' : Mem} {sec : Nat} {data : Setor} {ret : Bool}
    (h : Alcanca d m v) (hs : Fora (setor sec))
    (he : ((sfs_write_sec sec data).run m).exec d = some ((ret, m'), d')) :
    Alcanca d' m' (update v (setor sec) data)
  | queda {d d1 d2 v : Disco} {m m' : Mem} {sec : Nat} {data : Setor}
    (h : Alcanca d m v) (hs : Fora (setor sec)) (hc : ((sfs_write_sec sec data).run m).Cut d d1)
    (hr : Reinicia d1 m' d2) : Alcanca d2 m' (update v (setor sec) (d2 (setor sec)))
  | queda_parada {d d2 v : Disco} {m m' : Mem} (h : Alcanca d m v) (hr : Reinicia d m' d2) :
    Alcanca d2 m' v

theorem Corte.reinicia {d d' v : Disco} {m' : Mem} {alvo : Nat} {data : Setor}
    (hr : Reinicia d m' d') (h : Corte v alvo data d) (ha : Fora alvo) :
    Quieto d' ∧ Em m' d' ∧ (Mesmo d' v ∨ Mesmo d' (update v alvo data)) := by
  induction hr with
  | inteira he =>
    obtain ⟨d2, hd, hq, hv⟩ := h.does_journal_boot ha
    rw [hd.exec_eq] at he
    cases he
    exact ⟨hq, ⟨rfl, rfl⟩, hv⟩
  | cortada hc _ ih =>
    obtain ⟨d2, hd, _⟩ := h.does_journal_boot ha
    exact ih (hd.cut _ hc)

/-- With nothing in flight, a boot changes no sector outside the log. -/
theorem Quieto.reinicia {d d' v : Disco} {m' : Mem} (hr : Reinicia d m' d') (h : Quieto d)
    (hv : Mesmo d v) : Quieto d' ∧ Em m' d' ∧ Mesmo d' v := by
  have h0 : Fora 0 := Or.inl (by decide)
  have hc : Corte v 0 (v 0) d := ⟨Or.inl h, Or.inl hv⟩
  obtain ⟨hq, hm, hv'⟩ := hc.reinicia hr h0
  rw [Function.update_eq_self, or_self] at hv'
  exact ⟨hq, hm, hv'⟩

theorem alcanca_quieto {d v : Disco} {m : Mem} (h : Alcanca d m v) :
    Quieto d ∧ Em m d ∧ Mesmo d v := by
  induction h with
  | @inicio d d' m h he =>
    have hi : Does journal_init Mem.boot d () ⟨meta_vazia, true⟩
      (update d J_META_SECTOR meta_vazia) (fun _ => True) := does_journal_init_novo h trivial trivial
    rw [hi.exec_eq] at he
    cases he
    exact ⟨quieto_novo d, em_update d _,
      Mesmo.update_dentro (fun _ _ => rfl) not_fora_meta _⟩
  | @escrita d d' v m m' sec data ret h hs he ih =>
    obtain ⟨hq, hm, hv⟩ := ih
    rw [(does_sfs_write_sec hq hm hs).exec_eq] at he
    cases he
    refine ⟨quieto_com_fim hq hs, em_update _ _, fun x hx => ?_⟩
    rw [mesmo_com_fim x hx]
    exact hv.update_ambos _ _ x hx
  | @queda d d1 d2 v m m' sec data h hs hc hr ih =>
    obtain ⟨hq, hm, hv⟩ := ih
    obtain ⟨hq2, hm2, hv2⟩ := ((does_sfs_write_sec hq hm hs).cut _ hc).reinicia hr hs
    refine ⟨hq2, hm2, fun x hx => ?_⟩
    by_cases hxs : x = setor sec
    · rw [hxs, update_self]
    · rw [update_of_ne hxs, ← hv x hx]
      rcases hv2 with hv2 | hv2
      · exact hv2 x hx
      · rw [hv2 x hx, update_of_ne hxs]
  | queda_parada _ hr ih => exact ih.1.reinicia hr ih.2.2

/-! ## The law -/

/-- In every run of writes and power cuts, also cuts of the recovery, the sectors outside the
log hold what they should. The next write returns; wherever it is cut, recovery can finish, and
when it has, the sector of that write holds its old or its new value and no other has changed. -/
theorem a_write_happens_or_does_not {d v : Disco} {m : Mem} (h : Alcanca d m v) :
    (∀ s, Fora s → d s = v s) ∧
    (∀ m' d2, Reinicia d m' d2 → ∀ s, Fora s → d2 s = v s) ∧
    ∀ sec data, Fora (setor sec) →
      (∃ m' d', ((sfs_write_sec sec data).run m).exec d = some ((true, m'), d') ∧
        ∀ s, Fora s → d' s = update v (setor sec) data s) ∧
      ∀ d1, ((sfs_write_sec sec data).run m).Cut d d1 →
        (∃ m' d2, Reinicia d1 m' d2) ∧
        ∀ m' d2, Reinicia d1 m' d2 →
          (d2 (setor sec) = v (setor sec) ∨ d2 (setor sec) = data) ∧
          ∀ s, Fora s → s ≠ setor sec → d2 s = v s := by
  obtain ⟨hq, hm, hv⟩ := alcanca_quieto h
  refine ⟨hv, fun m' d2 hr => (hq.reinicia hr hv).2.2, fun sec data hs => ⟨?_, fun d1 hc => ?_⟩⟩
  · refine ⟨_, _, (does_sfs_write_sec hq hm hs).exec_eq, fun s hfs => ?_⟩
    rw [mesmo_com_fim s hfs]
    exact hv.update_ambos _ _ s hfs
  · have hcorte := (does_sfs_write_sec hq hm hs).cut _ hc
    constructor
    · obtain ⟨d2, hd, _⟩ := hcorte.does_journal_boot hs
      exact ⟨_, d2, .inteira hd.exec_eq⟩
    · intro m' d2 hr
      obtain ⟨_, _, hv2⟩ := hcorte.reinicia hr hs
      rcases hv2 with hv2 | hv2
      · exact ⟨Or.inl ((hv2 _ hs).trans (hv _ hs)), fun s hfs _ => (hv2 s hfs).trans (hv s hfs)⟩
      · refine ⟨Or.inr (by rw [hv2 _ hs, update_self]), fun s hfs hne => ?_⟩
        rw [hv2 s hfs, update_of_ne hne]
        exact hv s hfs

/-- The law on a blank disk, for a write to sector 99. -/
theorem a_write_happens_or_does_not_on_a_blank_disk :
    ∃ d m v, Alcanca d m v ∧ ∀ d1, ((sfs_write_sec 99 meta_vazia).run m).Cut d d1 → ∀ m' d2,
      Reinicia d1 m' d2 → d2 99 = v 99 ∨ d2 99 = meta_vazia := by
  have hi : Does journal_init Mem.boot (fun _ => ByteStr.zero) () ⟨meta_vazia, true⟩
      (update (fun _ => ByteStr.zero) J_META_SECTOR meta_vazia) (fun _ => True) :=
    does_journal_init_novo (by decide) trivial trivial
  have ha : Alcanca _ _ _ := .inicio (by decide) hi.exec_eq
  refine ⟨_, _, _, ha, fun d1 hc m' d2 hr => ?_⟩
  exact ((((a_write_happens_or_does_not ha).2.2 99 meta_vazia (Or.inr (by decide))).2 d1 hc).2 m' d2 hr).1

end SpaceOS.Journal
