-- The regions of a FAT32 volume: what a write to the FAT, to an entry or to a cluster leaves as it
-- was, the chains of the FAT, and a walk over a directory as a search in the list of its entries.
import Mathlib.Data.List.Nodup
import Mathlib.Data.List.Perm.Subperm
import Mathlib.Tactic.Ring
import SpaceOS.Lib.Links
import SpaceOS.Fat32

open Lib.Bytes Lib.Bytes.ByteStr Lib.Links

namespace SpaceOS.Fat32

/-! ## Geometry -/

/-- The FAT lies before the data region, and the data region on the disk. -/
structure Geometria (v : Bpb) : Prop where
  spc_pos : 0 < v.spc
  fat_cabe : v.fat_lba + (v.total_clusters + 1) * 4 / 512 < v.data_lba
  dados_cabem : v.data_lba + v.total_clusters * v.spc ≤ 2 ^ 32
  clusters_le : v.total_clusters + 2 ≤ FAT32_EOF

/-- A cluster of the data region. -/
def EmFaixa (v : Bpb) (c : Nat) : Prop := 2 ≤ c ∧ c < v.total_clusters + 2

instance (v : Bpb) (c : Nat) : Decidable (EmFaixa v c) := inferInstanceAs (Decidable (_ ∧ _))

section Regioes

variable {v : Bpb} {d : Disco} {c c' s s' lba : Nat}

theorem EmFaixa.lt_eof (g : Geometria v) (h : EmFaixa v c) : c < FAT32_EOF := by
  have := g.clusters_le
  unfold EmFaixa at h
  omega

theorem eof_eq : FAT32_EOF = 2 ^ 28 - 8 := rfl

theorem lba_eq (g : Geometria v) (h : EmFaixa v c) :
    cluster_to_lba v c = v.data_lba + (c - 2) * v.spc := by
  have hlt := h.lt_eof g
  have he := eof_eq
  obtain ⟨h2, hc⟩ := h
  have hmul : (c - 2) * v.spc + v.spc ≤ v.total_clusters * v.spc := by
    rw [← Nat.succ_mul]
    exact Nat.mul_le_mul_right _ (by omega)
  have hd := g.dados_cabem
  have hs := g.spc_pos
  unfold cluster_to_lba
  rw [show c + 2 ^ 32 - 2 = (c - 2) + 2 ^ 32 by omega, Nat.add_mod_right,
    Nat.mod_eq_of_lt (by omega : c - 2 < 2 ^ 32), Nat.mod_eq_of_lt (by omega)]

theorem data_le_lba (g : Geometria v) (h : EmFaixa v c) : v.data_lba ≤ cluster_to_lba v c + s := by
  rw [lba_eq g h]
  omega

/-- Distinct clusters have distinct sectors. -/
theorem lba_inj (g : Geometria v) (h : EmFaixa v c) (h' : EmFaixa v c') (hs : s < v.spc)
    (hs' : s' < v.spc) (he : cluster_to_lba v c + s = cluster_to_lba v c' + s') :
    c = c' ∧ s = s' := by
  rw [lba_eq g h, lba_eq g h'] at he
  have e : (c - 2) * v.spc + s = (c' - 2) * v.spc + s' := by omega
  have hdiv : c - 2 = c' - 2 := by
    have h1 : ((c - 2) * v.spc + s) / v.spc = c - 2 := by
      rw [Nat.mul_comm, Nat.mul_add_div g.spc_pos, Nat.div_eq_of_lt hs, Nat.add_zero]
    have h2 : ((c' - 2) * v.spc + s') / v.spc = c' - 2 := by
      rw [Nat.mul_comm, Nat.mul_add_div g.spc_pos, Nat.div_eq_of_lt hs', Nat.add_zero]
    rw [← h1, e, h2]
  rw [hdiv] at e
  obtain ⟨h2, _⟩ := h
  obtain ⟨h2', _⟩ := h'
  omega

theorem four_mul_lt (g : Geometria v) (h : EmFaixa v c) : c * 4 < 2 ^ 32 := by
  have := h.lt_eof g
  have := eof_eq
  omega

theorem fat_sector_lt (g : Geometria v) (h : EmFaixa v c) : fat_sector v c < v.data_lba := by
  have hlt := four_mul_lt g h
  have hcabe := g.fat_cabe
  unfold fat_sector
  unfold EmFaixa at h
  rw [Nat.mod_eq_of_lt hlt]
  omega

@[simp] theorem gravar_self (b : Setor) : gravar d lba b lba = b := if_pos rfl

theorem gravar_ne {l : Nat} (b : Setor) (h : l ≠ lba) : gravar d lba b l = d l := if_neg h

/-! ## The FAT -/

/-- A write to the data region leaves the FAT. -/
theorem read_fat_gravar (g : Geometria v) (h : EmFaixa v c) (hl : v.data_lba ≤ lba) (b : Setor) :
    fat32_read_fat v (gravar d lba b) c = fat32_read_fat v d c := by
  have := fat_sector_lt g h
  unfold fat32_read_fat
  rw [gravar_ne _ (by omega)]

/-- A write to the FAT leaves the data region. -/
theorem write_fat_dados (g : Geometria v) (h : EmFaixa v c) (x : Nat) (hl : v.data_lba ≤ lba) :
    fat32_write_fat_entry v d c x lba = d lba := by
  have := fat_sector_lt g h
  unfold fat32_write_fat_entry
  exact gravar_ne _ (by omega)

theorem read_write_self (g : Geometria v) (h : EmFaixa v c) (x : Nat) :
    fat32_read_fat v (fat32_write_fat_entry v d c x) c = x % 2 ^ 28 := by
  have hlt := four_mul_lt g h
  have hoff : fat_offset c + 4 ≤ 512 := by
    unfold fat_offset
    omega
  unfold fat32_read_fat fat32_write_fat_entry
  rw [gravar_self, word_putWord_self _ _ hoff]
  omega

theorem read_write_ne (g : Geometria v) (h : EmFaixa v c) (h' : EmFaixa v c') (x : Nat)
    (hne : c' ≠ c) : fat32_read_fat v (fat32_write_fat_entry v d c x) c' = fat32_read_fat v d c' := by
  have hlt := four_mul_lt g h
  have hlt' := four_mul_lt g h'
  unfold fat32_read_fat fat32_write_fat_entry
  by_cases hs : fat_sector v c' = fat_sector v c
  · rw [hs, gravar_self, ByteStr.word_putWord_ne]
    · unfold fat_sector at hs
      unfold fat_offset
      omega
    · unfold fat_offset
      omega
  · rw [gravar_ne _ hs]

/-- What the FAT says of a cluster: it is free (or not one of the volume), the last one of its
chain, or followed by another. -/
def elo (v : Bpb) (d : Disco) (c : Nat) : Option (Option Nat) :=
  if EmFaixa v c ∧ fat32_read_fat v d c ≠ 0 then
    if fat32_read_fat v d c ≥ FAT32_EOF then some none else some (some (fat32_read_fat v d c))
  else none

/-- The chain of a cluster: it ends, and all its clusters are ones of the volume that are in use. -/
abbrev Cadeia (v : Bpb) (d : Disco) : Nat → List Nat → Prop := Chain (elo v d)

theorem elo_ne_none (h : elo v d c ≠ none) : EmFaixa v c ∧ fat32_read_fat v d c ≠ 0 := by
  by_contra hn
  exact h (if_neg hn)

theorem elo_congr {d' : Disco} (h : fat32_read_fat v d' c = fat32_read_fat v d c) :
    elo v d' c = elo v d c := by
  unfold elo
  rw [h]

theorem elo_none (he : elo v d c = some none) : fat32_read_fat v d c ≥ FAT32_EOF := by
  unfold elo at he
  split at he
  · split at he
    · assumption
    · exact absurd he (by simp)
  · exact absurd he (by simp)

theorem elo_some {n : Nat} (he : elo v d c = some (some n)) :
    fat32_read_fat v d c = n ∧ n < FAT32_EOF := by
  unfold elo at he
  split at he
  · split at he
    · exact absurd he (by simp)
    · rename_i hlt
      have := Option.some.inj (Option.some.inj he)
      omega
  · exact absurd he (by simp)

variable {cs : List Nat}

theorem Cadeia.em_faixa (h : Cadeia v d c cs) {x : Nat} (hx : x ∈ cs) : EmFaixa v x :=
  (elo_ne_none (h.linked x hx)).1

theorem Cadeia.em_uso (h : Cadeia v d c cs) {x : Nat} (hx : x ∈ cs) : fat32_read_fat v d x ≠ 0 :=
  (elo_ne_none (h.linked x hx)).2

/-- A free cluster is on no chain. -/
theorem Cadeia.livre (h : Cadeia v d c cs) {x : Nat} (hx : fat32_read_fat v d x = 0) : x ∉ cs :=
  fun hmem => h.em_uso hmem hx

theorem Cadeia.mesma_fat {d' : Disco} (h : Cadeia v d c cs)
    (he : ∀ x ∈ cs, fat32_read_fat v d' x = fat32_read_fat v d x) : Cadeia v d' c cs :=
  Chain.congr h fun x hx => elo_congr (he x hx)

theorem Cadeia.length_le (h : Cadeia v d c cs) : cs.length ≤ v.total_clusters := by
  have hsub : cs ⊆ (List.range v.total_clusters).map (· + 2) := by
    intro x hx
    obtain ⟨h2, hlt⟩ := h.em_faixa hx
    exact List.mem_map.mpr ⟨x - 2, List.mem_range.mpr (by omega), by omega⟩
  have := (List.Nodup.subperm (Chain.nodup h) hsub).length_le
  simpa using this

end Regioes

/-! ## Entries -/

section Entradas

variable {v : Bpb} {d : Disco} {c c' : Nat} {x y : Slot}

theorem mem_slots : x ∈ slots v c ↔ ∃ s < v.spc, ∃ i < 16, x = (cluster_to_lba v c + s, i) := by
  unfold slots
  simp only [List.mem_flatMap, List.mem_map, List.mem_range]
  constructor
  · rintro ⟨s, hs, i, hi, rfl⟩
    exact ⟨s, hs, i, hi, rfl⟩
  · rintro ⟨s, hs, i, hi, rfl⟩
    exact ⟨s, hs, i, hi, rfl⟩

theorem slots_lt (h : x ∈ slots v c) : x.2 < 16 := by
  obtain ⟨_, _, i, hi, rfl⟩ := mem_slots.mp h
  exact hi

theorem slots_ge (g : Geometria v) (hc : EmFaixa v c) (h : x ∈ slots v c) : v.data_lba ≤ x.1 := by
  obtain ⟨_, _, _, _, rfl⟩ := mem_slots.mp h
  exact data_le_lba g hc

/-- An entry lies in one cluster. -/
theorem slots_inj (g : Geometria v) (hc : EmFaixa v c) (hc' : EmFaixa v c') (h : x ∈ slots v c)
    (h' : x ∈ slots v c') : c = c' := by
  obtain ⟨s, hs, i, _, rfl⟩ := mem_slots.mp h
  obtain ⟨s', hs', i', _, he⟩ := mem_slots.mp h'
  exact (lba_inj g hc hc' hs hs' (Prod.mk.inj he).1).1

theorem slots_nodup : (slots v c).Nodup := by
  unfold slots
  refine List.nodup_flatMap.mpr ⟨fun s _ => ?_, ?_⟩
  · exact List.nodup_range.map fun i j h => (Prod.mk.inj h).2
  · refine List.nodup_range.imp ?_
    intro s s' hne x hx hx'
    obtain ⟨i, _, rfl⟩ := List.mem_map.mp hx
    obtain ⟨j, _, he⟩ := List.mem_map.mp hx'
    have := (Prod.mk.inj he).1
    omega

/-- The entries of a chain are all at distinct places. -/
theorem entradas_nodup (g : Geometria v) {cs : List Nat} (h : Cadeia v d c cs) :
    (cs.flatMap (slots v)).Nodup := by
  refine List.nodup_flatMap.mpr ⟨fun _ _ => slots_nodup, ?_⟩
  refine (Chain.nodup h).imp_of_mem ?_
  intro a b ha hb hne x hx hx'
  exact hne (slots_inj g (h.em_faixa ha) (h.em_faixa hb) hx hx')

theorem dirent_self (hx : x.2 < 16) (e : Dirent) : dirent (gravar_dirent d x e) x = e := by
  unfold dirent gravar_dirent
  rw [gravar_self, slice_splice_self _ _ (by omega)]

theorem dirent_ne (hy : y.2 < 16) (h : y ≠ x) (e : Dirent) :
    dirent (gravar_dirent d x e) y = dirent d y := by
  unfold dirent gravar_dirent
  by_cases hl : y.1 = x.1
  · have hi : y.2 ≠ x.2 := fun hi => h (Prod.ext hl hi)
    rw [hl, gravar_self, slice_splice_ne _ _ (by omega) (by omega)]
  · rw [gravar_ne _ hl]

theorem dirent_write_fat (g : Geometria v) (hc : EmFaixa v c) (n : Nat) (hy : v.data_lba ≤ y.1) :
    dirent (fat32_write_fat_entry v d c n) y = dirent d y := by
  unfold dirent
  rw [write_fat_dados g hc n hy]

/-! ## Walks -/

variable {α : Type} {f : Slot → Option α} {cs : List Nat} {fuel : Nat}

/-- A walk searches the entries of the chain in order. -/
theorem percorre_eq (g : Geometria v) (h : Cadeia v d c cs) (hf : cs.length < fuel) :
    percorre v d f fuel c = some ((cs.flatMap (slots v)).findSome? f) := by
  induction h generalizing fuel with
  | @last c hc =>
    obtain ⟨hr, _⟩ := elo_ne_none (by rw [hc]; simp : elo v d c ≠ none)
    obtain ⟨k, rfl⟩ : ∃ k, fuel = k + 2 := ⟨fuel - 2, by rw [List.length_singleton] at hf; omega⟩
    rw [percorre, if_neg (Nat.not_le.mpr (hr.lt_eof g)), List.flatMap_singleton]
    rcases (slots v c).findSome? f with _ | a
    · dsimp only
      rw [percorre, if_pos (elo_none hc)]
    · rfl
  | @cons c n cs hc _ ih =>
    obtain ⟨hr, _⟩ := elo_ne_none (by rw [hc]; simp : elo v d c ≠ none)
    obtain ⟨k, rfl⟩ : ∃ k, fuel = k + 1 := ⟨fuel - 1, by omega⟩
    rw [List.length_cons] at hf
    rw [percorre, if_neg (Nat.not_le.mpr (hr.lt_eof g)), List.flatMap_cons, List.findSome?_append]
    rcases (slots v c).findSome? f with _ | a
    · dsimp only
      rw [(elo_some hc).1, ih (by omega)]
      rfl
    · rfl

theorem percorre_voltas (g : Geometria v) (h : Cadeia v d c cs) :
    percorre v d f (voltas v) c = some ((cs.flatMap (slots v)).findSome? f) :=
  percorre_eq g h (Nat.lt_of_le_of_lt h.length_le (by unfold voltas; omega))

end Entradas

end SpaceOS.Fat32
