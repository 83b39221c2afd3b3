-- Creating an entry on a disk with sectors that cannot be read: what a create that fails has done to
-- the volume by then.
import SpaceOS.Fat32Freeing
import SpaceOS.Fat32Laws

open Lib.Bytes Lib.Bytes.ByteStr Lib.Links

namespace SpaceOS.Fat32

/-! ## The driver with read errors -/

section Leituras

-- `le` says of a sector whether a read of it succeeds.
variable (le : Nat → Bool) (v : Bpb) (d : Disco)

/-- A read error looks like the end of a chain. -/
def fat32_read_fat_com (cluster : Nat) : Nat :=
  if le (fat_sector v cluster) then fat32_read_fat v d cluster else 0x0FFFFFFF

/-- The entry is read before it is written. -/
def fat32_write_fat_entry_com (cluster value : Nat) : Disco :=
  if le (fat_sector v cluster) then fat32_write_fat_entry v d cluster value else d

def fat32_alloc_cluster_com : Nat × Disco :=
  match ((List.range v.total_clusters).map (· + 2)).find? fun c =>
    fat32_read_fat_com le v d c = 0 with
  | some c => (c, fat32_write_fat_entry_com le v d c 0x0FFFFFFF)
  | none => (0, d)

/-- The loop over the clusters of a directory. -/
def percorre_com {α : Type} (f : Slot → Option α) : Nat → Nat → Option (Option α)
  | 0, _ => none
  | fuel + 1, cluster =>
    if cluster ≥ FAT32_EOF then some none
    else
      match (slots v cluster).findSome? f with
      | some a => some (some a)
      | none => percorre_com f fuel (fat32_read_fat_com le v d cluster)

/-- The search of `fat32_create` gives up where the sector cannot be read. -/
def olha_livre_com (x : Slot) : Option (Option Slot) :=
  if le x.1 then (olha_livre d x).map some else some none

/-- The cluster is 0 where the call fails. -/
def fat32_create_com (parent_cluster : Nat) (name11 : List UInt8) (attr : UInt8) :
    Option (Nat × Disco) :=
  let (cluster, d) := fat32_alloc_cluster_com le v d
  if cluster = 0 then some (0, d)
  else
    let d := zera_cluster v d cluster
    if attr &&& FAT32_ATTR_DIR ≠ 0 ∧ ¬ le (cluster_to_lba v cluster) then some (0, d)
    else
      let d := if attr &&& FAT32_ATTR_DIR ≠ 0 then pontos v d cluster parent_cluster else d
      (percorre_com le v d (olha_livre_com le d) (voltas v) parent_cluster).map fun r =>
        match r with
        | some (some x) => (cluster, gravar_dirent d x (novo_dirent name11 attr cluster))
        | _ => (0, d)

end Leituras

/-! ## A disk that can be read -/

section SemFalhas

variable {v : Bpb} {d : Disco}

theorem alloc_sem_falhas : fat32_alloc_cluster_com (fun _ => true) v d = fat32_alloc_cluster v d := rfl

theorem findSome?_sem_falhas (ss : List Slot) :
    ss.findSome? (olha_livre_com (fun _ => true) d) = (ss.findSome? (olha_livre d)).map some := by
  induction ss with
  | nil => rfl
  | cons x ss ih =>
    rw [List.findSome?_cons, List.findSome?_cons, ih]
    have hx : olha_livre_com (fun _ => true) d x = (olha_livre d x).map some := if_pos rfl
    rw [hx]
    rcases olha_livre d x with _ | y
    · rfl
    · rfl

theorem percorre_sem_falhas (fuel c : Nat) :
    percorre_com (fun _ => true) v d (olha_livre_com (fun _ => true) d) fuel c =
      (percorre v d (olha_livre d) fuel c).map fun r => r.map some := by
  induction fuel generalizing c with
  | zero => rfl
  | succ fuel ih =>
    rw [percorre_com, percorre]
    by_cases he : c ≥ FAT32_EOF
    · rw [if_pos he, if_pos he]
      rfl
    · rw [if_neg he, if_neg he, findSome?_sem_falhas]
      rcases (slots v c).findSome? (olha_livre d) with _ | x
      · exact ih _
      · rfl

/-- Where every sector can be read, this is `fat32_create`. -/
theorem create_sem_falhas (p : Nat) (name11 : List UInt8) (attr : UInt8) :
    fat32_create_com (fun _ => true) v d p name11 attr = fat32_create v d p name11 attr := by
  unfold fat32_create_com fat32_create
  rw [alloc_sem_falhas]
  dsimp only
  by_cases h0 : (fat32_alloc_cluster v d).1 = 0
  · rw [if_pos h0, if_pos h0]
  · rw [if_neg h0, if_neg h0, if_neg (by simp), percorre_sem_falhas, Option.map_map]
    congr 1
    funext r
    rcases r with _ | x
    · rfl
    · rfl

end SemFalhas

/-! ## A create that fails -/

section Falha

variable {le : Nat → Bool} {v : Bpb} {d d' : Disco} {p n : Nat} {name11 : List UInt8} {attr : UInt8}

/-- No cluster is free, as far as the FAT can be read. -/
def SemLivre (le : Nat → Bool) (v : Bpb) (d : Disco) : Prop :=
  ∀ c, EmFaixa v c → le (fat_sector v c) → fat32_read_fat v d c ≠ 0

/-- The FAT and the directories are as they were. -/
structure Inalterado (v : Bpb) (d d' : Disco) : Prop where
  fat : ∀ c, EmFaixa v c → entrada_fat v d' c = entrada_fat v d c
  entradas : ∀ q cs, Dir v d q → Cadeia v d q cs → ∀ y ∈ entradas v cs, dirent d' y = dirent d y

theorem alloc_com_spec (le : Nat → Bool) (v : Bpb) (d : Disco) :
    (SemLivre le v d ∧ fat32_alloc_cluster_com le v d = (0, d)) ∨
      ∃ n, EmFaixa v n ∧ le (fat_sector v n) ∧ fat32_read_fat v d n = 0 ∧
        fat32_alloc_cluster_com le v d = (n, fat32_write_fat_entry v d n 0x0FFFFFFF) := by
  unfold fat32_alloc_cluster_com
  rcases hf : ((List.range v.total_clusters).map (· + 2)).find?
    (fun c => fat32_read_fat_com le v d c = 0) with _ | n
  · refine Or.inl ⟨fun c hc hle h0 => ?_, rfl⟩
    unfold EmFaixa at hc
    have hmem : c ∈ (List.range v.total_clusters).map (· + 2) :=
      List.mem_map.mpr ⟨c - 2, List.mem_range.mpr (by omega), by omega⟩
    have hlivre : fat32_read_fat_com le v d c = 0 := by
      unfold fat32_read_fat_com
      rw [if_pos hle, h0]
    exact absurd (decide_eq_true hlivre) (List.find?_eq_none.mp hf c hmem)
  · right
    have h0 : fat32_read_fat_com le v d n = 0 := by simpa using List.find?_some hf
    have hle : le (fat_sector v n) = true := by
      by_contra hle
      unfold fat32_read_fat_com at h0
      rw [if_neg hle] at h0
      cases h0
    unfold fat32_read_fat_com at h0
    rw [if_pos hle] at h0
    obtain ⟨k, hk, rfl⟩ := List.mem_map.mp (List.mem_of_find?_eq_some hf)
    have := List.mem_range.mp hk
    refine ⟨k + 2, ⟨by omega, by omega⟩, hle, h0, ?_⟩
    unfold fat32_write_fat_entry_com
    dsimp only
    rw [if_pos hle]

/-- A create that fails after it has taken a cluster leaves it marked. -/
theorem falha_com_cluster (g : Geometria v) (hn : EmFaixa v n)
    (ha : fat32_alloc_cluster_com le v d = (n, fat32_write_fat_entry v d n 0x0FFFFFFF))
    (h : fat32_create_com le v d p name11 attr = some (0, d')) :
    fat32_read_fat v d' n = 0x0FFFFFFF := by
  have hn0 : n ≠ 0 := by
    unfold EmFaixa at hn
    omega
  have hmarca : fat32_read_fat v (fat32_write_fat_entry v d n 0x0FFFFFFF) n = 0x0FFFFFFF :=
    read_write_self g hn _
  have hz := so_dados_zera g hn (fat32_write_fat_entry v d n 0x0FFFFFFF)
  have hzero : fat32_read_fat v (zera_cluster v (fat32_write_fat_entry v d n 0x0FFFFFFF) n) n =
      0x0FFFFFFF := (hz n hn).1.trans hmarca
  unfold fat32_create_com at h
  rw [ha] at h
  dsimp only at h
  rw [if_neg hn0] at h
  split at h
  · -- the first sector of a new directory cannot be read
    obtain ⟨_, rfl⟩ := Prod.mk.inj (Option.some.inj h)
    exact hzero
  · obtain ⟨r, _, hr⟩ := Option.map_eq_some_iff.mp h
    rcases r with _ | _ | x
    · obtain ⟨_, rfl⟩ := Prod.mk.inj hr
      split
      · exact ((so_dados_pontos g hn p _) n hn).1.trans hzero
      · exact hzero
    · obtain ⟨_, rfl⟩ := Prod.mk.inj hr
      split
      · exact ((so_dados_pontos g hn p _) n hn).1.trans hzero
      · exact hzero
    · exact absurd (Prod.mk.inj hr).1 hn0

/-- A create that fails leaves the volume as it was exactly where it found no free cluster: one that it
has taken stays marked. -/
theorem a_failed_create_leaves_the_volume_iff (h : BemFormado v d)
    (hc : fat32_create_com le v d p name11 attr = some (0, d')) :
    Inalterado v d d' ↔ SemLivre le v d := by
  rcases alloc_com_spec le v d with ⟨hs, ha⟩ | ⟨n, hn, hle, h0, ha⟩
  · unfold fat32_create_com at hc
    rw [ha] at hc
    obtain ⟨_, rfl⟩ := Prod.mk.inj (Option.some.inj hc)
    exact iff_of_true ⟨fun _ _ => rfl, fun _ _ _ _ _ _ => rfl⟩ hs
  · refine iff_of_false (fun hi => ?_) fun hs => hs n hn hle h0
    have hmarca := falha_com_cluster h.geo hn ha hc
    have hfat : fat32_read_fat v d' n = fat32_read_fat v d n :=
      congrArg (· % 2 ^ 28) (hi.fat n hn)
    rw [hmarca, h0] at hfat
    cases hfat

/-! ## A full root -/

/-- A volume whose entries, all in a root of one cluster, have no clusters of their own. -/
theorem bem_sem_clusters (g : Geometria v) (hr : v.root_cluster ≠ 0)
    (hc : Cadeia v d v.root_cluster [v.root_cluster])
    (h0 : ∀ y ∈ slots v v.root_cluster, (dirent d y).cluster = 0)
    (hf : Fim d (slots v v.root_cluster)) : BemFormado v d := by
  have hdir : ∀ q, Dir v d q → q = v.root_cluster := by
    intro q hq
    induction hq with
    | raiz => rfl
    | @sub p cs x _ hcs hv _ _ hne ih =>
      subst ih
      have hx := hv.mem
      rw [Chain.unique hcs hc, entradas, List.flatMap_singleton] at hx
      exact absurd (h0 x hx) hne
  have hobj : ∀ o c, Objeto v d o c → c ≠ 0 → o = none ∧ c = v.root_cluster := by
    intro o c ho hne
    cases ho with
    | raiz => exact ⟨rfl, rfl⟩
    | @entrada p cs x hp hcs hv _ =>
      obtain rfl := hdir p hp
      have hx := hv.mem
      rw [Chain.unique hcs hc, entradas, List.flatMap_singleton] at hx
      exact absurd (h0 x hx) hne
  refine ⟨g, hr, ?_, ?_, ?_, ?_⟩
  · intro o c ho hne
    obtain ⟨_, rfl⟩ := hobj o c ho hne
    exact ⟨_, hc⟩
  · intro o o' c c' _ _ ho ho' hne hk hk' _ _ _
    obtain ⟨rfl, _⟩ := hobj o c ho (Cadeia.ne_zero hk)
    obtain ⟨rfl, _⟩ := hobj o' c' ho' (Cadeia.ne_zero hk')
    exact hne rfl
  · intro q cs y hq hcs hv _
    obtain rfl := hdir q hq
    have hy := hv.mem
    rw [Chain.unique hcs hc, entradas, List.flatMap_singleton] at hy
    exact h0 y hy
  · intro q cs hq hcs
    obtain rfl := hdir q hq
    rw [Chain.unique hcs hc, entradas, List.flatMap_singleton]
    exact hf

/-- A sector of entries `A`, `B` and so on, all of them empty files. -/
def setor_de_vazios : Setor := fun j => if j.val % 32 = 0 then UInt8.ofNat (65 + j.val / 32) else 0

/-- The root has no free entry, and the other cluster is free. -/
def disco_raiz_cheia : Disco := gravar disco_pequeno 1 setor_de_vazios

theorem raiz_cheia_bem : BemFormado pequeno disco_raiz_cheia := by
  have hr : EmFaixa pequeno 2 := ⟨by decide, by decide⟩
  have hm : SoDados pequeno 2 disco_pequeno disco_raiz_cheia :=
    so_dados_gravar (s := 0) pequeno_geo hr (by decide) _
  refine bem_sem_clusters pequeno_geo (by decide) ?_ (by decide +kernel) ?_
  · unfold Cadeia
    rw [hm.elo]
    exact (raiz_vazia pequeno_geo hr).1
  · have hnada : (slots pequeno pequeno.root_cluster).dropWhile
        (fun y => (dirent disco_raiz_cheia y).first ≠ 0) = [] := by
      decide +kernel
    intro y hy
    rw [hnada] at hy
    exact absurd hy List.not_mem_nil

theorem raiz_cheia_falha : ∃ d', fat32_create_com (fun _ => true) pequeno disco_raiz_cheia 2
    (fat32_normalize [90]) FAT32_ATTR_ARCHIVE = some (0, d') := by
  have h : (fat32_create_com (fun _ => true) pequeno disco_raiz_cheia 2 (fat32_normalize [90])
      FAT32_ATTR_ARCHIVE).map (·.1) = some 0 := by
    decide +kernel
  obtain ⟨⟨c, d'⟩, hw, rfl⟩ := Option.map_eq_some_iff.mp h
  exact ⟨d', hw⟩

/-- A create in a full root fails and costs the free cluster. -/
theorem a_create_in_a_full_root_takes_a_cluster : ∃ d',
    fat32_create_com (fun _ => true) pequeno disco_raiz_cheia 2 (fat32_normalize [90])
        FAT32_ATTR_ARCHIVE = some (0, d') ∧
      BemFormado pequeno disco_raiz_cheia ∧ ¬ Inalterado pequeno disco_raiz_cheia d' := by
  obtain ⟨d', hd'⟩ := raiz_cheia_falha
  refine ⟨d', hd', raiz_cheia_bem, fun hi => ?_⟩
  have hn : EmFaixa pequeno 3 := ⟨by decide, by decide⟩
  have ha : fat32_alloc_cluster_com (fun _ => true) pequeno disco_raiz_cheia =
      (3, fat32_write_fat_entry pequeno disco_raiz_cheia 3 0x0FFFFFFF) := by
    rcases alloc_com_spec (fun _ => true) pequeno disco_raiz_cheia with ⟨hs, _⟩ | ⟨n, hr, _, h0, ha⟩
    · exact absurd (by decide +kernel) (hs 3 hn rfl)
    · obtain rfl : n = 3 := by
        have h2 : fat32_read_fat pequeno disco_raiz_cheia 2 ≠ 0 := by decide +kernel
        have hne : n ≠ 2 := fun he => h2 (he ▸ h0)
        have hr' : 2 ≤ n ∧ n < 2 + 2 := hr
        omega
      exact ha
  have hfat : fat32_read_fat pequeno d' 3 = fat32_read_fat pequeno disco_raiz_cheia 3 :=
    congrArg (· % 2 ^ 28) (hi.fat 3 hn)
  rw [falha_com_cluster pequeno_geo hn ha hd'] at hfat
  have h0 : fat32_read_fat pequeno disco_raiz_cheia 3 = 0 := by decide +kernel
  rw [h0] at hfat
  cases hfat

/-- The condition at that create. -/
theorem a_create_in_a_full_root_iff : ∃ d',
    fat32_create_com (fun _ => true) pequeno disco_raiz_cheia 2 (fat32_normalize [90])
        FAT32_ATTR_ARCHIVE = some (0, d') ∧
      (Inalterado pequeno disco_raiz_cheia d' ↔ SemLivre (fun _ => true) pequeno disco_raiz_cheia) := by
  obtain ⟨d', hd'⟩ := raiz_cheia_falha
  exact ⟨d', hd', a_failed_create_leaves_the_volume_iff raiz_cheia_bem hd'⟩

end Falha

end SpaceOS.Fat32
