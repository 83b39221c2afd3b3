-- When the walks of find, create, delete and rename over a directory end, on any FAT: the only exits
-- are a match, an end marker and a value that ends the chain.
import SpaceOS.Fat32Freeing
import SpaceOS.Fat32Init

open Lib.Bytes Lib.Bytes.ByteStr Lib.Trail

namespace SpaceOS.Fat32

/-! ## The calls, as far as a number of clusters -/

section Chamadas

variable (fuel : Nat) (v : Bpb) (d : Disco)

def fat32_find_ate (dir_cluster : Nat) (name11 : List UInt8) : Option (Option Dirent) :=
  (percorre v d (olha_find d name11) fuel dir_cluster).map fun r =>
    (r.bind id).map (dirent d)

/-- The disk when `fat32_create` begins its search: the new cluster is marked and cleared. -/
def preparado (parent_cluster : Nat) (attr : UInt8) : Disco :=
  let (cluster, d) := fat32_alloc_cluster v d
  let d := zera_cluster v d cluster
  if attr &&& FAT32_ATTR_DIR ≠ 0 then pontos v d cluster parent_cluster else d

def fat32_create_ate (parent_cluster : Nat) (name11 : List UInt8) (attr : UInt8) :
    Option (Nat × Disco) :=
  let cluster := (fat32_alloc_cluster v d).1
  if cluster = 0 then some (0, (fat32_alloc_cluster v d).2)
  else
    let d := preparado v d parent_cluster attr
    (percorre v d (olha_livre d) fuel parent_cluster).map fun r =>
      match r with
      | some x => (cluster, gravar_dirent d x (novo_dirent name11 attr cluster))
      | none => (0, d)

def fat32_delete_ate (parent_cluster : Nat) (name11 : List UInt8) : Option (Int × Disco) :=
  (percorre v d (olha_delete d name11) fuel parent_cluster).bind fun r =>
    match r with
    | some (some x) =>
      let e := dirent d x
      (libera v fuel (gravar_dirent d x (apagado e)) e.cluster).map fun d => (0, d)
    | _ => some (-1, d)

def fat32_rename_ate (dir_cluster : Nat) (old_name11 new_name11 : List UInt8) :
    Option (Int × Disco) :=
  (percorre v d (olha_delete d old_name11) fuel dir_cluster).map fun r =>
    match r with
    | some (some x) => (0, gravar_dirent d x (com_nome (dirent d x) new_name11))
    | _ => (-1, d)

/-- A call returns if it has fuel enough. -/
def Retorna {α : Type} (chamada : Nat → Option α) : Prop := ∃ fuel, (chamada fuel).isSome

theorem find_ate_voltas (c : Nat) (name11 : List UInt8) :
    fat32_find_ate (voltas v) v d c name11 = fat32_find v d c name11 := rfl

theorem create_ate_voltas (p : Nat) (name11 : List UInt8) (attr : UInt8) :
    fat32_create_ate (voltas v) v d p name11 attr = fat32_create v d p name11 attr := rfl

theorem delete_ate_voltas (p : Nat) (name11 : List UInt8) :
    fat32_delete_ate (voltas v) v d p name11 = fat32_delete v d p name11 := rfl

theorem rename_ate_voltas (c : Nat) (old_name11 new_name11 : List UInt8) :
    fat32_rename_ate (voltas v) v d c old_name11 new_name11 =
      fat32_rename v d c old_name11 new_name11 := rfl

end Chamadas

/-! ## Walks -/

section Percursos

variable {α : Type} {v : Bpb} {d : Disco} {f : Slot → Option α} {c fuel : Nat}
  {r : Option α} {name11 : List UInt8}

/-- The walk stops at a cluster: it ends the chain, or the search has an answer there. -/
def Para (v : Bpb) (f : Slot → Option α) (c : Nat) : Prop :=
  c ≥ FAT32_EOF ∨ ((slots v c).findSome? f).isSome

/-- The walk comes to no cluster again before it stops. -/
abbrev SemVolta (v : Bpb) (d : Disco) (f : Slot → Option α) (c : Nat) : Prop :=
  NoLap (fat32_read_fat v d) (Para v f) c

/-- A step of a walk that goes on. -/
theorem percorre_passo (hc : ¬ Para v f c) :
    percorre v d f (fuel + 1) c = percorre v d f fuel (fat32_read_fat v d c) := by
  unfold Para at hc
  rw [not_or, Option.not_isSome_iff_eq_none] at hc
  rw [percorre, if_neg hc.1, hc.2]

theorem percorre_para (hc : Para v f c) : (percorre v d f (fuel + 1) c).isSome := by
  rw [percorre]
  by_cases he : c ≥ FAT32_EOF
  · rw [if_pos he]
    rfl
  · obtain ⟨a, ha⟩ := Option.isSome_iff_exists.mp (hc.resolve_left he)
    rw [if_neg he, ha]
    rfl

theorem percorre_mais (k : Nat) (h : percorre v d f fuel c = some r) :
    percorre v d f (fuel + k) c = some r := by
  induction fuel generalizing c with
  | zero => cases h
  | succ fuel ih =>
    rw [Nat.succ_add]
    by_cases hc : Para v f c
    · rw [percorre] at h ⊢
      by_cases he : c ≥ FAT32_EOF
      · rwa [if_pos he] at h ⊢
      · obtain ⟨a, ha⟩ := Option.isSome_iff_exists.mp (hc.resolve_left he)
        rw [if_neg he, ha] at h ⊢
        exact h
    · rw [percorre_passo hc] at h ⊢
      exact ih h

theorem ends_of_percorre (h : (percorre v d f fuel c).isSome) :
    Ends (fat32_read_fat v d) (Para v f) c := by
  induction fuel generalizing c with
  | zero => cases h
  | succ fuel ih =>
    by_cases hc : Para v f c
    · exact .here hc
    · rw [percorre_passo hc] at h
      exact .later hc (ih h)

theorem percorre_of_ends (h : Ends (fat32_read_fat v d) (Para v f) c) :
    ∃ fuel, (percorre v d f fuel c).isSome := by
  induction h with
  | here hc => exact ⟨1, percorre_para hc⟩
  | later hc _ ih =>
    obtain ⟨fuel, hf⟩ := ih
    exact ⟨fuel + 1, by rwa [percorre_passo hc]⟩

/-- A walk ends exactly where it comes to no cluster again: there are only so many numbers below
`FAT32_EOF`. -/
theorem percorre_acaba_iff (v : Bpb) (d : Disco) (f : Slot → Option α) (c : Nat) :
    Retorna (fun fuel => percorre v d f fuel c) ↔ SemVolta v d f c := by
  have hfin : {x | Visits (fat32_read_fat v d) (Para v f) c x}.Finite := by
    refine (Set.finite_lt_nat FAT32_EOF).subset fun x hx => ?_
    exact Nat.not_le.mp fun hge => hx.not_stop (Or.inl hge)
  rw [SemVolta, ← ends_iff hfin]
  constructor
  · rintro ⟨fuel, hf⟩
    exact ends_of_percorre hf
  · exact percorre_of_ends

theorem retorna_map {β : Type} (chamada : Nat → Option α) (g : α → β) :
    Retorna (fun fuel => (chamada fuel).map g) ↔ Retorna chamada := by
  unfold Retorna
  simp only [Option.isSome_map]

/-- The loop that frees the chain always ends, so a delete returns where its walk does. -/
theorem delete_retorna_iff (v : Bpb) (d : Disco) (p : Nat) (name11 : List UInt8) :
    Retorna (fun fuel => fat32_delete_ate fuel v d p name11) ↔
      Retorna (fun fuel => percorre v d (olha_delete d name11) fuel p) := by
  constructor
  · rintro ⟨fuel, hf⟩
    refine ⟨fuel, ?_⟩
    unfold fat32_delete_ate at hf
    dsimp only at hf ⊢
    rcases hp : percorre v d (olha_delete d name11) fuel p with _ | r
    · rw [hp] at hf
      cases hf
    · rfl
  · rintro ⟨fuel, hf⟩
    obtain ⟨r, hr⟩ := Option.isSome_iff_exists.mp hf
    dsimp only at hr
    unfold fat32_delete_ate Retorna
    dsimp only
    rcases r with _ | _ | x
    · refine ⟨fuel, ?_⟩
      rw [hr]
      rfl
    · refine ⟨fuel, ?_⟩
      rw [hr]
      rfl
    · obtain ⟨d', n, hrun, _⟩ :=
        libera_acaba v (gravar_dirent d x (apagado (dirent d x))) (dirent d x).cluster
      refine ⟨fuel + n, ?_⟩
      rw [percorre_mais n hr, Option.bind_some]
      dsimp only
      rw [hrun (fuel + n) (Nat.le_add_left n fuel)]
      rfl

theorem create_retorna_iff (v : Bpb) (d : Disco) (p : Nat) (name11 : List UInt8) (attr : UInt8) :
    Retorna (fun fuel => fat32_create_ate fuel v d p name11 attr) ↔
      (fat32_alloc_cluster v d).1 = 0 ∨ Retorna (fun fuel =>
        percorre v (preparado v d p attr) (olha_livre (preparado v d p attr)) fuel p) := by
  unfold fat32_create_ate
  dsimp only
  by_cases h0 : (fat32_alloc_cluster v d).1 = 0
  · simp only [if_pos h0]
    exact iff_of_true ⟨0, rfl⟩ (Or.inl h0)
  · simp only [if_neg h0]
    rw [or_iff_right h0]
    exact retorna_map _ _

/-- One FAT of one sector and two clusters of one sector each. -/
def setor_ciclico : Setor := fun j =>
  if j.val = 0x0C then 2                              -- 512 bytes per sector
  else if j.val = 0x0D ∨ j.val = 0x0E then 1          -- one sector per cluster, one reserved
  else if j.val = 0x10 ∨ j.val = 0x24 then 1          -- one FAT of one sector
  else if j.val = 0x20 then 4
  else if j.val = 0x2C then 2
  else if 0x52 ≤ j.val ∧ j.val < 0x5A then FAT32_TIPO.getD (j.val - 0x52) 0
  else 0

/-- The root has the name `A` in each entry, and is followed by itself. -/
def disco_ciclico : Disco := fun l =>
  if l = 0 then setor_ciclico else if l = 1 then putWord zero 8 2 else fun _ => 65

def volume_ciclico : Bpb := ⟨1, 1, 2, 2, 2⟩

end Percursos

end SpaceOS.Fat32
