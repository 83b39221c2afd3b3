-- Listing a directory (fat32_readdir, reconstruct_name): the loops with their bound on the number of
-- entries, and what they list of a chain.
import Mathlib.Data.List.TakeWhile
import SpaceOS.Fat32Volume

open Lib.Bytes Lib.Bytes.ByteStr

namespace SpaceOS.Fat32

/-! ## Names -/

namespace Dirent

def name (e : Dirent) : List UInt8 := List.ofFn (e.slice 0 8)

def ext (e : Dirent) : List UInt8 := List.ofFn (e.slice 8 3)

end Dirent

/-- The bytes that are put before the zero. -/
def reconstruct_name (e : Dirent) : List UInt8 :=
  let nome := e.name.takeWhile (· ≠ 32)
  let has_ext := e.ext.any (· ≠ 32)
  if has_ext then nome ++ 46 :: e.ext.takeWhile (· ≠ 32) else nome

/-- `fat32_entry_t`. -/
structure Fat32Entry where
  name : List UInt8
  is_dir : Bool
  first_cluster : Nat
  size : Nat

def fat32_entry (e : Dirent) : Fat32Entry where
  name := reconstruct_name e
  is_dir := e.attr &&& FAT32_ATTR_DIR ≠ 0
  first_cluster := e.cluster
  size := e.size

/-! ## The loops -/

/-- An entry before the end marker that `fat32_readdir` does not pass over. -/
def listado (d : Disco) (x : Slot) : Bool :=
  (dirent d x).first ≠ 0xE5 && (dirent d x).attr ≠ FAT32_ATTR_LFN &&
    (dirent d x).attr &&& FAT32_ATTR_VOLUME = 0

/-- The loop over the entries of a cluster: `max` more at most, and whether the end marker came. -/
def lista_cluster (d : Disco) : List Slot → Nat → List Slot × Bool
  | [], _ => ([], false)
  | _ :: _, 0 => ([], false)
  | x :: xs, max + 1 =>
    if (dirent d x).first = 0x00 then ([], true)
    else if listado d x then
      let (r, done) := lista_cluster d xs max
      (x :: r, done)
    else lista_cluster d xs (max + 1)

/-- The loop over the clusters. -/
def lista_laco (v : Bpb) (d : Disco) : Nat → Nat → Nat → Option (List Slot)
  | 0, _, _ => none
  | fuel + 1, cluster, max =>
    if cluster < FAT32_EOF ∧ 0 < max then
      let (r, done) := lista_cluster d (slots v cluster) max
      if done then some r
      else
        (lista_laco v d fuel (fat32_read_fat v d cluster) (max - r.length)).map fun resto => r ++ resto
    else some []

def fat32_readdir_ate (fuel : Nat) (v : Bpb) (d : Disco) (dir_cluster max : Nat) :
    Option (List Fat32Entry) :=
  (lista_laco v d fuel dir_cluster max).map fun r => r.map fun x => fat32_entry (dirent d x)

def fat32_readdir (v : Bpb) (d : Disco) (dir_cluster max : Nat) : Option (List Fat32Entry) :=
  fat32_readdir_ate (voltas v) v d dir_cluster max

/-! ## What is listed -/

section Lista

variable {v : Bpb} {d : Disco} {c fuel : Nat} {cs : List Nat} {x : Slot} {ss ts : List Slot}

/-- The chain of a directory up to a value that ends it; its clusters may be any numbers. -/
inductive Fila (v : Bpb) (d : Disco) : Nat → List Nat → Prop
  | fim {c : Nat} : FAT32_EOF ≤ c → Fila v d c []
  | passo {c : Nat} {cs : List Nat} : c < FAT32_EOF → Fila v d (fat32_read_fat v d c) cs →
      Fila v d c (c :: cs)

/-- The entries that a listing without a bound shows. -/
def visiveis (d : Disco) (ss : List Slot) : List Slot :=
  (ss.takeWhile fun x => (dirent d x).first ≠ 0).filter (listado d)

theorem visiveis_fim (h : (dirent d x).first = 0) : visiveis d (x :: ss) = [] := by
  unfold visiveis
  rw [List.takeWhile_cons_of_neg (by simp [h])]
  rfl

theorem visiveis_cons (h : (dirent d x).first ≠ 0) :
    visiveis d (x :: ss) = if listado d x then x :: visiveis d ss else visiveis d ss := by
  unfold visiveis
  rw [List.takeWhile_cons_of_pos (by simp [h]), List.filter_cons]

theorem visiveis_append_of_mem (h : ∃ y ∈ ss, (dirent d y).first = 0) :
    visiveis d (ss ++ ts) = visiveis d ss := by
  induction ss with
  | nil =>
    obtain ⟨y, hy, _⟩ := h
    exact absurd hy List.not_mem_nil
  | cons x ss ih =>
    rw [List.cons_append]
    by_cases h0 : (dirent d x).first = 0
    · rw [visiveis_fim h0, visiveis_fim h0]
    · obtain ⟨y, hy, hy0⟩ := h
      have hy' : y ∈ ss := (List.mem_cons.mp hy).resolve_left fun he => h0 (he ▸ hy0)
      rw [visiveis_cons h0, visiveis_cons h0, ih ⟨y, hy', hy0⟩]

theorem visiveis_append (h : ∀ y ∈ ss, (dirent d y).first ≠ 0) :
    visiveis d (ss ++ ts) = visiveis d ss ++ visiveis d ts := by
  have hpos : ∀ y ∈ ss, decide ((dirent d y).first ≠ 0) = true := fun y hy => decide_eq_true (h y hy)
  unfold visiveis
  rw [List.takeWhile_append_of_pos hpos, List.filter_append, List.takeWhile_eq_self_iff.mpr hpos]

theorem visiveis_prefix (d : Disco) (ss ts : List Slot) : visiveis d ss <+: visiveis d (ss ++ ts) := by
  by_cases h : ∃ y ∈ ss, (dirent d y).first = 0
  · rewrite [visiveis_append_of_mem h]
    exact List.prefix_refl _
  · rewrite [visiveis_append fun y hy h0 => h ⟨y, hy, h0⟩]
    exact List.prefix_append _ _

/-- A cluster gives its first entries, the end marker among them, or all that it has. -/
theorem lista_cluster_eq (d : Disco) (ss : List Slot) (max : Nat) :
    (lista_cluster d ss max).1 = (visiveis d ss).take max ∧
      ((lista_cluster d ss max).2 = true → ∃ y ∈ ss, (dirent d y).first = 0) ∧
      ((lista_cluster d ss max).2 = false → (lista_cluster d ss max).1.length < max →
        ∀ y ∈ ss, (dirent d y).first ≠ 0) := by
  induction ss generalizing max with
  | nil =>
    refine ⟨?_, fun h => absurd h (by simp [lista_cluster]), fun _ _ y hy => absurd hy List.not_mem_nil⟩
    simp [lista_cluster, visiveis]
  | cons x ss ih =>
    cases max with
    | zero =>
      refine ⟨?_, fun h => absurd h (by simp [lista_cluster]), fun _ h => absurd h (Nat.not_lt_zero _)⟩
      simp [lista_cluster]
    | succ max =>
      rw [lista_cluster]
      by_cases h0 : (dirent d x).first = 0
      · rw [if_pos h0, visiveis_fim h0]
        exact ⟨rfl, fun _ => ⟨x, List.mem_cons_self, h0⟩, fun h => absurd h (by simp)⟩
      rw [if_neg h0, visiveis_cons h0]
      by_cases hl : listado d x
      · obtain ⟨ih1, ih2, ih3⟩ := ih max
        rw [if_pos hl, if_pos hl]
        dsimp only
        refine ⟨?_, fun h => ?_, fun h hlen y hy => ?_⟩
        · rw [ih1, List.take_succ_cons]
        · obtain ⟨y, hy, hy0⟩ := ih2 h
          exact ⟨y, List.mem_cons_of_mem _ hy, hy0⟩
        · rw [List.length_cons] at hlen
          rcases List.mem_cons.mp hy with rfl | hy
          · exact h0
          · exact ih3 h (by omega) y hy
      · obtain ⟨ih1, ih2, ih3⟩ := ih (max + 1)
        rw [if_neg hl, if_neg hl]
        refine ⟨ih1, fun h => ?_, fun h hlen y hy => ?_⟩
        · obtain ⟨y, hy, hy0⟩ := ih2 h
          exact ⟨y, List.mem_cons_of_mem _ hy, hy0⟩
        · rcases List.mem_cons.mp hy with rfl | hy
          · exact h0
          · exact ih3 h hlen y hy

/-- A listing shows the first `max` entries of the chain that are visible. -/
theorem lista_laco_eq (h : Fila v d c cs) (hf : cs.length < fuel) (max : Nat) :
    lista_laco v d fuel c max = some ((visiveis d (cs.flatMap (slots v))).take max) := by
  induction h generalizing fuel max with
  | fim hc =>
    obtain ⟨k, rfl⟩ : ∃ k, fuel = k + 1 := ⟨fuel - 1, by omega⟩
    rw [lista_laco, if_neg (by omega)]
    simp [visiveis]
  | @passo c cs hc _ ih =>
    obtain ⟨k, rfl⟩ : ∃ k, fuel = k + 1 := ⟨fuel - 1, by omega⟩
    rw [List.length_cons] at hf
    rw [lista_laco, List.flatMap_cons]
    by_cases hm : max = 0
    · subst hm
      rw [if_neg (by omega), List.take_zero]
    rw [if_pos ⟨hc, by omega⟩]
    dsimp only
    obtain ⟨h1, h2, h3⟩ := lista_cluster_eq d (slots v c) max
    by_cases hdone : (lista_cluster d (slots v c) max).2 = true
    · rw [if_pos hdone, h1, visiveis_append_of_mem (h2 hdone)]
    rw [if_neg hdone, ih (by omega), Option.map_some]
    have hdone := Bool.eq_false_iff.mpr hdone
    by_cases hlen : (lista_cluster d (slots v c) max).1.length < max
    · rw [visiveis_append (h3 hdone hlen)]
      have hle : (visiveis d (slots v c)).length ≤ max := by
        rw [h1, List.length_take] at hlen
        omega
      rw [h1, List.take_of_length_le hle, List.take_append, List.take_of_length_le hle]
    · have hlen' : (visiveis d (slots v c)).length ≥ max := by
        rw [h1, List.length_take] at hlen
        omega
      obtain ⟨ts, hts⟩ := visiveis_prefix d (slots v c) (cs.flatMap (slots v))
      rw [h1, List.length_take, Nat.min_eq_left hlen', Nat.sub_self, List.take_zero,
        List.append_nil, ← hts, List.take_append_of_le_length hlen']

end Lista

end SpaceOS.Fat32
