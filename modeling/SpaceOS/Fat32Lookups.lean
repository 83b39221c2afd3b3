-- The four scans of a directory compared: where find, delete and rename take the same entry, the
-- first one with the name that a listing shows.
import SpaceOS.Fat32Listing
import SpaceOS.Fat32Walks
import SpaceOS.VfsLaws

open Lib.Bytes Lib.Bytes.ByteStr Lib.Links

namespace SpaceOS.Fat32

/-! ## The slot of each call -/

section Slots

variable (fuel : Nat) (v : Bpb) (d : Disco)

/-- The slot that `fat32_find` answers with. -/
def slot_find (dir_cluster : Nat) (name11 : List UInt8) : Option (Option Slot) :=
  (percorre v d (olha_find d name11) fuel dir_cluster).map fun r => r.bind id

/-- The slot that `fat32_delete` marks. -/
def slot_delete (parent_cluster : Nat) (name11 : List UInt8) : Option (Option Slot) :=
  (percorre v d (olha_delete d name11) fuel parent_cluster).map fun r => r.bind id

/-- The slot that `fat32_rename` writes: its search is that of `fat32_delete`. -/
def slot_rename (dir_cluster : Nat) (old_name11 : List UInt8) : Option (Option Slot) :=
  (percorre v d (olha_delete d old_name11) fuel dir_cluster).map fun r => r.bind id

/-- The first entry with the name that `fat32_readdir` lists, with room for `max` entries. -/
def slot_listado (dir_cluster max : Nat) (name11 : List UInt8) : Option (Option Slot) :=
  (lista_laco v d fuel dir_cluster max).map fun r => r.find? fun x => (dirent d x).raw11 = name11

theorem find_ate_slot (c : Nat) (name11 : List UInt8) : fat32_find_ate fuel v d c name11 =
    (slot_find fuel v d c name11).map fun r => r.map (dirent d) := by
  unfold fat32_find_ate slot_find
  rw [Option.map_map]
  rfl

theorem delete_ate_slot (p : Nat) (name11 : List UInt8) : fat32_delete_ate fuel v d p name11 =
    (slot_delete fuel v d p name11).bind fun r =>
      match r with
      | some x => (libera v fuel (gravar_dirent d x (apagado (dirent d x)))
          (dirent d x).cluster).map fun d => (0, d)
      | none => some (-1, d) := by
  unfold fat32_delete_ate slot_delete
  rcases percorre v d (olha_delete d name11) fuel p with _ | _ | _ | x
  · rfl
  · rfl
  · rfl
  · rfl

theorem rename_ate_slot (c : Nat) (old_name11 new_name11 : List UInt8) :
    fat32_rename_ate fuel v d c old_name11 new_name11 =
      (slot_rename fuel v d c old_name11).map fun r =>
        match r with
        | some x => (0, gravar_dirent d x (com_nome (dirent d x) new_name11))
        | none => (-1, d) := by
  unfold fat32_rename_ate slot_rename
  rcases percorre v d (olha_delete d old_name11) fuel c with _ | _ | _ | x
  · rfl
  · rfl
  · rfl
  · rfl

end Slots

/-! ## The scans of a chain -/

section Varredura

variable {v : Bpb} {d : Disco} {c fuel : Nat} {cs : List Nat} {x : Slot} {ss : List Slot}
  {name11 : List UInt8}

theorem percorre_fila {α : Type} (h : Fila v d c cs) (hf : cs.length < fuel) (f : Slot → Option α) :
    percorre v d f fuel c = some ((cs.flatMap (slots v)).findSome? f) := by
  induction h generalizing fuel with
  | fim hc =>
    obtain ⟨k, rfl⟩ : ∃ k, fuel = k + 1 := ⟨fuel - 1, by omega⟩
    rw [percorre, if_pos hc]
    rfl
  | @passo c cs hc _ ih =>
    obtain ⟨k, rfl⟩ : ∃ k, fuel = k + 1 := ⟨fuel - 1, by omega⟩
    rw [List.length_cons] at hf
    rw [percorre, if_neg (Nat.not_le.mpr hc), List.flatMap_cons, List.findSome?_append]
    rcases (slots v c).findSome? f with _ | a
    · dsimp only
      rw [ih (by omega)]
      rfl
    · rfl

/-- A lookup takes the first visible entry with the name. -/
theorem find_visivel (d : Disco) (name11 : List UInt8) (ss : List Slot) :
    (ss.findSome? (olha_find d name11)).bind id =
      (visiveis d ss).find? fun x => (dirent d x).raw11 = name11 := by
  induction ss with
  | nil => rfl
  | cons x ss ih =>
    by_cases h0 : (dirent d x).first = 0
    · have hx : olha_find d name11 x = some none := if_pos h0
      rw [visiveis_fim h0, List.findSome?_cons, hx]
      rfl
    rw [visiveis_cons h0, List.findSome?_cons]
    by_cases hl : listado d x
    · rw [if_pos hl]
      unfold listado at hl
      rw [Bool.and_eq_true, Bool.and_eq_true, decide_eq_true_iff, decide_eq_true_iff,
        decide_eq_true_iff] at hl
      obtain ⟨⟨h5, hlfn⟩, hvol⟩ := hl
      by_cases hn : (dirent d x).raw11 = name11
      · have hx := olha_find_iff.mpr ⟨rfl, ⟨h0, h5, hlfn, hn⟩, hvol⟩
        rw [hx, List.find?_cons_of_pos (by simpa using hn)]
        rfl
      · have hx : olha_find d name11 x = none := by
          refine (Vfs.olha_find_ou name11 h0).resolve_right fun hs => ?_
          exact hn (olha_find_iff.mp hs).2.1.nome
        rw [hx, List.find?_cons_of_neg (by simpa using hn)]
        exact ih
    · have hx : olha_find d name11 x = none := by
        refine (Vfs.olha_find_ou name11 h0).resolve_right fun hs => hl ?_
        obtain ⟨_, hs, hvol⟩ := olha_find_iff.mp hs
        unfold listado
        rw [Bool.and_eq_true, Bool.and_eq_true, decide_eq_true_iff, decide_eq_true_iff,
          decide_eq_true_iff]
        exact ⟨⟨hs.marca, hs.lfn⟩, hvol⟩
      rw [if_neg hl, hx]
      exact ih

/-- The first live entry with the name before the end marker is a volume label. -/
def RotuloNaFrente (d : Disco) (ss : List Slot) (name11 : List UInt8) : Prop :=
  ∃ pre x post, ss = pre ++ x :: post ∧ (∀ y ∈ pre, (dirent d y).first ≠ 0 ∧ ¬ Serve d name11 y) ∧
    Serve d name11 x ∧ (dirent d x).attr &&& FAT32_ATTR_VOLUME ≠ 0

theorem olha_delete_none_iff : olha_delete d name11 x = none ↔
    (dirent d x).first ≠ 0 ∧ ¬ Serve d name11 x := by
  constructor
  · intro h
    refine ⟨first_ne_of_delete h, fun hs => ?_⟩
    rw [olha_delete_iff.mpr ⟨rfl, hs⟩] at h
    cases h
  · rintro ⟨h0, hs⟩
    refine (Vfs.olha_delete_ou name11 h0).resolve_right fun h => ?_
    exact hs (olha_delete_iff.mp h).2

/-- Where the search of `fat32_delete` does not stop at a label, it is that of `fat32_find`. -/
theorem delete_eq_find_iff : (ss.findSome? (olha_delete d name11)).bind id =
    (ss.findSome? (olha_find d name11)).bind id ↔ ¬ RotuloNaFrente d ss name11 := by
  constructor
  · rintro he ⟨pre, x, post, rfl, hpre, hs, hvol⟩
    have hdel : (pre ++ x :: post).findSome? (olha_delete d name11) = some (some x) :=
      List.findSome?_eq_some_iff.mpr ⟨pre, x, post, rfl, olha_delete_iff.mpr ⟨rfl, hs⟩,
        fun y hy => olha_delete_none_iff.mpr (hpre y hy)⟩
    rw [hdel] at he
    obtain ⟨r, hr, hrx⟩ := Option.bind_eq_some_iff.mp he.symm
    rw [show r = some x from hrx] at hr
    exact hvol (acha_find hr).2.2
  · intro hn
    rcases hd : ss.findSome? (olha_delete d name11) with _ | _ | x
    · have hf : ss.findSome? (olha_find d name11) = none :=
        List.findSome?_eq_none_iff.mpr fun y hy =>
          Vfs.find_none_of_delete (List.findSome?_eq_none_iff.mp hd y hy)
      rw [hf]
    · obtain ⟨pre, y, post, rfl, hy, hpre⟩ := List.findSome?_eq_some_iff.mp hd
      have h0 : (dirent d y).first = 0 := by
        by_contra h0
        rcases Vfs.olha_delete_ou name11 h0 with h | h
        · rw [h] at hy
          cases hy
        · rw [h] at hy
          cases hy
      have hf : (pre ++ y :: post).findSome? (olha_find d name11) = some none :=
        List.findSome?_eq_some_iff.mpr ⟨pre, y, post, rfl, if_pos h0,
          fun z hz => Vfs.find_none_of_delete (hpre z hz)⟩
      rw [hf]
    · obtain ⟨pre, y, post, rfl, hy, hpre⟩ := List.findSome?_eq_some_iff.mp hd
      obtain ⟨rfl, hs⟩ := olha_delete_iff.mp hy
      have hvol : (dirent d x).attr &&& FAT32_ATTR_VOLUME = 0 := by
        by_contra hvol
        exact hn ⟨pre, x, post, rfl, fun z hz => olha_delete_none_iff.mp (hpre z hz), hs, hvol⟩
      have hf : (pre ++ x :: post).findSome? (olha_find d name11) = some (some x) :=
        List.findSome?_eq_some_iff.mpr ⟨pre, x, post, rfl, olha_find_iff.mpr ⟨rfl, hs, hvol⟩,
          fun z hz => Vfs.find_none_of_delete (hpre z hz)⟩
      rw [hf]

/-- The three calls succeed on the same inputs and act on the same slot, the first one with the name
that a listing with room for all entries shows. -/
structure Concordam (fuel : Nat) (v : Bpb) (d : Disco) (c max : Nat) (name11 : List UInt8) :
    Prop where
  find : slot_find fuel v d c name11 = slot_listado fuel v d c max name11
  delete : slot_delete fuel v d c name11 = slot_listado fuel v d c max name11
  rename : slot_rename fuel v d c name11 = slot_listado fuel v d c max name11

/-- The root with the label `A`. -/
def disco_rotulo : Disco :=
  gravar_dirent disco_pequeno (1, 0) (novo_dirent (fat32_normalize [65]) FAT32_ATTR_VOLUME 0)

end Varredura

end SpaceOS.Fat32
