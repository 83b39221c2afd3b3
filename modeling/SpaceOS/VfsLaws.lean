-- A file that was written is found again: where its entry lies, and what a read gives then.
import SpaceOS.Fat32Laws
import SpaceOS.Vfs

open Lib.Bytes Lib.Bytes.ByteStr Lib.Links SpaceOS.Fat32

namespace SpaceOS.Vfs

section Busca

variable {v : Bpb} {d d' : Disco} {p c : Nat} {cs : List Nat} {x y z : Slot} {ss : List Slot}
  {name11 : List UInt8}

/-! ## The two searches -/

theorem find_eq (g : Geometria v) (hc : Cadeia v d p cs) :
    fat32_find v d p name11 =
      some ((((entradas v cs).findSome? (olha_find d name11)).bind id).map (dirent d)) := by
  unfold fat32_find
  rw [percorre_voltas g hc]
  rfl

theorem olha_find_congr (h : dirent d' y = dirent d y) :
    olha_find d' name11 y = olha_find d name11 y := by
  unfold olha_find
  rw [h]

/-- At an entry that is not the end marker a search goes on, or takes it. -/
theorem olha_find_ou (name11 : List UInt8) (h : (dirent d y).first ≠ 0) :
    olha_find d name11 y = none ∨ olha_find d name11 y = some (some y) := by
  unfold olha_find
  dsimp only
  rw [if_neg h]
  split
  · exact Or.inl rfl
  split
  · exact Or.inl rfl
  split
  · exact Or.inl rfl
  split
  · exact Or.inr rfl
  · exact Or.inl rfl

theorem olha_delete_ou (name11 : List UInt8) (h : (dirent d y).first ≠ 0) :
    olha_delete d name11 y = none ∨ olha_delete d name11 y = some (some y) := by
  unfold olha_delete
  dsimp only
  rw [if_neg h]
  split
  · exact Or.inl rfl
  split
  · exact Or.inl rfl
  split
  · exact Or.inr rfl
  · exact Or.inl rfl

/-- What `fat32_find` takes `fat32_delete` would take. -/
theorem delete_of_find (h : olha_find d name11 y = some (some z)) :
    olha_delete d name11 y = some (some y) :=
  olha_delete_iff.mpr ⟨rfl, (olha_find_iff.mp h).2.1⟩

theorem find_none_of_delete (h : olha_delete d name11 y = none) : olha_find d name11 y = none := by
  rcases olha_find_ou name11 (first_ne_of_delete h) with hf | hf
  · exact hf
  · rw [delete_of_find hf] at h
    exact absurd h (by simp)

/-- The search of `fat32_delete` ends at an entry where the one of `fat32_find` does. -/
theorem delete_acha (h : ss.findSome? (olha_find d name11) = some (some x)) :
    ∃ m, ss.findSome? (olha_delete d name11) = some (some m) := by
  obtain ⟨pre, a, post, rfl, ha, hpre⟩ := List.findSome?_eq_some_iff.mp h
  rw [List.findSome?_append]
  rcases hp : pre.findSome? (olha_delete d name11) with _ | r
  · refine ⟨a, ?_⟩
    rw [Option.none_or, List.findSome?_cons, delete_of_find ha]
  · obtain ⟨b, hb, hr⟩ := List.exists_of_findSome?_eq_some hp
    rcases olha_delete_ou name11 (first_ne_of_find (hpre b hb)) with hn | hs
    · rw [hn] at hr
      exact absurd hr (by simp)
    · rw [hs] at hr
      exact ⟨b, by rw [← hr]; rfl⟩

/-- Before the first free entry there is no entry with the name, if the search finds none. -/
theorem antes_sem_igual {pre post : List Slot} (hl : Livre d ss pre post x)
    (hf : ∀ z, ss.findSome? (olha_find d name11) ≠ some (some z)) :
    ∀ y ∈ pre, olha_find d name11 y = none := by
  intro y hy
  rcases olha_find_ou name11 (hl.antes y hy).1 with hn | hs
  · exact hn
  exfalso
  rw [hl.eq, List.findSome?_append] at hf
  rcases hp : pre.findSome? (olha_find d name11) with _ | r
  · rw [List.findSome?_eq_none_iff.mp hp y hy] at hs
    exact absurd hs (by simp)
  · obtain ⟨b, hb, hr⟩ := List.exists_of_findSome?_eq_some hp
    rw [hp] at hf
    rcases olha_find_ou name11 (hl.antes b hb).1 with hn | hs
    · rw [hn] at hr
      exact absurd hr (by simp)
    · rw [hs] at hr
      exact hf b (by rw [← hr]; rfl)

theorem prefixo_sem {α : Type} {pre post pm qm : List α} {a m : α}
    (h : pre ++ a :: post = pm ++ m :: qm) (hm : m ∉ pre) : pre ⊆ pm := by
  rcases List.append_eq_append_iff.mp h with ⟨as, rfl, _⟩ | ⟨bs, rfl, hbs⟩
  · exact List.subset_append_left _ _
  · cases bs with
    | nil => simp
    | cons b bs =>
      obtain ⟨rfl, _⟩ := List.cons.inj hbs
      exact absurd (List.mem_append_right _ List.mem_cons_self) hm

/-! ## The old file -/

/-- After the old file is deleted no entry before the first free one has the name. -/
theorem apaga_antigo_spec (h : BemFormado v d) (hp : Dir v d p) (hc : Cadeia v d p cs)
    (hname : name11 ≠ PONTO ∧ name11 ≠ PONTO_PONTO) :
    ∃ d', apaga_antigo v d p name11 = some d' ∧ BemFormado v d' ∧ Dir v d' p ∧
      Cadeia v d' p cs ∧ ∀ pre post x, Livre d' (entradas v cs) pre post x →
        ∀ y ∈ pre, olha_find d' name11 y = none := by
  unfold apaga_antigo
  rw [find_eq h.geo hc, Option.bind_some]
  rcases hf : (entradas v cs).findSome? (olha_find d name11) with _ | _ | m
  · refine ⟨d, rfl, h, hp, hc, fun pre post x hl => antes_sem_igual hl fun z hz => ?_⟩
    rw [hf] at hz
    exact absurd hz (by simp)
  · refine ⟨d, rfl, h, hp, hc, fun pre post x hl => antes_sem_igual hl fun z hz => ?_⟩
    rw [hf] at hz
    exact absurd hz (by simp)
  obtain ⟨k, hk⟩ := delete_acha hf
  obtain ⟨d', hd, ha⟩ := delete_achou h hp hc hname hk
  refine ⟨d', ?_, ha.bem, ha.dir, ha.cadeia, fun pre post x hl y hy => ?_⟩
  · rw [Option.bind_some, id, Option.map_some]
    dsimp only
    rw [hd]
    rfl
  · -- the deleted entry is free now, so the first free one does not lie behind it
    have hkpre : k ∉ pre := fun hmem => (hl.antes k hmem).2 (by rw [ha.marca]; rfl)
    obtain ⟨pm, b, qm, hss, hb, hpm⟩ := List.findSome?_eq_some_iff.mp hk
    obtain rfl : k = b := (olha_delete_iff.mp hb).1
    have hmem : y ∈ entradas v cs := by
      rw [hl.eq]
      exact List.mem_append_left _ hy
    rw [olha_find_congr (ha.outros y hmem fun he => hkpre (he ▸ hy))]
    exact find_none_of_delete (hpm y (prefixo_sem (hl.eq.symm.trans hss) hkpre hy))

/-! ## The new file -/

/-- The search takes the first entry if the name is its own, unless it looks like a deleted one. -/
theorem olha_novo (hd : dirent d x = novo_dirent name11 FAT32_ATTR_ARCHIVE c)
    (hlen : name11.length = 11) (h0 : name11.getD 0 0 ≠ 0) (h5 : name11.getD 0 0 ≠ 0xE5) :
    olha_find d name11 x = some (some x) := by
  refine olha_find_iff.mpr ⟨rfl, ⟨?_, ?_, ?_, ?_⟩, ?_⟩
  · rwa [hd, novo_first]
  · rwa [hd, novo_first]
  · rw [hd, novo_attr]
    decide
  · rw [hd, novo_raw11 hlen]
  · rw [hd, novo_attr]
    decide

/-- An entry with the mark of a deleted one is not found. -/
theorem find_marcado (h5 : name11.getD 0 0 = 0xE5) :
    ss.findSome? (olha_find d name11) ≠ some (some x) := by
  intro hf
  obtain ⟨y, _, hy⟩ := List.exists_of_findSome?_eq_some hf
  obtain ⟨_, hs, _⟩ := olha_find_iff.mp hy
  rw [← hs.nome] at h5
  exact hs.marca h5

/-! ## Names and paths -/

theorem com_espacos_length {s : List UInt8} {n : Nat} (h : s.length ≤ n) :
    (com_espacos s n).length = n := by
  unfold com_espacos
  rw [List.length_append, List.length_replicate]
  omega

theorem normalize_length (f : List UInt8) : (fat32_normalize f).length = 11 := by
  unfold fat32_normalize
  rw [List.length_append, com_espacos_length, com_espacos_length]
  · rw [List.length_map, List.length_take]
    omega
  · rw [List.length_map, List.length_take]
    omega

/-- A byte that is no letter stays, and no other becomes it. -/
theorem k_toupper_fora {b : UInt8} (hb : b.toNat < 65 ∨ 122 < b.toNat) (a : UInt8) :
    k_toupper a = b ↔ a = b := by
  unfold k_toupper
  split
  · rename_i ha
    have h1 : 97 ≤ a.toNat := UInt8.le_iff_toNat_le.mp ha.1
    have h2 : a.toNat ≤ 122 := UInt8.le_iff_toNat_le.mp ha.2
    constructor
    · intro he
      have h3 := congrArg UInt8.toNat he
      rw [UInt8.toNat_sub_of_le _ _ (UInt8.le_iff_toNat_le.mpr (Nat.le_trans (by decide) h1))] at h3
      change a.toNat - 32 = b.toNat at h3
      omega
    · rintro rfl
      omega
  · exact Iff.rfl

/-- The first byte of a name that is no letter, no space and no dot. -/
theorem normalize_head {b : UInt8} (hb : b.toNat < 65 ∨ 122 < b.toNat) (h32 : b ≠ 32)
    (h46 : b ≠ 46) (f : List UInt8) :
    (fat32_normalize f).getD 0 0 = b ↔ f.head? = some b := by
  unfold fat32_normalize com_espacos
  cases f with
  | nil => simp [h32.symm]
  | cons a f =>
    by_cases ha : a = 46
    · subst ha
      simp [h32.symm, h46.symm]
    · simp [ha, k_toupper_fora hb]

/-- The name looks like the one of a deleted entry where its first byte is the mark. -/
theorem normalize_e5 (f : List UInt8) :
    (fat32_normalize f).getD 0 0 = 0xE5 ↔ f.head? = some 0xE5 :=
  normalize_head (Or.inr (by decide)) (by decide) (by decide) f

theorem split_simples {path : List UInt8} (h : BARRA ∉ path) : path_split_last path = ([], path) := by
  have hn : ultima_barra path = none := by
    unfold ultima_barra
    rw [List.getLast?_eq_none_iff, List.filter_eq_nil_iff]
    intro i hi hb
    have hlt := List.mem_range.mp hi
    refine h ?_
    rw [← of_decide_eq_true hb, List.getD, List.getElem?_eq_getElem hlt]
    exact List.getElem_mem hlt
  unfold path_split_last
  rw [hn]

theorem pai_simples {cwd : Cwd} {path : List UInt8} (h : BARRA ∉ path) :
    resolve_pai v d cwd path = some (0, cwd.cluster) := by
  unfold resolve_pai
  rw [split_simples h]
  dsimp only
  rw [if_pos rfl, if_neg]
  intro hh
  exact h (List.mem_of_mem_head? hh)

/-! ## A read after a write -/

/-- The search finds the new entry, also after its file was written. -/
theorem acha_novo {d₁ d₂ : Disco} (g : Geometria v) (hlen : name11.length = 11)
    (h0 : name11.getD 0 0 ≠ 0) (h5 : name11.getD 0 0 ≠ 0xE5)
    (hantes : ∀ pre post x, Livre d (entradas v cs) pre post x →
      ∀ y ∈ pre, olha_find d name11 y = none)
    (hcriado : Criado v d d₁ p cs c (novo_dirent name11 FAT32_ATTR_ARCHIVE c))
    (hpoupa : Poupa v [c] d₁ d₂) :
    fat32_find v d₂ p name11 = some (some (novo_dirent name11 FAT32_ATTR_ARCHIVE c)) := by
  obtain ⟨hc₁, hfora, pre, post, x, hl, hx, hpre⟩ := hcriado
  obtain ⟨hc₂, he⟩ := hpoupa.cadeia hc₁ fun z hz hzc => hfora (List.mem_singleton.mp hzc ▸ hz)
  have hmem : ∀ y ∈ pre ++ x :: post, dirent d₂ y = dirent d₁ y := fun y hy =>
    he y (hl.eq.symm ▸ hy)
  have hxx := (hmem x (List.mem_append_right _ List.mem_cons_self)).trans hx
  have hnada : pre.findSome? (olha_find d₂ name11) = none := by
    refine List.findSome?_eq_none_iff.mpr fun y hy => ?_
    rw [olha_find_congr ((hmem y (List.mem_append_left _ hy)).trans (hpre y hy))]
    exact hantes pre post x hl y hy
  rw [find_eq g hc₂, hl.eq, List.findSome?_append, hnada, Option.none_or, List.findSome?_cons,
    olha_novo hxx hlen h0 h5]
  dsimp only
  rw [Option.bind_some, id, Option.map_some, hxx]

/-- After a write the search finds the new entry, unless it looks like a deleted one. -/
theorem find_depois {cwd : Cwd} {f buf : List UInt8} {r : Int} (h : BemFormado v d)
    (hp : Dir v d cwd.cluster) (hb : BARRA ∉ f) (hz : 0 ∉ f)
    (hm : cwd.montado) (hw : vfs_write v d cwd f buf = some (r, d')) (hr : 0 ≤ r) :
    ∃ c, fat32_find v d' cwd.cluster (fat32_normalize f) =
      some (if f.head? = some 0xE5 then none
        else some (novo_dirent (fat32_normalize f) FAT32_ATTR_ARCHIVE c)) := by
  obtain ⟨cs, hc⟩ := h.cadeia hp
  obtain ⟨d₁, hap, h₁, hp₁, hc₁, hantes⟩ := apaga_antigo_spec h hp hc (normalize_ponto f)
  obtain ⟨c, d₂, hcr, _, harq, hcriado, _⟩ := create_spec h₁ hp₁
    (normalize_first hz).1 (Or.inr rfl)
  unfold vfs_write at hw
  rw [if_pos hm, pai_simples hb, split_simples hb, Option.bind_some] at hw
  dsimp only at hw
  rw [if_neg (by decide), hap, Option.bind_some, hcr, Option.bind_some] at hw
  dsimp only at hw
  by_cases hc0 : c = 0
  · rw [if_pos hc0] at hw
    obtain ⟨rfl, _⟩ := Prod.mk.inj (Option.some.inj hw)
    exact absurd hr (by decide)
  rw [if_neg hc0] at hw
  obtain ⟨r', d₃, cs', hwf, _, hpoupa⟩ := write_spec buf (harq rfl hc0)
  rw [hwf] at hw
  obtain ⟨_, rfl⟩ := Prod.mk.inj (Option.some.inj hw)
  refine ⟨c, ?_⟩
  by_cases h5 : f.head? = some 0xE5
  · obtain ⟨hc₂, hfora, _⟩ := hcriado hc0 cs hc₁
    obtain ⟨hc₃, _⟩ := hpoupa.cadeia hc₂ fun z hz hzc => hfora (List.mem_singleton.mp hzc ▸ hz)
    rw [if_pos h5, find_eq h.geo hc₃]
    rcases hf : (entradas v cs).findSome? (olha_find d₃ (fat32_normalize f)) with _ | _ | z
    · rfl
    · rfl
    · exact absurd hf (find_marcado ((normalize_e5 f).mpr h5))
  · rw [if_neg h5]
    exact acha_novo h.geo (normalize_length f) (normalize_first hz).1
      (fun he5 => h5 ((normalize_e5 f).mp he5)) hantes (hcriado hc0 cs hc₁) hpoupa

/-- A read after a write gives nothing: the entry says that the file is empty. -/
theorem read_depois {cwd : Cwd} {f buf : List UInt8} {r : Int} (h : BemFormado v d)
    (hp : Dir v d cwd.cluster) (hb : BARRA ∉ f) (hz : 0 ∉ f)
    (hm : cwd.montado) (hw : vfs_write v d cwd f buf = some (r, d')) (hr : 0 ≤ r) (max : Nat) :
    vfs_read v d' cwd f max = some (if f.head? = some 0xE5 then (-1, []) else (0, [])) := by
  obtain ⟨c, hf⟩ := find_depois h hp hb hz hm hw hr
  unfold vfs_read vfs_open
  rw [if_pos hm, pai_simples hb, split_simples hb, Option.bind_some]
  dsimp only
  rw [if_neg (by decide), hf, Option.map_some, Option.bind_some]
  by_cases h5 : f.head? = some 0xE5
  · rw [if_pos h5, if_pos h5]
    rfl
  · have hnd : is_dir (novo_dirent (fat32_normalize f) FAT32_ATTR_ARCHIVE c) = false := by
      unfold is_dir
      rw [novo_attr]
      decide
    rw [if_neg h5, if_neg h5, Option.map_some]
    dsimp only
    rw [hnd, if_neg (by decide), novo_size, Nat.zero_min]
    unfold fat32_read
    rw [if_neg (by omega)]
    rfl

/-- The round trip: a read after a write of a file gives its bytes exactly where the file is empty
and its name does not start with the mark of a deleted entry. -/
theorem vfs_read_write_iff {cwd : Cwd} {f buf : List UInt8} {max : Nat} (h : BemFormado v d)
    (hm : cwd.montado) (hp : Dir v d cwd.cluster) (hb : BARRA ∉ f) (hz : 0 ∉ f)
    (hw : vfs_write v d cwd f buf = some ((buf.length : Int), d')) :
    vfs_read v d' cwd f max = some ((buf.length : Int), buf) ↔
      buf = [] ∧ f.head? ≠ some 0xE5 := by
  rw [read_depois h hp hb hz hm hw (Int.natCast_nonneg _) max]
  by_cases h5 : f.head? = some 0xE5
  · rw [if_pos h5]
    constructor
    · intro he
      have := (Prod.mk.inj (Option.some.inj he)).1
      omega
    · rintro ⟨_, hn⟩
      exact absurd h5 hn
  · rw [if_neg h5]
    constructor
    · intro he
      exact ⟨(Prod.mk.inj (Option.some.inj he)).2.symm, h5⟩
    · rintro ⟨rfl, _⟩
      rfl

theorem pequeno_escreve (buf : List UInt8) {r : Int}
    (h : (vfs_write pequeno disco_pequeno ⟨true, 2⟩ [65] buf).map (·.1) = some r) :
    ∃ d', vfs_write pequeno disco_pequeno ⟨true, 2⟩ [65] buf = some (r, d') := by
  obtain ⟨w, hw, rfl⟩ := Option.map_eq_some_iff.mp h
  exact ⟨w.2, hw⟩

/-- An empty file is read back. -/
theorem vfs_read_write_vazio :
    ∃ d', vfs_write pequeno disco_pequeno ⟨true, 2⟩ [65] [] = some (0, d') ∧
      vfs_read pequeno d' ⟨true, 2⟩ [65] 1 = some (0, []) := by
  obtain ⟨d', hw⟩ := pequeno_escreve [] (r := 0) (by decide +kernel)
  exact ⟨d', hw, (vfs_read_write_iff pequeno_bem rfl .raiz (by decide) (by decide) hw).mpr
    ⟨rfl, by decide⟩⟩

/-- One byte is written and none is read back. -/
theorem vfs_read_write_perde :
    ∃ d', vfs_write pequeno disco_pequeno ⟨true, 2⟩ [65] [7] = some (1, d') ∧
      vfs_read pequeno d' ⟨true, 2⟩ [65] 1 = some (0, []) := by
  obtain ⟨d', hw⟩ := pequeno_escreve [7] (r := 1) (by decide +kernel)
  exact ⟨d', hw, read_depois pequeno_bem .raiz (by decide) (by decide) rfl hw (by decide) 1⟩

end Busca

end SpaceOS.Vfs
