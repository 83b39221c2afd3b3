-- The two conversions of a name (fat32_normalize, reconstruct_name): what the second makes of the
-- first, and when the first makes the same entry of that again.
import SpaceOS.Fat32Listing
import SpaceOS.VfsLaws

open Lib.Bytes Lib.Bytes.ByteStr SpaceOS.Vfs

namespace SpaceOS.Fat32

/-! ## The parts of a name -/

/-- What `fat32_normalize` puts in the field of the name. -/
def parte_nome (f : List UInt8) : List UInt8 := (f.takeWhile (· ≠ 46)).take 8

/-- What it puts in the field of the extension: what comes next, without a dot in front. -/
def parte_ext (f : List UInt8) : List UInt8 :=
  let resto := f.drop (parte_nome f).length
  (if resto.head? = some 46 then resto.tail else resto).take 3

/-- What follows the first dot. -/
def depois_do_ponto (f : List UInt8) : List UInt8 := (f.dropWhile (· ≠ 46)).tail

/-- No space is followed by another character. -/
def SemBuraco (s : List UInt8) : Prop := ∀ b ∈ s.dropWhile (· ≠ 32), b = 32

/-- The two fields as one text. -/
def junta (nome ext : List UInt8) : List UInt8 :=
  let nome := nome.takeWhile (· ≠ 32)
  if ext.any (· ≠ 32) then nome ++ 46 :: ext.takeWhile (· ≠ 32) else nome

section Nomes

variable {f s : List UInt8} {n : Nat}

theorem normalize_partes (f : List UInt8) : fat32_normalize f =
    com_espacos ((parte_nome f).map k_toupper) 8 ++ com_espacos ((parte_ext f).map k_toupper) 3 :=
  rfl

theorem length_parte_nome (f : List UInt8) : (parte_nome f).length ≤ 8 := by
  unfold parte_nome
  rw [List.length_take]
  omega

theorem length_parte_ext (f : List UInt8) : (parte_ext f).length ≤ 3 := by
  unfold parte_ext
  dsimp only
  rw [List.length_take]
  omega

theorem parte_nome_ne_ponto (f : List UInt8) : 46 ∉ parte_nome f := fun h => by
  have := List.mem_takeWhile_imp (List.mem_of_mem_take h)
  simp at this

theorem parte_nome_sub (f : List UInt8) : parte_nome f ⊆ f := fun _ h =>
  List.takeWhile_subset _ (List.mem_of_mem_take h)

theorem parte_ext_sub (f : List UInt8) : parte_ext f ⊆ f := by
  intro b hb
  unfold parte_ext at hb
  have hb := List.mem_of_mem_take hb
  split at hb
  · exact List.mem_of_mem_drop (List.mem_of_mem_tail hb)
  · exact List.mem_of_mem_drop hb

/-- With at most eight characters in front of the first dot the extension is what follows the dot. -/
theorem parte_ext_eq (h : (f.takeWhile (· ≠ 46)).length ≤ 8) :
    parte_ext f = (depois_do_ponto f).take 3 := by
  have hn : parte_nome f = f.takeWhile (· ≠ 46) := List.take_of_length_le h
  have hd : f.drop (f.takeWhile (· ≠ 46)).length = f.dropWhile (· ≠ 46) := by
    have happ := List.takeWhile_append_dropWhile (p := (· ≠ (46 : UInt8))) (l := f)
    have hdrop := congrArg (List.drop (f.takeWhile (· ≠ 46)).length) happ
    rw [List.drop_left] at hdrop
    exact hdrop.symm
  unfold parte_ext depois_do_ponto
  rw [hn, hd]
  dsimp only
  rcases hdw : f.dropWhile (· ≠ 46) with _ | ⟨b, r⟩
  · rw [hdw]
    rfl
  · have hb : b = 46 := by
      have := List.head?_dropWhile_not (· ≠ (46 : UInt8)) f
      rw [hdw] at this
      simpa using this
    rw [hdw, hb, List.head?_cons, if_pos rfl]

/-! ## Letters and spaces -/

@[simp] theorem k_toupper_idem (a : UInt8) : k_toupper (k_toupper a) = k_toupper a := by
  unfold k_toupper
  by_cases h : 97 ≤ a ∧ a ≤ 122
  · have h1 : 97 ≤ a.toNat := UInt8.le_iff_toNat_le.mp h.1
    have h2 : a.toNat ≤ 122 := UInt8.le_iff_toNat_le.mp h.2
    have h3 : (a - 32).toNat = a.toNat - 32 :=
      UInt8.toNat_sub_of_le _ _ (UInt8.le_iff_toNat_le.mpr (Nat.le_trans (by decide) h1))
    rw [if_pos h, if_neg fun h' => ?_]
    have h4 : 97 ≤ (a - 32).toNat := UInt8.le_iff_toNat_le.mp h'.1
    omega
  · rw [if_neg h, if_neg h]

theorem toupper_espaco (a : UInt8) : k_toupper a = 32 ↔ a = 32 :=
  k_toupper_fora (Or.inl (by decide)) a

theorem toupper_mem {b : UInt8} (hb : b.toNat < 65 ∨ 122 < b.toNat) :
    b ∈ s.map k_toupper ↔ b ∈ s := by
  rw [List.mem_map]
  constructor
  · rintro ⟨a, ha, he⟩
    rwa [← (k_toupper_fora hb a).mp he]
  · exact fun h => ⟨b, h, (k_toupper_fora hb b).mpr rfl⟩

theorem mem_com_espacos {b : UInt8} (hb : b ≠ 32) : b ∈ com_espacos s n ↔ b ∈ s := by
  unfold com_espacos
  rw [List.mem_append, List.mem_replicate]
  constructor
  · rintro (h | ⟨_, h⟩)
    · exact h
    · exact absurd h hb
  · exact Or.inl

/-- The spaces behind a text that has none are all that it lacks. -/
theorem com_espacos_takeWhile_iff (hn : s.length = n) :
    com_espacos (s.takeWhile (· ≠ 32)) n = s ↔ SemBuraco s := by
  have happ := List.takeWhile_append_dropWhile (p := (· ≠ (32 : UInt8))) (l := s)
  have hlen : (s.dropWhile (· ≠ 32)).length = n - (s.takeWhile (· ≠ 32)).length := by
    have := congrArg List.length happ
    rw [List.length_append] at this
    omega
  unfold com_espacos SemBuraco
  rw [← hlen]
  constructor
  · intro he
    have htw : List.replicate (s.dropWhile (· ≠ 32)).length 32 = s.dropWhile (· ≠ 32) :=
      List.append_cancel_left (he.trans happ.symm)
    exact List.eq_replicate_length.mp htw.symm
  · intro hb
    have htw := List.eq_replicate_length.mpr hb
    rw [← htw]
    exact happ

theorem semBuraco_com_espacos (s : List UInt8) (n : Nat) :
    SemBuraco (com_espacos s n) ↔ SemBuraco s := by
  unfold SemBuraco com_espacos
  rw [List.dropWhile_append]
  split
  · rename_i h
    rw [List.isEmpty_iff.mp h]
    constructor
    · exact fun _ b hb => absurd hb List.not_mem_nil
    · exact fun _ b hb => List.eq_of_mem_replicate (List.dropWhile_subset _ hb)
  · constructor
    · exact fun h b hb => h b (List.mem_append_left _ hb)
    · intro h b hb
      rcases List.mem_append.mp hb with hb | hb
      · exact h b hb
      · exact List.eq_of_mem_replicate hb

theorem semBuraco_map (s : List UInt8) : SemBuraco (s.map k_toupper) ↔ SemBuraco s := by
  have hd : (s.map k_toupper).dropWhile (· ≠ 32) = (s.dropWhile (· ≠ 32)).map k_toupper := by
    rw [List.dropWhile_map]
    congr 2
    funext a
    simp [toupper_espaco]
  unfold SemBuraco
  rw [hd]
  constructor
  · exact fun h b hb => (toupper_espaco b).mp (h _ (List.mem_map_of_mem hb))
  · intro h b hb
    obtain ⟨a, ha, rfl⟩ := List.mem_map.mp hb
    exact (toupper_espaco a).mpr (h a ha)

/-- A field without a space is full. -/
theorem espaco_com_espacos (hn : s.length ≤ n) :
    32 ∉ com_espacos s n ↔ s.length = n ∧ 32 ∉ s := by
  unfold com_espacos
  rw [List.mem_append, List.mem_replicate, not_or]
  constructor
  · rintro ⟨hs, hr⟩
    refine ⟨?_, hs⟩
    by_contra hne
    exact hr ⟨by omega, rfl⟩
  · rintro ⟨hlen, hs⟩
    exact ⟨hs, fun h => h.1 (by omega)⟩

/-! ## There and back -/

theorem map_takeWhile {p : UInt8 → Bool} (hs : ∀ b ∈ s, k_toupper b = b) :
    (s.takeWhile p).map k_toupper = s.takeWhile p := by
  have hc := List.map_congr_left fun b hb => hs b (List.takeWhile_subset p hb)
  rw [hc]
  exact List.map_id' _

theorem takeWhile_vazio (h : s.any (· ≠ 32) = false) : s.takeWhile (· ≠ 32) = [] := by
  cases s with
  | nil => rfl
  | cons b s =>
    rw [List.any_cons, Bool.or_eq_false_iff] at h
    exact List.takeWhile_cons_of_neg (by rw [h.1]; decide)

/-- The two parts of a text that was put together of fields without a dot in the first one. -/
theorem partes_junta {nome ext : List UInt8} (hn : nome.length ≤ 8) (he : ext.length ≤ 3)
    (h46 : 46 ∉ nome) : parte_nome (junta nome ext) = nome.takeWhile (· ≠ 32) ∧
      parte_ext (junta nome ext) = ext.takeWhile (· ≠ 32) := by
  have hln := (List.takeWhile_prefix (l := nome) (· ≠ (32 : UInt8))).length_le
  have hle := (List.takeWhile_prefix (l := ext) (· ≠ (32 : UInt8))).length_le
  have hpos : ∀ b ∈ nome.takeWhile (· ≠ 32), decide (b ≠ 46) = true := by
    intro b hb
    refine decide_eq_true ?_
    rintro rfl
    exact h46 (List.takeWhile_subset _ hb)
  have hnome : parte_nome (junta nome ext) = nome.takeWhile (· ≠ 32) := by
    unfold parte_nome junta
    dsimp only
    split
    · rw [List.takeWhile_append_of_pos hpos, List.takeWhile_cons_of_neg (by decide),
        List.append_nil, List.take_of_length_le (by omega)]
    · rw [List.takeWhile_eq_self_iff.mpr hpos, List.take_of_length_le (by omega)]
  refine ⟨hnome, ?_⟩
  unfold parte_ext
  rw [hnome]
  unfold junta
  dsimp only
  by_cases hany : ext.any (· ≠ 32) = true
  · rw [if_pos hany, List.drop_left, List.head?_cons, if_pos rfl, List.tail_cons,
      List.take_of_length_le (by omega)]
  · rw [if_neg hany, List.drop_length, takeWhile_vazio (Bool.eq_false_iff.mpr hany)]
    rfl

theorem normalize_junta {nome ext : List UInt8} (hn : nome.length ≤ 8) (he : ext.length ≤ 3)
    (h46 : 46 ∉ nome) (hun : ∀ b ∈ nome, k_toupper b = b) (hue : ∀ b ∈ ext, k_toupper b = b) :
    fat32_normalize (junta nome ext) =
      com_espacos (nome.takeWhile (· ≠ 32)) 8 ++ com_espacos (ext.takeWhile (· ≠ 32)) 3 := by
  obtain ⟨h1, h2⟩ := partes_junta hn he h46
  rw [normalize_partes, h1, h2, map_takeWhile hun, map_takeWhile hue]

/-- The fields of an entry with a name. -/
def campo_nome (f : List UInt8) : List UInt8 := com_espacos ((parte_nome f).map k_toupper) 8

def campo_ext (f : List UInt8) : List UInt8 := com_espacos ((parte_ext f).map k_toupper) 3

theorem length_campo_nome (f : List UInt8) : (campo_nome f).length = 8 := by
  refine com_espacos_length ?_
  rw [List.length_map]
  exact length_parte_nome f

theorem length_campo_ext (f : List UInt8) : (campo_ext f).length = 3 := by
  refine com_espacos_length ?_
  rw [List.length_map]
  exact length_parte_ext f

theorem campo_maiusculo (s : List UInt8) (n : Nat) :
    ∀ b ∈ com_espacos (s.map k_toupper) n, k_toupper b = b := by
  intro b hb
  unfold com_espacos at hb
  rcases List.mem_append.mp hb with hb | hb
  · obtain ⟨a, _, rfl⟩ := List.mem_map.mp hb
    exact k_toupper_idem a
  · rw [List.eq_of_mem_replicate hb]
    rfl

/-- The name that is listed leads to the same 11 bytes exactly where no part of it has a space in
front of another character. -/
theorem normalize_campos_iff (f : List UInt8) :
    fat32_normalize (junta (campo_nome f) (campo_ext f)) = fat32_normalize f ↔
      SemBuraco (parte_nome f) ∧ SemBuraco (parte_ext f) := by
  have hn := length_campo_nome f
  have he := length_campo_ext f
  have h46 : 46 ∉ campo_nome f := by
    unfold campo_nome
    rw [mem_com_espacos (by decide), toupper_mem (Or.inl (by decide))]
    exact parte_nome_ne_ponto f
  have hun : ∀ b ∈ campo_nome f, k_toupper b = b := campo_maiusculo _ _
  have hue : ∀ b ∈ campo_ext f, k_toupper b = b := campo_maiusculo _ _
  rw [normalize_junta (by omega) (by omega) h46 hun hue]
  change _ = campo_nome f ++ campo_ext f ↔ _
  have hln := (List.takeWhile_prefix (l := campo_nome f) (· ≠ (32 : UInt8))).length_le
  rw [← semBuraco_map (parte_nome f), ← semBuraco_map (parte_ext f),
    ← semBuraco_com_espacos ((parte_nome f).map k_toupper) 8,
    ← semBuraco_com_espacos ((parte_ext f).map k_toupper) 3]
  change _ ↔ SemBuraco (campo_nome f) ∧ SemBuraco (campo_ext f)
  rw [← com_espacos_takeWhile_iff hn, ← com_espacos_takeWhile_iff he]
  constructor
  · intro h
    exact List.append_inj h ((com_espacos_length (by omega)).trans hn.symm)
  · rintro ⟨h1, h2⟩
    rw [h1, h2]

theorem takeWhile_length_iff : (s.takeWhile (· ≠ 32)).length = s.length ↔ 32 ∉ s := by
  have hpre := List.takeWhile_prefix (l := s) (· ≠ (32 : UInt8))
  constructor
  · intro hlen hmem
    have := List.mem_takeWhile_imp (hpre.eq_of_length hlen ▸ hmem)
    simp at this
  · intro hmem
    have hpos : ∀ b ∈ s, decide (b ≠ 32) = true := by
      intro b hb
      refine decide_eq_true ?_
      rintro rfl
      exact hmem hb
    rw [List.takeWhile_eq_self_iff.mpr hpos]

/-- Both parts of a name are full. -/
def Cheia (f : List UInt8) : Prop :=
  ((parte_nome f).length = 8 ∧ 32 ∉ parte_nome f) ∧ (parte_ext f).length = 3 ∧ 32 ∉ parte_ext f

/-- A listed name has twelve characters at most, and twelve where both parts are full. -/
theorem length_junta (f : List UInt8) : (junta (campo_nome f) (campo_ext f)).length ≤ 12 ∧
    ((junta (campo_nome f) (campo_ext f)).length = 12 ↔ Cheia f) := by
  have hn := length_campo_nome f
  have he := length_campo_ext f
  have hln := (List.takeWhile_prefix (l := campo_nome f) (· ≠ (32 : UInt8))).length_le
  have hle := (List.takeWhile_prefix (l := campo_ext f) (· ≠ (32 : UInt8))).length_le
  have hcheia : Cheia f ↔ 32 ∉ campo_nome f ∧ 32 ∉ campo_ext f := by
    have h32 : ∀ t : List UInt8, 32 ∉ t.map k_toupper ↔ 32 ∉ t := fun t =>
      not_congr (toupper_mem (Or.inl (by decide)))
    have h1 := espaco_com_espacos (s := (parte_nome f).map k_toupper) (n := 8)
      (by rw [List.length_map]; exact length_parte_nome f)
    have h2 := espaco_com_espacos (s := (parte_ext f).map k_toupper) (n := 3)
      (by rw [List.length_map]; exact length_parte_ext f)
    rw [List.length_map, h32] at h1 h2
    exact (and_congr h1 h2).symm
  rw [hcheia, ← takeWhile_length_iff, ← takeWhile_length_iff, hn, he]
  unfold junta
  dsimp only
  by_cases hany : (campo_ext f).any (· ≠ 32) = true
  · rw [if_pos hany, List.length_append, List.length_cons]
    omega
  · rw [if_neg hany, takeWhile_vazio (Bool.eq_false_iff.mpr hany), List.length_nil]
    omega

/-- A byte that is no letter, space or dot is in what is listed only if it was in the name. -/
theorem mem_junta {b : UInt8} (hb : b.toNat < 65 ∨ 122 < b.toNat) (h32 : b ≠ 32) (h46 : b ≠ 46)
    (hf : b ∉ f) : b ∉ junta (campo_nome f) (campo_ext f) := by
  have hn : b ∉ campo_nome f := by
    unfold campo_nome
    rw [mem_com_espacos h32, toupper_mem hb]
    exact fun h => hf (parte_nome_sub f h)
  have he : b ∉ campo_ext f := by
    unfold campo_ext
    rw [mem_com_espacos h32, toupper_mem hb]
    exact fun h => hf (parte_ext_sub f h)
  intro h
  unfold junta at h
  dsimp only at h
  split at h
  · rcases List.mem_append.mp h with h | h
    · exact hn (List.takeWhile_subset _ h)
    · rcases List.mem_cons.mp h with h | h
      · exact h46 h
      · exact he (List.takeWhile_subset _ h)
  · exact hn (List.takeWhile_subset _ h)

/-! ## The entry of a name -/

theorem novo_byte {name11 : List UInt8} (attr : UInt8) (c : Nat) {i : Nat} (hi : i < 11) :
    (novo_dirent name11 attr c).mem i = name11.getD i 0 := by
  unfold mem
  rw [dif_pos (by omega)]
  unfold novo_dirent
  exact if_pos hi

theorem ofFn_slice {k m i : Nat} (e : ByteStr m) (hs : s.length = k)
    (h : ∀ j < k, e.mem (i + j) = s.getD j 0) : List.ofFn (e.slice i k) = s := by
  subst hs
  apply List.ext_getElem (by rw [List.length_ofFn])
  intro j hj hj'
  rw [List.getElem_ofFn]
  change e.mem (i + j) = _
  rw [h j hj', List.getD_eq_getElem]

theorem novo_name (f : List UInt8) (attr : UInt8) (c : Nat) :
    (novo_dirent (fat32_normalize f) attr c).name = campo_nome f := by
  have hn := length_campo_nome f
  refine ofFn_slice _ hn fun j hj => ?_
  rw [Nat.zero_add, novo_byte attr c (by omega)]
  change (campo_nome f ++ campo_ext f).getD j 0 = _
  rw [List.getD_append _ _ _ _ (by omega)]

theorem novo_ext (f : List UInt8) (attr : UInt8) (c : Nat) :
    (novo_dirent (fat32_normalize f) attr c).ext = campo_ext f := by
  have hn := length_campo_nome f
  refine ofFn_slice _ (length_campo_ext f) fun j hj => ?_
  rw [novo_byte attr c (by omega)]
  change (campo_nome f ++ campo_ext f).getD (8 + j) 0 = _
  rw [List.getD_append_right _ _ _ _ (by omega), hn, Nat.add_sub_cancel_left]

theorem reconstruct_novo (f : List UInt8) (attr : UInt8) (c : Nat) :
    reconstruct_name (novo_dirent (fat32_normalize f) attr c) =
      junta (campo_nome f) (campo_ext f) := by
  unfold reconstruct_name
  rw [novo_name, novo_ext]
  rfl

/-- The characters of the extension field follow the first dot of the name. -/
def ExtDoPonto (f : List UInt8) (e : Dirent) : Prop :=
  ∀ b ∈ e.ext, b ≠ 32 → ∃ a ∈ depois_do_ponto f, k_toupper a = b

/-- At most eight characters are in front of the first dot, or those behind the eighth are by chance
ones that come after the dot as well. -/
def PontoACabe (f : List UInt8) : Prop :=
  (f.takeWhile (· ≠ 46)).length ≤ 8 ∨
    ∀ b ∈ parte_ext f, b ≠ 32 → ∃ a ∈ depois_do_ponto f, k_toupper a = k_toupper b

theorem extDoPonto_iff (f : List UInt8) (attr : UInt8) (c : Nat) :
    ExtDoPonto f (novo_dirent (fat32_normalize f) attr c) ↔ PontoACabe f := by
  have hcampo : ExtDoPonto f (novo_dirent (fat32_normalize f) attr c) ↔
      ∀ b ∈ parte_ext f, b ≠ 32 → ∃ a ∈ depois_do_ponto f, k_toupper a = k_toupper b := by
    unfold ExtDoPonto
    rw [novo_ext]
    constructor
    · intro h b hb hb32
      have hne : k_toupper b ≠ 32 := fun he => hb32 ((toupper_espaco b).mp he)
      exact h _ ((mem_com_espacos hne).mpr (List.mem_map_of_mem hb)) hne
    · intro h b hb hb32
      obtain ⟨a, ha, rfl⟩ := List.mem_map.mp ((mem_com_espacos hb32).mp hb)
      exact h a ha fun he => hb32 ((toupper_espaco a).mpr he)
  rw [hcampo]
  constructor
  · exact Or.inr
  · rintro (h | h)
    · intro b hb _
      rw [parte_ext_eq h] at hb
      exact ⟨b, List.mem_of_mem_take hb, rfl⟩
    · exact h

end Nomes

end SpaceOS.Fat32
