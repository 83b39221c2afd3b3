-- Overwriting a file (vfs_write): the old one is deleted before the new one is created. What is left
-- where the disk gets full on the way.
import SpaceOS.Fat32Lost
import SpaceOS.Fat32Faults
import SpaceOS.VfsPaths

open Lib.Bytes Lib.Bytes.ByteStr Lib.Links SpaceOS.Fat32

namespace SpaceOS.Vfs

section Sobrescrita

variable {v : Bpb} {d d₁ d' : Disco} {p c : Nat} {cs : List Nat} {x k : Slot} {ss : List Slot}
  {n : List UInt8}

/-- What is deleted is what was found, or a label in front of it. -/
theorem apagado_ou_rotulo (hx : ss.findSome? (olha_find d n) = some (some x))
    (hk : ss.findSome? (olha_delete d n) = some (some k)) :
    k = x ∨ (dirent d k).attr &&& FAT32_ATTR_VOLUME ≠ 0 := by
  by_cases hvol : (dirent d k).attr &&& FAT32_ATTR_VOLUME = 0
  · left
    obtain ⟨pre, a, post, rfl, ha, hpre⟩ := List.findSome?_eq_some_iff.mp hk
    obtain ⟨rfl, hs⟩ := olha_delete_iff.mp ha
    have hnada : pre.findSome? (olha_find d n) = none :=
      List.findSome?_eq_none_iff.mpr fun y hy => find_none_of_delete (hpre y hy)
    rw [List.findSome?_append, hnada, Option.none_or, List.findSome?_cons,
      olha_find_iff.mpr ⟨rfl, hs, hvol⟩] at hx
    exact Option.some.inj (Option.some.inj hx)
  · exact Or.inr hvol

/-- The volume after the old file was deleted. -/
structure Antigo (v : Bpb) (d : Disco) (p : Nat) (n : List UInt8) (cs : List Nat) (k : Slot)
    (d₁ : Disco) : Prop where
  chamada : fat32_delete v d p n = some (0, d₁)
  bem : BemFormado v d₁
  dir : Dir v d₁ p
  cadeia : Cadeia v d₁ p cs
  perda : SemPerda v d d₁
  livre : k ∈ entradas v cs ∧ (dirent d₁ k).first = 0xE5
  antes : ∀ pre post x, Livre d₁ (entradas v cs) pre post x → ∀ y ∈ pre, olha_find d₁ n y = none

/-- The deletion of a file loses no cluster. -/
theorem apaga_arquivo (h : BemFormado v d) (hp : Dir v d p) (hc : Cadeia v d p cs)
    (hname : n ≠ PONTO ∧ n ≠ PONTO_PONTO)
    (hx : (entradas v cs).findSome? (olha_find d n) = some (some x)) (hdir : ¬ EhDir (dirent d x)) :
    ∃ k d₁, apaga_antigo v d p n = some d₁ ∧ Antigo v d p n cs k d₁ := by
  obtain ⟨k, hk⟩ := delete_acha hx
  obtain ⟨hv, hraw⟩ := acha_delete hk
  have hn : ¬ EhPonto (dirent d k) := by
    unfold EhPonto
    rw [hraw]
    exact not_or.mpr hname
  have hkdir : EhDir (dirent d k) → (dirent d k).cluster = 0 := by
    intro hd
    rcases apagado_ou_rotulo hx hk with rfl | hvol
    · exact absurd hd hdir
    · exact h.rotulos p cs k hp hc hv hvol
  obtain ⟨dₘ, d₁, ks, hl, hdel, hap⟩ := delete_passos h hp hc hname hk
  obtain ⟨d₂, hantigo, hb, hp₁, hc₁, hantes⟩ := apaga_antigo_spec h hp hc hname
  obtain rfl : d₂ = d₁ := by
    unfold apaga_antigo at hantigo
    rw [find_eq h.geo hc, hx, hdel] at hantigo
    exact (Option.some.inj hantigo).symm
  obtain ⟨_, he⟩ := (hl.solta.pastas hap.bem hl.so_em).entradas hap.dir hap.cadeia
  refine ⟨k, d₂, hantigo, hdel, hb, hp₁, hc₁, hl.sem_perda h hp hc hv hn hkdir hap.bem,
    ⟨hv.mem, ?_⟩, hantes⟩
  rw [he k hv.mem, hap.marca]
  rfl

/-- Where the old file left a free entry the new one is created, if a cluster is free. -/
theorem cria_novo (ha : Antigo v d p n cs k d₁) (h0 : n.getD 0 0 ≠ 0) (h5 : n.getD 0 0 ≠ 0xE5)
    (hlen : n.length = 11) (hname : n ≠ PONTO ∧ n ≠ PONTO_PONTO) :
    (Cheio v d₁ ∧ fat32_create v d₁ p n FAT32_ATTR_ARCHIVE = some (0, d₁)) ∨
      ∃ c d₂ x, c ≠ 0 ∧ fat32_create v d₁ p n FAT32_ATTR_ARCHIVE = some (c, d₂) ∧
        SemPerda v d₁ d₂ ∧ Objeto v d₂ (some x) c := by
  rcases create_passos ha.bem ha.dir ha.cadeia n FAT32_ATTR_ARCHIVE with
    hcheio | ⟨c, d₂, ht, ⟨hnada, _⟩ | ⟨pre, post, x, hl, hcria⟩⟩
  · exact Or.inl hcheio
  · -- the deleted entry is free
    obtain ⟨_, he⟩ := ((solta_livre ht.livre).pastas ha.bem ht.so_em).entradas ha.dir ha.cadeia
    have hk := hnada k ha.livre.1
    unfold olha_livre at hk
    rw [if_pos (Or.inr (by rw [he k ha.livre.1]; exact ha.livre.2))] at hk
    exact absurd hk (by simp)
  · obtain ⟨hs, ho⟩ := ht.sem_perda ha.bem ha.dir ha.cadeia hl h0 h5 hlen hname
    exact Or.inr ⟨c, _, x, Cadeia.ne_zero ht.avulsa.cadeia, hcria, hs, ho⟩

/-- Over an existing file: no cluster is lost, and a new file has its name if there was one free
for it. -/
theorem write_em_arquivo {buf : List UInt8} {r : Int} (h : BemFormado v d) (hp : Dir v d p)
    (hc : Cadeia v d p cs) (hlen : n.length = 11) (hname : n ≠ PONTO ∧ n ≠ PONTO_PONTO)
    (hx : (entradas v cs).findSome? (olha_find d n) = some (some x)) (hdir : ¬ EhDir (dirent d x))
    (hw : write_em v d buf (some (p, n)) = some (r, d')) :
    BemFormado v d' ∧ (∀ c, Perdido v d' c → Perdido v d c) ∧
      ((r = -1 ∧ Cheio v d' ∧ fat32_delete v d p n = some (0, d')) ∨
        ∃ c, fat32_find v d' p n = some (some (novo_dirent n FAT32_ATTR_ARCHIVE c))) := by
  obtain ⟨a, _, hsome⟩ := List.exists_of_findSome?_eq_some hx
  have hs := (olha_find_iff.mp hsome).2.1
  have hfirst : (dirent d a).first = n.getD 0 0 := by
    rw [← hs.nome]
    rfl
  have h0 : n.getD 0 0 ≠ 0 := hfirst ▸ hs.first
  have h5 : n.getD 0 0 ≠ 0xE5 := hfirst ▸ hs.marca
  obtain ⟨k, d₁, hap, ha⟩ := apaga_arquivo h hp hc hname hx hdir
  unfold write_em at hw
  dsimp only at hw
  rw [hap, Option.bind_some] at hw
  rcases cria_novo ha h0 h5 hlen hname with ⟨hcheio, hcria⟩ | ⟨c, d₂, y, hc0, hcria, hperda, ho⟩
  · rw [hcria, Option.bind_some] at hw
    dsimp only at hw
    rw [if_pos rfl] at hw
    obtain ⟨rfl, rfl⟩ := Prod.mk.inj (Option.some.inj hw)
    exact ⟨ha.bem, fun c hc => ha.perda.perdido hc, Or.inl ⟨rfl, hcheio, ha.chamada⟩⟩
  · rw [hcria, Option.bind_some] at hw
    dsimp only at hw
    rw [if_neg hc0] at hw
    obtain ⟨c', d₂', hcria', _, harq, hcriado, _⟩ := create_spec ha.bem ha.dir h0 (Or.inr rfl)
    rw [hcria] at hcria'
    obtain ⟨rfl, rfl⟩ := Prod.mk.inj (Option.some.inj hcria')
    have harq := harq rfl hc0
    obtain ⟨r', d₃, cs', hwf, harq', hpoupa⟩ := write_spec buf harq
    rw [hw] at hwf
    obtain ⟨rfl, rfl⟩ := Prod.mk.inj (Option.some.inj hwf)
    have hr := harq.cadeia.em_faixa List.mem_cons_self
    have hfim : fat32_read_fat v d₂ c ≥ FAT32_EOF := by
      cases harq.cadeia with
      | last he => exact elo_none he
      | cons _ hn => cases hn
    obtain ⟨_, ns, hns, _⟩ := write_file_escrita h.geo.distintos hr hfim hw
    have hperda' := hns.sem_perda harq ho hpoupa
    refine ⟨harq'.bem, fun z hz => ha.perda.perdido (hperda.perdido (hperda'.perdido hz)),
      Or.inr ⟨c, ?_⟩⟩
    exact acha_novo h.geo hlen h0 h5 ha.antes (hcriado hc0 cs ha.cadeia) hpoupa

theorem open_novo
    (hf : fat32_find v d p n = some (some (novo_dirent n FAT32_ATTR_ARCHIVE c))) :
    open_em v d (some (p, n)) =
      some (some ⟨false, (novo_dirent n FAT32_ATTR_ARCHIVE c).cluster, 0⟩) := by
  have hnd : is_dir (novo_dirent n FAT32_ATTR_ARCHIVE c) = false := by
    unfold is_dir
    rw [novo_attr]
    decide
  rw [open_em, hf, Option.map_some, Option.map_some, hnd, novo_size]

/-- A volume whose only cluster is the one of the root. -/
def so_raiz : Bpb := ⟨1, 0, 1, 2, 1⟩

/-- The root has an empty file `A`. -/
def disco_cheio : Disco :=
  gravar_dirent (fat32_write_fat_entry so_raiz (fun _ => zero) 2 0x0FFFFFFF) (1, 0)
    (novo_dirent (fat32_normalize [65]) FAT32_ATTR_ARCHIVE 0)

theorem so_raiz_bem : BemFormado so_raiz disco_cheio := by
  have g : Geometria so_raiz := ⟨by decide, by decide, by decide, by decide⟩
  refine bem_sem_clusters g (by decide) (.last (by decide +kernel)) (by decide +kernel) ?_
  unfold Fim
  decide +kernel

theorem abre_cheio :
    vfs_open so_raiz disco_cheio ⟨true, 2⟩ [65] = some (some ⟨false, 0, 0⟩) := by
  have h : (vfs_open so_raiz disco_cheio ⟨true, 2⟩ [65]).map (Option.map fun e =>
      (e.is_dir, e.cluster, e.size)) = some (some (false, 0, 0)) := by
    decide +kernel
  obtain ⟨fe, hfe, he⟩ := Option.map_eq_some_iff.mp h
  obtain ⟨⟨_, _, _⟩, rfl, hcampos⟩ := Option.map_eq_some_iff.mp he
  cases hcampos
  exact hfe

theorem sobrescreve_cheio : ∃ d',
    vfs_write so_raiz disco_cheio ⟨true, 2⟩ [65] [7] = some (-1, d') ∧
      vfs_open so_raiz d' ⟨true, 2⟩ [65] = some none := by
  have h : (vfs_write so_raiz disco_cheio ⟨true, 2⟩ [65] [7]).map (fun r =>
      (r.1, (vfs_open so_raiz r.2 ⟨true, 2⟩ [65]).map Option.isNone)) = some (-1, some true) := by
    decide +kernel
  obtain ⟨⟨r, d'⟩, hw, hr⟩ := Option.map_eq_some_iff.mp h
  obtain ⟨rfl, ho⟩ := Prod.mk.inj hr
  obtain ⟨fe, hfe, hnone⟩ := Option.map_eq_some_iff.mp ho
  rw [Option.isNone_iff_eq_none.mp hnone] at hfe
  exact ⟨d', hw, hfe⟩

end Sobrescrita

end SpaceOS.Vfs
