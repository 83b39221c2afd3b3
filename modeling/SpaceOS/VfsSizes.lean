-- The sizes of the files of a FAT32 volume over runs of VFS calls: a new entry has size 0 and no call
-- changes it, so no read ever gives a byte.
import SpaceOS.VfsNames

open Lib.Bytes Lib.Bytes.ByteStr Lib.Links SpaceOS.Fat32

namespace SpaceOS.Vfs

/-! ## Volumes whose entries have a property -/

/-- A property that new entries have and that a new name leaves; a directory that has it has a first
cluster. -/
structure Estavel (v : Bpb) (Q : Dirent → Prop) : Prop where
  nova : ∀ n attr c, EmFaixa v c → Q (novo_dirent n attr c)
  nome : ∀ e n, Q e → Q (com_nome e n)
  pasta : ∀ e, Q e → EhDir e → e.cluster ≠ 0

/-- A well formed volume where each live entry but `.`, `..` and the labels has the property. -/
structure Todas (v : Bpb) (Q : Dirent → Prop) (d : Disco) : Prop where
  bem : BemFormado v d
  todas : ∀ q cs, Dir v d q → Cadeia v d q cs → ∀ y, Conta d (entradas v cs) y →
    ¬ EhPonto (dirent d y) → Q (dirent d y)

section Passos

variable {v : Bpb} {Q : Dirent → Prop} {d d' : Disco} {p : Nat} {x : Slot} {n n' : List UInt8}
  {attr : UInt8}

theorem Todas.entre {novo : Slot → Prop} {pasta : Nat → Prop} (h : Todas v Q d)
    (hb : BemFormado v d') (he : Entre v novo pasta d d')
    (hnovo : ∀ x, novo x → ∀ q cs, Dir v d q → Cadeia v d q cs → Conta d' (entradas v cs) x →
      ¬ EhPonto (dirent d' x) → Q (dirent d' x))
    (hpasta : ∀ q cs, pasta q → Cadeia v d' q cs → ∀ y, Conta d' (entradas v cs) y →
      EhPonto (dirent d' y)) : Todas v Q d' := by
  refine ⟨hb, fun q cs hq hc y hy hn => ?_⟩
  rcases he q cs hq hc with hp | ⟨hq, hc, hv⟩
  · exact absurd (hpasta q cs hp hc y hy) hn
  rcases hv y hy.1 with hx | ⟨hyv, hye⟩
  · exact hnovo y hx q cs hq hc hy hn
  · have hy := conta_igual hyv hye hy
    rw [hye] at hn ⊢
    exact h.todas q cs hq hc y hy hn

theorem Todas.reduz (h : Todas v Q d) (hb : BemFormado v d') (hr : Reduz v d d') : Todas v Q d' :=
  h.entre hb hr (fun _ hf => hf.elim) (fun _ _ hf => hf.elim)

theorem Todas.create (hQ : Estavel v Q) (h : Todas v Q d) (hp : Dir v d p) (hn : Nome n)
    (hattr : attr = FAT32_ATTR_DIR ∨ attr = FAT32_ATTR_ARCHIVE) :
    ∃ c d', fat32_create v d p n attr = some (c, d') ∧ Todas v Q d' ∧
      (attr = FAT32_ATTR_ARCHIVE → c ≠ 0 → Arq v d' c [c]) := by
  obtain ⟨c, d', hc, hb, harq, _, hz, ha⟩ := create_spec h.bem hp hn.primeiro hattr
  refine ⟨c, d', hc, ?_, harq⟩
  by_cases hc0 : c = 0
  · exact h.reduz hb (hz hc0).1
  obtain ⟨x, hx⟩ := ha hc0
  refine h.entre hb hx.entre ?_ ?_
  · rintro y rfl q cs _ _ _ _
    rw [hx.novo]
    exact hQ.nova n attr c hx.faixa
  · rintro q cs ⟨rfl, hq, hnova⟩ hk y hy
    obtain rfl := Chain.unique hk hq
    have hm := hy.1.mem
    rw [entradas, List.flatMap_singleton] at hm
    exact (hnova.pontos y hm hy.1.first_ne).1

/-- The search of `fat32_delete` takes an entry, or the call leaves the volume. -/
theorem delete_casos {cs : List Nat} (g : Geometria v) (hc : Cadeia v d p cs) (n : List UInt8) :
    (∃ x, (entradas v cs).findSome? (olha_delete d n) = some (some x)) ∨
      fat32_delete v d p n = some (-1, d) := by
  unfold fat32_delete
  rw [percorre_voltas g hc, Option.bind_some]
  rcases hf : (entradas v cs).findSome? (olha_delete d n) with _ | _ | x
  · exact Or.inr rfl
  · exact Or.inr rfl
  · exact Or.inl ⟨x, rfl⟩

theorem Todas.apaga (h : Todas v Q d) (hp : Dir v d p) (hn : Nome n) :
    ∃ d', apaga_antigo v d p n = some d' ∧ Todas v Q d' ∧ Dir v d' p := by
  obtain ⟨cs, hc⟩ := h.bem.cadeia hp
  obtain ⟨r, hr⟩ := find_retorna h.bem hp n
  unfold apaga_antigo
  rw [hr, Option.bind_some]
  cases r with
  | none => exact ⟨d, rfl, h, hp⟩
  | some e =>
    dsimp only
    rcases delete_casos h.bem.geo hc n with ⟨x, hf⟩ | hd
    · obtain ⟨d', hd, ha⟩ := delete_achou h.bem hp hc hn.ponto hf
      rw [hd]
      exact ⟨d', rfl, h.reduz ha.bem ha.reduz, ha.dir⟩
    · rw [hd]
      exact ⟨d, rfl, h, hp⟩

theorem Todas.renomeia (hQ : Estavel v Q) (h : Todas v Q d) (hb : BemFormado v d') (hp : Dir v d p)
    (hr : Renomeou v d d' p x n) : Todas v Q d' := by
  refine h.entre hb hr.entre ?_ fun _ _ hf => hf.elim
  rintro y rfl q cs _ _ hy _
  obtain ⟨ks, hk⟩ := h.bem.cadeia hp
  have hvol := hy.2
  rw [hr.novo] at hvol ⊢
  rw [com_nome_attr] at hvol
  exact hQ.nome _ n (h.todas p ks hp hk y ⟨hr.vivo ks hk, hvol⟩ hr.nao_ponto)

end Passos

/-! ## The calls -/

section Calls

variable {v : Bpb} {Q : Dirent → Prop} {d d' : Disco} {cwd : Cwd} {p : Nat}
  {path n n' : List UInt8} {op : Chamada}

theorem Todas.sub (hQ : Estavel v Q) (h : Todas v Q d) : SubComCluster v d := by
  intro q name11 e hq h1 h2 hf hd
  obtain ⟨cs, x, hc, hv, rfl, hraw, hl⟩ := find_vivo h.bem hq hf
  have hdir : (dirent d x).attr &&& FAT32_ATTR_DIR ≠ 0 := of_decide_eq_true hd
  refine hQ.pasta _ (h.todas q cs hq hc x ⟨hv, hl⟩ ?_) hdir
  unfold EhPonto
  rw [hraw]
  exact not_or.mpr ⟨h1, h2⟩

theorem write_todas (hQ : Estavel v Q) (h : Todas v Q d) (buf : List UInt8) (hp : Dir v d p)
    (hn : Nome n) : ∃ r d', write_em v d buf (some (p, n)) = some (r, d') ∧ Todas v Q d' := by
  obtain ⟨d₁, hap, h₁, hp₁⟩ := h.apaga hp hn
  obtain ⟨c, d₂, hcr, h₂, harq⟩ := h₁.create hQ hp₁ hn (Or.inr rfl)
  unfold write_em
  dsimp only
  rw [hap, Option.bind_some, hcr, Option.bind_some]
  dsimp only
  split
  · exact ⟨-1, d₂, rfl, h₂⟩
  · rename_i hc0
    have ha := harq rfl hc0
    obtain ⟨r, d₃, cs', hw, ha', hpoupa⟩ := write_spec buf ha
    exact ⟨r, d₃, hw, h₂.reduz ha'.bem ((ha.pastas hpoupa).reduz h₂.bem)⟩

theorem rename_todas (hQ : Estavel v Q) (h : Todas v Q d) (hp : Dir v d p) (hn : Nome n)
    (hn' : Nome n') : ∃ r d', fat32_rename v d p n n' = some (r, d') ∧ Todas v Q d' := by
  rcases rename_spec h.bem hp hn hn' with ⟨_, hr⟩ | ⟨d', x, hr, hb, hx⟩
  · exact ⟨-1, d, hr, h⟩
  · exact ⟨0, d', hr, h.renomeia hQ hb hp hx⟩

/-- A call that resolves a path, and keeps the volume wherever the path leads. -/
theorem alvo_todas (hQ : Estavel v Q) (h : Todas v Q d) (h0 : 0 ∉ path)
    (ho : Dir v d (origem v cwd path)) {f : Option (Nat × List UInt8) → Option (Int × Disco)}
    (hnada : f none = some (-1, d))
    (hf : ∀ p n, Dir v d p → Nome n → ∃ r d', f (some (p, n)) = some (r, d') ∧ Todas v Q d') :
    ∃ r d', (alvo v d cwd path).bind f = some (r, d') ∧ Todas v Q d' := by
  obtain ⟨a, ha, hdir⟩ := alvo_do_volume h.bem (h.sub hQ) h0 ho
  rw [ha, Option.bind_some]
  rcases a with _ | ⟨p, n⟩
  · exact ⟨-1, d, hnada, h⟩
  · obtain ⟨hp, hn⟩ := hdir p n rfl
    exact hf p n hp hn

/-- Any call returns, and leaves the entries with the property. -/
theorem passo_todas (hQ : Estavel v Q) (h : Todas v Q d) (hp : Parte v d cwd op) :
    ∃ r d', op.faz v d cwd = some (r, d') ∧ Todas v Q d' := by
  by_cases hm : cwd.montado = true
  · have hp := hp hm
    cases op with
    | write path buf =>
      obtain ⟨h0, ho⟩ := hp path List.mem_cons_self
      change ∃ r d', vfs_write v d cwd path buf = some (r, d') ∧ _
      rw [vfs_write_alvo hm]
      exact alvo_todas hQ h h0 ho rfl fun p n hp hn => write_todas hQ h buf hp hn
    | mkdir path =>
      obtain ⟨h0, ho⟩ := hp path List.mem_cons_self
      change ∃ r d', vfs_mkdir v d cwd path = some (r, d') ∧ _
      rw [vfs_mkdir_alvo hm]
      refine alvo_todas hQ h h0 ho rfl fun p n hp hn => ?_
      obtain ⟨c, d', hc, h', -⟩ := h.create hQ hp hn (Or.inl rfl)
      unfold mkdir_em
      dsimp only
      rw [hc]
      exact ⟨_, d', rfl, h'⟩
    | unlink path =>
      obtain ⟨h0, ho⟩ := hp path List.mem_cons_self
      change ∃ r d', vfs_unlink v d cwd path = some (r, d') ∧ _
      rw [vfs_unlink_alvo hm]
      refine alvo_todas hQ h h0 ho rfl fun p n hp hn => ?_
      obtain ⟨r, d', hd, hb, hr⟩ := delete_spec h.bem hp hn.ponto
      exact ⟨r, d', hd, h.reduz hb hr⟩
    | rename old_path new_path =>
      obtain ⟨h0, ho⟩ := hp old_path List.mem_cons_self
      obtain ⟨h0', ho'⟩ := hp new_path (List.mem_cons_of_mem _ List.mem_cons_self)
      change ∃ r d', vfs_rename v d cwd old_path new_path = some (r, d') ∧ _
      rw [vfs_rename_alvo hm]
      refine alvo_todas hQ h h0 ho rfl fun p n hp hn => ?_
      refine alvo_todas hQ h h0' ho' rfl fun q n' _ hn' => ?_
      dsimp only
      split
      · exact rename_todas hQ h hp hn hn'
      · obtain ⟨r, hr⟩ := find_retorna h.bem hp n
        rw [hr]
        exact ⟨-1, d, rfl, h⟩
  · exact ⟨-1, d, faz_desmontado hm op, h⟩

/-! ## Volumes without sizes -/

/-- A directory with its first cluster, or a file of size 0. -/
def Certa (e : Dirent) : Prop := (EhDir e → e.cluster ≠ 0) ∧ (¬ EhDir e → e.size = 0)

/-- A well formed volume where each live entry but `.`, `..` and the labels is `Certa`. -/
structure SemTamanho (v : Bpb) (d : Disco) : Prop where
  bem : BemFormado v d
  certas : ∀ q cs, Dir v d q → Cadeia v d q cs → ∀ y, Conta d (entradas v cs) y →
    ¬ EhPonto (dirent d y) → Certa (dirent d y)

theorem sem_tamanho_iff : SemTamanho v d ↔ Todas v Certa d :=
  ⟨fun h => ⟨h.bem, h.certas⟩, fun h => ⟨h.bem, h.todas⟩⟩

theorem certa_estavel (g : Geometria v) : Estavel v Certa := by
  refine ⟨fun n attr c hc => ⟨fun _ => ?_, fun _ => novo_size⟩, fun e n h => ?_, fun _ h => h.1⟩
  · have hlt := hc.lt_eof g
    have heof := eof_eq
    rw [novo_cluster (by omega)]
    have := hc.1
    omega
  · unfold Certa EhDir at h ⊢
    rw [com_nome_attr, com_nome_cluster]
    exact h

/-- Any call returns, and leaves no file with a size. -/
theorem passo_sem_tamanho (h : SemTamanho v d) (hp : Parte v d cwd op) :
    ∃ r d', op.faz v d cwd = some (r, d') ∧ SemTamanho v d' := by
  obtain ⟨r, d', hf, h'⟩ := passo_todas (certa_estavel h.bem.geo) (sem_tamanho_iff.mp h) hp
  exact ⟨r, d', hf, sem_tamanho_iff.mpr h'⟩

/-- A read of any path returns, with no data. -/
theorem read_sem_tamanho (h : SemTamanho v d) (h0 : 0 ∉ path)
    (ho : cwd.montado = true → Dir v d (origem v cwd path)) (max : Nat) :
    ∃ r ≤ 0, vfs_read v d cwd path max = some (r, []) := by
  unfold vfs_read
  by_cases hm : cwd.montado = true
  swap
  · have : vfs_open v d cwd path = some none := if_neg hm
    rw [this]
    exact ⟨-1, by decide, rfl⟩
  rw [vfs_open_alvo hm]
  have hsub := (sem_tamanho_iff.mp h).sub (certa_estavel h.bem.geo)
  obtain ⟨a, ha, hdir⟩ := alvo_do_volume h.bem hsub h0 (ho hm)
  rw [ha, Option.bind_some]
  rcases a with _ | ⟨p, n⟩
  · exact ⟨-1, by decide, rfl⟩
  obtain ⟨hp, hn⟩ := hdir p n rfl
  obtain ⟨r, hr⟩ := find_retorna h.bem hp n
  unfold open_em
  dsimp only
  rw [hr]
  cases r with
  | none => exact ⟨-1, by decide, rfl⟩
  | some e =>
    rw [Option.map_some, Option.bind_some]
    dsimp only [Option.map_some]
    split
    · exact ⟨-1, by decide, rfl⟩
    rename_i hnd
    obtain ⟨cs, x, hc, hv, rfl, hraw, hl⟩ := find_vivo h.bem hp hr
    have hs : (dirent d x).size = 0 := by
      refine (h.certas p cs hp hc x ⟨hv, hl⟩ (hn.not_ponto hraw)).2 fun hd => hnd ?_
      exact decide_eq_true hd
    refine ⟨0, by decide, ?_⟩
    rw [hs, Nat.zero_min]
    unfold fat32_read
    rw [if_neg (by omega)]
    rfl

end Calls

/-! ## Empty volumes -/

theorem todas_vazio {v : Bpb} (Q : Dirent → Prop) (g : Geometria v) (hr : EmFaixa v v.root_cluster) :
    Todas v Q (fat32_write_fat_entry v (fun _ => zero) v.root_cluster 0x0FFFFFFF) := by
  obtain ⟨hc, h0⟩ := raiz_vazia g hr
  refine ⟨bem_vazio g (by have := hr.1; omega) hc h0, fun q cs hq hcs y hy => ?_⟩
  exact absurd hy.1 (((sem_vivos hc h0 hq).2 cs hcs).2 y)

theorem sem_tamanho_vazio {v : Bpb} (g : Geometria v) (hr : EmFaixa v v.root_cluster) :
    SemTamanho v (fat32_write_fat_entry v (fun _ => zero) v.root_cluster 0x0FFFFFFF) :=
  sem_tamanho_iff.mpr (todas_vazio Certa g hr)

end SpaceOS.Vfs
