-- Paths that no call names (kernel/fs/vfs.c): in every run of VFS calls, a path none of whose searches
-- is for a name that a call gives or takes is opened and read as before.
import SpaceOS.Fat32RoundTrip
import SpaceOS.VfsSizes

open Lib.Bytes Lib.Bytes.ByteStr Lib.Links SpaceOS.Fat32

namespace SpaceOS.Vfs

/-! ## The searches of a path -/

/-- The directories and names that the loop over the components searches. -/
def consultas_laco (v : Bpb) (d : Disco) : List (List UInt8) → Nat → List (Nat × List UInt8)
  | [], _ => []
  | tok :: resto, cur =>
    if tok = [] ∨ tok = [46] then consultas_laco v d resto cur
    else
      (cur, fat32_normalize tok) ::
        match fat32_find v d cur (fat32_normalize tok) with
        | some (some e) => if is_dir e then consultas_laco v d resto e.cluster else []
        | _ => []

/-- What `resolve_dir` cuts a path into. -/
def componentes (path : List UInt8) : List (List UInt8) :=
  if path.head? = some BARRA then (path.tail.take 255).splitOn BARRA
  else (path.take 255).splitOn BARRA

/-- The directories and names that are searched for a path: those on the way to its parent, and its
last component. -/
def consultas (v : Bpb) (d : Disco) (cwd : Cwd) (path : List UInt8) : List (Nat × List UInt8) :=
  consultas_laco v d (componentes (path_split_last path).1) (origem v cwd path) ++
    ((alvo v d cwd path).bind id).toList

theorem resolve_pai_laco (v : Bpb) (d : Disco) (cwd : Cwd) (path : List UInt8) :
    resolve_pai v d cwd path =
      resolve_laco v d (componentes (path_split_last path).1) (origem v cwd path) := by
  unfold resolve_pai
  dsimp only
  split
  · rename_i hvazio
    rw [hvazio]
    simp [componentes, resolve_laco, origem]
  · rename_i hne
    unfold resolve_dir componentes origem
    rw [split_head hne]
    split
    · rfl
    · rfl

/-! ## Searches that a change leaves -/

section Buscas

variable {d d' : Disco} {x : Slot} {m : List UInt8} {ss : List Slot} {X : Slot → Prop}

theorem olha_outro (h0 : (dirent d x).first ≠ 0) (hm : (dirent d x).raw11 ≠ m) :
    olha_find d m x = none := by
  rcases olha_find_ou m h0 with hn | hs
  · exact hn
  · exact absurd (olha_find_iff.mp hs).2.1.nome hm

theorem olha_marcado (h : (dirent d x).first = 0xE5) : olha_find d m x = none := by
  unfold olha_find
  dsimp only
  rw [if_neg (by rw [h]; decide), if_pos h]

theorem olha_livre_passa (h : (dirent d x).first = 0 ∨ (dirent d x).first = 0xE5) :
    olha_find d m x = none ∨ (dirent d x).first = 0 := by
  rcases h with h0 | h5
  · exact Or.inr h0
  · exact Or.inl (olha_marcado h5)

theorem olha_fim (h : (dirent d x).first = 0) : olha_find d m x = some none := by
  unfold olha_find
  dsimp only
  rw [if_pos h]

/-- A search takes nothing where each entry is passed or stops it. -/
theorem nada_achado (h : ∀ y ∈ ss, olha_find d m y = none ∨ olha_find d m y = some none) :
    (ss.findSome? (olha_find d m)).bind id = none := by
  rcases hf : ss.findSome? (olha_find d m) with _ | r
  · rfl
  · obtain ⟨y, hy, hr⟩ := List.exists_of_findSome?_eq_some hf
    rcases h y hy with hn | hs
    · rw [hn] at hr
      cases hr
    · rw [hs] at hr
      cases hr
      rfl

theorem fim_tail {y : Slot} (h : Fim d (y :: ss)) : Fim d ss := by
  unfold Fim at h ⊢
  by_cases h0 : (dirent d y).first = 0
  · rw [List.dropWhile_cons_of_neg (by simpa using h0)] at h
    exact fun z hz => h z (List.mem_cons_of_mem _ (List.dropWhile_subset _ hz))
  · rwa [List.dropWhile_cons_of_pos (by simpa using h0)] at h

theorem fim_zeros {y : Slot} (h : Fim d (y :: ss)) (h0 : (dirent d y).first = 0) :
    ∀ z ∈ ss, (dirent d z).first = 0 := by
  unfold Fim at h
  rw [List.dropWhile_cons_of_neg (by simpa using h0)] at h
  exact fun z hz => h z (List.mem_cons_of_mem _ hz)

/-- A search finds the same where the entries that change are passed, and were passed or free. -/
theorem mesmo_achado (hf : Fim d ss) (hmesmo : ∀ y ∈ ss, ¬ X y → dirent d' y = dirent d y)
    (hpassa : ∀ y ∈ ss, X y →
      olha_find d' m y = none ∧ (olha_find d m y = none ∨ (dirent d y).first = 0)) :
    ((ss.findSome? (olha_find d' m)).bind id).map (dirent d') =
      ((ss.findSome? (olha_find d m)).bind id).map (dirent d) := by
  induction ss with
  | nil => rfl
  | cons y ss ih =>
    have ih := ih (fim_tail hf) (fun z hz => hmesmo z (List.mem_cons_of_mem _ hz))
      fun z hz => hpassa z (List.mem_cons_of_mem _ hz)
    rw [List.findSome?_cons, List.findSome?_cons]
    by_cases hX : X y
    · obtain ⟨hn', hn | h0⟩ := hpassa y List.mem_cons_self hX
      · rw [hn', hn]
        exact ih
      · -- the search stopped here; behind the end marker there are only free entries
        rw [hn', olha_fim h0]
        dsimp only
        rw [nada_achado fun z hz => ?_]
        · rfl
        by_cases hXz : X z
        · exact Or.inl (hpassa z (List.mem_cons_of_mem _ hz) hXz).1
        · right
          rw [olha_find_congr (hmesmo z (List.mem_cons_of_mem _ hz) hXz)]
          exact olha_fim (fim_zeros hf h0 z hz)
    · have he := hmesmo y List.mem_cons_self hX
      rw [olha_find_congr he]
      rcases ho : olha_find d m y with _ | _ | w
      · exact ih
      · rfl
      · obtain rfl := (olha_find_iff.mp ho).1
        exact congrArg some he

end Buscas

/-! ## Files whose clusters stay -/

section Leitura

variable {v : Bpb} {d d' : Disco} {c : Nat} {cs : List Nat}

/-- A sector is its sixteen entries. -/
theorem setor_igual {l : Nat} (h : ∀ i < 16, dirent d' (l, i) = dirent d (l, i)) : d' l = d l := by
  refine ext_mem fun j hj => ?_
  have hd := congrArg (fun e => mem e (j % 32)) (h (j / 32) (by omega))
  unfold dirent at hd
  dsimp only at hd
  rwa [mem_slice _ _ (Nat.mod_lt _ (by decide)), mem_slice _ _ (Nat.mod_lt _ (by decide)),
    Nat.div_add_mod] at hd

theorem le_cluster_igual (h : ∀ y ∈ slots v c, dirent d' y = dirent d y) (size : Nat) :
    le_cluster v d' c size = le_cluster v d c size := by
  refine le_cluster_congr (fun s hs => setor_igual fun i hi => ?_) size
  exact h _ (mem_slots.mpr ⟨s, hs, i, hi, rfl⟩)

theorem read_zero (fuel c : Nat) : fat32_read v d' fuel c 0 = fat32_read v d fuel c 0 := by
  cases fuel with
  | zero => rfl
  | succ fuel =>
    unfold fat32_read
    rw [if_neg (by omega), if_neg (by omega)]

/-- A chain that stays gives the same bytes. -/
theorem read_igual (hc : Cadeia v d c cs) (h : ∀ z ∈ cs, fat32_read_fat v d' z = fat32_read_fat v d z ∧
      ∀ y ∈ slots v z, dirent d' y = dirent d y) (fuel size : Nat) :
    fat32_read v d' fuel c size = fat32_read v d fuel c size := by
  induction fuel generalizing c cs size with
  | zero => rfl
  | succ fuel ih =>
    obtain ⟨hfat, hslots⟩ := h c (Chain.head_mem hc)
    have hresto : fat32_read v d' fuel (fat32_read_fat v d c) (size - 512 * v.spc) =
        fat32_read v d fuel (fat32_read_fat v d c) (size - 512 * v.spc) := by
      cases hc with
      | last he =>
        have hfim := elo_none he
        cases fuel with
        | zero => rfl
        | succ fuel =>
          unfold fat32_read
          rw [if_neg (by omega), if_neg (by omega)]
      | cons he hk =>
        rw [(elo_some he).1]
        exact ih hk (fun z hz => h z (List.mem_cons_of_mem _ hz)) _
    unfold fat32_read
    rw [hfat, le_cluster_igual hslots, hresto]

end Leitura

/-! ## What a call may change -/

section Isolamento

variable {v : Bpb} {T : Nat → List UInt8 → Prop} {d d' d'' : Disco} {p q : Nat} {m : List UInt8}
  {e : Dirent} {X : Slot → Prop} {Z cs : List Nat} {o : Option Slot} {x : Slot}

/-- An entry with no first cluster is of an empty file. -/
def Inteira (e : Dirent) : Prop := e.cluster = 0 → ¬ EhDir e ∧ e.size = 0

theorem inteira_estavel (g : Geometria v) : Estavel v Inteira := by
  refine ⟨fun n attr c hc h0 => ?_, fun e n h h0 => ?_, fun e h hd h0 => (h h0).1 hd⟩
  · have hlt := hc.lt_eof g
    have heof := eof_eq
    rw [novo_cluster (by omega)] at h0
    have := hc.1
    omega
  · rw [com_nome_cluster] at h0
    obtain ⟨hd, hs⟩ := h h0
    refine ⟨?_, hs⟩
    unfold EhDir
    rwa [com_nome_attr]

/-- A name that is not in `T`, and neither `.` nor `..`. -/
structure Alheio (T : Nat → List UInt8 → Prop) (q : Nat) (m : List UInt8) : Prop where
  ponto : m ≠ PONTO ∧ m ≠ PONTO_PONTO
  fora : ¬ T q m

/-- The directories that are reached by names that are not in `T`. -/
inductive Via (v : Bpb) (T : Nat → List UInt8 → Prop) (d : Disco) : Nat → Prop
  | raiz : Via v T d v.root_cluster
  | desce {q : Nat} {m : List UInt8} {e : Dirent} : Via v T d q → Alheio T q m →
      fat32_find v d q m = some (some e) → is_dir e = true → Via v T d e.cluster

/-- What a change leaves: the searches for other names, and the files that they find. -/
structure Isola (v : Bpb) (T : Nat → List UInt8 → Prop) (d d' : Disco) : Prop where
  busca : ∀ q m, Via v T d q → Alheio T q m → fat32_find v d' q m = fat32_find v d q m
  leitura : ∀ q m e, Via v T d q → Alheio T q m → fat32_find v d q m = some (some e) →
    is_dir e = false → ∀ fuel size, size ≤ e.size →
      fat32_read v d' fuel e.cluster size = fat32_read v d fuel e.cluster size

theorem Isola.refl (v : Bpb) (T : Nat → List UInt8 → Prop) (d : Disco) : Isola v T d d :=
  ⟨fun _ _ _ _ => rfl, fun _ _ _ _ _ _ _ _ _ _ => rfl⟩

theorem Isola.via (h : Isola v T d d') (hq : Via v T d q) : Via v T d' q := by
  induction hq with
  | raiz => exact .raiz
  | desce hq ha hf hd ih => exact .desce ih ha ((h.busca _ _ hq ha).trans hf) hd

theorem Isola.trans (h : Isola v T d d') (h' : Isola v T d' d'') : Isola v T d d'' := by
  refine ⟨fun q m hq ha => ?_, fun q m e hq ha hf hd fuel size hs => ?_⟩
  · exact (h'.busca q m (h.via hq) ha).trans (h.busca q m hq ha)
  · have hf' := (h.busca q m hq ha).trans hf
    exact (h'.leitura q m e (h.via hq) ha hf' hd fuel size hs).trans
      (h.leitura q m e hq ha hf hd fuel size hs)

/-- A change of some entries `X` of a directory, whose names are in `T`, and of free clusters and ones
of these entries, `Z`. -/
structure Mexe (v : Bpb) (T : Nat → List UInt8 → Prop) (d d' : Disco) (p : Nat)
    (X : Slot → Prop) (Z : List Nat) : Prop where
  dir : Dir v d p
  lugar : ∀ x, X x → ∀ cs, Cadeia v d p cs → x ∈ entradas v cs
  passa : ∀ x, X x → ∀ m, ¬ T p m →
    olha_find d' m x = none ∧ (olha_find d m x = none ∨ (dirent d x).first = 0)
  dona : ∀ z ∈ Z, ∃ x ks, X x ∧ T p (dirent d x).raw11 ∧
    Objeto v d (some x) (dirent d x).cluster ∧ Cadeia v d (dirent d x).cluster ks ∧ z ∈ ks
  poupa : ∀ z, EmFaixa v z → fat32_read_fat v d z ≠ 0 → z ∉ Z →
    fat32_read_fat v d' z = fat32_read_fat v d z ∧
      ∀ y ∈ slots v z, ¬ X y → dirent d' y = dirent d y

/-- The object has none of the clusters that are given back. -/
def Mexe.Poupado (_ : Mexe v T d d' p X Z) (o : Option Slot) : Prop :=
  ∀ x, X x → T p (dirent d x).raw11 → o ≠ some x

/-- What is found under another name: an entry of a directory that is none of the ones that lose their
clusters. -/
theorem Mexe.achado (hm : Mexe v T d d' p X Z) (h : Todas v Inteira d) (hq : Dir v d q)
    (ha : Alheio T q m) (hf : fat32_find v d q m = some (some e)) :
    ∃ y, Objeto v d (some y) e.cluster ∧ dirent d y = e ∧ Inteira e ∧ hm.Poupado (some y) := by
  obtain ⟨cs, y, hc, hv, rfl, hraw, hl⟩ := find_vivo h.bem hq hf
  have hn : ¬ EhPonto (dirent d y) := by
    unfold EhPonto
    rw [hraw]
    exact not_or.mpr ha.ponto
  refine ⟨y, .entrada hq hc hv hn, rfl, h.todas q cs hq hc y ⟨hv, hl⟩ hn, ?_⟩
  intro x hx hT he
  cases he
  obtain rfl := mesma_pasta h.bem hm.dir (hm.lugar y hx) hq hc hv.mem
  exact ha.fora (hraw ▸ hT)

theorem Via.dir (h : Todas v Inteira d) (hq : Via v T d q) : Dir v d q := by
  induction hq with
  | raiz => exact .raiz
  | desce _ ha hf hd ih =>
    exact dir_de_find h.bem (h.sub (inteira_estavel h.bem.geo)) ih ha.ponto hf hd

theorem Mexe.via (hm : Mexe v T d d' p X Z) (h : Todas v Inteira d) (hq : Via v T d q) :
    ∃ o, Objeto v d o q ∧ hm.Poupado o := by
  cases hq with
  | raiz => exact ⟨none, .raiz, fun _ _ _ hf => by cases hf⟩
  | desce hq ha hf _ =>
    obtain ⟨y, ho, -, -, hp⟩ := hm.achado h (hq.dir h) ha hf
    exact ⟨some y, ho, hp⟩

/-- The clusters of such an object stay in use. -/
theorem Mexe.fora {c : Nat} {ks : List Nat} (hm : Mexe v T d d' p X Z) (h : BemFormado v d)
    (ho : Objeto v d o c) (hp : hm.Poupado o) (hk : Cadeia v d c ks) : ∀ z ∈ ks, z ∉ Z := by
  intro z hz hZ
  obtain ⟨x, as, hx, hT, hox, ha, hza⟩ := hm.dona z hZ
  exact h.disjuntas o (some x) c _ ks as ho hox (hp x hx hT) hk ha z hz hza

theorem Mexe.cadeia {c : Nat} {ks : List Nat} (hm : Mexe v T d d' p X Z) (h : BemFormado v d)
    (ho : Objeto v d o c) (hp : hm.Poupado o) (hk : Cadeia v d c ks) :
    ∀ z ∈ ks, fat32_read_fat v d' z = fat32_read_fat v d z ∧
      ∀ y ∈ slots v z, ¬ X y → dirent d' y = dirent d y :=
  fun z hz => hm.poupa z (hk.em_faixa hz) (hk.em_uso hz) (hm.fora h ho hp hk z hz)

/-- A directory is another object than a file. -/
theorem objeto_pasta {y : Slot} (hp : Dir v d p) (hd : ¬ EhDir (dirent d y)) :
    ∃ o, Objeto v d o p ∧ o ≠ some y := by
  cases hp with
  | raiz => exact ⟨none, .raiz, fun hf => by cases hf⟩
  | sub hq hc hv hn hdir _ =>
    refine ⟨_, .entrada hq hc hv hn, fun hf => hd ?_⟩
    cases hf
    exact hdir

/-- The entries lie in no chain of a file. -/
theorem Mexe.fora_de_arquivo {y : Slot} {c : Nat} {ks : List Nat} (hm : Mexe v T d d' p X Z)
    (h : BemFormado v d) (ho : Objeto v d (some y) c) (hd : ¬ EhDir (dirent d y))
    (hk : Cadeia v d c ks) : ∀ z ∈ ks, ∀ x ∈ slots v z, ¬ X x := by
  intro z hz x hxz hx
  obtain ⟨cs, hc⟩ := h.cadeia hm.dir
  obtain ⟨w, hw, hxw⟩ := List.mem_flatMap.mp (hm.lugar x hx cs hc)
  obtain rfl := slots_inj h.geo (hk.em_faixa hz) (hc.em_faixa hw) hxz hxw
  obtain ⟨o, hop, hod⟩ := objeto_pasta hm.dir hd
  exact h.disjuntas o (some y) p c cs ks hop ho hod hc hk z hw hz

theorem Mexe.isola (hm : Mexe v T d d' p X Z) (h : Todas v Inteira d) : Isola v T d d' := by
  have hb := h.bem
  refine ⟨fun q m hq ha => ?_, fun q m e hq ha hf hd fuel size hs => ?_⟩
  · obtain ⟨cs, hc⟩ := hb.cadeia (hq.dir h)
    obtain ⟨o, ho, hp⟩ := hm.via h hq
    have hfica := hm.cadeia hb ho hp hc
    have hc' : Cadeia v d' q cs := hc.mesma_fat fun z hz => (hfica z hz).1
    have hmesmo : ∀ y ∈ entradas v cs, ¬ X y → dirent d' y = dirent d y := by
      intro y hy hX
      obtain ⟨z, hz, hyz⟩ := List.mem_flatMap.mp hy
      exact (hfica z hz).2 y hyz hX
    have hpassa : ∀ y ∈ entradas v cs, X y →
        olha_find d' m y = none ∧ (olha_find d m y = none ∨ (dirent d y).first = 0) := by
      intro y hy hX
      obtain rfl := mesma_pasta hb hm.dir (hm.lugar y hX) (hq.dir h) hc hy
      exact hm.passa y hX m ha.fora
    rw [find_eq hb.geo hc', find_eq hb.geo hc, mesmo_achado (hb.fim q cs (hq.dir h) hc) hmesmo hpassa]
  · obtain ⟨y, ho, rfl, hint, hp⟩ := hm.achado h (hq.dir h) ha hf
    by_cases h0 : (dirent d y).cluster = 0
    · have hz : size = 0 := by
        have := (hint h0).2
        omega
      rw [hz]
      exact read_zero fuel _
    obtain ⟨ks, hk⟩ := hb.cadeias _ _ ho h0
    have hnd : ¬ (dirent d y).attr &&& FAT32_ATTR_DIR ≠ 0 := of_decide_eq_false hd
    refine read_igual hk (fun z hz => ?_) fuel size
    obtain ⟨hfat, hslots⟩ := hm.cadeia hb ho hp hk z hz
    exact ⟨hfat, fun x hx => hslots x hx (hm.fora_de_arquivo hb ho hnd hk z hz x hx)⟩

end Isolamento

/-! ## The calls -/

section Passos

variable {v : Bpb} {T : Nat → List UInt8 → Prop} {d d' d'' : Disco} {p c : Nat} {n n' : List UInt8}
  {attr : UInt8} {X : Slot → Prop} {x : Slot} {r : Int}

/-- The write of one entry. -/
theorem mexe_entrada {cs : List Nat} {e : Dirent} (h : BemFormado v d) (hp : Dir v d p)
    (hc : Cadeia v d p cs) (hx : x ∈ entradas v cs)
    (hpassa : ∀ m, ¬ T p m → olha_find (gravar_dirent d x e) m x = none ∧
      (olha_find d m x = none ∨ (dirent d x).first = 0)) :
    Mexe v T d (gravar_dirent d x e) p (· = x) [] where
  dir := hp
  lugar := by
    rintro y rfl as ha
    rwa [Chain.unique ha hc]
  passa := by
    rintro y rfl
    exact hpassa
  dona := fun z hz => absurd hz List.not_mem_nil
  poupa := fun z hz _ _ =>
    ⟨read_fat_dirent h hc hx hz, fun y hy hne => dirent_ne (slots_lt hy) hne e⟩

/-- What comes before the write of an entry, or behind it, in clusters that were free. -/
theorem Mexe.depois (hm : Mexe v T d d' p X []) (h : BemFormado v d) {n : Nat}
    (h0 : fat32_read_fat v d n = 0) (hp : Poupa v [n] d' d'') : Mexe v T d d'' p X [] := by
  have hpoupa : ∀ z, EmFaixa v z → fat32_read_fat v d z ≠ 0 →
      fat32_read_fat v d'' z = fat32_read_fat v d' z ∧ ∀ y ∈ slots v z, dirent d'' y = dirent d' y := by
    intro z hz hu
    have hn : z ∉ [n] := fun hmem => hu (by rw [List.mem_singleton.mp hmem, h0])
    exact hp z hz hn (by rwa [(hm.poupa z hz hu List.not_mem_nil).1])
  refine ⟨hm.dir, hm.lugar, fun x hx m hT => ?_, hm.dona, fun z hz hu hZ => ?_⟩
  · obtain ⟨cs, hc⟩ := h.cadeia hm.dir
    obtain ⟨z, hz, hxz⟩ := List.mem_flatMap.mp (hm.lugar x hx cs hc)
    rw [olha_find_congr ((hpoupa z (hc.em_faixa hz) (hc.em_uso hz)).2 x hxz)]
    exact hm.passa x hx m hT
  · obtain ⟨hfat, hslots⟩ := hm.poupa z hz hu hZ
    obtain ⟨hfat', hslots'⟩ := hpoupa z hz hu
    exact ⟨hfat'.trans hfat, fun y hy hX => (hslots' y hy).trans (hslots y hy hX)⟩

theorem mexe_nada (hp : Dir v d p) : Mexe v T d d p (fun _ => False) [] :=
  ⟨hp, fun _ hf => hf.elim, fun _ hf => hf.elim, fun _ hz => absurd hz List.not_mem_nil,
    fun _ _ _ _ => ⟨rfl, fun _ _ _ => rfl⟩⟩

theorem nome_outro (hT : T p n) {m : List UInt8} (hm : ¬ T p m) : n ≠ m := fun he => hm (he ▸ hT)

/-- A delete marks the entry, and frees its chain. -/
theorem delete_isola (h : Todas v Inteira d) (hp : Dir v d p) (hn : Nome n) (hT : T p n)
    (hd : fat32_delete v d p n = some (r, d')) : Isola v T d d' := by
  obtain ⟨cs, hc⟩ := h.bem.cadeia hp
  rcases delete_casos h.bem.geo hc n with ⟨x, hf⟩ | hfalha
  swap
  · rw [hfalha] at hd
    cases hd
    exact Isola.refl v T d
  obtain ⟨hv, hraw⟩ := acha_delete hf
  obtain ⟨d₁, d₂, ks, hl, hdel, ha⟩ := delete_passos h.bem hp hc hn.ponto hf
  rw [hdel] at hd
  cases hd
  have ha' := ha.pastas hv.mem (ha.bem.muda_solta hl.solta hl.so_em).1
    (hl.solta.pastas ha.bem hl.so_em)
  have hno : ¬ EhPonto (dirent d x) := hn.not_ponto hraw
  obtain ⟨Z, hZ, hso⟩ : ∃ Z, (∀ z ∈ Z, ∃ as, Cadeia v d (dirent d x).cluster as ∧ z ∈ as) ∧
      SoEm v Z d₁ d' := by
    by_cases h0 : (dirent d x).cluster = 0
    · refine ⟨[], fun z hz => absurd hz List.not_mem_nil, ?_⟩
      rw [hl.nada h0]
      exact SoEm.refl v [] d₁
    · obtain ⟨as, has⟩ := h.bem.cadeias _ _ (.entrada hp hc hv hno) h0
      refine ⟨ks, fun z hz => ⟨as, has, ?_⟩, hl.so_em⟩
      rwa [(hl.cadeia as has).1]
  have hm : Mexe v T d d' p (· = x) Z := by
    refine ⟨hp, ?_, ?_, fun z hz => ?_, fun z hz hu hnZ => ?_⟩
    · rintro y rfl as ha
      rw [Chain.unique ha hc]
      exact hv.mem
    · rintro y rfl m hm
      refine ⟨olha_marcado ?_, Or.inl (olha_outro hv.first_ne ?_)⟩
      · rw [ha'.marca]
        rfl
      · rw [hraw]
        exact nome_outro hT hm
    · obtain ⟨as, has, hza⟩ := hZ z hz
      exact ⟨x, as, rfl, by rwa [hraw], .entrada hp hc hv hno, has, hza⟩
    · obtain ⟨hfat, hslots⟩ := hso z hz hnZ
      rw [hl.marcado] at hfat hslots
      refine ⟨hfat.trans (read_fat_dirent h.bem hc hv.mem hz), fun y hy hne => ?_⟩
      exact (hslots y hy).trans (dirent_ne (slots_lt hy) hne _)
  exact hm.isola h

/-- A create takes a free cluster and a free entry. -/
theorem create_mexe (h : BemFormado v d) (hp : Dir v d p) (hn : Nome n) (hT : T p n)
    (hcr : fat32_create v d p n attr = some (c, d')) :
    ∃ X, Mexe v T d d' p X [] ∧ (c ≠ 0 → fat32_read_fat v d c = 0) := by
  obtain ⟨cs, hc⟩ := h.cadeia hp
  rcases create_passos h hp hc n attr with ⟨-, hno⟩ | ⟨k, d₁, ht, hcria⟩
  · rw [hno] at hcr
    cases hcr
    exact ⟨_, mexe_nada hp, fun hne => absurd rfl hne⟩
  have htoma := (mexe_nada (T := T) hp).depois h ht.livre ht.so_em.poupa
  rcases hcria with ⟨-, hno⟩ | ⟨pre, post, x, hl, hsim⟩
  · rw [hno] at hcr
    cases hcr
    exact ⟨_, htoma, fun hne => absurd rfl hne⟩
  rw [hsim] at hcr
  cases hcr
  have hpastas := (solta_livre ht.livre).pastas h ht.so_em
  obtain ⟨hc₁, hsame⟩ := hpastas.entradas hp hc
  have hx : x ∈ entradas v cs := by
    rw [hl.eq]
    exact List.mem_append_right _ List.mem_cons_self
  have hpassa : ∀ m, ¬ T p m →
      olha_find (gravar_dirent d₁ x (novo_dirent n attr c)) m x = none ∧
        (olha_find d₁ m x = none ∨ (dirent d₁ x).first = 0) := by
    intro m hm
    have hnovo := dirent_escrita (e := novo_dirent n attr c) ht.avulsa.bem hc₁ hx
    refine ⟨olha_outro ?_ ?_, olha_livre_passa hl.livre⟩
    · rw [hnovo, novo_first]
      exact hn.primeiro
    · rw [hnovo, novo_raw11 hn.tamanho]
      exact nome_outro hT hm
  have hm := mexe_entrada ht.avulsa.bem (hpastas.dir hp) hc₁ hx hpassa
  refine ⟨(· = x), ⟨hp, ?_, ?_, fun z hz => absurd hz List.not_mem_nil, fun z hz hu hZ => ?_⟩, fun _ => ht.livre⟩
  · rintro y rfl as ha
    rwa [Chain.unique ha hc]
  · rintro y rfl m hmT
    obtain ⟨h1, h2⟩ := hm.passa y rfl m hmT
    rw [olha_find_congr (hsame y hx), hsame y hx] at h2
    exact ⟨h1, h2⟩
  · obtain ⟨hfat, hslots⟩ := htoma.poupa z hz hu hZ
    obtain ⟨hfat', hslots'⟩ := hm.poupa z hz (by rwa [hfat]) hZ
    exact ⟨hfat'.trans hfat, fun y hy hne => (hslots' y hy hne).trans (hslots y hy id)⟩

/-- A rename gives the entry a name in `T`. -/
theorem rename_isola (h : Todas v Inteira d) (hp : Dir v d p) (hn' : Nome n') (hT : T p n)
    (hT' : T p n') (hr : fat32_rename v d p n n' = some (r, d')) : Isola v T d d' := by
  obtain ⟨cs, hc⟩ := h.bem.cadeia hp
  rw [rename_busca] at hr
  rcases hf : busca v d (olha_delete d n) p with _ | _ | x
  · rw [hf] at hr
    cases hr
  · rw [hf] at hr
    cases hr
    exact Isola.refl v T d
  rw [hf] at hr
  cases hr
  obtain ⟨hv, hraw⟩ := acha_delete (busca_some h.bem.geo hc hf)
  refine (mexe_entrada h.bem hp hc hv.mem fun m hm => ?_).isola h
  have hnovo := dirent_escrita (e := com_nome (dirent d x) n') h.bem hc hv.mem
  refine ⟨olha_outro ?_ ?_, Or.inl (olha_outro hv.first_ne ?_)⟩
  · rw [hnovo, com_nome_first]
    exact hn'.primeiro
  · rw [hnovo, com_nome_raw11 hn'.tamanho]
    exact nome_outro hT' hm
  · rw [hraw]
    exact nome_outro hT hm

theorem apaga_isola (h : Todas v Inteira d) (hp : Dir v d p) (hn : Nome n) (hT : T p n)
    (ha : apaga_antigo v d p n = some d') : Isola v T d d' := by
  obtain ⟨f, hf⟩ := find_retorna h.bem hp n
  unfold apaga_antigo at ha
  rw [hf, Option.bind_some] at ha
  cases f with
  | none =>
    cases ha
    exact Isola.refl v T d
  | some e =>
    obtain ⟨w, hw, rfl⟩ := Option.map_eq_some_iff.mp ha
    exact delete_isola h hp hn hT hw

theorem write_isola (h : Todas v Inteira d) (hp : Dir v d p) (hn : Nome n) (hT : T p n)
    {buf : List UInt8} (hw : write_em v d buf (some (p, n)) = some (r, d')) : Isola v T d d' := by
  obtain ⟨d₁, hap, h₁, hp₁⟩ := h.apaga hp hn
  obtain ⟨c, d₂, hcr, h₂, harq⟩ := h₁.create (inteira_estavel h.bem.geo) hp₁ hn (Or.inr rfl)
  obtain ⟨X, hm, hlivre⟩ := create_mexe h₁.bem hp₁ hn hT hcr
  unfold write_em at hw
  dsimp only at hw
  rw [hap, Option.bind_some, hcr, Option.bind_some] at hw
  dsimp only at hw
  refine (apaga_isola h hp hn hT hap).trans ?_
  split at hw
  · cases hw
    exact hm.isola h₁
  · rename_i hc0
    obtain ⟨r', d₃, cs', hwf, -, hpoupa⟩ := write_spec buf (harq rfl hc0)
    rw [hwf] at hw
    cases hw
    exact (hm.depois h₁.bem (hlivre hc0) hpoupa).isola h₁

end Passos

/-! ## Runs -/

section Corridas

variable {v : Bpb} {T : Nat → List UInt8 → Prop} {d d' : Disco} {cwd cwd' : Cwd} {op : Chamada}
  {path : List UInt8} {r : Int}

/-- The directories and names that a call goes to. -/
def Nomeia (v : Bpb) (d : Disco) (cwd : Cwd) (op : Chamada) (p : Nat) (n : List UInt8) : Prop :=
  ∃ path ∈ op.paths, alvo v d cwd path = some (some (p, n))

/-- A call that resolves a path, and leaves the other names wherever the path leads. -/
theorem alvo_isola (h : Todas v Inteira d) (h0 : 0 ∉ path) (ho : Dir v d (origem v cwd path))
    {f : Option (Nat × List UInt8) → Option (Int × Disco)} (hnada : f none = some (-1, d))
    (hf : (alvo v d cwd path).bind f = some (r, d'))
    (hsome : ∀ p n, alvo v d cwd path = some (some (p, n)) → Dir v d p → Nome n →
      f (some (p, n)) = some (r, d') → Isola v T d d') : Isola v T d d' := by
  obtain ⟨a, ha, hdir⟩ := alvo_do_volume h.bem (h.sub (inteira_estavel h.bem.geo)) h0 ho
  rw [ha, Option.bind_some] at hf
  rcases a with _ | ⟨p, n⟩
  · rw [hnada] at hf
    cases hf
    exact Isola.refl v T d
  · obtain ⟨hp, hn⟩ := hdir p n rfl
    exact hsome p n ha hp hn hf

/-- A call leaves the names that it does not go to. -/
theorem passo_isola (h : Todas v Inteira d) (hp : Parte v d cwd op)
    (hf : op.faz v d cwd = some (r, d')) : Isola v (Nomeia v d cwd op) d d' := by
  by_cases hm : cwd.montado = true
  swap
  · rw [faz_desmontado hm] at hf
    cases hf
    exact Isola.refl v _ d
  have hp := hp hm
  cases op with
  | write path buf =>
    obtain ⟨h0, ho⟩ := hp path List.mem_cons_self
    change vfs_write v d cwd path buf = some (r, d') at hf
    rw [vfs_write_alvo hm] at hf
    exact alvo_isola h h0 ho rfl hf fun p n ha hp hn hf =>
      write_isola h hp hn ⟨path, List.mem_cons_self, ha⟩ hf
  | mkdir path =>
    obtain ⟨h0, ho⟩ := hp path List.mem_cons_self
    change vfs_mkdir v d cwd path = some (r, d') at hf
    rw [vfs_mkdir_alvo hm] at hf
    refine alvo_isola h h0 ho rfl hf fun p n ha hp hn hf => ?_
    obtain ⟨⟨c, d₁⟩, hcr, he⟩ := Option.map_eq_some_iff.mp hf
    cases he
    have hT : Nomeia v d cwd (.mkdir path) p n := ⟨path, List.mem_cons_self, ha⟩
    obtain ⟨X, hm, -⟩ := create_mexe h.bem hp hn hT hcr
    exact hm.isola h
  | unlink path =>
    obtain ⟨h0, ho⟩ := hp path List.mem_cons_self
    change vfs_unlink v d cwd path = some (r, d') at hf
    rw [vfs_unlink_alvo hm] at hf
    exact alvo_isola h h0 ho rfl hf fun p n ha hp hn hf =>
      delete_isola h hp hn ⟨path, List.mem_cons_self, ha⟩ hf
  | rename old_path new_path =>
    have hmem : new_path ∈ (Chamada.rename old_path new_path).paths :=
      List.mem_cons_of_mem _ List.mem_cons_self
    obtain ⟨h0, ho⟩ := hp old_path List.mem_cons_self
    obtain ⟨h0', ho'⟩ := hp new_path hmem
    change vfs_rename v d cwd old_path new_path = some (r, d') at hf
    rw [vfs_rename_alvo hm] at hf
    refine alvo_isola h h0 ho rfl hf fun p n ha hp _ hf => ?_
    refine alvo_isola h h0' ho' rfl hf fun q n' ha' _ hn' hf => ?_
    dsimp only at hf
    split at hf
    · rename_i hpq
      subst hpq
      exact rename_isola h hp hn' ⟨old_path, List.mem_cons_self, ha⟩ ⟨new_path, hmem, ha'⟩ hf
    · obtain ⟨f, -, he⟩ := Option.map_eq_some_iff.mp hf
      cases he
      exact Isola.refl v _ d

/-- The loop over the components, where none of its searches is for a name in `T`. -/
theorem resolve_laco_isola (hi : Isola v T d d') (toks : List (List UInt8)) {a : Nat}
    (ha : Via v T d a) (hT : ∀ w ∈ consultas_laco v d toks a, ¬ T w.1 w.2) :
    resolve_laco v d' toks a = resolve_laco v d toks a ∧
      ∀ r c, resolve_laco v d toks a = some (r, c) → 0 ≤ r → Via v T d c := by
  induction toks generalizing a with
  | nil =>
    refine ⟨rfl, fun r c he _ => ?_⟩
    cases he
    exact ha
  | cons tok toks ih =>
    rw [resolve_laco, resolve_laco]
    rw [consultas_laco] at hT
    by_cases hv : tok = [] ∨ tok = [46]
    · rw [if_pos hv] at hT ⊢
      rw [if_pos hv]
      exact ih ha hT
    rw [if_neg hv] at hT ⊢
    rw [if_neg hv]
    have hal : Alheio T a (fat32_normalize tok) :=
      ⟨normalize_ponto tok, hT _ List.mem_cons_self⟩
    have hT := fun w hw => hT w (List.mem_cons_of_mem _ hw)
    rw [hi.busca a _ ha hal]
    rcases hf : fat32_find v d a (fat32_normalize tok) with _ | _ | e
    · exact ⟨rfl, fun _ _ he => by cases he⟩
    · refine ⟨rfl, fun r c he h0 => ?_⟩
      cases he
      exact absurd h0 (by decide)
    rw [hf] at hT
    simp only [Option.bind_some]
    dsimp only at hT
    by_cases hd : is_dir e = true
    · rw [if_pos hd] at hT ⊢
      rw [if_pos hd]
      exact ih (.desce ha hal hf hd) hT
    · rw [if_neg hd, if_neg hd]
      refine ⟨rfl, fun r c he h0 => ?_⟩
      split at he
      · cases he
        exact absurd h0 (by decide)
      · cases he
        exact ha

/-- Where a path leads, if none of its searches is for a name in `T`. -/
theorem Isola.alvo (hi : Isola v T d d') (ho : origem v cwd path = v.root_cluster)
    (hT : ∀ w ∈ consultas v d cwd path, ¬ T w.1 w.2) :
    Vfs.alvo v d' cwd path = Vfs.alvo v d cwd path ∧ ∀ p n,
      Vfs.alvo v d cwd path = some (some (p, n)) → Via v T d p ∧ Alheio T p n := by
  have hlaco := resolve_laco_isola hi (componentes (path_split_last path).1)
    (a := origem v cwd path) (ho ▸ .raiz) fun w hw => hT w (List.mem_append_left _ hw)
  have halvo : Vfs.alvo v d' cwd path = Vfs.alvo v d cwd path := by
    unfold Vfs.alvo
    rw [resolve_pai_laco, resolve_pai_laco, hlaco.1]
  refine ⟨halvo, fun p n ha => ?_⟩
  have hfora : ¬ T p n := by
    refine hT (p, n) (List.mem_append_right _ ?_)
    rw [ha]
    exact List.mem_singleton.mpr rfl
  unfold Vfs.alvo at ha
  obtain ⟨⟨r, q⟩, hr, he⟩ := Option.map_eq_some_iff.mp ha
  dsimp only at he
  split at he
  · cases he
  · cases he
    rw [resolve_pai_laco] at hr
    exact ⟨hlaco.2 r p hr (by omega), normalize_ponto _, hfora⟩

/-- Such a path is opened and read as before. -/
theorem Isola.le (hi : Isola v T d d') (ho : origem v cwd path = v.root_cluster)
    (hT : ∀ w ∈ consultas v d cwd path, ¬ T w.1 w.2) (max_size : Nat) :
    vfs_open v d' cwd path = vfs_open v d cwd path ∧
      vfs_read v d' cwd path max_size = vfs_read v d cwd path max_size := by
  by_cases hm : cwd.montado = true
  swap
  · unfold vfs_read vfs_open
    rw [if_neg hm, if_neg hm]
    exact ⟨rfl, rfl⟩
  obtain ⟨halvo, hvia⟩ := hi.alvo ho hT
  unfold vfs_read
  rw [vfs_open_alvo hm, vfs_open_alvo hm, halvo]
  rcases ha : Vfs.alvo v d cwd path with _ | _ | ⟨p, n⟩
  · exact ⟨rfl, rfl⟩
  · exact ⟨rfl, rfl⟩
  obtain ⟨hp, hal⟩ := hvia p n ha
  rw [Option.bind_some, Option.bind_some]
  unfold open_em
  dsimp only
  rw [hi.busca p n hp hal]
  refine ⟨rfl, ?_⟩
  rcases hf : fat32_find v d p n with _ | _ | e
  · rfl
  · rfl
  · dsimp only [Option.map_some, Option.bind_some]
    by_cases hd : is_dir e = true
    · rw [if_pos hd, if_pos hd]
    · rw [if_neg hd, if_neg hd,
        hi.leitura p n e hp hal hf (by simpa using hd) _ _ (Nat.min_le_left _ _)]

/-- The call goes to no name that is searched for the path. -/
def NaoNomeia (v : Bpb) (cwd : Cwd) (path : List UInt8) (d : Disco) (cwd' : Cwd) (op : Chamada) :
    Prop :=
  ∀ w ∈ consultas v d cwd path, ¬ Nomeia v d cwd' op w.1 w.2

/-- A path from the root is opened and read as before after any run of calls of which none goes to a
name that is searched for it: neither to its own nor to one of a directory on the way. -/
theorem a_path_that_no_call_names_stays (h : Todas v Inteira d)
    (hr : Corre v (NaoNomeia v cwd path) d d') (ho : origem v cwd path = v.root_cluster)
    (max_size : Nat) :
    vfs_open v d' cwd path = vfs_open v d cwd path ∧
      vfs_read v d' cwd path max_size = vfs_read v d cwd path max_size := by
  suffices Todas v Inteira d' ∧ vfs_open v d' cwd path = vfs_open v d cwd path ∧
      vfs_read v d' cwd path max_size = vfs_read v d cwd path max_size from this.2
  induction hr with
  | nada => exact ⟨h, rfl, rfl⟩
  | mais _ hp hn hf ih =>
    obtain ⟨h₁, hopen, hread⟩ := ih
    obtain ⟨r, d₂, hf', h₂⟩ := passo_todas (inteira_estavel h.bem.geo) h₁ hp
    rw [hf] at hf'
    cases hf'
    obtain ⟨hopen', hread'⟩ := (passo_isola h₁ hp hf).le ho hn max_size
    exact ⟨h₂, hopen'.trans hopen, hread'.trans hread⟩

end Corridas

/-- A file `A` stays when `B` is written. -/
theorem a_file_stays_beside_another : ∃ r d r' d',
    vfs_write medio disco_medio ⟨true, 2⟩ [65] [1] = some (r, d) ∧
    vfs_write medio d ⟨true, 2⟩ [66] [2] = some (r', d') ∧
    vfs_open medio d' ⟨true, 2⟩ [65] = vfs_open medio d ⟨true, 2⟩ [65] ∧
    vfs_read medio d' ⟨true, 2⟩ [65] 512 = vfs_read medio d ⟨true, 2⟩ [65] 512 := by
  have g : Geometria medio := ⟨by decide, by decide, by decide, by decide⟩
  have h : Todas medio Inteira disco_medio := todas_vazio Inteira g ⟨by decide, by decide⟩
  have hparte (d : Disco) (nome buf : List UInt8) (h0 : 0 ∉ nome) :
      Parte medio d ⟨true, 2⟩ (.write nome buf) := by
    intro _ path hp
    obtain rfl := List.mem_singleton.mp hp
    refine ⟨h0, ?_⟩
    unfold origem
    split
    · exact .raiz
    · exact .raiz
  have halvo (d : Disco) (nome : List UInt8) (hb : BARRA ∉ nome) :
      alvo medio d ⟨true, 2⟩ nome = some (some (2, fat32_normalize nome)) := by
    unfold alvo
    rw [pai_simples hb, split_simples hb]
    rfl
  obtain ⟨r, d, hw, h₁⟩ := passo_todas (inteira_estavel g) h (hparte disco_medio [65] [1] (by decide))
  obtain ⟨r', d', hw', -⟩ := passo_todas (inteira_estavel g) h₁ (hparte d [66] [2] (by decide))
  have hn : NaoNomeia medio ⟨true, 2⟩ [65] d ⟨true, 2⟩ (.write [66] [2]) := by
    rintro ⟨p, n⟩ hw ⟨path, hp, ha⟩
    obtain rfl := List.mem_singleton.mp hp
    unfold consultas at hw
    rw [split_simples (by decide), halvo d [65] (by decide)] at hw
    obtain ⟨rfl, rfl⟩ := Prod.mk.inj (List.mem_singleton.mp hw)
    rw [halvo d [66] (by decide)] at ha
    exact absurd ha (by decide)
  exact ⟨r, d, r', d', hw, hw', a_path_that_no_call_names_stays h₁
    (.mais .nada (hparte d [66] [2] (by decide)) hn hw') rfl 512⟩

end SpaceOS.Vfs
