-- The objects of a FAT32 volume (the root and the live entries reachable from it), when a volume is
-- well formed, and the writes that leave it so.
import SpaceOS.Fat32Volume

open Lib.Bytes Lib.Bytes.ByteStr Lib.Links

namespace SpaceOS.Fat32

/-! ## Objects -/

/-- The entry is before the end marker of a directory, and neither deleted nor a part of a long
name. -/
def Vivo (d : Disco) (ss : List Slot) (x : Slot) : Prop :=
  x ∈ ss.takeWhile (fun y => (dirent d y).first ≠ 0) ∧ (dirent d x).first ≠ 0xE5 ∧
    (dirent d x).attr ≠ FAT32_ATTR_LFN

def EhPonto (e : Dirent) : Prop := e.raw11 = PONTO ∨ e.raw11 = PONTO_PONTO

def EhDir (e : Dirent) : Prop := e.attr &&& FAT32_ATTR_DIR ≠ 0

/-- The entries of a directory with the chain `cs`. -/
abbrev entradas (v : Bpb) (cs : List Nat) : List Slot := cs.flatMap (slots v)

/-- The first clusters of the directories that can be reached from the root. -/
inductive Dir (v : Bpb) (d : Disco) : Nat → Prop
  | raiz : Dir v d v.root_cluster
  | sub {p : Nat} {cs : List Nat} {x : Slot} : Dir v d p → Cadeia v d p cs →
      Vivo d (entradas v cs) x → ¬ EhPonto (dirent d x) → EhDir (dirent d x) →
      (dirent d x).cluster ≠ 0 → Dir v d (dirent d x).cluster

/-- An object and its first cluster. An entry is named by its place. -/
inductive Objeto (v : Bpb) (d : Disco) : Option Slot → Nat → Prop
  | raiz : Objeto v d none v.root_cluster
  | entrada {p : Nat} {cs : List Nat} {x : Slot} : Dir v d p → Cadeia v d p cs →
      Vivo d (entradas v cs) x → ¬ EhPonto (dirent d x) →
      Objeto v d (some x) (dirent d x).cluster

/-- After an end marker there are only free entries. -/
def Fim (d : Disco) (ss : List Slot) : Prop :=
  ∀ y ∈ ss.dropWhile (fun y => (dirent d y).first ≠ 0), (dirent d y).first = 0

/-- The chains of the objects end. -/
def ComCadeias (v : Bpb) (d : Disco) : Prop :=
  ∀ o c, Objeto v d o c → c ≠ 0 → ∃ cs, Cadeia v d c cs

/-- The chains of distinct objects have no cluster in common. -/
def Disjuntas (v : Bpb) (d : Disco) : Prop :=
  ∀ o o' c c' cs cs', Objeto v d o c → Objeto v d o' c' → o ≠ o' → Cadeia v d c cs →
    Cadeia v d c' cs' → ∀ x ∈ cs, x ∉ cs'

structure BemFormado (v : Bpb) (d : Disco) : Prop where
  geo : Geometria v
  raiz : v.root_cluster ≠ 0
  cadeias : ComCadeias v d
  disjuntas : Disjuntas v d
  rotulos : ∀ p cs x, Dir v d p → Cadeia v d p cs → Vivo d (entradas v cs) x →
    (dirent d x).attr &&& FAT32_ATTR_VOLUME ≠ 0 → (dirent d x).cluster = 0
  fim : ∀ p cs, Dir v d p → Cadeia v d p cs → Fim d (entradas v cs)

section Objetos

variable {v : Bpb} {d d' : Disco} {c c' p q : Nat} {cs cs' : List Nat} {o o' : Option Slot} {x : Slot}

theorem Vivo.mem {ss : List Slot} (h : Vivo d ss x) : x ∈ ss :=
  List.takeWhile_subset _ h.1

theorem takeWhile_congr {α : Type} {f g : α → Bool} {l : List α} (h : ∀ y ∈ l, f y = g y) :
    l.takeWhile f = l.takeWhile g ∧ l.dropWhile f = l.dropWhile g := by
  induction l with
  | nil => exact ⟨rfl, rfl⟩
  | cons a l ih =>
    have ih' := ih fun y hy => h y (List.mem_cons_of_mem _ hy)
    rw [List.takeWhile_cons, List.takeWhile_cons, List.dropWhile_cons, List.dropWhile_cons,
      h a List.mem_cons_self, ih'.1, ih'.2]
    exact ⟨rfl, rfl⟩

theorem vivo_congr {ss : List Slot} (h : ∀ y ∈ ss, dirent d' y = dirent d y) :
    Vivo d' ss x ↔ Vivo d ss x := by
  have ht := (takeWhile_congr (f := fun y => decide ((dirent d' y).first ≠ 0))
    (g := fun y => decide ((dirent d y).first ≠ 0)) (l := ss)
    fun y hy => by rw [h y hy]).1
  unfold Vivo
  rw [ht]
  constructor
  · rintro ⟨h1, h2, h3⟩
    rw [h x (List.takeWhile_subset _ h1)] at h2 h3
    exact ⟨h1, h2, h3⟩
  · rintro ⟨h1, h2, h3⟩
    rw [h x (List.takeWhile_subset _ h1)]
    exact ⟨h1, h2, h3⟩

theorem fim_congr {ss : List Slot} (h : ∀ y ∈ ss, dirent d' y = dirent d y) (hf : Fim d ss) :
    Fim d' ss := by
  have ht := (takeWhile_congr (f := fun y => decide ((dirent d' y).first ≠ 0))
    (g := fun y => decide ((dirent d y).first ≠ 0)) (l := ss)
    fun y hy => by rw [h y hy]).2
  unfold Fim
  rw [ht]
  intro y hy
  rw [h y (List.dropWhile_subset _ hy)]
  exact hf y hy

theorem Objeto.unico (h : Objeto v d o c) (h' : Objeto v d o c') : c = c' := by
  cases h with
  | raiz =>
    cases h' with
    | raiz => rfl
  | entrada _ _ _ _ =>
    cases h' with
    | entrada _ _ _ _ => rfl

theorem Dir.objeto (h : Dir v d q) (hr : v.root_cluster ≠ 0) : ∃ o, Objeto v d o q ∧ q ≠ 0 := by
  cases h with
  | raiz => exact ⟨none, .raiz, hr⟩
  | sub hp hc hv hn _ hne => exact ⟨some _, .entrada hp hc hv hn, hne⟩

theorem BemFormado.cadeia (h : BemFormado v d) (hq : Dir v d q) : ∃ cs, Cadeia v d q cs := by
  obtain ⟨o, ho, hne⟩ := hq.objeto h.raiz
  exact h.cadeias o q ho hne

/-- A cluster of the chain of a directory is on the chain of no other object. -/
theorem BemFormado.pasta_unica (h : BemFormado v d) (hq : Dir v d q) (hcs : Cadeia v d q cs)
    (ho : Objeto v d o c) (hcs' : Cadeia v d c cs') {y : Nat} (hy : y ∈ cs) (hy' : y ∈ cs') :
    q = c := by
  obtain ⟨o', ho', _⟩ := hq.objeto h.raiz
  by_cases he : o' = o
  · subst he
    exact ho'.unico ho
  · exact absurd hy' (h.disjuntas o' o q c cs cs' ho' ho he hcs hcs' y hy)

theorem BemFormado.em_faixa (h : BemFormado v d) (hcs : Cadeia v d q cs)
    (hx : x ∈ entradas v cs) : v.data_lba ≤ x.1 ∧ x.2 < 16 ∧ ∃ c ∈ cs, x ∈ slots v c := by
  obtain ⟨c, hc, hx⟩ := List.mem_flatMap.mp hx
  exact ⟨slots_ge h.geo (hcs.em_faixa hc) hx, slots_lt hx, c, hc, hx⟩

/-! ## Changes -/

/-- The objects after a change: where the entries of the old directories are as they were, or new,
and the new objects are directories without entries at most. -/
theorem BemFormado.transfere (h : BemFormado v d) (d' : Disco) (novo : Slot → Nat → Prop)
    (h1 : ∀ q cs, Dir v d q → Cadeia v d q cs → Cadeia v d' q cs ∧
      ∀ y, Vivo d' (entradas v cs) y → ¬ EhPonto (dirent d' y) →
        (Vivo d (entradas v cs) y ∧ dirent d' y = dirent d y) ∨ novo y (dirent d' y).cluster)
    (h2 : ∀ y n, novo y n → EhDir (dirent d' y) → ∀ cs, Cadeia v d' n cs →
      ∀ z, Vivo d' (entradas v cs) z → EhPonto (dirent d' z)) :
    (∀ q, Dir v d' q → Dir v d q ∨ ∃ y, novo y q ∧ EhDir (dirent d' y)) ∧
      ∀ o c, Objeto v d' o c → Objeto v d o c ∨ ∃ y, o = some y ∧ novo y c := by
  have hdir : ∀ q, Dir v d' q → Dir v d q ∨ ∃ y, novo y q ∧ EhDir (dirent d' y) := by
    intro q hq
    induction hq with
    | raiz => exact Or.inl .raiz
    | @sub p cs x hp hc hv hn hdir hne ih =>
      rcases ih with hp' | ⟨y, hy, hyd⟩
      · obtain ⟨cs₀, hc₀⟩ := h.cadeia hp'
        obtain ⟨hc', hvivos⟩ := h1 p cs₀ hp' hc₀
        obtain rfl := Chain.unique hc hc'
        rcases hvivos x hv hn with ⟨hv', he⟩ | hnovo
        · rw [he] at hn hdir hne ⊢
          exact Or.inl (.sub hp' hc₀ hv' hn hdir hne)
        · exact Or.inr ⟨x, hnovo, hdir⟩
      · exact absurd (h2 y p hy hyd cs hc x hv) hn
  refine ⟨hdir, fun o c ho => ?_⟩
  cases ho with
  | raiz => exact Or.inl .raiz
  | @entrada p cs x hp hc hv hn =>
    rcases hdir p hp with hp' | ⟨y, hy, hyd⟩
    · obtain ⟨cs₀, hc₀⟩ := h.cadeia hp'
      obtain ⟨hc', hvivos⟩ := h1 p cs₀ hp' hc₀
      obtain rfl := Chain.unique hc hc'
      rcases hvivos x hv hn with ⟨hv', he⟩ | hnovo
      · rw [he] at hn ⊢
        exact Or.inl (.entrada hp' hc₀ hv' hn)
      · exact Or.inr ⟨x, rfl, hnovo⟩
    · exact absurd (h2 y p hy hyd cs hc x hv) hn

/-- The directories keep their chains and their entries. -/
def Pastas (v : Bpb) (d d' : Disco) : Prop :=
  ∀ q cs, Dir v d q → Cadeia v d q cs → ∀ c ∈ cs,
    fat32_read_fat v d' c = fat32_read_fat v d c ∧ ∀ y ∈ slots v c, dirent d' y = dirent d y

/-- The objects and the directories of the volume after a change are ones that it had. -/
structure Menos (v : Bpb) (d d' : Disco) : Prop where
  objetos : ∀ o c, Objeto v d' o c → Objeto v d o c
  dirs : ∀ q, Dir v d' q → Dir v d q

theorem Pastas.entradas {q : Nat} (hp : Pastas v d d') (hq : Dir v d q) (hc : Cadeia v d q cs) :
    Cadeia v d' q cs ∧ ∀ y ∈ entradas v cs, dirent d' y = dirent d y := by
  refine ⟨hc.mesma_fat fun c hmem => (hp q cs hq hc c hmem).1, fun y hy => ?_⟩
  obtain ⟨c, hmem, hy⟩ := List.mem_flatMap.mp hy
  exact (hp q cs hq hc c hmem).2 y hy

theorem BemFormado.menos (h : BemFormado v d) (hp : Pastas v d d') : Menos v d d' := by
  have ht := h.transfere d' (fun _ _ => False)
    (fun q cs hq hc => by
      obtain ⟨hc', he⟩ := hp.entradas hq hc
      refine ⟨hc', fun y hy _ => Or.inl ?_⟩
      have hv := (vivo_congr he).mp hy
      exact ⟨hv, he y hv.mem⟩)
    (fun _ _ hf _ => hf.elim)
  refine ⟨fun o c ho => ?_, fun q hq => ?_⟩
  · exact (ht.2 o c ho).resolve_right fun ⟨_, _, hf⟩ => hf
  · exact (ht.1 q hq).resolve_right fun ⟨_, hf, _⟩ => hf

/-- A directory after a change is `pasta` or one of before, and its live entries are `novo` or ones of
before. -/
def Entre (v : Bpb) (novo : Slot → Prop) (pasta : Nat → Prop) (d d' : Disco) : Prop :=
  ∀ q cs, Dir v d' q → Cadeia v d' q cs → pasta q ∨ (Dir v d q ∧ Cadeia v d q cs ∧
    ∀ y, Vivo d' (entradas v cs) y →
      novo y ∨ (Vivo d (entradas v cs) y ∧ dirent d' y = dirent d y))

/-- The directories and their live entries are ones of before. -/
abbrev Reduz (v : Bpb) (d d' : Disco) : Prop := Entre v (fun _ => False) (fun _ => False) d d'

theorem Reduz.refl (v : Bpb) (d : Disco) : Reduz v d d :=
  fun _ _ hq hc => Or.inr ⟨hq, hc, fun _ hy => Or.inr ⟨hy, rfl⟩⟩

theorem Reduz.entre {d'' : Disco} {novo : Slot → Prop} {pasta : Nat → Prop} (h : Reduz v d d')
    (h' : Entre v novo pasta d' d'') : Entre v novo pasta d d'' := by
  intro q cs hq hc
  rcases h' q cs hq hc with hp | ⟨hq', hc', hv'⟩
  · exact Or.inl hp
  · obtain ⟨hq₀, hc₀, hv⟩ := (h q cs hq' hc').resolve_left id
    refine Or.inr ⟨hq₀, hc₀, fun y hy => (hv' y hy).imp_right fun ⟨hy', he'⟩ => ?_⟩
    obtain ⟨hy₀, he⟩ := (hv y hy').resolve_left id
    exact ⟨hy₀, he'.trans he⟩

theorem Entre.reduz {d'' : Disco} {novo : Slot → Prop} {pasta : Nat → Prop}
    (h : Entre v novo pasta d d') (h' : Reduz v d' d'') : Entre v novo pasta d d'' := by
  intro q cs hq hc
  obtain ⟨hq', hc', hv'⟩ := (h' q cs hq hc).resolve_left id
  refine (h q cs hq' hc').imp_right fun ⟨hq₀, hc₀, hv⟩ => ⟨hq₀, hc₀, fun y hy => ?_⟩
  obtain ⟨hy', he'⟩ := (hv' y hy).resolve_left id
  exact (hv y hy').imp_right fun ⟨hy₀, he⟩ => ⟨hy₀, he'.trans he⟩

theorem Pastas.reduz (hp : Pastas v d d') (h : BemFormado v d) : Reduz v d d' := by
  intro q cs hq hc
  have hq' := (h.menos hp).dirs q hq
  obtain ⟨ks, hk⟩ := h.cadeia hq'
  obtain ⟨hk', he⟩ := hp.entradas hq' hk
  obtain rfl := Chain.unique hc hk'
  exact Or.inr ⟨hq', hk, fun y hy => Or.inr ⟨(vivo_congr he).mp hy, he y hy.mem⟩⟩

/-- The directories are still reached. -/
theorem Pastas.dir (hp : Pastas v d d') {q : Nat} (hq : Dir v d q) : Dir v d' q := by
  induction hq with
  | raiz => exact .raiz
  | @sub p cs x hpd hc hv hn hdir hne ih =>
    obtain ⟨hc', he⟩ := hp.entradas hpd hc
    have hex := he x hv.mem
    rw [← hex] at hn hdir hne ⊢
    exact .sub ih hc' ((vivo_congr he).mpr hv) hn hdir hne

/-- A change that leaves the directories leaves the volume well formed, if the chains of the objects
still end and have no cluster in common. -/
theorem BemFormado.muda (h : BemFormado v d) (hp : Pastas v d d')
    (hc : ∀ o c, Objeto v d o c → c ≠ 0 → ∃ cs, Cadeia v d' c cs)
    (hd : ∀ o o' c c' cs cs', Objeto v d o c → Objeto v d o' c' → o ≠ o' → Cadeia v d' c cs →
      Cadeia v d' c' cs' → ∀ x ∈ cs, x ∉ cs') : BemFormado v d' := by
  have hm := h.menos hp
  refine ⟨h.geo, h.raiz, fun o c ho => hc o c (hm.objetos o c ho), ?_, ?_, ?_⟩
  · intro o o' c c' cs cs' ho ho' hne
    exact hd o o' c c' cs cs' (hm.objetos o c ho) (hm.objetos o' c' ho') hne
  · intro p cs x hpd hcs hv hvol
    obtain ⟨cs₀, hc₀⟩ := h.cadeia (hm.dirs p hpd)
    obtain ⟨hc', he⟩ := hp.entradas (hm.dirs p hpd) hc₀
    obtain rfl := Chain.unique hcs hc'
    have hv' := (vivo_congr he).mp hv
    rw [he x hv'.mem] at hvol ⊢
    exact h.rotulos p cs x (hm.dirs p hpd) hc₀ hv' hvol
  · intro p cs hpd hcs
    obtain ⟨cs₀, hc₀⟩ := h.cadeia (hm.dirs p hpd)
    obtain ⟨hc', he⟩ := hp.entradas (hm.dirs p hpd) hc₀
    obtain rfl := Chain.unique hcs hc'
    exact fim_congr he (h.fim p cs (hm.dirs p hpd) hc₀)

/-- No object has a cluster of the list on its chain. -/
def Solta (v : Bpb) (d : Disco) (cs : List Nat) : Prop :=
  ∀ o c ks, Objeto v d o c → Cadeia v d c ks → ∀ x ∈ cs, x ∉ ks

/-- Outside of some clusters nothing changes. -/
def SoEm (v : Bpb) (cs : List Nat) (d d' : Disco) : Prop :=
  ∀ c, EmFaixa v c → c ∉ cs → fat32_read_fat v d' c = fat32_read_fat v d c ∧
    ∀ y ∈ slots v c, dirent d' y = dirent d y

theorem SoEm.trans {d'' : Disco} (h : SoEm v cs d d') (h' : SoEm v cs d' d'') : SoEm v cs d d'' :=
  fun c hc hn => ⟨((h' c hc hn).1).trans (h c hc hn).1,
    fun y hy => ((h' c hc hn).2 y hy).trans ((h c hc hn).2 y hy)⟩

theorem SoEm.refl (v : Bpb) (cs : List Nat) (d : Disco) : SoEm v cs d d :=
  fun _ _ _ => ⟨rfl, fun _ _ => rfl⟩

theorem Solta.pastas (h : BemFormado v d) (hs : Solta v d cs) (hm : SoEm v cs d d') :
    Pastas v d d' := by
  intro q ks hq hk c hc
  obtain ⟨o, ho, _⟩ := hq.objeto h.raiz
  exact hm c (hk.em_faixa hc) fun hmem => hs o q ks ho hk c hmem hc

theorem Cadeia.ne_zero (h : Cadeia v d c cs) : c ≠ 0 := by
  intro h0
  have := (h.em_faixa (Chain.head_mem h)).1
  omega

/-- A change in clusters of no object. -/
theorem BemFormado.muda_solta (h : BemFormado v d) (hs : Solta v d cs) (hm : SoEm v cs d d') :
    BemFormado v d' ∧ ∀ o c ks, Objeto v d o c → Cadeia v d c ks → Cadeia v d' c ks := by
  have hcad : ∀ o c ks, Objeto v d o c → Cadeia v d c ks → Cadeia v d' c ks := by
    intro o c ks ho hk
    refine hk.mesma_fat fun x hx => (hm x (hk.em_faixa hx) fun hmem => ?_).1
    exact hs o c ks ho hk x hmem hx
  refine ⟨h.muda (hs.pastas h hm) ?_ ?_, hcad⟩
  · intro o c ho hne
    obtain ⟨ks, hk⟩ := h.cadeias o c ho hne
    exact ⟨ks, hcad o c ks ho hk⟩
  · intro o o' c c' ks ks' ho ho' hne hk hk' x hx
    obtain ⟨ls, hl⟩ := h.cadeias o c ho (Cadeia.ne_zero hk)
    obtain ⟨ls', hl'⟩ := h.cadeias o' c' ho' (Cadeia.ne_zero hk')
    rw [Chain.unique hk (hcad o c ls ho hl)] at hx
    rw [Chain.unique hk' (hcad o' c' ls' ho' hl')]
    exact h.disjuntas o o' c c' ls ls' ho ho' hne hl hl' x hx

end Objetos

end SpaceOS.Fat32
