-- The slab allocator over runs of `slab_criar`, `slab_alloc`, `slab_free` and writes of the clients:
-- in every slab the free list and the live objects together are the slots.
import Mathlib.Data.List.Perm.Subperm
import SpaceOS.Slab

open Lib.Bytes Lib.LinkedList

namespace SpaceOS.Slab

/-- The slots of the slab at address `a`. -/
def slots (a obj_size objs_por_slab : Nat) : List Nat :=
  (List.range' 0 objs_por_slab).map (slot (a + SLAB_CABECALO) obj_size)

/-- What is promised of `pmm_alloc`: pages at multiples of their size, none of them twice. A 0 says
that there is no page. -/
structure PaginasBoas (paginas : Nat → Nat) : Prop where
  alinhada : ∀ n, paginas n % PAGE_SIZE = 0
  cabe : ∀ n, paginas n < 2 ^ 32
  distintas : ∀ n k, paginas n ≠ 0 → paginas n = paginas k → n = k

/-! ## Slots -/

section Slots

variable {a obj_size objs_por_slab i j p q base : Nat}

theorem slot_lt (base obj_size : Nat) (h : i < j) :
    slot base obj_size i + obj_size ≤ slot base obj_size j := by
  have := Nat.mul_le_mul_right obj_size (Nat.succ_le_of_lt h)
  rw [Nat.succ_mul] at this
  unfold slot
  omega

theorem mem_slots : p ∈ slots a obj_size objs_por_slab ↔
    ∃ i, i < objs_por_slab ∧ p = slot (a + SLAB_CABECALO) obj_size i := by
  unfold slots
  simp [List.mem_map, eq_comm]

/-- A slot lies in its page, after the header. -/
theorem slot_bounds (hc : objs_por_slab * obj_size ≤ PAGE_SIZE - SLAB_CABECALO)
    (hp : p ∈ slots a obj_size objs_por_slab) :
    a + SLAB_CABECALO ≤ p ∧ p + obj_size ≤ a + PAGE_SIZE := by
  obtain ⟨i, hi, rfl⟩ := mem_slots.mp hp
  have h := slot_lt (a + SLAB_CABECALO) obj_size hi
  unfold slot at h ⊢
  simp only [PAGE_SIZE, SLAB_CABECALO] at hc h ⊢
  omega

theorem slots_disjoint (hp : p ∈ slots a obj_size objs_por_slab)
    (hq : q ∈ slots a obj_size objs_por_slab) (hne : p ≠ q) :
    p + obj_size ≤ q ∨ q + obj_size ≤ p := by
  obtain ⟨i, _, rfl⟩ := mem_slots.mp hp
  obtain ⟨j, _, rfl⟩ := mem_slots.mp hq
  rcases Nat.lt_trichotomy i j with h | rfl | h
  · exact Or.inl (slot_lt _ _ h)
  · exact absurd rfl hne
  · exact Or.inr (slot_lt _ _ h)

theorem slots_nodup (h : 0 < obj_size) : (slots a obj_size objs_por_slab).Nodup := by
  refine List.Nodup.map (fun i j he => ?_) List.nodup_range'
  rcases Nat.lt_trichotomy i j with hl | rfl | hl
  · have := slot_lt (a + SLAB_CABECALO) obj_size hl
    omega
  · rfl
  · have := slot_lt (a + SLAB_CABECALO) obj_size hl
    omega

theorem pagina_eq (ha : a % PAGE_SIZE = 0) (h1 : a ≤ p) (h2 : p < a + PAGE_SIZE) : pagina p = a := by
  simp only [pagina, PAGE_SIZE] at *
  omega

theorem pagina_alinhada : pagina p % PAGE_SIZE = 0 := by
  simp only [pagina, PAGE_SIZE]
  omega

end Slots

/-! ## A new slab -/

section Novo

variable {m : Memory} {base obj_size objs_por_slab n : Nat}

theorem liga_slots_loop (base : Nat) (hs : 4 ≤ obj_size) (hfim : slot base obj_size n < 2 ^ 32) :
    let m' := (List.range n).foldl
      (fun m i => putWord m (slot base obj_size i) (slot base obj_size (i + 1))) m
    (∀ i < n, word m' (slot base obj_size i) = slot base obj_size (i + 1)) ∧
      ∀ x, x < base ∨ slot base obj_size n ≤ x → m' x = m x := by
  induction n with
  | zero => exact ⟨fun i hi => absurd hi (Nat.not_lt_zero i), fun _ _ => rfl⟩
  | succ n ih =>
    have hn := slot_lt base obj_size (Nat.lt_add_one n)
    obtain ⟨hword, hframe⟩ := ih (by omega)
    have hb : base ≤ slot base obj_size n := Nat.le_add_right _ _
    dsimp only
    rw [List.range_succ, List.foldl_append, List.foldl_cons, List.foldl_nil]
    refine ⟨fun i hi => ?_, fun x hx => ?_⟩
    · rcases Nat.lt_succ_iff_lt_or_eq.mp hi with hi | rfl
      · have := slot_lt base obj_size hi
        rw [word_putWord_ne _ _ (by omega), hword i hi]
      · rw [word_putWord_self, Nat.mod_eq_of_lt hfim]
    · rw [putWord_ne _ _ (by omega), hframe x (by omega)]

/-- The slots are linked in their order, and nothing else changes. -/
theorem liga_slots_spec (base : Nat) (hn : 0 < objs_por_slab) (hs : 4 ≤ obj_size) (hb : 0 < base)
    (hfim : base + objs_por_slab * obj_size ≤ 2 ^ 32) :
    Linked 0 (word (liga_slots m base obj_size objs_por_slab)) base
        ((List.range' 0 objs_por_slab).map (slot base obj_size)) ∧
      ∀ x, x < base ∨ base + objs_por_slab * obj_size ≤ x →
        liga_slots m base obj_size objs_por_slab x = m x := by
  obtain ⟨k, rfl⟩ : ∃ k, objs_por_slab = k + 1 := ⟨objs_por_slab - 1, by omega⟩
  have hk := Nat.le_mul_of_pos_right (k + 1) (by omega : 0 < obj_size)
  have hult : (k + 1 + 2 ^ 32 - 1) % 2 ^ 32 = k := by omega
  have hlast : slot base obj_size k + obj_size = base + (k + 1) * obj_size := by
    unfold slot
    rw [Nat.succ_mul, Nat.add_assoc]
  obtain ⟨hword, hframe⟩ := liga_slots_loop (m := m) (n := k) base hs (by omega)
  have hbk : base ≤ slot base obj_size k := Nat.le_add_right _ _
  unfold liga_slots
  rw [hult]
  dsimp only
  refine ⟨?_, fun x hx => ?_⟩
  · have h0 : slot base obj_size 0 = base := by simp [slot]
    nth_rewrite 4 [← h0]
    refine linked_range hn ?_ ?_ ?_
    · intro i _ _
      have : base ≤ slot base obj_size i := Nat.le_add_right _ _
      omega
    · intro i _ hi
      have := slot_lt base obj_size (by omega : i < k)
      rw [word_putWord_ne _ _ (by omega), hword i (by omega)]
    · intro i hi
      obtain rfl : i = k := by omega
      exact word_putWord_self _ _ _
  · rw [putWord_ne _ _ (by omega), hframe x (by omega)]

end Novo

/-! ## One slab -/

/-- The slab at `a` with its free slots and its live objects: the free list ends, the counter is its
length, and both together are the slots. -/
structure SlabBom (m : Memory) (obj_size objs_por_slab a : Nat) (livres vivos : List Nat) : Prop where
  lista : Linked 0 (word m) (free_list m a) livres
  contagem : livre_count m a = livres.length
  tudo : (livres ++ vivos).Perm (slots a obj_size objs_por_slab)

section SlabBom

variable {m m' : Memory} {obj_size objs_por_slab a p x : Nat} {livres vivos vivos' : List Nat}

theorem SlabBom.livre_mem (h : SlabBom m obj_size objs_por_slab a livres vivos) (hp : p ∈ livres) :
    p ∈ slots a obj_size objs_por_slab :=
  h.tudo.subset (List.mem_append_left _ hp)

theorem SlabBom.vivo_mem (h : SlabBom m obj_size objs_por_slab a livres vivos) (hp : p ∈ vivos) :
    p ∈ slots a obj_size objs_por_slab :=
  h.tudo.subset (List.mem_append_right _ hp)

theorem SlabBom.perm (h : SlabBom m obj_size objs_por_slab a livres vivos) (hv : vivos.Perm vivos') :
    SlabBom m obj_size objs_por_slab a livres vivos' :=
  ⟨h.lista, h.contagem, (hv.symm.append_left livres).trans h.tudo⟩

/-- A slab is kept where its counter, the start of its free list and its free slots are. -/
theorem SlabBom.congr (h : SlabBom m obj_size objs_por_slab a livres vivos)
    (hc : ∀ y, a ≤ y → y < a + 8 → m' y = m y)
    (hl : ∀ q ∈ livres, ∀ y, q ≤ y → y < q + 4 → m' y = m y) :
    SlabBom m' obj_size objs_por_slab a livres vivos := by
  have hfree : free_list m' a = free_list m a :=
    word_congr fun y h1 h2 => hc y (by omega) (by omega)
  have hcount : livre_count m' a = livre_count m a :=
    word_congr fun y h1 h2 => hc y (by omega) (by omega)
  refine ⟨?_, hcount.trans h.contagem, h.tudo⟩
  rw [hfree]
  exact h.lista.congr fun q hq => word_congr (hl q hq)

/-- The sizes of a cache that has a slab. -/
structure Medidas (obj_size objs_por_slab : Nat) : Prop where
  minimo : 8 ≤ obj_size
  maximo : obj_size ≤ PAGE_SIZE - SLAB_CABECALO
  divide : objs_por_slab = (PAGE_SIZE - SLAB_CABECALO) / obj_size

theorem Medidas.cabem (h : Medidas obj_size objs_por_slab) :
    objs_por_slab * obj_size ≤ PAGE_SIZE - SLAB_CABECALO := by
  rw [h.divide]
  exact Nat.div_mul_le_self _ _

theorem Medidas.pos (h : Medidas obj_size objs_por_slab) : 0 < objs_por_slab := by
  rw [h.divide]
  exact Nat.div_pos h.maximo (by have := h.minimo; omega)

theorem Medidas.menos (h : Medidas obj_size objs_por_slab) : objs_por_slab < 2 ^ 32 := by
  rw [h.divide]
  exact Nat.lt_of_le_of_lt (Nat.div_le_self _ _) (by decide)

/-- A slab is kept by what changes only outside its page. -/
theorem SlabBom.outra (hm : Medidas obj_size objs_por_slab)
    (h : SlabBom m obj_size objs_por_slab a livres vivos)
    (he : ∀ y, a ≤ y → y < a + PAGE_SIZE → m' y = m y) :
    SlabBom m' obj_size objs_por_slab a livres vivos := by
  refine h.congr (fun y h1 h2 => he y h1 ?_) fun q hq y h1 h2 => ?_
  · simp only [PAGE_SIZE]
    omega
  · have hb := slot_bounds hm.cabem (h.livre_mem hq)
    have := hm.minimo
    exact he y (by omega) (by omega)

/-- What a client writes into a live object leaves its slab as it is. -/
theorem SlabBom.escreve (hm : Medidas obj_size objs_por_slab)
    (h : SlabBom m obj_size objs_por_slab a livres vivos) (hp : p ∈ vivos) (h1 : p ≤ x)
    (h2 : x < p + obj_size) (b : UInt8) :
    SlabBom (putByte m x b) obj_size objs_por_slab a livres vivos := by
  have hpos := hm.minimo
  have hb := slot_bounds hm.cabem (h.vivo_mem hp)
  refine h.congr (fun y _ hy => putByte_ne _ _ ?_) fun q hq y hy1 hy2 => putByte_ne _ _ ?_
  · simp only [SLAB_CABECALO] at hb
    omega
  · have hnodup := h.tudo.nodup_iff.mpr (slots_nodup (by omega))
    have hne : q ≠ p := fun he => (List.disjoint_of_nodup_append hnodup) (he ▸ hq) hp
    have := slots_disjoint (h.livre_mem hq) (h.vivo_mem hp) hne
    omega

/-- The link to the next slab is no part of what a slab says of its slots. -/
theorem SlabBom.por_proximo (hm : Medidas obj_size objs_por_slab)
    (h : SlabBom m obj_size objs_por_slab a livres vivos) (v : Nat) :
    SlabBom (por_proximo m a v) obj_size objs_por_slab a livres vivos := by
  refine h.congr (fun y _ hy => putWord_ne _ _ (by omega)) fun q hq y hy1 _ => putWord_ne _ _ ?_
  have hb := (slot_bounds hm.cabem (h.livre_mem hq)).1
  simp only [SLAB_CABECALO] at hb
  omega

/-- A new slab: every slot is free, and no other page changes. -/
theorem prepara_spec {c : Cache} (hm : Medidas c.obj_size ((PAGE_SIZE - SLAB_CABECALO) / c.obj_size))
    (ha : a + PAGE_SIZE ≤ 2 ^ 32) :
    ∃ m', prepara m c a =
        ({ c with objs_por_slab := (PAGE_SIZE - SLAB_CABECALO) / c.obj_size }, m') ∧
      SlabBom m' c.obj_size ((PAGE_SIZE - SLAB_CABECALO) / c.obj_size) a
        (slots a c.obj_size ((PAGE_SIZE - SLAB_CABECALO) / c.obj_size)) [] ∧
      proximo m' a = 0 ∧ ∀ y, y < a ∨ a + PAGE_SIZE ≤ y → m' y = m y := by
  have hmin := hm.minimo
  have hcabem := hm.cabem
  have hmenos := hm.menos
  simp only [prepara]
  generalize (PAGE_SIZE - SLAB_CABECALO) / c.obj_size = n at *
  simp only [PAGE_SIZE, SLAB_CABECALO] at ha hcabem ⊢
  obtain ⟨hlink, hframe⟩ := liga_slots_spec (a + 12)
    (m := por_free_list (por_proximo (por_livre_count m a n) a 0) a (a + 12)) hm.pos
    (by omega : 4 ≤ c.obj_size) (by omega) (by omega)
  refine ⟨_, rfl, ⟨?_, ?_, ?_⟩, ?_, fun y hy => ?_⟩
  · have hfree : free_list (liga_slots (por_free_list (por_proximo (por_livre_count m a n) a 0) a
        (a + 12)) (a + 12) c.obj_size n) a = a + 12 := by
      unfold free_list
      rw [word_congr fun y _ hy => hframe y (by omega)]
      unfold por_free_list
      rw [word_putWord_self, Nat.mod_eq_of_lt (by omega)]
    rw [hfree]
    exact hlink
  · unfold livre_count
    rw [word_congr fun y _ hy => hframe y (by omega)]
    unfold por_free_list por_proximo por_livre_count
    rw [word_putWord_ne _ _ (by omega), word_putWord_ne _ _ (by omega), word_putWord_self,
      Nat.mod_eq_of_lt hmenos]
    simp [slots]
  · simp
  · unfold proximo
    rw [word_congr fun y _ hy => hframe y (by omega)]
    unfold por_free_list por_proximo
    rw [word_putWord_ne _ _ (by omega)]
    exact word_putWord_self _ _ _
  · rw [hframe y (by omega)]
    unfold por_free_list por_proximo por_livre_count
    rw [putWord_ne _ _ (by omega), putWord_ne _ _ (by omega), putWord_ne _ _ (by omega)]

/-- `slab_alloc` takes the first free slot. -/
theorem SlabBom.toma (hm : Medidas obj_size objs_por_slab)
    (h : SlabBom m obj_size objs_por_slab a (p :: livres) vivos) :
    ∃ m', toma m a = (p, m') ∧ SlabBom m' obj_size objs_por_slab a livres (p :: vivos) ∧
      ∀ y, y < a ∨ a + 8 ≤ y → m' y = m y := by
  have hpos := hm.minimo
  have hmenos := hm.menos
  have hfree : free_list m a = p := h.lista.eq_first
  have hlen : livre_count m a = livres.length + 1 := h.contagem
  have hnext : Linked 0 (word m) (word m p) livres := h.lista.2.2
  have htotal : livres.length + 1 ≤ objs_por_slab := by
    have := h.tudo.length_eq
    simp only [slots, List.length_append, List.length_cons, List.length_map, List.length_range']
      at this
    omega
  have hword : ∀ q ∈ livres, ∀ y, q ≤ y → a + 8 ≤ y := fun q hq y hy => by
    have hb := (slot_bounds hm.cabem (h.livre_mem (List.mem_cons_of_mem _ hq))).1
    simp only [SLAB_CABECALO] at hb
    omega
  have hframe : ∀ v w y, y < a ∨ a + 8 ≤ y →
      por_livre_count (por_free_list m a v) a w y = m y := fun v w y hy => by
    unfold por_livre_count por_free_list
    rw [putWord_ne _ _ (by omega), putWord_ne _ _ (by omega)]
  unfold Slab.toma
  rw [hfree]
  dsimp only
  refine ⟨_, rfl, ⟨?_, ?_, ?_⟩, hframe _ _⟩
  · have hf : ∀ w, free_list (por_livre_count (por_free_list m a (word m p)) a w) a = word m p := by
      intro w
      unfold free_list por_livre_count por_free_list
      rw [word_putWord_ne _ _ (by omega), word_putWord_self, Nat.mod_eq_of_lt (word_lt m p)]
    rw [hf]
    exact hnext.congr fun q hq => word_congr fun y hy _ => hframe _ _ y (Or.inr (hword q hq y hy))
  · have hc : livre_count (por_free_list m a (word m p)) a = livres.length + 1 := by
      unfold livre_count por_free_list
      rw [word_putWord_ne _ _ (by omega)]
      exact hlen
    rw [hc]
    unfold livre_count por_livre_count
    rw [word_putWord_self]
    omega
  · exact List.perm_middle.trans h.tudo

/-- `slab_free` puts a live object in front of the free list of the slab in whose page it lies. -/
theorem SlabBom.devolve (hm : Medidas obj_size objs_por_slab)
    (h : SlabBom m obj_size objs_por_slab a livres (p :: vivos)) (hfim : a + PAGE_SIZE ≤ 2 ^ 32) :
    let m' := por_free_list (putWord m p (free_list m a)) a p
    let m' := por_livre_count m' a ((livre_count m' a + 1) % 2 ^ 32)
    SlabBom m' obj_size objs_por_slab a (p :: livres) vivos ∧
      ∀ y, y < a ∨ a + PAGE_SIZE ≤ y ∨ (a + 8 ≤ y ∧ (y < p ∨ p + obj_size ≤ y)) → m' y = m y := by
  have hpos := hm.minimo
  have hmenos := hm.menos
  have hp := h.vivo_mem List.mem_cons_self
  have hb := slot_bounds hm.cabem hp
  have hnodup := h.tudo.nodup_iff.mpr (slots_nodup (by omega))
  simp only [SLAB_CABECALO, PAGE_SIZE] at hb hfim
  have htotal : livres.length + 1 ≤ objs_por_slab := by
    have := h.tudo.length_eq
    simp only [slots, List.length_append, List.length_cons, List.length_map, List.length_range']
      at this
    omega
  have hframe : ∀ u v w y, (y < a ∨ a + 8 ≤ y) ∧ (y < p ∨ p + 4 ≤ y) →
      por_livre_count (por_free_list (putWord m p u) a v) a w y = m y := fun u v w y hy => by
    unfold por_livre_count por_free_list
    rw [putWord_ne _ _ (by omega), putWord_ne _ _ (by omega), putWord_ne _ _ (by omega)]
  dsimp only
  refine ⟨⟨⟨?_, by omega, ?_⟩, ?_, ?_⟩, fun y hy => hframe _ _ _ y ?_⟩
  · unfold free_list por_livre_count por_free_list
    rw [word_putWord_ne _ _ (by omega), word_putWord_self, Nat.mod_eq_of_lt (by omega)]
  · have hw : ∀ w, word (por_livre_count (por_free_list (putWord m p (free_list m a)) a p) a w) p =
        free_list m a := by
      intro w
      unfold por_livre_count por_free_list
      rw [word_putWord_ne _ _ (by omega), word_putWord_ne _ _ (by omega), word_putWord_self]
      exact Nat.mod_eq_of_lt (word_lt m (a + 4))
    rw [hw]
    refine h.lista.congr fun q hq => word_congr fun y hy1 hy2 => hframe _ _ _ y ?_
    have hqs := h.livre_mem hq
    have hqb := (slot_bounds hm.cabem hqs).1
    simp only [SLAB_CABECALO] at hqb
    have hne : q ≠ p := by
      rintro rfl
      exact (List.disjoint_of_nodup_append hnodup) hq List.mem_cons_self
    have := slots_disjoint hqs hp hne
    omega
  · have hc : livre_count (por_free_list (putWord m p (free_list m a)) a p) a = livres.length := by
      unfold livre_count por_free_list
      rw [word_putWord_ne _ _ (by omega), word_putWord_ne _ _ (by omega)]
      exact h.contagem
    rw [hc]
    unfold livre_count por_livre_count
    rw [word_putWord_self, List.length_cons]
    omega
  · exact List.perm_middle.symm.trans h.tudo
  · simp only [PAGE_SIZE] at hy
    omega

end SlabBom

/-! ## Every cache -/

/-- The objects of cache `i` that are live and lie in the page at `a`. -/
def vivosEm (vivos : List (Nat × Nat)) (i a : Nat) : List Nat :=
  (vivos.filter fun v => v.1 = i ∧ pagina v.2 = a).map Prod.snd

/-- The kernel with the live objects: the number of the cache and the address. -/
structure Estado where
  kernel : Kernel
  vivos : List (Nat × Nat)

inductive Chamada where
  | criar (tamanho : UInt32) (memoria : Bool)
  | alloc (i : Nat)
  | free (i p : Nat)
  | escreve (x : Nat) (b : UInt8)

/-- The state after a call. An object is live from the `slab_alloc` that returns it to its
`slab_free`. -/
def chama (paginas : Nat → Nat) (e : Estado) : Chamada → Option Estado
  | .criar t memoria =>
    (slab_criar paginas memoria e.kernel t.toNat).map fun k => { e with kernel := k }
  | .alloc i =>
    (slab_alloc paginas e.kernel i).map fun (p, k) =>
      ⟨k, if p = 0 then e.vivos else (i, p) :: e.vivos⟩
  | .free i p => some ⟨slab_free e.kernel i p, e.vivos.erase (i, p)⟩
  | .escreve x b => some { e with kernel := { e.kernel with mem := putByte e.kernel.mem x b } }

/-- The objects of a cache fit into a page, a freed object is live in its cache, and a write stays in
a live object or outside the pages that `pmm_alloc` has given. -/
def Permitida (paginas : Nat → Nat) (e : Estado) : Chamada → Prop
  | .criar t _ => arredonda t.toNat ≤ PAGE_SIZE - SLAB_CABECALO
  | .alloc _ => True
  | .free i p => (i, p) ∈ e.vivos
  | .escreve x _ =>
    (∃ i c p, e.kernel.caches[i]? = some c ∧ (i, p) ∈ e.vivos ∧ p ≤ x ∧ x < p + c.obj_size) ∨
      ∀ n < e.kernel.pedidos, paginas n ≠ 0 → x < paginas n ∨ paginas n + PAGE_SIZE ≤ x

/-- The states that are reached from a memory with any contents. -/
inductive Corrida (paginas : Nat → Nat) : Estado → Prop
  | inicio (mem : Memory) : Corrida paginas ⟨⟨mem, [], 0⟩, []⟩
  | mais {e e' : Estado} {c : Chamada} : Corrida paginas e → Permitida paginas e c →
      chama paginas e c = some e' → Corrida paginas e'

/-! ## The invariant

`slabs i` are the slabs of cache `i`, and `livres a` the free slots of the slab at `a`. -/

structure Integro (paginas : Nat → Nat) (e : Estado) (slabs livres : Nat → List Nat) : Prop where
  lista : ∀ i c, e.kernel.caches[i]? = some c →
    Linked 0 (proximo e.kernel.mem) c.slab_lista (slabs i)
  tamanho : ∀ c ∈ e.kernel.caches, c.obj_size = 0 ∨ 8 ≤ c.obj_size
  maximo : ∀ c ∈ e.kernel.caches, c.obj_size ≤ PAGE_SIZE - SLAB_CABECALO
  medidas : ∀ i c, e.kernel.caches[i]? = some c → slabs i ≠ [] → Medidas c.obj_size c.objs_por_slab
  slab : ∀ i c a, e.kernel.caches[i]? = some c → a ∈ slabs i →
    SlabBom e.kernel.mem c.obj_size c.objs_por_slab a (livres a) (vivosEm e.vivos i a)
  pagina : ∀ i, ∀ a ∈ slabs i, a ≠ 0 ∧ ∃ n < e.kernel.pedidos, a = paginas n
  um_dono : ∀ i j a, a ∈ slabs i → a ∈ slabs j → i = j
  sem_cache : ∀ i, e.kernel.caches.length ≤ i → slabs i = []
  vivo : ∀ i p, (i, p) ∈ e.vivos → Slab.pagina p ∈ slabs i
  uma_vez : e.vivos.Nodup

section Integro

variable {paginas : Nat → Nat} {e : Estado} {k : Kernel} {vivos : List (Nat × Nat)}
  {slabs livres : Nat → List Nat} {i j p a : Nat} {c : Cache}

theorem vivosEm_cons_self (h : pagina p = a) :
    vivosEm ((i, p) :: vivos) i a = p :: vivosEm vivos i a := by
  unfold vivosEm
  rw [List.filter_cons_of_pos (by simp [h]), List.map_cons]

theorem vivosEm_cons_ne (h : j ≠ i ∨ pagina p ≠ a) :
    vivosEm ((i, p) :: vivos) j a = vivosEm vivos j a := by
  unfold vivosEm
  rw [List.filter_cons_of_neg]
  simpa using fun hij hp => h.elim (fun hn => hn hij.symm) fun hn => hn hp

theorem vivosEm_erase (h : (i, p) ∈ vivos) :
    (vivosEm vivos j a).Perm (vivosEm ((i, p) :: vivos.erase (i, p)) j a) :=
  ((List.perm_cons_erase h).filter _).map _

theorem mem_vivosEm : p ∈ vivosEm vivos i a ↔ (i, p) ∈ vivos ∧ pagina p = a := by
  unfold vivosEm
  simp

theorem PaginasBoas.cabe_inteira (hp : PaginasBoas paginas) (n : Nat) :
    paginas n + PAGE_SIZE ≤ 2 ^ 32 := by
  have h1 := hp.alinhada n
  have h2 := hp.cabe n
  simp only [PAGE_SIZE] at h1 ⊢
  omega

theorem Integro.alinhada (hp : PaginasBoas paginas) (h : Integro paginas e slabs livres)
    (ha : a ∈ slabs i) : a % PAGE_SIZE = 0 ∧ a + PAGE_SIZE ≤ 2 ^ 32 ∧ 0 < a := by
  obtain ⟨h0, n, _, rfl⟩ := h.pagina i a ha
  exact ⟨hp.alinhada n, hp.cabe_inteira n, Nat.pos_of_ne_zero h0⟩

theorem aparte {b : Nat} (ha : a % PAGE_SIZE = 0) (hb : b % PAGE_SIZE = 0) (h : a ≠ b) :
    a + PAGE_SIZE ≤ b ∨ b + PAGE_SIZE ≤ a := by
  simp only [PAGE_SIZE] at *
  omega

/-- A change inside one page leaves the slabs in other pages as they are. -/
theorem Integro.longe (hp : PaginasBoas paginas) (h : Integro paginas e slabs livres) {b : Nat}
    {m' : Memory} (hb : b % PAGE_SIZE = 0)
    (hout : ∀ y, y < b ∨ b + PAGE_SIZE ≤ y → m' y = e.kernel.mem y) (ha : a ∈ slabs i)
    (hne : a ≠ b) : ∀ y, a ≤ y → y < a + PAGE_SIZE → m' y = e.kernel.mem y := by
  intro y h1 h2
  have := aparte (h.alinhada hp ha).1 hb hne
  exact hout y (by omega)

theorem Integro.cache_of_slab (h : Integro paginas e slabs livres) (ha : a ∈ slabs i) :
    ∃ c, e.kernel.caches[i]? = some c := by
  rcases Nat.lt_or_ge i e.kernel.caches.length with hi | hi
  · exact ⟨_, List.getElem?_eq_getElem hi⟩
  · rw [h.sem_cache i hi] at ha
    exact absurd ha List.not_mem_nil

/-- The object of a cache, with its cache and its slab. -/
theorem Integro.objeto (h : Integro paginas e slabs livres) (hv : (i, p) ∈ e.vivos) :
    ∃ c, e.kernel.caches[i]? = some c ∧ Medidas c.obj_size c.objs_por_slab ∧
      SlabBom e.kernel.mem c.obj_size c.objs_por_slab (Slab.pagina p) (livres (Slab.pagina p))
        (vivosEm e.vivos i (Slab.pagina p)) ∧ p ∈ vivosEm e.vivos i (Slab.pagina p) := by
  have ha := h.vivo i p hv
  obtain ⟨c, hc⟩ := h.cache_of_slab ha
  exact ⟨c, hc, h.medidas i c hc (List.ne_nil_of_mem ha), h.slab i c _ hc ha,
    mem_vivosEm.mpr ⟨hv, rfl⟩⟩

/-- Where a slab stays as it is, so does the link out of it. -/
theorem proximo_congr {m m' : Memory} (he : ∀ y, a + 8 ≤ y → y < a + 12 → m' y = m y) :
    proximo m' a = proximo m a :=
  word_congr fun y h1 h2 => he y h1 (by omega)

theorem Integro.length_lt (hp : PaginasBoas paginas) (h : Integro paginas e slabs livres)
    (hc : e.kernel.caches[i]? = some c) : (slabs i).length < VOLTAS := by
  have hsub : slabs i ⊆ List.range VOLTAS := fun a ha => by
    have := (h.alinhada hp ha).2.1
    simp only [PAGE_SIZE] at this
    rw [List.mem_range, VOLTAS]
    omega
  have hn : (0 :: slabs i).Nodup :=
    List.nodup_cons.mpr ⟨fun h0 => (h.pagina i 0 h0).1 rfl, (h.lista i c hc).nodup⟩
  have := (hn.subperm (List.cons_subset.mpr ⟨List.mem_range.mpr (by decide), hsub⟩)).length_le
  rw [List.length_range, List.length_cons] at this
  exact this

/-! ## Each call -/

theorem integro_inicio (mem : Memory) :
    Integro paginas ⟨⟨mem, [], 0⟩, []⟩ (fun _ => []) fun _ => [] where
  lista i c hc := by simp at hc
  tamanho c hc := absurd hc List.not_mem_nil
  maximo c hc := absurd hc List.not_mem_nil
  medidas i c _ h := absurd rfl h
  slab i c a _ ha := absurd ha List.not_mem_nil
  pagina i a ha := absurd ha List.not_mem_nil
  um_dono i j a ha := absurd ha List.not_mem_nil
  sem_cache _ _ := rfl
  vivo i p hv := absurd hv List.not_mem_nil
  uma_vez := List.nodup_nil

/-- Other contents of the memory and other live objects, with the slabs that there are. -/
theorem Integro.troca (h : Integro paginas e slabs livres) {m' : Memory} {livres' : Nat → List Nat}
    (hprox : ∀ i, ∀ a ∈ slabs i, proximo m' a = proximo e.kernel.mem a)
    (hslab : ∀ i c a, e.kernel.caches[i]? = some c → a ∈ slabs i →
      SlabBom m' c.obj_size c.objs_por_slab a (livres' a) (vivosEm vivos i a))
    (hvivo : ∀ i p, (i, p) ∈ vivos → Slab.pagina p ∈ slabs i) (hn : vivos.Nodup) :
    Integro paginas ⟨{ e.kernel with mem := m' }, vivos⟩ slabs livres' where
  lista i c hc := (h.lista i c hc).congr (hprox i)
  tamanho := h.tamanho
  maximo := h.maximo
  medidas := h.medidas
  slab := hslab
  pagina := h.pagina
  um_dono := h.um_dono
  sem_cache := h.sem_cache
  vivo := hvivo
  uma_vez := hn

/-- A change inside the page of one slab. -/
theorem Integro.numa_pagina (hp : PaginasBoas paginas) (h : Integro paginas e slabs livres)
    (hc : e.kernel.caches[i]? = some c) (ha : a ∈ slabs i) {m' : Memory} {l : List Nat}
    (hout : ∀ y, y < a ∨ a + PAGE_SIZE ≤ y → m' y = e.kernel.mem y)
    (hprox : proximo m' a = proximo e.kernel.mem a)
    (hslab : SlabBom m' c.obj_size c.objs_por_slab a l (vivosEm vivos i a))
    (hperm : ∀ j b, j ≠ i ∨ a ≠ b → (vivosEm e.vivos j b).Perm (vivosEm vivos j b))
    (hvivo : ∀ i p, (i, p) ∈ vivos → Slab.pagina p ∈ slabs i) (hn : vivos.Nodup) :
    Integro paginas ⟨{ e.kernel with mem := m' }, vivos⟩ slabs (Function.update livres a l) := by
  have haparte : ∀ j b, b ∈ slabs j → b ≠ a →
      ∀ y, b ≤ y → y < b + PAGE_SIZE → m' y = e.kernel.mem y := fun j b hb hne =>
    h.longe hp (h.alinhada hp ha).1 hout hb hne
  refine h.troca (fun j b hb => ?_) (fun j d b hd hb => ?_) hvivo hn
  · by_cases hne : b = a
    · rw [hne, hprox]
    · refine proximo_congr fun y h1 h2 => haparte j b hb hne y (by omega) ?_
      simp only [PAGE_SIZE]
      omega
  · by_cases hne : b = a
    · subst hne
      obtain rfl := h.um_dono j i b hb ha
      obtain rfl : d = c := Option.some.inj (hd.symm.trans hc)
      rw [Function.update_self]
      exact hslab
    · rw [Function.update_of_ne hne]
      exact ((h.slab j d b hd hb).perm (hperm j b (Or.inr (Ne.symm hne)))).outra
        (h.medidas j d hd (List.ne_nil_of_mem hb)) (haparte j b hb hne)

theorem Integro.pedido (h : Integro paginas e slabs livres) :
    Integro paginas ⟨{ e.kernel with pedidos := e.kernel.pedidos + 1 }, e.vivos⟩ slabs livres :=
  { h with
    pagina := fun i a ha => by
      obtain ⟨h0, n, hn, he⟩ := h.pagina i a ha
      exact ⟨h0, n, Nat.lt_succ_of_lt hn, he⟩ }

/-- A new cache without a slab. -/
theorem Integro.cache (h : Integro paginas e slabs livres)
    (hmin : c.obj_size = 0 ∨ 8 ≤ c.obj_size) (hmax : c.obj_size ≤ PAGE_SIZE - SLAB_CABECALO)
    (hl : c.slab_lista = 0) :
    Integro paginas ⟨{ e.kernel with caches := e.kernel.caches ++ [c] }, e.vivos⟩ slabs livres := by
  have hget : ∀ i d, (e.kernel.caches ++ [c])[i]? = some d → e.kernel.caches[i]? = some d ∨
      slabs i = [] ∧ d = c := by
    intro i d hd
    rcases Nat.lt_or_ge i e.kernel.caches.length with hi | hi
    · rw [List.getElem?_append_left hi] at hd
      exact Or.inl hd
    · rw [List.getElem?_append_right hi] at hd
      exact Or.inr ⟨h.sem_cache i hi, (List.mem_singleton.mp (List.mem_of_getElem? hd))⟩
  refine { h with
    lista := fun i d hd => ?_, tamanho := fun d hd => ?_, maximo := fun d hd => ?_,
    medidas := fun i d hd hne => ?_, slab := fun i d a hd ha => ?_, sem_cache := fun i hi => ?_ }
  · rcases hget i d hd with hd | ⟨he, rfl⟩
    · exact h.lista i d hd
    · rw [he]
      exact hl
  · rcases List.mem_append.mp hd with hd | hd
    · exact h.tamanho d hd
    · rw [List.mem_singleton.mp hd]
      exact hmin
  · rcases List.mem_append.mp hd with hd | hd
    · exact h.maximo d hd
    · rw [List.mem_singleton.mp hd]
      exact hmax
  · rcases hget i d hd with hd | ⟨he, _⟩
    · exact h.medidas i d hd hne
    · exact absurd he hne
  · rcases hget i d hd with hd | ⟨he, _⟩
    · exact h.slab i d a hd ha
    · rw [he] at ha
      exact absurd ha List.not_mem_nil
  · dsimp only at hi
    rw [List.length_append] at hi
    exact h.sem_cache i (by omega)

theorem cache_of_set {caches : List Cache} {d : Cache} (h : (caches.set i c)[j]? = some d) :
    j = i ∧ d = c ∨ j ≠ i ∧ caches[j]? = some d := by
  rcases eq_or_ne j i with rfl | hne
  · have hlt : j < caches.length := by
      have := (List.getElem?_eq_some_iff.mp h).1
      rwa [List.length_set] at this
    rw [List.getElem?_set_self hlt] at h
    exact Or.inl ⟨rfl, (Option.some.inj h).symm⟩
  · rw [List.getElem?_set_ne (Ne.symm hne)] at h
    exact Or.inr ⟨hne, h⟩

theorem slab_of_update {b : Nat} (h : b ∈ Function.update slabs i (a :: slabs i) j) :
    b ∈ slabs j ∨ j = i ∧ b = a := by
  rcases eq_or_ne j i with rfl | hne
  · rw [Function.update_self] at h
    exact (List.mem_cons.mp h).symm.imp_right fun he => ⟨rfl, he⟩
  · rw [Function.update_of_ne hne] at h
    exact Or.inl h

/-- The next page of `pmm_alloc` is not a slab. -/
theorem Integro.pagina_nova (hp : PaginasBoas paginas) (h : Integro paginas e slabs livres)
    (h0 : paginas e.kernel.pedidos ≠ 0) (j : Nat) : paginas e.kernel.pedidos ∉ slabs j := by
  intro hj
  obtain ⟨_, k, hk, he⟩ := h.pagina j _ hj
  exact absurd (hp.distintas _ _ h0 he) (by omega)

theorem Integro.sem_vivos (h : Integro paginas e slabs livres) (ha : a ∉ slabs i) :
    vivosEm e.vivos i a = [] := by
  refine List.eq_nil_iff_forall_not_mem.mpr fun p hmem => ?_
  obtain ⟨hv, hpag⟩ := mem_vivosEm.mp hmem
  exact ha (hpag ▸ h.vivo i p hv)

/-- A new slab in front of the slabs of a cache. -/
theorem Integro.novo (hp : PaginasBoas paginas) (h : Integro paginas e slabs livres)
    (hc : e.kernel.caches[i]? = some c) (h0 : paginas e.kernel.pedidos ≠ 0) {m' : Memory} {n : Nat}
    {l : List Nat} (hm : Medidas c.obj_size n)
    (hout : ∀ y, y < paginas e.kernel.pedidos ∨ paginas e.kernel.pedidos + PAGE_SIZE ≤ y →
      m' y = e.kernel.mem y)
    (hprox : proximo m' (paginas e.kernel.pedidos) = c.slab_lista)
    (hslab : SlabBom m' c.obj_size n (paginas e.kernel.pedidos) l []) :
    Integro paginas
      ⟨⟨m', e.kernel.caches.set i
        { c with objs_por_slab := n, slab_lista := paginas e.kernel.pedidos },
        e.kernel.pedidos + 1⟩, e.vivos⟩
      (Function.update slabs i (paginas e.kernel.pedidos :: slabs i))
      (Function.update livres (paginas e.kernel.pedidos) l) := by
  have hi : i < e.kernel.caches.length := (List.getElem?_eq_some_iff.mp hc).1
  have hnew := h.pagina_nova hp h0
  have halin := hp.alinhada e.kernel.pedidos
  generalize hfis : paginas e.kernel.pedidos = fis at *
  have haparte : ∀ j b, b ∈ slabs j → ∀ y, b ≤ y → y < b + PAGE_SIZE → m' y = e.kernel.mem y :=
    fun j b hb => h.longe hp halin hout hb fun he => hnew j (he ▸ hb)
  have hnext : ∀ j, ∀ b ∈ slabs j, proximo m' b = proximo e.kernel.mem b := fun j b hb =>
    proximo_congr fun y h1 h2 => haparte j b hb y (by omega) (by simp only [PAGE_SIZE]; omega)
  have hantigo : ∀ j d b, e.kernel.caches[j]? = some d → b ∈ slabs j →
      SlabBom m' d.obj_size d.objs_por_slab b (Function.update livres fis l b)
        (vivosEm e.vivos j b) := fun j d b hd hb => by
    rw [Function.update_of_ne fun he : b = fis => hnew j (he ▸ hb)]
    exact (h.slab j d b hd hb).outra (h.medidas j d hd (List.ne_nil_of_mem hb)) (haparte j b hb)
  have hobjs : slabs i ≠ [] → c.objs_por_slab = n := fun hne =>
    (h.medidas i c hc hne).divide.trans hm.divide.symm
  constructor
  case lista =>
    intro j d hd
    rcases cache_of_set hd with ⟨rfl, rfl⟩ | ⟨hne, hd⟩
    · rw [Function.update_self]
      refine ⟨rfl, h0, ?_⟩
      rw [hprox]
      exact (h.lista j c hc).congr (hnext j)
    · rw [Function.update_of_ne hne]
      exact (h.lista j d hd).congr (hnext j)
  case tamanho =>
    intro d hd
    rcases List.mem_or_eq_of_mem_set hd with hd | rfl
    · exact h.tamanho d hd
    · exact Or.inr hm.minimo
  case maximo =>
    intro d hd
    rcases List.mem_or_eq_of_mem_set hd with hd | rfl
    · exact h.maximo d hd
    · exact hm.maximo
  case medidas =>
    intro j d hd hne
    rcases cache_of_set hd with ⟨_, rfl⟩ | ⟨hji, hd⟩
    · exact hm
    · rw [Function.update_of_ne hji] at hne
      exact h.medidas j d hd hne
  case slab =>
    intro j d b hd hb
    rcases cache_of_set hd with ⟨rfl, rfl⟩ | ⟨hji, hd⟩
    · rcases slab_of_update hb with hb | ⟨_, rfl⟩
      · have := hantigo j c b hc hb
        rwa [hobjs (List.ne_nil_of_mem hb)] at this
      · dsimp only
        rw [Function.update_self, h.sem_vivos (hnew j)]
        exact hslab
    · rw [Function.update_of_ne hji] at hb
      exact hantigo j d b hd hb
  case pagina =>
    intro j b hb
    rcases slab_of_update hb with hb | ⟨_, rfl⟩
    · obtain ⟨hb0, k, hk, he⟩ := h.pagina j b hb
      exact ⟨hb0, k, Nat.lt_succ_of_lt hk, he⟩
    · exact ⟨h0, _, Nat.lt_add_one _, hfis.symm⟩
  case um_dono =>
    intro j k b hj hk
    rcases slab_of_update hj with hj' | ⟨hji, hb⟩
    · rcases slab_of_update hk with hk' | ⟨_, hb⟩
      · exact h.um_dono j k b hj' hk'
      · exact absurd (hb ▸ hj') (hnew j)
    · rcases slab_of_update hk with hk' | ⟨hki, _⟩
      · exact absurd (hb ▸ hk') (hnew k)
      · exact hji.trans hki.symm
  case sem_cache =>
    intro j hj
    dsimp only at hj
    rw [List.length_set] at hj
    rw [Function.update_of_ne (by omega)]
    exact h.sem_cache j hj
  case vivo =>
    intro j p hv
    have := h.vivo j p hv
    rcases eq_or_ne j i with rfl | hne
    · rw [Function.update_self]
      exact List.mem_cons_of_mem _ this
    · rw [Function.update_of_ne hne]
      exact this
  case uma_vez => exact h.uma_vez

/-- The first free slot of a slab becomes a live object. -/
theorem Integro.toma (hp : PaginasBoas paginas) (h : Integro paginas e slabs livres)
    (hc : e.kernel.caches[i]? = some c) (ha : a ∈ slabs i) (hl : livre_count e.kernel.mem a ≠ 0) :
    ∃ p m' l, Slab.toma e.kernel.mem a = (p, m') ∧ p ≠ 0 ∧
      Integro paginas ⟨{ e.kernel with mem := m' }, (i, p) :: e.vivos⟩ slabs
        (Function.update livres a l) := by
  have hm := h.medidas i c hc (List.ne_nil_of_mem ha)
  have hs := h.slab i c a hc ha
  obtain ⟨p, l, hpl⟩ : ∃ p l, livres a = p :: l :=
    List.exists_cons_of_ne_nil fun hnil => hl (by rw [hs.contagem, hnil]; rfl)
  rw [hpl] at hs
  obtain ⟨m', htoma, hs', hout⟩ := hs.toma hm
  have hb := slot_bounds hm.cabem (hs.livre_mem List.mem_cons_self)
  have halin := h.alinhada hp ha
  have hmin := hm.minimo
  have hpag : Slab.pagina p = a := pagina_eq halin.1 (by omega) (by omega)
  have hnovo : (i, p) ∉ e.vivos := fun hv => by
    have hnodup := hs.tudo.nodup_iff.mpr (slots_nodup (by omega))
    exact (List.disjoint_of_nodup_append hnodup) List.mem_cons_self (mem_vivosEm.mpr ⟨hv, hpag⟩)
  refine ⟨p, m', l, htoma, by omega, h.numa_pagina hp hc ha (fun y hy => hout y ?_)
    (proximo_congr fun y h1 _ => hout y (by omega)) ?_ (fun j b hjb => ?_) (fun j q hv => ?_)
    (List.nodup_cons.mpr ⟨hnovo, h.uma_vez⟩)⟩
  · simp only [PAGE_SIZE] at hy
    omega
  · rw [vivosEm_cons_self hpag]
    exact hs'
  · rw [vivosEm_cons_ne (hpag ▸ hjb)]
  · rcases List.mem_cons.mp hv with hv | hv
    · obtain ⟨rfl, rfl⟩ := Prod.mk.inj hv
      exact hpag ▸ ha
    · exact h.vivo j q hv

theorem Integro.free (hp : PaginasBoas paginas) (h : Integro paginas e slabs livres)
    (hv : (i, p) ∈ e.vivos) :
    Integro paginas ⟨slab_free e.kernel i p, e.vivos.erase (i, p)⟩ slabs
      (Function.update livres (Slab.pagina p) (p :: livres (Slab.pagina p))) := by
  obtain ⟨c, hc, hm, hs, hmem⟩ := h.objeto hv
  have ha := h.vivo i p hv
  have halin := h.alinhada hp ha
  have hmin := hm.minimo
  have hb := slot_bounds hm.cabem (hs.vivo_mem hmem)
  have hi : i < e.kernel.caches.length := (List.getElem?_eq_some_iff.mp hc).1
  have hperm := vivosEm_erase (j := i) (a := Slab.pagina p) hv
  rw [vivosEm_cons_self rfl] at hperm
  obtain ⟨hs', hout⟩ := (hs.perm hperm).devolve hm halin.2.1
  unfold slab_free
  rw [if_neg (by omega)]
  refine h.numa_pagina hp hc ha (fun y hy => hout y (by omega)) (proximo_congr fun y h1 h2 => ?_) hs'
    (fun j b hjb => ?_) (fun j q hq => h.vivo j q (List.mem_of_mem_erase hq)) (h.uma_vez.erase _)
  · simp only [SLAB_CABECALO] at hb
    exact hout y (by omega)
  · have := vivosEm_erase (j := j) (a := b) hv
    rwa [vivosEm_cons_ne hjb] at this

/-- A client writes into a live object, or somebody else outside the pages of the slabs. -/
theorem Integro.escreve (hp : PaginasBoas paginas) (h : Integro paginas e slabs livres) {x : Nat}
    (b : UInt8) (hok : Permitida paginas e (.escreve x b)) :
    ∃ livres', Integro paginas
      ⟨{ e.kernel with mem := putByte e.kernel.mem x b }, e.vivos⟩ slabs livres' := by
  rcases hok with ⟨i, c, p, hc, hv, h1, h2⟩ | hfora
  · obtain ⟨d, hd, hm, hs, hmem⟩ := h.objeto hv
    obtain rfl : c = d := Option.some.inj (hc.symm.trans hd)
    have hb := slot_bounds hm.cabem (hs.vivo_mem hmem)
    exact ⟨_, h.numa_pagina hp hc (h.vivo i p hv) (fun y hy => putByte_ne _ _ (by omega))
      (proximo_congr fun y hy1 hy2 => putByte_ne _ _ (by simp only [SLAB_CABECALO] at hb; omega))
      (hs.escreve hm hmem h1 h2 b) (fun _ _ _ => .refl _) h.vivo h.uma_vez⟩
  · have hpag : ∀ i, ∀ a ∈ slabs i, x < a ∨ a + PAGE_SIZE ≤ x := fun i a ha => by
      obtain ⟨h0, n, hn, rfl⟩ := h.pagina i a ha
      exact hfora n hn h0
    refine ⟨livres, h.troca (fun i a ha => proximo_congr fun y h1 h2 => putByte_ne _ _ ?_)
      (fun i c a hc ha => ?_) h.vivo h.uma_vez⟩
    · have := hpag i a ha
      simp only [PAGE_SIZE] at this
      omega
    · refine (h.slab i c a hc ha).outra (h.medidas i c hc (List.ne_nil_of_mem ha)) fun y h1 h2 =>
        putByte_ne _ _ ?_
      have := hpag i a ha
      omega

/-- There is no page, or `slab_novo` makes a slab of it. -/
theorem slab_novo_cases (hp : PaginasBoas paginas) (k : Kernel) (hmin : 8 ≤ c.obj_size)
    (hmax : c.obj_size ≤ PAGE_SIZE - SLAB_CABECALO) :
    (slab_novo paginas k c = some (0, c, { k with pedidos := k.pedidos + 1 })) ∨
      ∃ n m', paginas k.pedidos ≠ 0 ∧ slab_novo paginas k c = some (paginas k.pedidos,
          { c with objs_por_slab := n }, ⟨m', k.caches, k.pedidos + 1⟩) ∧
        Medidas c.obj_size n ∧ proximo m' (paginas k.pedidos) = 0 ∧
        SlabBom m' c.obj_size n (paginas k.pedidos) (slots (paginas k.pedidos) c.obj_size n) [] ∧
        ∀ y, y < paginas k.pedidos ∨ paginas k.pedidos + PAGE_SIZE ≤ y → m' y = k.mem y := by
  unfold slab_novo
  dsimp only
  by_cases hfis : paginas k.pedidos = 0
  · rw [if_pos hfis]
    exact Or.inl rfl
  · have hm : Medidas c.obj_size ((PAGE_SIZE - SLAB_CABECALO) / c.obj_size) := ⟨hmin, hmax, rfl⟩
    obtain ⟨m', hprep, hs, hprox, hout⟩ :=
      prepara_spec (m := k.mem) hm (hp.cabe_inteira k.pedidos)
    rw [if_neg hfis, if_neg (by omega), hprep]
    exact Or.inr ⟨_, m', hfis, rfl, hm, hprox, hs, hout⟩

theorem arredonda_cases (t : UInt32) : arredonda t.toNat = 0 ∨ 8 ≤ arredonda t.toNat := by
  have := t.toNat_lt
  unfold arredonda
  dsimp only
  split <;> omega

/-- `slab_criar` returns, except where the size becomes 0. -/
theorem slab_criar_isSome (hp : PaginasBoas paginas) (k : Kernel) {t : UInt32} {memoria : Bool}
    (h0 : arredonda t.toNat ≠ 0) (hok : arredonda t.toNat ≤ PAGE_SIZE - SLAB_CABECALO) :
    (slab_criar paginas memoria k t.toNat).isSome := by
  unfold slab_criar
  cases memoria with
  | false => rfl
  | true =>
    have hmin := (arredonda_cases t).resolve_left h0
    rcases slab_novo_cases (c := ⟨arredonda t.toNat, 0, 0⟩) hp k hmin hok with hs | ⟨n, m', _, hs, _⟩
    · simp [hs]
    · simp [hs]

theorem Integro.criar (hp : PaginasBoas paginas) (h : Integro paginas e slabs livres) {t : UInt32}
    {memoria : Bool} (hok : arredonda t.toNat ≤ PAGE_SIZE - SLAB_CABECALO)
    (hk : slab_criar paginas memoria e.kernel t.toNat = some k) :
    ∃ slabs' livres', Integro paginas ⟨k, e.vivos⟩ slabs' livres' := by
  unfold slab_criar at hk
  cases memoria with
  | false => exact ⟨slabs, livres, (Option.some.inj hk) ▸ h⟩
  | true =>
    rw [if_neg (by decide)] at hk
    have hcache := h.cache (c := ⟨arredonda t.toNat, 0, 0⟩) (arredonda_cases t) hok rfl
    rcases arredonda_cases t with h0 | hmin
    · -- Without a page there is nothing to divide.
      unfold slab_novo at hk
      dsimp only at hk
      by_cases hfis : paginas e.kernel.pedidos = 0
      · rw [if_pos hfis] at hk
        obtain rfl := Option.some.inj hk
        exact ⟨slabs, livres, hcache.pedido⟩
      · rw [if_neg hfis, if_pos h0] at hk
        exact absurd hk (by simp)
    · rcases slab_novo_cases (c := ⟨arredonda t.toNat, 0, 0⟩) hp e.kernel hmin hok with
        hs | ⟨n, m', h0, hs, hm, hprox, hslab, hout⟩
      · rw [hs] at hk
        obtain rfl := Option.some.inj hk
        exact ⟨slabs, livres, hcache.pedido⟩
      · rw [hs] at hk
        obtain rfl := Option.some.inj hk
        have hget : (e.kernel.caches ++ [(⟨arredonda t.toNat, 0, 0⟩ : Cache)])[
            e.kernel.caches.length]? = some ⟨arredonda t.toNat, 0, 0⟩ := by simp
        have := hcache.novo hp hget h0 hm hout hprox hslab
        rw [List.set_append_right _ _ (Nat.le_refl _), Nat.sub_self] at this
        exact ⟨_, _, this⟩

theorem Integro.slab_lista_lt (hp : PaginasBoas paginas) (h : Integro paginas e slabs livres)
    (hc : e.kernel.caches[i]? = some c) : c.slab_lista < 2 ^ 32 := by
  rw [(h.lista i c hc).eq_first]
  cases hl : slabs i with
  | nil => exact Nat.two_pow_pos 32
  | cons a l =>
    obtain ⟨_, n, _, ha⟩ := h.pagina i a (hl ▸ List.mem_cons_self)
    exact ha ▸ hp.cabe n

/-- The slab that `slab_alloc` makes goes in front, and its first slot is taken. -/
theorem Integro.novo_e_toma (hp : PaginasBoas paginas) (h : Integro paginas e slabs livres)
    (hc : e.kernel.caches[i]? = some c) (h0 : paginas e.kernel.pedidos ≠ 0) {m' : Memory} {n : Nat}
    (hm : Medidas c.obj_size n)
    (hout : ∀ y, y < paginas e.kernel.pedidos ∨ paginas e.kernel.pedidos + PAGE_SIZE ≤ y →
      m' y = e.kernel.mem y)
    (hslab : SlabBom m' c.obj_size n (paginas e.kernel.pedidos)
      (slots (paginas e.kernel.pedidos) c.obj_size n) []) :
    ∃ p m'' l, Slab.toma (por_proximo m' (paginas e.kernel.pedidos) c.slab_lista)
        (paginas e.kernel.pedidos) = (p, m'') ∧ p ≠ 0 ∧
      Integro paginas
        ⟨⟨m'', e.kernel.caches.set i
          { c with objs_por_slab := n, slab_lista := paginas e.kernel.pedidos },
          e.kernel.pedidos + 1⟩, (i, p) :: e.vivos⟩
        (Function.update slabs i (paginas e.kernel.pedidos :: slabs i)) l := by
  have hnovo := h.novo hp hc h0 hm
    (fun y hy => ?_) ?_ (hslab.por_proximo hm c.slab_lista)
  · have hi := (List.getElem?_eq_some_iff.mp hc).1
    have hcount : livre_count (por_proximo m' (paginas e.kernel.pedidos) c.slab_lista)
        (paginas e.kernel.pedidos) ≠ 0 := by
      rw [(hslab.por_proximo hm c.slab_lista).contagem]
      have := hm.pos
      simp only [slots, List.length_map, List.length_range']
      omega
    obtain ⟨p, m'', l, htoma, hp0, hi'⟩ := hnovo.toma hp (i := i)
      (List.getElem?_set_self hi) (by rw [Function.update_self]; exact List.mem_cons_self) hcount
    exact ⟨p, m'', _, htoma, hp0, hi'⟩
  · rw [← hout y hy]
    simp only [PAGE_SIZE] at hy
    exact putWord_ne _ _ (by omega)
  · unfold proximo por_proximo
    rw [word_putWord_self, Nat.mod_eq_of_lt (h.slab_lista_lt hp hc)]

/-- `slab_alloc` returns, except where the size of the objects is 0, and what it returns is live. -/
theorem Integro.alloc (hp : PaginasBoas paginas) (h : Integro paginas e slabs livres)
    (hc : e.kernel.caches[i]? = some c) :
    (c.obj_size = 0 ∨ (slab_alloc paginas e.kernel i).isSome) ∧
      ∀ p k, slab_alloc paginas e.kernel i = some (p, k) →
        ∃ slabs' livres', Integro paginas ⟨k, if p = 0 then e.vivos else (i, p) :: e.vivos⟩
          slabs' livres' := by
  have hset : e.kernel.caches.set i c = e.kernel.caches := by
    refine List.ext_getElem? fun j => ?_
    rw [List.getElem?_set]
    split
    · subst i
      rw [hc, if_pos (List.getElem?_eq_some_iff.mp hc).1]
    · rfl
  have hbusca := (h.lista i c hc).search_eq
    (f := fun slab => decide (livre_count e.kernel.mem slab ≠ 0)) (h.length_lt hp hc)
  unfold slab_alloc
  rw [hc]
  dsimp only
  unfold escolhe
  rw [hbusca]
  cases hfind : (slabs i).find? fun slab => decide (livre_count e.kernel.mem slab ≠ 0) with
  | some a =>
    have ha := List.mem_of_find?_eq_some hfind
    have hl : livre_count e.kernel.mem a ≠ 0 := by simpa using List.find?_some hfind
    have ha0 := (h.pagina i a ha).1
    obtain ⟨p, m', l, htoma, hp0, hi⟩ := h.toma hp hc ha hl
    simp only [Option.getD_some, Option.bind_some, ha0, ne_eq, not_false_iff, if_true,
      Option.map_some, hset, if_false, htoma, Option.isSome_some, or_true, true_and,
      Option.some.injEq, Prod.mk.injEq]
    rintro q k ⟨rfl, rfl⟩
    rw [if_neg hp0]
    exact ⟨_, _, hi⟩
  | none =>
    simp only [Option.getD_none, Option.bind_some, ne_eq, not_true, if_false]
    rcases h.tamanho c (List.mem_of_getElem? hc) with h0 | hmin
    · refine ⟨Or.inl h0, fun p k hk => ?_⟩
      unfold slab_novo at hk
      dsimp only at hk
      by_cases hfis : paginas e.kernel.pedidos = 0
      · rw [if_pos hfis] at hk
        simp only [Option.map_some, if_true, hset, Option.some.injEq, Prod.mk.injEq] at hk
        obtain ⟨rfl, rfl⟩ := hk
        exact ⟨slabs, livres, h.pedido⟩
      · rw [if_neg hfis, if_pos h0] at hk
        exact absurd hk (by simp)
    · rcases slab_novo_cases hp e.kernel hmin (h.maximo c (List.mem_of_getElem? hc)) with
        hs | ⟨n, m', h0, hs, hm, hprox, hslab, hout⟩
      · simp only [hs, Option.map_some, if_true, hset, Option.isSome_some, or_true, true_and,
          Option.some.injEq, Prod.mk.injEq]
        rintro p k ⟨rfl, rfl⟩
        exact ⟨slabs, livres, h.pedido⟩
      · obtain ⟨p, m'', l, htoma, hp0, hi⟩ := h.novo_e_toma hp hc h0 hm hout hslab
        simp only [hs, Option.map_some, h0, if_false, htoma, Option.isSome_some, or_true, true_and,
          Option.some.injEq, Prod.mk.injEq]
        rintro q k ⟨rfl, rfl⟩
        rw [if_neg hp0]
        exact ⟨_, _, hi⟩

theorem Integro.passo (hp : PaginasBoas paginas) (h : Integro paginas e slabs livres) {e' : Estado}
    {c : Chamada} (hok : Permitida paginas e c) (hc : chama paginas e c = some e') :
    ∃ slabs' livres', Integro paginas e' slabs' livres' := by
  cases c with
  | criar t memoria =>
    obtain ⟨k, hk, rfl⟩ := Option.map_eq_some_iff.mp hc
    exact h.criar hp hok hk
  | alloc i =>
    obtain ⟨⟨p, k⟩, hk, rfl⟩ := Option.map_eq_some_iff.mp hc
    cases hget : e.kernel.caches[i]? with
    | some c => exact (h.alloc hp hget).2 p k hk
    | none =>
      unfold slab_alloc at hk
      rw [hget] at hk
      obtain ⟨rfl, rfl⟩ := Prod.mk.inj (Option.some.inj hk)
      exact ⟨slabs, livres, h⟩
  | free i p =>
    obtain rfl := Option.some.inj hc
    exact ⟨slabs, _, h.free hp hok⟩
  | escreve x b =>
    obtain rfl := Option.some.inj hc
    exact ⟨slabs, h.escreve hp b hok⟩

theorem Corrida.integro (hp : PaginasBoas paginas) (h : Corrida paginas e) :
    ∃ slabs livres, Integro paginas e slabs livres := by
  induction h with
  | inicio mem => exact ⟨_, _, integro_inicio mem⟩
  | mais _ hok hc ih =>
    obtain ⟨slabs, livres, h⟩ := ih
    exact h.passo hp hok hc

/-! ## The law -/

/-- The sizes that the call divides by are not 0. -/
def SemDivisaoPorZero (e : Estado) : Chamada → Prop
  | .criar t _ => arredonda t.toNat ≠ 0
  | .alloc i => ∀ c, e.kernel.caches[i]? = some c → c.obj_size ≠ 0
  | _ => True

/-- The accounts of a state: the slabs of each cache, and what each slab and each live object is. -/
structure Contas (paginas : Nat → Nat) (e : Estado) (slabs : Nat → List Nat) : Prop where
  lista : ∀ i c, e.kernel.caches[i]? = some c →
    Linked 0 (proximo e.kernel.mem) c.slab_lista (slabs i)
  um_dono : ∀ i j a, a ∈ slabs i → a ∈ slabs j → i = j
  slab : ∀ i c a, e.kernel.caches[i]? = some c → a ∈ slabs i → ∃ livres,
    Linked 0 (word e.kernel.mem) (free_list e.kernel.mem a) livres ∧ livres.Nodup ∧
      livre_count e.kernel.mem a = livres.length ∧
      (livres ++ vivosEm e.vivos i a).Perm (slots a c.obj_size c.objs_por_slab)
  uma_vez : e.vivos.Nodup
  dentro : ∀ i p, (i, p) ∈ e.vivos → ∃ c, e.kernel.caches[i]? = some c ∧ Slab.pagina p ∈ slabs i ∧
    Slab.pagina p + SLAB_CABECALO ≤ p ∧ p + c.obj_size ≤ Slab.pagina p + PAGE_SIZE
  apartados : ∀ i c p j d q, (i, p) ∈ e.vivos → (j, q) ∈ e.vivos → (i, p) ≠ (j, q) →
    e.kernel.caches[i]? = some c → e.kernel.caches[j]? = some d →
      p + c.obj_size ≤ q ∨ q + d.obj_size ≤ p
  volta : ∀ i p l, (i, p) ∈ e.vivos →
    Linked 0 (word e.kernel.mem) (free_list e.kernel.mem (Slab.pagina p)) l →
      Linked 0 (word (slab_free e.kernel i p).mem)
        (free_list (slab_free e.kernel i p).mem (Slab.pagina p)) (p :: l)
  retorna : ∀ c, Permitida paginas e c → SemDivisaoPorZero e c → (chama paginas e c).isSome

theorem Integro.apartados (h : Integro paginas e slabs livres) {q : Nat} {d : Cache}
    (hv : (i, p) ∈ e.vivos) (hw : (j, q) ∈ e.vivos) (hne : (i, p) ≠ (j, q))
    (hc : e.kernel.caches[i]? = some c) (hd : e.kernel.caches[j]? = some d) :
    p + c.obj_size ≤ q ∨ q + d.obj_size ≤ p := by
  obtain ⟨c', hc', hm, hs, hmem⟩ := h.objeto hv
  obtain rfl : c' = c := Option.some.inj (hc'.symm.trans hc)
  obtain ⟨d', hd', hm', hs', hmem'⟩ := h.objeto hw
  obtain rfl : d' = d := Option.some.inj (hd'.symm.trans hd)
  have hb := slot_bounds hm.cabem (hs.vivo_mem hmem)
  have hb' := slot_bounds hm'.cabem (hs'.vivo_mem hmem')
  by_cases hpag : Slab.pagina p = Slab.pagina q
  · have hq := h.vivo j q hw
    rw [← hpag] at hq
    obtain rfl := h.um_dono i j _ (h.vivo i p hv) hq
    obtain rfl : d' = c' := Option.some.inj (hd.symm.trans hc)
    rw [hpag] at hs hmem
    exact slots_disjoint (hs.vivo_mem hmem) (hs'.vivo_mem hmem') fun he => hne (he ▸ rfl)
  · have := aparte pagina_alinhada pagina_alinhada hpag
    omega

theorem Integro.contas (hp : PaginasBoas paginas) (h : Integro paginas e slabs livres) :
    Contas paginas e slabs where
  lista := h.lista
  um_dono := h.um_dono
  slab i c a hc ha :=
    have hs := h.slab i c a hc ha
    ⟨livres a, hs.lista, hs.lista.nodup, hs.contagem, hs.tudo⟩
  uma_vez := h.uma_vez
  dentro i p hv := by
    obtain ⟨c, hc, hm, hs, hmem⟩ := h.objeto hv
    exact ⟨c, hc, h.vivo i p hv, slot_bounds hm.cabem (hs.vivo_mem hmem)⟩
  apartados i c p j d q hv hw hne hc hd := h.apartados hv hw hne hc hd
  volta i p l hv hl := by
    obtain ⟨c, hc, _, hs, _⟩ := h.objeto hv
    have hs' := (h.free hp hv).slab i c _ (by unfold slab_free; split <;> exact hc) (h.vivo i p hv)
    have := hs'.lista
    rw [Function.update_self, ← hl.unique hs.lista] at this
    exact this
  retorna c hok hzero := by
    cases c with
    | criar t memoria =>
      unfold chama
      rw [Option.isSome_map]
      exact slab_criar_isSome hp e.kernel hzero hok
    | alloc i =>
      unfold chama
      rw [Option.isSome_map]
      cases hget : e.kernel.caches[i]? with
      | some c => exact (h.alloc hp hget).1.resolve_left (hzero c hget)
      | none =>
        unfold slab_alloc
        rw [hget]
        rfl
    | free i p => rfl
    | escreve x b => rfl

/-- After every call of a run, in every slab the free list has the length of the counter and is with
the live objects just the slots. Live objects lie apart from each other, each in its page after the
header, and a freed one is the first of the free list of its own slab. -/
theorem every_slot_is_free_or_live (hp : PaginasBoas paginas) (h : Corrida paginas e) :
    ∃ slabs, Contas paginas e slabs := by
  obtain ⟨slabs, livres, hi⟩ := h.integro hp
  exact ⟨slabs, hi.contas hp⟩

/-- Eight pages from 4 MB on. -/
def oito_paginas (n : Nat) : Nat := if n < 8 then (0x400 + n) * PAGE_SIZE else 0

theorem oito_paginas_boas : PaginasBoas oito_paginas := by
  constructor
  · intro n
    unfold oito_paginas PAGE_SIZE
    split <;> omega
  · intro n
    unfold oito_paginas PAGE_SIZE
    split <;> omega
  · intro n k
    unfold oito_paginas PAGE_SIZE
    split <;> split <;> omega

/-- An object of 2048 bytes, in the only slot of the first page. -/
theorem every_slot_is_free_or_live_in_a_page :
    ∃ e slabs, e.vivos = [(0, 0x40000C)] ∧ Contas oito_paginas e slabs := by
  have hrun : ((chama oito_paginas ⟨⟨fun _ => 0, [], 0⟩, []⟩ (.criar 2048 true)).bind fun e =>
      chama oito_paginas e (.alloc 0)).map Estado.vivos = some [(0, 0x40000C)] := by decide +kernel
  obtain ⟨e', hrun, hv⟩ := Option.map_eq_some_iff.mp hrun
  obtain ⟨e, hcriar, halloc⟩ := Option.bind_eq_some_iff.mp hrun
  have hok : Permitida oito_paginas ⟨⟨fun _ => 0, [], 0⟩, []⟩ (.criar 2048 true) :=
    (by decide : arredonda 2048 ≤ 4084)
  have h := (((Corrida.inicio fun _ => 0).mais hok hcriar).mais (c := .alloc 0) trivial halloc)
  obtain ⟨slabs, hc⟩ := every_slot_is_free_or_live oito_paginas_boas h
  exact ⟨e', slabs, hv, hc⟩

end Integro

end SpaceOS.Slab
