-- Creating a cache for objects of any size: which sizes the code can handle, now and in every later
-- call, and what goes wrong with the others.
import Mathlib.Logic.Relation
import SpaceOS.SlabLaws

open Lib.Bytes Lib.LinkedList Relation

namespace SpaceOS.Slab

/-! ## The writes of a new slab -/

/-- The turns of the loop of `slab_novo`, `i < objs_por_slab - 1` on 32 bits. -/
def voltas_do_laco (obj_size : Nat) : Nat :=
  ((PAGE_SIZE - SLAB_CABECALO) / obj_size + 2 ^ 32 - 1) % 2 ^ 32

/-- The words that `slab_novo` writes for the page at `fis`: address and value, in order. -/
def escritas (obj_size fis : Nat) : List (Nat × Nat) :=
  [(fis, (PAGE_SIZE - SLAB_CABECALO) / obj_size), (fis + 8, 0), (fis + 4, fis + SLAB_CABECALO)] ++
  (List.range (voltas_do_laco obj_size)).map (fun i =>
    (slot (fis + SLAB_CABECALO) obj_size i, slot (fis + SLAB_CABECALO) obj_size (i + 1))) ++
  [(slot (fis + SLAB_CABECALO) obj_size (voltas_do_laco obj_size), 0)]

/-- They are all that it does to the memory. -/
theorem prepara_escritas (m : Memory) (c : Cache) (fis : Nat) :
    (prepara m c fis).2 = (escritas c.obj_size fis).foldl (fun m w => putWord m w.1 w.2) m := by
  unfold escritas
  rw [List.foldl_append, List.foldl_append, List.foldl_map]
  rfl

/-- `slab_novo` for objects of this size in the page at `fis` divides by a number, its loop takes no
more turns than a page has slots, and it writes into the page only. -/
structure NovoSeguro (obj_size fis : Nat) : Prop where
  divide : obj_size ≠ 0
  termina : voltas_do_laco obj_size ≤ (PAGE_SIZE - SLAB_CABECALO) / obj_size
  dentro : ∀ w ∈ escritas obj_size fis, fis ≤ w.1 ∧ w.1 + 4 ≤ fis + PAGE_SIZE

section NovoSeguro

variable {obj_size fis i : Nat}

theorem Medidas.voltas_eq {n : Nat} (h : Medidas obj_size n) : voltas_do_laco obj_size = n - 1 := by
  have h1 := h.pos
  have h2 := h.menos
  rw [voltas_do_laco, ← h.divide]
  omega

theorem Medidas.slot_dentro {n : Nat} (h : Medidas obj_size n) (hi : i < n) (fis : Nat) :
    fis ≤ slot (fis + SLAB_CABECALO) obj_size i ∧
      slot (fis + SLAB_CABECALO) obj_size i + 4 ≤ fis + PAGE_SIZE := by
  have hb := slot_bounds (a := fis) h.cabem (mem_slots.mpr ⟨i, hi, rfl⟩)
  have := h.minimo
  omega

theorem novoSeguro (h8 : 8 ≤ obj_size) (hmax : obj_size ≤ PAGE_SIZE - SLAB_CABECALO) (fis : Nat) :
    NovoSeguro obj_size fis := by
  have hm : Medidas obj_size ((PAGE_SIZE - SLAB_CABECALO) / obj_size) := ⟨h8, hmax, rfl⟩
  have hpos := hm.pos
  refine ⟨by omega, by rw [hm.voltas_eq]; exact Nat.sub_le _ _, fun w hw => ?_⟩
  rw [escritas, hm.voltas_eq] at hw
  rcases List.mem_append.mp hw with hw | hw
  · rcases List.mem_append.mp hw with hw | hw
    · -- the header
      simp only [List.mem_cons, List.not_mem_nil, or_false] at hw
      simp only [PAGE_SIZE]
      rcases hw with rfl | rfl | rfl
      · dsimp only; omega
      · dsimp only; omega
      · dsimp only; omega
    · obtain ⟨i, hi, rfl⟩ := List.mem_map.mp hw
      have := List.mem_range.mp hi
      exact hm.slot_dentro (by omega) fis
  · obtain rfl := List.mem_singleton.mp hw
    exact hm.slot_dentro (by omega) fis

/-- No slot fits: either there is nothing to divide by, or the loop runs to the end of the 32 bits. -/
theorem not_novoSeguro (h : obj_size = 0 ∨ PAGE_SIZE - SLAB_CABECALO < obj_size) :
    ¬ NovoSeguro obj_size fis := by
  rintro ⟨hd, ht, _⟩
  rcases h with h | h
  · exact hd h
  · rw [voltas_do_laco, Nat.div_eq_of_lt h] at ht
    exact absurd ht (by decide)

end NovoSeguro

theorem arredonda_pequeno {t : UInt32} (h : t.toNat ≤ PAGE_SIZE - SLAB_CABECALO) :
    8 ≤ arredonda t.toNat ∧ t.toNat ≤ arredonda t.toNat ∧
      arredonda t.toNat ≤ PAGE_SIZE - SLAB_CABECALO := by
  simp only [PAGE_SIZE, SLAB_CABECALO] at h ⊢
  unfold arredonda
  dsimp only
  split <;> omega

theorem arredonda_grande {t : UInt32} (h : ¬ t.toNat ≤ PAGE_SIZE - SLAB_CABECALO) :
    arredonda t.toNat = 0 ∨ PAGE_SIZE - SLAB_CABECALO < arredonda t.toNat := by
  have := t.toNat_lt
  simp only [PAGE_SIZE, SLAB_CABECALO] at h ⊢
  unfold arredonda
  dsimp only
  split <;> omega

/-! ## What is asked of a size -/

/-- `slab_alloc` on cache `i`: a new slab is safe, and the call gives null or an object of at least
`t` bytes inside one page. -/
structure AllocSeguro (paginas : Nat → Nat) (e : Estado) (i t : Nat) : Prop where
  novo : ∀ c, e.kernel.caches[i]? = some c →
    search 0 (proximo e.kernel.mem) (fun slab => livre_count e.kernel.mem slab ≠ 0) VOLTAS
      c.slab_lista = some 0 →
    paginas e.kernel.pedidos ≠ 0 → NovoSeguro c.obj_size (paginas e.kernel.pedidos)
  objeto : ∃ p k, slab_alloc paginas e.kernel i = some (p, k) ∧ (p ≠ 0 →
    ∃ c, k.caches[i]? = some c ∧ t ≤ c.obj_size ∧ p + c.obj_size ≤ pagina p + PAGE_SIZE)

/-- One of the calls that are allowed. -/
def Passo (paginas : Nat → Nat) (e e' : Estado) : Prop :=
  ∃ c, Permitida paginas e c ∧ chama paginas e c = some e'

/-- `slab_criar` for `t` bytes: its slab is safe, the call returns, and each `slab_alloc` from the new
cache, after any calls of the kernel and its clients, is safe as well. -/
structure CriarSeguro (paginas : Nat → Nat) (memoria : Bool) (e : Estado) (t : UInt32) : Prop where
  novo : memoria = true → paginas e.kernel.pedidos ≠ 0 →
    NovoSeguro (arredonda t.toNat) (paginas e.kernel.pedidos)
  retorna : ∃ k, slab_criar paginas memoria e.kernel t.toNat = some k ∧ (memoria = true →
    ∀ e', ReflTransGen (Passo paginas) ⟨k, e.vivos⟩ e' →
      AllocSeguro paginas e' e.kernel.caches.length t.toNat)

/-! ## What the calls keep of a cache -/

section Cache

variable {paginas : Nat → Nat} {k k' : Kernel} {c c' : Cache} {e e' : Estado} {i j slab p : Nat}

theorem slab_novo_mantem (h : slab_novo paginas k c = some (slab, c', k')) :
    c'.obj_size = c.obj_size ∧ k'.caches = k.caches ∧ k'.pedidos = k.pedidos + 1 := by
  unfold slab_novo at h
  dsimp only at h
  split at h
  · cases h
    exact ⟨rfl, rfl, rfl⟩
  split at h
  · cases h
  · cases h
    exact ⟨rfl, rfl, rfl⟩

theorem escolhe_mantem (h : escolhe paginas k c = some (slab, c', k')) :
    c'.obj_size = c.obj_size ∧ k'.caches = k.caches ∧ k.pedidos ≤ k'.pedidos := by
  obtain ⟨s, _, hs⟩ := Option.bind_eq_some_iff.mp h
  split at hs
  · cases hs
    exact ⟨rfl, rfl, le_rfl⟩
  · obtain ⟨⟨s1, c1, k1⟩, hn, he⟩ := Option.map_eq_some_iff.mp hs
    obtain ⟨h1, h2, h3⟩ := slab_novo_mantem hn
    dsimp only at he
    split at he
    · cases he
      exact ⟨h1, h2, by omega⟩
    · cases he
      exact ⟨h1, h2, by dsimp only; omega⟩

/-- `slab_alloc` changes its own cache only, and not the size of its objects. -/
theorem slab_alloc_caches (h : slab_alloc paginas k j = some (p, k')) :
    (k'.caches = k.caches ∨ ∃ c d, k.caches[j]? = some c ∧ d.obj_size = c.obj_size ∧
      k'.caches = k.caches.set j d) ∧ k.pedidos ≤ k'.pedidos := by
  unfold slab_alloc at h
  cases hj : k.caches[j]? with
  | none =>
    rw [hj] at h
    cases h
    exact ⟨Or.inl rfl, le_rfl⟩
  | some c =>
    rw [hj] at h
    obtain ⟨⟨s, c1, k1⟩, he, hk⟩ := Option.map_eq_some_iff.mp h
    obtain ⟨hsize, hcaches, hped⟩ := escolhe_mantem he
    have hset : k1.caches.set j c1 = k.caches.set j c1 := by rw [hcaches]
    dsimp only at hk
    split at hk
    · cases hk
      exact ⟨Or.inr ⟨c, c1, rfl, hsize, hset⟩, hped⟩
    · cases hk
      exact ⟨Or.inr ⟨c, c1, rfl, hsize, hset⟩, hped⟩

theorem slab_alloc_mantem (h : slab_alloc paginas k j = some (p, k')) (hc : k.caches[i]? = some c) :
    ∃ d, k'.caches[i]? = some d ∧ d.obj_size = c.obj_size := by
  rcases (slab_alloc_caches h).1 with he | ⟨c1, d, hj, hsize, he⟩
  · exact ⟨c, he ▸ hc, rfl⟩
  rw [he]
  by_cases hji : j = i
  · subst hji
    obtain rfl : c = c1 := Option.some.inj (hc.symm.trans hj)
    exact ⟨d, List.getElem?_set_self (List.getElem?_eq_some_iff.mp hc).1, hsize⟩
  · exact ⟨c, by rw [List.getElem?_set_ne hji]; exact hc, rfl⟩

/-- A cache that is made goes to the end of the list. -/
theorem slab_criar_caches {t : Nat} (h : slab_criar paginas true k t = some k') :
    ∃ d, k'.caches = k.caches ++ [d] ∧ d.obj_size = arredonda t := by
  unfold slab_criar at h
  rw [if_neg (by decide)] at h
  obtain ⟨⟨s, c1, k1⟩, hn, rfl⟩ := Option.map_eq_some_iff.mp h
  obtain ⟨h1, h2, _⟩ := slab_novo_mantem hn
  exact ⟨{ c1 with slab_lista := s }, congrArg (· ++ _) h2, h1⟩

theorem slab_criar_mantem {memoria : Bool} {t : Nat} (h : slab_criar paginas memoria k t = some k')
    (hc : k.caches[i]? = some c) : k'.caches[i]? = some c := by
  cases memoria with
  | false =>
    cases h
    exact hc
  | true =>
    obtain ⟨d, hd, _⟩ := slab_criar_caches h
    rw [hd, List.getElem?_append_left (List.getElem?_eq_some_iff.mp hc).1]
    exact hc

/-- No call changes the size of the objects of a cache. -/
theorem Passo.mantem (h : Passo paginas e e') (hc : e.kernel.caches[i]? = some c) :
    ∃ d, e'.kernel.caches[i]? = some d ∧ d.obj_size = c.obj_size := by
  obtain ⟨x, _, hx⟩ := h
  cases x with
  | criar t memoria =>
    obtain ⟨k, hk, rfl⟩ := Option.map_eq_some_iff.mp hx
    exact ⟨c, slab_criar_mantem hk hc, rfl⟩
  | alloc j =>
    obtain ⟨⟨p, k⟩, hk, rfl⟩ := Option.map_eq_some_iff.mp hx
    exact slab_alloc_mantem hk hc
  | free j p =>
    cases hx
    refine ⟨c, ?_, rfl⟩
    unfold slab_free
    split
    · exact hc
    · exact hc
  | escreve x b =>
    cases hx
    exact ⟨c, hc, rfl⟩

theorem Corrida.segue (h : Corrida paginas e) (hs : ReflTransGen (Passo paginas) e e')
    (hc : e.kernel.caches[i]? = some c) :
    Corrida paginas e' ∧ ∃ d, e'.kernel.caches[i]? = some d ∧ d.obj_size = c.obj_size := by
  induction hs with
  | refl => exact ⟨h, c, hc, rfl⟩
  | tail _ hp ih =>
    obtain ⟨hr, d, hd, hsize⟩ := ih
    obtain ⟨d', hd', hsize'⟩ := hp.mantem hd
    obtain ⟨x, hx, he⟩ := hp
    exact ⟨hr.mais hx he, d', hd', hsize'.trans hsize⟩

/-- In a state of a run, a cache for objects that fit into a page allocates safely. -/
theorem Corrida.allocSeguro (hp : PaginasBoas paginas) (h : Corrida paginas e)
    (hc : e.kernel.caches[i]? = some c) {t : Nat} (h8 : 8 ≤ c.obj_size) (ht : t ≤ c.obj_size)
    (hmax : c.obj_size ≤ PAGE_SIZE - SLAB_CABECALO) : AllocSeguro paginas e i t := by
  obtain ⟨slabs, livres, hi⟩ := h.integro hp
  obtain ⟨hsome, hnext⟩ := hi.alloc hp hc
  obtain ⟨⟨p, k⟩, hk⟩ := Option.isSome_iff_exists.mp (hsome.resolve_left (by omega))
  refine ⟨fun d hd _ _ => ?_, p, k, hk, fun h0 => ?_⟩
  · rw [hc] at hd
    cases hd
    exact novoSeguro h8 hmax _
  · obtain ⟨slabs', livres', hi'⟩ := hnext p k hk
    rw [if_neg h0] at hi'
    obtain ⟨d, hd, hm, hslab, hmem⟩ := hi'.objeto List.mem_cons_self
    obtain ⟨d', hd', hsize⟩ := slab_alloc_mantem hk hc
    obtain rfl : d' = d := Option.some.inj (hd'.symm.trans hd)
    exact ⟨d', hd, hsize ▸ ht, (slot_bounds hm.cabem (hslab.vivo_mem hmem)).2⟩

/-! ## A cache that never gets a page -/

/-- Without a slab and without a page `slab_alloc` gives null, and asks once more. -/
theorem slab_alloc_sem_pagina (hc : k.caches[i]? = some c) (hl : c.slab_lista = 0)
    (hp : paginas k.pedidos = 0) :
    slab_alloc paginas k i = some (0, { k with pedidos := k.pedidos + 1 }) := by
  have hset : k.caches.set i c = k.caches := by
    obtain ⟨hi, rfl⟩ := List.getElem?_eq_some_iff.mp hc
    exact List.set_getElem_self hi
  have hn : slab_novo paginas k c = some (0, c, { k with pedidos := k.pedidos + 1 }) := by
    unfold slab_novo
    dsimp only
    rw [if_pos hp]
  have he : escolhe paginas k c = some (0, c, { k with pedidos := k.pedidos + 1 }) := by
    have hv : VOLTAS = (2 ^ 32 - 1) + 1 := by decide
    unfold escolhe
    rw [hl, hv, search, if_pos (Or.inl rfl), Option.bind_some, if_neg (fun h => h rfl), hn]
    rfl
  unfold slab_alloc
  rw [hc]
  dsimp only
  rw [he, Option.map_some]
  dsimp only
  rw [if_pos rfl, hset]

/-- Cache `i` has no slab, and `n` pages have been asked for. -/
def Vazia (n : Nat) (e : Estado) (i : Nat) : Prop :=
  n ≤ e.kernel.pedidos ∧ ∃ c, e.kernel.caches[i]? = some c ∧ c.slab_lista = 0

theorem Passo.vazia {n : Nat} (hn : ∀ m, n ≤ m → paginas m = 0) (h : Passo paginas e e')
    (hv : Vazia n e i) : Vazia n e' i := by
  obtain ⟨x, _, hx⟩ := h
  obtain ⟨hle, c, hc, hl⟩ := hv
  cases x with
  | criar t memoria =>
    obtain ⟨k, hk, rfl⟩ := Option.map_eq_some_iff.mp hx
    refine ⟨?_, c, slab_criar_mantem hk hc, hl⟩
    cases memoria with
    | false =>
      cases hk
      exact hle
    | true =>
      obtain ⟨⟨s, c1, k1⟩, hnovo, rfl⟩ := Option.map_eq_some_iff.mp hk
      have := (slab_novo_mantem hnovo).2.2
      dsimp only
      omega
  | alloc j =>
    obtain ⟨⟨p, k⟩, hk, rfl⟩ := Option.map_eq_some_iff.mp hx
    by_cases hji : j = i
    · rw [hji, slab_alloc_sem_pagina hc hl (hn _ hle)] at hk
      cases hk
      exact ⟨Nat.le_succ_of_le hle, c, hc, hl⟩
    · obtain ⟨hcaches, hped⟩ := slab_alloc_caches hk
      refine ⟨Nat.le_trans hle hped, c, ?_, hl⟩
      rcases hcaches with he | ⟨_, d, _, _, he⟩
      · exact he ▸ hc
      · dsimp only
        rw [he, List.getElem?_set_ne hji]
        exact hc
  | free j p =>
    cases hx
    unfold Vazia slab_free
    split
    · exact ⟨hle, c, hc, hl⟩
    · exact ⟨hle, c, hc, hl⟩
  | escreve x b =>
    cases hx
    exact ⟨hle, c, hc, hl⟩

theorem Vazia.segue {n : Nat} (hn : ∀ m, n ≤ m → paginas m = 0) (hv : Vazia n e i)
    (h : ReflTransGen (Passo paginas) e e') : Vazia n e' i := by
  induction h with
  | refl => exact hv
  | tail _ hp ih => exact hp.vazia hn ih

theorem Vazia.allocSeguro {n t : Nat} (hn : ∀ m, n ≤ m → paginas m = 0) (hv : Vazia n e i) :
    AllocSeguro paginas e i t := by
  obtain ⟨hle, c, hc, hl⟩ := hv
  exact ⟨fun _ _ _ h0 => absurd (hn _ hle) h0, 0, _, slab_alloc_sem_pagina hc hl (hn _ hle),
    fun h0 => absurd rfl h0⟩

/-- Requests without a page bring the cache to the next page. -/
theorem espera_pagina (hc : k.caches[i]? = some c) (hl : c.slab_lista = 0)
    (vivos : List (Nat × Nat)) {n : Nat} (hle : k.pedidos ≤ n)
    (hp : ∀ m, k.pedidos ≤ m → m < n → paginas m = 0) :
    ReflTransGen (Passo paginas) ⟨k, vivos⟩ ⟨{ k with pedidos := n }, vivos⟩ := by
  induction n, hle using Nat.le_induction with
  | base => exact .refl
  | succ n hle ih =>
    refine (ih fun m h1 h2 => hp m h1 (by omega)).tail ⟨.alloc i, trivial, ?_⟩
    have ha := slab_alloc_sem_pagina (k := { k with pedidos := n }) hc hl (hp n hle (by omega))
    unfold chama
    dsimp only
    rw [ha]
    rfl

end Cache

/-! ## The law -/

variable {paginas : Nat → Nat} {e : Estado}

theorem cache_nova (caches : List Cache) (d : Cache) : (caches ++ [d])[caches.length]? = some d := by
  simp

/-- What the call leaves where it gets no page. -/
theorem slab_criar_sem_pagina (e : Estado) (t : Nat) (h0 : paginas e.kernel.pedidos = 0) :
    slab_criar paginas true e.kernel t = some ⟨e.kernel.mem,
      e.kernel.caches ++ [⟨arredonda t, 0, 0⟩], e.kernel.pedidos + 1⟩ := by
  unfold slab_criar slab_novo
  dsimp only
  rw [if_neg (by decide), if_pos h0]
  rfl

/-- Objects that do not fit: the first page that comes is too small for them. -/
theorem CriarSeguro.sem_paginas {t : UInt32} (hs : CriarSeguro paginas true e t)
    (hbig : ¬ t.toNat ≤ PAGE_SIZE - SLAB_CABECALO) :
    ∀ n, e.kernel.pedidos ≤ n → paginas n = 0 := by
  by_contra hn
  simp only [not_forall] at hn
  obtain ⟨n, hle, h0⟩ := hn
  have hno : ∀ fis, ¬ NovoSeguro (arredonda t.toNat) fis :=
    fun _ => not_novoSeguro (arredonda_grande hbig)
  -- the first page that comes goes to the cache
  have hex : ∃ n, e.kernel.pedidos ≤ n ∧ paginas n ≠ 0 := ⟨n, hle, h0⟩
  obtain ⟨hle, h0⟩ := Nat.find_spec hex
  have hmin : ∀ m, e.kernel.pedidos ≤ m → m < Nat.find hex → paginas m = 0 := fun m h1 h2 => by
    by_contra hm
    exact Nat.find_min hex h2 ⟨h1, hm⟩
  rcases Nat.eq_or_lt_of_le hle with heq | hlt
  · rw [← heq] at h0
    exact hno _ (hs.novo rfl h0)
  · obtain ⟨k, hk, halloc⟩ := hs.retorna
    rw [slab_criar_sem_pagina e _ (hmin _ le_rfl hlt)] at hk
    cases hk
    have hseg := halloc rfl _ (espera_pagina (cache_nova _ _) rfl e.vivos hlt
      fun m h1 h2 => hmin m (by dsimp only at h1; omega) h2)
    have hbusca : search 0 (proximo e.kernel.mem)
        (fun slab => livre_count e.kernel.mem slab ≠ 0) VOLTAS 0 = some 0 := by
      have hv : VOLTAS = (2 ^ 32 - 1) + 1 := by decide
      rw [hv, search, if_pos (Or.inl rfl)]
    exact hno _ (hseg.novo _ (cache_nova _ _) hbusca h0)

theorem criarSeguro_pequeno (hp : PaginasBoas paginas) (h : Corrida paginas e) {t : UInt32}
    (hsmall : t.toNat ≤ PAGE_SIZE - SLAB_CABECALO) : CriarSeguro paginas true e t := by
  obtain ⟨h8, ht, hmax⟩ := arredonda_pequeno hsmall
  have hsome : (slab_criar paginas true e.kernel t.toNat).isSome :=
    slab_criar_isSome hp e.kernel (by omega) hmax
  obtain ⟨k, hk⟩ := Option.isSome_iff_exists.mp hsome
  obtain ⟨d, hd, hsize⟩ := slab_criar_caches hk
  have hrun : Corrida paginas ⟨k, e.vivos⟩ := by
    refine h.mais (c := .criar t true) hmax ?_
    unfold chama
    dsimp only
    rw [hk]
    rfl
  refine ⟨fun _ _ => novoSeguro h8 hmax _, k, hk, fun _ e' hseg => ?_⟩
  obtain ⟨hrun', d', hd', hsize'⟩ := hrun.segue hseg (by dsimp only; rw [hd]; exact cache_nova _ d)
  rw [← hsize, ← hsize'] at h8 ht hmax
  exact hrun'.allocSeguro hp hd' h8 ht hmax

/-- Without a page the cache stays empty. -/
theorem criarSeguro_sem_paginas (hnone : ∀ n, e.kernel.pedidos ≤ n → paginas n = 0) (t : UInt32) :
    CriarSeguro paginas true e t := by
  refine ⟨fun _ h0 => absurd (hnone _ le_rfl) h0, _, slab_criar_sem_pagina e _ (hnone _ le_rfl),
    fun _ e' hseg => ?_⟩
  have hv : Vazia e.kernel.pedidos
      ⟨⟨e.kernel.mem, e.kernel.caches ++ [⟨arredonda t.toNat, 0, 0⟩], e.kernel.pedidos + 1⟩,
        e.vivos⟩ e.kernel.caches.length :=
    ⟨Nat.le_succ _, _, cache_nova _ _, rfl⟩
  exact (hv.segue hnone hseg).allocSeguro hnone

/-- In a state of a run, creating a cache for objects of `t` bytes is safe, then and in all that follows,
exactly if `t` bytes fit into a page beside the header of a slab, or there is no memory for the cache,
or `pmm_alloc` has no page any more. -/
theorem slab_criar_is_safe_iff (hp : PaginasBoas paginas) (h : Corrida paginas e) (memoria : Bool)
    (t : UInt32) : CriarSeguro paginas memoria e t ↔
      t.toNat ≤ PAGE_SIZE - SLAB_CABECALO ∨ memoria = false ∨
        ∀ n, e.kernel.pedidos ≤ n → paginas n = 0 := by
  cases memoria with
  | false =>
    have hsem : CriarSeguro paginas false e t :=
      ⟨fun hm => absurd hm (by decide), e.kernel, rfl, fun hm => absurd hm (by decide)⟩
    exact iff_of_true hsem (.inr (.inl rfl))
  | true =>
    constructor
    · intro hs
      by_cases hsmall : t.toNat ≤ PAGE_SIZE - SLAB_CABECALO
      · exact .inl hsmall
      · exact .inr (.inr (hs.sem_paginas hsmall))
    · rintro (hsmall | hm | hnone)
      · exact criarSeguro_pequeno hp h hsmall
      · cases hm
      · exact criarSeguro_sem_paginas hnone t

theorem slab_criar_is_safe_for_a_kilobyte :
    CriarSeguro oito_paginas true ⟨⟨fun _ => 0, [], 0⟩, []⟩ 1024 :=
  (slab_criar_is_safe_iff oito_paginas_boas (.inicio fun _ => 0) true 1024).mpr
    (Or.inl (by decide))

/-- For all 32 bits of bytes the size of the objects becomes 0, and `slab_novo` divides by it; for a byte
more than fits into a page it makes no slot, and its loop takes 2^32 - 1 turns. -/
theorem slab_criar_is_not_safe_for_every_size :
    ¬ CriarSeguro oito_paginas true ⟨⟨fun _ => 0, [], 0⟩, []⟩ 0xFFFFFFFF ∧
      slab_criar oito_paginas true ⟨fun _ => 0, [], 0⟩ 0xFFFFFFFF = none ∧
      ¬ CriarSeguro oito_paginas true ⟨⟨fun _ => 0, [], 0⟩, []⟩ 4085 ∧
      voltas_do_laco (arredonda 4085) = 2 ^ 32 - 1 := by
  have hp : oito_paginas 0 ≠ 0 := by decide
  refine ⟨fun h => ?_, ?_, fun h => ?_, by decide⟩
  · exact not_novoSeguro (Or.inl (by decide)) (h.novo rfl hp)
  · unfold slab_criar slab_novo
    dsimp only
    rw [if_neg (by decide), if_neg hp, if_pos (by decide)]
    rfl
  · exact not_novoSeguro (Or.inr (by decide)) (h.novo rfl hp)

end SpaceOS.Slab
