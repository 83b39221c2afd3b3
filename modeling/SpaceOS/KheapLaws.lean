-- The laws of the kernel heap: the blocks always tile the region, no two
-- free blocks stand side by side, and live payloads never meet.
import SpaceOS.Kheap
import SpaceOS.Lib.BlockList

open Lib.Bytes Lib.BlockList

namespace SpaceOS.Kheap

/-! ## The list in memory -/

/-- The first address after the region. -/
def HEAP_FIM : Nat := HEAP_INICIO + HEAP_PAGINAS * 4096

/-- The pointer to address `x`: null past the last block. -/
def elo (x : Nat) : Nat := if x = HEAP_FIM then 0 else x

/-- The headers in memory from address `a` on are those of the blocks `bs`, and each
`proximo` points just after the payload of its block. -/
def Segue (m : Memory) : Nat → List Block → Prop
  | _, [] => True
  | a, b :: bs =>
    tamanho m a = b.size ∧ livre m a = (if b.free then 1 else 0) ∧
      proximo m a = elo (a + CABECALHO + b.size) ∧ Segue m (a + CABECALHO + b.size) bs

/-- The blocks `bs` lie in memory from `a` to the end of the region. -/
structure Ladrilha (m : Memory) (a : Nat) (bs : List Block) : Prop where
  segue : Segue m a bs
  ate_o_fim : a + span CABECALHO bs = HEAP_FIM

theorem Segue.congr {m m' : Memory} {a : Nat} {bs : List Block} (h : Segue m a bs)
    (hm : ∀ y ∈ headers CABECALHO a bs, MesmoCabecalho m m' y) : Segue m' a bs := by
  induction bs generalizing a with
  | nil => trivial
  | cons b bs ih =>
    obtain ⟨h1, h2, h3, h4⟩ := h
    have ha := hm a (by simp [headers])
    exact ⟨ha.tamanho ▸ h1, ha.livre ▸ h2, ha.proximo ▸ h3,
      ih h4 fun y hy => hm y (by simp [headers, hy])⟩

/-- Writes below `a` leave the blocks from `a` on as they are. -/
theorem Segue.congr_above {m m' : Memory} {a : Nat} {bs : List Block} (h : Segue m a bs)
    (hm : ∀ x, a ≤ x → m' x = m x) : Segue m' a bs :=
  h.congr fun _ hy x hx _ => hm x (Nat.le_trans (headers_bounds _ hy).1 hx)

theorem segue_append {m : Memory} {a : Nat} {bs cs : List Block} :
    Segue m a (bs ++ cs) ↔ Segue m a bs ∧ Segue m (a + span CABECALHO bs) cs := by
  induction bs generalizing a with
  | nil => simp [Segue, span]
  | cons b bs ih =>
    have e : a + CABECALHO + b.size + span CABECALHO bs =
        a + (CABECALHO + b.size + span CABECALHO bs) := by omega
    simp only [List.cons_append, Segue, ih, span, e, and_assoc]

theorem heap_fim_lt : HEAP_FIM < 2 ^ 32 - 17 := by decide

/-- A block of the list ends inside the region. -/
theorem Ladrilha.head_le {m : Memory} {a : Nat} {b : Block} {bs : List Block}
    (h : Ladrilha m a (b :: bs)) : a + CABECALHO + b.size ≤ HEAP_FIM := by
  have := h.ate_o_fim
  simp only [span] at this
  omega

theorem Ladrilha.tail {m : Memory} {a : Nat} {b : Block} {bs : List Block}
    (h : Ladrilha m a (b :: bs)) : Ladrilha m (a + CABECALHO + b.size) bs := by
  refine ⟨h.segue.2.2.2, ?_⟩
  have := h.ate_o_fim
  simp only [span] at this
  omega

theorem Ladrilha.elo_head {m : Memory} {a : Nat} {b : Block} {bs : List Block}
    (h : Ladrilha m a (b :: bs)) : elo a = a := by
  have := h.head_le
  rw [elo, if_neg]
  simp only [CABECALHO] at this
  omega

theorem Ladrilha.elo_nil {m : Memory} {a : Nat} (h : Ladrilha m a []) : elo a = 0 := by
  have h0 : a = HEAP_FIM := h.ate_o_fim
  rw [elo, if_pos h0]

theorem elo_mod {x : Nat} (h : x ≤ HEAP_FIM) : elo x % 2 ^ 32 = elo x := by
  have := heap_fim_lt
  unfold elo
  split
  · rfl
  · exact Nat.mod_eq_of_lt (by omega)

/-! ## kmalloc -/

/-- The split writes the two headers of `carve`, and nothing outside the block. -/
theorem segue_dividir {m : Memory} {a tam : Nat} {b : Block} {bs : List Block}
    (h : Ladrilha m a (b :: bs)) (htam : tam ≤ b.size) :
    Segue (por_livre (dividir m a tam) a 0) a (carve CABECALHO 8 tam b ++ bs) ∧
      ∀ x, x < a ∨ a + CABECALHO + b.size ≤ x → por_livre (dividir m a tam) a 0 x = m x := by
  obtain ⟨h1, h2, h3, h4⟩ := h.segue
  have hle := h.head_le
  have hfim := heap_fim_lt
  have hcond : (tam + CABECALHO + 8) % 2 ^ 32 ≤ tamanho m a ↔ tam + CABECALHO + 8 ≤ b.size := by
    rw [h1, Nat.mod_eq_of_lt (by simp only [CABECALHO] at *; omega)]
  unfold dividir carve
  by_cases hc : tam + CABECALHO + 8 ≤ b.size
  · simp only [hcond.mpr hc, if_true, hc]
    simp only [CABECALHO] at *
    set novo := a + 9 + tam with hnovo
    set m1 := por_tamanho m novo (tamanho m a + 2 ^ 32 - tam - 9) with hm1
    set m2 := por_livre m1 novo 1 with hm2
    set m3 := por_proximo m2 novo (proximo m2 a) with hm3
    set m4 := por_tamanho m3 a tam with hm4
    set m5 := por_proximo m4 a novo with hm5
    have hlink : proximo m2 a = elo (a + 9 + b.size) := by
      have : MesmoCabecalho m m2 a :=
        ((MesmoCabecalho.refl m a).por_tamanho _ (by omega)).por_livre _ (by omega)
      rw [this.proximo, h3]
    have hhead : MesmoCabecalho m3 (por_livre m5 a 0) novo :=
      (((MesmoCabecalho.refl m3 novo).por_tamanho _ (by omega)).por_proximo _
        (by omega)).por_livre _ (by omega)
    simp only [List.cons_append, List.nil_append, Segue, CABECALHO, ← hnovo]
    refine ⟨⟨?_, ?_, ?_, ?_, ?_, ?_, ?_⟩, ?_⟩
    · simp only [tamanho_por_livre, hm5, tamanho_por_proximo, hm4, tamanho_por_tamanho]
      exact Nat.mod_eq_of_lt (by omega)
    · simp
    · simp only [proximo_por_livre, hm5, proximo_por_proximo]
      rw [elo, if_neg (by omega), Nat.mod_eq_of_lt (by omega)]
    · rw [hhead.tamanho]
      simp only [hm3, tamanho_por_proximo, hm2, tamanho_por_livre, hm1, tamanho_por_tamanho, h1]
      omega
    · rw [hhead.livre]
      simp [hm3, hm2]
    · rw [hhead.proximo]
      have e : novo + 9 + (b.size - tam - 9) = a + 9 + b.size := by omega
      rw [hm3, proximo_por_proximo, hlink, e, elo_mod hle]
    · have e : a + 9 + tam + 9 + (b.size - tam - 9) = a + 9 + b.size := by omega
      rw [e]
      refine h4.congr_above fun x hx => ?_
      rw [por_livre_ne _ _ (by omega), hm5, por_proximo_ne _ _ (by omega), hm4,
        por_tamanho_ne _ _ (by omega), hm3, por_proximo_ne _ _ (by omega), hm2,
        por_livre_ne _ _ (by omega), hm1, por_tamanho_ne _ _ (by omega)]
    · intro x hx
      rw [por_livre_ne _ _ (by omega), hm5, por_proximo_ne _ _ (by omega), hm4,
        por_tamanho_ne _ _ (by omega), hm3, por_proximo_ne _ _ (by omega), hm2,
        por_livre_ne _ _ (by omega), hm1, por_tamanho_ne _ _ (by omega)]
  · simp only [mt hcond.mp hc, if_false, hc]
    refine ⟨⟨by simpa using h1, by simp, by simpa using h3, ?_⟩, ?_⟩
    · exact h4.congr_above fun x hx => por_livre_ne _ _ (by simp only [CABECALHO] at hx; omega)
    · exact fun x hx => por_livre_ne _ _ (by simp only [CABECALHO] at hx; omega)

/-- One turn of the loop of `kmalloc` at the first block. -/
theorem kmalloc_busca_cons {m : Memory} {a tam : Nat} {b : Block} {bs : List Block}
    (h : Ladrilha m a (b :: bs)) (ha : a ≠ 0) (voltas : Nat) :
    kmalloc_busca tam m (voltas + 1) (elo a) =
      if b.free = true ∧ tam ≤ b.size then
        some (a + CABECALHO, por_livre (dividir m a tam) a 0)
      else kmalloc_busca tam m voltas (elo (a + CABECALHO + b.size)) := by
  obtain ⟨h1, h2, h3, _⟩ := h.segue
  rw [h.elo_head, kmalloc_busca, if_neg ha, h1, h2, h3]
  cases b.free <;> simp

/-- Where first fit finds no block, the loop of `kmalloc` gives null. -/
theorem kmalloc_busca_none {m : Memory} {a tam voltas : Nat} {bs : List Block}
    (h : Ladrilha m a bs) (ha : a ≠ 0) (hv : bs.length < voltas)
    (hnone : alloc CABECALHO 8 tam a bs = none) :
    kmalloc_busca tam m voltas (elo a) = some (0, m) := by
  induction bs generalizing a voltas with
  | nil =>
    obtain ⟨v, rfl⟩ : ∃ v, voltas = v + 1 := ⟨voltas - 1, by omega⟩
    simp [kmalloc_busca, h.elo_nil]
  | cons b bs ih =>
    obtain ⟨v, rfl⟩ : ∃ v, voltas = v + 1 := ⟨voltas - 1, by omega⟩
    rw [kmalloc_busca_cons h ha]
    unfold alloc at hnone
    split at hnone
    · cases hnone
    · rename_i hfit
      rw [if_neg hfit]
      exact ih h.tail (by omega) (by simpa using hv) (Option.map_eq_none_iff.mp hnone)

/-- The loop of `kmalloc` takes the block of first fit, and writes into that block only. -/
theorem kmalloc_busca_some {m : Memory} {a tam voltas p : Nat} {bs cs : List Block}
    (h : Ladrilha m a bs) (ha : a ≠ 0) (hv : bs.length < voltas)
    (hsome : alloc CABECALHO 8 tam a bs = some (p, cs)) :
    ∃ m', kmalloc_busca tam m voltas (elo a) = some (p, m') ∧ Segue m' a cs ∧
      ∀ x, (x < a ∨ ∃ y ∈ used CABECALHO a bs, y.1 ≤ x ∧ x < y.1 + y.2) → m' x = m x := by
  induction bs generalizing a voltas cs with
  | nil => simp [alloc] at hsome
  | cons b bs ih =>
    obtain ⟨v, rfl⟩ : ∃ v, voltas = v + 1 := ⟨voltas - 1, by omega⟩
    rw [kmalloc_busca_cons h ha]
    unfold alloc at hsome
    split at hsome
    · rename_i hfit
      cases hsome
      rw [if_pos hfit]
      obtain ⟨hs, hx⟩ := segue_dividir h hfit.2
      refine ⟨_, rfl, hs, fun x hxa => hx x (hxa.imp_right ?_)⟩
      rintro ⟨y, hy, h1, h2⟩
      rw [used, if_pos hfit.1, List.nil_append] at hy
      have := (used_bounds CABECALHO hy).1
      omega
    · rename_i hfit
      rw [if_neg hfit]
      obtain ⟨⟨q, ds⟩, hd, he⟩ := Option.map_eq_some_iff.mp hsome
      cases he
      obtain ⟨m', hm', hs, hx⟩ := ih h.tail (by omega) (by simpa using hv) hd
      obtain ⟨h1, h2, h3, _⟩ := h.segue
      have hself : MesmoCabecalho m m' a := fun x _ h2 =>
        hx x (Or.inl (by simp only [CABECALHO]; omega))
      refine ⟨m', hm', ⟨hself.tamanho ▸ h1, hself.livre ▸ h2, hself.proximo ▸ h3, hs⟩,
        fun x hxa => hx x ?_⟩
      rcases hxa with hxa | ⟨y, hy, g1, g2⟩
      · exact Or.inl (by omega)
      rw [used, List.mem_append] at hy
      rcases hy with hy | hy
      · cases hf : b.free
        · rw [hf] at hy
          obtain rfl := List.mem_singleton.mp hy
          exact Or.inl g2
        · rw [hf] at hy
          exact absurd hy List.not_mem_nil
      · exact Or.inr ⟨y, hy, g1, g2⟩

/-! ## kfree -/

/-- Setting the free byte of a live block is `release` on the list. -/
theorem segue_release {m : Memory} {a p size : Nat} {bs : List Block} (h : Segue m a bs)
    (hp : (p, size) ∈ used CABECALHO a bs) :
    Segue (por_livre m (p - CABECALHO) 1) a (release CABECALHO p a bs) := by
  obtain ⟨pre, post, rfl, rfl, hr⟩ := release_split CABECALHO (by decide) hp
  rw [hr]
  obtain ⟨hpre, h1, _, h3, hpost⟩ := segue_append.mp h
  have e : a + span CABECALHO pre + CABECALHO - CABECALHO = a + span CABECALHO pre := by omega
  rw [e]
  refine segue_append.mpr ⟨hpre.congr fun y hy => ?_, by simpa using h1, by simp,
    by simpa using h3, hpost.congr_above fun x hx => ?_⟩
  · have := (headers_bounds CABECALHO hy).2
    exact (MesmoCabecalho.refl m y).por_livre _ (by simp only [CABECALHO] at this ⊢; omega)
  · exact por_livre_ne m _ (by simp only [CABECALHO] at hx ⊢; omega)

/-- The coalescing loop of `kfree` is `merge` on the list, and writes headers only. -/
theorem kfree_junta_spec {m : Memory} {a voltas : Nat} {b : Block} {bs : List Block}
    (h : Ladrilha m a (b :: bs)) (ha : a ≠ 0) (hv : bs.length < voltas) :
    ∃ m', kfree_junta voltas m a = some m' ∧ Segue m' a (merge CABECALHO (b :: bs)) ∧
      ∀ x, (∀ y ∈ headers CABECALHO a (b :: bs), x < y ∨ y + CABECALHO ≤ x) → m' x = m x := by
  induction voltas generalizing m a b bs with
  | zero => omega
  | succ v ih =>
    obtain ⟨h1, h2, h3, h4⟩ := h.segue
    have hle := h.head_le
    cases bs with
    | nil =>
      refine ⟨m, ?_, ?_, fun _ _ => rfl⟩
      · rw [kfree_junta, h3, h.tail.elo_nil, if_pos (Or.inr rfl)]
      · simpa [merge] using h.segue
    | cons c bs =>
      obtain ⟨c1, c2, c3, c4⟩ := h4
      have hprox : proximo m a = a + CABECALHO + b.size := by rw [h3, h.tail.elo_head]
      have hlec := h.tail.head_le
      have hfim := heap_fim_lt
      have hturn : kfree_junta (v + 1) m a =
          if b.free = true ∧ c.free = true then
            kfree_junta v (por_proximo (por_tamanho m a (b.size + (CABECALHO + c.size))) a
              (elo (a + CABECALHO + b.size + CABECALHO + c.size))) a
          else kfree_junta v m (a + CABECALHO + b.size) := by
        have hjump : proximo (por_tamanho m a (b.size + (CABECALHO + c.size)))
            (a + CABECALHO + b.size) = elo (a + CABECALHO + b.size + CABECALHO + c.size) := by
          have : MesmoCabecalho m (por_tamanho m a (b.size + (CABECALHO + c.size)))
              (a + CABECALHO + b.size) :=
            (MesmoCabecalho.refl m _).por_tamanho _ (by simp only [CABECALHO]; omega)
          rw [this.proximo, c3]
        rw [kfree_junta, if_neg (by rw [hprox]; omega)]
        simp only [hprox, h1, h2, c1, c2, proximo_por_tamanho, hjump]
        cases b.free <;> cases c.free <;> simp
      rw [hturn, merge]
      by_cases hf : b.free = true ∧ c.free = true
      · rw [if_pos hf, if_pos hf]
        set m1 := por_proximo (por_tamanho m a (b.size + (CABECALHO + c.size))) a
          (elo (a + CABECALHO + b.size + CABECALHO + c.size)) with hm1
        have hout : ∀ x, x < a ∨ a + 9 ≤ x → m1 x = m x := fun x hx => by
          rw [hm1, por_proximo_ne _ _ hx, por_tamanho_ne _ _ hx]
        have e : a + CABECALHO + b.size + CABECALHO + c.size =
            a + CABECALHO + (b.size + (CABECALHO + c.size)) := by omega
        have hjoin : Ladrilha m1 a (⟨b.size + (CABECALHO + c.size), true⟩ :: bs) := by
          refine ⟨⟨?_, ?_, ?_, ?_⟩, ?_⟩
          · rw [hm1, tamanho_por_proximo, tamanho_por_tamanho]
            exact Nat.mod_eq_of_lt (by omega)
          · rw [hm1, livre_por_proximo, livre_por_tamanho, h2, hf.1]
          · rw [hm1, proximo_por_proximo, elo_mod hlec, e]
          · rw [← e]
            exact c4.congr_above fun x hx => hout x (by simp only [CABECALHO] at hx; omega)
          · have := h.ate_o_fim
            simp only [span] at this ⊢
            omega
        obtain ⟨m', hm', hs, hx⟩ := ih hjoin ha (by simp at hv; omega)
        refine ⟨m', hm', hs, fun x hxa => (hx x fun y hy => hxa y ?_).trans (hout x ?_)⟩
        · rw [headers, ← e] at hy
          rw [headers, headers]
          rcases List.mem_cons.mp hy with rfl | hy
          · exact List.mem_cons_self
          · exact List.mem_cons_of_mem _ (List.mem_cons_of_mem _ hy)
        · exact hxa a List.mem_cons_self
      · rw [if_neg hf, if_neg hf]
        obtain ⟨m', hm', hs, hx⟩ := ih h.tail (by omega) (by simpa using hv)
        have hself : MesmoCabecalho m m' a := fun x _ h2 => hx x fun y hy => by
          have := (headers_bounds CABECALHO hy).1
          simp only [CABECALHO] at this ⊢
          omega
        exact ⟨m', hm', ⟨hself.tamanho ▸ h1, hself.livre ▸ h2, hself.proximo ▸ h3, hs⟩,
          fun x hxa => hx x fun y hy => hxa y (List.mem_cons_of_mem _ hy)⟩

/-! ## Runs of the heap -/

/-- The heap, and the pointers that `kmalloc` gave and no `kfree` took back. -/
structure Estado where
  heap : Heap
  vivos : List Nat

/-- The bytes that the block of pointer `p` holds. -/
def carga (h : Heap) (p : Nat) : Nat := tamanho h.mem (p - CABECALHO)

/-- One step of a run: a call of `kmalloc` with any 32-bit size, a call of `kfree` on a live
pointer, or a write of an owner into its payload. -/
inductive Passo : Estado → Estado → Prop
  | kmalloc {s : Estado} {n : UInt32} {p : Nat} {h' : Heap} :
      kmalloc s.heap n.toNat = some (p, h') →
      Passo s ⟨h', if p = 0 then s.vivos else p :: s.vivos⟩
  | kfree {s : Estado} {p : Nat} {h' : Heap} :
      p ∈ s.vivos → kfree s.heap p = some h' → Passo s ⟨h', s.vivos.erase p⟩
  | escreve {s : Estado} {p x : Nat} {v : UInt8} :
      p ∈ s.vivos → p ≤ x → x < p + carga s.heap p →
      Passo s ⟨{ s.heap with mem := putByte s.heap.mem x v }, s.vivos⟩

/-- The states of every run after `kheap_init`. -/
inductive Alcanca : Estado → Prop
  | kheap_init (h : Heap) : Alcanca ⟨kheap_init h, []⟩
  | passo {s s' : Estado} : Alcanca s → Passo s s' → Alcanca s'

/-- What holds of the heap after every call: its blocks `bs` tile the region and are merged,
and the used ones are those of the live pointers. -/
structure Inteiro (s : Estado) (bs : List Block) : Prop where
  inicio : s.heap.heap_inicio = HEAP_INICIO
  ligado : s.heap.inicializado = true
  ladrilha : Ladrilha s.heap.mem HEAP_INICIO bs
  juntos : Merged bs
  vivos_nodup : s.vivos.Nodup
  vivos_iff : ∀ p, p ∈ s.vivos ↔ ∃ size, (p, size) ∈ used CABECALHO HEAP_INICIO bs

theorem span_length (bs : List Block) : CABECALHO * bs.length ≤ span CABECALHO bs := by
  induction bs with
  | nil => simp [span]
  | cons b bs ih => simp only [List.length_cons, span, Nat.mul_add]; omega

/-- A list that tiles the region is short next to the turns of a loop. -/
theorem Ladrilha.length_lt {m : Memory} {a : Nat} {bs : List Block} (h : Ladrilha m a bs) :
    bs.length < VOLTAS := by
  have h1 := span_length bs
  have h2 := h.ate_o_fim
  have h3 : HEAP_FIM = 0x340000 := by decide
  simp only [CABECALHO, VOLTAS] at *
  omega

theorem inteiro_kheap_init (h : Heap) :
    Inteiro ⟨kheap_init h, []⟩ [⟨HEAP_PAGINAS * 4096 - CABECALHO, true⟩] where
  inicio := rfl
  ligado := rfl
  ladrilha := by
    refine ⟨⟨?_, ?_, ?_, trivial⟩, rfl⟩
    · simp only [kheap_init, tamanho_por_proximo, tamanho_por_livre, tamanho_por_tamanho]
      decide
    · simp [kheap_init]
    · simp only [kheap_init, proximo_por_proximo]
      decide
  juntos := List.isChain_singleton _
  vivos_nodup := List.nodup_nil
  vivos_iff := by simp [used]

/-! ## What each call keeps -/

theorem heap_inicio_ne : HEAP_INICIO ≠ 0 := by decide

theorem Inteiro.elo_inicio {s : Estado} {bs : List Block} (hi : Inteiro s bs) :
    elo s.heap.heap_inicio = s.heap.heap_inicio := by
  rw [hi.inicio]
  decide

/-- The header of a block in use holds its size. -/
theorem Inteiro.carga_eq {s : Estado} {bs : List Block} (hi : Inteiro s bs) {p size : Nat}
    (hu : (p, size) ∈ used CABECALHO HEAP_INICIO bs) : carga s.heap p = size := by
  obtain ⟨pre, post, hbs, hpre, _⟩ := release_split CABECALHO (by decide) hu
  have hseg := hi.ladrilha.segue
  rw [hbs] at hseg
  have hsize := (segue_append.mp hseg).2.1
  have e : p - CABECALHO = HEAP_INICIO + span CABECALHO pre := by omega
  rw [Kheap.carga, e, hsize]

/-- The payload of a live pointer is the one of its block. -/
theorem Inteiro.carga {s : Estado} {bs : List Block} (hi : Inteiro s bs) {p : Nat}
    (hp : p ∈ s.vivos) : (p, carga s.heap p) ∈ used CABECALHO HEAP_INICIO bs := by
  obtain ⟨size, hu⟩ := (hi.vivos_iff p).mp hp
  rw [hi.carga_eq hu]
  exact hu

/-- The block `y` is among those in use, with the bytes that it had. -/
def Fica (m m' : Memory) (cs : List Block) (y : Nat × Nat) : Prop :=
  y ∈ used CABECALHO HEAP_INICIO cs ∧ ∀ x, y.1 ≤ x → x < y.1 + y.2 → m' x = m x

/-- A call of `kmalloc` returns: null with the heap as it was, or a new live pointer to as many bytes
as it was asked for. The blocks in use stay in use. -/
theorem Inteiro.kmalloc_usados {s : Estado} {bs : List Block} (hi : Inteiro s bs) (n : Nat) :
    ∃ p h' cs, Kheap.kmalloc s.heap n = some (p, h') ∧
      Inteiro ⟨h', if p = 0 then s.vivos else p :: s.vivos⟩ cs ∧
      (p ≠ 0 → p ∉ s.vivos ∧ alinhar n ≤ Kheap.carga h' p) ∧
      ∀ y ∈ used CABECALHO HEAP_INICIO bs, Fica s.heap.mem h'.mem cs y := by
  unfold Kheap.kmalloc
  by_cases h0 : s.heap.inicializado = false ∨ n = 0
  · exact ⟨0, s.heap, bs, if_pos h0, hi, absurd rfl, fun _ hx => ⟨hx, fun _ _ _ => rfl⟩⟩
  have hl := hi.ladrilha
  rw [if_neg h0]
  cases halloc : alloc CABECALHO 8 (alinhar n) HEAP_INICIO bs with
  | none =>
    have hb := kmalloc_busca_none hl heap_inicio_ne hl.length_lt halloc
    rw [← hi.inicio, hi.elo_inicio] at hb
    exact ⟨0, s.heap, bs, by rw [hb]; rfl, hi, absurd rfl, fun _ hx => ⟨hx, fun _ _ _ => rfl⟩⟩
  | some r =>
    obtain ⟨p, cs⟩ := r
    obtain ⟨m', hm', hs, hfora⟩ := kmalloc_busca_some hl heap_inicio_ne hl.length_lt halloc
    rw [← hi.inicio, hi.elo_inicio] at hm'
    obtain ⟨size, hcabe, hused⟩ := mem_used_alloc CABECALHO 8 halloc
    obtain ⟨pre, _, _, _, _, _, hp, _⟩ := alloc_split CABECALHO 8 halloc
    have hp0 : p ≠ 0 := by rw [hp]; simp only [CABECALHO]; omega
    have hnew : p ∉ s.vivos := fun hv => by
      obtain ⟨size', hs'⟩ := (hi.vivos_iff p).mp hv
      exact alloc_fresh CABECALHO 8 (by decide) halloc size' hs'
    have hi' : Inteiro ⟨{ s.heap with mem := m' }, p :: s.vivos⟩ cs := {
      inicio := hi.inicio
      ligado := hi.ligado
      ladrilha := ⟨hs, by rw [span_alloc CABECALHO 8 halloc]; exact hl.ate_o_fim⟩
      juntos := merged_alloc CABECALHO 8 hi.juntos halloc
      vivos_nodup := List.nodup_cons.mpr ⟨hnew, hi.vivos_nodup⟩
      vivos_iff := fun q => by
        simp only [List.mem_cons, hused, hi.vivos_iff, Prod.mk.injEq]
        constructor
        · rintro (rfl | ⟨size', h'⟩)
          · exact ⟨size, Or.inl ⟨rfl, rfl⟩⟩
          · exact ⟨size', Or.inr h'⟩
        · rintro ⟨size', ⟨rfl, _⟩ | h'⟩
          · exact Or.inl rfl
          · exact Or.inr ⟨size', h'⟩ }
    refine ⟨p, { s.heap with mem := m' }, cs, by rw [hm']; rfl, by rw [if_neg hp0]; exact hi',
      fun _ => ⟨hnew, ?_⟩, fun y hy => ⟨(hused y).mpr (Or.inr hy), fun x g1 g2 =>
        hfora x (Or.inr ⟨y, hy, g1, g2⟩)⟩⟩
    rcases (hused _).mp (hi'.carga List.mem_cons_self) with he | hold
    · rw [(Prod.mk.inj he).2]
      exact hcabe
    · exact absurd hold (alloc_fresh CABECALHO 8 (by decide) halloc _)

theorem Inteiro.kmalloc {s : Estado} {bs : List Block} (hi : Inteiro s bs) (n : Nat) :
    ∃ p h' cs, Kheap.kmalloc s.heap n = some (p, h') ∧
      Inteiro ⟨h', if p = 0 then s.vivos else p :: s.vivos⟩ cs ∧
      (p ≠ 0 → p ∉ s.vivos ∧ alinhar n ≤ Kheap.carga h' p) := by
  obtain ⟨p, h', cs, hk, hi', hp, -⟩ := hi.kmalloc_usados n
  exact ⟨p, h', cs, hk, hi', hp⟩

/-- A call of `kfree` on a live pointer returns, and the pointer is live no more. The other blocks
in use stay in use. -/
theorem Inteiro.kfree_usados {s : Estado} {bs : List Block} (hi : Inteiro s bs) {p : Nat}
    (hp : p ∈ s.vivos) :
    ∃ h' cs, Kheap.kfree s.heap p = some h' ∧ Inteiro ⟨h', s.vivos.erase p⟩ cs ∧
      ∀ y ∈ used CABECALHO HEAP_INICIO bs, y.1 ≠ p → Fica s.heap.mem h'.mem cs y := by
  obtain ⟨size, hu⟩ := (hi.vivos_iff p).mp hp
  have hl := hi.ladrilha
  have hp0 : p ≠ 0 := by
    have := (used_bounds CABECALHO hu).1
    simp only [CABECALHO] at this
    omega
  have hrel : Ladrilha (por_livre s.heap.mem (p - CABECALHO) 1) HEAP_INICIO
      (release CABECALHO p HEAP_INICIO bs) :=
    ⟨segue_release hl.segue hu, by rw [span_release]; exact hl.ate_o_fim⟩
  obtain ⟨c, cs, hc⟩ : ∃ c cs, release CABECALHO p HEAP_INICIO bs = c :: cs := by
    obtain ⟨pre, post, _, _, hr⟩ := release_split CABECALHO (by decide) hu
    rw [hr]
    cases pre with
    | nil => exact ⟨_, _, rfl⟩
    | cons d pre => exact ⟨_, _, rfl⟩
  have hlen := hrel.length_lt
  rw [hc] at hrel hlen
  simp only [List.length_cons] at hlen
  have hvoltas : cs.length < VOLTAS := by omega
  obtain ⟨m', hm', hs, hfora⟩ := kfree_junta_spec hrel heap_inicio_ne hvoltas
  rw [← hc] at hs hfora
  refine ⟨{ s.heap with mem := m' }, merge CABECALHO (release CABECALHO p HEAP_INICIO bs), ?_, ?_,
    fun y hy hne => ⟨?_, fun x g1 g2 => ?_⟩⟩
  · rw [← hi.inicio] at hm'
    rw [Kheap.kfree, if_neg hp0, hm']
    rfl
  · exact {
      inicio := hi.inicio
      ligado := hi.ligado
      ladrilha := ⟨hs, by rw [span_merge, span_release]; exact hl.ate_o_fim⟩
      juntos := merged_merge CABECALHO _
      vivos_nodup := hi.vivos_nodup.erase p
      vivos_iff := fun q => by
        simp only [hi.vivos_nodup.mem_erase_iff, used_merge,
          mem_used_release CABECALHO (by decide : 0 < CABECALHO), hi.vivos_iff]
        constructor
        · rintro ⟨hne, size', h'⟩
          exact ⟨size', h', hne⟩
        · rintro ⟨size', h', hne⟩
          exact ⟨hne, size', h'⟩ }
  · rw [used_merge]
    exact (mem_used_release CABECALHO (by decide)).mpr ⟨hy, hne⟩
  · -- The header of the freed block and those of the coalescing loop lie beside the payload.
    have hy' := (mem_used_release CABECALHO (by decide)).mpr ⟨hy, hne⟩
    refine (hfora x fun z hz => ?_).trans (por_livre_ne _ _ ?_)
    · have := used_headers_disjoint CABECALHO hy' hz
      omega
    · have := used_headers_disjoint CABECALHO hy (header_of_used CABECALHO (by decide) hu)
      simp only [CABECALHO] at this ⊢
      omega

theorem Inteiro.kfree {s : Estado} {bs : List Block} (hi : Inteiro s bs) {p : Nat}
    (hp : p ∈ s.vivos) :
    ∃ h' cs, Kheap.kfree s.heap p = some h' ∧ Inteiro ⟨h', s.vivos.erase p⟩ cs := by
  obtain ⟨h', cs, hk, hi', -⟩ := hi.kfree_usados hp
  exact ⟨h', cs, hk, hi'⟩

/-- Writes into a live payload keep every header. -/
theorem Inteiro.grava {s : Estado} {bs : List Block} (hi : Inteiro s bs) {p : Nat} {m' : Memory}
    (hp : p ∈ s.vivos) (hm : ∀ x, x < p ∨ p + Kheap.carga s.heap p ≤ x → m' x = s.heap.mem x) :
    Inteiro ⟨{ s.heap with mem := m' }, s.vivos⟩ bs := by
  obtain ⟨g1, g2, g3, g4, g5, g6⟩ := id hi
  refine ⟨g1, g2, ⟨g3.segue.congr fun y hy z hz1 hz2 => hm z ?_, g3.ate_o_fim⟩, g4, g5, g6⟩
  have := used_headers_disjoint CABECALHO (hi.carga hp) hy
  simp only [CABECALHO] at this
  omega

theorem Inteiro.escreve {s : Estado} {bs : List Block} (hi : Inteiro s bs) {p x : Nat} (v : UInt8)
    (hp : p ∈ s.vivos) (h1 : p ≤ x) (h2 : x < p + Kheap.carga s.heap p) :
    Inteiro ⟨{ s.heap with mem := putByte s.heap.mem x v }, s.vivos⟩ bs :=
  hi.grava hp fun y hy => putByte_ne _ _ (by omega)

/-- A step keeps the blocks in use whose pointers stay live. -/
theorem Inteiro.passo_usados {s s' : Estado} {bs : List Block} (hi : Inteiro s bs) (h : Passo s s') :
    ∃ cs, Inteiro s' cs ∧ ∀ y ∈ used CABECALHO HEAP_INICIO bs, y.1 ∈ s'.vivos →
      y ∈ used CABECALHO HEAP_INICIO cs := by
  cases h with
  | @kmalloc n p h' hk =>
    obtain ⟨p1, h1, cs, he, hc, _, hus⟩ := hi.kmalloc_usados n.toNat
    rw [hk] at he
    cases he
    exact ⟨cs, hc, fun y hy _ => (hus y hy).1⟩
  | @kfree p h' hp hk =>
    obtain ⟨h1, cs, he, hc, hus⟩ := hi.kfree_usados hp
    rw [hk] at he
    cases he
    exact ⟨cs, hc, fun y hy hv => (hus y hy (hi.vivos_nodup.mem_erase_iff.mp hv).1).1⟩
  | @escreve p x v hp h1 h2 => exact ⟨bs, hi.escreve v hp h1 h2, fun _ hx _ => hx⟩

theorem Inteiro.passo {s s' : Estado} {bs : List Block} (hi : Inteiro s bs) (h : Passo s s') :
    ∃ cs, Inteiro s' cs := by
  obtain ⟨cs, hc, -⟩ := hi.passo_usados h
  exact ⟨cs, hc⟩

theorem inteiro_of_alcanca {s : Estado} (h : Alcanca s) : ∃ bs, Inteiro s bs := by
  induction h with
  | kheap_init h => exact ⟨_, inteiro_kheap_init h⟩
  | passo _ hp ih =>
    obtain ⟨bs, hi⟩ := ih
    exact hi.passo hp

/-! ## The laws -/

theorem Inteiro.sem_vivos {s : Estado} {bs : List Block} (hi : Inteiro s bs) (hv : s.vivos = []) :
    bs = [⟨HEAP_PAGINAS * 4096 - CABECALHO, true⟩] := by
  have hspan := hi.ladrilha.ate_o_fim
  have hne : bs ≠ [] := by
    rintro rfl
    exact absurd hspan (by decide)
  have hfree : ∀ b ∈ bs, b.free = true := fun b hb => by
    by_contra hf
    obtain ⟨pre, post, rfl⟩ := List.append_of_mem hb
    have hu : ( HEAP_INICIO + span CABECALHO pre + CABECALHO, b.size) ∈
        used CABECALHO HEAP_INICIO (pre ++ b :: post) := by
      rw [used_append]
      simp [used, hf]
    have := (hi.vivos_iff _).mpr ⟨_, hu⟩
    rw [hv] at this
    cases this
  have h1 := one_block_of_all_free CABECALHO hi.juntos hfree hne
  have h2 : span CABECALHO bs - CABECALHO = HEAP_PAGINAS * 4096 - CABECALHO := by
    unfold HEAP_FIM at hspan
    omega
  rw [h2] at h1
  exact h1

end SpaceOS.Kheap
