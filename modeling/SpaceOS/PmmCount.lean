-- The page allocator over runs of `pmm_alloc` and `pmm_free` with any address: the counter is the
-- number of the free pages, and no page is handed out twice.
import SpaceOS.PmmLaws

open Lib.Bytes Lib.Bitmap

namespace SpaceOS.Pmm

/-! ## The counter -/

/-- The counter is the number of the clear bits below the number of the pages. -/
def Conferido (s : Mapa) : Prop := s.paginas_livres = clear s.bitmap s.total_paginas

section Marcar

variable {s : Mapa} {base tamanho : Nat}

theorem conferido_marcar_usado (h : Conferido s) : Conferido (pmm_marcar_usado s base tamanho) := by
  simp only [pmm_marcar_usado]
  have hl : ∀ i ∈ paginas (base / PAGE_SIZE) ((base + tamanho + PAGE_SIZE - 1) % 2 ^ 32 / PAGE_SIZE)
      s.total_paginas, i < s.total_paginas := fun i hi => (mem_paginas.mp hi).2.2
  generalize paginas _ _ s.total_paginas = l at hl ⊢
  induction l generalizing s with
  | nil => exact h
  | cons i l ih =>
    have hi := hl i List.mem_cons_self
    have hrest := fun j hj => hl j (List.mem_cons_of_mem _ hj)
    rw [List.foldl_cons]
    by_cases hb : bit_checar s.bitmap i = true
    · rw [if_pos hb]
      exact ih h hrest
    · rw [if_neg hb]
      rw [bit_checar_eq, Bool.not_eq_true] at hb
      have hc := clear_setBit hi hb
      refine ih ?_ hrest
      unfold Conferido at h ⊢
      dsimp only [bit_setar]
      rw [if_pos (by omega)]
      omega

theorem conferido_marcar_livre (h : Conferido s) : Conferido (pmm_marcar_livre s base tamanho) := by
  simp only [pmm_marcar_livre]
  have hl : ∀ i ∈ paginas (base / PAGE_SIZE) ((base + tamanho) % 2 ^ 32 / PAGE_SIZE)
      s.total_paginas, i < s.total_paginas := fun i hi => (mem_paginas.mp hi).2.2
  generalize paginas _ _ s.total_paginas = l at hl ⊢
  induction l generalizing s with
  | nil => exact h
  | cons i l ih =>
    have hi := hl i List.mem_cons_self
    have hrest := fun j hj => hl j (List.mem_cons_of_mem _ hj)
    rw [List.foldl_cons]
    by_cases hb : bit_checar s.bitmap i = true
    · rw [if_pos hb]
      rw [bit_checar_eq] at hb
      have hc := clear_clearBit hi hb
      refine ih ?_ hrest
      unfold Conferido at h ⊢
      dsimp only [bit_limpar]
      omega
    · rw [if_neg hb]
      exact ih h hrest

theorem conferido_regioes (h : Conferido s) (rs : List (Nat × Nat)) :
    Conferido (rs.foldl (fun s r => pmm_marcar_livre s r.1 r.2) s) := by
  induction rs generalizing s with
  | nil => exact h
  | cons r rs ih =>
    rw [List.foldl_cons]
    exact ih (conferido_marcar_livre h)

end Marcar

section Boot

variable {mem : Memory} {mboot fim end_bitmap : Nat} {s : Mapa}

theorem conferido_pmm_init (h : pmm_init mem mboot fim end_bitmap = some s) : Conferido s := by
  obtain ⟨rs, _, rfl⟩ := pmm_init_eq h
  refine conferido_marcar_usado (conferido_marcar_usado (conferido_marcar_usado ?_))
  refine conferido_regioes (s := ⟨fun _ => 0xFF, contar_paginas mem mboot, 0⟩) ?_ rs
  exact (clear_eq_zero.mpr fun i _ => bit_cheio i).symm

theorem contar_paginas_le (mem : Memory) (mboot : Nat) : contar_paginas mem mboot ≤ MAX_PAGINAS :=
  Nat.min_le_right _ _

/-- `pmm_init` reserves page 0. -/
theorem pagina_zero_reservada (h : pmm_init mem mboot fim end_bitmap = some s)
    (h0 : 0 < s.total_paginas) : bit s.bitmap 0 = true := by
  obtain ⟨_, hb⟩ := pmm_init_spec h
  by_contra hn
  have hl := (hb 0 h0).mp (by simpa using hn)
  exact hl.2.2 (Or.inl (by decide))

end Boot

/-! ## Runs -/

/-- The page allocator, and the addresses that were handed out and not freed since. -/
structure Uso where
  pmm : Mapa
  tomadas : List Nat

inductive Chamada
  | alloc
  | free (endereco : UInt32)

/-- The addresses that are not in the page of `endereco`. -/
def sem_pagina (endereco : Nat) (tomadas : List Nat) : List Nat :=
  tomadas.filter fun p => p / PAGE_SIZE ≠ endereco / PAGE_SIZE

/-- A call. `pmm_alloc` hands out a page where it does not return 0. -/
def chama (e : Uso) : Chamada → Uso
  | .alloc =>
    let (p, pmm) := pmm_alloc e.pmm
    ⟨pmm, if p = 0 then e.tomadas else p :: e.tomadas⟩
  | .free a => ⟨pmm_free e.pmm a.toNat, sem_pagina a.toNat e.tomadas⟩

/-- The states of a run from `pmm_init` on, all of whose calls are `ok` in the state they find. -/
inductive Usado (ok : Mapa → Chamada → Prop) (mem : Memory) (mboot fim end_bitmap : Nat) : Uso → Prop
  | inicio {s : Mapa} : pmm_init mem mboot fim end_bitmap = some s →
      Usado ok mem mboot fim end_bitmap ⟨s, []⟩
  | mais {e : Uso} {c : Chamada} : Usado ok mem mboot fim end_bitmap e → ok e.pmm c →
      Usado ok mem mboot fim end_bitmap (chama e c)

/-- Every call is allowed. -/
def Qualquer (_ : Mapa) (_ : Chamada) : Prop := True

/-- No call frees page 0, which `pmm_init` reserved and whose address stands for a failure. -/
def SemPaginaZero (s : Mapa) : Chamada → Prop
  | .alloc => True
  | .free a => s.total_paginas = 0 ∨ PAGE_SIZE ≤ a.toNat

/-- The accounts are right: the counter, the pages handed out (none twice), and what the next call
of `pmm_alloc` does. -/
structure Contas (e : Uso) : Prop where
  conferido : Conferido e.pmm
  uma_vez : e.tomadas.Nodup
  cheio : (pmm_alloc e.pmm).1 = 0 ↔ e.pmm.paginas_livres = 0
  um_bit : (pmm_alloc e.pmm).1 ≠ 0 →
    (pmm_alloc e.pmm).1 ∉ e.tomadas ∧
      ∀ j, bit (pmm_alloc e.pmm).2.bitmap j =
        (decide (j * PAGE_SIZE = (pmm_alloc e.pmm).1) || bit e.pmm.bitmap j)

/-- What every call keeps. -/
structure Regular (e : Uso) : Prop where
  conferido : Conferido e.pmm
  total : e.pmm.total_paginas ≤ MAX_PAGINAS
  zero : 0 < e.pmm.total_paginas → bit e.pmm.bitmap 0 = true
  tomadas : ∀ p ∈ e.tomadas, ∃ i, p = i * PAGE_SIZE ∧ bit e.pmm.bitmap i = true
  uma_vez : e.tomadas.Nodup

section Corridas

variable {mem : Memory} {mboot fim end_bitmap : Nat} {e : Uso}

theorem pmm_alloc_cheio {s : Mapa} (h : ∀ i < s.total_paginas, bit s.bitmap i = true) :
    pmm_alloc s = (0, s) := by
  rcases pmm_alloc_cases s with hn | ⟨i, hi, hb, _⟩
  · exact hn
  · rw [h i hi] at hb
    exact absurd hb (by decide)

/-- Where a page is free the lowest one is taken. -/
theorem pmm_alloc_livre {s : Mapa} (h : ¬ ∀ i < s.total_paginas, bit s.bitmap i = true) :
    ∃ i < s.total_paginas, bit s.bitmap i = false ∧ (∀ j < i, bit s.bitmap j = true) ∧
      pmm_alloc s = (i * PAGE_SIZE, { s with
        bitmap := bit_setar s.bitmap i
        paginas_livres := (s.paginas_livres + 2 ^ 32 - 1) % 2 ^ 32 }) := by
  have hex : ∃ i, i < s.total_paginas ∧ bit s.bitmap i = false := by
    simpa using h
  obtain ⟨hi, hb⟩ := Nat.find_spec hex
  have hmenor : ∀ j < Nat.find hex, bit s.bitmap j = true := by
    intro j hj
    have hmin := Nat.find_min hex hj
    simp only [not_and, Bool.not_eq_false] at hmin
    exact hmin (by omega)
  exact ⟨_, hi, hb, hmenor, pmm_alloc_some hi hb hmenor⟩

theorem page_div (i : Nat) : i * PAGE_SIZE / PAGE_SIZE = i := Nat.mul_div_cancel i (by decide)

/-- `pmm_alloc` fails where every page is in use, or takes a free page other than page 0. -/
theorem Regular.alloc_cases (h : Regular e) :
    (pmm_alloc e.pmm = (0, e.pmm) ∧ e.pmm.paginas_livres = 0) ∨
      ∃ i, i < e.pmm.total_paginas ∧ i ≠ 0 ∧ bit e.pmm.bitmap i = false ∧
        pmm_alloc e.pmm = (i * PAGE_SIZE, { e.pmm with
          bitmap := bit_setar e.pmm.bitmap i
          paginas_livres := e.pmm.paginas_livres - 1 }) ∧
        clear (bit_setar e.pmm.bitmap i) e.pmm.total_paginas + 1 = e.pmm.paginas_livres := by
  have hconf := h.conferido
  unfold Conferido at hconf
  by_cases hcheio : ∀ i < e.pmm.total_paginas, bit e.pmm.bitmap i = true
  · exact Or.inl ⟨pmm_alloc_cheio hcheio, hconf.trans (clear_eq_zero.mpr hcheio)⟩
  · obtain ⟨i, hi, hb, -, hs⟩ := pmm_alloc_livre hcheio
    have hc := clear_setBit hi hb
    have hle := clear_le e.pmm.bitmap e.pmm.total_paginas
    have hmax : MAX_PAGINAS < 2 ^ 32 := by decide
    have htot := h.total
    refine Or.inr ⟨i, hi, ?_, hb, ?_, ?_⟩
    · rintro rfl
      rw [h.zero hi] at hb
      exact absurd hb (by decide)
    · have e1 : (e.pmm.paginas_livres + 2 ^ 32 - 1) % 2 ^ 32 = e.pmm.paginas_livres - 1 := by
        omega
      rw [hs, e1]
    · unfold bit_setar
      omega

theorem Regular.contas (h : Regular e) : Contas e := by
  rcases h.alloc_cases with ⟨hn, h0⟩ | ⟨i, hi, hi0, hb, hs, hc⟩
  · refine ⟨h.conferido, h.uma_vez, ?_, ?_⟩
    · rw [hn, h0]
    · rw [hn]
      exact fun hne => absurd rfl hne
  · have hp : i * PAGE_SIZE ≠ 0 := by
      simp only [PAGE_SIZE]
      omega
    refine ⟨h.conferido, h.uma_vez, ?_, ?_⟩
    · rw [hs]
      exact ⟨fun he => absurd he hp, fun he => by omega⟩
    · rw [hs]
      refine fun _ => ⟨fun hmem => ?_, fun j => ?_⟩
      · obtain ⟨k, hk, hbk⟩ := h.tomadas _ hmem
        obtain rfl : i = k := by
          simp only [PAGE_SIZE] at hk
          omega
        rw [hb] at hbk
        exact absurd hbk (by decide)
      · dsimp only [bit_setar]
        rw [bit_setBit]
        congr 1
        refine decide_eq_decide.mpr ?_
        simp only [PAGE_SIZE]
        omega

theorem Regular.alloc (h : Regular e) : Regular (chama e .alloc) := by
  have hcontas := h.contas
  rcases h.alloc_cases with ⟨hn, _⟩ | ⟨i, hi, hi0, hb, hs, hc⟩
  · unfold chama
    rw [hn]
    exact h
  · have hp : i * PAGE_SIZE ≠ 0 := by
      simp only [PAGE_SIZE]
      omega
    have hnovo := (hcontas.um_bit (by rw [hs]; exact hp)).1
    rw [hs] at hnovo
    have hset : ∀ j, bit e.pmm.bitmap j = true → bit (bit_setar e.pmm.bitmap i) j = true := by
      intro j hj
      unfold bit_setar
      rw [bit_setBit, hj, Bool.or_true]
    unfold chama
    rw [hs]
    dsimp only
    rw [if_neg hp]
    refine ⟨?_, h.total, fun h0 => hset 0 (h.zero h0), ?_, List.nodup_cons.mpr ⟨hnovo, h.uma_vez⟩⟩
    · unfold Conferido
      dsimp only
      omega
    · intro p hmem
      rcases List.mem_cons.mp hmem with rfl | hmem
      · refine ⟨i, rfl, ?_⟩
        dsimp only [bit_setar]
        rw [bit_setBit]
        simp
      · obtain ⟨j, rfl, hj⟩ := h.tomadas p hmem
        exact ⟨j, rfl, hset j hj⟩

theorem Regular.free (h : Regular e) {a : UInt32} (hok : SemPaginaZero e.pmm (.free a)) :
    Regular (chama e (.free a)) := by
  have hsub : sem_pagina a.toNat e.tomadas ⊆ e.tomadas := List.filter_subset_self _
  have hnodup : (sem_pagina a.toNat e.tomadas).Nodup := h.uma_vez.filter _
  unfold chama pmm_free
  dsimp only
  split
  · rename_i hc
    obtain ⟨hlt, hb⟩ := hc
    rw [bit_checar_eq] at hb
    have hcount := clear_clearBit hlt hb
    have hconf := h.conferido
    unfold Conferido at hconf
    refine ⟨?_, h.total, fun h0 => ?_, ?_, hnodup⟩
    · unfold Conferido
      dsimp only [bit_limpar]
      omega
    · have hne : a.toNat / PAGE_SIZE ≠ 0 := by
        rcases hok with ht | hge
        · rw [ht] at hlt
          omega
        · have : 0 < a.toNat / PAGE_SIZE := Nat.div_pos hge (by decide)
          omega
      dsimp only [bit_limpar]
      rw [bit_clearBit, h.zero h0]
      simp [hne]
    · intro p hmem
      obtain ⟨i, rfl, hi⟩ := h.tomadas p (hsub hmem)
      have hne := of_decide_eq_true (List.mem_filter.mp hmem).2
      rw [page_div] at hne
      refine ⟨i, rfl, ?_⟩
      dsimp only [bit_limpar]
      rw [bit_clearBit, hi]
      simp [Ne.symm hne]
  · exact ⟨h.conferido, h.total, h.zero, fun p hp => h.tomadas p (hsub hp), hnodup⟩

/-- Once page 0 is freed, `pmm_alloc` returns its address, which stands for a failure. -/
theorem Regular.pagina_zero (h : Regular e) {a : UInt32} (hn : ¬ SemPaginaZero e.pmm (.free a)) :
    ¬ Contas (chama e (.free a)) := by
  obtain ⟨ht, ha⟩ := not_or.mp hn
  have htot := Nat.pos_of_ne_zero ht
  have hdiv : a.toNat / PAGE_SIZE = 0 := Nat.div_eq_of_lt (by omega)
  have hfree : pmm_free e.pmm a.toNat =
      ⟨bit_limpar e.pmm.bitmap 0, e.pmm.total_paginas, e.pmm.paginas_livres + 1⟩ := by
    unfold pmm_free
    rw [hdiv]
    exact if_pos ⟨htot, by rw [bit_checar_eq]; exact h.zero htot⟩
  have hlivre : bit (bit_limpar e.pmm.bitmap 0) 0 = false := by
    unfold bit_limpar
    rw [bit_clearBit]
    simp
  have halloc := pmm_alloc_some
    (s := ⟨bit_limpar e.pmm.bitmap 0, e.pmm.total_paginas, e.pmm.paginas_livres + 1⟩)
    htot hlivre (by simp)
  intro hc
  have hcheio := hc.cheio
  dsimp only [chama] at hcheio
  rw [hfree, halloc] at hcheio
  exact absurd (hcheio.mp rfl) (Nat.succ_ne_zero _)

theorem Usado.regular (h : Usado SemPaginaZero mem mboot fim end_bitmap e) : Regular e := by
  induction h with
  | @inicio s hs =>
    obtain ⟨htot, _⟩ := pmm_init_spec hs
    refine ⟨conferido_pmm_init hs, ?_, pagina_zero_reservada hs, by simp, List.nodup_nil⟩
    dsimp only
    rw [htot]
    exact contar_paginas_le mem mboot
  | @mais e c _ hok ih =>
    cases c with
    | alloc => exact ih.alloc
    | free a => exact ih.free hok

/-! ## The law -/

/-- In every run in which page 0 is not freed, the counter is the number of the free pages, no page
is handed out twice without a free of it in between, and `pmm_alloc` fails just where no page is
free and else sets one bit. -/
theorem pages_are_accounted_for (h : Usado SemPaginaZero mem mboot fim end_bitmap e) : Contas e :=
  h.regular.contas

/-- On a machine with 128 MB: a page is taken and given back. -/
theorem pages_are_accounted_for_at_boot :
    ∃ e, Usado SemPaginaZero boot_128mb 0x10000 0x200000 0x1A0000 e ∧ Contas e := by
  obtain ⟨s, hs⟩ := pmm_init_isSome regioes_boot_128mb 0x200000 0x1A0000
  have h0 : Usado SemPaginaZero boot_128mb 0x10000 0x200000 0x1A0000 ⟨s, []⟩ := .inicio hs
  have h := (h0.mais (c := .alloc) trivial).mais (c := .free 0x200000) (Or.inr (by decide))
  exact ⟨_, h, pages_are_accounted_for h⟩

/-- There page 0 can be freed, and is then taken for a failure. -/
theorem page_zero_is_handed_out :
    ¬ ∀ e, Usado Qualquer boot_128mb 0x10000 0x200000 0x1A0000 e → Contas e := by
  intro hall
  obtain ⟨s, hs⟩ := pmm_init_isSome regioes_boot_128mb 0x200000 0x1A0000
  have hn : ¬ SemPaginaZero s (.free 0) := by
    refine not_or.mpr ⟨?_, by decide⟩
    rw [(pmm_init_spec hs).1]
    decide
  exact (Usado.inicio hs).regular.pagina_zero hn (hall _ ((Usado.inicio hs).mais trivial))

end Corridas

end SpaceOS.Pmm
