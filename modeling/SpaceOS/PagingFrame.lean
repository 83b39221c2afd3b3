-- What `paging_mapear` leaves of the other pages: their translation, in every run in which it
-- writes its tables where it means to.
import SpaceOS.PagingLaws

open Lib.Bytes Lib.Bitmap

namespace SpaceOS.Paging

open SpaceOS.Pmm ( PAGE_SIZE Mapa pmm_alloc MAX_PAGINAS)

/-! ## Words and what a translation reads -/

section Palavras

variable {g : Imagem} {s t : Nucleo}

/-- The word of the table that the translation of `virt` reads. -/
def endereco (s : Nucleo) (virt : Nat) : Nat :=
  (s.page_directory (virt / (1024 * PAGE_SIZE)) &&& ~~~0xFFF).toNat + 4 * (virt / PAGE_SIZE % 1024)

theorem toNat_moldura_mod (e : UInt32) : (e &&& ~~~0xFFF).toNat % PAGE_SIZE = 0 := by
  rw [toNat_moldura]
  exact Nat.mul_mod_left _ _

/-- Words lie at multiples of 4. -/
theorem endereco_mod (s : Nucleo) (virt : Nat) : endereco s virt % 4 = 0 := by
  have h := toNat_moldura_mod (s.page_directory (virt / (1024 * PAGE_SIZE)))
  unfold endereco
  unfold PAGE_SIZE at *
  omega

/-- A translation depends on one entry of the directory and on one word. -/
theorem traduz_congr {a : Nat}
    (hd : t.page_directory (a / (1024 * PAGE_SIZE)) = s.page_directory (a / (1024 * PAGE_SIZE)))
    (hw : s.page_directory (a / (1024 * PAGE_SIZE)) &&& PAGE_PRESENTE ≠ 0 →
      le g t (endereco s a) = le g s (endereco s a)) : traduz g t a = traduz g s a := by
  unfold traduz
  dsimp only
  rw [hd]
  by_cases hp : s.page_directory (a / (1024 * PAGE_SIZE)) &&& PAGE_PRESENTE = 0
  · rw [if_pos hp, if_pos hp]
  · have h := hw hp
    unfold endereco at h
    rw [if_neg hp, if_neg hp, h]

/-- A word written outside the directory. -/
theorem poe_page_directory {a : Nat} {v : UInt32} (h : ¬ NoDiretorio g a) :
    (poe g s a v).page_directory = s.page_directory := by
  unfold poe
  rw [if_neg h]
  split <;> rfl

theorem poe_pmm {a : Nat} {v : UInt32} : (poe g s a v).pmm = s.pmm := by
  unfold poe
  split
  · rfl
  · split <;> rfl

theorem le_poe_self {a : Nat} (v : UInt32) (h : ¬ NoDiretorio g a) (ht : ¬ NasTabelas g a) :
    le g (poe g s a v) a = v := by
  rw [poe_fora v ⟨h, ht⟩]
  unfold le
  rw [if_neg h, if_neg ht, word_putWord_self, Nat.mod_eq_of_lt v.toNat_lt, UInt32.ofNat_toNat]

/-- The other words are as before. -/
theorem le_poe_ne {a b : Nat} (v : UInt32) (ha : a % 4 = 0) (hb : b % 4 = 0) (h : b ≠ a) :
    le g (poe g s a v) b = le g s b := by
  have hd := g.diretorio_alinhado
  have ht := g.tabelas_alinhadas
  unfold PAGE_SIZE at hd ht
  by_cases hda : NoDiretorio g a
  · unfold poe
    rw [if_pos hda]
    unfold le
    by_cases hdb : NoDiretorio g b
    · rw [if_pos hdb, if_pos hdb]
      unfold NoDiretorio at hda hdb
      exact Function.update_of_ne (by omega) _ _
    · rw [if_neg hdb, if_neg hdb]
  by_cases hta : NasTabelas g a
  · unfold poe
    rw [if_neg hda, if_pos hta]
    unfold le
    by_cases htb : NasTabelas g b
    · rw [if_pos htb, if_pos htb]
      unfold NasTabelas at hta htb
      dsimp only
      rw [Function.update_of_ne (show (b - g.page_tables) / 4 ≠ (a - g.page_tables) / 4 by omega)]
    · rw [if_neg htb, if_neg htb]
  · rw [poe_fora v ⟨hda, hta⟩]
    unfold le
    dsimp only
    rw [word_putWord_ne s.slab.mem v.toNat (by omega)]

/-- A word outside the directory does not change with it. -/
theorem le_page_directory {b : Nat} (f : Nat → UInt32) (h : ¬ NoDiretorio g b) :
    le g { s with page_directory := f } b = le g s b := by
  unfold le
  rw [if_neg h, if_neg h]

end Palavras

/-! ## The tables of the directory -/

/-- The entry of the directory that first has the table of entry `i`. -/
def raiz (i : Nat) : Nat := if i = PD_KERNEL then 0 else i

/-- The page of `virt`, which from `0xC0000000` on is a page of the first 4 MB again. -/
def pagina (virt : Nat) : Nat := raiz (virt / (1024 * PAGE_SIZE)) * 1024 + virt / PAGE_SIZE % 1024

/-- The frame of an entry of the directory. -/
def moldura (s : Nucleo) (i : Nat) : Nat := (s.page_directory i &&& ~~~0xFFF).toNat

/-- The entry has a table. -/
def Presente (s : Nucleo) (i : Nat) : Prop := s.page_directory i &&& PAGE_PRESENTE ≠ 0

/-- The tables lie apart from each other, from the directory and from the pages that are free. -/
structure Apartadas (g : Imagem) (s : Nucleo) : Prop where
  estaticas : ∀ i, raiz i < PT_COUNT →
    Aponta (s.page_directory i) (g.page_tables + raiz i * PAGE_SIZE)
  outras : ∀ i, PT_COUNT ≤ raiz i → Presente s i →
    ∃ p < s.pmm.total_paginas, Fora g p ∧ bit s.pmm.bitmap p = true ∧ moldura s i = p * PAGE_SIZE
  distintas : ∀ i j, Presente s i → Presente s j → moldura s i = moldura s j → raiz i = raiz j
  livres : ∀ p < s.pmm.total_paginas, bit s.pmm.bitmap p = false → Fora g p
  total : s.pmm.total_paginas ≤ MAX_PAGINAS

section Tabelas

variable {g : Imagem} {s t : Nucleo} {p i : Nat}

/-- A word of a table is no entry of the directory. -/
theorem Apartadas.nao_no_diretorio (h : Apartadas g s) (hp : Presente s i) {x : Nat}
    (hx : x < 1024) : ¬ NoDiretorio g (moldura s i + 4 * x) := by
  rcases Nat.lt_or_ge (raiz i) PT_COUNT with hr | hr
  · have hm : moldura s i = g.page_tables + raiz i * PAGE_SIZE := (h.estaticas i hr).2
    have haddr : moldura s i + 4 * x = g.page_tables + 4 * (raiz i * 1024 + x) := by
      rw [hm]
      unfold PAGE_SIZE
      omega
    rw [haddr]
    refine (nas_tabelas ?_).1
    unfold PAGINAS_BAIXAS
    omega
  · obtain ⟨p, -, hf, -, hm⟩ := h.outras i hr hp
    rw [hm]
    exact (hf.fora (by omega) (by unfold PAGE_SIZE; omega)).1

/-- A free page holds no table. -/
theorem Apartadas.sem_tabela (h : Apartadas g s) (hp : Presente s i) (hlt : p < s.pmm.total_paginas)
    (hb : bit s.pmm.bitmap p = false) : moldura s i ≠ p * PAGE_SIZE := by
  intro he
  rcases Nat.lt_or_ge (raiz i) PT_COUNT with hr | hr
  · have hm : moldura s i = g.page_tables + raiz i * PAGE_SIZE := (h.estaticas i hr).2
    refine ((h.livres p hlt hb).fora (a := p * PAGE_SIZE) (Nat.le_refl _) ?_).2 ?_
    · unfold PAGE_SIZE
      omega
    · unfold NasTabelas
      unfold PAGE_SIZE at *
      omega
  · obtain ⟨q, -, -, hq, hm⟩ := h.outras i hr hp
    obtain rfl : q = p := by
      unfold PAGE_SIZE at *
      omega
    rw [hb] at hq
    exact absurd hq (by decide)

/-- Two translations that read the same word are of one page. -/
theorem Apartadas.pagina_eq (h : Apartadas g s) {a b : Nat}
    (ha : Presente s (a / (1024 * PAGE_SIZE))) (hb : Presente s (b / (1024 * PAGE_SIZE)))
    (he : endereco s a = endereco s b) : pagina a = pagina b := by
  have hma := toNat_moldura_mod (s.page_directory (a / (1024 * PAGE_SIZE)))
  have hmb := toNat_moldura_mod (s.page_directory (b / (1024 * PAGE_SIZE)))
  have hd := h.distintas _ _ ha hb
  unfold endereco at he
  unfold moldura at hd
  unfold pagina
  have hx : a / PAGE_SIZE % 1024 = b / PAGE_SIZE % 1024 := by
    unfold PAGE_SIZE at *
    omega
  rw [hd (by omega), hx]

/-! ## A new table -/

/-- `t` is `s`, but for words of the page at `n`. -/
structure SoNaPagina (g : Imagem) (n : Nat) (s t : Nucleo) : Prop where
  pmm : t.pmm = s.pmm
  page_directory : t.page_directory = s.page_directory
  palavras : ∀ b, b % 4 = 0 → b < n ∨ n + PAGE_SIZE ≤ b → le g t b = le g s b

/-- The page at `n` is mapped to itself, is no part of the kernel and holds no table. -/
structure PaginaNova (g : Imagem) (s : Nucleo) (n : Nat) : Prop where
  alinhada : n % PAGE_SIZE = 0
  fora : ∀ d < PAGE_SIZE, ¬ NoDiretorio g (n + d) ∧ ¬ NasTabelas g (n + d)
  sem_tabela : ∀ i, Presente s i → moldura s i ≠ n
  identidade : Identidade g s n

variable {n : Nat}

theorem SoNaPagina.refl (s : Nucleo) : SoNaPagina g n s s := ⟨rfl, rfl, fun _ _ _ => rfl⟩

theorem SoNaPagina.trans {u : Nucleo} (h : SoNaPagina g n s t) (h' : SoNaPagina g n t u) :
    SoNaPagina g n s u :=
  ⟨h'.pmm.trans h.pmm, h'.page_directory.trans h.page_directory, fun b hb hn =>
    (h'.palavras b hb hn).trans (h.palavras b hb hn)⟩

/-- The words of a page without a table are in no translation. -/
theorem SoNaPagina.traduz (h : SoNaPagina g n s t) (hn : PaginaNova g s n) (a : Nat) :
    traduz g t a = traduz g s a := by
  refine traduz_congr (by rw [h.page_directory]) fun hp => h.palavras _ (endereco_mod s a) ?_
  have hne := hn.sem_tabela _ hp
  have hm := toNat_moldura_mod (s.page_directory (a / (1024 * PAGE_SIZE)))
  have hal := hn.alinhada
  unfold endereco
  unfold moldura at hne
  unfold PAGE_SIZE at *
  omega

theorem PaginaNova.depois (hn : PaginaNova g s n) (h : SoNaPagina g n s t) : PaginaNova g t n := by
  refine ⟨hn.alinhada, hn.fora, fun i hp => ?_, fun d hd => ?_⟩
  · unfold Presente at hp
    unfold moldura
    rw [h.page_directory] at hp ⊢
    exact hn.sem_tabela i hp
  · rw [h.traduz hn]
    exact hn.identidade d hd

/-- One word of the page. -/
theorem PaginaNova.escreve (hn : PaginaNova g s n) {j : Nat} (hj : j < 1024) (v : UInt32) :
    escreve g s (n + 4 * j) v = some (poe g s (n + 4 * j) v) ∧
      SoNaPagina g n s (poe g s (n + 4 * j) v) := by
  have hd : 4 * j < PAGE_SIZE := by
    unfold PAGE_SIZE
    omega
  have hal := hn.alinhada
  refine ⟨?_, poe_pmm, poe_page_directory (hn.fora _ hd).1, fun b hb hbn => ?_⟩
  · unfold Paging.escreve
    rw [hn.identidade _ hd, Option.map_some]
  · unfold PAGE_SIZE at *
    exact le_poe_ne v (by omega) hb (by omega)

/-- The loop clears the page and does nothing else. -/
theorem PaginaNova.zera (hn : PaginaNova g s n) : ∃ t, zera g s n = some t ∧ SoNaPagina g n s t ∧
    ∀ j < 1024, le g t (n + 4 * j) = 0 := by
  suffices hl : ∀ l : List Nat, (∀ i ∈ l, i < 1024) → ∀ s, PaginaNova g s n →
      ∃ t, l.foldlM (fun s i => Paging.escreve g s (n + 4 * i) 0) s = some t ∧ SoNaPagina g n s t ∧
        ∀ j < 1024, j ∈ l ∨ le g s (n + 4 * j) = 0 → le g t (n + 4 * j) = 0 by
    obtain ⟨t, ht, hso, hz⟩ := hl (List.range 1024) (fun i hi => List.mem_range.mp hi) s hn
    exact ⟨t, ht, hso, fun j hj => hz j hj (Or.inl (List.mem_range.mpr hj))⟩
  intro l
  induction l with
  | nil => exact fun _ s _ => ⟨s, rfl, .refl s, fun j _ h => h.resolve_left List.not_mem_nil⟩
  | cons i l ih =>
    intro hl s hn
    have hi := hl i List.mem_cons_self
    obtain ⟨he, hso⟩ := hn.escreve hi 0
    obtain ⟨t, ht, hso', hz⟩ := ih (fun j hj => hl j (List.mem_cons_of_mem i hj)) _ (hn.depois hso)
    refine ⟨t, ?_, hso.trans hso', fun j hj h => hz j hj ?_⟩
    · rw [List.foldlM_cons, he]
      exact ht
    have hal := hn.alinhada
    by_cases hji : j = i
    · subst hji
      have hf := hn.fora (4 * j) (by unfold PAGE_SIZE; omega)
      exact Or.inr (le_poe_self 0 hf.1 hf.2)
    · refine (h.imp (fun h => (List.mem_cons.mp h).resolve_left hji) fun h => ?_)
      rw [le_poe_ne 0 (by unfold PAGE_SIZE at hal; omega) (by unfold PAGE_SIZE at hal; omega)
        (by omega)]
      exact h

theorem Apartadas.congr (h : Apartadas g s) (hp : t.pmm = s.pmm)
    (hd : t.page_directory = s.page_directory) : Apartadas g t := by
  refine ⟨?_, ?_, ?_, ?_, ?_⟩
  · rw [hd]
    exact h.estaticas
  · unfold Presente moldura
    rw [hd, hp]
    exact h.outras
  · unfold Presente moldura
    rw [hd]
    exact h.distintas
  · rw [hp]
    exact h.livres
  · rw [hp]
    exact h.total

/-- A page that is taken may hold a table. -/
theorem Apartadas.aloca (h : Apartadas g s) :
    Apartadas g { s with pmm := (pmm_alloc s.pmm).2 } := by
  rcases Pmm.pmm_alloc_cases s.pmm with hn | ⟨q, _, _, hs⟩
  · rw [hn]
    exact h
  · rw [hs]
    refine ⟨h.estaticas, fun j hj hp => ?_, h.distintas, fun p hp hb => ?_, h.total⟩
    · obtain ⟨p, hlt, hf, hb, hm⟩ := h.outras j hj hp
      refine ⟨p, hlt, hf, ?_, hm⟩
      dsimp only
      rw [Pmm.bit_setar, bit_setBit, hb, Bool.or_true]
    · dsimp only at hp hb
      rw [Pmm.bit_setar, bit_setBit, Bool.or_eq_false_iff] at hb
      exact h.livres p hp hb.2

/-- The entry of a new table. -/
def entrada_nova (p : Nat) : UInt32 :=
  UInt32.ofNat (p * PAGE_SIZE) ||| PAGE_PRESENTE ||| PAGE_ESCRITA

/-- The state with page `p` as the table of entry `i`. -/
def liga (s : Nucleo) (i p : Nat) : Nucleo :=
  { s with page_directory := Function.update s.page_directory i (entrada_nova p) }

theorem liga_self (s : Nucleo) (i p : Nat) : (liga s i p).page_directory i = entrada_nova p :=
  Function.update_self _ _ _

theorem liga_ne {j : Nat} (h : j ≠ i) : (liga s i p).page_directory j = s.page_directory j :=
  Function.update_of_ne h _ _

theorem Apartadas.aponta_nova (h : Apartadas g s) (hp : p < s.pmm.total_paginas) :
    Aponta (entrada_nova p) (p * PAGE_SIZE) := by
  have ht := h.total
  unfold MAX_PAGINAS at ht
  exact aponta_entrada (by unfold PAGE_SIZE; omega) (by unfold PAGE_SIZE; omega)

/-- The table of a page that is taken and holds none. -/
theorem Apartadas.liga (h : Apartadas g s) (hi : ¬ Presente s i) (hp : p < s.pmm.total_paginas)
    (hf : Fora g p) (hb : bit s.pmm.bitmap p = true)
    (hn : ∀ j, Presente s j → moldura s j ≠ p * PAGE_SIZE) : Apartadas g (liga s i p) := by
  have hri : PT_COUNT ≤ raiz i := by
    by_contra hlt
    exact hi (h.estaticas i (by omega)).1
  have hself : moldura (Paging.liga s i p) i = p * PAGE_SIZE := by
    unfold moldura
    rw [liga_self]
    exact (h.aponta_nova hp).2
  have hpre : ∀ j, j ≠ i → Presente (Paging.liga s i p) j → Presente s j := fun j hj hpj => by
    unfold Presente at hpj
    rw [liga_ne hj] at hpj
    exact hpj
  have hmol : ∀ j, j ≠ i → moldura (Paging.liga s i p) j = moldura s j := fun j hj => by
    unfold moldura
    rw [liga_ne hj]
  refine ⟨fun j hj => ?_, fun j hj hpj => ?_, fun j k hpj hpk he => ?_, h.livres, h.total⟩
  · rw [liga_ne (by rintro rfl; omega)]
    exact h.estaticas j hj
  · by_cases hji : j = i
    · rw [hji]
      exact ⟨p, hp, hf, hb, hself⟩
    · rw [hmol j hji]
      exact h.outras j hj (hpre j hji hpj)
  · by_cases hji : j = i
    · by_cases hki : k = i
      · rw [hji, hki]
      · rw [hji, hself, hmol k hki] at he
        exact absurd he.symm (hn k (hpre k hki hpk))
    · by_cases hki : k = i
      · rw [hki, hself, hmol j hji] at he
        exact absurd he (hn j (hpre j hji hpj))
      · rw [hmol j hji, hmol k hki] at he
        exact h.distintas j k (hpre j hji hpj) (hpre k hki hpk) he

/-- A page that `pmm_alloc` gives, and that is mapped to itself. -/
theorem Apartadas.pagina_nova (h : Apartadas g s) (hp : p < s.pmm.total_paginas)
    (hb : bit s.pmm.bitmap p = false) (hid : Identidade g s (p * PAGE_SIZE)) :
    PaginaNova g s (p * PAGE_SIZE) := by
  refine ⟨Nat.mul_mod_left _ _, fun d hd => ?_, fun i hi => h.sem_tabela hi hp hb, hid⟩
  refine (h.livres p hp hb).fora (Nat.le_add_right _ _) ?_
  rw [Nat.succ_mul]
  omega

/-- An entry of the directory comes to a cleared page: its pages are not mapped, as before. -/
theorem Apartadas.traduz_liga (h : Apartadas g s) (hi : ¬ Presente s i)
    (hp : p < s.pmm.total_paginas) (hn : PaginaNova g s (p * PAGE_SIZE))
    (hz : ∀ j < 1024, le g s (p * PAGE_SIZE + 4 * j) = 0) (a : Nat) :
    traduz g (Paging.liga s i p) a = traduz g s a := by
  have hx : a / PAGE_SIZE % 1024 < 1024 := Nat.mod_lt _ (by decide)
  by_cases ha : a / (1024 * PAGE_SIZE) = i
  · have hap := h.aponta_nova hp
    have hw : le g (Paging.liga s i p) (p * PAGE_SIZE + 4 * (a / PAGE_SIZE % 1024)) = 0 :=
      (le_page_directory _ (hn.fora _ (by unfold PAGE_SIZE; omega)).1).trans (hz _ hx)
    unfold traduz
    dsimp only
    rw [ha, liga_self, if_neg hap.1, hap.2, if_pos (not_not.mp hi), hw]
    rfl
  · exact traduz_congr (liga_ne ha) fun hp => le_page_directory _ (h.nao_no_diretorio hp hx)

/-- A page that is taken is cleared and made the table of an entry. -/
theorem Apartadas.tabela_nova (h : Apartadas g s) (hi : ¬ Presente s i)
    (hp : p < s.pmm.total_paginas) (hf : Fora g p) (hb : bit s.pmm.bitmap p = true)
    (hn : PaginaNova g s (p * PAGE_SIZE)) : ∃ t, zera g s (p * PAGE_SIZE) = some t ∧
      Apartadas g (Paging.liga t i p) ∧ Presente (Paging.liga t i p) i ∧
      Identidade g (Paging.liga t i p) (moldura (Paging.liga t i p) i) ∧
      ∀ a, traduz g (Paging.liga t i p) a = traduz g s a := by
  obtain ⟨t, ht, hso, hz⟩ := hn.zera
  have htd := h.congr hso.pmm hso.page_directory
  have htn := hn.depois hso
  have hti : ¬ Presente t i := by
    unfold Presente at *
    rw [hso.page_directory]
    exact hi
  have htp : p < t.pmm.total_paginas := by
    rw [hso.pmm]
    exact hp
  have hap := htd.aponta_nova htp
  have htt := htd.traduz_liga hti htp htn hz
  refine ⟨t, ht, htd.liga hti htp hf (by rw [hso.pmm, hb]) htn.sem_tabela, ?_, ?_, fun a => ?_⟩
  · unfold Presente
    rw [liga_self]
    exact hap.1
  · have hm : moldura (Paging.liga t i p) i = p * PAGE_SIZE := by
      unfold moldura
      rw [liga_self, hap.2]
    rw [hm]
    intro d hd
    rw [htt]
    exact htn.identidade d hd
  · rw [htt, hso.traduz hn]

theorem garante_presente (h : Presente s i) : garante_tabela g s i = some (true, s) := by
  unfold garante_tabela
  exact if_pos h

theorem garante_sem_pagina (h : ¬ Presente s i) (h0 : (pmm_alloc s.pmm).1 = 0) :
    garante_tabela g s i = some (false, { s with pmm := (pmm_alloc s.pmm).2 }) := by
  unfold Presente at h
  unfold garante_tabela
  rw [if_neg h]
  exact if_pos h0

theorem garante_nova (h : ¬ Presente s i) (ha : (pmm_alloc s.pmm).1 = p * PAGE_SIZE)
    (h0 : p * PAGE_SIZE ≠ 0) : garante_tabela g s i =
      (zera g { s with pmm := (pmm_alloc s.pmm).2 } (p * PAGE_SIZE)).map fun t =>
        (true, Paging.liga t i p) := by
  unfold Presente at h
  unfold garante_tabela
  rw [if_neg h]
  dsimp only
  rw [ha, if_neg h0]
  rfl

/-- The entry of the directory has its table, and no translation has changed. Or no page is left. -/
theorem Apartadas.garante (h : Apartadas g s) (hid : Presente s i → Identidade g s (moldura s i))
    (hnovo : ¬ Presente s i → (pmm_alloc s.pmm).1 ≠ 0 → Identidade g s (pmm_alloc s.pmm).1) :
    (¬ Presente s i ∧ (pmm_alloc s.pmm).1 = 0 ∧
      garante_tabela g s i = some (false, { s with pmm := (pmm_alloc s.pmm).2 })) ∨
    ∃ t, garante_tabela g s i = some (true, t) ∧ Apartadas g t ∧ Presente t i ∧
      Identidade g t (moldura t i) ∧ ∀ a, traduz g t a = traduz g s a := by
  by_cases hp : Presente s i
  · exact Or.inr ⟨s, garante_presente hp, h, hp, hid hp, fun _ => rfl⟩
  by_cases h0 : (pmm_alloc s.pmm).1 = 0
  · exact Or.inl ⟨hp, h0, garante_sem_pagina hp h0⟩
  refine Or.inr ?_
  have hidn := hnovo hp h0
  rcases Pmm.pmm_alloc_cases s.pmm with hn | ⟨p, hlt, hb, hs⟩
  · rw [hn] at h0
    exact absurd rfl h0
  have ha : (pmm_alloc s.pmm).1 = p * PAGE_SIZE := by rw [hs]
  rw [ha] at h0 hidn
  have hnova := h.pagina_nova hlt hb hidn
  have hlt' : p < (pmm_alloc s.pmm).2.total_paginas := by
    rw [hs]
    exact hlt
  have hb' : bit (pmm_alloc s.pmm).2.bitmap p = true := by
    rw [hs]
    dsimp only
    rw [Pmm.bit_setar, bit_setBit]
    simp
  obtain ⟨t, ht, hap, hpt, hit, htr⟩ := h.aloca.tabela_nova hp hlt' (h.livres p hlt hb) hb'
    ⟨hnova.alinhada, hnova.fora, hnova.sem_tabela, hnova.identidade⟩
  exact ⟨_, by rw [garante_nova hp ha h0, ht]; rfl, hap, hpt, hit, htr⟩

/-! ## The calls -/

/-- The table of `virt`: the one that there is, or else the page that is taken for one. -/
def tabela_de (s : Nucleo) (virt : UInt32) : Nat :=
  if s.page_directory (virt >>> 22).toNat &&& PAGE_PRESENTE ≠ 0 then moldura s (virt >>> 22).toNat
  else (pmm_alloc s.pmm).1

/-- There is no table, and no page for one. -/
def SemTabela (s : Nucleo) (virt : UInt32) : Prop :=
  s.page_directory (virt >>> 22).toNat &&& PAGE_PRESENTE = 0 ∧ (pmm_alloc s.pmm).1 = 0

/-- The address lies in the bitmap of the pages. -/
def NoBitmap (g : Imagem) (a : Nat) : Prop := g.end_bitmap ≤ a ∧ a < g.end_bitmap + MAX_PAGINAS / 8

/-- What `paging_mapear` reads and writes is mapped to itself: the directory, the bitmap of the
pages and the table. Pages may be taken in between. -/
def NoLugar (g : Imagem) (s : Nucleo) : Chamada → Prop
  | .paging_mapear virt _ _ => (∀ a, NoDiretorio g a ∨ NoBitmap g a → traduz g s a = some a) ∧
    (¬ SemTabela s virt → Identidade g s (tabela_de s virt))
  | .pmm_alloc => True
  | _ => False

/-- One entry of the tables is written. -/
theorem Apartadas.escreve (h : Apartadas g s) {virt : Nat}
    (hp : Presente s (virt / (1024 * PAGE_SIZE)))
    (hid : Identidade g s (moldura s (virt / (1024 * PAGE_SIZE)))) (v : UInt32) :
    ∃ t, escreve g s (endereco s virt) v = some t ∧ Apartadas g t ∧
      ∀ a, pagina a ≠ pagina virt → traduz g t a = traduz g s a := by
  have hx : virt / PAGE_SIZE % 1024 < 1024 := Nat.mod_lt _ (by decide)
  have hd : ¬ NoDiretorio g (endereco s virt) := h.nao_no_diretorio hp hx
  have ht : Paging.traduz g s (endereco s virt) = some (endereco s virt) :=
    hid _ (by unfold PAGE_SIZE; omega)
  have hpd := poe_page_directory (s := s) (v := v) hd
  refine ⟨poe g s (endereco s virt) v, ?_, h.congr poe_pmm hpd, fun a ha => ?_⟩
  · unfold Paging.escreve
    rw [ht, Option.map_some]
  · refine traduz_congr (by rw [hpd]) fun hpa => ?_
    exact le_poe_ne v (endereco_mod s virt) (endereco_mod s a) fun he => ha (h.pagina_eq hpa hp he)

/-- The table of `virt`, or the page that is taken for one, is mapped to itself. -/
theorem NoLugar.identidades {virt fis flags : UInt32}
    (hc : NoLugar g s (.paging_mapear virt fis flags)) :
    (Presente s (virt >>> 22).toNat → Identidade g s (moldura s (virt >>> 22).toNat)) ∧
      (¬ Presente s (virt >>> 22).toNat → (pmm_alloc s.pmm).1 ≠ 0 →
        Identidade g s (pmm_alloc s.pmm).1) := by
  have htab := hc.2
  unfold tabela_de at htab
  constructor
  · intro hp
    unfold Presente at hp
    rw [if_pos hp] at htab
    exact htab fun hs => hp hs.1
  · intro hp h0
    unfold Presente at hp
    rw [if_neg hp] at htab
    exact htab fun hs => h0 hs.2

/-- `paging_mapear` returns, and changes one page, or none. -/
theorem Apartadas.mapear (h : Apartadas g s) {virt fis flags : UInt32}
    (hc : NoLugar g s (.paging_mapear virt fis flags)) :
    ∃ t, paging_mapear g s virt fis flags = some t ∧ Apartadas g t ∧
      (∀ a, pagina a ≠ pagina virt.toNat → traduz g t a = traduz g s a) ∧
      (SemTabela s virt → ∀ a, traduz g t a = traduz g s a) := by
  obtain ⟨h22, -, h10⟩ := toNat_indices virt
  obtain ⟨hid, hnovo⟩ := hc.identidades
  unfold paging_mapear
  dsimp only
  rcases h.garante hid hnovo with ⟨-, -, he⟩ | ⟨s1, he, h1, hp1, hid1, htr1⟩
  · rw [he]
    exact ⟨_, rfl, h.aloca, fun _ _ => rfl, fun _ _ => rfl⟩
  · rw [h22] at hp1 hid1
    obtain ⟨t, ht, hat, htt⟩ := h1.escreve hp1 hid1
      ((fis &&& ~~~0xFFF) ||| (flags &&& 0xFFF) ||| PAGE_PRESENTE)
    unfold endereco at ht
    refine ⟨t, ?_, hat, fun a ha => (htt a ha).trans (htr1 a), fun hs => ?_⟩
    · rw [he, Option.bind_some]
      dsimp only
      rw [if_pos rfl, h22, h10]
      exact ht
    · have hn := garante_sem_pagina (g := g) (not_not.mpr hs.1) hs.2
      rw [he] at hn
      exact absurd (Option.some.inj hn) (by simp)

/-- The tables at the start of a run. -/
theorem Boot.apartadas {mem : Memory} {mboot : Nat} (h : Boot g mem mboot s) : Apartadas g s := by
  have hi := h.intacto
  have hest : ∀ i, raiz i < PT_COUNT →
      Aponta (s.page_directory i) (g.page_tables + raiz i * PAGE_SIZE) := fun i hr => by
    unfold raiz at hr ⊢
    by_cases hk : i = PD_KERNEL
    · rw [hk, if_pos rfl, Nat.zero_mul]
      exact hi.kernel
    · rw [if_neg hk] at hr ⊢
      exact hi.baixas i hr
  obtain ⟨pmm, m, hp, rfl⟩ := h
  have hpre : ∀ i, Presente (paging_init g ⟨pmm, ⟨m, [], 0⟩, fun _ => 0, fun _ => 0⟩) i →
      raiz i < PT_COUNT := fun i hpi => by
    by_contra hr
    unfold raiz at hr
    refine hpi ?_
    change (if i = PD_KERNEL then _ else if i < PT_COUNT then _ else _) &&& PAGE_PRESENTE = 0
    by_cases hk : i = PD_KERNEL
    · rw [if_pos hk] at hr
      exact absurd (by decide) hr
    · rw [if_neg hk] at hr
      rw [if_neg hk, if_neg hr]
      rfl
  refine ⟨hest, fun i hr hpi => absurd (hpre i hpi) (by omega), fun i j hpi hpj he => ?_,
    hi.livres, ?_⟩
  · unfold moldura at he
    rw [(hest i (hpre i hpi)).2, (hest j (hpre j hpj)).2] at he
    unfold PAGE_SIZE at he
    omega
  · rw [show Nucleo.pmm (paging_init g ⟨pmm, ⟨m, [], 0⟩, fun _ => 0, fun _ => 0⟩) = pmm from rfl,
      (Pmm.pmm_init_spec hp).1]
    exact Pmm.contar_paginas_le mem mboot

theorem Corrida.apartadas {mem : Memory} {mboot : Nat} (h : Corrida (NoLugar g) g mem mboot s) :
    Apartadas g s := by
  induction h with
  | inicio h => exact h.apartadas
  | passo _ hc hp ih =>
    cases hp with
    | slab_criar => exact hc.elim
    | slab_alloc => exact hc.elim
    | paging_mapear hm =>
      obtain ⟨t, ht, hat, -⟩ := ih.mapear hc
      rw [hm] at ht
      obtain rfl := Option.some.inj ht
      exact hat
    | pmm_alloc => exact ih.aloca
    | escrita => exact hc.elim

/-! ## The law -/

/-- While the tables are as at boot, `paging_mapear` finds what it goes through in its place. -/
theorem Intacto.noLugar (h : Intacto g s) {virt fis flags : UInt32}
    (hb : g.end_bitmap + MAX_PAGINAS / 8 ≤ PAGINAS_BAIXAS * PAGE_SIZE)
    (hv : (virt >>> 22).toNat < PT_COUNT) : NoLugar g s (.paging_mapear virt fis flags) := by
  have hfim := g.fim_le
  have hd := g.diretorio_dentro
  have ht := g.tabelas_dentro
  have htab : tabela_de s virt = g.page_tables + (virt >>> 22).toNat * PAGE_SIZE := by
    unfold tabela_de
    rw [if_pos (h.baixas _ hv).1]
    exact (h.baixas _ hv).2
  refine ⟨fun a ha => h.traduz ?_, fun _ d hd => h.traduz ?_⟩
  · unfold NoDiretorio NoBitmap at ha
    unfold PAGINAS_BAIXAS at *
    omega
  · rw [htab]
    unfold PAGINAS_BAIXAS PT_COUNT PAGE_SIZE at *
    omega

/-- A page from `0xC0000000` on is found in the first table. -/
theorem traduz_kernel {n fis : Nat} (hd : Aponta (s.page_directory PD_KERNEL) g.page_tables)
    (hn : n < 1024) (he : Aponta (s.page_tables n) fis) :
    traduz g s (PD_KERNEL * (1024 * PAGE_SIZE) + n * PAGE_SIZE) = some fis := by
  have hi : (PD_KERNEL * (1024 * PAGE_SIZE) + n * PAGE_SIZE) / (1024 * PAGE_SIZE) = PD_KERNEL := by
    unfold PD_KERNEL PAGE_SIZE
    omega
  have hx : (PD_KERNEL * (1024 * PAGE_SIZE) + n * PAGE_SIZE) / PAGE_SIZE % 1024 = n := by
    unfold PD_KERNEL PAGE_SIZE
    omega
  have h0 : (PD_KERNEL * (1024 * PAGE_SIZE) + n * PAGE_SIZE) % PAGE_SIZE = 0 := by
    unfold PD_KERNEL PAGE_SIZE
    omega
  unfold traduz
  dsimp only
  rw [hi, hx, if_neg hd.1, hd.2, le_tabela (by unfold PAGINAS_BAIXAS PT_COUNT; omega), if_neg he.1,
    he.2, h0]
  rfl

/-- A call for a page below 64 MB, while its tables are as at boot. -/
theorem Intacto.mapear_baixa (h : Intacto g s) {virt fis flags : UInt32}
    (hv : (virt >>> 22).toNat < PT_COUNT) : paging_mapear g s virt fis flags = some { s with
      page_tables := Function.update s.page_tables (virt >>> 12).toNat
        ((fis &&& ~~~0xFFF) ||| (flags &&& 0xFFF) ||| PAGE_PRESENTE) } := by
  obtain ⟨h22, h12, h10⟩ := toNat_indices virt
  have hfim := g.fim_le
  have ht := g.tabelas_dentro
  have hn : (virt >>> 12).toNat < PAGINAS_BAIXAS := by
    unfold PAGINAS_BAIXAS PT_COUNT PAGE_SIZE at *
    omega
  obtain ⟨hnd, hnt⟩ := nas_tabelas (g := g) hn
  have haddr : (s.page_directory (virt >>> 22).toNat &&& ~~~0xFFF).toNat +
      4 * ((virt >>> 12) &&& 0x3FF).toNat = g.page_tables + 4 * (virt >>> 12).toNat := by
    rw [(h.baixas _ hv).2]
    unfold PAGE_SIZE at *
    omega
  unfold paging_mapear
  dsimp only
  rw [garante_presente (h.baixas _ hv).1, Option.bind_some]
  dsimp only
  rw [if_pos rfl, haddr]
  unfold Paging.escreve
  rw [h.traduz (by unfold PAGINAS_BAIXAS PT_COUNT PAGE_SIZE at *; omega), Option.map_some]
  unfold poe
  rw [if_neg hnd, if_pos hnt, indice]

/-- A page below 4 MB comes to its new place from `0xC0000000` on too. -/
theorem Intacto.mapear_kernel (h : Intacto g s) (virt fis flags : UInt32)
    (hn : (virt >>> 12).toNat < 1024) : ∃ t, paging_mapear g s virt fis flags = some t ∧
      Paging.traduz g t (PD_KERNEL * (1024 * PAGE_SIZE) + (virt >>> 12).toNat * PAGE_SIZE) =
        some (fis.toNat / 4096 * 4096) := by
  obtain ⟨h22, h12, -⟩ := toNat_indices virt
  refine ⟨_, h.mapear_baixa ?_, traduz_kernel h.kernel hn ?_⟩
  · unfold PT_COUNT PAGE_SIZE at *
    omega
  · dsimp only
    rw [Function.update_self]
    exact aponta_mapeada fis flags

end Tabelas

end SpaceOS.Paging
