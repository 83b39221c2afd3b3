-- The pages that `slab_novo` and `paging_mapear` take against the page tables: in which runs each of
-- them is mapped to itself when it is taken.
import SpaceOS.Paging
import SpaceOS.PmmCount
import SpaceOS.Lib.Words

open Lib.Bytes Lib.Bitmap

namespace SpaceOS.Paging

open SpaceOS.Pmm ( PAGE_SIZE Mapa pmm_alloc pmm_init bit_checar)

/-! ## Entries -/

/-- The entry is present, and its frame lies at `fis`. -/
def Aponta (e : UInt32) (fis : Nat) : Prop :=
  e &&& PAGE_PRESENTE ≠ 0 ∧ (e &&& ~~~0xFFF).toNat = fis

section Entradas

variable {e : UInt32} {fis : Nat}

/-- An entry without its flags. -/
theorem toNat_moldura (e : UInt32) : (e &&& ~~~0xFFF).toNat = e.toNat / 4096 * 4096 := by
  have he := e.toNat_lt
  have hm : (~~~(0xFFF : UInt32)).toNat = (2 ^ 20 - 1) <<< 12 := rfl
  rw [UInt32.toNat_and, hm, Lib.Words.and_mask_shiftLeft]
  omega

theorem toNat_bit_zero (e : UInt32) : (e &&& PAGE_PRESENTE).toNat = e.toNat % 2 :=
  Lib.Words.toNat_and_low e PAGE_PRESENTE (n := 1) rfl

/-- A frame and flags that are odd. -/
theorem aponta_iff : Aponta e fis ↔ e.toNat % 2 = 1 ∧ e.toNat / 4096 * 4096 = fis := by
  unfold Aponta
  rw [toNat_moldura, Ne, ← UInt32.toNat_inj, toNat_bit_zero]
  change ¬ e.toNat % 2 = 0 ∧ _ ↔ _
  omega

/-- An entry of the directory, or one that `paging_init` makes. -/
theorem aponta_entrada (ha : fis % 4096 = 0) (hlt : fis < 2 ^ 32) :
    Aponta (UInt32.ofNat fis ||| PAGE_PRESENTE ||| PAGE_ESCRITA) fis := by
  have h3 : (PAGE_PRESENTE ||| PAGE_ESCRITA).toNat = 3 := rfl
  have hor := Lib.Words.or_mul_pow (n := 12) (fis / 2 ^ 12) (show 3 < 2 ^ 12 by decide)
  have hfis : fis / 2 ^ 12 * 2 ^ 12 = fis := by omega
  rw [aponta_iff, UInt32.or_assoc, UInt32.toNat_or, h3, UInt32.toNat_ofNat', Nat.mod_eq_of_lt hlt,
    Nat.or_comm, ← hfis, hor]
  omega

/-- An entry that `paging_mapear` makes. -/
theorem aponta_mapeada (fis flags : UInt32) :
    Aponta ((fis &&& ~~~0xFFF) ||| (flags &&& 0xFFF) ||| PAGE_PRESENTE)
      (fis.toNat / 4096 * 4096) := by
  have hf : (flags &&& 0xFFF).toNat < 2 ^ 12 := by
    rw [Lib.Words.toNat_and_low flags 0xFFF (n := 12) rfl]
    omega
  have hlow : (flags &&& 0xFFF).toNat ||| 1 < 2 ^ 12 := Nat.or_lt_two_pow hf (by decide)
  have hodd : ((flags &&& 0xFFF).toNat ||| 1) % 2 = 1 := by
    exact Nat.or_mod_two_eq_one.mpr (Or.inr rfl)
  have hor := Lib.Words.or_mul_pow (fis.toNat / 2 ^ 12) hlow
  have hone : PAGE_PRESENTE.toNat = 1 := rfl
  rw [aponta_iff, UInt32.toNat_or, UInt32.toNat_or, toNat_moldura, hone, Nat.or_assoc, Nat.or_comm,
    show 4096 = 2 ^ 12 from rfl, hor]
  omega

end Entradas

/-! ## The identity map -/

/-- Page `p` lies outside the kernel. -/
def Fora (g : Imagem) (p : Nat) : Prop := (p + 1) * PAGE_SIZE ≤ 0x100000 ∨ g.fim ≤ p * PAGE_SIZE

/-- The number of pages that `paging_init` maps. -/
def PAGINAS_BAIXAS : Nat := PT_COUNT * 1024

/-- The tables as `paging_init` leaves them, with further ones below 64 MB, and outside the kernel
as the pages that are free. -/
structure Intacto (g : Imagem) (s : Nucleo) : Prop where
  baixas : ∀ i < PT_COUNT, Aponta (s.page_directory i) (g.page_tables + i * PAGE_SIZE)
  kernel : Aponta (s.page_directory PD_KERNEL) g.page_tables
  outras : ∀ i, PT_COUNT ≤ i → i ≠ PD_KERNEL → s.page_directory i &&& PAGE_PRESENTE = 0 ∨
    ∃ p < PAGINAS_BAIXAS, Fora g p ∧ Aponta (s.page_directory i) (p * PAGE_SIZE)
  identidade : ∀ n < PAGINAS_BAIXAS, Aponta (s.page_tables n) (n * PAGE_SIZE)
  livres : ∀ p < s.pmm.total_paginas, bit s.pmm.bitmap p = false → Fora g p

section Tabelas

variable {g : Imagem} {s s' : Nucleo} {p : Nat}

theorem nas_tabelas {n : Nat} (hn : n < PAGINAS_BAIXAS) :
    ¬ NoDiretorio g (g.page_tables + 4 * n) ∧ NasTabelas g (g.page_tables + 4 * n) := by
  have hap := g.apartados
  unfold PAGINAS_BAIXAS PT_COUNT at hn
  unfold PT_COUNT PAGE_SIZE at hap
  unfold NoDiretorio NasTabelas PT_COUNT PAGE_SIZE
  omega

theorem indice (n : Nat) : (g.page_tables + 4 * n - g.page_tables) / 4 = n := by omega

/-- A word of a static table. -/
theorem le_tabela {n : Nat} (hn : n < PAGINAS_BAIXAS) :
    le g s (g.page_tables + 4 * n) = s.page_tables n := by
  obtain ⟨hd, ht⟩ := nas_tabelas (g := g) hn
  unfold le
  rw [if_neg hd, if_pos ht, indice]

/-- Below 64 MB an address is its own. -/
theorem Intacto.traduz (h : Intacto g s) {a : Nat} (ha : a < PAGINAS_BAIXAS * PAGE_SIZE) :
    traduz g s a = some a := by
  unfold PAGINAS_BAIXAS PT_COUNT PAGE_SIZE at ha
  have hi : a / (1024 * PAGE_SIZE) < PT_COUNT := by
    unfold PT_COUNT PAGE_SIZE
    omega
  obtain ⟨hd, hmold⟩ := h.baixas _ hi
  have hn : a / PAGE_SIZE < PAGINAS_BAIXAS := by
    unfold PAGINAS_BAIXAS PT_COUNT PAGE_SIZE
    omega
  obtain ⟨hp, hpagina⟩ := h.identidade _ hn
  have haddr : g.page_tables + a / (1024 * PAGE_SIZE) * PAGE_SIZE + 4 * (a / PAGE_SIZE % 1024) =
      g.page_tables + 4 * (a / PAGE_SIZE) := by
    unfold PAGE_SIZE
    omega
  unfold Paging.traduz
  dsimp only
  rw [if_neg hd, hmold, haddr, le_tabela hn, if_neg hp, hpagina]
  unfold PAGE_SIZE
  congr 1
  omega

theorem Intacto.pagina (h : Intacto g s) (hp : p < PAGINAS_BAIXAS) :
    Identidade g s (p * PAGE_SIZE) := by
  intro d hd
  unfold PAGE_SIZE at hd
  exact h.traduz (by unfold PAGE_SIZE; omega)

/-- An address of a page outside the kernel lies in neither array. -/
theorem Fora.fora (h : Fora g p) {a : Nat} (h1 : p * PAGE_SIZE ≤ a) (h2 : a < (p + 1) * PAGE_SIZE) :
    ¬ NoDiretorio g a ∧ ¬ NasTabelas g a := by
  obtain ⟨hd1, hd2⟩ := g.diretorio_dentro
  obtain ⟨ht1, ht2⟩ := g.tabelas_dentro
  unfold NoDiretorio NasTabelas
  unfold Fora at h
  omega

/-- What is written into the memory outside the arrays changes nothing else. -/
theorem poe_fora {a : Nat} (v : UInt32) (h : ¬ NoDiretorio g a ∧ ¬ NasTabelas g a) :
    poe g s a v = { s with slab := { s.slab with mem := putWord s.slab.mem a v.toNat } } := by
  unfold poe
  rw [if_neg h.1, if_neg h.2]

theorem Intacto.com_mem (h : Intacto g s) (slab : Slab.Kernel) :
    Intacto g { s with slab := slab } :=
  ⟨h.baixas, h.kernel, h.outras, h.identidade, h.livres⟩

/-- A write to a page outside the kernel. -/
theorem Intacto.escreve (h : Intacto g s) (hp : p < PAGINAS_BAIXAS) (hf : Fora g p) {d : Nat}
    (hd : d < PAGE_SIZE) (v : UInt32) : ∃ m, escreve g s (p * PAGE_SIZE + d) v =
      some { s with slab := { s.slab with mem := m } } := by
  refine ⟨putWord s.slab.mem (p * PAGE_SIZE + d) v.toNat, ?_⟩
  unfold Paging.escreve
  rw [h.pagina hp d hd, Option.map_some, poe_fora v (hf.fora (by omega) (by rw [Nat.succ_mul]; omega))]

/-- The loop that clears a new table writes to its page. -/
theorem Intacto.zera (h : Intacto g s) (hp : p < PAGINAS_BAIXAS) (hf : Fora g p) :
    ∃ m, zera g s (p * PAGE_SIZE) = some { s with slab := { s.slab with mem := m } } := by
  unfold Paging.zera
  have hl : ∀ i ∈ List.range 1024, i < 1024 := fun i hi => List.mem_range.mp hi
  generalize List.range 1024 = l at hl
  induction l generalizing s with
  | nil => exact ⟨s.slab.mem, rfl⟩
  | cons i l ih =>
    have hi := hl i List.mem_cons_self
    obtain ⟨m, hm⟩ := h.escreve hp hf (d := 4 * i) (by unfold PAGE_SIZE; omega) 0
    obtain ⟨m', hm'⟩ := ih (h.com_mem { s.slab with mem := m }) fun j hj =>
      hl j (List.mem_cons_of_mem i hj)
    refine ⟨m', ?_⟩
    rw [List.foldlM_cons, hm]
    exact hm'

/-- The tables at the start of a run. -/
theorem Boot.intacto {mem : Memory} {mboot : Nat} (h : Boot g mem mboot s) : Intacto g s := by
  obtain ⟨pmm, m, hp, rfl⟩ := h
  have hfim := g.fim_le
  obtain ⟨ht1, ht2⟩ := g.tabelas_dentro
  have hal := g.tabelas_alinhadas
  obtain ⟨hd1, hd2⟩ := g.diretorio_dentro
  unfold PT_COUNT PAGE_SIZE at *
  refine ⟨fun i hi => ?_, ?_, fun i h16 hk => ?_, fun n hn => ?_, fun p hpt hb => ?_⟩
  · change Aponta (if i = PD_KERNEL then _ else if i < PT_COUNT then _ else _) _
    unfold PT_COUNT at *
    rw [if_neg (by unfold PD_KERNEL; omega), if_pos hi]
    exact aponta_entrada (by unfold PAGE_SIZE; omega) (by unfold PAGE_SIZE; omega)
  · exact aponta_entrada (by omega) (by omega)
  · refine Or.inl ?_
    change (if i = PD_KERNEL then _ else if i < PT_COUNT then _ else _) &&& PAGE_PRESENTE = 0
    unfold PT_COUNT at *
    rw [if_neg hk, if_neg (by omega)]
    rfl
  · unfold PAGINAS_BAIXAS PT_COUNT at hn
    exact aponta_entrada (by unfold PAGE_SIZE; omega) (by unfold PAGE_SIZE; omega)
  · have hl := ((Pmm.pmm_init_spec hp).2 p hpt).mp hb
    have hr := hl.2.2
    unfold Pmm.Reservada PAGE_SIZE at hr
    unfold Fora PAGE_SIZE
    omega

/-! ## The calls -/

/-- A page below 64 MB is free, or no page is. -/
def HaBaixa (s : Mapa) : Prop :=
  (∃ p < PAGINAS_BAIXAS, p < s.total_paginas ∧ bit_checar s.bitmap p = false) ∨
    ∀ p < s.total_paginas, bit_checar s.bitmap p = true

/-- `pmm_alloc` fails, or takes a free page below 64 MB. -/
theorem HaBaixa.alloc {t : Mapa} (h : HaBaixa t) : (pmm_alloc t).1 = 0 ∨
    ∃ p < PAGINAS_BAIXAS, p < t.total_paginas ∧ bit t.bitmap p = false ∧
      (pmm_alloc t).1 = p * PAGE_SIZE := by
  simp only [HaBaixa, Pmm.bit_checar_eq] at h
  by_cases hcheio : ∀ i < t.total_paginas, bit t.bitmap i = true
  · rw [Pmm.pmm_alloc_cheio hcheio]
    exact Or.inl rfl
  · obtain ⟨q, hq, hqt, hqb⟩ := h.resolve_right hcheio
    obtain ⟨i, hi, hb, hmenor, hs⟩ := Pmm.pmm_alloc_livre hcheio
    have hle : i ≤ q := by
      by_contra hlt
      rw [hmenor q (by omega)] at hqb
      exact absurd hqb (by decide)
    exact Or.inr ⟨i, by omega, hi, hb, by rw [hs]⟩

theorem Intacto.aloca (h : Intacto g s) : Intacto g { s with pmm := (pmm_alloc s.pmm).2 } := by
  refine ⟨h.baixas, h.kernel, h.outras, h.identidade, fun p hp hb => ?_⟩
  dsimp only at hp hb
  rcases Pmm.pmm_alloc_cases s.pmm with hn | ⟨i, _, _, hs⟩
  · rw [hn] at hp hb
    exact h.livres p hp hb
  · rw [hs] at hp hb
    dsimp only at hp hb
    rw [Pmm.bit_setar, bit_setBit, Bool.or_eq_false_iff] at hb
    exact h.livres p hp hb.2

/-- The entry of the directory has its table, or there is no page for one. -/
theorem Intacto.garante (h : Intacto g s) {i : Nat}
    (hb : s.page_directory i &&& PAGE_PRESENTE = 0 → HaBaixa s.pmm) :
    ∃ ha_tabela s', garante_tabela g s i = some (ha_tabela, s') ∧ Intacto g s' ∧
      (ha_tabela = true → s'.page_directory i &&& PAGE_PRESENTE ≠ 0) := by
  unfold garante_tabela
  by_cases hp : s.page_directory i &&& PAGE_PRESENTE ≠ 0
  · rw [if_pos hp]
    exact ⟨true, s, rfl, h, fun _ => hp⟩
  rw [if_neg hp]
  dsimp only
  by_cases h0 : (pmm_alloc s.pmm).1 = 0
  · rw [if_pos h0]
    exact ⟨false, _, rfl, h.aloca, fun hf => absurd hf (by decide)⟩
  rw [if_neg h0]
  obtain ⟨p, hpb, hpt, hlivre, ha⟩ := (hb (not_not.mp hp)).alloc.resolve_left h0
  have hfora := h.livres p hpt hlivre
  obtain ⟨m, hm⟩ := h.aloca.zera hpb hfora
  have hentrada : Aponta (UInt32.ofNat (p * PAGE_SIZE) ||| PAGE_PRESENTE ||| PAGE_ESCRITA)
      (p * PAGE_SIZE) := by
    unfold PAGINAS_BAIXAS PT_COUNT at hpb
    exact aponta_entrada (by unfold PAGE_SIZE; omega) (by unfold PAGE_SIZE; omega)
  have hi : PT_COUNT ≤ i := by
    by_contra hlt
    exact hp (h.baixas i (by omega)).1
  have hk : i ≠ PD_KERNEL := by
    rintro rfl
    exact hp h.kernel.1
  rw [ha, hm]
  refine ⟨true, _, rfl, ⟨fun j hj => ?_, ?_, fun j hj hjk => ?_, h.identidade, h.aloca.livres⟩, ?_⟩
  · dsimp only
    rw [Function.update_of_ne (by omega)]
    exact h.baixas j hj
  · dsimp only
    rw [Function.update_of_ne (Ne.symm hk)]
    exact h.kernel
  · dsimp only
    by_cases hji : j = i
    · rw [hji, Function.update_self]
      exact Or.inr ⟨p, hpb, hfora, hentrada⟩
    · rw [Function.update_of_ne hji]
      exact h.outras j hj hjk
  · intro _
    dsimp only
    rw [Function.update_self]
    exact hentrada.1

/-- An entry of a static table, written again with its own frame. -/
theorem Intacto.reescreve (h : Intacto g s) {n : Nat} (hn : n < PAGINAS_BAIXAS) {e : UInt32}
    (he : Aponta e (n * PAGE_SIZE)) :
    ∃ s', Paging.escreve g s (g.page_tables + 4 * n) e = some s' ∧ Intacto g s' := by
  have hfim := g.fim_le
  obtain ⟨_, ht2⟩ := g.tabelas_dentro
  obtain ⟨hd, ht⟩ := nas_tabelas (g := g) hn
  have haddr : g.page_tables + 4 * n < PAGINAS_BAIXAS * PAGE_SIZE := by
    unfold PAGINAS_BAIXAS PT_COUNT PAGE_SIZE at *
    omega
  unfold Paging.escreve
  rw [h.traduz haddr, Option.map_some]
  refine ⟨_, rfl, ?_⟩
  unfold poe
  rw [if_neg hd, if_pos ht, indice]
  refine ⟨h.baixas, h.kernel, h.outras, fun m hm => ?_, h.livres⟩
  dsimp only
  by_cases hmn : m = n
  · rw [hmn, Function.update_self]
    exact he
  · rw [Function.update_of_ne hmn]
    exact h.identidade m hm

/-- The entry of the static tables in which `virt` is mapped, also by way of `0xC0000000`. -/
def entrada_estatica (virt : UInt32) : Option Nat :=
  if (virt >>> 22).toNat < PT_COUNT then some (virt >>> 12).toNat
  else if (virt >>> 22).toNat = PD_KERNEL then some ((virt >>> 12) &&& 0x3FF).toNat
  else none

/-- An entry of the static tables is written with its own page. -/
def Inofensiva : Chamada → Prop
  | .paging_mapear virt fis _ => ∀ n, entrada_estatica virt = some n → (fis >>> 12).toNat = n
  | _ => True

/-- Where a page is asked for one below 64 MB is free, or none at all, and no address below 64 MB is
mapped to another. -/
def Regular (s : Nucleo) (c : Chamada) : Prop := (Pede s c → HaBaixa s.pmm) ∧ Inofensiva c

theorem toNat_indices (virt : UInt32) : (virt >>> 22).toNat = virt.toNat / (1024 * PAGE_SIZE) ∧
    (virt >>> 12).toNat = virt.toNat / PAGE_SIZE ∧
    ((virt >>> 12) &&& 0x3FF).toNat = virt.toNat / PAGE_SIZE % 1024 := by
  have h12 : (virt >>> 12).toNat = virt.toNat / PAGE_SIZE :=
    Lib.Words.toNat_shr virt 12 (by decide)
  refine ⟨Lib.Words.toNat_shr virt 22 (by decide), h12, ?_⟩
  rw [Lib.Words.toNat_and_low (virt >>> 12) 0x3FF (n := 10) rfl, h12]
  rfl

/-- `paging_mapear` returns, and keeps the tables. -/
theorem Intacto.mapear (h : Intacto g s) {virt fis flags : UInt32}
    (hr : Regular s (.paging_mapear virt fis flags)) :
    ∃ s', paging_mapear g s virt fis flags = some s' ∧ Intacto g s' := by
  obtain ⟨ha_tabela, t, ht, hit, htab⟩ := h.garante hr.1
  obtain ⟨h22, h12, h10⟩ := toNat_indices virt
  have hfis := (toNat_indices fis).2.1
  have hentrada := aponta_mapeada fis flags
  unfold paging_mapear
  dsimp only
  rw [ht, Option.bind_some]
  dsimp only
  cases ha_tabela with
  | false => exact ⟨t, rfl, hit⟩
  | true =>
    rw [if_pos rfl]
    have hn := hr.2
    unfold Inofensiva entrada_estatica at hn
    by_cases hb : (virt >>> 22).toNat < PT_COUNT
    · rw [(hit.baixas _ hb).2]
      have hown := hn _ (if_pos hb)
      have hlt : (virt >>> 12).toNat < PAGINAS_BAIXAS := by
        unfold PAGINAS_BAIXAS PT_COUNT PAGE_SIZE at *
        omega
      have haddr : g.page_tables + (virt >>> 22).toNat * PAGE_SIZE +
          4 * ((virt >>> 12) &&& 0x3FF).toNat = g.page_tables + 4 * (virt >>> 12).toNat := by
        unfold PAGE_SIZE at *
        omega
      rw [haddr]
      refine hit.reescreve hlt ?_
      rw [← hown, hfis]
      exact hentrada
    by_cases hk : (virt >>> 22).toNat = PD_KERNEL
    · rw [hk, hit.kernel.2]
      have hown := hn _ ((if_neg hb).trans (if_pos hk))
      refine hit.reescreve (by unfold PAGINAS_BAIXAS PT_COUNT; omega) ?_
      rw [← hown, hfis]
      exact hentrada
    · obtain ⟨p, hp, hf, hap⟩ := (hit.outras _ (by omega) hk).resolve_left (htab rfl)
      rw [hap.2]
      obtain ⟨m, hm⟩ := hit.escreve hp hf (d := 4 * ((virt >>> 12) &&& 0x3FF).toNat)
        (by unfold PAGE_SIZE; omega)
        ((fis &&& ~~~0xFFF) ||| (flags &&& 0xFFF) ||| PAGE_PRESENTE)
      exact ⟨_, hm, hit.com_mem _⟩

theorem Intacto.com_slab (h : Intacto g s) (slab : Slab.Kernel) : Intacto g (com_slab s slab) := by
  unfold Paging.com_slab
  split
  · exact h.com_mem slab
  · exact h.aloca.com_mem slab

/-- A call keeps the tables. -/
theorem Intacto.passo (h : Intacto g s) {c : Chamada} (hr : Regular s c) (hp : Passo g s c s') :
    Intacto g s' := by
  cases hp with
  | slab_criar => exact h.com_slab _
  | slab_alloc => exact h.com_slab _
  | paging_mapear hm =>
    obtain ⟨t, ht, hit⟩ := h.mapear hr
    rw [hm] at ht
    obtain rfl := Option.some.inj ht
    exact hit
  | pmm_alloc => exact h.aloca
  | escrita mem => exact h.com_mem _

theorem Corrida.intacto {mem : Memory} {mboot : Nat} (h : Corrida Regular g mem mboot s) :
    Intacto g s := by
  induction h with
  | inicio h => exact h.intacto
  | passo _ hr hp ih => exact ih.passo hr hp

/-! ## The law -/

/-- In every run in which no address below 64 MB is mapped to another, and a page below 64 MB is free
whenever a slab or a table is to be made, each page that is taken for one is mapped to itself. -/
theorem each_page_taken_is_mapped_to_itself {mem : Memory} {mboot : Nat} {c : Chamada}
    (h : Corrida Regular g mem mboot s) (hr : Regular s c) (hp : Pede s c)
    (ha : (pmm_alloc s.pmm).1 ≠ 0) : Identidade g s (pmm_alloc s.pmm).1 := by
  obtain ⟨p, hpb, -, -, he⟩ := (hr.1 hp).alloc.resolve_left ha
  rw [he]
  exact h.intacto.pagina hpb

/-- A kernel that ends at 2 MB. -/
def imagem_2mb : Imagem :=
  ⟨0x200000, 0x1A0000, 0x1A8000, 0x1B0000, by decide, by decide, by decide, by decide, by decide,
    by decide⟩

/-- With 128 MB, the pages from 3 MB on are free. -/
theorem livre_boot_128mb {p : Nat} (h1 : 0x300 ≤ p) (h2 : p < 0x7FE0) :
    Pmm.LivreNoBoot Pmm.boot_128mb 0x10000 0x200000 0x1A0000 p := by
  have hc : Pmm.contar_paginas Pmm.boot_128mb 0x10000 = 0x8000 := by decide
  refine ⟨by omega, ⟨_, Pmm.regioes_boot_128mb, _, List.mem_cons_self, ?_, ?_⟩, ?_⟩
  · change 0x100 ≤ p
    omega
  · exact h2
  · unfold Pmm.Reservada Pmm.MAX_PAGINAS PAGE_SIZE
    omega

/-- The kernel on this machine. -/
theorem boot_128mb : ∃ s, Boot imagem_2mb Pmm.boot_128mb 0x10000 s ∧
    s.page_directory PT_COUNT = 0x00000002 ∧
    (0 < s.pmm.total_paginas → bit s.pmm.bitmap 0 = true) ∧
    ∀ p, 0x300 ≤ p → p < 0x7FE0 → p < s.pmm.total_paginas ∧ bit s.pmm.bitmap p = false := by
  obtain ⟨pmm, hpmm⟩ := Pmm.pmm_init_isSome Pmm.regioes_boot_128mb 0x200000 0x1A0000
  refine ⟨_, ⟨pmm, fun _ => 0, hpmm, rfl⟩, rfl, Pmm.pagina_zero_reservada hpmm, fun p h1 h2 => ?_⟩
  obtain ⟨htot, hb⟩ := Pmm.pmm_init_spec hpmm
  have hl := livre_boot_128mb h1 h2
  have hlt : p < pmm.total_paginas := by
    rw [htot]
    exact hl.1
  exact ⟨hlt, (hb p hlt).mpr hl⟩

/-- The first slab after the boot lies in a page that is mapped to itself. -/
theorem the_first_page_taken_is_mapped_to_itself : ∃ s, Boot imagem_2mb Pmm.boot_128mb 0x10000 s ∧
    Identidade imagem_2mb s (pmm_alloc s.pmm).1 := by
  obtain ⟨s, hs, -, hzero, hlivres⟩ := boot_128mb
  obtain ⟨hlt, hb⟩ := hlivres 0x300 (by decide) (by decide)
  have hbaixa : HaBaixa s.pmm := Or.inl ⟨0x300, by decide, hlt, by rw [Pmm.bit_checar_eq, hb]⟩
  obtain ⟨i, hi, hbi, -, he⟩ := Pmm.pmm_alloc_livre fun hcheio => by
    rw [hcheio 0x300 hlt] at hb
    exact absurd hb (by decide)
  have hne : (pmm_alloc s.pmm).1 ≠ 0 := by
    rw [he]
    rintro h0
    obtain rfl : i = 0 := by
      unfold PAGE_SIZE at h0
      omega
    rw [hzero hi] at hbi
    exact absurd hbi (by decide)
  exact ⟨s, hs, each_page_taken_is_mapped_to_itself (.inicio hs)
    (show Regular s (.slab_criar true 8) from ⟨fun _ => hbaixa, trivial⟩) rfl hne⟩

/-- Calls of `pmm_alloc` alone take every page below a free one. -/
theorem toma_abaixo {mem : Memory} {mboot i : Nat} {C : Nucleo → Chamada → Prop}
    (hC : ∀ s, C s .pmm_alloc) (h : Corrida C g mem mboot s) (hi : i < s.pmm.total_paginas)
    (hlivre : bit s.pmm.bitmap i = false) (k : Nat) (hk : k ≤ i) :
    ∃ s', Corrida C g mem mboot s' ∧ i < s'.pmm.total_paginas ∧ bit s'.pmm.bitmap i = false ∧
      (∀ j < k, bit s'.pmm.bitmap j = true) ∧ s'.page_directory = s.page_directory := by
  induction k with
  | zero => exact ⟨s, h, hi, hlivre, fun j hj => absurd hj (Nat.not_lt_zero j), rfl⟩
  | succ k ih =>
    obtain ⟨s1, h1, hi1, hl1, hm1, hd1⟩ := ih (by omega)
    by_cases hbk : bit s1.pmm.bitmap k = true
    · refine ⟨s1, h1, hi1, hl1, fun j hj => ?_, hd1⟩
      rcases Nat.lt_succ_iff_lt_or_eq.mp hj with hj | rfl
      · exact hm1 j hj
      · exact hbk
    · have ha := Pmm.pmm_alloc_some (by omega) (by simpa using hbk) hm1
      refine ⟨_, h1.passo (hC s1) .pmm_alloc, ?_, ?_, fun j hj => ?_, hd1⟩
      · dsimp only
        rw [ha]
        exact hi1
      · dsimp only
        rw [ha, Pmm.bit_setar, bit_setBit, hl1, Bool.or_false, decide_eq_false_iff_not]
        omega
      · dsimp only
        rw [ha, Pmm.bit_setar, bit_setBit]
        rcases Nat.lt_succ_iff_lt_or_eq.mp hj with hj | rfl
        · simp [hm1 j hj]
        · simp

/-- Once the pages below 64 MB are taken, the page of the next slab is not mapped. -/
theorem a_slab_above_64_mb_is_not_mapped : ¬ ∀ g mem mboot s c,
    Corrida (fun _ _ => True) g mem mboot s → Pede s c → (pmm_alloc s.pmm).1 ≠ 0 →
      Identidade g s (pmm_alloc s.pmm).1 := by
  intro h
  obtain ⟨s, hs, hdir, -, hlivres⟩ := boot_128mb
  obtain ⟨hlt, hb⟩ := hlivres PAGINAS_BAIXAS (by decide) (by decide)
  obtain ⟨s', hs', hlt', hb', hm, hd⟩ := toma_abaixo (fun _ => trivial)
    (.inicio hs : Corrida (fun _ _ => True) _ _ _ s) hlt hb PAGINAS_BAIXAS (Nat.le_refl _)
  have ha : (pmm_alloc s'.pmm).1 = PAGINAS_BAIXAS * PAGE_SIZE := by
    rw [Pmm.pmm_alloc_some hlt' hb' hm]
  have hid := h _ _ _ s' (.slab_criar true 8) hs' rfl (by rw [ha]; decide) 0 (by decide)
  have hpde : (PAGINAS_BAIXAS * PAGE_SIZE + 0) / (1024 * PAGE_SIZE) = PT_COUNT := by decide
  have hfalta : (0x00000002 : UInt32) &&& PAGE_PRESENTE = 0 := by decide
  rw [ha] at hid
  unfold traduz at hid
  dsimp only at hid
  rw [hpde, hd, hdir, if_pos hfalta] at hid
  exact absurd hid (by simp)

end Tabelas

end SpaceOS.Paging
