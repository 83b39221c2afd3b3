-- What `pmm_init` releases of the memory map: whole pages of the available entries, and where a base
-- is not at a page boundary the page in front of it as well.
import SpaceOS.PmmLaws

open Lib.Bytes Lib.Bitmap

namespace SpaceOS.Pmm

/-! ## The entries of the memory map -/

section Mapa

variable (mem : Memory) (mboot : Nat)

def entry_length_high (entry : Nat) : Nat := word mem (entry + 16)

/-- The base and the length of an entry, of 64 bits each. -/
def entry_base (entry : Nat) : Nat := entry_base_high mem entry * 2 ^ 32 + entry_base_low mem entry

def entry_length (entry : Nat) : Nat :=
  entry_length_high mem entry * 2 ^ 32 + entry_length_low mem entry

/-- The addresses of the entries, in the order of the walk. -/
def entradas_mmap : Nat → Nat → Option (List Nat)
  | 0, _ => none
  | voltas + 1, offset =>
    if offset < mboot_mmap_length mem mboot then
      let entry := (mboot_mmap_addr mem mboot + offset) % 2 ^ 32
      (entradas_mmap voltas ((offset + (entry_size mem entry + 4)) % 2 ^ 32)).map (entry :: ·)
    else some []

/-- The walk of `pmm_init` comes to the entry. -/
def NoMapa (entry : Nat) : Prop :=
  ∃ es, entradas_mmap mem mboot VOLTAS 0 = some es ∧ entry ∈ es

/-- The entries that `pmm_init` frees: available, with a base below 4 GB. -/
def Liberada (entry : Nat) : Prop :=
  entry_type mem entry = MMAP_TYPE_DISPONIVEL ∧ entry_base_high mem entry = 0

instance (entry : Nat) : Decidable (Liberada mem entry) := inferInstanceAs (Decidable (_ ∧ _))

/-- Page `i` lies, with all its bytes, in an available entry. -/
def Contem (entry i : Nat) : Prop :=
  entry_type mem entry = MMAP_TYPE_DISPONIVEL ∧ entry_base mem entry ≤ i * PAGE_SIZE ∧
    (i + 1) * PAGE_SIZE ≤ entry_base mem entry + entry_length mem entry

theorem regioes_mmap_eq (voltas offset : Nat) :
    regioes_mmap mem mboot voltas offset =
      (entradas_mmap mem mboot voltas offset).map fun es =>
        (es.filter (Liberada mem ·)).map fun e => (entry_base_low mem e, entry_length_low mem e) := by
  induction voltas generalizing offset with
  | zero => rfl
  | succ voltas ih =>
    rw [regioes_mmap, entradas_mmap]
    split
    · dsimp only
      rw [ih, Option.map_map]
      generalize entradas_mmap mem mboot voltas _ = r
      generalize (mboot_mmap_addr mem mboot + offset) % 2 ^ 32 = e
      split
      · rename_i hl
        rw [Option.map_map]
        refine congrFun (congrArg Option.map (funext fun es => ?_)) r
        simp only [Function.comp_apply]
        rw [List.filter_cons_of_pos (by exact decide_eq_true hl), List.map_cons]
      · rename_i hl
        rw [Option.map_map]
        refine congrFun (congrArg Option.map (funext fun es => ?_)) r
        simp only [Function.comp_apply]
        rw [List.filter_cons_of_neg (by rw [decide_eq_true_iff]; exact hl)]
    · rfl

variable {mem mboot}

/-- A page is offered by the range of pages of an entry that is freed. -/
theorem oferecida_iff (hm : mboot_flags mem mboot &&& MULTIBOOT_FLAG_MMAP ≠ 0) (i : Nat) :
    Oferecida mem mboot i ↔ ∃ e, NoMapa mem mboot e ∧ Liberada mem e ∧
      entry_base_low mem e / PAGE_SIZE ≤ i ∧
        i < (entry_base_low mem e + entry_length_low mem e) % 2 ^ 32 / PAGE_SIZE := by
  unfold Oferecida NoMapa regioes
  rw [if_pos hm, regioes_mmap_eq]
  constructor
  · rintro ⟨rs, hrs, r, hr, h1, h2⟩
    obtain ⟨es, hes, rfl⟩ := Option.map_eq_some_iff.mp hrs
    obtain ⟨e, he, rfl⟩ := List.mem_map.mp hr
    obtain ⟨he, hl⟩ := List.mem_filter.mp he
    exact ⟨e, ⟨es, hes, he⟩, of_decide_eq_true hl, h1, h2⟩
  · rintro ⟨e, ⟨es, hes, he⟩, hl, h1, h2⟩
    rw [hes]
    exact ⟨_, rfl, _, List.mem_map_of_mem (List.mem_filter.mpr ⟨he, decide_eq_true hl⟩), h1, h2⟩

/-- Past the first page of the range every page lies in the entry, and so does the first one if the base
is at its start. -/
theorem Liberada.contem {e i : Nat} (hl : Liberada mem e) (h1 : entry_base_low mem e / PAGE_SIZE ≤ i)
    (h2 : i < (entry_base_low mem e + entry_length_low mem e) % 2 ^ 32 / PAGE_SIZE)
    (h3 : entry_base_low mem e % PAGE_SIZE = 0 ∨ entry_base_low mem e / PAGE_SIZE ≠ i) :
    Contem mem e i := by
  have hb : entry_base_low mem e < 2 ^ 32 := word_lt mem (e + 4)
  have hn : entry_length_low mem e < 2 ^ 32 := word_lt mem (e + 12)
  have hle : entry_length_low mem e ≤ entry_length mem e := Nat.le_add_left _ _
  have hbase : entry_base mem e = entry_base_low mem e := by
    rw [entry_base, hl.2, Nat.zero_mul, Nat.zero_add]
  refine ⟨hl.1, ?_, ?_⟩
  · rw [hbase]
    simp only [PAGE_SIZE] at h1 h3 ⊢
    omega
  · rw [hbase]
    simp only [PAGE_SIZE] at h1 h2 ⊢
    omega

end Mapa

/-! ## What is reserved -/

/-- Where the linker puts the kernel: the bitmap in front of `_end`, and `_end` two pages below 4 GB. -/
structure Ligado (fim end_bitmap : Nat) : Prop where
  dentro : end_bitmap + MAX_PAGINAS / 8 ≤ fim
  fim : fim + 2 * PAGE_SIZE ≤ 2 ^ 32

/-- Page `i` lies outside the first megabyte, the image of the kernel and the bitmap. -/
def ForaDoNucleo (fim end_bitmap i : Nat) : Prop :=
  0x100000 ≤ i * PAGE_SIZE ∧ fim ≤ i * PAGE_SIZE ∧
    ((i + 1) * PAGE_SIZE ≤ end_bitmap ∨ end_bitmap + MAX_PAGINAS / 8 ≤ i * PAGE_SIZE)

theorem Ligado.foraDoNucleo {fim end_bitmap i : Nat} (h : Ligado fim end_bitmap)
    (hr : ¬ Reservada fim end_bitmap i) : ForaDoNucleo fim end_bitmap i := by
  obtain ⟨h1, h2⟩ := h
  obtain ⟨hmega, hr⟩ := not_or.mp hr
  obtain ⟨hkernel, hbitmap⟩ := not_or.mp hr
  unfold ForaDoNucleo
  simp only [PAGE_SIZE, MAX_PAGINAS] at *
  omega

/-! ## The law -/

section Lei

variable {mem : Memory} {mboot fim end_bitmap : Nat} {s : Mapa}

/-- Every page whose bit is clear lies in one available entry and outside what the kernel uses. -/
def SoUsavel (mem : Memory) (mboot fim end_bitmap : Nat) (s : Mapa) : Prop :=
  ∀ i, bit_checar s.bitmap i = false →
    (∃ e, NoMapa mem mboot e ∧ Contem mem e i) ∧ ForaDoNucleo fim end_bitmap i

/-- Past the pages that are counted every bit is set. -/
theorem pmm_init_livre_iff (h : pmm_init mem mboot fim end_bitmap = some s) (i : Nat) :
    bit_checar s.bitmap i = false ↔ LivreNoBoot mem mboot fim end_bitmap i := by
  obtain ⟨htot, hspec⟩ := pmm_init_spec h
  rw [bit_checar_eq]
  by_cases hi : i < s.total_paginas
  · exact hspec i hi
  constructor
  · intro hb
    obtain ⟨rs, _, rfl⟩ := pmm_init_eq h
    rw [← Bool.not_eq_true] at hb
    refine absurd ?_ hb
    refine (bit_marcar_usado _ _ _ i).mpr (Or.inl ((bit_marcar_usado _ _ _ i).mpr (Or.inl
      ((bit_marcar_usado _ _ _ i).mpr (Or.inl ((bit_foldl_marcar_livre rs _ i).mpr
        ⟨bit_cheio i, fun r _ hp => hi ?_⟩))))))
    simp only [marcar_usado_total, foldl_marcar_livre_total]
    exact (mem_paginas.mp hp).2.2
  · intro hl
    exact absurd (htot ▸ hl.1) hi

/-- With a memory map, `pmm_init` releases usable memory only exactly if each entry that is freed and
whose base is not at a page boundary has no page to free, or its first page is not counted, or is
reserved, or lies in another available entry. -/
theorem only_usable_memory_is_released_iff (hk : Ligado fim end_bitmap)
    (hm : mboot_flags mem mboot &&& MULTIBOOT_FLAG_MMAP ≠ 0)
    (h : pmm_init mem mboot fim end_bitmap = some s) :
    SoUsavel mem mboot fim end_bitmap s ↔
      ∀ e, NoMapa mem mboot e → Liberada mem e → entry_base_low mem e % PAGE_SIZE ≠ 0 →
        (entry_base_low mem e + entry_length_low mem e) % 2 ^ 32 / PAGE_SIZE ≤
            entry_base_low mem e / PAGE_SIZE ∨
          contar_paginas mem mboot ≤ entry_base_low mem e / PAGE_SIZE ∨
          Reservada fim end_bitmap (entry_base_low mem e / PAGE_SIZE) ∨
          ∃ e', NoMapa mem mboot e' ∧ Contem mem e' (entry_base_low mem e / PAGE_SIZE) := by
  constructor
  · intro hs e he hl hbase
    by_contra hn
    obtain ⟨h1, hn⟩ := not_or.mp hn
    obtain ⟨h2, hn⟩ := not_or.mp hn
    obtain ⟨h3, h4⟩ := not_or.mp hn
    refine h4 (hs _ ((pmm_init_livre_iff h _).mpr ⟨Nat.not_le.mp h2, ?_, h3⟩)).1
    exact (oferecida_iff hm _).mpr ⟨e, he, hl, le_rfl, Nat.not_le.mp h1⟩
  · intro hc i hi
    obtain ⟨htot, hof, hres⟩ := (pmm_init_livre_iff h i).mp hi
    refine ⟨?_, hk.foraDoNucleo hres⟩
    obtain ⟨e, he, hl, h1, h2⟩ := (oferecida_iff hm i).mp hof
    by_cases h3 : entry_base_low mem e % PAGE_SIZE = 0 ∨ entry_base_low mem e / PAGE_SIZE ≠ i
    · exact ⟨e, he, hl.contem h1 h2 h3⟩
    -- the page in which the entry begins
    obtain ⟨hbase, hpage⟩ := not_or.mp h3
    rw [not_not] at hpage
    subst hpage
    rcases hc e he hl hbase with hempty | hbig | hr | hother
    · exact absurd h2 (Nat.not_lt.mpr hempty)
    · exact absurd htot (Nat.not_lt.mpr hbig)
    · exact absurd hr hres
    · exact hother

theorem entradas_boot_128mb : entradas_mmap boot_128mb 0x10000 VOLTAS 0 = some [0x11000] := by
  have hlength : mboot_mmap_length boot_128mb 0x10000 = 24 := by decide
  have haddr : mboot_mmap_addr boot_128mb 0x10000 = 0x11000 := by decide
  have hsize : entry_size boot_128mb 0x11000 = 20 := by decide
  have hvoltas : VOLTAS = (2 ^ 32 - 2) + 1 + 1 := by decide
  rw [hvoltas]
  simp [entradas_mmap, hlength, haddr, hsize]

/-- On the machine with 128 MB the region starts at a page boundary. -/
theorem only_usable_memory_is_released_on_128mb :
    ∃ s, pmm_init boot_128mb 0x10000 0x200000 0x1A0000 = some s ∧
      SoUsavel boot_128mb 0x10000 0x200000 0x1A0000 s := by
  obtain ⟨s, hs⟩ := pmm_init_isSome regioes_boot_128mb 0x200000 0x1A0000
  refine ⟨s, hs, (only_usable_memory_is_released_iff ⟨by decide, by decide⟩ (by decide) hs).mpr ?_⟩
  rintro e ⟨es, hes, he⟩ _ hbase
  rw [entradas_boot_128mb] at hes
  cases hes
  obtain rfl := List.mem_singleton.mp he
  exact absurd (by decide) hbase

/-- The same machine with one available region that begins in the middle of a page, at 0x400800. -/
def boot_desalinhado : Memory :=
  putWord (putWord boot_128mb (0x11000 + 4) 0x400800) (0x11000 + 12) 0x100000

theorem entradas_boot_desalinhado :
    entradas_mmap boot_desalinhado 0x10000 VOLTAS 0 = some [0x11000] := by
  have hlength : mboot_mmap_length boot_desalinhado 0x10000 = 24 := by decide
  have haddr : mboot_mmap_addr boot_desalinhado 0x10000 = 0x11000 := by decide
  have hsize : entry_size boot_desalinhado 0x11000 = 20 := by decide
  have hvoltas : VOLTAS = (2 ^ 32 - 2) + 1 + 1 := by decide
  rw [hvoltas]
  simp [entradas_mmap, hlength, haddr, hsize]

/-- The first half of its first page belongs to no entry. -/
theorem half_a_page_is_released_too :
    ¬ ∀ mem mboot fim end_bitmap s, Ligado fim end_bitmap →
      mboot_flags mem mboot &&& MULTIBOOT_FLAG_MMAP ≠ 0 →
      pmm_init mem mboot fim end_bitmap = some s → SoUsavel mem mboot fim end_bitmap s := by
  intro hall
  have hm : mboot_flags boot_desalinhado 0x10000 &&& MULTIBOOT_FLAG_MMAP ≠ 0 := by decide
  have hno : NoMapa boot_desalinhado 0x10000 0x11000 :=
    ⟨_, entradas_boot_desalinhado, List.mem_cons_self⟩
  have hof : Oferecida boot_desalinhado 0x10000 0x400 :=
    (oferecida_iff hm _).mpr ⟨0x11000, hno, by decide, by decide, by decide⟩
  obtain ⟨rs, hrs, _⟩ := id hof
  obtain ⟨s, hs⟩ := pmm_init_isSome hrs 0x200000 0x1A0000
  have hlivre : LivreNoBoot boot_desalinhado 0x10000 0x200000 0x1A0000 0x400 := by
    refine ⟨by decide, hof, ?_⟩
    unfold Reservada
    decide
  obtain ⟨e, ⟨es, hes, he⟩, hc⟩ :=
    (hall _ _ _ _ s ⟨by decide, by decide⟩ hm hs 0x400 ((pmm_init_livre_iff hs _).mpr hlivre)).1
  rw [entradas_boot_desalinhado] at hes
  cases hes
  obtain rfl := List.mem_singleton.mp he
  exact absurd hc.2.1 (by decide)

end Lei

end SpaceOS.Pmm
