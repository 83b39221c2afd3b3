-- The pages of the page allocator against the region of the kernel heap: which pages
-- `pmm_init` leaves free, what a run can hand out, and the memory maps on which no page
-- handed out lies in the heap.
import SpaceOS.KheapLaws
import SpaceOS.Pmm
import Mathlib.Data.List.Basic

open Lib.Bytes Lib.Bitmap

namespace SpaceOS.Pmm

open SpaceOS.Kheap ( HEAP_INICIO HEAP_FIM)

/-! ## What the two marking loops do to one page -/

theorem mem_paginas {inicio fim total i : Nat} :
    i ∈ paginas inicio fim total ↔ inicio ≤ i ∧ i < fim ∧ i < total := by
  simp only [paginas, List.mem_range'_1]
  omega

section Marcar

variable (s : Mapa) (base tamanho : Nat)

theorem marcar_usado_total : (pmm_marcar_usado s base tamanho).total_paginas = s.total_paginas := by
  simp only [pmm_marcar_usado]
  generalize paginas _ _ s.total_paginas = l
  induction l generalizing s with
  | nil => rfl
  | cons j l ih =>
    rw [List.foldl_cons, ih]
    split <;> rfl

theorem marcar_livre_total : (pmm_marcar_livre s base tamanho).total_paginas = s.total_paginas := by
  simp only [pmm_marcar_livre]
  generalize paginas _ _ s.total_paginas = l
  induction l generalizing s with
  | nil => rfl
  | cons j l ih =>
    rw [List.foldl_cons, ih]
    split <;> rfl

theorem bit_marcar_usado (i : Nat) :
    bit (pmm_marcar_usado s base tamanho).bitmap i = true ↔ bit s.bitmap i = true ∨
      i ∈ paginas (base / PAGE_SIZE) ((base + tamanho + PAGE_SIZE - 1) % 2 ^ 32 / PAGE_SIZE)
        s.total_paginas := by
  simp only [pmm_marcar_usado]
  generalize paginas _ _ s.total_paginas = l
  induction l generalizing s with
  | nil => simp
  | cons j l ih =>
    rw [List.foldl_cons, ih]
    by_cases hj : bit_checar s.bitmap j = true
    · rw [if_pos hj, List.mem_cons]
      rw [bit_checar_eq] at hj
      constructor
      · tauto
      · rintro (h | rfl | h) <;> tauto
    · rw [if_neg hj, bit_setar, bit_setBit, List.mem_cons, Bool.or_eq_true, decide_eq_true_eq]
      constructor
      · rintro ((rfl | h) | h) <;> tauto
      · rintro (h | rfl | h) <;> tauto

theorem bit_marcar_livre (i : Nat) :
    bit (pmm_marcar_livre s base tamanho).bitmap i = true ↔ bit s.bitmap i = true ∧
      i ∉ paginas (base / PAGE_SIZE) ((base + tamanho) % 2 ^ 32 / PAGE_SIZE) s.total_paginas := by
  simp only [pmm_marcar_livre]
  generalize paginas _ _ s.total_paginas = l
  induction l generalizing s with
  | nil => simp
  | cons j l ih =>
    rw [List.foldl_cons, ih, List.mem_cons]
    by_cases hj : bit_checar s.bitmap j = true
    · rw [if_pos hj, bit_limpar, bit_clearBit, Bool.and_eq_true, Bool.not_eq_true',
        decide_eq_false_iff_not]
      constructor
      · rintro ⟨⟨hne, h⟩, hl⟩
        exact ⟨h, by rintro (rfl | h') <;> tauto⟩
      · rintro ⟨h, hl⟩
        exact ⟨⟨fun he => hl (Or.inl he.symm), h⟩, fun h' => hl (Or.inr h')⟩
    · rw [if_neg hj]
      rw [bit_checar_eq] at hj
      constructor
      · rintro ⟨h, hl⟩
        exact ⟨h, by rintro (rfl | h') <;> tauto⟩
      · rintro ⟨h, hl⟩
        exact ⟨h, fun h' => hl (Or.inr h')⟩

end Marcar

/-! ## The pages that are free after `pmm_init` -/

section Boot

variable (mem : Memory) (mboot fim end_bitmap : Nat)

/-- The available regions of the memory map, as base and length, in the order of the walk. -/
def regioes_mmap : Nat → Nat → Option (List (Nat × Nat))
  | 0, _ => none
  | voltas + 1, offset =>
    if offset < mboot_mmap_length mem mboot then
      let entry := (mboot_mmap_addr mem mboot + offset) % 2 ^ 32
      let resto := regioes_mmap voltas ((offset + (entry_size mem entry + 4)) % 2 ^ 32)
      if entry_type mem entry = MMAP_TYPE_DISPONIVEL ∧ entry_base_high mem entry = 0 then
        resto.map ((entry_base_low mem entry, entry_length_low mem entry) :: ·)
      else resto
    else some []

/-- The regions that `pmm_init` frees. `none`: the walk over the memory map does not end. -/
def regioes : Option (List (Nat × Nat)) :=
  if mboot_flags mem mboot &&& MULTIBOOT_FLAG_MMAP ≠ 0 then regioes_mmap mem mboot VOLTAS 0
  else some [(0x100000, mboot_mem_upper mem mboot * 1024 % 2 ^ 32)]

/-- Page `i` lies in a region that the boot information calls available. -/
def Oferecida (i : Nat) : Prop :=
  ∃ rs, regioes mem mboot = some rs ∧
    ∃ r ∈ rs, r.1 / PAGE_SIZE ≤ i ∧ i < (r.1 + r.2) % 2 ^ 32 / PAGE_SIZE

/-- Page `i` lies in the first megabyte, in the kernel or in the bitmap, the three ranges that
`pmm_init` marks again as used. -/
def Reservada (i : Nat) : Prop :=
  i < 0x100000 / PAGE_SIZE ∨
  (0x100000 / PAGE_SIZE ≤ i ∧
    i < (0x100000 + (fim + 2 ^ 32 - 0x100000 + PAGE_SIZE) % 2 ^ 32 + PAGE_SIZE - 1)
      % 2 ^ 32 / PAGE_SIZE) ∨
  (end_bitmap / PAGE_SIZE ≤ i ∧
    i < (end_bitmap + MAX_PAGINAS / 8 + PAGE_SIZE - 1) % 2 ^ 32 / PAGE_SIZE)

/-- The pages that `pmm_init` leaves free. -/
def LivreNoBoot (i : Nat) : Prop :=
  i < contar_paginas mem mboot ∧ Oferecida mem mboot i ∧ ¬ Reservada fim end_bitmap i

theorem pmm_init_mmap_eq (voltas offset : Nat) (s : Mapa) :
    pmm_init_mmap mem mboot voltas offset s =
      (regioes_mmap mem mboot voltas offset).map
        (List.foldl (fun s r => pmm_marcar_livre s r.1 r.2) s) := by
  induction voltas generalizing offset s with
  | zero => rfl
  | succ voltas ih =>
    rw [pmm_init_mmap, regioes_mmap]
    split
    · simp only [ih]
      split
      · rw [Option.map_map]
        rfl
      · rfl
    · rfl

theorem bit_foldl_marcar_livre (rs : List (Nat × Nat)) (s : Mapa) (i : Nat) :
    bit (rs.foldl (fun s r => pmm_marcar_livre s r.1 r.2) s).bitmap i = true ↔
      bit s.bitmap i = true ∧ ∀ r ∈ rs,
        i ∉ paginas (r.1 / PAGE_SIZE) ((r.1 + r.2) % 2 ^ 32 / PAGE_SIZE) s.total_paginas := by
  induction rs generalizing s with
  | nil => simp
  | cons r rs ih =>
    rw [List.foldl_cons, ih, bit_marcar_livre, marcar_livre_total, List.forall_mem_cons, and_assoc]

theorem foldl_marcar_livre_total (rs : List (Nat × Nat)) (s : Mapa) :
    (rs.foldl (fun s r => pmm_marcar_livre s r.1 r.2) s).total_paginas = s.total_paginas := by
  induction rs generalizing s with
  | nil => rfl
  | cons r rs ih => rw [List.foldl_cons, ih, marcar_livre_total]

variable {mem mboot fim end_bitmap}

theorem pmm_init_eq {s : Mapa} (h : pmm_init mem mboot fim end_bitmap = some s) :
    ∃ rs, regioes mem mboot = some rs ∧
      s = pmm_marcar_usado (pmm_marcar_usado (pmm_marcar_usado
        (rs.foldl (fun s r => pmm_marcar_livre s r.1 r.2)
          ⟨fun _ => 0xFF, contar_paginas mem mboot, 0⟩) 0x0 0x100000)
        0x100000 ((fim + 2 ^ 32 - 0x100000 + PAGE_SIZE) % 2 ^ 32)) end_bitmap (MAX_PAGINAS / 8) := by
  simp only [pmm_init] at h
  unfold regioes
  split at h
  · rename_i hm
    rw [pmm_init_mmap_eq, Option.map_map] at h
    obtain ⟨rs, hrs, rfl⟩ := Option.map_eq_some_iff.mp h
    exact ⟨rs, by rw [if_pos hm, hrs], rfl⟩
  · rename_i hm
    rw [Option.map_some, Option.some_inj] at h
    refine ⟨[(0x100000, mboot_mem_upper mem mboot * 1024 % 2 ^ 32)], by rw [if_neg hm], ?_⟩
    rw [List.foldl_cons, List.foldl_nil]
    exact h.symm

theorem pmm_init_isSome {rs : List (Nat × Nat)} (h : regioes mem mboot = some rs)
    (fim end_bitmap : Nat) : ∃ s, pmm_init mem mboot fim end_bitmap = some s := by
  simp only [pmm_init]
  unfold regioes at h
  split at h
  · rename_i hm
    rw [if_pos hm, pmm_init_mmap_eq, h]
    exact ⟨_, rfl⟩
  · rename_i hm
    rw [if_neg hm]
    exact ⟨_, rfl⟩

theorem bit_cheio (i : Nat) : bit (fun _ => 0xFF) i = true := by
  have h : i % 8 < 8 := Nat.mod_lt _ (by decide)
  change (255 : UInt8).toNat.testBit (i % 8) = true
  generalize i % 8 = j at h
  decide +revert

/-- After `pmm_init` the bits clear are those of the pages offered and not reserved. -/
theorem pmm_init_spec {s : Mapa} (h : pmm_init mem mboot fim end_bitmap = some s) :
    s.total_paginas = contar_paginas mem mboot ∧
      ∀ i, i < s.total_paginas →
        (bit s.bitmap i = false ↔ LivreNoBoot mem mboot fim end_bitmap i) := by
  obtain ⟨rs, hrs, rfl⟩ := pmm_init_eq h
  have htot : (rs.foldl (fun s r => pmm_marcar_livre s r.1 r.2)
      ⟨fun _ => 0xFF, contar_paginas mem mboot, 0⟩).total_paginas = contar_paginas mem mboot :=
    foldl_marcar_livre_total rs _
  refine ⟨by simp only [marcar_usado_total, htot], fun i hi => ?_⟩
  simp only [marcar_usado_total, htot] at hi
  rw [← Bool.not_eq_true, not_iff_comm]
  simp only [bit_marcar_usado, marcar_usado_total, htot, bit_foldl_marcar_livre, bit_cheio,
    true_and, mem_paginas, hi, and_true, LivreNoBoot, Oferecida, hrs, Option.some.injEq,
    Reservada, exists_eq_left', Nat.zero_div, Nat.zero_le]
  have e : (0 + 0x100000 + PAGE_SIZE - 1) % 2 ^ 32 / PAGE_SIZE = 0x100000 / PAGE_SIZE := by decide
  rw [e]
  generalize 0x100000 / PAGE_SIZE = mega
  generalize (0x100000 + (fim + 2 ^ 32 - 0x100000 + PAGE_SIZE) % 2 ^ 32 + PAGE_SIZE - 1)
    % 2 ^ 32 / PAGE_SIZE = kernel
  constructor
  · intro hl
    by_cases ho : ∃ r ∈ rs, r.1 / PAGE_SIZE ≤ i ∧ i < (r.1 + r.2) % 2 ^ 32 / PAGE_SIZE
    · rcases not_not.mp fun hn => hl ⟨ho, hn⟩ with h1 | h2 | h3
      · exact Or.inl (Or.inl (Or.inr h1))
      · exact Or.inl (Or.inr h2)
      · exact Or.inr h3
    · exact Or.inl (Or.inl (Or.inl fun r hr hi' => ho ⟨r, hr, hi'⟩))
  · rintro (((ho | h1) | h2) | h3) ⟨⟨r, hr, hab⟩, hn⟩
    · exact ho r hr hab
    · exact hn (Or.inl h1)
    · exact hn (Or.inr (Or.inl h2))
    · exact hn (Or.inr (Or.inr h3))

end Boot

/-! ## Runs of the two allocators -/

/-- The page allocator, the heap, and every page that `pmm_alloc` has returned. -/
structure Estado where
  pmm : Mapa
  heap : Kheap.Estado
  obtidas : List Nat

/-- One call. `pmm_free` may get any page that `pmm_alloc` has returned, also twice. -/
inductive Passo : Estado → Estado → Prop
  | pmm_alloc {e : Estado} {p : Nat} {pmm' : Mapa} (h : pmm_alloc e.pmm = (p, pmm')) :
    Passo e ⟨pmm', e.heap, if p = 0 then e.obtidas else p :: e.obtidas⟩
  | pmm_free {e : Estado} {p : Nat} (h : p ∈ e.obtidas) :
    Passo e { e with pmm := pmm_free e.pmm p }
  | heap {e : Estado} {heap' : Kheap.Estado} (h : Kheap.Passo e.heap heap') :
    Passo e { e with heap := heap' }

/-- The states of a run that starts with `pmm_init` and `kheap_init`. -/
inductive Alcanca (mem : Memory) (mboot fim end_bitmap : Nat) : Estado → Prop
  | inicio {s : Mapa} (h : pmm_init mem mboot fim end_bitmap = some s) (heap : Kheap.Heap) :
    Alcanca mem mboot fim end_bitmap ⟨s, ⟨Kheap.kheap_init heap, []⟩, []⟩
  | passo {e e' : Estado} (h : Alcanca mem mboot fim end_bitmap e) (hp : Passo e e') :
    Alcanca mem mboot fim end_bitmap e'

/-- The page at address `p` lies outside the region of the heap. -/
def ForaDoHeap (p : Nat) : Prop := p + PAGE_SIZE ≤ HEAP_INICIO ∨ HEAP_FIM ≤ p

/-- `pmm_alloc` takes the lowest page that is free. -/
theorem pmm_alloc_some {s : Mapa} {i : Nat} (hi : i < s.total_paginas)
    (hlivre : bit s.bitmap i = false) (hmenor : ∀ j < i, bit s.bitmap j = true) :
    pmm_alloc s = (i * PAGE_SIZE, { s with
      bitmap := bit_setar s.bitmap i
      paginas_livres := (s.paginas_livres + 2 ^ 32 - 1) % 2 ^ 32 }) := by
  have hf : (List.range s.total_paginas).find? (fun i => !bit_checar s.bitmap i) = some i := by
    rw [List.find?_range_eq_some]
    refine ⟨?_, List.mem_range.mpr hi, fun j hj => ?_⟩
    · simp [bit_checar_eq, hlivre]
    · simp [bit_checar_eq, hmenor j hj]
  rw [pmm_alloc, hf]

/-- A call of `pmm_alloc` fails, or takes a page that was free. -/
theorem pmm_alloc_cases (s : Mapa) :
    pmm_alloc s = (0, s) ∨ ∃ i < s.total_paginas, bit s.bitmap i = false ∧
      pmm_alloc s = (i * PAGE_SIZE, { s with
        bitmap := bit_setar s.bitmap i
        paginas_livres := (s.paginas_livres + 2 ^ 32 - 1) % 2 ^ 32 }) := by
  unfold pmm_alloc
  cases h : (List.range s.total_paginas).find? fun i => !bit_checar s.bitmap i with
  | none => exact Or.inl rfl
  | some i =>
    refine Or.inr ⟨i, List.mem_range.mp (List.mem_of_find?_eq_some h), ?_, rfl⟩
    have := List.find?_some h
    simpa [bit_checar_eq] using this

section Corridas

variable {mem : Memory} {mboot fim end_bitmap : Nat}

/-- What every state of a run keeps: the count of pages, no page free that was not free after
`pmm_init`, and only such pages handed out. -/
structure Contido (mem : Memory) (mboot fim end_bitmap : Nat) (e : Estado) : Prop where
  total : e.pmm.total_paginas = contar_paginas mem mboot
  livres : ∀ i < e.pmm.total_paginas, bit e.pmm.bitmap i = false →
    LivreNoBoot mem mboot fim end_bitmap i
  obtidas : ∀ p ∈ e.obtidas, ∃ i, p = i * PAGE_SIZE ∧ LivreNoBoot mem mboot fim end_bitmap i

theorem Contido.passo {e e' : Estado} (hc : Contido mem mboot fim end_bitmap e)
    (hp : Passo e e') : Contido mem mboot fim end_bitmap e' := by
  obtain ⟨htot, hliv, hobt⟩ := id hc
  cases hp with
  | @pmm_alloc p pmm' h =>
    rcases pmm_alloc_cases e.pmm with hn | ⟨i, hi, hb, hs⟩
    · rw [hn] at h
      cases h
      exact ⟨htot, hliv, hobt⟩
    · rw [hs] at h
      cases h
      refine ⟨htot, fun j hj hjb => hliv j hj ?_, fun p hp => ?_⟩
      · rw [bit_setar, bit_setBit, Bool.or_eq_false_iff] at hjb
        exact hjb.2
      · split at hp
        · exact hobt p hp
        · rcases List.mem_cons.mp hp with rfl | hp
          · exact ⟨i, rfl, hliv i hi hb⟩
          · exact hobt p hp
  | @pmm_free p h =>
    obtain ⟨i, rfl, hl⟩ := hobt p h
    have hdiv : i * PAGE_SIZE / PAGE_SIZE = i := Nat.mul_div_cancel i (by decide)
    unfold pmm_free
    rw [hdiv]
    dsimp only
    split
    · refine ⟨htot, fun j hj hjb => ?_, hobt⟩
      rw [bit_limpar, bit_clearBit, Bool.and_eq_false_iff] at hjb
      rcases hjb with hij | hjb
      · have : i = j := by simpa using hij
        exact this ▸ hl
      · exact hliv j hj hjb
    · exact hc
  | heap h => exact ⟨htot, hliv, hobt⟩

theorem contido_of_alcanca {e : Estado} (h : Alcanca mem mboot fim end_bitmap e) :
    Contido mem mboot fim end_bitmap e := by
  induction h with
  | inicio h heap =>
    obtain ⟨htot, hb⟩ := pmm_init_spec h
    exact ⟨htot, fun i hi hl => (hb i hi).mp hl, by simp⟩
  | passo _ hp ih => exact ih.passo hp

/-- From a state where page `i` is free, calls of `pmm_alloc` alone reach one where every page
below `k` is taken and `i` still free. -/
theorem alcanca_tomadas {e : Estado} {i : Nat} (h : Alcanca mem mboot fim end_bitmap e)
    (hi : i < e.pmm.total_paginas) (hlivre : bit e.pmm.bitmap i = false) (k : Nat) (hk : k ≤ i) :
    ∃ e', Alcanca mem mboot fim end_bitmap e' ∧ i < e'.pmm.total_paginas ∧
      bit e'.pmm.bitmap i = false ∧ ∀ j < k, bit e'.pmm.bitmap j = true := by
  induction k with
  | zero => exact ⟨e, h, hi, hlivre, by simp⟩
  | succ k ih =>
    obtain ⟨e1, h1, hi1, hl1, hm1⟩ := ih (by omega)
    by_cases hbk : bit e1.pmm.bitmap k = true
    · refine ⟨e1, h1, hi1, hl1, fun j hj => ?_⟩
      rcases Nat.lt_succ_iff_lt_or_eq.mp hj with hj | rfl
      · exact hm1 j hj
      · exact hbk
    · have ha := pmm_alloc_some (by omega) (by simpa using hbk) hm1
      refine ⟨_, h1.passo (.pmm_alloc ha), hi1, ?_, fun j hj => ?_⟩
      · rw [bit_setar, bit_setBit, hl1, Bool.or_false, decide_eq_false_iff_not]
        omega
      · rw [bit_setar, bit_setBit]
        rcases Nat.lt_succ_iff_lt_or_eq.mp hj with hj | rfl
        · simp [hm1 j hj]
        · simp

/-- Every page left free by `pmm_init`, page 0 apart, is handed out in some run. -/
theorem alcanca_obtida {s : Mapa} {i : Nat} (h : pmm_init mem mboot fim end_bitmap = some s)
    (hl : LivreNoBoot mem mboot fim end_bitmap i) (hi : i ≠ 0) :
    ∃ e, Alcanca mem mboot fim end_bitmap e ∧ i * PAGE_SIZE ∈ e.obtidas := by
  obtain ⟨htot, hb⟩ := pmm_init_spec h
  have hit : i < s.total_paginas := by
    rw [htot]
    exact hl.1
  obtain ⟨e, he, hie, hbe, hm⟩ :=
    alcanca_tomadas (.inicio h ⟨fun _ => 0, 0, false⟩) hit ((hb i hit).mpr hl) i (Nat.le_refl i)
  refine ⟨_, he.passo (.pmm_alloc (pmm_alloc_some hie hbe hm)), ?_⟩
  have h0 : i * PAGE_SIZE ≠ 0 := by
    simp only [PAGE_SIZE]
    omega
  rw [if_neg h0]
  exact List.mem_cons_self

/-! ## The law -/

theorem foraDoHeap_iff (i : Nat) :
    ForaDoHeap (i * PAGE_SIZE) ↔ ¬ ( HEAP_INICIO / PAGE_SIZE ≤ i ∧ i < HEAP_FIM / PAGE_SIZE) := by
  have h1 : HEAP_INICIO / PAGE_SIZE = 0x300 := by decide
  have h2 : HEAP_FIM / PAGE_SIZE = 0x340 := by decide
  have h3 : HEAP_INICIO = 0x300000 := rfl
  have h4 : HEAP_FIM = 0x340000 := by decide
  rw [h1, h2, ForaDoHeap, h3, h4]
  simp only [PAGE_SIZE]
  omega

/-- In every run no page handed out meets the heap, exactly when `pmm_init` leaves no page of
the heap's region free: each such page that the memory map offers lies in the range reserved
for the kernel or for the bitmap. -/
theorem pages_stay_out_of_the_heap_iff (mem : Memory) (mboot fim end_bitmap : Nat) :
    (∀ e, Alcanca mem mboot fim end_bitmap e → ∀ p ∈ e.obtidas, ForaDoHeap p) ↔
      ∀ i, HEAP_INICIO / PAGE_SIZE ≤ i → i < HEAP_FIM / PAGE_SIZE → i < contar_paginas mem mboot →
        Oferecida mem mboot i → Reservada fim end_bitmap i := by
  constructor
  · intro h i h1 h2 h3 ho
    by_contra hr
    obtain ⟨rs, hrs, _⟩ := id ho
    obtain ⟨s, hs⟩ := pmm_init_isSome hrs fim end_bitmap
    have hi0 : i ≠ 0 := by
      have : HEAP_INICIO / PAGE_SIZE = 0x300 := by decide
      omega
    obtain ⟨e, he, hp⟩ := alcanca_obtida hs ⟨h3, ho, hr⟩ hi0
    exact (foraDoHeap_iff i).mp (h e he _ hp) ⟨h1, h2⟩
  · intro h e he p hp
    obtain ⟨i, rfl, hl⟩ := (contido_of_alcanca he).obtidas p hp
    rw [foraDoHeap_iff]
    rintro ⟨h1, h2⟩
    exact hl.2.2 (h i h1 h2 hl.1 hl.2.1)

/-- The boot information of a machine with 128 MB: one available region from 1 MB to 127.875 MB,
with the information at 0x10000 and the map at 0x11000. -/
def boot_128mb : Memory :=
  let m := putWord (fun _ => 0) 0x10000 MULTIBOOT_FLAG_MMAP
  let m := putWord m (0x10000 + 8) 130048
  let m := putWord m (0x10000 + 44) 24
  let m := putWord m (0x10000 + 48) 0x11000
  let m := putWord m 0x11000 20
  let m := putWord m (0x11000 + 4) 0x100000
  let m := putWord m (0x11000 + 12) 0x7EE0000
  putWord m (0x11000 + 20) MMAP_TYPE_DISPONIVEL

theorem regioes_boot_128mb : regioes boot_128mb 0x10000 = some [(0x100000, 0x7EE0000)] := by
  have hflags : mboot_flags boot_128mb 0x10000 &&& MULTIBOOT_FLAG_MMAP ≠ 0 := by decide
  have hlength : mboot_mmap_length boot_128mb 0x10000 = 24 := by decide
  have haddr : mboot_mmap_addr boot_128mb 0x10000 = 0x11000 := by decide
  have hsize : entry_size boot_128mb 0x11000 = 20 := by decide
  have htype : entry_type boot_128mb 0x11000 = MMAP_TYPE_DISPONIVEL := by decide
  have hhigh : entry_base_high boot_128mb 0x11000 = 0 := by decide
  have hlow : entry_base_low boot_128mb 0x11000 = 0x100000 := by decide
  have hlen : entry_length_low boot_128mb 0x11000 = 0x7EE0000 := by decide
  have hvoltas : VOLTAS = (2 ^ 32 - 2) + 1 + 1 := by decide
  rw [regioes, if_pos hflags, hvoltas]
  simp [regioes_mmap, hlength, haddr, hsize, htype, hhigh, hlow, hlen]

/-- On that machine, with a kernel that ends at 2 MB, a run hands out the first page of the heap. -/
theorem a_page_of_the_heap_is_handed_out :
    ¬ ∀ e, Alcanca boot_128mb 0x10000 0x200000 0x1A0000 e → ∀ p ∈ e.obtidas, ForaDoHeap p := by
  intro h
  obtain ⟨s, hs⟩ := pmm_init_isSome regioes_boot_128mb 0x200000 0x1A0000
  have hl : LivreNoBoot boot_128mb 0x10000 0x200000 0x1A0000 0x300 := by
    refine ⟨by decide, ⟨_, regioes_boot_128mb, _, List.mem_cons_self, by decide, by decide⟩, ?_⟩
    unfold Reservada
    decide
  obtain ⟨e, he, hp⟩ := alcanca_obtida hs hl (by decide)
  exact absurd (h e he _ hp) (by unfold ForaDoHeap; decide)

end Corridas

end SpaceOS.Pmm
