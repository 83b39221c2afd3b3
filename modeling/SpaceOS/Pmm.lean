-- The physical page allocator (kernel/mem/pmm.c): a bitmap with one bit for
-- each page, set while the page is in use.
import SpaceOS.Lib.Bitmap

open Lib.Bytes Lib.Bitmap

namespace SpaceOS.Pmm

def PAGE_SIZE : Nat := 4096

def MAX_PAGINAS : Nat := 1024 * 256

def MULTIBOOT_FLAG_MMAP : Nat := 0x040

def MMAP_TYPE_DISPONIVEL : Nat := 1

/-- The turns that the walk over the memory map may take before it counts as endless. Its
offset has 32 bits. -/
def VOLTAS : Nat := 2 ^ 32

/-- The static variables of the file. -/
structure Mapa where
  bitmap : Memory
  total_paginas : Nat
  paginas_livres : Nat

/-! ## The bitmap -/

def bit_setar (bm : Memory) (pagina : Nat) : Memory := setBit bm pagina

def bit_limpar (bm : Memory) (pagina : Nat) : Memory := clearBit bm pagina

/-- `bitmap[pagina / 8] & (1 << (pagina % 8))`, as a truth value. -/
def bit_checar (bm : Memory) (pagina : Nat) : Bool := bm (pagina / 8) &&& mask pagina != 0

theorem bit_checar_eq (bm : Memory) (i : Nat) : bit_checar bm i = bit bm i := by
  have := and_mask (bm (i / 8)) i
  unfold bit_checar bit
  cases h : (bm (i / 8)).toNat.testBit (i % 8) <;> simp_all

/-! ## Ranges of pages -/

/-- The pages `i` of a loop `for (i = inicio; i < fim && i < total; i++)`. -/
def paginas (inicio fim total : Nat) : List Nat := List.range' inicio (min fim total - inicio)

def pmm_marcar_usado (s : Mapa) (base tamanho : Nat) : Mapa :=
  let pagina_inicio := base / PAGE_SIZE
  let pagina_fim := (base + tamanho + PAGE_SIZE - 1) % 2 ^ 32 / PAGE_SIZE
  (paginas pagina_inicio pagina_fim s.total_paginas).foldl (fun s i =>
    if bit_checar s.bitmap i then s
    else { s with
      bitmap := bit_setar s.bitmap i
      paginas_livres := if s.paginas_livres > 0 then s.paginas_livres - 1 else 0 }) s

def pmm_marcar_livre (s : Mapa) (base tamanho : Nat) : Mapa :=
  let pagina_inicio := base / PAGE_SIZE
  let pagina_fim := (base + tamanho) % 2 ^ 32 / PAGE_SIZE
  (paginas pagina_inicio pagina_fim s.total_paginas).foldl (fun s i =>
    if bit_checar s.bitmap i then
      { s with
        bitmap := bit_limpar s.bitmap i
        paginas_livres := s.paginas_livres + 1 }
    else s) s

/-! ## The boot information, as it lies in memory -/

section Multiboot

variable (mem : Memory) (mboot : Nat)

def mboot_flags : Nat := word mem mboot
def mboot_mem_upper : Nat := word mem (mboot + 8)
def mboot_mmap_length : Nat := word mem (mboot + 44)
def mboot_mmap_addr : Nat := word mem (mboot + 48)

def entry_size (entry : Nat) : Nat := word mem entry
def entry_base_low (entry : Nat) : Nat := word mem (entry + 4)
def entry_base_high (entry : Nat) : Nat := word mem (entry + 8)
def entry_length_low (entry : Nat) : Nat := word mem (entry + 12)
def entry_type (entry : Nat) : Nat := word mem (entry + 20)

end Multiboot

/-! ## The functions of the file -/

/-- The loop over the memory map. `none`: it does not end. -/
def pmm_init_mmap (mem : Memory) (mboot : Nat) : Nat → Nat → Mapa → Option Mapa
  | 0, _, _ => none
  | voltas + 1, offset, s =>
    if offset < mboot_mmap_length mem mboot then
      let entry := (mboot_mmap_addr mem mboot + offset) % 2 ^ 32
      let s :=
        if entry_type mem entry = MMAP_TYPE_DISPONIVEL ∧ entry_base_high mem entry = 0 then
          pmm_marcar_livre s (entry_base_low mem entry) (entry_length_low mem entry)
        else s
      pmm_init_mmap mem mboot voltas ((offset + (entry_size mem entry + 4)) % 2 ^ 32) s
    else some s

/-- The number of pages that `pmm_init` counts. -/
def contar_paginas (mem : Memory) (mboot : Nat) : Nat :=
  let ram_total_kb := (mboot_mem_upper mem mboot + 1024) % 2 ^ 32
  min (ram_total_kb * 1024 % 2 ^ 32 / PAGE_SIZE) MAX_PAGINAS

/-- `pmm_init`, with the boot information at `mboot`, the end of the kernel `_end` at `fim`
and the array `bitmap` at `end_bitmap`. -/
def pmm_init (mem : Memory) (mboot fim end_bitmap : Nat) : Option Mapa :=
  let s : Mapa := ⟨fun _ => 0xFF, contar_paginas mem mboot, 0⟩
  let livres :=
    if mboot_flags mem mboot &&& MULTIBOOT_FLAG_MMAP ≠ 0 then pmm_init_mmap mem mboot VOLTAS 0 s
    else some (pmm_marcar_livre s 0x100000 (mboot_mem_upper mem mboot * 1024 % 2 ^ 32))
  livres.map fun s =>
    let s := pmm_marcar_usado s 0x0 0x100000
    let s := pmm_marcar_usado s 0x100000 ((fim + 2 ^ 32 - 0x100000 + PAGE_SIZE) % 2 ^ 32)
    pmm_marcar_usado s end_bitmap (MAX_PAGINAS / 8)

/-- The address of the page taken, 0 where none is free. -/
def pmm_alloc (s : Mapa) : Nat × Mapa :=
  match (List.range s.total_paginas).find? fun i => !bit_checar s.bitmap i with
  | some i => (i * PAGE_SIZE, { s with
      bitmap := bit_setar s.bitmap i
      paginas_livres := (s.paginas_livres + 2 ^ 32 - 1) % 2 ^ 32 })
  | none => (0, s)

def pmm_free (s : Mapa) (endereco : Nat) : Mapa :=
  let pagina := endereco / PAGE_SIZE
  if pagina < s.total_paginas ∧ bit_checar s.bitmap pagina then
    { s with
      bitmap := bit_limpar s.bitmap pagina
      paginas_livres := s.paginas_livres + 1 }
  else s

def pmm_livres (s : Mapa) : Nat := s.paginas_livres

def pmm_total (s : Mapa) : Nat := s.total_paginas

end SpaceOS.Pmm
