-- The page tables (kernel/mem/paging.c), and what of the memory system runs on them: the pages that
-- `slab_novo` and `paging_mapear` take and write to at once.
import SpaceOS.Pmm
import SpaceOS.Slab

open Lib.Bytes Lib.LinkedList

namespace SpaceOS.Paging

open SpaceOS.Pmm ( PAGE_SIZE Mapa pmm_alloc pmm_init)

def PAGE_PRESENTE : UInt32 := 0x001

def PAGE_ESCRITA : UInt32 := 0x002

def PAGE_USUARIO : UInt32 := 0x004

/-- The number of static page tables, of 4 MB each. -/
def PT_COUNT : Nat := 16

/-- The entry of the directory for `0xC0000000`. -/
def PD_KERNEL : Nat := 768

/-- Where the linker has put the kernel: its end, the bitmap of the pages, and the two arrays of this
file, which are aligned to pages. All of it lies below 64 MB. -/
structure Imagem where
  fim : Nat
  end_bitmap : Nat
  page_directory : Nat
  page_tables : Nat
  fim_le : fim ≤ PT_COUNT * 1024 * PAGE_SIZE
  diretorio_alinhado : page_directory % PAGE_SIZE = 0
  tabelas_alinhadas : page_tables % PAGE_SIZE = 0
  diretorio_dentro : 0x100000 ≤ page_directory ∧ page_directory + PAGE_SIZE ≤ fim
  tabelas_dentro : 0x100000 ≤ page_tables ∧ page_tables + PT_COUNT * PAGE_SIZE ≤ fim
  apartados : page_directory + PAGE_SIZE ≤ page_tables ∨
    page_tables + PT_COUNT * PAGE_SIZE ≤ page_directory

/-- The page allocator, the slabs with the memory, and the two arrays. Entry `i` of table `pt` is
`page_tables (1024 * pt + i)`. -/
structure Nucleo where
  pmm : Mapa
  slab : Slab.Kernel
  page_directory : Nat → UInt32
  page_tables : Nat → UInt32

section Paginas

variable (g : Imagem) (s : Nucleo)

/-! ## The memory behind the page tables -/

/-- The address lies in `page_directory`. -/
def NoDiretorio (fis : Nat) : Prop :=
  g.page_directory ≤ fis ∧ fis < g.page_directory + PAGE_SIZE

/-- The address lies in `page_tables`. -/
def NasTabelas (fis : Nat) : Prop :=
  g.page_tables ≤ fis ∧ fis < g.page_tables + PT_COUNT * PAGE_SIZE

instance (fis : Nat) : Decidable (NoDiretorio g fis) := inferInstanceAs (Decidable (_ ∧ _))

instance (fis : Nat) : Decidable (NasTabelas g fis) := inferInstanceAs (Decidable (_ ∧ _))

/-- The word at a physical address. -/
def le (fis : Nat) : UInt32 :=
  if NoDiretorio g fis then s.page_directory ((fis - g.page_directory) / 4)
  else if NasTabelas g fis then s.page_tables ((fis - g.page_tables) / 4)
  else UInt32.ofNat (word s.slab.mem fis)

/-- A word written to a physical address. -/
def poe (fis : Nat) (v : UInt32) : Nucleo :=
  if NoDiretorio g fis then
    { s with page_directory := Function.update s.page_directory ((fis - g.page_directory) / 4) v }
  else if NasTabelas g fis then
    { s with page_tables := Function.update s.page_tables ((fis - g.page_tables) / 4) v }
  else { s with slab := { s.slab with mem := putWord s.slab.mem fis v.toNat } }

/-- The physical address that the processor finds for `virt`. `none`: a page fault. -/
def traduz (virt : Nat) : Option Nat :=
  let pde := s.page_directory (virt / (1024 * PAGE_SIZE))
  if pde &&& PAGE_PRESENTE = 0 then none
  else
    let pte := le g s ((pde &&& ~~~0xFFF).toNat + 4 * (virt / PAGE_SIZE % 1024))
    if pte &&& PAGE_PRESENTE = 0 then none else some ((pte &&& ~~~0xFFF).toNat + virt % PAGE_SIZE)

/-- `*virt = v`. -/
def escreve (virt : Nat) (v : UInt32) : Option Nucleo := (traduz g s virt).map fun fis => poe g s fis v

/-! ## The functions of the file

`none`: a page fault. -/

def paging_init : Nucleo :=
  { s with
    page_directory := fun i =>
      if i = PD_KERNEL then UInt32.ofNat g.page_tables ||| PAGE_PRESENTE ||| PAGE_ESCRITA
      else if i < PT_COUNT then
        UInt32.ofNat (g.page_tables + i * PAGE_SIZE) ||| PAGE_PRESENTE ||| PAGE_ESCRITA
      else 0x00000002
    page_tables := fun n => UInt32.ofNat (n * PAGE_SIZE) ||| PAGE_PRESENTE ||| PAGE_ESCRITA }

/-- The loop that clears a new table. -/
def zera (nova_pt : Nat) : Option Nucleo :=
  (List.range 1024).foldlM (fun s i => escreve g s (nova_pt + 4 * i) 0) s

/-- The table of an entry of the directory, made where there is none. `false`: there is no page. -/
def garante_tabela (pd_idx : Nat) : Option (Bool × Nucleo) :=
  if s.page_directory pd_idx &&& PAGE_PRESENTE ≠ 0 then some (true, s)
  else
    let (nova_pt, pmm) := pmm_alloc s.pmm
    let s := { s with pmm := pmm }
    if nova_pt = 0 then some (false, s)
    else (zera g s nova_pt).map fun s => (true, { s with
      page_directory := Function.update s.page_directory pd_idx
        (UInt32.ofNat nova_pt ||| PAGE_PRESENTE ||| PAGE_ESCRITA) })

def paging_mapear (virt fis flags : UInt32) : Option Nucleo :=
  let pd_idx := (virt >>> 22).toNat
  let pt_idx := ((virt >>> 12) &&& 0x3FF).toNat
  (garante_tabela g s pd_idx).bind fun (ha_tabela, s) =>
    if ha_tabela then
      let pt := s.page_directory pd_idx &&& ~~~0xFFF
      escreve g s (pt.toNat + 4 * pt_idx)
        ((fis &&& ~~~0xFFF) ||| (flags &&& 0xFFF) ||| PAGE_PRESENTE)
    else some s

end Paginas

/-! ## Runs -/

/-- A call, or what those who hold pages write to them in between. -/
inductive Chamada where
  | slab_criar (memoria : Bool) (tamanho : UInt32)
  | slab_alloc (i : Nat)
  | paging_mapear (virt fis flags : UInt32)
  | pmm_alloc
  | escrita (mem : Memory)

/-- The call goes to `pmm_alloc` for a page that it writes to: in `slab_novo`, where no slab of the
cache has a free slot, or in `paging_mapear`, where there is no table. -/
def Pede (s : Nucleo) : Chamada → Prop
  | .slab_criar memoria _ => memoria = true
  | .slab_alloc i => ∃ cache, s.slab.caches[i]? = some cache ∧
    search 0 (Slab.proximo s.slab.mem) (fun slab => Slab.livre_count s.slab.mem slab ≠ 0) Slab.VOLTAS
      cache.slab_lista = some 0
  | .paging_mapear virt _ _ => s.page_directory (virt >>> 22).toNat &&& PAGE_PRESENTE = 0
  | _ => False

/-- The page at `a` is mapped, and to itself. -/
def Identidade (g : Imagem) (s : Nucleo) (a : Nat) : Prop :=
  ∀ d < PAGE_SIZE, traduz g s (a + d) = some (a + d)

/-- What a call of the slabs has left. It may have called `pmm_alloc` once. -/
def com_slab (s : Nucleo) (slab : Slab.Kernel) : Nucleo :=
  { s with
    slab := slab
    pmm := if slab.pedidos = s.slab.pedidos then s.pmm else (pmm_alloc s.pmm).2 }

/-- The state after a call. The slabs are read and written where they lie; a call that takes a page
for them which is not mapped to itself goes no further. -/
inductive Passo (g : Imagem) (s : Nucleo) : Chamada → Nucleo → Prop
  | slab_criar {memoria : Bool} {tamanho : UInt32} {slab : Slab.Kernel}
    (h : Slab.slab_criar (fun _ => (pmm_alloc s.pmm).1) memoria s.slab tamanho.toNat = some slab)
    (hi : Pede s (.slab_criar memoria tamanho) → (pmm_alloc s.pmm).1 ≠ 0 →
      Identidade g s (pmm_alloc s.pmm).1) :
    Passo g s (.slab_criar memoria tamanho) (com_slab s slab)
  | slab_alloc {i obj : Nat} {slab : Slab.Kernel}
    (h : Slab.slab_alloc (fun _ => (pmm_alloc s.pmm).1) s.slab i = some (obj, slab))
    (hi : Pede s (.slab_alloc i) → (pmm_alloc s.pmm).1 ≠ 0 → Identidade g s (pmm_alloc s.pmm).1) :
    Passo g s (.slab_alloc i) (com_slab s slab)
  | paging_mapear {virt fis flags : UInt32} {s' : Nucleo}
    (h : paging_mapear g s virt fis flags = some s') : Passo g s (.paging_mapear virt fis flags) s'
  | pmm_alloc : Passo g s .pmm_alloc { s with pmm := (pmm_alloc s.pmm).2 }
  | escrita (mem : Memory) :
    Passo g s (.escrita mem) { s with slab := { s.slab with mem := mem } }

/-- The kernel after `pmm_init` and `paging_init`, with the boot information at `mboot` and any
contents of the memory for the slabs. -/
def Boot (g : Imagem) (mem : Memory) (mboot : Nat) (s : Nucleo) : Prop :=
  ∃ (pmm : Mapa) (m : Memory), pmm_init mem mboot g.fim g.end_bitmap = some pmm ∧
    s = paging_init g ⟨pmm, ⟨m, [], 0⟩, fun _ => 0, fun _ => 0⟩

/-- A run of calls that meet the condition `C`. -/
inductive Corrida (C : Nucleo → Chamada → Prop) (g : Imagem) (mem : Memory) (mboot : Nat) :
    Nucleo → Prop
  | inicio {s : Nucleo} (h : Boot g mem mboot s) : Corrida C g mem mboot s
  | passo {s s' : Nucleo} {c : Chamada} (h : Corrida C g mem mboot s) (hc : C s c)
    (hp : Passo g s c s') : Corrida C g mem mboot s'

end SpaceOS.Paging
