-- The slab allocator (kernel/mem/slab.c): caches of objects of one size, in pages whose free slots
-- are linked through their first words.
import SpaceOS.Lib.Bytes
import SpaceOS.Lib.LinkedList

open Lib.Bytes Lib.LinkedList

namespace SpaceOS.Slab

def PAGE_SIZE : Nat := 4096

/-- `sizeof(slab_t)`: a counter and two pointers of 32 bits. -/
def SLAB_CABECALO : Nat := 12

/-- The turns that a loop over the slabs may take before it counts as endless. There are no more
pointers than that. -/
def VOLTAS : Nat := 2 ^ 32

/-- `slab_cache_t`, without the link to the next cache. -/
structure Cache where
  obj_size : Nat
  objs_por_slab : Nat
  slab_lista : Nat

/-- The memory of the pages, the caches in the order in which they were created, and how often
`pmm_alloc` was called. -/
structure Kernel where
  mem : Memory
  caches : List Cache
  pedidos : Nat

/-! ## The header of the slab at address `a` -/

def livre_count (m : Memory) (a : Nat) : Nat := word m a

def free_list (m : Memory) (a : Nat) : Nat := word m (a + 4)

def proximo (m : Memory) (a : Nat) : Nat := word m (a + 8)

def por_livre_count (m : Memory) (a v : Nat) : Memory := putWord m a v

def por_free_list (m : Memory) (a v : Nat) : Memory := putWord m (a + 4) v

def por_proximo (m : Memory) (a v : Nat) : Memory := putWord m (a + 8) v

/-! ## The functions of the file

`paginas n` is what the `n`-th call of `pmm_alloc` returns. `none`: the call does not return, since a
loop does not end or a division is by zero. -/

/-- The address of slot `i`. -/
def slot (base obj_size i : Nat) : Nat := base + i * obj_size

/-- The loop that links the slots, and the null pointer in the last one. -/
def liga_slots (m : Memory) (base obj_size objs_por_slab : Nat) : Memory :=
  let ultimo := (objs_por_slab + 2 ^ 32 - 1) % 2 ^ 32
  let m := (List.range ultimo).foldl
    (fun m i => putWord m (slot base obj_size i) (slot base obj_size (i + 1))) m
  putWord m (slot base obj_size ultimo) 0

/-- A new slab in the page at `fis`, with its cache. -/
def prepara (m : Memory) (cache : Cache) (fis : Nat) : Cache × Memory :=
  let cache := { cache with objs_por_slab := (PAGE_SIZE - SLAB_CABECALO) / cache.obj_size }
  let m := por_livre_count m fis cache.objs_por_slab
  let m := por_proximo m fis 0
  let base := fis + SLAB_CABECALO
  let m := por_free_list m fis base
  (cache, liga_slots m base cache.obj_size cache.objs_por_slab)

/-- The slab is 0 where there is no page. -/
def slab_novo (paginas : Nat → Nat) (k : Kernel) (cache : Cache) : Option (Nat × Cache × Kernel) :=
  let fis := paginas k.pedidos
  let k := { k with pedidos := k.pedidos + 1 }
  if fis = 0 then some (0, cache, k)
  else if cache.obj_size = 0 then none
  else
    let (cache, m) := prepara k.mem cache fis
    some (fis, cache, { k with mem := m })

/-- The size of an object: at least 8, and a multiple of 4, in 32 bits. -/
def arredonda (tamanho : Nat) : Nat :=
  let tamanho := if tamanho < 8 then 8 else tamanho
  (tamanho + 3) % 2 ^ 32 / 4 * 4

/-- `memoria`: whether `kmalloc` has the memory for the cache. -/
def slab_criar (paginas : Nat → Nat) (memoria : Bool) (k : Kernel) (tamanho : Nat) : Option Kernel :=
  if memoria = false then some k
  else
    (slab_novo paginas k ⟨arredonda tamanho, 0, 0⟩).map fun (slab, cache, k) =>
      { k with caches := k.caches ++ [{ cache with slab_lista := slab }] }

/-- The first slot of the free list, taken. -/
def toma (m : Memory) (slab : Nat) : Nat × Memory :=
  let obj := free_list m slab
  let m := por_free_list m slab (word m obj)
  (obj, por_livre_count m slab ((livre_count m slab + 2 ^ 32 - 1) % 2 ^ 32))

/-- The slab that `slab_alloc` takes an object of: one with a free slot, or a new one in front. -/
def escolhe (paginas : Nat → Nat) (k : Kernel) (cache : Cache) : Option (Nat × Cache × Kernel) :=
  (search 0 (proximo k.mem) (fun slab => livre_count k.mem slab ≠ 0) VOLTAS cache.slab_lista).bind
    fun slab =>
      if slab ≠ 0 then some (slab, cache, k)
      else
        (slab_novo paginas k cache).map fun (slab, cache, k) =>
          if slab = 0 then (0, cache, k)
          else
            (slab, { cache with slab_lista := slab },
              { k with mem := por_proximo k.mem slab cache.slab_lista })

/-- `slab_alloc` on cache number `i`; 0 where there is no such cache, or no page. -/
def slab_alloc (paginas : Nat → Nat) (k : Kernel) (i : Nat) : Option (Nat × Kernel) :=
  match k.caches[i]? with
  | none => some (0, k)
  | some cache =>
    (escolhe paginas k cache).map fun (slab, cache, k) =>
      let k := { k with caches := k.caches.set i cache }
      if slab = 0 then (0, k)
      else
        let (obj, m) := toma k.mem slab
        (obj, { k with mem := m })

/-- The start of the page of an address. -/
def pagina (ptr : Nat) : Nat := ptr / PAGE_SIZE * PAGE_SIZE

/-- `slab_free` looks at the cache only to see whether it is null. -/
def slab_free (k : Kernel) (i ptr : Nat) : Kernel :=
  if k.caches.length ≤ i ∨ ptr = 0 then k
  else
    let slab := pagina ptr
    let m := putWord k.mem ptr (free_list k.mem slab)
    let m := por_free_list m slab ptr
    { k with mem := por_livre_count m slab ((livre_count m slab + 1) % 2 ^ 32) }

end SpaceOS.Slab
