-- The kernel heap (kernel/mem/kheap.c): a list of blocks in memory, each a
-- packed header of nine bytes and its payload.
import SpaceOS.Lib.Bytes

open Lib.Bytes

namespace SpaceOS.Kheap

/-- `sizeof(bloco_t)`: packed, with a 32-bit pointer. -/
def CABECALHO : Nat := 9

def HEAP_INICIO : Nat := 0x00300000

def HEAP_PAGINAS : Nat := 64

/-- The turns that a loop over the list may take before it counts as endless.
There are no more pointers than that. -/
def VOLTAS : Nat := 2 ^ 32

/-- The memory, and the static variables of the file. -/
structure Heap where
  mem : Memory
  heap_inicio : Nat
  inicializado : Bool

/-! ## The fields of the header at address `a` -/

def tamanho (m : Memory) (a : Nat) : Nat := word m a

def livre (m : Memory) (a : Nat) : UInt8 := m (a + 4)

def proximo (m : Memory) (a : Nat) : Nat := word m (a + 5)

def por_tamanho (m : Memory) (a v : Nat) : Memory := putWord m a v

def por_livre (m : Memory) (a : Nat) (v : UInt8) : Memory := putByte m (a + 4) v

def por_proximo (m : Memory) (a v : Nat) : Memory := putWord m (a + 5) v

/-! ## The functions of the file -/

def kheap_init (h : Heap) : Heap :=
  let total_bytes := HEAP_PAGINAS * 4096
  let m := por_tamanho h.mem HEAP_INICIO (total_bytes - CABECALHO)
  let m := por_livre m HEAP_INICIO 1
  let m := por_proximo m HEAP_INICIO 0
  { mem := m, heap_inicio := HEAP_INICIO, inicializado := true }

/-- The split of block `atual`, where enough would be left for a header and 8 bytes. -/
def dividir (m : Memory) (atual tam : Nat) : Memory :=
  if (tam + CABECALHO + 8) % 2 ^ 32 ≤ tamanho m atual then
    let novo := atual + CABECALHO + tam
    let m := por_tamanho m novo (tamanho m atual + 2 ^ 32 - tam - CABECALHO)
    let m := por_livre m novo 1
    let m := por_proximo m novo (proximo m atual)
    let m := por_tamanho m atual tam
    por_proximo m atual novo
  else m

/-- The loop of `kmalloc`. `none`: it does not end. -/
def kmalloc_busca (tam : Nat) (m : Memory) : Nat → Nat → Option (Nat × Memory)
  | 0, _ => none
  | voltas + 1, atual =>
    if atual = 0 then some (0, m)
    else if livre m atual ≠ 0 ∧ tam ≤ tamanho m atual then
      some (atual + CABECALHO, por_livre (dividir m atual tam) atual 0)
    else kmalloc_busca tam m voltas (proximo m atual)

/-- `tamanho = (tamanho + 3) & ~3`, in 32 bits. -/
def alinhar (tam : Nat) : Nat := (tam + 3) % 2 ^ 32 / 4 * 4

/-- The pointer that `kmalloc` returns (0 for none), and the heap after the call. -/
def kmalloc (h : Heap) (tam : Nat) : Option (Nat × Heap) :=
  if h.inicializado = false ∨ tam = 0 then some (0, h)
  else (kmalloc_busca (alinhar tam) h.mem VOLTAS h.heap_inicio).map fun r =>
    (r.1, { h with mem := r.2 })

/-- The coalescing loop of `kfree`. `none`: it does not end. -/
def kfree_junta : Nat → Memory → Nat → Option Memory
  | 0, _, _ => none
  | voltas + 1, m, atual =>
    if atual = 0 ∨ proximo m atual = 0 then some m
    else if livre m atual ≠ 0 ∧ livre m (proximo m atual) ≠ 0 then
      let m := por_tamanho m atual (tamanho m atual + (CABECALHO + tamanho m (proximo m atual)))
      let m := por_proximo m atual (proximo m (proximo m atual))
      kfree_junta voltas m atual
    else kfree_junta voltas m (proximo m atual)

def kfree (h : Heap) (ptr : Nat) : Option Heap :=
  if ptr = 0 then some h
  else (kfree_junta VOLTAS (por_livre h.mem (ptr - CABECALHO) 1) h.heap_inicio).map fun m =>
    { h with mem := m }

/-! ## The header fields after a write -/

section Campos

variable (m : Memory) {a b : Nat}

theorem proximo_lt : proximo m a < 2 ^ 32 := word_lt m (a + 5)

@[simp] theorem tamanho_por_tamanho (v : Nat) : tamanho (por_tamanho m a v) a = v % 2 ^ 32 :=
  word_putWord_self m a v

@[simp] theorem livre_por_tamanho (v : Nat) : livre (por_tamanho m a v) a = livre m a :=
  putWord_ne m v (by omega)

@[simp] theorem proximo_por_tamanho (v : Nat) : proximo (por_tamanho m a v) a = proximo m a :=
  word_putWord_ne m v (by omega)

@[simp] theorem tamanho_por_livre (v : UInt8) : tamanho (por_livre m a v) a = tamanho m a :=
  word_putByte_ne m v (by omega)

@[simp] theorem livre_por_livre (v : UInt8) : livre (por_livre m a v) a = v :=
  putByte_self m (a + 4) v

@[simp] theorem proximo_por_livre (v : UInt8) : proximo (por_livre m a v) a = proximo m a :=
  word_putByte_ne m v (by omega)

@[simp] theorem tamanho_por_proximo (v : Nat) : tamanho (por_proximo m a v) a = tamanho m a :=
  word_putWord_ne m v (by omega)

@[simp] theorem livre_por_proximo (v : Nat) : livre (por_proximo m a v) a = livre m a :=
  putWord_ne m v (by omega)

@[simp] theorem proximo_por_proximo (v : Nat) : proximo (por_proximo m a v) a = v % 2 ^ 32 :=
  word_putWord_self m (a + 5) v

theorem por_tamanho_ne (v : Nat) (h : b < a ∨ a + 9 ≤ b) : por_tamanho m a v b = m b :=
  putWord_ne m v (by omega)

theorem por_livre_ne (v : UInt8) (h : b < a ∨ a + 9 ≤ b) : por_livre m a v b = m b :=
  putByte_ne m v (by omega)

theorem por_proximo_ne (v : Nat) (h : b < a ∨ a + 9 ≤ b) : por_proximo m a v b = m b :=
  putWord_ne m v (by omega)

end Campos

/-! ## Headers that a write leaves alone -/

/-- The nine bytes of the header at `a` are the same in two memories. -/
def MesmoCabecalho (m m' : Memory) (a : Nat) : Prop := ∀ x, a ≤ x → x < a + 9 → m' x = m x

namespace MesmoCabecalho

variable {m m' m'' : Memory} {a b : Nat}

theorem tamanho (h : MesmoCabecalho m m' a) : tamanho m' a = Kheap.tamanho m a :=
  word_congr fun i h1 h2 => h i h1 (by omega)

theorem livre (h : MesmoCabecalho m m' a) : livre m' a = Kheap.livre m a :=
  h (a + 4) (by omega) (by omega)

theorem proximo (h : MesmoCabecalho m m' a) : proximo m' a = Kheap.proximo m a :=
  word_congr fun i h1 h2 => h i (by omega) (by omega)

theorem por_tamanho (h : MesmoCabecalho m m' b) (v : Nat) (hab : b + 9 ≤ a ∨ a + 9 ≤ b) :
    MesmoCabecalho m (por_tamanho m' a v) b :=
  fun x h1 h2 => (por_tamanho_ne m' v (by omega)).trans (h x h1 h2)

theorem por_livre (h : MesmoCabecalho m m' b) (v : UInt8) (hab : b + 9 ≤ a ∨ a + 9 ≤ b) :
    MesmoCabecalho m (por_livre m' a v) b :=
  fun x h1 h2 => (por_livre_ne m' v (by omega)).trans (h x h1 h2)

theorem por_proximo (h : MesmoCabecalho m m' b) (v : Nat) (hab : b + 9 ≤ a ∨ a + 9 ≤ b) :
    MesmoCabecalho m (por_proximo m' a v) b :=
  fun x h1 h2 => (por_proximo_ne m' v (by omega)).trans (h x h1 h2)

theorem refl (m : Memory) (a : Nat) : MesmoCabecalho m m a := fun _ _ _ => rfl

end MesmoCabecalho

end SpaceOS.Kheap
