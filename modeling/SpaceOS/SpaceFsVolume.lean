-- What SpaceFS does to a volume, the log and the packing into sectors left out: a state with
-- bitmaps, inodes and data sectors, and one function for each call.
import SpaceOS.SpaceFs

open Lib.Bytes SpaceOS.Ata
open Function (update)

namespace SpaceOS.SpaceFs

/-! ## Fields of an inode after a change of one -/

section InodeFields

variable (x : Inode) (t mtime n b s : Nat)

@[simp] theorem type_por_size : inode_type (inode_por_size x n) = inode_type x := by
  unfold inode_type inode_por_size
  rw [ByteStr.byte_putWord_ne _ _ (Or.inl (by decide))]

@[simp] theorem type_por_block : inode_type (inode_por_block x b s) = inode_type x := by
  unfold inode_type inode_por_block
  rw [ByteStr.byte_putWord_ne _ _ (Or.inl (by omega))]

@[simp] theorem type_por_type : inode_type (inode_por_type x t) = t % 256 := by
  unfold inode_type inode_por_type
  rw [ByteStr.byte_putByte_self _ _ (by decide), UInt8.toNat_ofNat']

@[simp] theorem type_sem_blocos : inode_type (inode_sem_blocos x) = inode_type x := by
  unfold inode_type inode_sem_blocos
  rw [ByteStr.byte_splice_ne _ _ (Or.inl (by decide))]

@[simp] theorem type_novo : inode_type (inode_novo t mtime) = t % 256 := by
  unfold inode_novo inode_type
  rw [ByteStr.byte_putWord_ne _ _ (Or.inl (by decide)),
    ByteStr.byte_putHalf_ne _ _ (Or.inl (by decide))]
  exact type_por_type ByteStr.zero t

@[simp] theorem size_por_size : inode_size (inode_por_size x n) = n % 2 ^ 32 :=
  x.word_putWord_self n (by decide)

@[simp] theorem size_sem_blocos : inode_size (inode_sem_blocos x) = inode_size x :=
  x.word_splice_ne _ (Or.inl (by decide)) (by decide)

@[simp] theorem block_por_size : inode_block (inode_por_size x n) b = inode_block x b := by
  unfold inode_block inode_por_size
  by_cases h : 12 + 4 * b + 4 ≤ 64
  · exact x.word_putWord_ne n (Or.inr (by omega)) h
  · refine ByteStr.word_congr fun y hy => ?_
    have h1 : ∀ z : Inode, z.mem (12 + 4 * b + y) = 0 := fun z => by
      rw [ByteStr.mem, dif_neg (by omega)]
    rw [h1, h1]

variable {b}

theorem size_por_block (hb : b < 10) : inode_size (inode_por_block x b s) = inode_size x :=
  x.word_putWord_ne s (Or.inl (by omega)) (by decide)

theorem block_por_block_self (hb : b < 10) : inode_block (inode_por_block x b s) b = s % 2 ^ 32 :=
  x.word_putWord_self s (by omega)

theorem block_por_block_ne {c : Nat} (hc : c < 10) (h : c ≠ b) :
    inode_block (inode_por_block x b s) c = inode_block x c :=
  x.word_putWord_ne s (by omega) (by omega)

theorem block_por_type (hb : b < 10) : inode_block (inode_por_type x t) b = inode_block x b :=
  x.word_putByte_ne _ (Or.inr (by omega)) (by omega)

theorem block_sem_blocos (hb : b < 10) : inode_block (inode_sem_blocos x) b = 0 := by
  unfold inode_block inode_sem_blocos
  rw [ByteStr.word_splice_self _ _ (by omega) (by omega) (by decide), ByteStr.word_zero]

theorem block_novo (hb : b < 10) : inode_block (inode_novo t mtime) b = 0 := by
  unfold inode_block inode_novo inode_por_type
  rw [ByteStr.word_putWord_ne _ _ (Or.inr (by omega)) (by omega),
    ByteStr.word_putHalf_ne _ _ (Or.inr (by omega)) (by omega),
    ByteStr.word_putByte_ne _ _ (Or.inr (by omega)) (by omega), ByteStr.word_zero]

theorem size_novo : inode_size (inode_novo t mtime) = 0 := by
  unfold inode_size inode_novo inode_por_type
  rw [ByteStr.word_putWord_ne _ _ (Or.inl (by decide)) (by decide),
    ByteStr.word_putHalf_ne _ _ (Or.inr (by decide)) (by decide),
    ByteStr.word_putByte_ne _ _ (Or.inr (by decide)) (by decide), ByteStr.word_zero]

end InodeFields

/-- The bits of the block bitmap. -/
@[irreducible] def BMAP_BITS : Nat := 512 * 8

theorem BMAP_BITS_eq : BMAP_BITS = 4096 := by unfold BMAP_BITS; rfl

structure Volume where
  imap : Nat → Bool
  bmap : Nat → Bool
  ino : Nat → Inode
  dado : Nat → Setor
  free_inodes : Nat
  free_blocks : Nat

namespace Volume

def por_ino (v : Volume) (i : Nat) (x : Inode) : Volume := { v with ino := update v.ino i x }

def por_dado (v : Volume) (s : Nat) (b : Setor) : Volume := { v with dado := update v.dado s b }

/-! ## Allocation -/

def alloc_inode (v : Volume) : Option Nat × Volume :=
  match (List.range' 1 (SFS_INODE_MAX - 1)).find? fun i => !v.imap i with
  | none => (none, v)
  | some i => (some i, { v with
      imap := update v.imap i true
      free_inodes := (v.free_inodes + 2 ^ 32 - 1) % 2 ^ 32 })

def alloc_block (v : Volume) : Option Nat × Volume :=
  match (List.range (BMAP_BITS)).find? fun n => !v.bmap n with
  | none => (none, v)
  | some n => (some (SFS_DATA_START + n), { v with
      bmap := update v.bmap n true
      free_blocks := (v.free_blocks + 2 ^ 32 - 1) % 2 ^ 32 })

/-- `alloc_block` fails, with every bit set, or takes the lowest free one. -/
theorem alloc_block_cases (v : Volume) :
    ((∀ n < BMAP_BITS, v.bmap n = true) ∧ v.alloc_block = (none, v)) ∨
      ∃ n < BMAP_BITS, v.bmap n = false ∧
        (List.range (BMAP_BITS)).find? (fun n => !v.bmap n) = some n ∧
        v.alloc_block = (some (SFS_DATA_START + n), { v with
          bmap := update v.bmap n true
          free_blocks := (v.free_blocks + 2 ^ 32 - 1) % 2 ^ 32 }) := by
  cases h : (List.range (BMAP_BITS)).find? fun n => !v.bmap n with
  | none =>
    refine Or.inl ⟨fun n hn => ?_, by unfold alloc_block; rw [h]⟩
    simpa using List.find?_eq_none.mp h n (List.mem_range.mpr hn)
  | some n =>
    refine Or.inr ⟨n, List.mem_range.mp (List.mem_of_find?_eq_some h), ?_, rfl, by
      unfold alloc_block; rw [h]⟩
    simpa using List.find?_some h

/-- `alloc_inode` fails or takes an inode that was free. -/
theorem alloc_inode_cases (v : Volume) :
    ((List.range' 1 (SFS_INODE_MAX - 1)).find? (fun i => !v.imap i) = none ∧
      v.alloc_inode = (none, v)) ∨
      ∃ i, 1 ≤ i ∧ i < SFS_INODE_MAX ∧ v.imap i = false ∧
        (List.range' 1 (SFS_INODE_MAX - 1)).find? (fun i => !v.imap i) = some i ∧
        v.alloc_inode = (some i, { v with
          imap := update v.imap i true
          free_inodes := (v.free_inodes + 2 ^ 32 - 1) % 2 ^ 32 }) := by
  cases h : (List.range' 1 (SFS_INODE_MAX - 1)).find? fun i => !v.imap i with
  | none => exact Or.inl ⟨rfl, by simp only [alloc_inode, h]⟩
  | some i =>
    have hm := List.mem_range'_1.mp (List.mem_of_find?_eq_some h)
    refine Or.inr ⟨i, hm.1, by simp only [SFS_INODE_MAX] at *; omega, ?_, rfl, by
      simp only [alloc_inode, h]⟩
    simpa using List.find?_some h

def free_block (v : Volume) (s : Nat) : Volume := { v with
  bmap := update v.bmap (s - SFS_DATA_START) false
  free_blocks := (v.free_blocks + 1) % 2 ^ 32 }

def free_blocks_of (in_ : Inode) : List Nat → Volume → Volume
  | [], v => v
  | i :: is, v =>
    free_blocks_of in_ is (if inode_block in_ i ≠ 0 then v.free_block (inode_block in_ i) else v)

def free_inode (v : Volume) (i : Nat) : Volume := { v with
  imap := update v.imap i false
  free_inodes := (v.free_inodes + 1) % 2 ^ 32 }

/-! ## Paths -/

/-- The inode named `tok` in the directory, over the block numbers left and the entries left. -/
def busca (v : Volume) (dir : Inode) (tok : List UInt8) : List Nat → Nat → Option Nat
  | [], _ => none
  | b :: bs, entries =>
    if entries = 0 then none
    else if inode_block dir b = 0 then none
    else
      match busca_bloco (v.dado (inode_block dir b)) tok entries with
      | some e => some (dirent_inode (v.dado (inode_block dir b)) e)
      | none => v.busca dir tok bs (entries - SFS_DIRENTS_PER_BLK)

/-- The inode named `tok` in the directory `cur`. -/
def entra (v : Volume) (cur : Nat) (tok : List UInt8) : Option Nat :=
  if inode_type (v.ino cur) ≠ 2 then none
  else v.busca (v.ino cur) tok (List.range 10) (inode_size (v.ino cur) / 32)

def caminho (v : Volume) : List (List UInt8) → Nat → Nat → Option (Nat × Nat)
  | [], cur, parent => some (cur, parent)
  | tok :: resto, cur, parent =>
    if tok = [] then v.caminho resto cur parent
    else
      match v.entra cur tok with
      | none => none
      | some i => v.caminho resto i cur

/-- The components of a path. -/
def componentes (path : List UInt8) : List (List UInt8) :=
  partes ((if path.head? = some BARRA then path.tail else path).take 127)

/-- The inode that a path resolves to, and the directory it is found in. -/
def resolve (v : Volume) (path : List UInt8) : Option (Nat × Nat) :=
  v.caminho (componentes path) 0 0

/-! ## Directories -/

/-- The first entry of a block that is free. -/
def vaga (dblk : Setor) : Option Nat :=
  (List.range SFS_DIRENTS_PER_BLK).find? fun e => dirent_inode dblk e = 0

/-- The block that an entry may go into: the one at place `b` of the directory, or a new one. -/
def abre_bloco (v : Volume) (dir : Inode) (b : Nat) : Option (Nat × Inode × Setor) × Volume :=
  if inode_block dir b = 0 then
    match v.alloc_block with
    | (none, v) => (none, v)
    | (some s, v) => (some (s, inode_por_block dir b s, ByteStr.zero), v)
  else (some (inode_block dir b, dir, v.dado (inode_block dir b)), v)

/-- A block that is opened is a free one or the one at the place. -/
theorem abre_bloco_cases {v w : Volume} {dir dir' : Inode} {b s : Nat} {dblk : Setor}
    (h : v.abre_bloco dir b = (some (s, dir', dblk), w)) :
    (inode_block dir b = 0 ∧ ∃ n < BMAP_BITS, v.bmap n = false ∧ s = SFS_DATA_START + n ∧
      dir' = inode_por_block dir b (SFS_DATA_START + n) ∧ dblk = ByteStr.zero ∧ w = { v with
        bmap := update v.bmap n true
        free_blocks := (v.free_blocks + 2 ^ 32 - 1) % 2 ^ 32 }) ∨
    (inode_block dir b ≠ 0 ∧ s = inode_block dir b ∧ dir' = dir ∧
      dblk = v.dado (inode_block dir b) ∧ w = v) := by
  unfold abre_bloco at h
  by_cases h0 : inode_block dir b = 0
  · rw [if_pos h0] at h
    rcases v.alloc_block_cases with ⟨_, he⟩ | ⟨n, hn, hfree, _, he⟩
    · rw [he] at h
      cases h
    · rw [he] at h
      cases h
      exact Or.inl ⟨h0, n, hn, hfree, rfl, rfl, rfl, rfl⟩
  · rw [if_neg h0] at h
    cases h
    exact Or.inr ⟨h0, rfl, rfl, rfl, rfl⟩

def dir_add_laco (dir_inum child : Nat) (name : List UInt8) :
    List Nat → Inode → Volume → Bool × Volume
  | [], _, v => (false, v)
  | b :: bs, dir, v =>
    match v.abre_bloco dir b with
    | (none, v) => (false, v)
    | (some (s, dir, dblk), v) =>
      match vaga dblk with
      | some e => (true, (v.por_dado s (dirent_por dblk e child name)).por_ino dir_inum
          (inode_por_size dir (inode_size dir + 32)))
      | none => dir_add_laco dir_inum child name bs dir v

def dir_add_entry (v : Volume) (dir_inum child : Nat) (name : List UInt8) : Bool × Volume :=
  dir_add_laco dir_inum child name (List.range 10) (v.ino dir_inum) v

def dir_remove (dir : Inode) (inum : Nat) : List Nat → Volume → Volume
  | [], v => v
  | b :: bs, v =>
    if inode_block dir b = 0 then v
    else
      match (List.range SFS_DIRENTS_PER_BLK).find? fun e =>
          dirent_inode (v.dado (inode_block dir b)) e = inum with
      | some e => v.por_dado (inode_block dir b)
          (dirent_por_inode (v.dado (inode_block dir b)) e 0)
      | none => dir_remove dir inum bs v

/-! ## The calls -/

def read_laco (v : Volume) (in_ : Inode) (to_read : Nat) : List Nat → List UInt8 → List UInt8
  | [], done => done
  | b :: bs, done =>
    if to_read ≤ done.length then done
    else if inode_block in_ b = 0 then done
    else v.read_laco in_ to_read bs (done ++
      (List.ofFn (v.dado (inode_block in_ b))).take (min (to_read - done.length) SETOR_SIZE))

def read (v : Volume) (path : List UInt8) (max : Nat) : Option (List UInt8) :=
  match v.resolve path with
  | none => none
  | some (i, _) =>
    if inode_type (v.ino i) ≠ 1 then none
    else some (v.read_laco (v.ino i) (min (inode_size (v.ino i)) max) (List.range 10) [])

def write_laco (buf : List UInt8) : List Nat → Inode → Nat → Volume → (Inode × Nat) × Volume
  | [], in_, done, v => ((in_, done), v)
  | b :: bs, in_, done, v =>
    if buf.length ≤ done then ((in_, done), v)
    else
      match v.alloc_block with
      | (none, v) => ((in_, done), v)
      | (some s, v) =>
        write_laco buf bs (inode_por_block in_ b s) (done + min (buf.length - done) SETOR_SIZE)
          (v.por_dado s (bloco_de ((buf.drop done).take (min (buf.length - done) SETOR_SIZE))))

def parent_find (v : Volume) (parent_path : List UInt8) : Option Nat :=
  if parent_path = [] then some 0 else (v.resolve parent_path).map Prod.fst

/-- The inode `i` with its blocks given back. -/
def esvazia (v : Volume) (i : Nat) : Volume :=
  (free_blocks_of (v.ino i) (List.range 10) v).por_ino i
    (inode_sem_blocos (inode_por_size (v.ino i) 0))

/-- A new inode of the given type under `name`. -/
def cria (v : Volume) (parent : Nat) (name : List UInt8) (type ticks : Nat) :
    Option Nat × Volume :=
  match v.alloc_inode with
  | (none, v) => (none, v)
  | (some i, v) => (some i, ((v.por_ino i (inode_novo type ticks)).dir_add_entry parent i name).2)

def write_inode (v : Volume) (path : List UInt8) (parent : Nat) (name : List UInt8)
    (ticks : Nat) : Option Nat × Volume :=
  match v.resolve path with
  | some (i, _) => (some i, v.esvazia i)
  | none => v.cria parent name 1 ticks

/-- The data of a write put into the inode `i`, which has no blocks. -/
def enche (v : Volume) (i : Nat) (buf : List UInt8) : Nat × Volume :=
  match write_laco buf (List.range 10) (inode_por_size (v.ino i) buf.length) 0 v with
  | ((in_, done), v) => (done, v.por_ino i in_)

def write (v : Volume) (path buf : List UInt8) (ticks : Nat) : Option Nat × Volume :=
  if 10 * 512 < buf.length then (none, v)
  else
    match v.parent_find (path_split path).1 with
    | none => (none, v)
    | some parent =>
      match v.write_inode path parent (path_split path).2 ticks with
      | (none, v) => (none, v)
      | (some i, v) => (some (v.enche i buf).1, (v.enche i buf).2)

def mkdir (v : Volume) (path : List UInt8) (ticks : Nat) : Bool × Volume :=
  match v.parent_find (path_split path).1 with
  | none => (false, v)
  | some parent =>
    match v.cria parent (path_split path).2 2 ticks with
    | (none, v) => (false, v)
    | (some _, v) => (true, v)

/-- The inode `i` taken out of use, its blocks given back. -/
def apaga (v : Volume) (i : Nat) : Volume :=
  ((free_blocks_of (v.ino i) (List.range 10) v).por_ino i (inode_por_type (v.ino i) 0)).free_inode i

def unlink (v : Volume) (path : List UInt8) : Bool × Volume :=
  match v.resolve path with
  | none => (false, v)
  | some (i, parent) =>
    (true, dir_remove ((v.apaga i).ino parent) i (List.range 10) (v.apaga i))

/-! ## What a search finds -/

theorem busca_bloco_some {dblk : Setor} {tok : List UInt8} {entries e : Nat}
    (h : busca_bloco dblk tok entries = some e) :
    e < SFS_DIRENTS_PER_BLK ∧ e < entries ∧ dirent_inode dblk e ≠ 0 ∧ dirent_name dblk e = tok := by
  have hm := List.mem_range.mp (List.mem_of_find?_eq_some h)
  have hp := List.find?_some h
  simp only [Bool.and_eq_true, decide_eq_true_eq] at hp
  exact ⟨by omega, by omega, hp⟩

/-- The inode found is in an entry of the directory, and every block before it is there. -/
theorem busca_some {v : Volume} {dir : Inode} {tok : List UInt8} {l : List Nat} {entries i : Nat}
    (h : v.busca dir tok l entries = some i) :
    ∃ pre b post, l = pre ++ b :: post ∧ (∀ c ∈ pre, inode_block dir c ≠ 0) ∧
      inode_block dir b ≠ 0 ∧ ∃ e < SFS_DIRENTS_PER_BLK,
        dirent_inode (v.dado (inode_block dir b)) e = i ∧ i ≠ 0 ∧
        dirent_name (v.dado (inode_block dir b)) e = tok := by
  induction l generalizing entries with
  | nil => cases h
  | cons b l ih =>
    rw [busca] at h
    split at h
    · cases h
    split at h
    · cases h
    rename_i hb
    split at h
    · rename_i _ e he
      obtain ⟨h1, _, h3, h4⟩ := busca_bloco_some he
      cases h
      exact ⟨[], b, l, rfl, by simp, hb, e, h1, rfl, h3, h4⟩
    · obtain ⟨pre, b', post, hl, hpre, h'⟩ := ih h
      exact ⟨b :: pre, b', post, by rw [hl]; rfl, List.forall_mem_cons.mpr ⟨hb, hpre⟩, h'⟩

theorem entra_busca {v : Volume} {cur i : Nat} {tok : List UInt8} (h : v.entra cur tok = some i) :
    inode_type (v.ino cur) = 2 ∧
      v.busca (v.ino cur) tok (List.range 10) (inode_size (v.ino cur) / 32) = some i := by
  unfold entra at h
  split at h
  · cases h
  · rename_i ht
    exact ⟨not_not.mp ht, h⟩

theorem entra_some {v : Volume} {cur i : Nat} {tok : List UInt8} (h : v.entra cur tok = some i) :
    inode_type (v.ino cur) = 2 ∧ ∃ b < 10, inode_block (v.ino cur) b ≠ 0 ∧
      ∃ e < SFS_DIRENTS_PER_BLK, dirent_inode (v.dado (inode_block (v.ino cur) b)) e = i ∧ i ≠ 0 := by
  obtain ⟨ht, hb⟩ := entra_busca h
  obtain ⟨pre, b, post, hl, _, hb0, e, he, hi, h0, _⟩ := busca_some hb
  exact ⟨ht, b, List.mem_range.mp (by rw [hl]; simp), hb0, e, he, hi, h0⟩

end Volume

end SpaceOS.SpaceFs
