-- Runs of a formatted and mounted SpaceFS: as long as no write goes to a directory and no
-- unlink to the root, each data sector in use has one owner.
import SpaceOS.SpaceFsRun

open Lib.Bytes Lib.BlockProg Lib.Ownership SpaceOS.Ata
open Function (update update_self update_of_ne)

namespace SpaceOS.SpaceFs

open SpaceOS.Journal (J_META_SECTOR J_MAGIC J_MAX_ENTRIES VOLTAS meta_magic meta_head meta_tail
  meta_vazia pendentes)

/-! ## Runs -/

/-- A call that changes the file system. -/
inductive Chamada where
  | write (path buf : List UInt8) (ticks : Nat)
  | mkdir (path : List UInt8) (ticks : Nat)
  | unlink (path : List UInt8)

namespace Chamada

def path : Chamada → List UInt8
  | .write path _ _ => path
  | .mkdir path _ => path
  | .unlink path => path

def executa : Chamada → StateT Mem (Prog Setor) Unit
  | .write path buf ticks => do
    let _ ← pelo_journal (spfs_write path buf ticks)
  | .mkdir path ticks => do
    let _ ← pelo_journal (spfs_mkdir path ticks)
  | .unlink path => do
    let _ ← pelo_journal (spfs_unlink path)

/-- What the call does to a volume. -/
def no_volume (c : Chamada) (v : Volume) : Volume :=
  match c with
  | .write path buf ticks => (v.write path buf ticks).2
  | .mkdir path ticks => (v.mkdir path ticks).2
  | .unlink path => (v.unlink path).2

end Chamada

/-- A string of at most 127 characters. -/
def Caminho (path : List UInt8) : Prop := path.length ≤ 127 ∧ 0 ∉ path

/-- The states of a run: a format and a mount, where the disk between the two satisfies `I`,
then calls, each of which satisfies `P` in the state it starts from. -/
inductive Alcanca (I : Disco → Prop) (P : Mem → Disco → Chamada → Prop) : Mem → Disco → Prop
  | monta {m0 m1 m : Mem} {d0 d1 d : Disco} {pilha : Setor}
    (hf : ((spfs_format pilha).run m0).exec d0 = some ((true, m1), d1)) (hi : I d1)
    (hm : (spfs_mount.run m1).exec d1 = some ((true, m), d)) : Alcanca I P m d
  | chama {m m' : Mem} {d d' : Disco} {c : Chamada} (h : Alcanca I P m d) (hc : Caminho c.path)
    (hp : P m d c) (he : (c.executa.run m).exec d = some (((), m'), d')) : Alcanca I P m' d'

/-- The inode that `path_find` finds. -/
def acha (m : Mem) (d : Disco) (path : List UInt8) : Option Nat :=
  match ((path_find path).run m.fs).exec d with
  | some ((some (i, _), _), _) => some i
  | _ => none

/-- The call puts no data into a directory and does not remove the root. -/
def Poupa (m : Mem) (d : Disco) : Chamada → Prop
  | .write path buf _ => ∀ i, acha m d path = some i → inode_type (ino d i) = 2 → buf = []
  | .mkdir _ _ => True
  | .unlink path => acha m d path ≠ some 0

section Runs

variable {m : Mem} {d : Disco} {v : Volume} {c : Chamada}

theorem acha_eq {T : Nat → Prop} (hv : Vivo m d v) (hn : Navegavel T v) (path : List UInt8) :
    acha m d path = (v.resolve path).map Prod.fst := by
  obtain ⟨⟨a, fs⟩, d', he, ha, _⟩ := (refina_path_find hn path m.fs d hv.rep).exec
  change a = v.resolve path at ha
  unfold acha
  rw [he, ha]
  rcases v.resolve path with _ | ⟨i, p⟩ <;> rfl

/-- A call that spares the directories, on the volume. -/
theorem Poupa.coeso (hv : Vivo m d v) (hc : Coeso v) (hp : Poupa m d c) : Coeso (c.no_volume v) := by
  cases c with
  | write path buf ticks =>
    refine coeso_write hc _ _ ticks fun i p hr => ?_
    obtain ⟨⟨hi, _⟩, _⟩ := hc.navegavel.resolve hr
    by_cases ht : inode_type (v.ino i) = 2
    · refine Or.inr (hp i ?_ ?_)
      · rw [acha_eq hv hc.navegavel, hr]
        rfl
      · rw [hv.rep.ino i hi]
        exact ht
    · exact Or.inl ht
  | mkdir path ticks => exact coeso_mkdir hc path ticks
  | unlink path =>
    refine coeso_unlink hc fun i p hr h0 => hp ?_
    rw [acha_eq hv hc.navegavel, hr, h0]
    rfl

theorem exec_descarta {α : Type} {x : StateT Mem (Prog Setor) α} {a : α} {m' : Mem} {d' : Disco}
    (h : (x.run m).exec d = some ((a, m'), d')) :
    ((x >>= fun _ => pure ()).run m).exec d = some (((), m'), d') := by
  rw [StateT.run_bind, Prog.exec_bind, h]
  rfl

/-- On a volume that can be followed every call returns. -/
theorem Vivo.chama {T : Nat → Prop} (hv : Vivo m d v) (hn : Navegavel T v) (c : Chamada) :
    ∃ m' d', (c.executa.run m).exec d = some (((), m'), d') ∧ Vivo m' d' (c.no_volume v) := by
  cases c with
  | write path buf ticks =>
    obtain ⟨m', d', he, h⟩ := (refina_spfs_write hn path buf ticks).pelo_journal hv
    exact ⟨m', d', exec_descarta he, h⟩
  | mkdir path ticks =>
    obtain ⟨m', d', he, h⟩ := (refina_spfs_mkdir hn path ticks).pelo_journal hv
    exact ⟨m', d', exec_descarta he, h⟩
  | unlink path =>
    obtain ⟨m', d', he, h⟩ := (refina_spfs_unlink hn path).pelo_journal hv
    exact ⟨m', d', exec_descarta he, h⟩

/-- The rule for runs: what holds of the volume of a fresh file system, lets every call return and
is kept by each call holds of every state. -/
theorem Alcanca.invariante {J : Volume → Prop} {P : Mem → Disco → Chamada → Prop}
    (h0 : ∀ d, ino d 0 = inode_novo 2 0 → J (Volume.novo d))
    (hn : ∀ v, J v → ∃ T, Navegavel T v)
    (hs : ∀ {m d v c}, Vivo m d v → J v → Caminho c.path → P m d c → J (c.no_volume v))
    (h : Alcanca SemResto P m d) : ∃ v, Vivo m d v ∧ J v := by
  induction h with
  | monta hf hi hm =>
    obtain ⟨m1, d1, he, hfd, _⟩ := spfs_format_formata _ _ _
    rw [he] at hf
    cases hf
    obtain ⟨_, hv, _, hr⟩ := spfs_mount_monta hfd hi hm
    exact ⟨_, hv, h0 _ hr⟩
  | @chama m m' d d' c _ hc hp he ih =>
    obtain ⟨v, hv, hj⟩ := ih
    obtain ⟨T, hT⟩ := hn v hj
    obtain ⟨m1, d1, he1, hv1⟩ := hv.chama hT c
    rw [he1] at he
    cases he
    exact ⟨_, hv1, hs hv hj hc hp⟩

theorem Alcanca.coeso {P : Mem → Disco → Chamada → Prop} (hP : ∀ m d c, P m d c → Poupa m d c)
    (h : Alcanca SemResto P m d) : ∃ v, Vivo m d v ∧ Coeso v :=
  h.invariante (fun _ hr => coeso_novo_volume hr) (fun _ hc => ⟨_, hc.navegavel⟩)
    fun hv hc _ hp => Poupa.coeso hv hc (hP _ _ _ hp)

end Runs

/-! ## One owner for each sector -/

/-- The inode `i` is in use and refers to sector `s` at `blocks[b]`. -/
def Refere (m : Mem) (d : Disco) (i b s : Nat) : Prop :=
  (i < SFS_INODE_MAX ∧ bm_test m.fs.imap i = true) ∧ b < 10 ∧ inode_block (ino d i) b = s ∧ s ≠ 0

/-- No sector is referred to twice, and the bits of the block bitmap are those of the sectors
referred to. -/
structure UmDono (m : Mem) (d : Disco) : Prop where
  um : ∀ i b j c s, Refere m d i b s → Refere m d j c s → i = j ∧ b = c
  bit : ∀ s, ((SFS_DATA_START ≤ s ∧ s < SFS_DATA_START + BMAP_BITS) ∧
    bm_test m.fs.bmap (s - SFS_DATA_START) = true) ↔ ∃ i b, Refere m d i b s

section Owner

variable {m : Mem} {d : Disco} {v : Volume}

theorem refere_iff (hv : Vivo m d v) (i b s : Nat) : Refere m d i b s ↔ tem v.imap v.ino i b s := by
  unfold Refere tem Tem
  by_cases hi : i < SFS_INODE_MAX
  · rw [hv.rep.imap i hi, hv.rep.ino i hi]
  · simp [hi]

theorem bit_iff (hv : Vivo m d v) (s : Nat) :
    ((SFS_DATA_START ≤ s ∧ s < SFS_DATA_START + BMAP_BITS) ∧
      bm_test m.fs.bmap (s - SFS_DATA_START) = true) ↔ marcado v.bmap s := by
  unfold marcado DeDados
  by_cases hs : SFS_DATA_START ≤ s ∧ s < SFS_DATA_START + BMAP_BITS
  · rw [hv.rep.bmap _ (by omega)]
  · simp [hs]

theorem Coeso.um_dono (hc : Coeso v) (hv : Vivo m d v) : UmDono m d where
  um := fun i b j c s h1 h2 =>
    hc.posse.unique ((refere_iff hv i b s).mp h1) ((refere_iff hv j c s).mp h2)
  bit := fun s => by
    rw [bit_iff hv, hc.posse.mark_iff s]
    simp only [nada, false_or, refere_iff hv]

end Owner

/-! ## A blank disk, and the root removed -/

theorem sem_resto_vazio {d : Disco} (h : d J_META_SECTOR = meta_vazia) : SemResto d := by
  have hv : VOLTAS = (2 ^ 32 - 1) + 1 := by decide
  have h0 : meta_head meta_vazia = 0 := Journal.meta_vazia_zero (by decide) (by decide)
  have h1 : meta_tail meta_vazia = 0 := Journal.meta_vazia_zero (by decide) (by decide)
  intro w hw
  rw [h, h0, h1, hv, pendentes, if_pos rfl] at hw
  cases hw

/-- A blank disk can be formatted and mounted. -/
theorem alcanca_vazio {I : Disco → Prop} (hI : ∀ d, SemResto d → I d)
    (P : Mem → Disco → Chamada → Prop) :
    ∃ m d, Alcanca I P m d ∧ Vivo m d (Volume.novo d) ∧ ino d 0 = inode_novo 2 0 := by
  obtain ⟨m1, d1, he, hf, hj, _⟩ := spfs_format_formata ByteStr.zero fs_boot fun _ => ByteStr.zero
  have hj := hj (by decide)
  have hval : Valido d1 := by
    refine ⟨by rw [hf.super]; decide, hf.magic, ?_, ?_⟩
    · rw [hj, meta_head, Journal.meta_vazia_zero (by decide) (by decide)]
      decide
    · rw [hj, meta_tail, Journal.meta_vazia_zero (by decide) (by decide)]
      decide
  have hm := (does_spfs_mount (m := m1) hval.montavel).exec_eq
  have hs := sem_resto_vazio hj
  obtain ⟨_, hv, _, hr⟩ := spfs_mount_monta hf hs hm
  exact ⟨_, _, .monta he (hI _ hs) hm, hv, hr⟩

section Raiz

variable {v : Volume}

theorem navegavel_so_raiz (h : ∀ b < 10, inode_block (v.ino 0) b = 0) : Navegavel (· = 0) v where
  raiz := rfl
  lt := fun i hi => by rw [hi]; decide
  bons := fun i hi b hb hne => by
    rw [hi] at hne
    exact absurd (h b hb) hne
  filhos := fun i hi _ b hb hne => by
    rw [hi] at hne
    exact absurd (h b hb) hne

/-- An inode without blocks frees none. -/
theorem free_blocks_of_sem_blocos {x : Inode} (h : ∀ b < 10, inode_block x b = 0) {l : List Nat}
    (hl : ∀ b ∈ l, b < 10) (v : Volume) : Volume.free_blocks_of x l v = v := by
  induction l with
  | nil => rfl
  | cons b l ih =>
    rw [Volume.free_blocks_of, if_neg (not_not.mpr (h b (hl b List.mem_cons_self)))]
    exact ih fun c hc => hl c (List.mem_cons_of_mem _ hc)

theorem unlink_raiz (h : ∀ b < 10, inode_block (v.ino 0) b = 0) :
    ((v.unlink [BARRA]).2.imap = update v.imap 0 false) ∧ (v.unlink [BARRA]).2.bmap = v.bmap ∧
      ∀ b < 10, inode_block ((v.unlink [BARRA]).2.ino 0) b = 0 := by
  have hr : v.resolve [BARRA] = some (0, 0) := rfl
  have hf := free_blocks_of_sem_blocos h (l := List.range 10) (fun b hb => List.mem_range.mp hb) v
  obtain ⟨h1, h2, _, h4⟩ := apaga_rest v 0
  rw [hf] at h4
  have hz : ∀ b < 10, inode_block ((v.apaga 0).ino 0) b = 0 := fun b hb => by
    rw [h2, update_self, block_por_type _ _ hb, h b hb]
  have hrem : Volume.dir_remove ((v.apaga 0).ino 0) 0 (List.range 10) (v.apaga 0) = v.apaga 0 := by
    have hl : List.range 10 = 0 :: List.range' 1 9 := rfl
    rw [hl, Volume.dir_remove, if_pos (hz 0 (by decide))]
  unfold Volume.unlink
  rw [hr]
  dsimp only
  rw [hrem]
  exact ⟨h1, h4, hz⟩

/-- With the root out of use, a directory made in it takes a sector for an inode not in use. -/
theorem mkdir_sem_raiz (hi : ∀ i, v.imap i = false) (hb : ∀ n, v.bmap n = false)
    (h : ∀ b < 10, inode_block (v.ino 0) b = 0) :
    (∃ s, marcado (v.mkdir [97] 0).2.bmap s) ∧
      ∀ i b s, ¬ tem (v.mkdir [97] 0).2.imap (v.mkdir [97] 0).2.ino i b s := by
  have hp : v.parent_find (path_split [97]).1 = some 0 := rfl
  unfold Volume.mkdir
  rw [hp]
  dsimp only
  unfold Volume.cria
  rcases v.alloc_inode_cases with ⟨hn, _⟩ | ⟨i, h1, _, _, _, he⟩
  · have := List.find?_eq_none.mp hn 1 (by decide)
    simp [hi] at this
  rw [he]
  dsimp only
  generalize hv1 : Volume.por_ino _ i (inode_novo 2 0) = v1
  have himap : v1.imap = update v.imap i true := by rw [← hv1]; rfl
  have hbmap : v1.bmap = v.bmap := by rw [← hv1]; rfl
  have hino : v1.ino = update v.ino i (inode_novo 2 0) := by rw [← hv1]; rfl
  have h0 : inode_block (v1.ino 0) 0 = 0 := by
    rw [hino, update_of_ne (by omega), h 0 (by decide)]
  have hl : List.range 10 = 0 :: List.range' 1 9 := rfl
  unfold Volume.dir_add_entry
  rw [hl, Volume.dir_add_laco]
  unfold Volume.abre_bloco
  rw [if_pos h0]
  rcases v1.alloc_block_cases with ⟨hn, _⟩ | ⟨n, hn, _, _, he⟩
  · have := hn 0 (by rw [BMAP_BITS_eq]; decide)
    rw [hbmap, hb] at this
    exact absurd this (by decide)
  rw [he]
  dsimp only
  rw [vaga_zero]
  refine ⟨⟨SFS_DATA_START + n, ⟨Nat.le_add_right _ _, Nat.add_lt_add_left hn _⟩, ?_⟩, ?_⟩
  · change update v1.bmap n true (SFS_DATA_START + n - SFS_DATA_START) = true
    rw [Nat.add_sub_cancel_left, update_self]
  · rintro j b s ⟨⟨_, hu⟩, ht⟩
    change v1.imap j = true at hu
    change Tem (update v1.ino 0 _ j) b s at ht
    rw [himap] at hu
    by_cases hj : j = i
    · rw [hj, update_of_ne (by omega), hino, update_self] at ht
      exact tem_novo b s ht
    · rw [update_of_ne hj, hi] at hu
      exact absurd hu (by decide)

end Raiz

end SpaceOS.SpaceFs
