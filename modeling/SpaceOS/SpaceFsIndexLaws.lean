-- The indices that the calls on a mounted SpaceFS hand on. As long as no write puts data into a
-- directory, each is in range; else the data are read as entries that name any inode.
import SpaceOS.SpaceFsLaws

open Lib.Bytes Lib.BlockProg SpaceOS.Ata
open Function (update update_self update_of_ne)

namespace SpaceOS.SpaceFs

open Anotado (N)

/-! ## A volume without its root -/

/-- The root is no directory any more, and has data sectors for blocks: no name is found. -/
structure SemRaiz (v : Volume) : Prop where
  tipo : inode_type (v.ino 0) ≠ 2
  bons : Bons (v.ino 0)

theorem Bons.por_size {x : Inode} (h : Bons x) (n : Nat) : Bons (inode_por_size x n) :=
  fun b hb hne => by
    rw [block_por_size] at hne ⊢
    exact h b hb hne

theorem bons_write_laco (buf : List UInt8) {l : List Nat} (hl : ∀ b ∈ l, b < 10) {x : Inode}
    (hx : Bons x) (done : Nat) (v : Volume) : Bons (Volume.write_laco buf l x done v).1.1 := by
  induction l generalizing x done v with
  | nil => exact hx
  | cons b l ih =>
    rcases write_laco_cons buf b l x done v with ⟨he, _⟩ | ⟨_, n, hn, _, he⟩
    · rw [he]
      exact hx
    · rw [he]
      have hs : DeDados (SFS_DATA_START + n) :=
        ⟨Nat.le_add_right _ _, Nat.add_lt_add_left hn _⟩
      exact ih (fun c hc => hl c (List.mem_cons_of_mem _ hc))
        (hx.por_block (hl b List.mem_cons_self) hs) _ _

section SemRaiz

variable {v : Volume}

theorem SemRaiz.navegavel (h : SemRaiz v) : Navegavel (· = 0) v where
  raiz := rfl
  lt := fun i hi => by rw [hi]; decide
  bons := fun i hi => by rw [hi]; exact h.bons
  filhos := fun i hi ht => absurd (hi ▸ ht) h.tipo

theorem SemRaiz.dir_add_entry (h : SemRaiz v) (child : Nat) (name : List UInt8) :
    SemRaiz (v.dir_add_entry 0 child name).2 := by
  unfold Volume.dir_add_entry
  rcases dir_add_laco_cases 0 child name (List.range 10) (v.ino 0) v with ⟨he, _⟩ |
    ⟨pre, b, post, s, dir', dblk, w, e, hl, _, ha, _, he⟩
  · rw [he]
    exact h
  have hb : b < 10 := List.mem_range.mp (by rw [hl]; simp)
  have ht : inode_type dir' = inode_type (v.ino 0) := by
    rcases Volume.abre_bloco_cases ha with ⟨_, n, _, _, _, rfl, _⟩ | ⟨_, _, rfl, _⟩
    · exact type_por_block _ _ _
    · rfl
  have hi : ((w.por_dado s (dirent_por dblk e child name)).por_ino 0
      (inode_por_size dir' (inode_size dir' + 32))).ino 0 =
        inode_por_size dir' (inode_size dir' + 32) := update_self 0 _ w.ino
  rw [he]
  refine ⟨?_, ?_⟩
  · rw [hi, type_por_size, ht]
    exact h.tipo
  · rw [hi]
    exact (abre_bloco_some h.bons hb ha).2.por_size _

theorem SemRaiz.cria (h : SemRaiz v) (name : List UInt8) (t ticks : Nat) :
    SemRaiz (v.cria 0 name t ticks).2 := by
  have hino := v.alloc_inode_ino
  unfold Volume.cria
  rcases hx : v.alloc_inode with ⟨_ | i, v1⟩ <;> rw [hx] at hino <;> change v1.ino = v.ino at hino
  · exact ⟨by rw [hino]; exact h.tipo, by rw [hino]; exact h.bons⟩
  · have h0 : (v1.por_ino i (inode_novo t ticks)).ino 0 = v.ino 0 := by
      change update v1.ino i _ 0 = _
      have := (alloc_inode_lt hx).1
      rw [update_of_ne (by omega), hino]
    exact SemRaiz.dir_add_entry ⟨by rw [h0]; exact h.tipo, by rw [h0]; exact h.bons⟩ i name

theorem SemRaiz.enche (h : SemRaiz v) (i : Nat) (buf : List UInt8) :
    SemRaiz (v.enche i buf).2 := by
  refine ⟨by rw [enche_type]; exact h.tipo, ?_⟩
  rw [enche_ino]
  by_cases hi : i = 0
  · rw [hi, update_self]
    exact bons_write_laco buf (fun b hb => List.mem_range.mp hb) (h.bons.por_size _) 0 v
  · rw [update_of_ne (Ne.symm hi)]
    exact h.bons

theorem SemRaiz.esvazia (h : SemRaiz v) : SemRaiz (v.esvazia 0) :=
  ⟨by rw [esvazia_type]; exact h.tipo, fun b hb hne => absurd (esvazia_block b hb) hne⟩

theorem SemRaiz.write (h : SemRaiz v) (path buf : List UInt8) (ticks : Nat) :
    SemRaiz (v.write path buf ticks).2 := by
  unfold Volume.write
  split
  · exact h
  cases hp : v.parent_find (path_split path).1 with
  | none => exact h
  | some parent =>
    obtain rfl : parent = 0 := h.navegavel.parent_find hp
    dsimp only
    unfold Volume.write_inode
    cases hr : v.resolve path with
    | none =>
      have hc := h.cria (path_split path).2 1 ticks
      dsimp only
      rcases hx : v.cria 0 (path_split path).2 1 ticks with ⟨_ | i, v'⟩ <;> rw [hx] at hc
      · exact hc
      · exact hc.enche i buf
    | some x =>
      obtain ⟨i, q⟩ := x
      obtain rfl : i = 0 := (h.navegavel.resolve hr).1
      exact h.esvazia.enche 0 buf

theorem SemRaiz.mkdir (h : SemRaiz v) (path : List UInt8) (ticks : Nat) :
    SemRaiz (v.mkdir path ticks).2 := by
  unfold Volume.mkdir
  cases hp : v.parent_find (path_split path).1 with
  | none => exact h
  | some parent =>
    obtain rfl : parent = 0 := h.navegavel.parent_find hp
    have hc := h.cria (path_split path).2 2 ticks
    dsimp only
    rcases hx : v.cria 0 (path_split path).2 2 ticks with ⟨_ | i, v'⟩ <;> rw [hx] at hc
    · exact hc
    · exact hc

/-- An unlink of the root. -/
theorem sem_raiz_unlink (hb : Bons (v.ino 0)) {path : List UInt8} {p : Nat}
    (hr : v.resolve path = some (0, p)) : SemRaiz (v.unlink path).2 := by
  unfold Volume.unlink
  rw [hr]
  have hi : (Volume.dir_remove ((v.apaga 0).ino p) 0 (List.range 10) (v.apaga 0)).ino 0 =
      inode_por_type (v.ino 0) 0 := by
    rw [dir_remove_ino, (apaga_rest v 0).2.1, update_self]
  refine ⟨?_, ?_⟩
  · dsimp only
    rw [hi, type_por_type]
    decide
  · dsimp only
    rw [hi]
    exact hb.por_type 0

theorem SemRaiz.unlink (h : SemRaiz v) (path : List UInt8) : SemRaiz (v.unlink path).2 := by
  cases hr : v.resolve path with
  | none =>
    unfold Volume.unlink
    rw [hr]
    exact h
  | some x =>
    obtain ⟨i, p⟩ := x
    obtain rfl : i = 0 := (h.navegavel.resolve hr).1
    exact sem_raiz_unlink h.bons hr

end SemRaiz

/-! ## Runs -/

/-- The call puts no data into a directory. -/
def PoupaDirs (m : Mem) (d : Disco) : Chamada → Prop
  | .write path buf _ => ∀ i, acha m d path = some i → inode_type (ino d i) = 2 → buf = []
  | .mkdir _ _ => True
  | .unlink _ => True

/-- The volume is sound, or its root has been removed. -/
def Seguro (v : Volume) : Prop := Coeso v ∨ SemRaiz v

section Runs

variable {m : Mem} {d : Disco} {v : Volume} {c : Chamada}

theorem Seguro.navegavel (h : Seguro v) : ∃ T, Navegavel T v :=
  h.elim (fun h => ⟨_, h.navegavel⟩) fun h => ⟨_, h.navegavel⟩

theorem SemRaiz.chama (h : SemRaiz v) (c : Chamada) : SemRaiz (c.no_volume v) := by
  cases c with
  | write path buf ticks => exact h.write path buf ticks
  | mkdir path ticks => exact h.mkdir path ticks
  | unlink path => exact h.unlink path

theorem Seguro.chama (hv : Vivo m d v) (h : Seguro v) (hp : PoupaDirs m d c) :
    Seguro (c.no_volume v) := by
  rcases h with hc | h
  · cases c with
    | write path buf ticks => exact Or.inl (Poupa.coeso (c := .write path buf ticks) hv hc hp)
    | mkdir path ticks => exact Or.inl (Poupa.coeso (c := .mkdir path ticks) hv hc trivial)
    | unlink path =>
      cases hr : v.resolve path with
      | none =>
        refine Or.inl (coeso_unlink hc fun i p h => ?_)
        rw [hr] at h
        cases h
      | some x =>
        obtain ⟨i, p⟩ := x
        by_cases h0 : i = 0
        · subst h0
          exact Or.inr (sem_raiz_unlink (hc.posse.bons (by decide) hc.raiz) hr)
        · refine Or.inl (coeso_unlink hc fun j q h => ?_)
          rw [hr] at h
          cases h
          exact h0
  · exact Or.inr (h.chama c)

theorem Alcanca.seguro (h : Alcanca SemResto PoupaDirs m d) : ∃ v, Vivo m d v ∧ Seguro v :=
  h.invariante (fun _ hr => Or.inl (coeso_novo_volume hr)) (fun _ h => h.navegavel)
    fun hv h _ hp => h.chama hv hp

/-! ## The indices of a call -/

/-- A noted program over the log: its result and its notes. -/
def com_notas {α : Type} (x : N α) : StateT Mem (Prog Setor) (α × List Uso) := fun m => do
  let r ← ((x.run (m.fs, [])).over journal_driver).run m.journal
  pure ((r.1.1, r.1.2.2), ⟨r.1.2.1, r.2⟩)

/-- The indices that the call hands on. -/
def Chamada.usos : Chamada → StateT Mem (Prog Setor) (List Uso)
  | .write path buf ticks => Prod.snd <$> com_notas (Anotado.spfs_write path buf ticks)
  | .mkdir path ticks => Prod.snd <$> com_notas (Anotado.spfs_mkdir path ticks)
  | .unlink path => Prod.snd <$> com_notas (Anotado.spfs_unlink path)

theorem com_notas_fst {α : Type} {x : N α} {y : S α} (h : Forgets x y) :
    Prod.fst <$> com_notas x = pelo_journal y := by
  funext m
  change Prod.map Prod.fst id <$> (((x.run (m.fs, [])).over journal_driver).run m.journal >>= _) =
    ((y.run m.fs).over journal_driver).run m.journal >>= _
  rw [h.over journal_driver m.fs []]
  simp

/-- The call is the noted one with the notes dropped. -/
theorem Chamada.executa_usos (c : Chamada) : c.executa = (fun _ => ()) <$> c.usos := by
  cases c with
  | write path buf ticks =>
    rw [executa, ← com_notas_fst (Anotado.forgets_spfs_write path buf ticks), usos]
    simp
  | mkdir path ticks =>
    rw [executa, ← com_notas_fst (Anotado.forgets_spfs_mkdir path ticks), usos]
    simp
  | unlink path =>
    rw [executa, ← com_notas_fst (Anotado.forgets_spfs_unlink path), usos]
    simp

theorem exec_com_notas {α : Type} {x : N α} {Q : α → Fs × List Uso → Disco → Prop}
    (hj : m.journal.j_ok = true) (h : Wp Zona x (m.fs, []) d Q) :
    ∃ a us m' d' d1, ((com_notas x).run m).exec d = some (((a, us), m'), d') ∧
      Mostra m'.journal d' d1 ∧ Q a (m'.fs, us) d1 := by
  obtain ⟨⟨a, fs, us⟩, d1, j, d', he, hm, hq⟩ := Prog.wp.over journal_driver_implements h
    (t := m.journal) (e := d) ⟨hj, fun _ _ => rfl⟩
  refine ⟨a, us, ⟨fs, j⟩, d', d1, ?_, hm, hq⟩
  change (((x.run (m.fs, [])).over journal_driver).run m.journal >>= fun r =>
    Prog.ret ((r.1.1, r.1.2.2), (⟨r.1.2.1, r.2⟩ : Mem))).exec d = _
  rw [Prog.exec_bind, he]
  rfl

theorem exec_snd {α β : Type} {x : StateT Mem (Prog Setor) (α × β)} {a : α} {b : β} {m' : Mem}
    {d' : Disco} (h : (x.run m).exec d = some (((a, b), m'), d')) :
    ((Prod.snd <$> x).run m).exec d = some ((b, m'), d') := by
  rw [StateT.run_map, map_eq_pure_bind, Prog.exec_bind, h]
  rfl

theorem RefinaN.com_notas {α : Type} {x : N α} {r : α × Volume} (h : RefinaN x v r)
    (hv : Vivo m d v) : ∃ us m' d', ((Prod.snd <$> com_notas x).run m).exec d =
      some ((us, m'), d') ∧ ∀ u ∈ us, u.EmOrdem := by
  obtain ⟨a, us, m', d', d1, he, _, _, _, hu⟩ :=
    exec_com_notas hv.journal (h m.fs [] d hv.rep (by simp))
  exact ⟨us, m', d', exec_snd he, hu⟩

/-- In every run in which the log left on the disk has nothing for the first 35 sectors and no
write puts data into a directory, each call returns, and each bit it passes to `bm_set` and
`bm_clr` and each sector of the inode table it touches is in range. -/
theorem the_indices_stay_in_range (h : Alcanca SemResto PoupaDirs m d) (c : Chamada) :
    ∃ us m' d', (c.usos.run m).exec d = some ((us, m'), d') ∧
      (c.executa.run m).exec d = some (((), m'), d') ∧ ∀ u ∈ us, u.EmOrdem := by
  obtain ⟨v, hv, hs⟩ := h.seguro
  obtain ⟨T, hn⟩ := hs.navegavel
  have hu : ∃ us m' d', (c.usos.run m).exec d = some ((us, m'), d') ∧ ∀ u ∈ us, u.EmOrdem := by
    cases c with
    | write path buf ticks => exact (anota_spfs_write hn path buf ticks).com_notas hv
    | mkdir path ticks => exact (anota_spfs_mkdir hn path ticks).com_notas hv
    | unlink path => exact (anota_spfs_unlink hn path).com_notas hv
  obtain ⟨us, m', d', he, hu⟩ := hu
  refine ⟨us, m', d', he, ?_, hu⟩
  rw [c.executa_usos, StateT.run_map, map_eq_pure_bind, Prog.exec_bind, he]
  rfl

end Runs

/-! ## A write to the root -/

/-- 32 bytes that read as an entry: inode 768 under the name `a`. -/
def forjado : List UInt8 := [0, 3, 0, 0, 97] ++ List.replicate 27 0

theorem alloc_block_vazio {v : Volume} (h : ∀ n, v.bmap n = false) :
    v.alloc_block = (some SFS_DATA_START, { v with
      bmap := update v.bmap 0 true
      free_blocks := (v.free_blocks + 2 ^ 32 - 1) % 2 ^ 32 }) := by
  rcases v.alloc_block_cases with ⟨hall, _⟩ | ⟨n, _, _, hf, he⟩
  · have := hall 0 (by rw [BMAP_BITS_eq]; decide)
    rw [h] at this
    exact absurd this (by decide)
  · obtain ⟨_, _, hlt⟩ := List.find?_range_eq_some.mp hf
    have h0 : n = 0 := by
      by_contra hne
      have := hlt 0 (by omega)
      rw [h] at this
      exact absurd this (by decide)
    rw [he, h0]
    rfl

/-- After a write of `forjado` to the root, its first block holds those bytes. -/
theorem write_forjado {v : Volume} (hb : ∀ n, v.bmap n = false) (hr : v.ino 0 = inode_novo 2 0) :
    inode_type ((v.write [BARRA] forjado 0).2.ino 0) = 2 ∧
      inode_size ((v.write [BARRA] forjado 0).2.ino 0) = 32 ∧
      inode_block ((v.write [BARRA] forjado 0).2.ino 0) 0 = 99 ∧
      Bons ((v.write [BARRA] forjado 0).2.ino 0) ∧
      (v.write [BARRA] forjado 0).2.dado 99 = bloco_de forjado := by
  have hw : (v.write [BARRA] forjado 0).2 = ((v.esvazia 0).enche 0 forjado).2 := rfl
  have hl : List.range 10 = 0 :: 1 :: List.range' 2 8 := rfl
  have hbe : ∀ n, (v.esvazia 0).bmap n = false := fun n => by
    change (Volume.free_blocks_of (v.ino 0) (List.range 10) v).bmap n = false
    rw [free_blocks_of_sem_blocos (fun b hb => by rw [hr, block_novo _ _ hb])
      (fun b hb => List.mem_range.mp hb)]
    exact hb n
  have he : Volume.write_laco forjado (List.range 10)
      (inode_por_size ((v.esvazia 0).ino 0) 32) 0 (v.esvazia 0) =
      ((inode_por_block (inode_por_size ((v.esvazia 0).ino 0) 32) 0 SFS_DATA_START, 32),
        (v.esvazia 0).tomou 0 (bloco_de forjado)) := by
    rw [hl, Volume.write_laco, if_neg (by decide), alloc_block_vazio hbe]
    dsimp only
    rw [Volume.write_laco, if_pos (by decide)]
    rfl
  have hino : (v.write [BARRA] forjado 0).2.ino 0 =
      inode_por_block (inode_por_size ((v.esvazia 0).ino 0) 32) 0 SFS_DATA_START := by
    rw [hw, enche_ino, update_self]
    exact congrArg (fun r => r.1.1) he
  have ht : inode_type ((v.esvazia 0).ino 0) = 2 := by
    rw [esvazia_type, hr, type_novo]
  have hs : DeDados SFS_DATA_START := by
    unfold DeDados
    rw [BMAP_BITS_eq]
    decide
  rw [hino]
  refine ⟨by rw [type_por_block, type_por_size, ht], ?_, ?_, ?_, ?_⟩
  · rw [size_por_block _ _ (by decide), size_por_size]
    rfl
  · rw [block_por_block_self _ _ (by decide)]
    decide
  · exact Bons.por_block (Bons.por_size (fun b hb hne => absurd (esvazia_block b hb) hne) _)
      (by decide) hs
  · have hd : (v.write [BARRA] forjado 0).2.dado = ((v.esvazia 0).tomou 0 (bloco_de forjado)).dado :=
      congrArg (fun r : (Inode × Nat) × Volume => r.2.dado) he
    rw [hd]
    exact update_self 99 _ (v.esvazia 0).dado

theorem busca_forjado : busca_bloco (bloco_de forjado) [97] 1 = some 0 ∧
    dirent_inode (bloco_de forjado) 0 = 768 := by decide +kernel

theorem wp_inode_read {fs : Fs} {us : List Uso} {d : Disco} {i : Nat}
    {q : Option Inode → Disco → Prop} (h : (inode_read i).wp Zona d q) :
    Wp Zona (Anotado.inode_read i) (fs, us) d fun r m d' =>
      q r d' ∧ m = (fs, us ++ [.tabela (inode_sector i)]) :=
  Wp.note_bind (Wp.lift (h.mono fun _ _ hq => ⟨hq, rfl⟩))

/-- An unlink of `/a/b` then takes sector 99 for a sector of the inode table. -/
theorem unlink_forjado {w : Volume} (ht : inode_type (w.ino 0) = 2) (hz : inode_size (w.ino 0) = 32)
    (h0 : inode_block (w.ino 0) 0 = 99) (hb : Bons (w.ino 0))
    (hd : w.dado 99 = bloco_de forjado) {fs : Fs} {d : Disco} (hr : Rep fs d w) :
    Wp Zona (Anotado.spfs_unlink [BARRA, 97, BARRA, 98]) (fs, []) d
      fun _ m _ => Uso.tabela 99 ∈ m.2 := by
  have hp : partes ([97, BARRA, 98].take 127) = [[97], [98]] := by decide
  have hs : DeDados 99 := by
    unfold DeDados
    rw [BMAP_BITS_eq]
    decide
  have hbusca : w.busca (w.ino 0) [97] (List.range 10) (inode_size (w.ino 0) / 32) = some 768 := by
    have hl : List.range 10 = 0 :: List.range' 1 9 := rfl
    have h1 : inode_size (w.ino 0) / 32 = 1 := by rw [hz]
    rw [h1, hl, Volume.busca, if_neg Nat.one_ne_zero, h0, if_neg (by decide), hd, busca_forjado.1]
    exact congrArg some busca_forjado.2
  refine Wp.get_bind ?_
  dsimp only
  rw [hr.ok]
  refine Wp.bind (Wp.get_bind ?_)
  change Wp Zona (Anotado.path_laco (partes ([97, BARRA, 98].take 127)) (super_root_inode fs.sb)
    (super_root_inode fs.sb)) (fs, []) d _
  rw [hr.root, hp, Anotado.path_laco, if_neg (by decide)]
  refine (wp_inode_read (refina_inode_read (by decide : 0 < SFS_INODE_MAX) fs d hr)).call ?_
  rintro _ _ d1 ⟨⟨rfl, hr1⟩, rfl⟩
  dsimp only
  rw [if_neg (not_not.mpr ht)]
  refine Wp.call_lift (refina_busca_dir hb [97] (fun b hb => List.mem_range.mp hb) _ fs d1 hr1) ?_
  rintro _ d2 ⟨rfl, hr2⟩
  rw [hbusca]
  dsimp only
  rw [Anotado.path_laco, if_neg (by decide)]
  have h768 : (inode_read 768).wp Zona d2 fun r _ => r = some ((w.dado 99).slice 0 64) :=
    ⟨hs.zona, congrArg (fun b : Setor => some (b.slice 0 64)) (hr2.dado 99 hs)⟩
  refine (wp_inode_read h768).call ?_
  rintro _ _ d3 ⟨rfl, rfl⟩
  dsimp only
  rw [if_pos (by rw [hd]; decide)]
  exact Wp.pure (Wp.pure (List.mem_append_right _ (List.mem_singleton.mpr rfl)))

/-- After a write of 32 bytes to the root, an unlink of `/a/b` takes a data sector for one of the
inode table. -/
theorem a_forged_entry_names_any_inode :
    ¬ ∀ m d, Alcanca (fun _ => True) (fun _ _ _ => True) m d → ∀ c : Chamada, Caminho c.path →
      ∀ us m' d', (c.usos.run m).exec d = some ((us, m'), d') → ∀ u ∈ us, u.EmOrdem := by
  intro h
  obtain ⟨m, d, ha, hv, hr⟩ := alcanca_vazio (fun _ _ => trivial) fun _ _ _ => True
  have hc := coeso_novo_volume hr
  obtain ⟨m1, d1, he1, hv1⟩ := hv.chama hc.navegavel (.write [BARRA] forjado 0)
  have ha1 := ha.chama (c := .write [BARRA] forjado 0) (by unfold Caminho; decide) trivial he1
  obtain ⟨ht, hz, h0, hb, hd⟩ := write_forjado (v := Volume.novo d) (fun _ => rfl) hr
  obtain ⟨a, us, m2, d2, _, he2, _, hu⟩ :=
    exec_com_notas hv1.journal (unlink_forjado ht hz h0 hb hd hv1.rep)
  have := h m1 d1 ha1 (.unlink [BARRA, 97, BARRA, 98]) (by unfold Caminho; decide) us m2 d2
    (exec_snd he2) _ hu
  exact absurd this.2 (by decide)

/-- The law at the file system that a format and a mount make on a blank disk, for a mkdir. -/
theorem the_indices_of_a_first_mkdir_are_in_range : ∃ m d, Alcanca SemResto PoupaDirs m d ∧
    ∃ us m' d', ((Chamada.mkdir [97] 0).usos.run m).exec d = some ((us, m'), d') ∧
      ((Chamada.mkdir [97] 0).executa.run m).exec d = some (((), m'), d') ∧
      ∀ u ∈ us, u.EmOrdem := by
  obtain ⟨m, d, ha, _⟩ := alcanca_vazio (fun _ h => h) PoupaDirs
  exact ⟨m, d, ha, the_indices_stay_in_range ha (.mkdir [97] 0)⟩

end SpaceOS.SpaceFs
