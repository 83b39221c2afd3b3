-- The law of the power cut: in every run, whatever call is cut and wherever, the next mount returns
-- and each file that the call is not on reads as before.
import SpaceOS.SpaceFsCrash

open Lib.Bytes Lib.BlockProg Lib.Ownership SpaceOS.Ata
open Function (update update_self update_of_ne)

namespace SpaceOS.SpaceFs

open SpaceOS.Journal (J_META_SECTOR Mesmo Em Quieto)

/-! ## The magic number stays -/

section Magico

/-- The superblock in memory is one that a mount takes. -/
def Magico (fs : Fs) : Prop := super_magic fs.sb = SFS_MAGIC

theorem magico_conta {fs : Fs} {n : Nat} (hn : 4 ≤ n) (x : Nat) (h : Magico fs) :
    super_magic (fs.sb.putWord n x) = SFS_MAGIC := by
  rw [← h]
  exact fs.sb.word_putWord_ne _ (by omega) (by decide)

theorem keeps_alloc_inode : Keeps Magico alloc_inode := by
  refine .get fun s _ => ?_
  cases (List.range' 1 (SFS_INODE_MAX - 1)).find? fun i => !bm_test s.imap i with
  | none => exact .pure _
  | some i =>
    refine .bind (.modify fun _ h => h) fun _ => .get fun _ _ => .bind (.lift _) fun _ => ?_
    refine .bind (.modify fun _ h => magico_conta (by decide) _ h) fun _ => .get fun _ _ => ?_
    exact .bind (.lift _) fun _ => .pure _

theorem keeps_alloc_block : Keeps Magico alloc_block := by
  refine .get fun s _ => ?_
  cases (List.range (min (super_total_blocks s.sb) (512 * 8))).find? fun i => !bm_test s.bmap i with
  | none => exact .pure _
  | some i =>
    refine .bind (.modify fun _ h => h) fun _ => .get fun _ _ => .bind (.lift _) fun _ => ?_
    refine .bind (.modify fun _ h => magico_conta (by decide) _ h) fun _ => .get fun _ _ => ?_
    exact .bind (.lift _) fun _ => .pure _

theorem keeps_free_block (sec : Nat) : Keeps Magico (free_block sec) := by
  unfold free_block
  split
  · exact .pure _
  · refine .bind (.modify fun _ h => h) fun _ => .get fun _ _ => .bind (.lift _) fun _ => ?_
    refine .bind (.modify fun _ h => magico_conta (by decide) _ h) fun _ => .get fun _ _ => ?_
    exact .bind (.lift _) fun _ => .pure _

theorem keeps_free_blocks (x : Inode) (l : List Nat) : Keeps Magico (free_blocks x l) := by
  induction l with
  | nil => exact .pure _
  | cons b l ih =>
    rw [free_blocks]
    split
    · exact .bind (keeps_free_block _) fun _ => ih
    · exact ih

theorem keeps_path_find (path : List UInt8) : Keeps Magico (path_find path) :=
  .get fun _ _ => .lift _

theorem keeps_parent_find (path : List UInt8) : Keeps Magico (parent_find path) := by
  unfold parent_find
  split
  · exact .pure _
  · refine .bind (keeps_path_find path) fun r => ?_
    cases r <;> exact .pure _

theorem keeps_abre_bloco (dir : Inode) (b : Nat) : Keeps Magico (abre_bloco dir b) := by
  unfold abre_bloco
  split
  · refine .bind keeps_alloc_block fun r => ?_
    cases r <;> exact .pure _
  · refine .bind (.lift _) fun r => ?_
    cases r <;> exact .pure _

theorem keeps_dir_add_laco (p c : Nat) (name : List UInt8) (l : List Nat) (dir : Inode) :
    Keeps Magico (dir_add_laco p c name l dir) := by
  induction l generalizing dir with
  | nil => exact .pure _
  | cons b l ih =>
    refine .bind (keeps_abre_bloco dir b) fun r => ?_
    rcases r with _ | ⟨sec, dir', dblk⟩
    · exact .pure _
    · dsimp only
      split
      · exact .bind (.lift _) fun _ => .bind (.lift _) fun _ => .pure _
      · exact ih dir'

theorem keeps_dir_add_entry (p c : Nat) (name : List UInt8) : Keeps Magico (dir_add_entry p c name) := by
  refine .bind (.lift _) fun r => ?_
  cases r with
  | none => exact .pure _
  | some dir => exact keeps_dir_add_laco _ _ _ _ _

theorem keeps_write_laco (buf : List UInt8) (l : List Nat) (x : Inode) (n : Nat) :
    Keeps Magico (write_laco buf l x n) := by
  induction l generalizing x n with
  | nil => exact .pure _
  | cons b l ih =>
    rw [write_laco]
    split
    · exact .pure _
    · refine .bind keeps_alloc_block fun r => ?_
      cases r with
      | none => exact .pure _
      | some sec => exact .bind (.lift _) fun _ => ih _ _

theorem keeps_write_inode (path : List UInt8) (p : Nat) (name : List UInt8) (ticks : Nat) :
    Keeps Magico (write_inode path p name ticks) := by
  refine .bind (keeps_path_find path) fun r => ?_
  rcases r with _ | ⟨i, q⟩
  · refine .bind keeps_alloc_inode fun r => ?_
    cases r with
    | none => exact .pure _
    | some i => exact .bind (.lift _) fun _ => .bind (keeps_dir_add_entry _ _ _) fun _ => .pure _
  · exact .bind (.lift _) fun _ => .bind (keeps_free_blocks _ _) fun _ =>
      .bind (.lift _) fun _ => .pure _

theorem keeps_spfs_write (path buf : List UInt8) (ticks : Nat) :
    Keeps Magico (spfs_write path buf ticks) := by
  refine .get fun s _ => ?_
  split
  · exact .pure _
  refine .bind (keeps_parent_find _) fun r => ?_
  cases r with
  | none => exact .pure _
  | some p =>
    refine .bind (keeps_write_inode _ _ _ _) fun r => ?_
    cases r with
    | none => exact .pure _
    | some i =>
      exact .bind (.lift _) fun _ => .bind (keeps_write_laco _ _ _ _) fun _ =>
        .bind (.lift _) fun _ => .pure _

theorem keeps_spfs_mkdir (path : List UInt8) (ticks : Nat) : Keeps Magico (spfs_mkdir path ticks) := by
  refine .get fun s _ => ?_
  split
  · exact .pure _
  refine .bind (keeps_parent_find _) fun r => ?_
  cases r with
  | none => exact .pure _
  | some p =>
    refine .bind keeps_alloc_inode fun r => ?_
    cases r with
    | none => exact .pure _
    | some i => exact .bind (.lift _) fun _ => .bind (keeps_dir_add_entry _ _ _) fun _ => .pure _

theorem keeps_spfs_unlink (path : List UInt8) : Keeps Magico (spfs_unlink path) := by
  refine .get fun s _ => ?_
  split
  · exact .pure _
  refine .bind (keeps_path_find _) fun r => ?_
  rcases r with _ | ⟨i, p⟩
  · exact .pure _
  refine .bind (.lift _) fun r => ?_
  cases r with
  | none => exact .pure _
  | some x =>
    refine .bind (keeps_free_blocks _ _) fun _ => .bind (.lift _) fun _ => ?_
    refine .bind (.modify fun _ h => h) fun _ => .get fun _ _ => .bind (.lift _) fun _ => ?_
    refine .bind (.modify fun _ h => magico_conta (by decide) _ h) fun _ => .get fun _ _ => ?_
    refine .bind (.lift _) fun _ => .bind (.lift _) fun r => ?_
    cases r with
    | none => exact .pure _
    | some dir => exact .bind (.lift _) fun _ => .pure _

end Magico

/-! ## Reads, whatever the caches -/

/-- Of the caches the program looks only at whether the file system is mounted and where its root is. -/
def SemCache {α : Type} (x : S α) : Prop :=
  ∃ p : Prog Setor α, ∀ fs, fs.sfs_ok = true → super_root_inode fs.sb = 0 →
    x.run fs = p >>= fun a => .ret (a, fs)

namespace SemCache

variable {α β : Type}

theorem pure (a : α) : SemCache (Pure.pure a) := ⟨.ret a, fun _ _ _ => rfl⟩

theorem lift (p : Prog Setor α) : SemCache (liftM p) := ⟨p, fun _ _ _ => rfl⟩

theorem bind {x : S α} {f : α → S β} (hx : SemCache x) (hf : ∀ a, SemCache (f a)) :
    SemCache (x >>= f) := by
  obtain ⟨p, hp⟩ := hx
  choose q hq using hf
  refine ⟨p >>= q, fun fs hok hr => ?_⟩
  rw [StateT.run_bind, hp fs hok hr, bind_assoc, bind_assoc]
  congr 1
  funext a
  exact hq a fs hok hr

theorem get {f : Fs → S β} {y : S β}
    (h : ∀ fs, fs.sfs_ok = true → super_root_inode fs.sb = 0 → f fs = y) (hy : SemCache y) :
    SemCache (MonadState.get >>= f) := by
  obtain ⟨p, hp⟩ := hy
  refine ⟨p, fun fs hok hr => ?_⟩
  change (f fs).run fs = _
  rw [h fs hok hr, hp fs hok hr]

/-- What the program does with some caches it does with any. -/
theorem wp {x : S α} {fs fs' : Fs} {d : Disco} {Q : α → Disco → Prop} (h : SemCache x)
    (hok : fs.sfs_ok = true) (hr : super_root_inode fs.sb = 0) (hok' : fs'.sfs_ok = true)
    (hr' : super_root_inode fs'.sb = 0) (hw : Wp Zona x fs d fun a _ d' => Q a d') :
    Wp Zona x fs' d fun a _ d' => Q a d' := by
  obtain ⟨p, hp⟩ := h
  unfold Wp at hw ⊢
  rw [hp fs hok hr, Prog.wp_bind] at hw
  rw [hp fs' hok' hr', Prog.wp_bind]
  exact hw

end SemCache

theorem sem_cache_path_find (path : List UInt8) : SemCache (path_find path) := by
  refine .get (y := liftM (path_laco (partes ((if path.head? = some BARRA then path.tail else path).take
    127)) 0 0)) (fun fs _ hr => ?_) (.lift _)
  dsimp only
  rw [hr]

theorem sem_cache_spfs_read (path : List UInt8) (max : Nat) : SemCache (spfs_read path max) := by
  refine .get (fun fs hok _ => by rw [hok]) ?_
  refine .bind (sem_cache_path_find path) fun r => ?_
  rcases r with _ | ⟨i, p⟩
  · exact .pure _
  refine .bind (.lift _) fun r => ?_
  cases r with
  | none => exact .pure _
  | some x =>
    dsimp only
    split
    · exact .pure _
    · exact .bind (.lift _) fun _ => .pure _

/-! ## Runs with clean reboots -/

/-- The states of a run: a format that leaves a quiet log, a mount, calls that guard the directories,
and new mounts of the disk as the last call left it. -/
inductive Historia : Mem → Disco → Prop
  | monta {m0 m1 n m : Mem} {d0 d1 d : Disco} {pilha : Setor}
    (hf : ((spfs_format pilha).run m0).exec d0 = some ((true, m1), d1)) (hq : Quieto d1)
    (hm : (spfs_mount.run n).exec d1 = some ((true, m), d)) : Historia m d
  | chama {m m' : Mem} {d d' : Disco} {c : Chamada} (h : Historia m d) (hc : Caminho c.path)
    (hg : Guarda m d c) (he : (c.executa.run m).exec d = some (((), m'), d')) : Historia m' d'
  | religa {m n m' : Mem} {d d' : Disco} (h : Historia m d)
    (hm : (spfs_mount.run n).exec d = some ((true, m'), d')) : Historia m' d'

/-- Memory and disk hold the volume `v`, over a quiet log. -/
structure Inteiro (m : Mem) (d : Disco) (v : Volume) : Prop where
  coeso : Coeso v
  legivel : Legivel v
  magico : Magico m.fs
  disco : ∃ dv, Rep m.fs dv v ∧ Calmo m.journal d dv

section Run

variable {m n : Mem} {d e : Disco} {v : Volume} {c : Chamada}

theorem Inteiro.vivo (h : Inteiro m d v) : Vivo m d v := by
  obtain ⟨dv, hr, hc⟩ := h.disco
  exact ⟨hc.em.ok, hr.congr hc.mesmo⟩

theorem Inteiro.depois {α : Type} {x : S α} {r : α × Volume} (h : Inteiro m d v)
    (hx : Refina x v r) (hk : Keeps Magico x) (hc : Coeso r.2) (hl : Legivel r.2) :
    ∃ m' d', ((pelo_journal x).run m).exec d = some ((r.1, m'), d') ∧ Inteiro m' d' r.2 := by
  obtain ⟨dv, hr, hcalmo⟩ := h.disco
  obtain ⟨m', d', dv', he, hm, hr', hc'⟩ := calmo_depois hx hk h.magico hr hcalmo
  exact ⟨m', d', he, hc, hl, hm, dv', hr', hc'⟩

theorem Inteiro.chama (h : Inteiro m d v) (hg : Guarda m d c) :
    ∃ m' d', (c.executa.run m).exec d = some (((), m'), d') ∧ Inteiro m' d' (c.no_volume v) := by
  have hn := h.coeso.navegavel
  have hc := hg.1.coeso h.vivo h.coeso
  have hl := hg.legivel h.vivo h.coeso h.legivel
  cases c with
  | write path buf ticks =>
    obtain ⟨m', d', he, h'⟩ := h.depois (refina_spfs_write hn path buf ticks)
      (keeps_spfs_write path buf ticks) hc hl
    exact ⟨m', d', exec_descarta he, h'⟩
  | mkdir path ticks =>
    obtain ⟨m', d', he, h'⟩ := h.depois (refina_spfs_mkdir hn path ticks)
      (keeps_spfs_mkdir path ticks) hc hl
    exact ⟨m', d', exec_descarta he, h'⟩
  | unlink path =>
    obtain ⟨m', d', he, h'⟩ := h.depois (refina_spfs_unlink hn path) (keeps_spfs_unlink path) hc hl
    exact ⟨m', d', exec_descarta he, h'⟩

/-- A mount of the disk between two calls finds the same volume. -/
theorem Inteiro.religa (h : Inteiro m d v) (n : Mem) :
    ∃ m' d', (spfs_mount.run n).exec d = some ((true, m'), d') ∧ Inteiro m' d' v := by
  obtain ⟨dv, hr, hc⟩ := h.disco
  have hm : super_magic (dv SFS_SUPER_SEC) = SFS_MAGIC := by
    rw [hr.disk_sb]
    exact h.magico
  obtain ⟨t, e', he, -, hc'⟩ := hc.em_voo.monta n hm hm
  have h0 : d SFS_SUPER_SEC = m.fs.sb := (hc.mesmo _ zona_super.1.2).trans hr.disk_sb
  have h1 : d SFS_IMAP_SEC = m.fs.imap := (hc.mesmo _ zona_super.2.1.2).trans hr.disk_imap
  have h2 : d SFS_BMAP_SEC = m.fs.bmap := (hc.mesmo _ zona_super.2.2.2).trans hr.disk_bmap
  have hfs : (⟨d SFS_SUPER_SEC, d SFS_IMAP_SEC, d SFS_BMAP_SEC, true⟩ : Fs) = m.fs := by
    rw [h0, h1, h2, ← hr.ok]
  rw [hfs] at he
  exact ⟨⟨m.fs, t⟩, e', he, h.coeso, h.legivel, h.magico, dv, hr, hc'.elim id id⟩

/-- A format with a quiet log, and a mount. -/
theorem inteiro_novo (hf : Formatado d) (hq : Quieto d) (n : Mem) :
    ∃ m' d', (spfs_mount.run n).exec d = some ((true, m'), d') ∧ Inteiro m' d' (Volume.novo d) := by
  have hmagic : super_magic (d SFS_SUPER_SEC) = SFS_MAGIC := by
    rw [hf.super]
    decide
  have hvoo : EmVoo d d d := ⟨0, d 0, Or.inl (by decide), (Function.update_eq_self 0 d).symm,
    Or.inl hq, Or.inl fun _ _ => rfl⟩
  obtain ⟨t, e', he, -, hc⟩ := hvoo.monta n hmagic hmagic
  exact ⟨_, e', he, coeso_novo_volume hf.raiz, legivel_novo_volume hf.raiz, hmagic, d,
    rep_novo hf fun _ _ => rfl, hc.elim id id⟩

theorem Historia.inteiro (h : Historia m d) : ∃ v, Inteiro m d v := by
  induction h with
  | @monta m0 m1 n m d0 d1 d pilha hf hq hm =>
    obtain ⟨m2, d2, he, hfd, -⟩ := spfs_format_formata pilha m0 d0
    rw [he] at hf
    cases hf
    obtain ⟨m3, d3, he', hv⟩ := inteiro_novo hfd hq n
    rw [he'] at hm
    cases hm
    exact ⟨_, hv⟩
  | chama _ _ hg he ih =>
    obtain ⟨v, hv⟩ := ih
    obtain ⟨m1, d1, he1, hv1⟩ := hv.chama hg
    rw [he1] at he
    cases he
    exact ⟨_, hv1⟩
  | religa _ hm ih =>
    obtain ⟨v, hv⟩ := ih
    obtain ⟨m1, d1, he1, hv1⟩ := hv.religa _
    rw [he1] at hm
    cases hm
    exact ⟨v, hv1⟩

end Run

/-! ## The law -/

/-- `Isola`, or an unlink of what has no entries. -/
def Separa (m : Mem) (d : Disco) : Chamada → Prop
  | .unlink path => ∀ j, acha m d path = some j → ∀ b e c, ¬ Entrada (lido m d) j b e c
  | c => Isola m d c

section Law

variable {m n : Mem} {d e : Disco} {v : Volume} {c : Chamada} {q : List UInt8} {k : Nat}

/-- The volume that a mount of the disk finds. -/
theorem Visto.rep {J : Volume → Prop} (hc : Cego J) (h : Visto J d) :
    ∃ w, Rep ⟨d SFS_SUPER_SEC, d SFS_IMAP_SEC, d SFS_BMAP_SEC, true⟩ d w ∧ J w := by
  obtain ⟨w, h1, h2, h3⟩ := h.volume
  let w' : Volume := ⟨bm_test (d SFS_IMAP_SEC), bm_test (d SFS_BMAP_SEC), w.ino, w.dado,
    super_free_inodes (d SFS_SUPER_SEC), super_free_blocks (d SFS_SUPER_SEC)⟩
  exact ⟨w', ⟨rfl, h.total, h.root, rfl, rfl, rfl, fun _ _ => rfl, fun _ _ => rfl, h1, h2, rfl, rfl⟩,
    @hc w w' rfl rfl h3⟩

theorem Inteiro.corte {α : Type} {x : S α} {r : α × Volume} {J : Volume → Prop} (h : Inteiro m d v)
    (hx : Refina x v r) (ha : Aguenta J x v)
    (hcut : ((pelo_journal x >>= fun _ => pure ()).run m).Cut d e) :
    ∃ d0 d1, EmVoo e d0 d1 ∧ Visto J d0 ∧ Visto J d1 := by
  obtain ⟨dv, hr, hc⟩ := h.disco
  have hcut' : ((pelo_journal x).run m).Cut d e := by
    rcases hcut.of_bind with hcut | ⟨a, d1, he, hcut⟩
    · exact hcut
    · rw [Prog.Reads.cut (p := Prog.ret _) trivial hcut]
      exact .of_exec he
  obtain ⟨d0, d1, h0, h1, hv⟩ := corte_da_chamada hx hr hc hcut'
  exact ⟨d0, d1, hv, ha m.fs dv hr h.magico d0 h0, ha m.fs dv hr h.magico d1 h1⟩

/-- What a cut of the call leaves. -/
theorem Inteiro.corte_da_chamada (h : Inteiro m d v) (hp : Caminho c.path) (hg : Guarda m d c)
    (hs : Separa m d c) (hk : v.EmUso k) (htk : inode_type (v.ino k) = 1)
    (hne : acha m d c.path ≠ some k) (hcut : (c.executa.run m).Cut d e) :
    ∃ x d0 d1, EmVoo e d0 d1 ∧ Visto (Preserva v x k) d0 ∧ Visto (Preserva v x k) d1 ∧ x ≠ some k ∧
      ∀ i, x = some i → ∀ tok, v.entra i tok = none := by
  have hv := h.vivo
  have hc := h.coeso
  have hn := hc.navegavel
  have hacha : ∀ {path j s}, v.resolve path = some (j, s) → acha m d path = some j := fun hr => by
    rw [acha_eq hv hn, hr]
    rfl
  cases c with
  | write path buf ticks =>
    have ha : Aguenta (Preserva v none k) (spfs_write path buf ticks) v := by
      refine aguenta_spfs_write hc h.legivel hp.2 ticks (fun j s hr htj => ?_) (fun hr hlen => ?_) hk htk
        fun s hr => hne (hacha hr)
      · obtain ⟨⟨hj, _⟩, _⟩ := hn.resolve hr
        obtain ⟨g1, g2⟩ := hs.1 j (hacha hr) (by rw [hv.rep.ino j hj]; exact htj)
        exact ⟨g1, fun b e x g => g2 b e x ((entrada_lido_iff hv hc).mpr g)⟩
      · have hnone := (acha_none_iff hv hc path).mpr hr
        refine ⟨(hs.2 hnone hlen).inedita hv hc, fun p hpf => ?_⟩
        exact cabe_no_tamanho_lido hv hc hpf (hg.2 hnone p ((pai_eq hv hc path).trans hpf))
    obtain ⟨d0, d1, hvoo, h0, h1⟩ := h.corte (refina_spfs_write hn path buf ticks) ha hcut
    exact ⟨none, d0, d1, hvoo, h0, h1, by simp, by simp⟩
  | mkdir path ticks =>
    have ha : Aguenta (Preserva v none k) (spfs_mkdir path ticks) v :=
      aguenta_spfs_mkdir hc h.legivel hp.2 ticks (Estreia.inedita hv hc hs)
        (fun p hpf => cabe_no_tamanho_lido hv hc hpf (hg.2 p ((pai_eq hv hc path).trans hpf))) hk htk
    obtain ⟨d0, d1, hvoo, h0, h1⟩ := h.corte (refina_spfs_mkdir hn path ticks) ha hcut
    exact ⟨none, d0, d1, hvoo, h0, h1, by simp, by simp⟩
  | unlink path =>
    have hd : ∀ i p, v.resolve path = some (i, p) →
        i ≠ 0 ∧ k ≠ i ∧ ∀ b e c, ¬ Entrada v i b e c := by
      intro i p hr
      refine ⟨?_, ?_, fun b e c g => hs i (hacha hr) b e c ((entrada_lido_iff hv hc).mpr g)⟩
      · rintro rfl
        exact hg.1 (hacha hr)
      · rintro rfl
        exact hne (hacha hr)
    obtain ⟨d0, d1, hvoo, h0, h1⟩ := h.corte (refina_spfs_unlink hn path)
      (aguenta_spfs_unlink hc h.legivel hd hk htk) hcut
    refine ⟨_, d0, d1, hvoo, h0, h1, fun hx => ?_, fun i hx tok => ?_⟩
    · obtain ⟨⟨i, p⟩, hr, rfl⟩ := Option.map_eq_some_iff.mp hx
      exact (hd i p hr).2.1 rfl
    · obtain ⟨⟨j, p⟩, hr, rfl⟩ := Option.map_eq_some_iff.mp hx
      cases he : v.entra j tok with
      | none => rfl
      | some c =>
        obtain ⟨b, f, g⟩ := entra_entrada (hn.resolve hr).1 he
        exact absurd g ((hd j p hr).2.2 b f c)

/-- A read after the mount. -/
theorem le_depois_da_monta {x : Option Nat} {fs : Fs} {t : Journal.Mem} {dj : Disco} {r : Nat}
    (hc : Coeso v) (hj : Visto (Preserva v x k) dj) (hx : x ≠ some k)
    (hf : ∀ i, x = some i → ∀ tok, v.entra i tok = none) (hq : v.resolve q = some (k, r))
    (hok : fs.sfs_ok = true) (hroot : super_root_inode fs.sb = 0) (ht : Calmo t e dj) (max : Nat) :
    ∃ m' d', ((pelo_journal (spfs_read q max)).run ⟨fs, t⟩).exec e = some ((v.read q max, m'), d') := by
  obtain ⟨w, hr, hw⟩ := hj.rep cego_preserva
  obtain ⟨T, hT⟩ := hw.navega
  have h1 : Wp Zona (spfs_read q max) _ dj fun a _ _ => a = v.read q max :=
    Wp.mono (refina_spfs_read hT q max _ dj hr) fun a _ _ h =>
      h.1.trans (hw.read hc hx hf hq max)
  have h2 := (sem_cache_spfs_read q max).wp (Q := fun a _ => a = v.read q max) hr.ok hr.root hok hroot h1
  obtain ⟨⟨a, fs'⟩, dv', j, e', he, -, rfl⟩ := Prog.wp.over journal_driver_survives.toImplements h2 ht
  refine ⟨⟨fs', j⟩, e', ?_⟩
  change ((((spfs_read q max).run fs).over journal_driver).run t >>= fun r =>
    Prog.ret (r.1.1, (⟨r.1.2, r.2⟩ : Mem))).exec e = _
  rw [Prog.exec_bind, he]
  rfl

end Law

end SpaceOS.SpaceFs
