-- What a failed installation leaves behind: the writes up to the failing one, less the paths that
-- the rollback deletes.
import SpaceOS.PkgDbLaws
import SpaceOS.PkgInstall
import SpaceOS.SpkLaws

open Lib.Bytes Lib.Layout Lib.Undo

namespace SpaceOS.Pkg

/-! ## The file system -/

section Vfs

variable {amb : Ambiente} {v : Vfs} {path : Path} {dados : List UInt8}

theorem vfs_write_arquivos : (vfs_write amb v path dados).2.arquivos =
    run v.arquivos ((amb.escrita v.escritas).efeito path dados) := rfl

theorem vfs_write_escritas : (vfs_write amb v path dados).2.escritas = v.escritas + 1 := rfl

theorem vfs_write_neg_iff :
    (vfs_write amb v path dados).1 < 0 ↔ amb.escrita v.escritas ≠ .ok := by
  unfold vfs_write
  dsimp only
  split
  · rename_i h
    constructor
    · intro hn
      omega
    · intro hne
      exact absurd h hne
  · rename_i h
    exact ⟨fun _ => h, fun _ => by omega⟩

theorem ensure_parent_dir_arquivos : (ensure_parent_dir amb v path).arquivos = v.arquivos := by
  unfold ensure_parent_dir vfs_mkdir
  dsimp only
  split
  · rfl
  · split <;> rfl

theorem ensure_parent_dir_escritas : (ensure_parent_dir amb v path).escritas = v.escritas := by
  unfold ensure_parent_dir vfs_mkdir
  dsimp only
  split
  · rfl
  · split <;> rfl

theorem foldl_unlink (paths : List Path) (v : Vfs) :
    (paths.foldl (fun v path => (vfs_unlink v path).2) v).arquivos = remove v.arquivos paths := by
  induction paths generalizing v with
  | nil => exact remove_nil.symm
  | cons p paths ih =>
    rw [List.foldl_cons, ih]
    exact remove_cons.symm

theorem rollback_arquivos (pilha : Pilha) (installed : List Path) (v : Vfs) :
    (rollback pilha installed v).arquivos = remove v.arquivos (nomes pilha.installed installed) :=
  foldl_unlink _ v

end Vfs

/-! ## The steps up to the failing one -/

section Passos

variable (amb : Ambiente)

/-- The paths of the records that are extracted, when the next write is number `n`. -/
def extraidos : Nat → List (Path × Option (List UInt8)) → List Path
  | _, [] => []
  | _, (_, none) :: _ => []
  | n, (path, some _) :: resto =>
    if amb.escrita n = .ok then path :: extraidos (n + 1) resto else []

/-- What their writes do, and the write that fails. -/
def toques : Nat → List (Path × Option (List UInt8)) → List (Path × Option (List UInt8))
  | _, [] => []
  | _, (_, none) :: _ => []
  | n, (path, some dados) :: resto =>
    if amb.escrita n = .ok then (path, some dados) :: toques (n + 1) resto
    else (amb.escrita n).efeito path dados

/-- The paths that the rollback deletes. -/
def apagados (pilha : Pilha) (n : Nat) (arquivos : List (Path × Option (List UInt8))) : List Path :=
  nomes pilha.installed ((extraidos amb n arquivos).map (·.take 64))

/-- Every record is extracted. -/
def TudoExtraido (n : Nat) (arquivos : List (Path × Option (List UInt8))) : Prop :=
  (extraidos amb n arquivos).length = arquivos.length

instance (n : Nat) (arquivos : List (Path × Option (List UInt8))) :
    Decidable (TudoExtraido amb n arquivos) := inferInstanceAs (Decidable (_ = _))

end Passos

variable {amb : Ambiente} {pilha : Pilha} {v : Vfs} {hdr : Header}
  {arquivos : List (Path × Option (List UInt8))}

theorem extrair_spec (amb : Ambiente) (arquivos : List (Path × Option (List UInt8))) (v : Vfs)
    (installed : List Path) :
    (extrair amb arquivos v installed).1 = decide (TudoExtraido amb v.escritas arquivos) ∧
      (extrair amb arquivos v installed).2.1 =
        installed ++ (extraidos amb v.escritas arquivos).map (·.take 64) ∧
      (extrair amb arquivos v installed).2.2.arquivos =
        run v.arquivos (toques amb v.escritas arquivos) ∧
      (TudoExtraido amb v.escritas arquivos →
        (extrair amb arquivos v installed).2.2.escritas = v.escritas + arquivos.length) := by
  induction arquivos generalizing v installed with
  | nil => exact ⟨rfl, (List.append_nil _).symm, rfl, fun _ => rfl⟩
  | cons a resto ih =>
    obtain ⟨path, _ | dados⟩ := a
    · refine ⟨?_, (List.append_nil _).symm, rfl, ?_⟩
      · simp [extrair, TudoExtraido, extraidos]
      · intro h
        simp [TudoExtraido, extraidos] at h
    · unfold extrair
      dsimp only
      have hw : (vfs_write amb (ensure_parent_dir amb v path) path dados).1 < 0 ↔
          amb.escrita v.escritas ≠ .ok := by
        rw [vfs_write_neg_iff, ensure_parent_dir_escritas]
      by_cases hok : amb.escrita v.escritas = .ok
      · have hn := hw.not.mpr (not_not.mpr hok)
        have h := ih (vfs_write amb (ensure_parent_dir amb v path) path dados).2
          (installed ++ [path.take 64])
        rw [vfs_write_escritas, ensure_parent_dir_escritas, vfs_write_arquivos,
          ensure_parent_dir_arquivos, ensure_parent_dir_escritas, hok] at h
        obtain ⟨h1, h2, h3, h4⟩ := h
        simp only [if_neg hn, TudoExtraido, extraidos, toques, if_pos hok, List.length_cons,
          Nat.add_right_cancel_iff, List.map_cons]
        refine ⟨h1, ?_, ?_, ?_⟩
        · rw [h2, List.append_assoc, List.singleton_append]
        · rw [h3, run_cons]
          rfl
        · intro ht
          rw [h4 ht]
          omega
      · have hn := hw.mpr hok
        simp only [if_pos hn, TudoExtraido, extraidos, toques, if_neg hok, List.length_nil,
          List.length_cons, List.map_nil, List.append_nil, vfs_write_arquivos,
          ensure_parent_dir_arquivos, ensure_parent_dir_escritas, true_and]
        refine ⟨?_, ?_⟩
        · simp
        · intro h
          omega

/-! ## The whole installation -/

section Instalacao

variable (amb : Ambiente) (pilha : Pilha) (v : Vfs) (hdr : Header)
  (arquivos : List (Path × Option (List UInt8)))

/-- The writes of the files and of the manifest. -/
def toques_do_manifesto : List (Path × Option (List UInt8)) :=
  toques amb v.escritas arquivos ++
    (amb.escrita (v.escritas + arquivos.length)).efeito (lst_path pilha.lst_path hdr.name)
      (manifesto 0 (apagados amb pilha v.escritas arquivos))

/-- The database that `pkg_db_add` finds. -/
def banco : List UInt8 :=
  ((run v.arquivos (toques_do_manifesto amb pilha v hdr arquivos) PKG_DB_PATH).map
    (·.take (PKG_DB_MAX - 1))).getD []

/-- There is no room for the line of the package. -/
def BancoCheio : Prop :=
  (banco amb pilha v hdr arquivos).length + (nova_linha pilha hdr.name hdr.pkg_version).length ≥
    PKG_DB_MAX

instance : Decidable (BancoCheio amb pilha v hdr arquivos) := inferInstanceAs (Decidable (_ ≥ _))

/-- Everything that the writes do, the failing one included. -/
def todos_os_toques : List (Path × Option (List UInt8)) :=
  if ¬ TudoExtraido amb v.escritas arquivos then toques amb v.escritas arquivos
  else if amb.escrita (v.escritas + arquivos.length) ≠ .ok ∨
      BancoCheio amb pilha v hdr arquivos then
    toques_do_manifesto amb pilha v hdr arquivos
  else
    toques_do_manifesto amb pilha v hdr arquivos ++
      (amb.escrita (v.escritas + arquivos.length + 1)).efeito PKG_DB_PATH
        (banco amb pilha v hdr arquivos ++ nova_linha pilha hdr.name hdr.pkg_version)

/-- No step fails. -/
structure Completa : Prop where
  extraido : TudoExtraido amb v.escritas arquivos
  manifesto : amb.escrita (v.escritas + arquivos.length) = .ok
  cabe : ¬ BancoCheio amb pilha v hdr arquivos
  banco : amb.escrita (v.escritas + arquivos.length + 1) = .ok

variable {amb pilha v hdr arquivos} in
/-- The manifest is written after the files. -/
theorem pkg_files_save_spec {w : Vfs}
    (ha : w.arquivos = run v.arquivos (toques amb v.escritas arquivos))
    (he : w.escritas = v.escritas + arquivos.length) :
    ∃ r u, pkg_files_save amb pilha.lst_path w hdr.name (apagados amb pilha v.escritas arquivos) =
        (r, u) ∧
      (r < 0 ↔ amb.escrita (v.escritas + arquivos.length) ≠ .ok) ∧
      u.arquivos = run v.arquivos (toques_do_manifesto amb pilha v hdr arquivos) ∧
      u.escritas = v.escritas + arquivos.length + 1 := by
  refine ⟨_, _, Prod.mk.eta.symm, ?_, ?_, ?_⟩
  · unfold pkg_files_save
    rw [vfs_write_neg_iff, he]
  · unfold pkg_files_save toques_do_manifesto
    rw [vfs_write_arquivos, ha, he, run_append]
  · unfold pkg_files_save
    rw [vfs_write_escritas, he]

variable {amb pilha v hdr arquivos} in
/-- The line of the package is written after the manifest, where the database has room for it. -/
theorem pkg_db_add_spec {u : Vfs}
    (ha : u.arquivos = run v.arquivos (toques_do_manifesto amb pilha v hdr arquivos))
    (he : u.escritas = v.escritas + arquivos.length + 1) :
    ∃ r u', pkg_db_add amb pilha u hdr.name hdr.pkg_version = (r, u') ∧
      (r < 0 ↔ BancoCheio amb pilha v hdr arquivos ∨
        amb.escrita (v.escritas + arquivos.length + 1) ≠ .ok) ∧
      u'.arquivos = run v.arquivos (if BancoCheio amb pilha v hdr arquivos then
          toques_do_manifesto amb pilha v hdr arquivos
        else
          toques_do_manifesto amb pilha v hdr arquivos ++
            (amb.escrita (v.escritas + arquivos.length + 1)).efeito PKG_DB_PATH
              (banco amb pilha v hdr arquivos ++ nova_linha pilha hdr.name hdr.pkg_version)) := by
  have hdb : db_ler u = banco amb pilha v hdr arquivos := by
    unfold db_ler vfs_read banco
    rw [ha]
  have hadd : pkg_db_add amb pilha u hdr.name hdr.pkg_version =
      if BancoCheio amb pilha v hdr arquivos then (-1, u)
      else vfs_write amb u PKG_DB_PATH
        (banco amb pilha v hdr arquivos ++ nova_linha pilha hdr.name hdr.pkg_version) := by
    unfold pkg_db_add
    rw [hdb]
    rfl
  rw [hadd]
  by_cases hc : BancoCheio amb pilha v hdr arquivos
  · rw [if_pos hc, if_pos hc]
    exact ⟨-1, u, rfl, iff_of_true (by omega) (Or.inl hc), ha⟩
  · rw [if_neg hc, if_neg hc]
    refine ⟨_, _, Prod.mk.eta.symm, ?_, ?_⟩
    · rw [vfs_write_neg_iff, he]
      exact (or_iff_right hc).symm
    · rw [vfs_write_arquivos, ha, he, run_append]

theorem extrair_e_registrar_spec :
    ((extrair_e_registrar amb pilha hdr arquivos v).1 = -1 ↔
        ¬ Completa amb pilha v hdr arquivos) ∧
      (¬ Completa amb pilha v hdr arquivos →
        (extrair_e_registrar amb pilha hdr arquivos v).2.arquivos =
          remove (run v.arquivos (todos_os_toques amb pilha v hdr arquivos))
            (apagados amb pilha v.escritas arquivos)) ∧
      (Completa amb pilha v hdr arquivos →
        (extrair_e_registrar amb pilha hdr arquivos v).2.arquivos =
          run v.arquivos (todos_os_toques amb pilha v hdr arquivos)) := by
  obtain ⟨h1, h2, h3, h4⟩ := extrair_spec amb arquivos v []
  unfold extrair_e_registrar
  rcases hx : extrair amb arquivos v [] with ⟨ok, installed, w⟩
  rw [hx] at h1 h2 h3 h4
  dsimp only at h1 h2 h3 h4 ⊢
  rw [List.nil_append] at h2
  have hnomes : nomes pilha.installed installed = apagados amb pilha v.escritas arquivos := by
    rw [h2]
    rfl
  have hroll : ∀ u : Vfs, (rollback pilha installed u).arquivos =
      remove u.arquivos (apagados amb pilha v.escritas arquivos) := by
    intro u
    rw [rollback_arquivos, hnomes]
  unfold todos_os_toques
  by_cases ht : TudoExtraido amb v.escritas arquivos
  case neg =>
    rw [h1, decide_eq_false ht, if_pos rfl, if_pos ht]
    refine ⟨⟨fun _ h => ht h.extraido, fun _ => rfl⟩, fun _ => ?_, fun h => absurd h.extraido ht⟩
    rw [hroll, h3]
  rw [h1, decide_eq_true ht, if_neg (by simp), if_neg (not_not.mpr ht), hnomes]
  obtain ⟨r, u, hsave, hneg, hu, hesc⟩ := pkg_files_save_spec h3 (h4 ht)
  rw [hsave]
  dsimp only
  by_cases hm : amb.escrita (v.escritas + arquivos.length) = .ok
  case neg =>
    rw [if_pos (hneg.mpr hm), if_pos (Or.inl hm)]
    refine ⟨⟨fun _ h => hm h.manifesto, fun _ => rfl⟩, fun _ => ?_, fun h => absurd h.manifesto hm⟩
    rw [hroll, hu]
  rw [if_neg (hneg.not.mpr (not_not.mpr hm))]
  obtain ⟨r', u', hadd, hneg', hu'⟩ := pkg_db_add_spec hu hesc
  simp only [hadd, or_iff_right (not_not.mpr hm), ← hu']
  by_cases hfim : r' < 0
  · rw [if_pos hfim]
    have hnao : ¬ Completa amb pilha v hdr arquivos := fun h =>
      (hneg'.mp hfim).elim h.cabe fun hb => hb h.banco
    exact ⟨⟨fun _ => hnao, fun _ => rfl⟩, fun _ => hroll u', fun h => absurd h hnao⟩
  · rw [if_neg hfim]
    obtain ⟨hc, hb⟩ := not_or.mp (hneg'.not.mp hfim)
    have hcomp : Completa amb pilha v hdr arquivos := ⟨ht, hm, hc, not_not.mp hb⟩
    exact ⟨⟨fun h => absurd h (by simp), fun h => absurd hcomp h⟩, fun h => absurd hcomp h,
      fun _ => rfl⟩

end Instalacao

/-! ## All or nothing -/

/-- The install paths of the package and its manifest. -/
def caminhos_novos (pilha : Pilha) (hdr : Header) (arquivos : List (Path × Option (List UInt8))) :
    List Path :=
  lst_path pilha.lst_path hdr.name :: arquivos.map Prod.fst

/-- Every file is as before, no path of the package exists that did not, and the database has no
line that it did not have. -/
structure TudoOuNada (pilha : Pilha) (spk_path : Path) (antes depois : Vfs) : Prop where
  preserva : ∀ p c, antes.arquivos p = some c → depois.arquivos p = some c
  caminhos : ∀ hdr arquivos, ler_pacote antes spk_path = .ok (hdr, arquivos) →
    ∀ p ∈ caminhos_novos pilha hdr arquivos, antes.arquivos p = none → depois.arquivos p = none
  banco : ∀ l ∈ linhas ((depois.arquivos PKG_DB_PATH).getD []),
    l ∈ linhas ((antes.arquivos PKG_DB_PATH).getD [])

/-- No path that the rollback deletes existed, and of the paths that were written, those that the
rollback leaves have what they had; the database may be an empty file where there was none. -/
structure Desfaz (amb : Ambiente) (pilha : Pilha) (v : Vfs) (hdr : Header)
    (arquivos : List (Path × Option (List UInt8))) : Prop where
  apagados : ∀ p ∈ apagados amb pilha v.escritas arquivos, v.arquivos p = none
  tocados : ∀ p x, last (todos_os_toques amb pilha v hdr arquivos) p = some x →
    p ∈ Pkg.apagados amb pilha v.escritas arquivos ∨ x = v.arquivos p ∨
      (p = PKG_DB_PATH ∧ p ∉ caminhos_novos pilha hdr arquivos ∧ v.arquivos p = none ∧ x = some [])

/-- The installation goes through, or what it did can be undone. -/
def Reversivel (amb : Ambiente) (pilha : Pilha) (memoria : Bool) (v : Vfs) (spk_path : Path) : Prop :=
  ∀ hdr arquivos, memoria = true → ler_pacote v spk_path = .ok (hdr, arquivos) →
    pkg_is_installed v hdr.name = false →
    Completa amb pilha v hdr arquivos ∨ Desfaz amb pilha v hdr arquivos

/-- What `TudoOuNada` asks at one path. -/
structure Mantido (novos : List Path) (p : Path) (a b : Option (List UInt8)) : Prop where
  preserva : ∀ c, a = some c → b = some c
  caminho : p ∈ novos → a = none → b = none
  banco : p = PKG_DB_PATH → ∀ l ∈ linhas (b.getD []), l ∈ linhas (a.getD [])

section Mantido

variable {novos : List Path} {p : Path} {a b : Option (List UInt8)}

theorem Mantido.refl (novos : List Path) (p : Path) (a : Option (List UInt8)) :
    Mantido novos p a a :=
  ⟨fun _ h => h, fun _ h => h, fun _ _ h => h⟩

theorem mantido_none_iff : Mantido novos p a none ↔ a = none := by
  constructor
  · intro h
    rcases a with _ | c
    · rfl
    · exact absurd (h.preserva c rfl) (by simp)
  · rintro rfl
    exact Mantido.refl novos p none

theorem mantido_iff (hp : p ∈ novos ∨ p = PKG_DB_PATH) : Mantido novos p a b ↔
    b = a ∨ (p = PKG_DB_PATH ∧ p ∉ novos ∧ a = none ∧ b = some []) := by
  constructor
  · intro h
    rcases a with _ | c
    · rcases b with _ | d
      · exact Or.inl rfl
      · have hn : p ∉ novos := fun hn => absurd (h.caminho hn rfl) (by simp)
        have hdb := hp.resolve_left hn
        have hd : d = [] := by
          rw [← linhas_eq_nil]
          exact List.eq_nil_iff_forall_not_mem.mpr fun l hl => absurd (h.banco hdb l hl) (by simp)
        exact Or.inr ⟨hdb, hn, rfl, by rw [hd]⟩
    · exact Or.inl (h.preserva c rfl)
  · rintro (rfl | ⟨_, hn, rfl, rfl⟩)
    · exact Mantido.refl novos p b
    · exact ⟨fun c hc => absurd hc (by simp), fun h => absurd h hn, fun _ l hl => hl⟩

end Mantido

theorem efeito_fst {d : Desfecho} {path p : Path} {dados : List UInt8}
    (h : p ∈ (d.efeito path dados).map Prod.fst) : p = path := by
  cases d with
  | sem_efeito => simp [Desfecho.efeito] at h
  | ok => simpa [Desfecho.efeito] using h
  | apagado => simpa [Desfecho.efeito] using h
  | parcial n => simpa [Desfecho.efeito] using h

theorem toques_fst {n : Nat} {p : Path} (h : p ∈ (toques amb n arquivos).map Prod.fst) :
    p ∈ arquivos.map Prod.fst := by
  induction arquivos generalizing n with
  | nil => simp [toques] at h
  | cons a resto ih =>
    obtain ⟨path, _ | dados⟩ := a
    · simp [toques] at h
    · unfold toques at h
      rw [List.map_cons, List.mem_cons]
      split at h
      · rw [List.map_cons, List.mem_cons] at h
        exact h.imp id ih
      · exact Or.inl (efeito_fst h)

/-- Only the paths of the package, its manifest and the database are written. -/
theorem todos_os_toques_fst {p : Path}
    (h : p ∈ (todos_os_toques amb pilha v hdr arquivos).map Prod.fst) :
    p ∈ caminhos_novos pilha hdr arquivos ∨ p = PKG_DB_PATH := by
  have hman : p ∈ (toques_do_manifesto amb pilha v hdr arquivos).map Prod.fst →
      p ∈ caminhos_novos pilha hdr arquivos := by
    unfold toques_do_manifesto caminhos_novos
    rw [List.map_append, List.mem_append, List.mem_cons]
    rintro (h | h)
    · exact Or.inr (toques_fst h)
    · exact Or.inl (efeito_fst h)
  unfold todos_os_toques at h
  split at h
  · exact Or.inl (List.mem_cons_of_mem _ (toques_fst h))
  · split at h
    · exact Or.inl (hman h)
    · rw [List.map_append, List.mem_append] at h
      rcases h with h | h
      · exact Or.inl (hman h)
      · exact Or.inr (efeito_fst h)

theorem desfaz_iff {depois : Vfs}
    (hd : depois.arquivos = remove (run v.arquivos (todos_os_toques amb pilha v hdr arquivos))
      (apagados amb pilha v.escritas arquivos)) :
    (∀ p, Mantido (caminhos_novos pilha hdr arquivos) p (v.arquivos p) (depois.arquivos p)) ↔
      Desfaz amb pilha v hdr arquivos := by
  rw [hd, remove_run_rel_iff (Mantido.refl _)]
  constructor
  · rintro ⟨h1, h2⟩
    refine ⟨fun p hp => mantido_none_iff.mp (h1 p hp), fun p x hx => ?_⟩
    exact (h2 p x hx).imp id (mantido_iff (todos_os_toques_fst (mem_of_last hx))).mp
  · intro h
    refine ⟨fun p hp => mantido_none_iff.mpr (h.apagados p hp), fun p x hx => ?_⟩
    exact (h.tocados p x hx).imp id (mantido_iff (todos_os_toques_fst (mem_of_last hx))).mpr

theorem tudoOuNada_refl (pilha : Pilha) (spk_path : Path) (v : Vfs) :
    TudoOuNada pilha spk_path v v :=
  ⟨fun _ _ h => h, fun _ _ _ _ _ h => h, fun _ h => h⟩

theorem tudoOuNada_iff {spk_path : Path} {depois : Vfs}
    (hl : ler_pacote v spk_path = .ok (hdr, arquivos)) :
    TudoOuNada pilha spk_path v depois ↔
      ∀ p, Mantido (caminhos_novos pilha hdr arquivos) p (v.arquivos p) (depois.arquivos p) := by
  constructor
  · intro h p
    refine ⟨h.preserva p, h.caminhos hdr arquivos hl p, ?_⟩
    rintro rfl
    exact h.banco
  · intro h
    refine ⟨fun p => (h p).preserva, ?_, (h PKG_DB_PATH).banco rfl⟩
    intro hdr' arquivos' hl' p hp
    rw [hl] at hl'
    injection hl' with hl'
    obtain ⟨rfl, rfl⟩ := Prod.mk.inj hl'
    exact (h p).caminho hp

theorem instalar_spk_pacote {spk_path : Path} {memoria : Bool} (hm : memoria = true)
    (hl : ler_pacote v spk_path = .ok (hdr, arquivos)) (hi : pkg_is_installed v hdr.name = false) :
    instalar_spk amb pilha memoria v spk_path =
      extrair_e_registrar amb pilha hdr arquivos v := by
  unfold instalar_spk
  rw [if_neg (by simp [hm]), hl]
  dsimp only
  rw [if_neg (by simp [hi])]

/-- A package that is not refused is undone just where it can be. -/
theorem desfaz_of_pacote {spk_path : Path} {memoria : Bool} (hm : memoria = true)
    (hl : ler_pacote v spk_path = .ok (hdr, arquivos)) (hi : pkg_is_installed v hdr.name = false) :
    ((instalar_spk amb pilha memoria v spk_path).1 = -1 →
        TudoOuNada pilha spk_path v (instalar_spk amb pilha memoria v spk_path).2) ↔
      Completa amb pilha v hdr arquivos ∨ Desfaz amb pilha v hdr arquivos := by
  obtain ⟨hr, ha, _⟩ := extrair_e_registrar_spec amb pilha v hdr arquivos
  rw [instalar_spk_pacote hm hl hi, hr, tudoOuNada_iff hl]
  constructor
  · intro h
    by_cases hc : Completa amb pilha v hdr arquivos
    · exact Or.inl hc
    · exact Or.inr ((desfaz_iff (ha hc)).mp (h hc))
  · intro h hc
    exact (desfaz_iff (ha hc)).mpr (h.resolve_left hc)

/-- The kernel reads the package that the packer wrote. -/
theorem ler_pacote_of_criar_spk {name version author : List UInt8} {deps : List (List UInt8)}
    {files : List Arquivo} {img : List UInt8} {path : Path}
    (hc : Cabivel name version author deps files)
    (h : criar_spk name version author deps files = some img) (hlen : img.length ≤ SPK_MAX_SIZE)
    (hv : v.arquivos path = some img) :
    ler_pacote v path = .ok (cabecalho name version author deps files,
      files.map fun f => (f.install_path, some f.content)) := by
  have hl := lido_of_criar_spk hc h hlen (lies_getD img)
  have hsize := length_criar_spk h
  have hfiles : arquivos_do_pacote (fun i => img.getD i 0) img.length
      (cabecalho name version author deps files) =
      files.map fun f => (f.install_path, some f.content) := by
    unfold arquivos_do_pacote
    rw [hl.num_files]
    refine List.ext_getElem (by simp) fun i h1 h2 => ?_
    have hi : i < files.length := by simpa using h2
    obtain ⟨hp, hd⟩ := hl.arquivo hi hsize
    rw [List.getElem_map, List.getElem_map, List.getElem_range, hp, hd]
  unfold ler_pacote
  rw [hv]
  dsimp only
  rw [hsize, hl.aceito, ← hsize]
  dsimp only
  rw [hfiles]

/-- A file system with the package `spk_a` at `/p` and nothing else. -/
def so_spk_a : Vfs where
  arquivos := fun p => if p = [47, 112] then some spk_a else none
  diretorios := []
  escritas := 0
  criacoes := 0

/-- Stack memory that is zero. -/
def pilha_zerada : Pilha :=
  ⟨⟨[], by decide⟩, ⟨[], by decide⟩, ⟨[], by decide⟩, ⟨[], by decide⟩⟩

/-- The first write fails after a byte. -/
def falha_no_primeiro : Ambiente where
  escrita := fun n => if n = 0 then .parcial 1 else .ok
  criacao := fun _ => true

end SpaceOS.Pkg
