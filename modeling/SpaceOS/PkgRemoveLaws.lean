-- Removal of a package after any run of installations: which files go, and what the other packages
-- keep.
import Mathlib.Data.List.Flatten
import Mathlib.Data.List.Pairwise
import SpaceOS.PkgInstallLaws

open Lib.Bytes Lib.Layout Lib.Undo

namespace SpaceOS.Pkg

/-! ## Runs of installations -/

/-- Every call succeeds. -/
def sem_falhas : Ambiente where
  escrita := fun _ => .ok
  criacao := fun _ => true

/-- A package that was installed, with the stack of its installation. -/
structure Instalado where
  hdr : Header
  arquivos : List (Path × Option (List UInt8))
  pilha : Pilha

namespace Instalado

def nome (p : Instalado) : List UInt8 := p.hdr.name

def caminhos (p : Instalado) : List Path := p.arquivos.map Prod.fst

def manifesto (p : Instalado) : Path := lst_path p.pilha.lst_path p.hdr.name

def linha (p : Instalado) : List UInt8 := nova_linha p.pilha p.hdr.name p.hdr.pkg_version

/-- The paths as they stand in `installed`. -/
def copiados (p : Instalado) : List Path :=
  nomes p.pilha.installed (p.caminhos.map (·.take 64))

end Instalado

/-- Packages that were installed one after the other. -/
inductive Instalados (v : Vfs) : List Instalado → Vfs → Prop
  | nil : Instalados v [] v
  | snoc {ps : List Instalado} {w : Vfs} {p : Instalado} {memoria : Bool} {spk_path : Path} :
      Instalados v ps w → ler_pacote w spk_path = .ok (p.hdr, p.arquivos) →
      (instalar_spk sem_falhas p.pilha memoria w spk_path).1 = 0 →
      Instalados v (ps ++ [p]) (instalar_spk sem_falhas p.pilha memoria w spk_path).2

/-! ## What a package is made of -/

theorem zero_notMem_cstr (m : Memory) (a n : Nat) : 0 ∉ cstr m a n := by
  intro h
  have := List.mem_takeWhile_imp h
  simp at this

theorem zero_notMem_header (buf : Memory) (size : Nat) :
    0 ∉ (header buf size).name ∧ 0 ∉ (header buf size).pkg_version :=
  ⟨zero_notMem_cstr buf 8 (size - 8), zero_notMem_cstr buf 40 (size - 40)⟩

theorem zero_notMem_install_path (buf : Memory) (size i : Nat) :
    0 ∉ (record buf size i).install_path :=
  zero_notMem_cstr buf (HEADER + RECORD * i) (size - (HEADER + RECORD * i))

/-- What holds of the header and the records of every package that the kernel reads. -/
structure Valido (p : Instalado) : Prop where
  nome : 0 ∉ p.hdr.name
  versao : 0 ∉ p.hdr.pkg_version
  caminhos : ∀ c ∈ p.caminhos, 0 ∉ c
  length_le : p.caminhos.length ≤ 8

theorem verifica_ok {buf : Memory} {size : UInt32} {hdr : Header} (h : verifica buf size = .ok hdr) :
    hdr = header buf size.toNat ∧ hdr.num_files.toNat ≤ 8 := by
  unfold verifica at h
  dsimp only at h
  split at h
  · exact absurd h (by simp)
  split at h
  · exact absurd h (by simp)
  split at h
  · exact absurd h (by simp)
  split at h
  · exact absurd h (by simp)
  split at h
  · exact absurd h (by simp)
  rename_i hn
  split at h
  · exact absurd h (by simp)
  split at h
  · exact absurd h (by simp)
  injection h with h
  subst h
  refine ⟨rfl, ?_⟩
  have h2 := (not_or.mp hn).2
  rw [gt_iff_lt, UInt32.lt_iff_toNat_lt] at h2
  have : (UInt32.ofNat SPK_MAX_FILES).toNat = 8 := rfl
  omega

theorem valido_of_ler_pacote {w : Vfs} {spk_path : Path} {p : Instalado}
    (h : ler_pacote w spk_path = .ok (p.hdr, p.arquivos)) : Valido p := by
  unfold ler_pacote at h
  split at h
  · exact absurd h (by simp)
  · dsimp only at h
    split at h
    · exact absurd h (by simp)
    · rename_i hdr hv
      injection h with h
      obtain ⟨h1, h2⟩ := Prod.mk.inj h
      obtain ⟨heq, hn⟩ := verifica_ok hv
      refine ⟨?_, ?_, ?_, ?_⟩
      · rw [← h1, heq]
        exact (zero_notMem_header _ _).1
      · rw [← h1, heq]
        exact (zero_notMem_header _ _).2
      · intro c hc
        unfold Instalado.caminhos arquivos_do_pacote at *
        rw [← h2, List.map_map] at hc
        obtain ⟨i, _, rfl⟩ := List.mem_map.mp hc
        dsimp only [Function.comp_apply]
        exact zero_notMem_install_path _ _ _
      · unfold Instalado.caminhos
        rw [← h2, List.length_map]
        unfold arquivos_do_pacote
        rw [List.length_map, List.length_range]
        exact hn

/-! ## One installation -/

theorem nomes_eq {lixo : Lixo} {paths : List Path} (h : ∀ p ∈ paths, p.length ≤ 63) :
    nomes lixo (paths.map (·.take 64)) = paths := by
  induction paths with
  | nil => rfl
  | cons p paths ih =>
    have hp := h p List.mem_cons_self
    rw [List.map_cons, nomes, ih fun q hq => h q (List.mem_cons_of_mem _ hq), ler_campo,
      List.take_of_length_le (by omega), if_pos (by omega)]

theorem lst_path_ne_db (lixo : Lixo) (name : List UInt8) : lst_path lixo name ≠ PKG_DB_PATH := by
  intro h
  have hl := congrArg List.getLast? h
  unfold lst_path at hl
  rw [List.getLast?_append] at hl
  exact absurd hl (by simp [PKG_DB_PATH])

section Passo

variable {amb : Ambiente} {arquivos : List (Path × Option (List UInt8))} {n : Nat}

theorem TudoExtraido.eq (h : TudoExtraido amb n arquivos) :
    toques amb n arquivos = arquivos ∧ extraidos amb n arquivos = arquivos.map Prod.fst ∧
      ∀ a ∈ arquivos, a.2.isSome := by
  induction arquivos generalizing n with
  | nil => exact ⟨rfl, rfl, by simp⟩
  | cons a resto ih =>
    obtain ⟨path, _ | dados⟩ := a
    · simp [TudoExtraido, extraidos] at h
    · unfold TudoExtraido extraidos at h
      by_cases hok : amb.escrita n = .ok
      · rw [if_pos hok, List.length_cons, List.length_cons] at h
        obtain ⟨h1, h2, h3⟩ := ih (n := n + 1) (Nat.succ.inj h)
        rw [toques, if_pos hok, extraidos, if_pos hok, h1, h2]
        refine ⟨rfl, rfl, fun a ha => ?_⟩
        rcases List.mem_cons.mp ha with rfl | ha
        · rfl
        · exact h3 a ha
      · rw [if_neg hok] at h
        simp at h

variable {w : Vfs} {p : Instalado} {memoria : Bool} {spk_path : Path}

/-- The writes of a successful installation: the files, the manifest, the database. -/
def escritos (w : Vfs) (p : Instalado) : List (Path × Option (List UInt8)) :=
  p.arquivos ++ [(p.manifesto, some (manifesto 0 p.copiados)),
    (PKG_DB_PATH, some (db_ler w ++ p.linha))]

/-- What a package whose records are all extracted writes, and the database that it meets. -/
theorem escritos_ate_o_banco (w : Vfs) (h : TudoExtraido sem_falhas w.escritas p.arquivos)
    (hdb : PKG_DB_PATH ∉ p.caminhos) :
    toques_do_manifesto sem_falhas p.pilha w p.hdr p.arquivos =
        p.arquivos ++ [(p.manifesto, some (manifesto 0 p.copiados))] ∧
      banco sem_falhas p.pilha w p.hdr p.arquivos = db_ler w := by
  obtain ⟨h1, h2, _⟩ := h.eq
  have htm : toques_do_manifesto sem_falhas p.pilha w p.hdr p.arquivos =
      p.arquivos ++ [(p.manifesto, some (manifesto 0 p.copiados))] := by
    unfold toques_do_manifesto apagados
    rw [h1, h2]
    rfl
  refine ⟨htm, ?_⟩
  unfold banco db_ler vfs_read
  rw [htm, run_of_notMem]
  rw [List.map_append, List.mem_append, not_or]
  refine ⟨hdb, ?_⟩
  rw [List.map_singleton, List.mem_singleton]
  exact fun he => lst_path_ne_db _ _ he.symm

theorem instalar_spk_escritos (hl : ler_pacote w spk_path = .ok (p.hdr, p.arquivos))
    (h : (instalar_spk sem_falhas p.pilha memoria w spk_path).1 = 0)
    (hdb : PKG_DB_PATH ∉ p.caminhos) :
    (instalar_spk sem_falhas p.pilha memoria w spk_path).2.arquivos =
        run w.arquivos (escritos w p) ∧
      (∀ a ∈ p.arquivos, a.2.isSome) ∧ (db_ler w ++ p.linha).length < PKG_DB_MAX := by
  have hm : memoria = true := by
    by_contra hm
    unfold instalar_spk at h
    rw [if_pos (by simpa using hm)] at h
    exact absurd h (by simp)
  have hi : pkg_is_installed w p.hdr.name = false := by
    by_contra hi
    unfold instalar_spk at h
    rw [if_neg (by simp [hm]), hl] at h
    dsimp only at h
    rw [if_pos (by simpa using hi)] at h
    exact absurd h (by simp)
  rw [instalar_spk_pacote hm hl hi] at h ⊢
  obtain ⟨hr, _, ha⟩ := extrair_e_registrar_spec sem_falhas p.pilha w p.hdr p.arquivos
  have hc : Completa sem_falhas p.pilha w p.hdr p.arquivos := by
    by_contra hc
    rw [hr.mpr hc] at h
    exact absurd h (by simp)
  obtain ⟨htm, hb⟩ := escritos_ate_o_banco w hc.extraido hdb
  refine ⟨?_, hc.extraido.eq.2.2, ?_⟩
  · rw [ha hc]
    unfold todos_os_toques
    rw [if_neg (not_not.mpr hc.extraido), if_neg (not_or.mpr ⟨not_not.mpr hc.manifesto, hc.cabe⟩),
      htm, hb, List.append_assoc]
    rfl
  · have hcabe := hc.cabe
    unfold BancoCheio at hcabe
    rw [hb] at hcabe
    rw [List.length_append]
    exact Nat.lt_of_not_le hcabe

end Passo

/-! ## A run of installations -/

theorem nova_linha_ne_nil (pilha : Pilha) (name version : List UInt8) :
    nova_linha pilha name version ≠ [] := by
  obtain ⟨p, hp⟩ := nova_linha_eq pilha name version
  rw [hp]
  simp

/-- The database after the installations. -/
def banco_de (ps : List Instalado) : List UInt8 := ps.flatMap Instalado.linha

theorem linhaCompleta_linha {p : Instalado} {l : List UInt8} (h : l ∈ linhas p.linha) :
    LinhaCompleta l := by
  obtain ⟨t, ht⟩ := nova_linha_eq p.pilha p.hdr.name p.hdr.pkg_version
  unfold Instalado.linha at h
  rw [ht] at h
  exact linhaCompleta_of_mem h

theorem linhas_banco_de (ps : List Instalado) :
    linhas (banco_de ps) = ps.flatMap fun p => linhas p.linha := by
  have hflat : (ps.flatMap fun p => linhas p.linha).flatten = banco_de ps := by
    unfold banco_de
    induction ps with
    | nil => rfl
    | cons p ps ih =>
      rw [List.flatMap_cons, List.flatten_append, ih, flatten_linhas, List.flatMap_cons]
  rw [← hflat]
  refine linhas_flatten fun l hl => ?_
  obtain ⟨p, _, hl⟩ := List.mem_flatMap.mp hl
  exact linhaCompleta_linha hl

/-- The line that names a package. -/
theorem linha_do_pacote {ps : List Instalado} {p : Instalado} (hp : p ∈ ps)
    (h : NomeLegivel p.nome) : ∃ l ∈ linhas (banco_de ps), extrair_token l 33 = p.nome := by
  rcases hl : linhas p.linha with _ | ⟨l, ls⟩
  · exact absurd (linhas_eq_nil.mp hl) (nova_linha_ne_nil _ _ _)
  · have hmem : l ∈ linhas (banco_de ps) := by
      rw [linhas_banco_de]
      refine List.mem_flatMap.mpr ⟨p, hp, ?_⟩
      rw [hl]
      exact List.mem_cons_self
    refine ⟨l, hmem, ?_⟩
    rw [extrair_token_linha hl]
    exact extrair_token_nova_linha h

/-- What holds after a run of installations: the database has the lines of the packages, and their
files and manifests are there. -/
structure Registrado (ps : List Instalado) (w : Vfs) : Prop where
  vazio : ps = [] → w.arquivos PKG_DB_PATH = none
  banco : ps ≠ [] → Banco w (banco_de ps)
  validos : ∀ p ∈ ps, Valido p
  arquivos : ∀ p ∈ ps, ∀ c ∈ p.caminhos, (w.arquivos c).isSome
  manifestos : ∀ p ∈ ps, (w.arquivos p.manifesto).isSome
  integros : ∀ p ∈ ps, (∀ q ∈ ps, q ≠ p → q.manifesto ≠ p.manifesto ∧ p.manifesto ∉ q.caminhos) →
    w.arquivos p.manifesto = some (manifesto 0 p.copiados)

theorem Registrado.db_ler {ps : List Instalado} {w : Vfs} (h : Registrado ps w) :
    db_ler w = banco_de ps := by
  by_cases hps : ps = []
  · unfold Pkg.db_ler vfs_read
    rw [h.vazio hps, hps]
    rfl
  · exact (h.banco hps).db_ler

theorem escritos_isSome {w : Vfs} {p : Instalado} (h : ∀ a ∈ p.arquivos, a.2.isSome) :
    ∀ a ∈ escritos w p, a.2.isSome := by
  intro a ha
  unfold escritos at ha
  rw [List.mem_append, List.mem_cons, List.mem_singleton] at ha
  rcases ha with ha | rfl | rfl
  · exact h a ha
  · rfl
  · rfl

/-- What an installation writes: its files, its manifest and the registry. -/
theorem caminhos_escritos (w : Vfs) (p : Instalado) :
    (escritos w p).map Prod.fst = p.caminhos ++ [p.manifesto, PKG_DB_PATH] := by
  unfold escritos Instalado.caminhos
  rw [List.map_append]
  rfl

/-- One more installation. -/
theorem Registrado.snoc {ps : List Instalado} {w w' : Vfs} {p : Instalado} (h : Registrado ps w)
    (hv : Valido p) (hw : w'.arquivos = run w.arquivos (escritos w p))
    (hsome : ∀ a ∈ p.arquivos, a.2.isSome) (hlen : (Pkg.db_ler w ++ p.linha).length < PKG_DB_MAX)
    (hnew : p ∉ ps) : Registrado (ps ++ [p]) w' := by
  have hsome' := escritos_isSome (w := w) hsome
  have hkeys := caminhos_escritos w p
  have hman : p.manifesto ≠ PKG_DB_PATH := lst_path_ne_db _ _
  have hvalidos : ∀ q ∈ ps ++ [p], Valido q := by
    intro q hq
    rcases List.mem_append.mp hq with hq | hq
    · exact h.validos q hq
    · rw [List.mem_singleton.mp hq]
      exact hv
  have hdb : w'.arquivos PKG_DB_PATH = some (banco_de (ps ++ [p])) := by
    rw [hw, run_eq]
    unfold escritos banco_de
    rw [h.db_ler, List.flatMap_append, List.flatMap_singleton]
    simp [last_append, last, banco_de]
  refine ⟨fun he => absurd he (by simp), fun _ => ⟨hdb, ?_, ?_⟩, hvalidos, ?_, ?_, ?_⟩
  · intro hz
    obtain ⟨q, hq, hz⟩ := List.mem_flatMap.mp hz
    exact zero_notMem_nova_linha (hvalidos q hq).nome (hvalidos q hq).versao hz
  · rw [h.db_ler] at hlen
    unfold banco_de at hlen ⊢
    rwa [List.flatMap_append, List.flatMap_singleton]
  · intro q hq c hc
    rw [hw]
    apply run_isSome hsome'
    rw [hkeys, List.mem_append]
    rcases List.mem_append.mp hq with hq | hq
    · exact Or.inl (h.arquivos q hq c hc)
    · rw [List.mem_singleton.mp hq] at hc
      exact Or.inr (Or.inl hc)
  · intro q hq
    rw [hw]
    apply run_isSome hsome'
    rw [hkeys, List.mem_append]
    rcases List.mem_append.mp hq with hq | hq
    · exact Or.inl (h.manifestos q hq)
    · rw [List.mem_singleton.mp hq]
      exact Or.inr (Or.inr List.mem_cons_self)
  · intro q hq hsep
    rw [hw]
    rcases List.mem_append.mp hq with hq | hq
    · have hpq : p ≠ q := fun he => hnew (he ▸ hq)
      obtain ⟨hm, hc⟩ := hsep p (by simp) hpq
      rw [run_of_notMem]
      · exact h.integros q hq fun q' hq' => hsep q' (List.mem_append_left _ hq')
      · rw [hkeys, List.mem_append, List.mem_cons, List.mem_singleton, not_or, not_or]
        exact ⟨hc, Ne.symm hm, lst_path_ne_db _ _⟩
    · rw [List.mem_singleton.mp hq, run_eq]
      unfold escritos
      simp [last_append, last, hman]

/-- After any run of installations. -/
theorem Instalados.registrado {v w : Vfs} {ps : List Instalado} (h : Instalados v ps w)
    (hv : v.arquivos PKG_DB_PATH = none) (hn : ps.Pairwise fun p q => p.nome ≠ q.nome)
    (hdb : ∀ p ∈ ps, PKG_DB_PATH ∉ p.caminhos) : Registrado ps w := by
  induction h with
  | nil => exact ⟨fun _ => hv, fun h => absurd rfl h, by simp, by simp, by simp, by simp⟩
  | @snoc ps w p memoria spk_path _ hl hr ih =>
    rw [List.pairwise_append] at hn
    have hreg := ih hn.1 fun q hq => hdb q (List.mem_append_left _ hq)
    obtain ⟨h1, h2, h3⟩ := instalar_spk_escritos hl hr (hdb p (by simp))
    refine hreg.snoc (valido_of_ler_pacote hl) h1 h2 h3 fun hp => ?_
    exact hn.2.2 p hp p (by simp) rfl

/-! ## Removal -/

/-- The database is the text of the lines `ls`. -/
structure Linhas (v : Vfs) (ls : List (List UInt8)) : Prop where
  lido : db_ler v = ls.flatten
  completas : ∀ l ∈ ls, LinhaCompleta l
  sem_zero : 0 ∉ ls.flatten
  length_lt : ls.flatten.length < PKG_DB_MAX

section Linhas

variable {v : Vfs} {db name : List UInt8} {ls : List (List UInt8)}

theorem Banco.linhas (h : Banco v db) (hc : ∀ l ∈ linhas db, LinhaCompleta l) :
    Linhas v (linhas db) where
  lido := by rw [h.db_ler, flatten_linhas]
  completas := hc
  sem_zero := by rw [flatten_linhas]; exact h.sem_zero
  length_lt := by rw [flatten_linhas]; exact h.length_lt

theorem Linhas.of_write (hc : ∀ l ∈ ls, LinhaCompleta l) (hz : 0 ∉ ls.flatten)
    (hlt : ls.flatten.length < PKG_DB_MAX) :
    Linhas (vfs_write sem_falhas v PKG_DB_PATH ls.flatten).2 ls := by
  have hb : Banco (vfs_write sem_falhas v PKG_DB_PATH ls.flatten).2 ls.flatten := by
    refine ⟨?_, hz, hlt⟩
    rw [vfs_write_arquivos, run_eq]
    simp [sem_falhas, Desfecho.efeito, last]
  exact ⟨hb.db_ler, hc, hz, hlt⟩

theorem Linhas.instalado_iff (h : Linhas v ls) :
    pkg_is_installed v name = true ↔ ∃ l ∈ ls, extrair_token l 33 = name := by
  rw [pkg_is_installed_iff, h.lido, texto_eq h.sem_zero, linhas_flatten h.completas]

/-- The lines of a name are taken out. -/
theorem Linhas.remove (h : Linhas v ls) (name : List UInt8) :
    Linhas (pkg_db_remove sem_falhas v name).2
      (ls.filter fun linha => extrair_token linha 33 ≠ name) := by
  have hsub : (ls.filter fun linha => extrair_token linha 33 ≠ name).flatten.Sublist ls.flatten :=
    List.filter_sublist.flatten
  have hc : ∀ l ∈ ls.filter fun linha => extrair_token linha 33 ≠ name, LinhaCompleta l :=
    fun l hl => h.completas l (List.mem_of_mem_filter hl)
  have hz : 0 ∉ (ls.filter fun linha => extrair_token linha 33 ≠ name).flatten :=
    fun hz => h.sem_zero (hsub.subset hz)
  have hlt := Nat.lt_of_le_of_lt hsub.length_le h.length_lt
  unfold pkg_db_remove
  dsimp only
  split
  · next hdb =>
    rw [h.lido] at hdb
    rw [hdb] at hsub
    exact ⟨by rw [h.lido, hdb, List.sublist_nil.mp hsub], hc, hz, hlt⟩
  · rw [h.lido, texto_eq h.sem_zero, linhas_flatten h.completas]
    split
    · next hnovo =>
      refine ⟨?_, hc, hz, hlt⟩
      rw [hnovo]
      unfold db_ler vfs_read vfs_unlink Lib.Undo.remove
      dsimp only
      rw [if_pos (List.mem_singleton_self _)]
      rfl
    · exact Linhas.of_write hc hz hlt

/-- The other names stay. -/
theorem Linhas.instalado_remove_iff (h : Linhas v ls) (name outro : List UInt8) :
    pkg_is_installed (pkg_db_remove sem_falhas v name).2 outro = true ↔
      pkg_is_installed v outro = true ∧ outro ≠ name := by
  rw [(h.remove name).instalado_iff, h.instalado_iff]
  constructor
  · rintro ⟨l, hl, rfl⟩
    rw [List.mem_filter, decide_eq_true_iff] at hl
    exact ⟨⟨l, hl.1, rfl⟩, hl.2⟩
  · rintro ⟨⟨l, hl, rfl⟩, hne⟩
    refine ⟨l, ?_, rfl⟩
    rw [List.mem_filter, decide_eq_true_iff]
    exact ⟨hl, hne⟩

/-- A removal from the database leaves the other files alone. -/
theorem pkg_db_remove_arquivos (v : Vfs) (name : List UInt8) (p : Path) (hp : p ≠ PKG_DB_PATH) :
    (pkg_db_remove sem_falhas v name).2.arquivos p = v.arquivos p := by
  unfold pkg_db_remove
  dsimp only
  split
  · rfl
  · split
    · unfold vfs_unlink Lib.Undo.remove
      dsimp only
      rw [if_neg (by simp [hp])]
    · rw [vfs_write_arquivos, run_of_notMem]
      simp [sem_falhas, Desfecho.efeito, hp]

end Linhas

/-- `pkg_remove` deletes the files and the manifest of a package, and the others stay installed. -/
structure RemocaoIsolada (ps : List Instalado) (a : Instalado) (antes depois : Vfs) : Prop where
  removidos : ∀ q, q ≠ PKG_DB_PATH →
    depois.arquivos q = remove antes.arquivos (a.caminhos ++ [a.manifesto]) q
  arquivos : ∀ b ∈ ps, b ≠ a → ∀ c ∈ b.caminhos, (depois.arquivos c).isSome
  manifestos : ∀ b ∈ ps, b ≠ a → (depois.arquivos b.manifesto).isSome
  instalados : ∀ b ∈ ps, b ≠ a → pkg_is_installed depois b.nome = true

/-- The names can be read back from the database, the paths of the package from its manifest, the
manifest is where it was written and belongs to the package alone, and no path is the database. -/
structure Separavel (ps : List Instalado) (a : Instalado) (lixo_load lixo_remove : Lixo) : Prop where
  nomes : ∀ p ∈ ps, NomeLegivel p.nome
  caminhos : ∀ c ∈ a.caminhos, CaminhoLegivel c
  load : lst_path lixo_load a.nome = a.manifesto
  remove : lst_path lixo_remove a.nome = a.manifesto
  banco : ∀ p ∈ ps, PKG_DB_PATH ∉ p.caminhos
  manifestos : ∀ b ∈ ps, b ≠ a → b.manifesto ≠ a.manifesto ∧ a.manifesto ∉ b.caminhos ∧
    b.manifesto ∉ a.caminhos

theorem nomes_ne {ps : List Instalado} {a b : Instalado}
    (h : ps.Pairwise fun p q => p.nome ≠ q.nome) (hb : b ∈ ps) (ha : a ∈ ps) (hne : b ≠ a) :
    b.nome ≠ a.nome := by
  have : Std.Symm fun p q : Instalado => p.nome ≠ q.nome := ⟨fun _ _ => Ne.symm⟩
  exact h.forall hb ha hne

theorem disjuntos {ps : List Instalado} {a b : Instalado}
    (h : ps.Pairwise fun p q => ∀ c ∈ p.caminhos, c ∉ q.caminhos) (hb : b ∈ ps) (ha : a ∈ ps)
    (hne : b ≠ a) : ∀ c ∈ b.caminhos, c ∉ a.caminhos := by
  have : Std.Symm fun p q : Instalado => ∀ c ∈ p.caminhos, c ∉ q.caminhos :=
    ⟨fun _ _ h c hc hp => h c hp hc⟩
  exact h.forall hb ha hne

/-- The package with version `1` and one file of one byte, and the file system that has two such
packages at `/p` and `/q`. -/
def um_arquivo (path : Path) : List Arquivo := [⟨path, [7]⟩]

def spk_de (nome : List UInt8) (path : Path) : List UInt8 :=
  (criar_spk nome [49] [] [] (um_arquivo path)).getD []

def instalado (nome : List UInt8) (path : Path) : Instalado where
  hdr := cabecalho nome [49] [] [] (um_arquivo path)
  arquivos := [(path, some [7])]
  pilha := pilha_zerada

def dois_spk (nome₁ nome₂ : List UInt8) : Vfs where
  arquivos := fun p =>
    if p = [47, 112] then some (spk_de nome₁ [47, 120])
    else if p = [47, 113] then some (spk_de nome₂ [47, 121])
    else none
  diretorios := []
  escritas := 0
  criacoes := 0

theorem ler_spk_de {v : Vfs} {nome : List UInt8} {path spk_path : Path}
    (hn : 0 ∉ nome ∧ nome.length ≤ 31) (hp : 0 ∉ path ∧ path.length ≤ 63)
    (hv : v.arquivos spk_path = some (spk_de nome path)) :
    ler_pacote v spk_path = .ok ((instalado nome path).hdr, (instalado nome path).arquivos) := by
  have hc : Cabivel nome [49] [] [] (um_arquivo path) := by
    refine ⟨hn, by decide, by decide, by decide, by decide, by simp [um_arquivo],
      by simp [um_arquivo], ?_⟩
    intro f hf
    rw [List.mem_singleton.mp hf]
    exact hp
  have hs : criar_spk nome [49] [] [] (um_arquivo path) = some (spk_de nome path) := rfl
  refine ler_pacote_of_criar_spk hc hs ?_ hv
  rw [length_criar_spk hs]
  simp [um_arquivo, payload, HEADER, RECORD, SPK_MAX_SIZE]

theorem Instalados.pacote {v w : Vfs} {ps : List Instalado} {p : Instalado} (spk_path : Path)
    (h : Instalados v ps w) (hl : ler_pacote w spk_path = .ok (p.hdr, p.arquivos))
    (hi : pkg_is_installed w p.hdr.name = false)
    (hr : (extrair_e_registrar sem_falhas p.pilha p.hdr p.arquivos w).1 = 0) :
    Instalados v (ps ++ [p]) (extrair_e_registrar sem_falhas p.pilha p.hdr p.arquivos w).2 := by
  rw [← instalar_spk_pacote (show true = true from rfl) hl hi] at hr ⊢
  exact h.snoc hl hr

/-- The installation of the first one. -/
def com_um (nome₁ nome₂ : List UInt8) : Int × Vfs :=
  extrair_e_registrar sem_falhas pilha_zerada (instalado nome₁ [47, 120]).hdr
    (instalado nome₁ [47, 120]).arquivos (dois_spk nome₁ nome₂)

/-- The installation of the second one after it. -/
def com_dois (nome₁ nome₂ : List UInt8) : Int × Vfs :=
  extrair_e_registrar sem_falhas pilha_zerada (instalado nome₂ [47, 121]).hdr
    (instalado nome₂ [47, 121]).arquivos (com_um nome₁ nome₂).2

theorem instalados_com_dois {nome₁ nome₂ : List UInt8} (h₁ : 0 ∉ nome₁ ∧ nome₁.length ≤ 31)
    (h₂ : 0 ∉ nome₂ ∧ nome₂.length ≤ 31) (hr₁ : (com_um nome₁ nome₂).1 = 0)
    (hv : (com_um nome₁ nome₂).2.arquivos [47, 113] = some (spk_de nome₂ [47, 121]))
    (hi : pkg_is_installed (com_um nome₁ nome₂).2 nome₂ = false)
    (hr₂ : (com_dois nome₁ nome₂).1 = 0) :
    Instalados (dois_spk nome₁ nome₂) [instalado nome₁ [47, 120], instalado nome₂ [47, 121]]
      (com_dois nome₁ nome₂).2 := by
  have hp : Instalados (dois_spk nome₁ nome₂) ([] ++ [instalado nome₁ [47, 120]])
      (com_um nome₁ nome₂).2 :=
    Instalados.nil.pacote [47, 112] (ler_spk_de h₁ (by decide) rfl) rfl hr₁
  exact hp.pacote [47, 113] (ler_spk_de h₂ (by decide) hv) hi hr₂

theorem nomeLegivel_um {c : UInt8} (h : c ≠ 32 ∧ c ≠ 10 ∧ c ≠ 13) : NomeLegivel [c] := by
  refine ⟨by simp, fun d hd => ?_⟩
  rw [List.mem_singleton.mp hd]
  exact h

/-- `calendar` and `calendar2`. -/
def calendar : List UInt8 := [99, 97, 108, 101, 110, 100, 97, 114]

def calendar2 : List UInt8 := calendar ++ [50]

end SpaceOS.Pkg
