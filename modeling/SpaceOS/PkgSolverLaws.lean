-- Dependency closure along any sequence of `pkg_install`: which packages a call registers, and when
-- what they depend on is registered with them.
import Mathlib.Logic.Relation
import SpaceOS.PkgRemoveLaws
import SpaceOS.PkgSolver

open Lib.Bytes Lib.Undo

namespace SpaceOS.Pkg

section Um

variable {w w' : Vfs} {p : Instalado} {pilha : Pilha} {memoria : Bool} {spk_path path : Path}
  {lixo : Lixo} {paths : List Path}

/-! ## One installation -/

theorem tudoExtraido_sem_falhas {arquivos : List (Path × Option (List UInt8))} (n : Nat)
    (h : ∀ a ∈ arquivos, a.2.isSome) : TudoExtraido sem_falhas n arquivos := by
  induction arquivos generalizing n with
  | nil => rfl
  | cons a resto ih =>
    obtain ⟨path, dados⟩ := a
    obtain ⟨dados, rfl⟩ := Option.isSome_iff_exists.mp (h _ List.mem_cons_self)
    have ht := ih (n + 1) fun b hb => h b (List.mem_cons_of_mem _ hb)
    unfold TudoExtraido at ht ⊢
    rw [extraidos, if_pos (show sem_falhas.escrita n = .ok from rfl), List.length_cons,
      List.length_cons, ht]

/-- The package can be installed: it is not registered, its files lie in the payload, and the
database has room for its line. -/
structure Cabe (w : Vfs) (p : Instalado) : Prop where
  novo : pkg_is_installed w p.nome = false
  inteiro : ∀ a ∈ p.arquivos, a.2.isSome
  espaco : (db_ler w ++ p.linha).length < PKG_DB_MAX

theorem extrair_e_registrar_ou (amb : Ambiente) (pilha : Pilha) (hdr : Header)
    (arquivos : List (Path × Option (List UInt8))) (v : Vfs) :
    (extrair_e_registrar amb pilha hdr arquivos v).1 = 0 ∨
      (extrair_e_registrar amb pilha hdr arquivos v).1 = -1 := by
  unfold extrair_e_registrar
  dsimp only
  split
  · exact Or.inr rfl
  · split
    · exact Or.inr rfl
    · split
      · exact Or.inr rfl
      · exact Or.inl rfl

theorem instalar_spk_cabe (hl : ler_pacote w spk_path = .ok (p.hdr, p.arquivos))
    (hdb : PKG_DB_PATH ∉ p.caminhos) (hm : memoria = true) (h : Cabe w p) :
    (instalar_spk sem_falhas p.pilha memoria w spk_path).1 = 0 := by
  have ht := tudoExtraido_sem_falhas w.escritas h.inteiro
  have hc : Completa sem_falhas p.pilha w p.hdr p.arquivos := by
    refine ⟨ht, rfl, fun hcheio => ?_, rfl⟩
    have hesp := h.espaco
    unfold BancoCheio at hcheio
    rw [(escritos_ate_o_banco w ht hdb).2] at hcheio
    rw [List.length_append] at hesp
    exact Nat.not_le_of_lt hesp hcheio
  rw [instalar_spk_pacote hm hl h.novo]
  have hr := (extrair_e_registrar_spec sem_falhas p.pilha w p.hdr p.arquivos).1
  exact (extrair_e_registrar_ou _ _ _ _ _).resolve_right fun he => hr.mp he hc

theorem instalar_spk_novo (hl : ler_pacote w spk_path = .ok (p.hdr, p.arquivos))
    (h : (instalar_spk sem_falhas p.pilha memoria w spk_path).1 = 0) :
    pkg_is_installed w p.nome = false := by
  by_contra hi
  have hi : pkg_is_installed w p.hdr.name = true := Bool.eq_true_of_not_eq_false hi
  unfold instalar_spk at h
  rw [hl] at h
  dsimp only at h
  rw [if_pos hi, ite_self] at h
  exact absurd h (show (-1 : Int) ≠ 0 by decide)

/-! ## A failed installation -/

/-- A string that the rollback reads from the fields is one of them, or long. -/
theorem nomes_ou {campos : List Path} (hc : ∀ campo ∈ campos, campo.length ≤ 64)
    (h : path ∈ nomes lixo campos) : path ∈ campos ∨ 64 ≤ path.length := by
  induction campos with
  | nil => exact absurd h (by simp [nomes])
  | cons campo campos ih =>
    rw [nomes, List.mem_cons] at h
    rcases h with rfl | h
    · unfold ler_campo
      split
      · exact Or.inl List.mem_cons_self
      · refine Or.inr ?_
        rw [List.length_append]
        omega
    · exact (ih (fun c hc' => hc c (List.mem_cons_of_mem _ hc')) h).imp_left
        (List.mem_cons_of_mem _)

theorem db_notMem_nomes (h : PKG_DB_PATH ∉ paths) :
    PKG_DB_PATH ∉ nomes lixo (paths.map (·.take 64)) := by
  intro hm
  have hlen : PKG_DB_PATH.length = 7 := rfl
  have hcampos : ∀ campo ∈ paths.map (·.take 64), campo.length ≤ 64 := by
    intro campo hc
    obtain ⟨q, _, rfl⟩ := List.mem_map.mp hc
    exact List.length_take_le _ _
  rcases nomes_ou hcampos hm with hm | hm
  · obtain ⟨q, hq, he⟩ := List.mem_map.mp hm
    have hq7 : (q.take 64).length = 7 := by rw [he, hlen]
    rw [List.length_take] at hq7
    rw [List.take_of_length_le (by omega)] at he
    exact h (he ▸ hq)
  · exact absurd hm (by decide)

theorem extraidos_subset {amb : Ambiente} {arquivos : List (Path × Option (List UInt8))} (n : Nat) :
    extraidos amb n arquivos ⊆ arquivos.map Prod.fst := by
  induction arquivos generalizing n with
  | nil => exact List.Subset.refl _
  | cons a resto ih =>
    obtain ⟨path, _ | dados⟩ := a
    · exact List.nil_subset _
    · unfold extraidos
      split
      · exact List.cons_subset_cons _ (ih (n + 1))
      · exact List.nil_subset _

/-- A failed installation leaves the database, if the package has no file in its place. -/
theorem instalar_spk_falha
    (hdb : ∀ hdr arquivos, ler_pacote w spk_path = .ok (hdr, arquivos) →
      pkg_is_installed w hdr.name = false → PKG_DB_PATH ∉ arquivos.map Prod.fst)
    (h : (instalar_spk sem_falhas pilha memoria w spk_path).1 ≠ 0) :
    (instalar_spk sem_falhas pilha memoria w spk_path).2.arquivos PKG_DB_PATH =
      w.arquivos PKG_DB_PATH := by
  by_cases hm : memoria = true
  · rcases hl : ler_pacote w spk_path with e | ⟨hdr, arquivos⟩
    · unfold instalar_spk
      rw [if_neg (by simp [hm]), hl]
    · by_cases hi : pkg_is_installed w hdr.name = true
      · unfold instalar_spk
        rw [if_neg (by simp [hm]), hl]
        dsimp only
        rw [if_pos hi]
      · have hi : pkg_is_installed w hdr.name = false := by simpa using hi
        have hdb := hdb hdr arquivos hl hi
        rw [instalar_spk_pacote hm hl hi] at h ⊢
        obtain ⟨hr, ha, _⟩ := extrair_e_registrar_spec sem_falhas pilha w hdr arquivos
        have hn := hr.mp ((extrair_e_registrar_ou _ _ _ _ _).resolve_left h)
        rw [ha hn, remove_of_notMem, run_of_notMem]
        · unfold todos_os_toques
          split
          · exact fun hk => hdb (toques_fst hk)
          · rename_i ht
            split
            · intro hk
              unfold toques_do_manifesto at hk
              rw [List.map_append, List.mem_append] at hk
              rcases hk with hk | hk
              · exact hdb (toques_fst hk)
              · exact lst_path_ne_db _ _ (efeito_fst hk).symm
            · rename_i hc
              exact absurd ⟨not_not.mp ht, rfl, fun hcheio => hc (Or.inr hcheio), rfl⟩ hn
        · exact db_notMem_nomes fun hk => hdb (extraidos_subset _ hk)
  · unfold instalar_spk
    rw [if_pos (by simpa using hm)]

end Um

/-! ## The database and the packages in it -/

/-- The database has the lines of the packages that were installed, and each line names its one. -/
structure Anotado (ps : List Instalado) (w : Vfs) : Prop where
  banco : db_ler w = banco_de ps
  validos : ∀ p ∈ ps, Valido p
  legiveis : ∀ p ∈ ps, NomeLegivel p.nome

section Anotado

variable {ps qs : List Instalado} {w w' : Vfs} {p : Instalado} {nome : List UInt8}

theorem Anotado.sem_zero (h : Anotado ps w) : 0 ∉ banco_de ps := by
  intro hz
  obtain ⟨q, hq, hz⟩ := List.mem_flatMap.mp hz
  exact zero_notMem_nova_linha (h.validos q hq).nome (h.validos q hq).versao hz

theorem Anotado.instalado_iff (h : Anotado ps w) : pkg_is_installed w nome = true ↔
    ∃ p ∈ ps, ∃ l ∈ linhas p.linha, extrair_token l 33 = nome := by
  rw [pkg_is_installed_iff, h.banco, texto_eq h.sem_zero, linhas_banco_de]
  constructor
  · rintro ⟨l, hl, ht⟩
    obtain ⟨p, hp, hl⟩ := List.mem_flatMap.mp hl
    exact ⟨p, hp, l, hl, ht⟩
  · rintro ⟨p, hp, l, hl, ht⟩
    exact ⟨l, List.mem_flatMap.mpr ⟨p, hp, hl⟩, ht⟩

theorem Anotado.registrado (h : Anotado ps w) (hp : p ∈ ps) :
    pkg_is_installed w p.nome = true := by
  obtain ⟨l, hl, ht⟩ := linha_do_pacote hp (h.legiveis p hp)
  rw [pkg_is_installed_iff, h.banco, texto_eq h.sem_zero]
  exact ⟨l, hl, ht⟩

theorem Anotado.mono (h : Anotado ps w) (h' : Anotado (ps ++ qs) w')
    (hi : pkg_is_installed w nome = true) : pkg_is_installed w' nome = true := by
  obtain ⟨p, hp, hl⟩ := h.instalado_iff.mp hi
  exact h'.instalado_iff.mpr ⟨p, List.mem_append_left _ hp, hl⟩

theorem Anotado.igual (h : Anotado ps w) (hw : w'.arquivos PKG_DB_PATH = w.arquivos PKG_DB_PATH) :
    Anotado ps w' := by
  refine ⟨?_, h.validos, h.legiveis⟩
  rw [← h.banco]
  unfold db_ler vfs_read
  rw [hw]

theorem Anotado.snoc (h : Anotado ps w) (hv : Valido p) (hn : NomeLegivel p.nome)
    (hw : w'.arquivos = run w.arquivos (escritos w p))
    (hlen : (db_ler w ++ p.linha).length < PKG_DB_MAX) : Anotado (ps ++ [p]) w' := by
  have hdb : w'.arquivos PKG_DB_PATH = some (db_ler w ++ p.linha) := by
    rw [hw, run_eq]
    unfold escritos
    simp [last_append, last]
  refine ⟨?_, ?_, ?_⟩
  · rw [db_ler, vfs_read, hdb, Option.map_some, List.take_of_length_le (by omega),
      Option.getD_some, h.banco, banco_de, banco_de, List.flatMap_append, List.flatMap_singleton]
  · intro q hq
    rcases List.mem_append.mp hq with hq | hq
    · exact h.validos q hq
    · exact List.mem_singleton.mp hq ▸ hv
  · intro q hq
    rcases List.mem_append.mp hq with hq | hq
    · exact h.legiveis q hq
    · exact List.mem_singleton.mp hq ▸ hn

/-- Where each package has one line, a name that is registered is the one of a package. -/
theorem Anotado.origem (h : Anotado ps w) (hl : ∀ p ∈ ps, linhas p.linha = [p.linha])
    (hi : pkg_is_installed w nome = true) : ∃ p ∈ ps, p.nome = nome := by
  obtain ⟨p, hp, l, hm, ht⟩ := h.instalado_iff.mp hi
  rw [hl p hp, List.mem_singleton] at hm
  rw [hm] at ht
  exact ⟨p, hp, (extrair_token_nova_linha (h.legiveis p hp)).symm.trans ht⟩

end Anotado

/-! ## Dependencies -/

/-- The dependencies that the header declares. -/
def Instalado.deps (p : Instalado) : List (List UInt8) := (dependencias p.hdr).filter (· ≠ [])

/-- Every package that was installed is registered, with all that its header declares. -/
structure Fechado (ps : List Instalado) (w : Vfs) : Prop where
  registrados : ∀ p ∈ ps, pkg_is_installed w p.nome = true
  deps : ∀ p ∈ ps, ∀ d ∈ p.deps, pkg_is_installed w d = true

/-- A package of the name was installed from a header that declares `b`. -/
def Depende (ps : List Instalado) (a b : List UInt8) : Prop := ∃ p ∈ ps, p.nome = a ∧ b ∈ p.deps

theorem Fechado.transitivo {ps : List Instalado} {w : Vfs} {a b : List UInt8} (h : Fechado ps w)
    (ha : pkg_is_installed w a = true) (hab : Relation.ReflTransGen (Depende ps) a b) :
    pkg_is_installed w b = true := by
  induction hab with
  | refl => exact ha
  | tail _ hd _ =>
    obtain ⟨p, hp, _, hb⟩ := hd
    exact h.deps p hp _ hb

/-! ## The condition on a call -/

section Condicao

variable (v : Vfs) (etapas : Nat → Etapa)

/-- All the packages of the order from place `i` on can be installed, after the packages `antes`. -/
def Cabem : Nat → List Instalado → List Path → Prop
  | _, _, [] => True
  | i, antes, spk_path :: order =>
    (etapas i).memoria = true ∧ ∃ hdr arquivos, ler_pacote v spk_path = .ok (hdr, arquivos) ∧
      pkg_is_installed v hdr.name = false ∧
      (∀ a ∈ antes, ∀ l ∈ linhas a.linha, extrair_token l 33 ≠ hdr.name) ∧
      (∀ a ∈ arquivos, a.2.isSome) ∧
      (db_ler v ++ banco_de (antes ++ [⟨hdr, arquivos, (etapas i).pilha⟩])).length < PKG_DB_MAX ∧
      Cabem (i + 1) (antes ++ [⟨hdr, arquivos, (etapas i).pilha⟩]) order

/-- A package of the order has the name in its header. -/
def NaOrdem (order : List Path) (nome : List UInt8) : Prop :=
  ∃ spk_path ∈ order, ∃ hdr arquivos, ler_pacote v spk_path = .ok (hdr, arquivos) ∧ hdr.name = nome

/-- The packages of the order from place `i` on, each with what it depends on: it is registered, or
a package before it has its name, or one behind it, and all of them can be installed. -/
def EmOrdem : Nat → List Instalado → List Path → Prop
  | _, _, [] => True
  | i, antes, spk_path :: order =>
    ∀ hdr arquivos, ler_pacote v spk_path = .ok (hdr, arquivos) →
      pkg_is_installed v hdr.name = false →
      let p : Instalado := ⟨hdr, arquivos, (etapas i).pilha⟩
      NomeLegivel hdr.name ∧
        -- its files replace neither the database nor the packages behind it
        PKG_DB_PATH ∉ p.caminhos ∧ (∀ q ∈ order, q ∉ PKG_DB_PATH :: p.manifesto :: p.caminhos) ∧
        (∀ d ∈ p.deps, pkg_is_installed v d = true ∨ (∃ a ∈ antes ++ [p], a.nome = d) ∨
          (Cabem v etapas i antes (spk_path :: order) ∧ NaOrdem v order d)) ∧
        EmOrdem (i + 1) (antes ++ [p]) order

end Condicao

/-- The paths that a call goes through: those of the dependencies that are not registered, and its
own. -/
def Pedido.ordem (c : Pedido) (v : Vfs) (hdr : Header) : List Path :=
  nomes c.order (((((dependencias hdr).zipIdx.filter fun x =>
    x.1 ≠ [] ∧ pkg_is_installed v x.1 = false).map fun x =>
      dep_path (c.solver.dep_path x.2) x.1) ++ [c.spk_path]).map (·.take 64))

/-! ## The loop of a call -/

/-- The packages that the loop of `pkg_install` installs, with the headers that they have then. -/
def registros (etapas : Nat → Etapa) : Nat → List Path → Vfs → List Instalado
  | _, [], _ => []
  | i, spk_path :: order, v =>
    match ler_pacote v spk_path with
    | .error _ => []
    | .ok (hdr, arquivos) =>
      let r := instalar_spk sem_falhas (etapas i).pilha (etapas i).memoria v spk_path
      if r.1 = 0 then ⟨hdr, arquivos, (etapas i).pilha⟩ :: registros etapas (i + 1) order r.2
      else []

theorem ler_pacote_congr {v w : Vfs} {spk_path : Path}
    (h : w.arquivos spk_path = v.arquivos spk_path) : ler_pacote w spk_path = ler_pacote v spk_path := by
  unfold ler_pacote
  rw [h]

/-- Where the loop is: `antes` was installed since the state `v`, and a dependency that is not
registered yet is one of the order that is left, which can all be installed then. -/
structure NoLaco (v : Vfs) (etapas : Nat → Etapa) (ps : List Instalado) (i : Nat)
    (antes : List Instalado) (order : List Path) (u : Vfs) : Prop where
  anotado : Anotado (ps ++ antes) u
  arquivos : ∀ q ∈ order, u.arquivos q = v.arquivos q
  deps : ∀ p ∈ ps ++ antes, ∀ d ∈ p.deps, pkg_is_installed u d = true ∨
    (Cabem v etapas i antes order ∧ NaOrdem v order d)

section Laco

variable {v u : Vfs} {etapas : Nat → Etapa} {ps antes : List Instalado} {i : Nat} {spk_path : Path}
  {order : List Path}

theorem NoLaco.fechado (h : NoLaco v etapas ps i antes order u)
    (hn : order = [] ∨ ¬ Cabem v etapas i antes order) : Fechado (ps ++ antes) u := by
  refine ⟨fun p hp => h.anotado.registrado hp, fun p hp d hd => ?_⟩
  refine (h.deps p hp d hd).resolve_right fun ⟨hc, q, hq, _⟩ => ?_
  rcases hn with rfl | hn
  · exact absurd hq (by simp)
  · exact hn hc

/-- A name that is not registered at the start and in no line since then is not registered. -/
theorem NoLaco.novo (hv : Anotado ps v) (h : NoLaco v etapas ps i antes order u)
    {nome : List UInt8} (hn : pkg_is_installed v nome = false)
    (ha : ∀ a ∈ antes, ∀ l ∈ linhas a.linha, extrair_token l 33 ≠ nome) :
    pkg_is_installed u nome = false := by
  rw [Bool.eq_false_iff] at hn ⊢
  intro hu
  obtain ⟨p, hp, l, hl, ht⟩ := h.anotado.instalado_iff.mp hu
  rcases List.mem_append.mp hp with hp | hp
  · exact hn (hv.instalado_iff.mpr ⟨p, hp, l, hl, ht⟩)
  · exact ha p hp l hl ht

/-- If all can be installed, the next one is. -/
theorem NoLaco.proximo (hv : Anotado ps v) (h : NoLaco v etapas ps i antes (spk_path :: order) u)
    (ho : EmOrdem v etapas i antes (spk_path :: order))
    (hc : Cabem v etapas i antes (spk_path :: order)) :
    (instalar_spk sem_falhas (etapas i).pilha (etapas i).memoria u spk_path).1 = 0 := by
  obtain ⟨hm, hdr, arquivos, hl, hi, ha, hint, hesp, _⟩ := hc
  obtain ⟨_, hdb, _⟩ := ho hdr arquivos hl hi
  have hlu := (ler_pacote_congr (h.arquivos spk_path List.mem_cons_self)).trans hl
  refine instalar_spk_cabe (p := ⟨hdr, arquivos, (etapas i).pilha⟩) hlu hdb hm
    ⟨h.novo hv hi ha, hint, ?_⟩
  rw [h.anotado.banco]
  rw [hv.banco] at hesp
  unfold banco_de at hesp ⊢
  rw [List.flatMap_append, List.flatMap_singleton, ← List.append_assoc] at hesp
  rwa [List.flatMap_append]

theorem Cabem.resto {hdr : Header} {arquivos : List (Path × Option (List UInt8))}
    (hc : Cabem v etapas i antes (spk_path :: order))
    (hl : ler_pacote v spk_path = .ok (hdr, arquivos)) :
    Cabem v etapas (i + 1) (antes ++ [⟨hdr, arquivos, (etapas i).pilha⟩]) order := by
  obtain ⟨_, hdr', arquivos', hl', _, _, _, _, hc⟩ := hc
  rw [hl] at hl'
  cases hl'
  exact hc

theorem NaOrdem.resto {hdr : Header} {arquivos : List (Path × Option (List UInt8))}
    {d : List UInt8} (hd : NaOrdem v (spk_path :: order) d)
    (hl : ler_pacote v spk_path = .ok (hdr, arquivos)) : hdr.name = d ∨ NaOrdem v order d := by
  obtain ⟨q, hq, hdr', arquivos', hl', rfl⟩ := hd
  rcases List.mem_cons.mp hq with rfl | hq
  · rw [hl] at hl'
    cases hl'
    exact Or.inl rfl
  · exact Or.inr ⟨q, hq, hdr', arquivos', hl', rfl⟩

/-- The next package is installed. -/
theorem NoLaco.passo {hdr : Header} {arquivos : List (Path × Option (List UInt8))}
    (hv : Anotado ps v) (h : NoLaco v etapas ps i antes (spk_path :: order) u)
    (ho : EmOrdem v etapas i antes (spk_path :: order))
    (hl : ler_pacote v spk_path = .ok (hdr, arquivos))
    (hr : (instalar_spk sem_falhas (etapas i).pilha (etapas i).memoria u spk_path).1 = 0) :
    NoLaco v etapas ps (i + 1) (antes ++ [⟨hdr, arquivos, (etapas i).pilha⟩]) order
        (instalar_spk sem_falhas (etapas i).pilha (etapas i).memoria u spk_path).2 ∧
      EmOrdem v etapas (i + 1) (antes ++ [⟨hdr, arquivos, (etapas i).pilha⟩]) order := by
  generalize hp : (⟨hdr, arquivos, (etapas i).pilha⟩ : Instalado) = p
  have hlu : ler_pacote u spk_path = .ok (p.hdr, p.arquivos) := by
    rw [ler_pacote_congr (h.arquivos spk_path List.mem_cons_self), hl, ← hp]
  have hpilha : (etapas i).pilha = p.pilha := by rw [← hp]
  rw [hpilha] at hr ⊢
  have hnovo := instalar_spk_novo hlu hr
  have hi : pkg_is_installed v hdr.name = false := by
    rw [Bool.eq_false_iff] at hnovo ⊢
    intro hi
    exact hnovo (by rw [← hp]; exact hv.mono h.anotado hi)
  have hcond := ho hdr arquivos hl hi
  rw [hp] at hcond
  obtain ⟨hnome, hdb, hfora, hdeps, hresto⟩ := hcond
  obtain ⟨hw, _, hlen⟩ := instalar_spk_escritos hlu hr hdb
  generalize (instalar_spk sem_falhas p.pilha (etapas i).memoria u spk_path).2 = u' at hw ⊢
  have hanot : Anotado (ps ++ (antes ++ [p])) u' := by
    rw [← List.append_assoc]
    exact h.anotado.snoc (valido_of_ler_pacote hlu) (by rw [← hp]; exact hnome) hw hlen
  have hmono : ∀ d, pkg_is_installed u d = true → pkg_is_installed u' d = true := by
    intro d hd
    rw [← List.append_assoc] at hanot
    exact h.anotado.mono hanot hd
  -- what could be installed before still can, and what was left of the order is left, or `p`
  have hpend : ∀ d, Cabem v etapas i antes (spk_path :: order) → NaOrdem v (spk_path :: order) d →
      pkg_is_installed u' d = true ∨
        (Cabem v etapas (i + 1) (antes ++ [p]) order ∧ NaOrdem v order d) := by
    intro d hc hno
    have hc := hc.resto hl
    rw [hp] at hc
    rcases hno.resto hl with rfl | hno
    · have hreg := hanot.registrado (p := p) (by simp)
      rw [← hp] at hreg
      exact Or.inl hreg
    · exact Or.inr ⟨hc, hno⟩
  refine ⟨⟨hanot, fun q hq => ?_, fun a ha d hd => ?_⟩, hresto⟩
  · rw [hw, run_of_notMem]
    · exact h.arquivos q (List.mem_cons_of_mem _ hq)
    · have := hfora q hq
      unfold escritos
      rw [List.map_append, List.mem_append]
      simp only [List.mem_cons, not_or, List.map_cons, List.map_nil, List.not_mem_nil,
        or_false] at this ⊢
      exact ⟨this.2.2, this.2.1, this.1⟩
  · rw [← List.append_assoc, List.mem_append, List.mem_singleton] at ha
    rcases ha with ha | rfl
    · rcases h.deps a ha d hd with hd | ⟨hc, hno⟩
      · exact Or.inl (hmono d hd)
      · exact hpend d hc hno
    · rcases hdeps d hd with hd | ⟨b, hb, rfl⟩ | ⟨hc, q, hq, hno⟩
      · exact Or.inl (hv.mono hanot hd)
      · exact Or.inl (hanot.registrado (List.mem_append_right _ hb))
      · exact hpend d hc ⟨q, List.mem_cons_of_mem _ hq, hno⟩

theorem instalar_ordem_cons (v : Vfs) : instalar_ordem sem_falhas etapas i (spk_path :: order) v =
    if (instalar_spk sem_falhas (etapas i).pilha (etapas i).memoria v spk_path).1 ≠ 0 then
      (-1, (instalar_spk sem_falhas (etapas i).pilha (etapas i).memoria v spk_path).2)
    else
      instalar_ordem sem_falhas etapas (i + 1) order
        (instalar_spk sem_falhas (etapas i).pilha (etapas i).memoria v spk_path).2 := rfl

theorem registros_falha
    (h : (instalar_spk sem_falhas (etapas i).pilha (etapas i).memoria u spk_path).1 ≠ 0) :
    registros etapas i (spk_path :: order) u = [] := by
  rw [registros]
  split
  · rfl
  · exact if_neg h

theorem registros_passo {hdr : Header} {arquivos : List (Path × Option (List UInt8))}
    (hl : ler_pacote u spk_path = .ok (hdr, arquivos))
    (h : (instalar_spk sem_falhas (etapas i).pilha (etapas i).memoria u spk_path).1 = 0) :
    registros etapas i (spk_path :: order) u = ⟨hdr, arquivos, (etapas i).pilha⟩ ::
      registros etapas (i + 1) order
        (instalar_spk sem_falhas (etapas i).pilha (etapas i).memoria u spk_path).2 := by
  rw [registros, hl]
  exact if_pos h

theorem instalar_spk_le {memoria : Bool} {pilha : Pilha}
    (h : (instalar_spk sem_falhas pilha memoria u spk_path).1 = 0) :
    ∃ hdr arquivos, ler_pacote u spk_path = .ok (hdr, arquivos) := by
  rcases hl : ler_pacote u spk_path with e | ⟨hdr, arquivos⟩
  · unfold instalar_spk at h
    rw [hl] at h
    dsimp only at h
    rw [ite_self] at h
    exact absurd h (show (-1 : Int) ≠ 0 by decide)
  · exact ⟨hdr, arquivos, rfl⟩

/-- The loop, from any place on: at its end all that was installed has its dependencies, and where
it succeeds every package of the order was installed. -/
theorem NoLaco.corre (hv : Anotado ps v) (h : NoLaco v etapas ps i antes order u)
    (ho : EmOrdem v etapas i antes order) :
    Anotado (ps ++ antes ++ registros etapas i order u)
        (instalar_ordem sem_falhas etapas i order u).2 ∧
      Fechado (ps ++ antes ++ registros etapas i order u)
        (instalar_ordem sem_falhas etapas i order u).2 ∧
      ((instalar_ordem sem_falhas etapas i order u).1 = 0 → ∀ q ∈ order,
        ∃ p ∈ registros etapas i order u, ler_pacote v q = .ok (p.hdr, p.arquivos)) := by
  induction order generalizing i antes u with
  | nil =>
    rw [registros, List.append_nil]
    exact ⟨h.anotado, h.fechado (Or.inl rfl), fun _ q hq => absurd hq (by simp)⟩
  | cons spk_path order ih =>
    rw [instalar_ordem_cons]
    by_cases hr : (instalar_spk sem_falhas (etapas i).pilha (etapas i).memoria u spk_path).1 = 0
    · obtain ⟨hdr, arquivos, hlu⟩ := instalar_spk_le hr
      have hl := (ler_pacote_congr (h.arquivos spk_path List.mem_cons_self)).symm.trans hlu
      obtain ⟨h', ho'⟩ := h.passo hv ho hl hr
      obtain ⟨ha, hf, hz⟩ := ih h' ho'
      rw [if_neg (not_not.mpr hr), registros_passo hlu hr]
      rw [← List.append_assoc, List.append_assoc, List.singleton_append] at ha hf
      refine ⟨ha, hf, fun h0 q hq => ?_⟩
      rcases List.mem_cons.mp hq with rfl | hq
      · exact ⟨_, List.mem_cons_self, hl⟩
      · obtain ⟨p, hp, hpl⟩ := hz h0 q hq
        exact ⟨p, List.mem_cons_of_mem _ hp, hpl⟩
    · -- the call ends here, and not all of the order could be installed
      have hn : ¬ Cabem v etapas i antes (spk_path :: order) := fun hc => hr (h.proximo hv ho hc)
      have hdb := instalar_spk_falha (w := u) (fun hdr arquivos hl hi => ?_) hr
      · have hf := h.fechado (Or.inr hn)
        have ha := h.anotado.igual hdb
        rw [if_pos hr, registros_falha hr, List.append_nil]
        refine ⟨ha, ⟨fun p hp => ha.registrado hp, fun p hp d hd => ?_⟩,
          fun h0 => absurd h0 (show (-1 : Int) ≠ 0 by decide)⟩
        exact ha.instalado_iff.mpr (h.anotado.instalado_iff.mp (hf.deps p hp d hd))
      · have hi : pkg_is_installed v hdr.name = false := by
          rw [Bool.eq_false_iff] at hi ⊢
          exact fun hv' => hi (hv.mono h.anotado hv')
        rw [ler_pacote_congr (h.arquivos spk_path List.mem_cons_self)] at hl
        exact (ho hdr arquivos hl hi).2.1

end Laco

/-! ## A call -/

section Chamada

variable {v : Vfs} {ps : List Instalado} {c : Pedido}

/-- The dependencies that the solver puts in the order. -/
theorem solver_laco_eq {lixo : Nat → Lixo} {max i : Nat} {deps : List (List UInt8)}
    {campos order : List Path} (h : solver_laco lixo v max i deps campos = some order) :
    order = campos ++ (((deps.zipIdx i).filter fun x =>
      x.1 ≠ [] ∧ pkg_is_installed v x.1 = false).map fun x =>
        (dep_path (lixo x.2) x.1).take 64) := by
  induction deps generalizing i campos with
  | nil =>
    rw [solver_laco] at h
    rw [← Option.some.inj h, List.zipIdx_nil, List.filter_nil, List.map_nil, List.append_nil]
  | cons dep deps ih =>
    rw [solver_laco] at h
    rw [List.zipIdx_cons]
    split at h
    · rename_i hskip
      rw [List.filter_cons_of_neg]
      · exact ih h
      · rw [decide_eq_true_iff, not_and_or]
        exact hskip.imp not_not.mpr (by simp)
    · rename_i hskip
      split at h
      · cases h
      split at h
      · cases h
      rw [List.filter_cons_of_pos, List.map_cons, ih h, List.append_assoc, List.singleton_append]
      rw [not_or] at hskip
      exact decide_eq_true ⟨hskip.1, by simpa using hskip.2⟩

/-- The order of a call, as the solver makes it. -/
theorem pkg_solve_deps_eq {order : List Path}
    (h : pkg_solve_deps c.solver v c.spk_path 9 = some order) :
    ∃ hdr, ler_header c.solver.hdr v c.spk_path = some hdr ∧
      nomes c.order order = c.ordem v hdr := by
  unfold pkg_solve_deps at h
  obtain ⟨hdr, hl, h⟩ := Option.bind_eq_some_iff.mp h
  obtain ⟨campos, hc, h⟩ := Option.bind_eq_some_iff.mp h
  refine ⟨hdr, hl, ?_⟩
  split at h
  · cases h
  · rw [← Option.some.inj h, solver_laco_eq hc, List.nil_append]
    unfold Pedido.ordem
    rw [List.map_append, List.map_map]
    rfl

theorem mem_nomes_ultimo {lixo : Lixo} {path : Path} (campos : List Path) (h : path.length < 64) :
    path ∈ nomes lixo (campos ++ [path]) := by
  induction campos with
  | nil =>
    rw [List.nil_append, nomes, ler_campo, if_pos h]
    exact List.mem_cons_self
  | cons campo campos ih =>
    rw [List.cons_append, nomes]
    exact List.mem_cons_of_mem _ ih

theorem mem_ordem (hdr : Header) (h : c.spk_path.length < 64) : c.spk_path ∈ c.ordem v hdr := by
  unfold Pedido.ordem
  rw [List.map_append, List.map_singleton, List.take_of_length_le (by omega)]
  exact mem_nomes_ultimo _ h

/-- The packages that a call installs. -/
def Pedido.registros (c : Pedido) (v : Vfs) : List Instalado :=
  if c.montado = false then []
  else
    match pkg_solve_deps c.solver v c.spk_path 9 with
    | none => []
    | some order => Pkg.registros c.etapas 0 (nomes c.order order) v

/-- The condition on a call. -/
structure Pronto (c : Pedido) (v : Vfs) : Prop where
  spk_path : c.spk_path.length < 64
  ordem : ∀ hdr, ler_header c.solver.hdr v c.spk_path = some hdr →
    EmOrdem v c.etapas 0 [] (c.ordem v hdr)

/-- A call under the condition. -/
theorem Pronto.passo (hc : Pronto c v) (ha : Anotado ps v) (hf : Fechado ps v) :
    Anotado (ps ++ c.registros v) (pkg_install sem_falhas c v).2 ∧
      Fechado (ps ++ c.registros v) (pkg_install sem_falhas c v).2 ∧
      ((pkg_install sem_falhas c v).1 = 0 →
        ∃ p ∈ c.registros v, ler_pacote v c.spk_path = .ok (p.hdr, p.arquivos)) := by
  unfold pkg_install Pedido.registros
  split
  · rw [List.append_nil]
    exact ⟨ha, hf, fun h => absurd h (show (-1 : Int) ≠ 0 by decide)⟩
  rcases hs : pkg_solve_deps c.solver v c.spk_path 9 with _ | order
  · dsimp only
    rw [List.append_nil]
    exact ⟨ha, hf, fun h => absurd h (show (-1 : Int) ≠ 0 by decide)⟩
  obtain ⟨hdr, hl, ho⟩ := pkg_solve_deps_eq hs
  dsimp only
  rw [ho]
  have hinicio : NoLaco v c.etapas ps 0 [] (c.ordem v hdr) v := by
    refine ⟨?_, fun _ _ => rfl, fun p hp d hd => Or.inl ?_⟩
    · rwa [List.append_nil]
    · rw [List.append_nil] at hp
      exact hf.deps p hp d hd
  obtain ⟨ha', hf', hz⟩ := hinicio.corre ha (hc.ordem hdr hl)
  rw [List.append_nil] at ha' hf'
  exact ⟨ha', hf', fun h0 => hz h0 _ (mem_ordem hdr hc.spk_path)⟩

end Chamada

/-! ## The law -/

/-- The packages and the file systems after calls that meet `I`. -/
inductive Corre (v₀ : Vfs) (I : Pedido → Vfs → Prop) : List Instalado → Vfs → Prop
  | inicio : Corre v₀ I [] v₀
  | chama {ps : List Instalado} {v : Vfs} {c : Pedido} : Corre v₀ I ps v → I c v →
      Corre v₀ I (ps ++ c.registros v) (pkg_install sem_falhas c v).2

theorem Corre.fechado {v₀ v : Vfs} {ps : List Instalado} (h0 : db_ler v₀ = [])
    (h : Corre v₀ Pronto ps v) : Anotado ps v ∧ Fechado ps v := by
  induction h with
  | inicio => exact ⟨⟨h0, by simp, by simp⟩, ⟨by simp, by simp⟩⟩
  | chama _ hc ih =>
    obtain ⟨ha, hf, _⟩ := hc.passo ih.1 ih.2
    exact ⟨ha, hf⟩

/-- The package `b 1`, which depends on `c`. -/
def spk_b : List UInt8 := (criar_spk [98] [49] [] [[99]] (um_arquivo [47, 122])).getD []

/-- `/pkg/incoming/`, a name, `.spk`. -/
def incoming (nome : List UInt8) : Path := dep_path pilha_zerada.lst_path nome

/-- A file system with `spk_a` at `/p`, and a package at `/pkg/incoming/b.spk`. -/
def com_incoming (b : List UInt8) : Vfs where
  arquivos := fun path =>
    if path = [47, 112] then some spk_a
    else if path = incoming [98] then some b
    else none
  diretorios := []
  escritas := 0
  criacoes := 0

/-- `spk install /p`. -/
def pedido_a : Pedido where
  spk_path := [47, 112]
  montado := true
  solver := ⟨pilha_zerada.lst_path, fun _ => pilha_zerada.lst_path⟩
  order := pilha_zerada.lst_path
  etapas := fun _ => ⟨pilha_zerada, true⟩

theorem pronto_a : Pronto pedido_a (com_incoming (spk_de [98] [47, 122])) := by
  have ha : ler_pacote (com_incoming (spk_de [98] [47, 122])) [47, 112] =
      .ok (cabecalho [97] [49] [] [[98]] arquivos_a,
        arquivos_a.map fun f => (f.install_path, some f.content)) :=
    ler_pacote_of_criar_spk cabivel_a criar_spk_a length_spk_a rfl
  have hb : ler_pacote (com_incoming (spk_de [98] [47, 122])) (incoming [98]) =
      .ok ((instalado [98] [47, 122]).hdr, (instalado [98] [47, 122]).arquivos) :=
    ler_spk_de (by decide) (by decide) rfl
  refine ⟨by decide, fun hdr hh => ?_⟩
  have hord : (ler_header pedido_a.solver.hdr (com_incoming (spk_de [98] [47, 122]))
      pedido_a.spk_path).map (pedido_a.ordem (com_incoming (spk_de [98] [47, 122]))) =
      some [incoming [98], [47, 112]] := by decide +kernel
  rw [hh] at hord
  rw [Option.some.inj hord]
  intro hdr₁ arquivos₁ h₁ _
  rw [hb] at h₁
  cases h₁
  refine ⟨nomeLegivel_um (by decide), by decide, by decide, fun d hd => ?_, ?_⟩
  · unfold Instalado.deps instalado at hd
    rw [dependencias_cabecalho (by decide)] at hd
    exact absurd hd (by simp)
  intro hdr₂ arquivos₂ h₂ _
  rw [ha] at h₂
  cases h₂
  refine ⟨nomeLegivel_um (by decide), by decide, by simp, fun d hd => ?_, trivial⟩
  unfold Instalado.deps at hd
  rw [dependencias_cabecalho (by decide)] at hd
  obtain ⟨hd, _⟩ := List.mem_filter.mp hd
  rw [List.mem_singleton.mp hd]
  exact Or.inr (Or.inl ⟨_, List.mem_cons_self, rfl⟩)

end SpaceOS.Pkg
