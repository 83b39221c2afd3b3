-- The texts of the package manager read back: the lines of the database and their names, and the
-- paths of a manifest.
import Mathlib.Data.List.TakeWhile
import SpaceOS.PkgDb

open Lib.Undo

namespace SpaceOS.Pkg

/-! ## Lines -/

/-- A line that ends with its line feed. -/
def LinhaCompleta (l : List UInt8) : Prop := ∃ s, 10 ∉ s ∧ l = s ++ [10]

@[simp] theorem linhas_nil : linhas [] = [] := rfl

theorem linhas_lf (p : List UInt8) : linhas (10 :: p) = [10] :: linhas p := by
  rw [linhas, if_pos rfl]

theorem linhas_cons_nil {c : UInt8} {p : List UInt8} (hc : c ≠ 10) (h : linhas p = []) :
    linhas (c :: p) = [[c]] := by
  rw [linhas, if_neg hc, h]

theorem linhas_cons_cons {c : UInt8} {p l : List UInt8} {ls : List (List UInt8)} (hc : c ≠ 10)
    (h : linhas p = l :: ls) : linhas (c :: p) = (c :: l) :: ls := by
  rw [linhas, if_neg hc, h]

theorem linhas_eq_nil {p : List UInt8} : linhas p = [] ↔ p = [] := by
  constructor
  · intro h
    cases p with
    | nil => rfl
    | cons c p =>
      by_cases hc : c = 10
      · rw [hc, linhas_lf] at h
        exact absurd h (by simp)
      · rcases hl : linhas p with _ | ⟨l, ls⟩
        · rw [linhas_cons_nil hc hl] at h
          exact absurd h (by simp)
        · rw [linhas_cons_cons hc hl] at h
          exact absurd h (by simp)
  · rintro rfl
    rfl

theorem flatten_linhas (p : List UInt8) : (linhas p).flatten = p := by
  induction p with
  | nil => rfl
  | cons c p ih =>
    by_cases hc : c = 10
    · rw [hc, linhas_lf, List.flatten_cons, ih]
      rfl
    · rcases hl : linhas p with _ | ⟨l, ls⟩
      · rw [linhas_cons_nil hc hl, linhas_eq_nil.mp hl]
        rfl
      · rw [linhas_cons_cons hc hl]
        rw [hl] at ih
        rw [List.flatten_cons, List.cons_append, ← List.flatten_cons, ih]

theorem linhas_append_lf {s : List UInt8} (hs : 10 ∉ s) (r : List UInt8) :
    linhas (s ++ 10 :: r) = (s ++ [10]) :: linhas r := by
  induction s with
  | nil => exact linhas_lf r
  | cons c s ih =>
    rw [List.mem_cons, not_or] at hs
    exact linhas_cons_cons (Ne.symm hs.1) (ih hs.2)

/-- A text made of complete lines has just these lines. -/
theorem linhas_flatten {ls : List (List UInt8)} (h : ∀ l ∈ ls, LinhaCompleta l) :
    linhas ls.flatten = ls := by
  induction ls with
  | nil => rfl
  | cons l ls ih =>
    obtain ⟨s, hs, rfl⟩ := h l List.mem_cons_self
    rw [List.flatten_cons, List.append_assoc, List.singleton_append, linhas_append_lf hs,
      ih fun l hl => h l (List.mem_cons_of_mem _ hl)]

theorem linhaCompleta_of_mem {p l : List UInt8} (h : l ∈ linhas (p ++ [10])) : LinhaCompleta l := by
  induction p generalizing l with
  | nil =>
    rw [List.nil_append, linhas_lf, linhas_nil, List.mem_singleton] at h
    exact ⟨[], by simp, h⟩
  | cons c p ih =>
    rw [List.cons_append] at h
    by_cases hc : c = 10
    · rw [hc, linhas_lf, List.mem_cons] at h
      rcases h with rfl | h
      · exact ⟨[], by simp, rfl⟩
      · exact ih h
    · rcases hl : linhas (p ++ [10]) with _ | ⟨l', ls⟩
      · exact absurd (linhas_eq_nil.mp hl) (by simp)
      · rw [hl] at ih
        rw [linhas_cons_cons hc hl, List.mem_cons] at h
        rcases h with rfl | h
        · obtain ⟨s, hs, rfl⟩ := ih List.mem_cons_self
          exact ⟨c :: s, by simp [hs, Ne.symm hc], rfl⟩
        · exact ih (List.mem_cons_of_mem _ h)

/-- The token at the start of a text is that of its first line. -/
theorem extrair_token_linha {p l : List UInt8} {ls : List (List UInt8)} {n : Nat}
    (h : linhas p = l :: ls) : extrair_token l (n + 1) = extrair_token p (n + 1) := by
  unfold extrair_token
  rw [Nat.add_sub_cancel]
  induction p generalizing l ls n with
  | nil => exact absurd h (by simp)
  | cons c p ih =>
    cases n with
    | zero => rfl
    | succ n =>
      by_cases hc : c = 10
      · rw [hc, linhas_lf] at h
        obtain ⟨rfl, _⟩ := List.cons.inj h
        simp [hc]
      · rcases hl : linhas p with _ | ⟨l', ls'⟩
        · rw [linhas_cons_nil hc hl] at h
          obtain ⟨rfl, _⟩ := List.cons.inj h
          rw [linhas_eq_nil.mp hl]
        · rw [linhas_cons_cons hc hl] at h
          obtain ⟨rfl, _⟩ := List.cons.inj h
          rw [List.take_succ_cons, List.take_succ_cons, List.takeWhile_cons, List.takeWhile_cons,
            ih hl]

theorem texto_eq {p : List UInt8} (h : 0 ∉ p) : texto p = p := by
  unfold texto
  rw [List.takeWhile_eq_self_iff]
  intro c hc
  simp only [decide_eq_true_eq]
  rintro rfl
  exact h hc

/-! ## The line of a package -/

/-- A name that a line of the database gives back. -/
structure NomeLegivel (name : List UInt8) : Prop where
  length_le : name.length ≤ 32
  sem_separador : ∀ c ∈ name, c ≠ 32 ∧ c ≠ 10 ∧ c ≠ 13

theorem extrair_token_nova_linha {name version : List UInt8} {pilha : Pilha}
    (h : NomeLegivel name) : extrair_token (nova_linha pilha name version) 33 = name := by
  have hall : ∀ c ∈ name, decide (c ≠ 32 ∧ c ≠ 10 ∧ c ≠ 13) = true := by
    intro c hc
    exact decide_eq_true (h.sem_separador c hc)
  unfold extrair_token nova_linha copiado
  rw [show 33 - 1 = 32 from rfl]
  by_cases hlt : name.length < 32
  · obtain ⟨k, hk⟩ : ∃ k, 32 - name.length = k + 1 := ⟨31 - name.length, by omega⟩
    rw [if_pos hlt, List.take_append, List.take_of_length_le (by omega), hk, List.take_succ_cons,
      List.takeWhile_append_of_pos hall, List.takeWhile_cons_of_neg (by simp), List.append_nil]
  · have h32 : name.length = 32 := by have := h.length_le; omega
    rw [if_neg hlt, ← h32, List.take_length, List.append_assoc, List.take_left]
    exact List.takeWhile_eq_self_iff.mpr hall

theorem nova_linha_eq (pilha : Pilha) (name version : List UInt8) :
    ∃ p, nova_linha pilha name version = p ++ [10] := by
  refine ⟨copiado name 32 pilha.nome ++ 32 :: copiado version 16 pilha.versao, ?_⟩
  unfold nova_linha
  simp

theorem zero_notMem_copiado {s : List UInt8} {n : Nat} {lixo : Lixo} (h : 0 ∉ s) :
    0 ∉ copiado s n lixo := by
  unfold copiado
  split
  · exact h
  · rw [List.mem_append, not_or]
    exact ⟨fun hm => h (List.mem_of_mem_take hm), lixo.property⟩

theorem zero_notMem_nova_linha {pilha : Pilha} {name version : List UInt8} (hn : 0 ∉ name)
    (hv : 0 ∉ version) : 0 ∉ nova_linha pilha name version := by
  unfold nova_linha
  simp only [List.mem_append, List.mem_cons, List.not_mem_nil, or_false, not_or]
  exact ⟨zero_notMem_copiado hn, by decide, zero_notMem_copiado hv, by decide⟩

/-! ## The database -/

theorem pkg_is_installed_iff {v : Vfs} {name : List UInt8} : pkg_is_installed v name = true ↔
    ∃ l ∈ linhas (texto (db_ler v)), extrair_token l 33 = name := by
  unfold pkg_is_installed
  rw [List.any_eq_true]
  simp

/-- The database holds the text `db`. -/
structure Banco (v : Vfs) (db : List UInt8) : Prop where
  arquivo : v.arquivos PKG_DB_PATH = some db
  sem_zero : 0 ∉ db
  length_lt : db.length < PKG_DB_MAX

theorem Banco.db_ler {v : Vfs} {db : List UInt8} (h : Banco v db) : db_ler v = db := by
  have := h.length_lt
  unfold Pkg.db_ler vfs_read
  rw [h.arquivo, Option.map_some, List.take_of_length_le (by omega)]
  rfl

theorem Banco.instalado_iff {v : Vfs} {db name : List UInt8} (h : Banco v db) :
    pkg_is_installed v name = true ↔ ∃ l ∈ linhas db, extrair_token l 33 = name := by
  rw [pkg_is_installed_iff, h.db_ler, texto_eq h.sem_zero]

/-! ## Manifests -/

/-- A path that a manifest gives back. -/
structure CaminhoLegivel (path : Path) : Prop where
  ne_nil : path ≠ []
  length_le : path.length ≤ 63
  sem_lf : 10 ∉ path

theorem manifesto_eq {paths : List Path} {pos : Nat} (h : ∀ p ∈ paths, CaminhoLegivel p)
    (hpos : pos + 64 * paths.length < 1023) :
    manifesto pos paths = paths.flatMap fun p => p ++ [10] := by
  induction paths generalizing pos with
  | nil => rfl
  | cons p paths ih =>
    have hp := (h p List.mem_cons_self).length_le
    rw [List.length_cons] at hpos
    unfold manifesto
    rw [if_neg (by omega), ih (fun q hq => h q (List.mem_cons_of_mem _ hq)) (by omega),
      List.flatMap_cons, List.append_assoc, List.singleton_append]

/-- The paths read back from their lines. -/
theorem ler_caminhos_eq {paths : List Path} {fuel max : Nat} (h : ∀ p ∈ paths, CaminhoLegivel p)
    (hfuel : paths.length ≤ fuel) (hmax : paths.length ≤ max) :
    ler_caminhos fuel max (paths.flatMap fun p => p ++ [10]) = paths := by
  induction paths generalizing fuel max with
  | nil =>
    cases fuel with
    | zero => rfl
    | succ fuel => simp [ler_caminhos]
  | cons p paths ih =>
    rw [List.length_cons] at hfuel hmax
    obtain ⟨fuel, rfl⟩ : ∃ f, fuel = f + 1 := ⟨fuel - 1, by omega⟩
    have hp := h p List.mem_cons_self
    have hlf : ∀ c ∈ p, decide (c ≠ 10) = true := by
      intro c hc
      simp only [decide_eq_true_eq]
      rintro rfl
      exact hp.sem_lf hc
    rw [List.flatMap_cons, List.append_assoc, List.singleton_append]
    generalize hr : (paths.flatMap fun p => p ++ [10]) = resto at ih
    have hpath : ((p ++ 10 :: resto).take 63).takeWhile (fun c => decide (c ≠ 10)) = p := by
      rw [List.take_append, List.take_of_length_le hp.length_le, List.takeWhile_append_of_pos hlf]
      cases 63 - p.length with
      | zero => simp
      | succ k => simp
    unfold ler_caminhos
    rw [if_neg (by simp; omega)]
    dsimp only
    rw [hpath, List.drop_left, List.head?_cons, if_pos rfl, List.tail_cons, if_neg hp.ne_nil]
    rw [← hr] at ih ⊢
    rw [ih (fun q hq => h q (List.mem_cons_of_mem _ hq)) (by omega) (by omega)]

theorem length_flatMap_lf {paths : List Path} (h : ∀ p ∈ paths, CaminhoLegivel p) :
    paths.length ≤ (paths.flatMap fun p => p ++ [10]).length ∧
      (paths.flatMap fun p => p ++ [10]).length ≤ 64 * paths.length := by
  induction paths with
  | nil => simp
  | cons p paths ih =>
    have hp := (h p List.mem_cons_self).length_le
    have := ih fun q hq => h q (List.mem_cons_of_mem _ hq)
    rw [List.flatMap_cons, List.length_append, List.length_append, List.length_cons,
      List.length_singleton]
    omega

/-- What `pkg_files_save` writes, `pkg_files_load` reads. -/
theorem pkg_files_load_eq {v : Vfs} {lixo : Lixo} {name : List UInt8} {paths : List Path}
    (h : ∀ p ∈ paths, CaminhoLegivel p) (hz : ∀ p ∈ paths, 0 ∉ p) (hn : paths.length ≤ 8)
    (hv : v.arquivos (lst_path lixo name) = some (manifesto 0 paths)) :
    pkg_files_load lixo v name 8 = paths := by
  have hlen := length_flatMap_lf h
  have htexto : texto (paths.flatMap fun p => p ++ [10]) = paths.flatMap fun p => p ++ [10] := by
    refine texto_eq fun hm => ?_
    obtain ⟨p, hp, hm⟩ := List.mem_flatMap.mp hm
    rw [List.mem_append, List.mem_singleton] at hm
    exact hm.elim (hz p hp) (by decide)
  unfold pkg_files_load vfs_read
  rw [hv, manifesto_eq h (by omega), Option.map_some, List.take_of_length_le (by omega)]
  dsimp only
  rw [htexto]
  exact ler_caminhos_eq h hlen.1 hn

end SpaceOS.Pkg
