-- The package database as a set of names (kernel/pkg/pkg_db.c), over any sequence of `pkg_db_add`
-- and `pkg_db_remove`. A removal takes out one name. An entry puts in one name where the name has
-- no separator and the version does not start lines of other names.
import Mathlib.Data.List.Induction
import Mathlib.Data.Set.Insert
import SpaceOS.PkgRemoveLaws

namespace SpaceOS.Pkg

/-! ## Runs -/

/-- A name that a header holds with its NUL. -/
structure NomeDeHeader (name : List UInt8) : Prop where
  ne_nil : name ≠ []
  length_lt : name.length < 32
  sem_zero : 0 ∉ name

/-- A version that a header holds with its NUL. -/
structure VersaoDeHeader (version : List UInt8) : Prop where
  length_lt : version.length < 16
  sem_zero : 0 ∉ version

inductive Operacao where
  | add (pilha : Pilha) (name version : List UInt8)
  | remove (name : List UInt8)

namespace Operacao

def Valida : Operacao → Prop
  | add _ name version => NomeDeHeader name ∧ VersaoDeHeader version
  | remove _ => True

def chama (v : Vfs) : Operacao → Int × Vfs
  | add pilha name version => pkg_db_add sem_falhas pilha v name version
  | remove name => pkg_db_remove sem_falhas v name

/-- What a call that returned `ret` does to a set of names. -/
def efeito (ret : Int) (nomes : Set (List UInt8)) : Operacao → Set (List UInt8)
  | add _ name _ => if 0 ≤ ret then insert name nomes else nomes
  | remove name => nomes \ {name}

/-- The call does to the database what it does to a set of names. -/
def Cumpre (v : Vfs) (o : Operacao) : Prop :=
  match o with
  | add _ name _ => 0 ≤ (o.chama v).1 → pkg_is_installed (o.chama v).2 name = true ∧
      ∀ outro, NomeDeHeader outro → outro ≠ name →
        pkg_is_installed (o.chama v).2 outro = pkg_is_installed v outro
  | remove name => pkg_is_installed (o.chama v).2 name = false ∧
      ∀ outro, NomeDeHeader outro → outro ≠ name →
        pkg_is_installed (o.chama v).2 outro = pkg_is_installed v outro

end Operacao

/-- The lines that a version starts, each behind a line feed of its own. -/
def linhas_da_versao (version : List UInt8) : List (List UInt8) := (linhas (version ++ [10])).tail

/-- There is no room for the line, or the name has no separator and the first words of the lines
that the version starts are empty, or the name, or names of the database. -/
def Operacao.Separada (v : Vfs) : Operacao → Prop
  | add _ name version =>
    PKG_DB_MAX ≤ (db_ler v).length + (name.length + version.length + 2) ∨
      (∀ c ∈ name, c ≠ 32 ∧ c ≠ 10 ∧ c ≠ 13) ∧
        ∀ l ∈ linhas_da_versao version, extrair_token l 33 = [] ∨ extrair_token l 33 = name ∨
          pkg_is_installed v (extrair_token l 33) = true
  | remove _ => True

/-- The files, and the names that were added and not removed since. -/
structure Uso where
  vfs : Vfs
  nomes : Set (List UInt8)

def Uso.passo (u : Uso) (o : Operacao) : Uso :=
  ⟨(o.chama u.vfs).2, o.efeito (o.chama u.vfs).1 u.nomes⟩

/-- The use of the database by the calls `ops`, the first one first, from the files `v` on. -/
def uso (v : Vfs) (ops : List Operacao) : Uso := ops.foldl Uso.passo ⟨v, ∅⟩

theorem uso_concat (v : Vfs) (ops : List Operacao) (o : Operacao) :
    uso v (ops ++ [o]) = (uso v ops).passo o := by
  unfold uso
  rw [List.foldl_append]
  rfl

/-- The names that can be read back. -/
def nomes_lidos (v : Vfs) : Set (List UInt8) :=
  {name | NomeDeHeader name ∧ pkg_is_installed v name = true}

/-! ## Lines and tokens -/

theorem linhas_append {s p l : List UInt8} {ls : List (List UInt8)} (hs : 10 ∉ s)
    (h : linhas p = l :: ls) : linhas (s ++ p) = (s ++ l) :: ls := by
  induction s with
  | nil => exact h
  | cons c s ih =>
    rw [List.mem_cons, not_or] at hs
    exact linhas_cons_cons (Ne.symm hs.1) (ih hs.2)

theorem extrair_token_sublist (p : List UInt8) (n : Nat) : (extrair_token p n).Sublist p :=
  (List.takeWhile_sublist _).trans (List.take_sublist _ _)

/-- A token has no separator. -/
theorem sem_separador_token {p : List UInt8} {n : Nat} :
    ∀ c ∈ extrair_token p n, c ≠ 32 ∧ c ≠ 10 ∧ c ≠ 13 := by
  intro c hc
  have := List.mem_takeWhile_imp hc
  simpa using this

/-- The first word of a line of a version could be the name of a package. -/
theorem nomeDeHeader_token {version l : List UInt8} (h : VersaoDeHeader version)
    (hl : l ∈ linhas_da_versao version) (hne : extrair_token l 33 ≠ []) :
    NomeDeHeader (extrair_token l 33) := by
  have hsub : (extrair_token l 33).Sublist (version ++ [10]) := by
    rw [← flatten_linhas (version ++ [10])]
    exact (extrair_token_sublist l 33).trans
      (List.sublist_flatten_of_mem (List.mem_of_mem_tail hl))
  refine ⟨hne, ?_, ?_⟩
  · have hlen := hsub.length_le
    have := h.length_lt
    rw [List.length_append, List.length_singleton] at hlen
    omega
  · intro hz
    have hz := hsub.subset hz
    rw [List.mem_append, List.mem_singleton] at hz
    exact hz.elim h.sem_zero (by decide)

/-! ## The database as lines -/

section Passo

variable {v : Vfs} {ls : List (List UInt8)} {pilha : Pilha} {name version : List UInt8}

theorem Linhas.of_none (h : v.arquivos PKG_DB_PATH = none) : Linhas v [] := by
  refine ⟨?_, by simp, by simp, by decide⟩
  unfold db_ler vfs_read
  rw [h]
  rfl

theorem nova_linha_de_header (pilha : Pilha) (hn : NomeDeHeader name)
    (hv : VersaoDeHeader version) :
    nova_linha pilha name version = name ++ 32 :: (version ++ [10]) := by
  unfold nova_linha copiado
  rw [if_pos hn.length_lt, if_pos hv.length_lt]

/-- The lines of an entry are put behind those of the database, if there is room. -/
theorem Linhas.add (h : Linhas v ls) (pilha : Pilha) (hn : NomeDeHeader name)
    (hv : VersaoDeHeader version) :
    pkg_db_add sem_falhas pilha v name version = (-1, v) ∧
        PKG_DB_MAX ≤ (db_ler v).length + (name.length + version.length + 2) ∨
      0 ≤ (pkg_db_add sem_falhas pilha v name version).1 ∧
        (db_ler v).length + (name.length + version.length + 2) < PKG_DB_MAX ∧
        Linhas (pkg_db_add sem_falhas pilha v name version).2
          (ls ++ linhas (nova_linha pilha name version)) := by
  have hlen : (nova_linha pilha name version).length = name.length + version.length + 2 := by
    rw [nova_linha_de_header pilha hn hv]
    simp only [List.length_append, List.length_cons, List.length_nil]
    omega
  have hz : 0 ∉ nova_linha pilha name version := zero_notMem_nova_linha hn.sem_zero hv.sem_zero
  have hflat : (ls ++ linhas (nova_linha pilha name version)).flatten =
      db_ler v ++ nova_linha pilha name version := by
    rw [List.flatten_append, flatten_linhas, h.lido]
  unfold pkg_db_add
  dsimp only
  rw [hlen]
  split
  · next hge => exact Or.inl ⟨rfl, hge⟩
  · next hlt =>
    refine Or.inr ⟨Int.natCast_nonneg _, by omega, ?_⟩
    rw [← hflat]
    refine Linhas.of_write ?_ ?_ ?_
    · intro l hl
      rcases List.mem_append.mp hl with hl | hl
      · exact h.completas l hl
      · obtain ⟨p, hp⟩ := nova_linha_eq pilha name version
        rw [hp] at hl
        exact linhaCompleta_of_mem hl
    · rw [hflat, h.lido, List.mem_append, not_or]
      exact ⟨h.sem_zero, hz⟩
    · rw [hflat, List.length_append, hlen]
      omega

/-! ## One call -/

/-- A name with a separator is never read back. -/
theorem Linhas.sem_separador (h : Linhas v ls) (hi : pkg_is_installed v name = true) :
    ∀ c ∈ name, c ≠ 32 ∧ c ≠ 10 ∧ c ≠ 13 := by
  obtain ⟨l, -, rfl⟩ := h.instalado_iff.mp hi
  exact sem_separador_token

/-- The lines of an entry whose name has no separator start with the name and with the first words
of the lines that the version starts. -/
theorem tokens_nova_linha (pilha : Pilha) (hn : NomeDeHeader name) (hv : VersaoDeHeader version)
    (hs : ∀ c ∈ name, c ≠ 32 ∧ c ≠ 10 ∧ c ≠ 13) (outro : List UInt8) :
    (∃ l ∈ linhas (nova_linha pilha name version), extrair_token l 33 = outro) ↔
      outro = name ∨ ∃ l ∈ linhas_da_versao version, extrair_token l 33 = outro := by
  have hlf : 10 ∉ name := fun h => (hs 10 h).2.1 rfl
  have htoken : extrair_token (nova_linha pilha name version) 33 = name :=
    extrair_token_nova_linha ⟨Nat.le_of_lt hn.length_lt, hs⟩
  rcases hp : linhas (version ++ [10]) with _ | ⟨l, resto⟩
  · exact absurd (linhas_eq_nil.mp hp) (by simp)
  · have hlinhas : linhas (nova_linha pilha name version) = (name ++ 32 :: l) :: resto := by
      rw [nova_linha_de_header pilha hn hv]
      exact linhas_append hlf (linhas_cons_cons (by decide) hp)
    have hresto : linhas_da_versao version = resto := by
      unfold linhas_da_versao
      rw [hp]
      rfl
    rw [hlinhas, hresto]
    simp only [List.mem_cons, exists_eq_or_imp]
    rw [extrair_token_linha hlinhas, htoken, eq_comm]

theorem cumpre_add_iff (h : Linhas v ls) (hn : NomeDeHeader name) (hv : VersaoDeHeader version) :
    (Operacao.add pilha name version).Cumpre v ↔ (Operacao.add pilha name version).Separada v := by
  unfold Operacao.Cumpre Operacao.Separada Operacao.chama
  dsimp only
  rcases h.add pilha hn hv with ⟨he, hcheio⟩ | ⟨hret, hcabe, hw⟩
  · rw [he]
    exact iff_of_true (fun hret => absurd hret (show ¬ (0 : Int) ≤ -1 by decide)) (Or.inl hcheio)
  · rw [or_iff_right (Nat.not_le.mpr hcabe)]
    constructor
    · intro hc
      obtain ⟨hname, hout⟩ := hc hret
      have hs := hw.sem_separador hname
      refine ⟨hs, fun l hl => ?_⟩
      by_cases hnil : extrair_token l 33 = []
      · exact Or.inl hnil
      by_cases heq : extrair_token l 33 = name
      · exact Or.inr (Or.inl heq)
      refine Or.inr (Or.inr ?_)
      rw [← hout _ (nomeDeHeader_token hv hl hnil) heq, hw.instalado_iff]
      obtain ⟨l', hl', ht⟩ := (tokens_nova_linha pilha hn hv hs (extrair_token l 33)).mpr
        (Or.inr ⟨l, hl, rfl⟩)
      exact ⟨l', List.mem_append_right _ hl', ht⟩
    · rintro ⟨hs, hlinhas⟩ -
      have hiff : ∀ outro, pkg_is_installed
            (pkg_db_add sem_falhas pilha v name version).2 outro = true ↔
          pkg_is_installed v outro = true ∨ outro = name ∨
            ∃ l ∈ linhas_da_versao version, extrair_token l 33 = outro := by
        intro outro
        rw [hw.instalado_iff, h.instalado_iff, ← tokens_nova_linha pilha hn hv hs]
        simp only [List.mem_append, or_and_right, exists_or]
      refine ⟨(hiff name).mpr (Or.inr (Or.inl rfl)), fun outro ho hne => ?_⟩
      rw [Bool.eq_iff_iff, hiff]
      constructor
      · rintro (hi | rfl | ⟨l, hl, rfl⟩)
        · exact hi
        · exact absurd rfl hne
        · rcases hlinhas l hl with h' | h' | h'
          · exact absurd h' ho.ne_nil
          · exact absurd h' hne
          · exact h'
      · exact Or.inl

theorem cumpre_remove (h : Linhas v ls) (name : List UInt8) :
    (Operacao.remove name).Cumpre v := by
  have hiff : ∀ outro, pkg_is_installed ((Operacao.remove name).chama v).2 outro = true ↔
      pkg_is_installed v outro = true ∧ outro ≠ name := h.instalado_remove_iff name
  refine ⟨?_, fun outro _ hne => ?_⟩
  · rw [← Bool.not_eq_true, hiff]
    exact fun hi => hi.2 rfl
  · rw [Bool.eq_iff_iff, hiff]
    exact and_iff_left hne

theorem Linhas.chama {o : Operacao} (h : Linhas v ls) (ho : o.Valida) :
    ∃ ls', Linhas (o.chama v).2 ls' := by
  cases o with
  | add pilha name version =>
    rcases h.add pilha ho.1 ho.2 with ⟨he, -⟩ | ⟨-, -, hw⟩
    · refine ⟨ls, ?_⟩
      unfold Operacao.chama
      dsimp only
      rw [he]
      exact h
    · exact ⟨_, hw⟩
  | remove name => exact ⟨_, h.remove name⟩

/-- A call that does what it should, does it to the names that are read back. -/
theorem nomes_lidos_chama {o : Operacao} (h : Linhas v ls) (ho : o.Valida) (hc : o.Cumpre v) :
    nomes_lidos (o.chama v).2 = o.efeito (o.chama v).1 (nomes_lidos v) := by
  cases o with
  | add pilha name version =>
    obtain ⟨hn, hv⟩ := ho
    unfold Operacao.efeito
    dsimp only
    rcases h.add pilha hn hv with ⟨he, -⟩ | ⟨hret, -, -⟩
    · rw [show (Operacao.add pilha name version).chama v = (-1, v) from he,
        if_neg (show ¬ (0 : Int) ≤ -1 by decide)]
    · rw [if_pos (show 0 ≤ ((Operacao.add pilha name version).chama v).1 from hret)]
      obtain ⟨hname, hout⟩ := hc hret
      ext outro
      by_cases heq : outro = name
      · rw [heq]
        exact iff_of_true ⟨hn, hname⟩ (Set.mem_insert _ _)
      · rw [Set.mem_insert_iff, or_iff_right heq]
        exact and_congr_right fun ho => by rw [hout outro ho heq]
  | remove name =>
    obtain ⟨hname, hout⟩ := hc
    ext outro
    by_cases heq : outro = name
    · rw [heq]
      refine iff_of_false ?_ (fun hm => hm.2 rfl)
      rintro ⟨-, hi⟩
      rw [hname] at hi
      exact absurd hi (by decide)
    · constructor
      · rintro ⟨ho, hi⟩
        exact ⟨⟨ho, by rwa [hout outro ho heq] at hi⟩, heq⟩
      · rintro ⟨⟨ho, hi⟩, -⟩
        exact ⟨ho, by rwa [hout outro ho heq]⟩

end Passo

/-! ## Any sequence of calls -/

section Sequencia

variable {v : Vfs} {ops : List Operacao}

theorem linhas_uso (h0 : v.arquivos PKG_DB_PATH = none) (hv : ∀ o ∈ ops, o.Valida) :
    ∃ ls, Linhas (uso v ops).vfs ls := by
  induction ops using List.reverseRecOn with
  | nil => exact ⟨[], Linhas.of_none h0⟩
  | append_singleton ops o ih =>
    obtain ⟨ls, h⟩ := ih fun o' ho' => hv o' (List.mem_append_left _ ho')
    rw [uso_concat]
    exact h.chama (hv o (List.mem_append_right _ (List.mem_singleton_self _)))

theorem cumpre_iff {o : Operacao} (h0 : v.arquivos PKG_DB_PATH = none)
    (hv : ∀ o ∈ ops, o.Valida) (ho : o.Valida) :
    o.Cumpre (uso v ops).vfs ↔ o.Separada (uso v ops).vfs := by
  obtain ⟨ls, h⟩ := linhas_uso h0 hv
  cases o with
  | add pilha name version => exact cumpre_add_iff h ho.1 ho.2
  | remove name => exact iff_of_true (cumpre_remove h name) trivial

/-- Whatever was added and removed, the next call does to the database what it does to a set of
names exactly where it is separated. In a run of such calls the names that are read back are the
set. -/
theorem the_database_is_a_set_of_names_iff (h0 : v.arquivos PKG_DB_PATH = none)
    (hv : ∀ o ∈ ops, o.Valida) :
    (∀ o : Operacao, o.Valida → (o.Cumpre (uso v ops).vfs ↔ o.Separada (uso v ops).vfs)) ∧
      ((∀ antes o depois, ops = antes ++ o :: depois → o.Separada (uso v antes).vfs) →
        nomes_lidos (uso v ops).vfs = (uso v ops).nomes) := by
  refine ⟨fun o ho => cumpre_iff h0 hv ho, ?_⟩
  induction ops using List.reverseRecOn with
  | nil =>
    intro _
    ext outro
    refine iff_of_false ?_ (Set.notMem_empty _)
    rintro ⟨-, hi⟩
    obtain ⟨l, hl, -⟩ := (Linhas.of_none h0).instalado_iff.mp hi
    exact absurd hl List.not_mem_nil
  | append_singleton ops o ih =>
    intro hc
    have hva : ∀ o' ∈ ops, o'.Valida := fun o' ho' => hv o' (List.mem_append_left _ ho')
    have ho : o.Valida := hv o (List.mem_append_right _ (List.mem_singleton_self _))
    have ih := ih hva fun antes o' depois he =>
      hc antes o' (depois ++ [o]) (by rw [he, List.append_assoc, List.cons_append])
    obtain ⟨ls, h⟩ := linhas_uso h0 hva
    rw [uso_concat]
    unfold Uso.passo
    dsimp only
    rw [nomes_lidos_chama h ho ((cumpre_iff h0 hva ho).mpr (hc ops o [] rfl)), ih]

end Sequencia

/-- Nothing on the disk. -/
def disco_sem_pacotes : Vfs := ⟨fun _ => none, [], 0, 0⟩

/-- The package `ls`, version `1`, is added, and removed. -/
def entra_e_sai (pilha : Pilha) : List Operacao :=
  [.add pilha [108, 115] [49], .remove [108, 115]]

theorem nomeDeHeader_ls : NomeDeHeader [108, 115] := ⟨by decide, by decide, by decide⟩

theorem versaoDeHeader_um : VersaoDeHeader [49] := ⟨by decide, by decide⟩

theorem the_database_is_a_set_of_names_for_ls :
    (∀ o : Operacao, o.Valida →
      (o.Cumpre (uso disco_sem_pacotes (entra_e_sai pilha_zerada)).vfs ↔
        o.Separada (uso disco_sem_pacotes (entra_e_sai pilha_zerada)).vfs)) ∧
      ((∀ antes o depois, entra_e_sai pilha_zerada = antes ++ o :: depois →
          o.Separada (uso disco_sem_pacotes antes).vfs) →
        nomes_lidos (uso disco_sem_pacotes (entra_e_sai pilha_zerada)).vfs =
          (uso disco_sem_pacotes (entra_e_sai pilha_zerada)).nomes) :=
  the_database_is_a_set_of_names_iff rfl fun o ho => by
    unfold entra_e_sai at ho
    rw [List.mem_pair] at ho
    rcases ho with rfl | rfl
    · exact ⟨nomeDeHeader_ls, versaoDeHeader_um⟩
    · trivial

/-- The package `a b` is added to an empty database and is not found there. -/
theorem a_name_with_a_space_is_not_found : ¬ ∀ (v : Vfs) (ops : List Operacao) (o : Operacao),
    v.arquivos PKG_DB_PATH = none → (∀ o' ∈ ops, o'.Valida) → o.Valida →
      o.Cumpre (uso v ops).vfs := by
  intro h
  have hv : (Operacao.add pilha_zerada [97, 32, 98] [49]).Valida :=
    ⟨⟨by decide, by decide, by decide⟩, versaoDeHeader_um⟩
  have hc := h disco_sem_pacotes [] _ rfl (by simp) hv
  have hi := (hc (by decide)).1
  revert hi
  decide

end SpaceOS.Pkg
