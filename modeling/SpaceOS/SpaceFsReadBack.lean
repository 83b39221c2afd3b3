-- What a read returns right after a write: the walk along the path, the search in the last
-- directory and the data.
import SpaceOS.SpaceFsLaws
import SpaceOS.SpaceFsNames

open Lib.Bytes Lib.BlockProg Lib.Ownership SpaceOS.Ata
open Function (update update_self update_of_ne)

namespace SpaceOS.SpaceFs

/-! ## Searches -/

section Busca

variable {v v' : Volume} {dir : Inode} {tok : List UInt8}

theorem busca_bloco_none {dblk : Setor} {n e : Nat} (h : busca_bloco dblk tok n = none)
    (he : e < SFS_DIRENTS_PER_BLK) (hn : e < n) (h0 : dirent_inode dblk e ≠ 0) :
    dirent_name dblk e ≠ tok := by
  have := List.find?_eq_none.mp h e (List.mem_range.mpr (by omega))
  simpa [h0] using this

/-- A search that fails has passed every entry that it could reach. -/
theorem busca_none {k m n b e : Nat} (h : v.busca dir tok (List.range' k m) (n - 16 * k) = none)
    (hk : k ≤ b) (hb : b < k + m) (hall : ∀ c ≤ b, inode_block dir c ≠ 0)
    (he : e < SFS_DIRENTS_PER_BLK) (hn : 16 * b + e < n)
    (h0 : dirent_inode (v.dado (inode_block dir b)) e ≠ 0) :
    dirent_name (v.dado (inode_block dir b)) e ≠ tok := by
  induction m generalizing k with
  | zero => omega
  | succ m ih =>
    rw [List.range'_succ, Volume.busca, if_neg (by omega), if_neg (hall k hk)] at h
    cases hx : busca_bloco (v.dado (inode_block dir k)) tok (n - 16 * k) with
    | some e' =>
      rw [hx] at h
      cases h
    | none =>
      rw [hx] at h
      by_cases hbk : b = k
      · subst hbk
        exact busca_bloco_none hx he (by omega) h0
      · refine ih (k := k + 1) ?_ (by omega) (by omega)
        have : n - 16 * (k + 1) = n - 16 * k - SFS_DIRENTS_PER_BLK := by
          unfold SFS_DIRENTS_PER_BLK
          omega
        rw [this]
        exact h

theorem busca_congr {l : List Nat} (h : ∀ b ∈ l, inode_block dir b ≠ 0 →
    v'.dado (inode_block dir b) = v.dado (inode_block dir b)) (n : Nat) :
    v'.busca dir tok l n = v.busca dir tok l n := by
  induction l generalizing n with
  | nil => rfl
  | cons b l ih =>
    rw [Volume.busca, Volume.busca]
    by_cases h0 : inode_block dir b = 0
    · rw [if_pos h0, if_pos h0]
    · rw [if_neg h0, if_neg h0, h b List.mem_cons_self h0,
        ih fun c hc => h c (List.mem_cons_of_mem _ hc)]

theorem Igual.entra {j : Nat} (h : Igual v v' j) (tok : List UInt8) :
    v'.entra j tok = v.entra j tok := by
  unfold Volume.entra
  rw [h.ino, busca_congr fun b hb h0 => h.dado b (List.mem_range.mp hb) h0]

end Busca

/-- The name of an entry. -/
def nome (v : Volume) (i b e : Nat) : List UInt8 := nome_de (registro v i b e)

section Nomes

variable {v : Volume} {p : Nat} {tok : List UInt8}

theorem Legivel.dirent_name (hl : Legivel v) {b e c : Nat} (h : Entrada v p b e c) :
    dirent_name (v.dado (inode_block (v.ino p) b)) e = nome v p b e :=
  dirent_name_eq h.vez (hl.nul h)

/-- A search for a name fails when no entry of the directory has it. -/
theorem entra_none_iff (hl : Legivel v) (hp : p < SFS_INODE_MAX) (hu : v.imap p = true)
    (ht : inode_type (v.ino p) = 2) :
    v.entra p tok = none ↔ ∀ b e c, Entrada v p b e c → nome v p b e ≠ tok := by
  constructor
  · intro h b e c g
    have hall : ∀ b' ≤ b, inode_block (v.ino p) b' ≠ 0 := fun b' hb' => by
      rcases Nat.eq_or_lt_of_le hb' with rfl | hlt
      · exact g.bloco
      · exact hl.antes g b' hlt
    unfold Volume.entra at h
    rw [if_neg (not_not.mpr ht), List.range_eq_range'] at h
    rw [← hl.dirent_name g]
    have hlugar := g.lugar
    exact busca_none (k := 0) h (Nat.zero_le _) (by omega) hall g.vez (hl.conta g)
      (by rw [g.nome]; exact g.vivo)
  · intro h
    cases hx : v.entra p tok with
    | none => rfl
    | some i =>
      obtain ⟨_, hb⟩ := Volume.entra_busca hx
      obtain ⟨pre, b, post, hr, _, hb0, e, he, hi, h0, hn⟩ := Volume.busca_some hb
      have g : Entrada v p b e i :=
        ⟨hp, hu, ht, List.mem_range.mp (by rw [hr]; simp), hb0, he, hi, h0⟩
      exact absurd ((hl.dirent_name g).symm.trans hn) (h b e i g)

/-- A search finds an entry that has the name alone. -/
theorem entra_unica (hl : Legivel v) {b e c : Nat} (g : Entrada v p b e c)
    (hn : nome v p b e = tok)
    (huni : ∀ b' e' c', Entrada v p b' e' c' → nome v p b' e' = tok → c' = c) :
    v.entra p tok = some c := by
  cases hx : v.entra p tok with
  | none => exact absurd hn ((entra_none_iff hl g.lt g.uso g.dir).mp hx b e c g)
  | some i =>
    obtain ⟨_, hb⟩ := Volume.entra_busca hx
    obtain ⟨pre, b', post, hr, _, hb0, e', he', hi, h0, hn'⟩ := Volume.busca_some hb
    have g' : Entrada v p b' e' i :=
      ⟨g.lt, g.uso, g.dir, List.mem_range.mp (by rw [hr]; simp), hb0, he', hi, h0⟩
    rw [huni b' e' i g' ((hl.dirent_name g').symm.trans hn')]

/-- A search in a file fails. -/
theorem entra_arquivo (h : inode_type (v.ino p) ≠ 2) (tok : List UInt8) : v.entra p tok = none := by
  unfold Volume.entra
  rw [if_pos h]

end Nomes

/-! ## A search after a new entry -/

section Entra

variable {v w : Volume} {p b s e child : Nat} {dir' : Inode} {dblk : Setor} {name tok : List UInt8}

theorem Aberto.entrada_nova (ha : Aberto v p b s dir' dblk w) (hp : p < SFS_INODE_MAX)
    (hu : v.imap p = true) (ht : inode_type (v.ino p) = 2) (hb : b < 10)
    (he : e < SFS_DIRENTS_PER_BLK) (hch : child < SFS_INODE_MAX) (hch0 : child ≠ 0) :
    Entrada (w.entrou p s dir' dblk e child name) p b e child := by
  have hs : inode_block ((w.entrou p s dir' dblk e child name).ino p) b = s := by
    rw [ha.block, update_self, ha.block_self]
  have hs0 : s ≠ 0 := by
    have := ha.dado.1
    unfold SFS_DATA_START at this
    omega
  refine ⟨hp, ?_, by rw [ha.type]; exact ht, hb, by rw [hs]; exact hs0, he, ?_, hch0⟩
  · rw [← hu]
    exact congrFun ha.imap_eq p
  · rw [hs]
    change dirent_inode (update w.dado s _ s) e = child
    rw [update_self, dirent_por_self _ _ _ he,
      Nat.mod_eq_of_lt (by unfold SFS_INODE_MAX at hch; omega)]

/-- In the directory of a new entry, a name that nothing had finds the new inode if it is short
enough for the field, and nothing otherwise. -/
theorem entra_entrou (hl : Legivel v) (ha : Aberto v p b s dir' dblk w) (hp : p < SFS_INODE_MAX)
    (hu : v.imap p = true) (ht : inode_type (v.ino p) = 2) (hb : b < 10)
    (he : e < SFS_DIRENTS_PER_BLK) (hl' : Legivel (w.entrou p s dir' dblk e child name))
    (hch : child < SFS_INODE_MAX) (hch0 : child ≠ 0) (h0 : 0 ∉ name)
    (hnone : v.entra p name = none) :
    (w.entrou p s dir' dblk e child name).entra p name =
      if name.length ≤ SFS_NAME_MAX then some child else none := by
  have hold := (entra_none_iff hl hp hu ht).mp hnone
  have hnova : Entrada (w.entrou p s dir' dblk e child name) p b e child :=
    ha.entrada_nova hp hu ht hb he hch hch0
  have hnovo : nome (w.entrou p s dir' dblk e child name) p b e = name.take SFS_NAME_MAX := by
    unfold nome
    rw [ha.registro_novo, nome_dirent_por he h0]
  have hso : ∀ {b' e' c'}, Entrada (w.entrou p s dir' dblk e child name) p b' e' c' →
      nome (w.entrou p s dir' dblk e child name) p b' e' = name → b' = b ∧ e' = e := by
    intro b' e' c' g hn
    by_contra hbe
    rcases ha.entrada hp hu hb he hch g with g | g
    · refine absurd ?_ (hold b' e' c' g)
      rw [← hn]
      unfold nome
      rw [ha.registro_velho hp hu hb g fun h => hbe h.2]
    · cases g
      exact hbe ⟨rfl, rfl⟩
  split
  · rename_i hlen
    refine entra_unica hl' hnova (by rw [hnovo, List.take_of_length_le hlen]) fun b' e' c' g hn => ?_
    obtain ⟨rfl, rfl⟩ := hso g hn
    exact g.nome.symm.trans hnova.nome
  · rename_i hlen
    refine (entra_none_iff hl' hp hnova.uso hnova.dir).mpr fun b' e' c' g hn => hlen ?_
    obtain ⟨rfl, rfl⟩ := hso g hn
    rw [hnovo] at hn
    rw [← hn, List.length_take]
    exact Nat.min_le_left _ _

end Entra

/-! ## Walks -/

section Walks

variable {v v' : Volume}

/-- The inode `j` lies `n` directories below the root. -/
inductive Fundo (v : Volume) : Nat → Nat → Prop
  | raiz : Fundo v 0 0
  | desce {n p b e c : Nat} (h : Fundo v n p) (g : Entrada v p b e c) : Fundo v (n + 1) c

theorem Fundo.unico (hc : Coeso v) {n j : Nat} (h : Fundo v n j) : ∀ {m}, Fundo v m j → n = m := by
  induction h with
  | raiz =>
    intro m h
    cases h with
    | raiz => rfl
    | desce _ g => exact absurd rfl g.vivo
  | desce _ g ih =>
    intro m h
    cases h with
    | raiz => exact absurd rfl g.vivo
    | desce h g' =>
      obtain ⟨rfl, _, _⟩ := hc.uma_vez g g'
      rw [ih h]

theorem entra_entrada {cur j : Nat} {tok : List UInt8}
    (hcur : cur < SFS_INODE_MAX ∧ v.imap cur = true)
    (h : v.entra cur tok = some j) : ∃ b e, Entrada v cur b e j := by
  obtain ⟨ht, b, hb, h0, e, he, hi, hne⟩ := Volume.entra_some h
  exact ⟨b, e, hcur.1, hcur.2, ht, hb, h0, he, hi, hne⟩

/-- A walk to `q` looks into no entry of `q` on its way. -/
theorem caminho_ate (hc : Coeso v) {q : Nat}
    (h : ∀ j < SFS_INODE_MAX, v.imap j = true → j ≠ q → ∀ tok, v'.entra j tok = v.entra j tok)
    {toks : List (List UInt8)} {n cur parent r : Nat} (hf : Fundo v n cur)
    (hcur : cur < SFS_INODE_MAX ∧ v.imap cur = true)
    (hw : v.caminho toks cur parent = some (q, r)) :
    v'.caminho toks cur parent = some (q, r) ∧ ∃ k, n ≤ k ∧ Fundo v k q := by
  induction toks generalizing n cur parent with
  | nil =>
    cases hw
    exact ⟨rfl, n, Nat.le_refl n, hf⟩
  | cons tok toks ih =>
    rw [Volume.caminho] at hw ⊢
    split at hw
    · rename_i ht
      rw [if_pos ht]
      exact ih hf hcur hw
    · rename_i ht
      rw [if_neg ht]
      cases hj : v.entra cur tok with
      | none =>
        rw [hj] at hw
        cases hw
      | some j =>
        rw [hj] at hw
        obtain ⟨b, e, g⟩ := entra_entrada hcur hj
        obtain ⟨hw', k, hk, hfk⟩ := ih (hf.desce g) (hc.navegavel.entra hcur hj) hw
        have hne : cur ≠ q := by
          rintro rfl
          have := hf.unico hc hfk
          omega
        rw [h cur hcur.1 hcur.2 hne, hj]
        exact ⟨hw', k, by omega, hfk⟩

/-- Where every search gives the same, every walk does. -/
theorem caminho_congr (hc : Coeso v)
    (h : ∀ j < SFS_INODE_MAX, v.imap j = true → ∀ tok, v'.entra j tok = v.entra j tok)
    (toks : List (List UInt8)) {cur : Nat} (parent : Nat)
    (hcur : cur < SFS_INODE_MAX ∧ v.imap cur = true) :
    v'.caminho toks cur parent = v.caminho toks cur parent := by
  induction toks generalizing cur parent with
  | nil => rfl
  | cons tok toks ih =>
    rw [Volume.caminho, Volume.caminho]
    split
    · exact ih parent hcur
    · rw [h cur hcur.1 hcur.2]
      cases hj : v.entra cur tok with
      | none => rfl
      | some j => exact ih cur (hc.navegavel.entra hcur hj)

theorem caminho_append (v : Volume) (a b : List (List UInt8)) (cur parent : Nat) :
    v.caminho (a ++ b) cur parent = (v.caminho a cur parent).bind fun r => v.caminho b r.1 r.2 := by
  induction a generalizing cur parent with
  | nil => rfl
  | cons tok a ih =>
    rw [List.cons_append, Volume.caminho, Volume.caminho]
    split
    · exact ih cur parent
    · cases v.entra cur tok with
      | none => rfl
      | some j => exact ih j cur

end Walks

/-! ## The last component of a path -/

section Path

theorem partes_sem_barra {l : List UInt8} (h : BARRA ∉ l) : partes l = [l] := by
  induction l with
  | nil => rfl
  | cons c l ih =>
    obtain ⟨hc, hl⟩ := not_or.mp (List.mem_cons.not.mp h)
    rw [partes, if_neg (Ne.symm hc), ih hl]

theorem partes_ne_nil (l : List UInt8) : partes l ≠ [] := by
  cases l with
  | nil => exact List.cons_ne_nil _ _
  | cons c l =>
    rw [partes]
    split
    · exact List.cons_ne_nil _ _
    · split <;> exact List.cons_ne_nil _ _

theorem partes_append (a : List UInt8) {b : List UInt8} (h : BARRA ∉ b) :
    partes (a ++ BARRA :: b) = partes a ++ [b] := by
  induction a with
  | nil =>
    change (if BARRA = BARRA then [] :: partes b else _) = _
    rw [if_pos rfl, partes_sem_barra h]
    rfl
  | cons c a ih =>
    rw [List.cons_append, partes, partes, ih]
    split
    · rfl
    · cases hp : partes a with
      | nil => exact absurd hp (partes_ne_nil a)
      | cons p ps => rfl

/-- A path without a slash, or what stands before and after its last slash. -/
theorem path_split_cases (path : List UInt8) :
    (BARRA ∉ path ∧ path_split path = ([], path)) ∨
      ∃ a b, path = a ++ BARRA :: b ∧ BARRA ∉ b ∧ path_split path = (a, b) := by
  have hsplit := List.takeWhile_append_dropWhile (p := fun c => decide (c ≠ BARRA)) (l := path.reverse)
  have htw : BARRA ∉ path.reverse.takeWhile fun c => decide (c ≠ BARRA) := fun hm => by
    have := List.mem_takeWhile_imp hm
    exact absurd this (by decide)
  cases hd : path.reverse.dropWhile fun c => decide (c ≠ BARRA) with
  | nil =>
    rw [hd, List.append_nil] at hsplit
    refine Or.inl ⟨fun hm => htw (by rw [hsplit]; exact List.mem_reverse.mpr hm), ?_⟩
    unfold path_split
    rw [hsplit, List.reverse_reverse]
    simp
  | cons c rest =>
    have hc : c = BARRA := by
      have := List.head?_dropWhile_not (fun c => decide (c ≠ BARRA)) path.reverse
      rw [hd] at this
      simpa using this
    subst hc
    rw [hd] at hsplit
    have hpath : path = rest.reverse ++ BARRA ::
        (path.reverse.takeWhile fun c => decide (c ≠ BARRA)).reverse := by
      have := congrArg List.reverse hsplit
      rw [List.reverse_reverse, List.reverse_append, List.reverse_cons, List.append_assoc] at this
      exact this.symm
    refine Or.inr ⟨_, _, hpath, fun hm => htw (List.mem_reverse.mp hm), ?_⟩
    unfold path_split
    refine Prod.ext ?_ rfl
    dsimp only
    generalize (path.reverse.takeWhile fun c => decide (c ≠ BARRA)).reverse = b at hpath
    rw [hpath, List.take_left']
    simp
    omega

/-- A path leads to what its last component names in the directory that the rest leads to. -/
theorem resolve_parent (v : Volume) {path : List UInt8} (hlen : path.length ≤ 127)
    (hn : (path_split path).2 ≠ []) :
    v.resolve path = (v.parent_find (path_split path).1).bind fun q =>
      (v.entra q (path_split path).2).map fun i => (i, q) := by
  have hlast : ∀ b : List UInt8, b ≠ [] → ∀ q r, v.caminho [b] q r = (v.entra q b).map fun i =>
      (i, q) := fun b hb q r => by
    rw [Volume.caminho, if_neg hb]
    cases v.entra q b <;> rfl
  unfold Volume.resolve Volume.componentes Volume.parent_find
  rcases path_split_cases path with ⟨hb, hs⟩ | ⟨a, b, hp, hb, hs⟩
  · rw [hs] at hn ⊢
    have hhead : path.head? ≠ some BARRA := fun h => hb (List.mem_of_head? h)
    rw [if_neg hhead, List.take_of_length_le hlen, partes_sem_barra hb, hlast _ hn, if_pos rfl]
    rfl
  · rw [hs] at hn ⊢
    dsimp only at hn ⊢
    subst hp
    have hla : (a ++ BARRA :: b).length = a.length + (b.length + 1) := by simp
    cases a with
    | nil =>
      rw [if_pos rfl, List.nil_append, List.head?_cons, if_pos rfl, List.tail_cons,
        List.take_of_length_le (by simp at hlen; omega), partes_sem_barra hb, hlast _ hn]
      rfl
    | cons c a =>
      have hstrip : (if (c :: a ++ BARRA :: b).head? = some BARRA then (c :: a ++ BARRA :: b).tail
          else c :: a ++ BARRA :: b) =
          (if (c :: a).head? = some BARRA then (c :: a).tail else c :: a) ++ BARRA :: b := by
        rw [List.cons_append, List.head?_cons, List.head?_cons]
        split <;> rfl
      have hshort : (if (c :: a).head? = some BARRA then (c :: a).tail else c :: a).length ≤
          (c :: a).length := by
        split
        · rw [List.length_tail]
          omega
        · exact Nat.le_refl _
      rw [hstrip, List.take_of_length_le (by rw [List.length_append, List.length_cons]; omega),
        partes_append _ hb, caminho_append, if_neg (List.cons_ne_nil c a)]
      unfold Volume.resolve Volume.componentes
      rw [List.take_of_length_le (by omega)]
      cases v.caminho (partes (if (c :: a).head? = some BARRA then (c :: a).tail else c :: a)) 0 0 with
      | none => rfl
      | some r => exact hlast b hn r.1 r.2

/-- A walk after a change that leaves the searches in all directories but `q` as they were. -/
theorem resolve_depois {v : Volume} (v' : Volume) (hc : Coeso v) {q : Nat} {path : List UInt8}
    (hlen : path.length ≤ 127) (hn : (path_split path).2 ≠ [])
    (hq : v.parent_find (path_split path).1 = some q)
    (h : ∀ j < SFS_INODE_MAX, v.imap j = true → j ≠ q → ∀ tok, v'.entra j tok = v.entra j tok) :
    v'.resolve path = (v'.entra q (path_split path).2).map fun i => (i, q) := by
  have hp : v'.parent_find (path_split path).1 = some q := by
    unfold Volume.parent_find at hq ⊢
    split
    · rename_i hnil
      rwa [if_pos hnil] at hq
    · rename_i hnil
      rw [if_neg hnil] at hq
      obtain ⟨⟨q', r⟩, hr, rfl⟩ := Option.map_eq_some_iff.mp hq
      have := (caminho_ate hc h .raiz ⟨by decide, hc.raiz⟩ hr).1
      unfold Volume.resolve
      rw [this]
      rfl
  rw [resolve_parent v' hlen hn, hp]
  rfl

end Path

/-! ## The data -/

section Dados

variable {v : Volume} {buf : List UInt8}

/-- Where a write takes all its data, each block holds its piece. -/
theorem write_laco_dados {k m : Nat} (hkm : k + m = 10) (x : Inode) {done : Nat}
    (hdone : done = min (512 * k) buf.length) (v : Volume)
    (hall : (Volume.write_laco buf (List.range' k m) x done v).1.2 = buf.length) {b : Nat}
    (hk : k ≤ b) (hb : b < 10) (hlt : 512 * b < buf.length) :
    inode_block (Volume.write_laco buf (List.range' k m) x done v).1.1 b ≠ 0 ∧
      (Volume.write_laco buf (List.range' k m) x done v).2.dado
        (inode_block (Volume.write_laco buf (List.range' k m) x done v).1.1 b) =
        bloco_de ((buf.drop (512 * b)).take 512) := by
  induction m generalizing k x done v with
  | zero => omega
  | succ m ih =>
    rw [List.range'_succ] at hall ⊢
    rcases write_laco_cons buf k (List.range' (k + 1) m) x done v with ⟨he, _⟩ |
      ⟨hd, n, hn, hfree, he⟩
    · rw [he] at hall
      dsimp only at hall
      omega
    have hdk : done = 512 * k := by omega
    subst hdk
    rw [he] at hall ⊢
    generalize hv1 : v.tomou n _ = v1 at hall ⊢
    have hl : ∀ c ∈ List.range' (k + 1) m, c < 10 := fun c hc => by
      have := List.mem_range'_1.mp hc
      omega
    have hmin : 512 * k + min (buf.length - 512 * k) SETOR_SIZE = min (512 * (k + 1)) buf.length := by
      unfold SETOR_SIZE
      omega
    rw [hmin] at hall ⊢
    by_cases hbk : b = k
    · subst hbk
      have hesc := escrito_write_laco buf hl (inode_por_block x b (SFS_DATA_START + n))
        (min (512 * (b + 1)) buf.length) v1
      have hmod : (SFS_DATA_START + n) % 2 ^ 32 = SFS_DATA_START + n := by
        simp only [SFS_DATA_START, BMAP_BITS_eq] at hn ⊢
        omega
      have hnot : b ∉ List.range' (b + 1) m := fun hc => by
        have := List.mem_range'_1.mp hc
        omega
      have hblock := hesc.block_eq b hb hnot
      rw [block_por_block_self _ _ hb, hmod] at hblock
      have hm : marcado v1.bmap (SFS_DATA_START + n) := by
        rw [← hv1]
        exact marcado_tomou_self hn _
      rw [hblock, hesc.dado_eq _ hm, ← hv1]
      refine ⟨by unfold SFS_DATA_START; omega, ?_⟩
      change update v.dado (SFS_DATA_START + n) _ (SFS_DATA_START + n) = _
      rw [update_self, List.take_eq_take_iff.mpr]
      rw [List.length_drop]
      unfold SETOR_SIZE
      omega
    · exact ih (by omega) _ rfl v1 hall (by omega)

theorem ofFn_bloco_de {c : List UInt8} {t : Nat} (ht : t ≤ c.length) (h : t ≤ SETOR_SIZE) :
    (List.ofFn (bloco_de c)).take t = c.take t := by
  refine List.ext_getElem (by simp; omega) fun i h1 _ => ?_
  have hi : i < t := by
    rw [List.length_take] at h1
    omega
  rw [List.getElem_take, List.getElem_take, List.getElem_ofFn]
  exact List.getD_eq_getElem _ _ (by omega : i < c.length)

/-- A read of blocks that hold the pieces of `buf` gives its beginning. -/
theorem read_laco_dados (in_ : Inode) {to_read : Nat} (hto : to_read ≤ buf.length)
    (hlen : buf.length ≤ 10 * 512)
    (hb : ∀ b < 10, 512 * b < buf.length → inode_block in_ b ≠ 0 ∧
      v.dado (inode_block in_ b) = bloco_de ((buf.drop (512 * b)).take 512))
    {k m : Nat} (hkm : k + m = 10) :
    v.read_laco in_ to_read (List.range' k m) (buf.take (min (512 * k) to_read)) =
      buf.take to_read := by
  induction m generalizing k with
  | zero =>
    have : min (512 * k) to_read = to_read := by omega
    rw [this]
    rfl
  | succ m ih =>
    have hl : (buf.take (min (512 * k) to_read)).length = min (512 * k) to_read := by
      rw [List.length_take]
      omega
    rw [List.range'_succ, Volume.read_laco, hl]
    split
    · rename_i h
      have : min (512 * k) to_read = to_read := by omega
      rw [this]
    · rename_i h
      obtain ⟨h0, hd⟩ := hb k (by omega) (by omega)
      have hk : min (512 * k) to_read = 512 * k := by omega
      rw [if_neg h0, hd, hk]
      have hc : ((buf.drop (512 * k)).take 512).length = min 512 (buf.length - 512 * k) := by
        rw [List.length_take, List.length_drop]
      rw [ofFn_bloco_de (by rw [hc]; unfold SETOR_SIZE; omega) (Nat.min_le_right _ _),
        List.take_take, ← List.take_add]
      have : 512 * k + min (min (to_read - 512 * k) SETOR_SIZE) 512 = min (512 * (k + 1)) to_read := by
        unfold SETOR_SIZE
        omega
      rw [this]
      exact ih (by omega)

/-- What a read finds in the file that a write has just filled. -/
theorem read_enche {i q : Nat} {path : List UInt8} (ht : inode_type (v.ino i) = 1)
    (hall : (v.enche i buf).1 = buf.length) (hlen : buf.length ≤ 10 * 512)
    (hr : (v.enche i buf).2.resolve path = some (i, q)) (max : Nat) :
    (v.enche i buf).2.read path max = some (buf.take max) := by
  have hino : (v.enche i buf).2.ino i = (Volume.write_laco buf (List.range 10)
      (inode_por_size (v.ino i) buf.length) 0 v).1.1 := by
    rw [enche_ino, update_self]
  have hesc := escrito_write_laco buf (l := List.range 10)
    (fun b hb => List.mem_range.mp hb) (inode_por_size (v.ino i) buf.length) 0 v
  have hsize : inode_size ((v.enche i buf).2.ino i) = buf.length := by
    rw [hino, hesc.size_eq, size_por_size, Nat.mod_eq_of_lt (by omega)]
  have hdado : (v.enche i buf).2.dado = (Volume.write_laco buf (List.range 10)
      (inode_por_size (v.ino i) buf.length) 0 v).2.dado := rfl
  have hrange : List.range 10 = List.range' 0 10 := List.range_eq_range'
  unfold Volume.read
  rw [hr]
  dsimp only
  rw [if_neg (by rw [enche_type, ht]; decide), hsize]
  congr 1
  have hmin : buf.take max = buf.take (min buf.length max) := by
    rw [List.take_eq_take_iff]
    omega
  have h := read_laco_dados (v := (v.enche i buf).2) ((v.enche i buf).2.ino i)
    (Nat.min_le_left buf.length max) hlen (fun b hb hlt => ?_)
    (k := 0) (m := 10) rfl
  · rw [hmin, hrange]
    rw [Nat.mul_zero, Nat.zero_min, List.take_zero] at h
    exact h
  · rw [hino, hdado, hrange]
    exact write_laco_dados (k := 0) rfl _ (by simp) v (by rw [← hrange]; exact hall) (Nat.zero_le _)
      hb hlt

end Dados

/-! ## A new file and its name -/

/-- There is room for an entry at place `b` of the directory. -/
def Vago (v : Volume) (dir : Inode) (b : Nat) : Prop :=
  if inode_block dir b = 0 then ∃ n < BMAP_BITS, v.bmap n = false
  else Volume.vaga (v.dado (inode_block dir b)) ≠ none

/-- The directory `q` has room for the name. -/
structure Cabe (v : Volume) (q : Nat) (name : List UInt8) : Prop where
  nome : name.length ≤ SFS_NAME_MAX
  dir : inode_type (v.ino q) = 2
  tamanho : inode_size (v.ino q) + 32 < 2 ^ 32
  lugar : ∃ b < 10, (∀ c < b, Cheio v (v.ino q) c) ∧ Vago v (v.ino q) b

section Nomeia

variable {v v1 : Volume} {q i : Nat} {name : List UInt8}

theorem Igual.cheio {c : Nat} (h : Igual v v1 q) (hc : c < 10) :
    Cheio v1 (v1.ino q) c ↔ Cheio v (v.ino q) c := by
  unfold Cheio
  rw [h.ino]
  by_cases h0 : inode_block (v.ino q) c = 0
  · simp [h0]
  · rw [h.dado c hc h0]

theorem Igual.vago {b : Nat} (h : Igual v v1 q) (hbmap : ∀ n < BMAP_BITS, v1.bmap n = v.bmap n)
    (hb : b < 10) : Vago v1 (v1.ino q) b ↔ Vago v (v.ino q) b := by
  unfold Vago
  rw [h.ino]
  split
  · exact exists_congr fun n => and_congr_right fun hn => by rw [hbmap n hn]
  · rename_i h0
    rw [h.dado b hb h0]

theorem Igual.cabe (h : Igual v v1 q) (hbmap : ∀ n < BMAP_BITS, v1.bmap n = v.bmap n) :
    Cabe v1 q name ↔ Cabe v q name := by
  have hl : (∃ b < 10, (∀ c < b, Cheio v1 (v1.ino q) c) ∧ Vago v1 (v1.ino q) b) ↔
      ∃ b < 10, (∀ c < b, Cheio v (v.ino q) c) ∧ Vago v (v.ino q) b :=
    exists_congr fun b => and_congr_right fun hb => and_congr
      (forall_congr' fun c => imp_congr_right fun hc => h.cheio (Nat.lt_trans hc hb))
      (h.vago hbmap hb)
  constructor
  · rintro ⟨h1, h2, h3, h4⟩
    rw [h.ino] at h2 h3
    exact ⟨h1, h2, h3, hl.mp h4⟩
  · rintro ⟨h1, h2, h3, h4⟩
    rw [← h.ino] at h2 h3
    exact ⟨h1, h2, h3, hl.mpr h4⟩

/-- `dir_add_entry` fails only where there is no room. -/
theorem not_lugar {v : Volume} {dir : Inode} (h : (∀ b ∈ List.range 10, Cheio v dir b) ∨
    ∃ pre b post, List.range 10 = pre ++ b :: post ∧ (∀ c ∈ pre, Cheio v dir c) ∧
      inode_block dir b = 0 ∧ ∀ n < BMAP_BITS, v.bmap n = true) :
    ¬ ∃ b < 10, (∀ c < b, Cheio v dir c) ∧ Vago v dir b := by
  rintro ⟨b, hb, hpre, hv⟩
  have hcheio : ¬ Cheio v dir b := fun hc => by
    unfold Vago at hv
    rw [if_neg hc.1] at hv
    exact hv hc.2
  rcases h with h | ⟨pre, b', post, hr, hpre', h0, hfull⟩
  · exact hcheio (h b (List.mem_range.mpr hb))
  · rw [range_append_cons hr] at hpre'
    rcases Nat.lt_trichotomy b b' with hlt | rfl | hgt
    · exact hcheio (hpre' b (List.mem_range.mpr hlt))
    · unfold Vago at hv
      rw [if_pos h0] at hv
      obtain ⟨n, hn, hfree⟩ := hv
      rw [hfull n hn] at hfree
      exact absurd hfree (by decide)
    · exact (hpre b' hgt).1 h0

theorem lugar_de_abre {v w : Volume} {dir dir' : Inode} {b s e : Nat} {dblk : Setor}
    (ha : v.abre_bloco dir b = (some (s, dir', dblk), w)) (hv : Volume.vaga dblk = some e) :
    Vago v dir b := by
  unfold Vago
  rcases Volume.abre_bloco_cases ha with ⟨h0, n, hn, hfree, _⟩ | ⟨h0, _, _, rfl, _⟩
  · rw [if_pos h0]
    exact ⟨n, hn, hfree⟩
  · rw [if_neg h0, hv]
    exact Option.some_ne_none e

/-- A search in a directory whose size has wrapped to zero finds nothing. -/
theorem entra_vazio (h : inode_size (v.ino q) / 32 = 0) (tok : List UInt8) : v.entra q tok = none := by
  unfold Volume.entra
  rw [h]
  split <;> rfl

/-- `dir_add_entry` changes no inode but the directory, and none of its blocks. -/
theorem igual_dir_add (i : Nat) (name : List UInt8) (hc : Coeso v) (hq : q < SFS_INODE_MAX)
    (hu : v.imap q = true) {j : Nat} (hj : j < SFS_INODE_MAX) (huj : v.imap j = true) (hjq : j ≠ q) :
    Igual v (v.dir_add_entry q i name).2 j := by
  unfold Volume.dir_add_entry
  rcases dir_add_laco_cases q i name (List.range 10) (v.ino q) v with ⟨he, _⟩ |
    ⟨pre, b, post, s, dir', dblk, w, e, hr, _, ha, _, he⟩
  · rw [he]
    exact ⟨rfl, fun _ _ _ => rfl⟩
  · have hb : b < 10 := List.mem_range.mp (by rw [hr]; simp)
    rw [he]
    exact (coeso_abre_bloco hc hq hu hb ha).igual hq hu hb hj huj hjq

/-- What the searches give after `dir_add_entry` of a name that the directory did not have. -/
theorem entra_dir_add (hc : Coeso v) (hl : Legivel v) (hq : q < SFS_INODE_MAX)
    (hu : v.imap q = true) (hi : i < SFS_INODE_MAX) (hi0 : i ≠ 0) (h0 : 0 ∉ name)
    (hnone : v.entra q name = none) :
    (Cabe v q name → (v.dir_add_entry q i name).2.entra q name = some i) ∧
    (¬ Cabe v q name → (v.dir_add_entry q i name).2.entra q name = none) := by
  unfold Volume.dir_add_entry
  rcases dir_add_laco_cases q i name (List.range 10) (v.ino q) v with ⟨he, hf⟩ |
    ⟨pre, b, post, s, dir', dblk, w, e, hr, hpre, ha, hv, he⟩
  · rw [he]
    exact ⟨fun h => absurd h.lugar (not_lugar hf), fun _ => hnone⟩
  · have hb : b < 10 := List.mem_range.mp (by rw [hr]; simp)
    rw [range_append_cons hr] at hpre
    have hpre : ∀ c < b, Cheio v (v.ino q) c := fun c hcb => hpre c (List.mem_range.mpr hcb)
    have hab := coeso_abre_bloco hc hq hu hb ha
    have he16 := (vaga_some _ hv).1
    rw [he]
    refine ⟨fun h => ?_, fun h => ?_⟩
    · have hl' := legivel_entrou name hl hab hq hu hb hpre he16 hv hi fun _ => h.tamanho
      have := entra_entrou hl hab hq hu h.dir hb he16 hl' hi hi0 h0 hnone
      rwa [if_pos h.nome] at this
    · change (w.entrou q s dir' dblk e i name).entra q name = none
      by_cases ht : inode_type (v.ino q) = 2
      · by_cases hs : inode_size (v.ino q) + 32 < 2 ^ 32
        · have hl' := legivel_entrou name hl hab hq hu hb hpre he16 hv hi fun _ => hs
          have := entra_entrou hl hab hq hu ht hb he16 hl' hi hi0 h0 hnone
          rwa [if_neg fun hlen => h ⟨hlen, ht, hs, b, hb, hpre, lugar_de_abre ha hv⟩] at this
        · refine entra_vazio ?_ name
          have := ByteStr.word_lt (v.ino q) 4
          change inode_size (v.ino q) < 2 ^ 32 at this
          rw [hab.size]
          omega
      · refine entra_arquivo ?_ name
        rw [hab.type]
        exact ht

/-- What `cria` does where it returns an inode, and what the searches give then. -/
theorem entra_cria {v2 : Volume} {t ticks : Nat} (hc : Coeso v) (hl : Legivel v)
    (hq : q < SFS_INODE_MAX) (hu : v.imap q = true) (ht : t = 1 ∨ t = 2) (h0 : 0 ∉ name)
    (hnone : v.entra q name = none) (h : v.cria q name t ticks = (some i, v2)) :
    (∀ j < SFS_INODE_MAX, v.imap j = true → j ≠ i) ∧
    (∀ j < SFS_INODE_MAX, v.imap j = true → v2.imap j = true) ∧
    (∀ j < SFS_INODE_MAX, v.imap j = true → j ≠ q → Igual v v2 j) ∧
    (Cabe v q name → v2.entra q name = some i) ∧ (¬ Cabe v q name → v2.entra q name = none) := by
  unfold Volume.cria at h
  rcases hx : v.alloc_inode with ⟨_ | k, v1⟩
  · rw [hx] at h
    cases h
  rw [hx] at h
  cases h
  obtain ⟨⟨h1, hi⟩, hfree, himap, _, _, hbmap⟩ := alloc_inode_some hx
  have hne : ∀ j < SFS_INODE_MAX, v.imap j = true → j ≠ i := by
    rintro j _ hj rfl
    rw [hfree] at hj
    exact absurd hj (by decide)
  have huso : ∀ j < SFS_INODE_MAX, v.imap j = true →
      (v1.por_ino i (inode_novo t ticks)).imap j = true := fun j hj huj => by
    change v1.imap j = true
    rw [himap, update_of_ne (hne j hj huj)]
    exact huj
  have hig : ∀ j < SFS_INODE_MAX, v.imap j = true →
      Igual v (v1.por_ino i (inode_novo t ticks)) j := fun j hj huj => igual_novo hx (hne j hj huj)
  have hcabe : Cabe (v1.por_ino i (inode_novo t ticks)) q name ↔ Cabe v q name :=
    (hig q hq hu).cabe fun n _ => congrFun hbmap n
  obtain ⟨g2, g3⟩ := entra_dir_add (coeso_novo _ hc hx ht) (legivel_novo hc hl hx) hq
    (huso q hq hu) hi (by omega) h0 (by rw [(hig q hq hu).entra]; exact hnone)
  refine ⟨hne, fun j hj huj => ?_, fun j hj huj hjq => ?_, fun hcb => g2 (hcabe.mpr hcb),
    fun hcb => g3 fun h => hcb (hcabe.mp h)⟩
  · rw [(dir_add_entry_rest _ q i name).1]
    exact huso j hj huj
  · exact (hig j hj huj).trans (igual_dir_add _ _ (coeso_novo _ hc hx ht) hq (huso q hq hu) hj
      (huso j hj huj) hjq)

end Nomeia

/-! ## A read right after a write -/

section ReadBack

variable {v v' : Volume} {path buf : List UInt8} {ticks : Nat}

theorem read_none (h : v.resolve path = none) (max : Nat) : v.read path max = none := by
  unfold Volume.read
  rw [h]

theorem zero_nao_no_nome (h : 0 ∉ path) : 0 ∉ (path_split path).2 := by
  rcases path_split_cases path with ⟨_, hs⟩ | ⟨a, b, hp, _, hs⟩
  · rw [hs]
    exact h
  · rw [hs]
    rw [hp] at h
    exact fun hm => h (List.mem_append_right _ (List.mem_cons_of_mem _ hm))

/-- A file emptied and filled again is read back: no search has changed. -/
theorem read_after_overwrite {i r : Nat} (hc : Coeso v) (hr : v.resolve path = some (i, r))
    (ht : inode_type (v.ino i) = 1) (hall : ((v.esvazia i).enche i buf).1 = buf.length)
    (hbuf : buf.length ≤ 10 * 512) (max : Nat) :
    ((v.esvazia i).enche i buf).2.read path max = some (buf.take max) := by
  obtain ⟨⟨hi, hu⟩, _⟩ := hc.navegavel.resolve hr
  have hce := coeso_esvazia hc hi hu
  have hentra : ∀ j < SFS_INODE_MAX, v.imap j = true → ∀ tok,
      ((v.esvazia i).enche i buf).2.entra j tok = v.entra j tok := fun j hj huj tok => by
    by_cases hji : j = i
    · have hold : v.entra i tok = none := entra_arquivo (by rw [ht]; decide) tok
      rw [hji, hold]
      refine entra_arquivo ?_ tok
      rw [enche_type, esvazia_type, ht]
      decide
    · exact ((igual_esvazia hji).trans (igual_enche hce hj
        (by rw [(esvazia_rest v i).1]; exact huj) hji)).entra tok
  have hr' : ((v.esvazia i).enche i buf).2.resolve path = some (i, r) :=
    (caminho_congr hc hentra _ 0 ⟨by decide, hc.raiz⟩).trans hr
  exact read_enche (by rw [esvazia_type]; exact ht) hall hbuf hr' max

/-- A new file is read back exactly when there was room for its name. -/
theorem read_after_create {v2 : Volume} {q i : Nat} (hc : Coeso v) (hl : Legivel v)
    (hp : Caminho path) (hn : (path_split path).2 ≠ [])
    (hq : v.parent_find (path_split path).1 = some q) (hr : v.resolve path = none)
    (hx : v.cria q (path_split path).2 1 ticks = (some i, v2))
    (hall : (v2.enche i buf).1 = buf.length) (hbuf : buf.length ≤ 10 * 512) :
    (∀ max, (v2.enche i buf).2.read path max = some (buf.take max)) ↔
      Cabe v q (path_split path).2 := by
  obtain ⟨hq1, hq2⟩ := hc.navegavel.parent_find hq
  have hnone : v.entra q (path_split path).2 = none := by
    have hres := resolve_parent v hp.1 hn
    rw [hr, hq, Option.bind_some] at hres
    exact Option.map_eq_none_iff.mp hres.symm
  obtain ⟨g1, g2⟩ := coeso_cria hc hq1 hq2 (path_split path).2 (t := 1) (Or.inl rfl) ticks
  rw [hx] at g1 g2
  obtain ⟨hi, hui, hino⟩ := g2 i rfl
  obtain ⟨k1, k2, k3, k4, k5⟩ := entra_cria hc hl hq1 hq2 (Or.inl rfl) (zero_nao_no_nome hp.2) hnone hx
  have hqi : Igual v2 (v2.enche i buf).2 q := igual_enche g1 hq1 (k2 q hq1 hq2) (k1 q hq1 hq2)
  have hr' := resolve_depois (v2.enche i buf).2 hc hp.1 hn hq fun j hj huj hjq tok =>
    ((k3 j hj huj hjq).trans (igual_enche g1 hj (k2 j hj huj) (k1 j hj huj))).entra tok
  rw [hqi.entra] at hr'
  by_cases hcabe : Cabe v q (path_split path).2
  · rw [k4 hcabe] at hr'
    have ht : inode_type (v2.ino i) = 1 := by rw [hino, type_novo]
    exact ⟨fun _ => hcabe, fun _ max => read_enche ht hall hbuf hr' max⟩
  · rw [k5 hcabe] at hr'
    refine ⟨fun h => ?_, fun h => absurd h hcabe⟩
    have := h 0
    rw [read_none hr'] at this
    cases this

/-- A write that takes all its data, to a path that leads to no directory, is read back exactly
when the path led to a file or there was room for the name. -/
theorem read_after_write (hc : Coeso v) (hl : Legivel v) (hp : Caminho path)
    (hn : (path_split path).2 ≠ []) (hd : ∀ i q, v.resolve path = some (i, q) →
      inode_type (v.ino i) = 1) (hw : v.write path buf ticks = (some buf.length, v')) :
    (∀ max, v'.read path max = some (buf.take max)) ↔
      (v.resolve path = none → ∃ q, v.parent_find (path_split path).1 = some q ∧
        Cabe v q (path_split path).2) := by
  unfold Volume.write at hw
  split at hw
  · cases hw
  rename_i hbuf
  have hbuf : buf.length ≤ 10 * 512 := by omega
  cases hq : v.parent_find (path_split path).1 with
  | none =>
    rw [hq] at hw
    cases hw
  | some q =>
    rw [hq] at hw
    unfold Volume.write_inode at hw
    cases hr : v.resolve path with
    | some x =>
      rw [hr] at hw
      obtain ⟨hall, rfl⟩ := Prod.mk.inj hw
      exact ⟨fun _ h => (Option.some_ne_none _ h).elim,
        fun _ => read_after_overwrite hc hr (hd x.1 x.2 hr) (Option.some.inj hall) hbuf⟩
    | none =>
      rw [hr] at hw
      dsimp only at hw
      rcases hx : v.cria q (path_split path).2 1 ticks with ⟨_ | i, v2⟩
      · rw [hx] at hw
        cases hw
      rw [hx] at hw
      obtain ⟨hall, rfl⟩ := Prod.mk.inj hw
      rw [read_after_create hc hl hp hn hq hr hx (Option.some.inj hall) hbuf]
      refine ⟨fun h _ => ⟨q, rfl, h⟩, fun h => ?_⟩
      obtain ⟨q', hq', hcb⟩ := h rfl
      cases hq'
      exact hcb

end ReadBack

/-! ## The law -/

/-- The volume that the caches and the disk show. -/
def lido (m : Mem) (d : Disco) : Volume where
  imap := bm_test m.fs.imap
  bmap := bm_test m.fs.bmap
  ino := ino d
  dado := d
  free_inodes := super_free_inodes m.fs.sb
  free_blocks := super_free_blocks m.fs.sb

/-- The inode that the part of a path before its last slash leads to. -/
def pai (m : Mem) (d : Disco) (path : List UInt8) : Option Nat :=
  if (path_split path).1 = [] then some 0 else acha m d (path_split path).1

/-- The call spares the directories, and no directory that it adds an entry to is so old that its
size would overflow. -/
def Guarda (m : Mem) (d : Disco) (c : Chamada) : Prop :=
  Poupa m d c ∧
    match c with
    | .write path _ _ => acha m d path = none →
      ∀ q, pai m d path = some q → CabeNoTamanho (lido m d) q
    | .mkdir path _ => ∀ q, pai m d path = some q → CabeNoTamanho (lido m d) q
    | .unlink _ => True

section Law

variable {m : Mem} {d : Disco} {v : Volume} {path : List UInt8}

theorem igual_lido (hv : Vivo m d v) (hc : Coeso v) {q : Nat} (hq : q < SFS_INODE_MAX)
    (hu : v.imap q = true) : Igual v (lido m d) q where
  ino := hv.rep.ino q hq
  dado := fun b hb h0 => hv.rep.dado _ (hc.posse.bons hq hu b hb h0)

theorem pai_eq (hv : Vivo m d v) (hc : Coeso v) (path : List UInt8) :
    pai m d path = v.parent_find (path_split path).1 := by
  unfold pai Volume.parent_find
  rw [acha_eq hv hc.navegavel]

theorem acha_none_iff (hv : Vivo m d v) (hc : Coeso v) (path : List UInt8) :
    acha m d path = none ↔ v.resolve path = none := by
  rw [acha_eq hv hc.navegavel]
  exact Option.map_eq_none_iff

theorem cabe_no_tamanho_lido (hv : Vivo m d v) (hc : Coeso v) {q : Nat}
    (hq : v.parent_find (path_split path).1 = some q) (h : CabeNoTamanho (lido m d) q) :
    CabeNoTamanho v q := by
  obtain ⟨hq1, hq2⟩ := hc.navegavel.parent_find hq
  unfold CabeNoTamanho at h ⊢
  rwa [(igual_lido hv hc hq1 hq2).ino] at h

theorem Guarda.legivel {c : Chamada} (hv : Vivo m d v) (hc : Coeso v) (hl : Legivel v)
    (hg : Guarda m d c) : Legivel (c.no_volume v) := by
  obtain ⟨hp, hs⟩ := hg
  cases c with
  | write path buf ticks =>
    refine legivel_write hc hl ticks (fun i p hr => ?_) fun hr q hq => ?_
    · obtain ⟨⟨hi, _⟩, _⟩ := hc.navegavel.resolve hr
      by_cases ht : inode_type (v.ino i) = 2
      · refine Or.inr (hp i ?_ (by rw [hv.rep.ino i hi]; exact ht))
        rw [acha_eq hv hc.navegavel, hr]
        rfl
      · exact Or.inl ht
    · exact cabe_no_tamanho_lido hv hc hq
        (hs ((acha_none_iff hv hc path).mpr hr) q (by rw [pai_eq hv hc, hq]))
  | mkdir path ticks =>
    exact legivel_mkdir hc hl path ticks fun q hq =>
      cabe_no_tamanho_lido hv hc hq (hs q (by rw [pai_eq hv hc, hq]))
  | unlink path =>
    refine legivel_unlink hc hl fun i p hr h0 => hp ?_
    rw [acha_eq hv hc.navegavel, hr, h0]
    rfl

theorem sem_entrada_novo (hr : ino d 0 = inode_novo 2 0) {i b e c : Nat} :
    ¬ Entrada (Volume.novo d) i b e c := fun h => by
  have hi : i = 0 := of_decide_eq_true h.uso
  have hb := h.bloco
  rw [hi] at hb
  change inode_block (ino d 0) b ≠ 0 at hb
  rw [hr] at hb
  exact hb (block_novo _ _ h.lugar)

theorem legivel_novo_volume (hr : ino d 0 = inode_novo 2 0) : Legivel (Volume.novo d) :=
  ⟨fun h => absurd h (sem_entrada_novo hr), fun h => absurd h (sem_entrada_novo hr),
    fun h => absurd h (sem_entrada_novo hr)⟩

/-- The invariant of a run that guards the directories. -/
theorem Alcanca.legivel (h : Alcanca SemResto Guarda m d) :
    ∃ v, Vivo m d v ∧ Coeso v ∧ Legivel v :=
  h.invariante (fun _ hr => ⟨coeso_novo_volume hr, legivel_novo_volume hr⟩)
    (fun _ hc => ⟨_, hc.1.navegavel⟩) fun hv hc _ hp =>
      ⟨Poupa.coeso hv hc.1 hp.1, Guarda.legivel hv hc.1 hc.2 hp⟩

/-- In every run that guards the directories, a write that takes all its data, to a path that
leads to no directory, is read back exactly when the path led to a file or the directory before
its last slash had room for the name. -/
theorem a_write_is_read_back_iff (h : Alcanca SemResto Guarda m d) {buf : List UInt8} {ticks : Nat}
    (hp : Caminho path) (hn : (path_split path).2 ≠ []) {m1 : Mem} {d1 : Disco}
    (hw : ((pelo_journal (spfs_write path buf ticks)).run m).exec d =
      some ((some buf.length, m1), d1))
    (hd : ∀ i, acha m d path = some i → inode_type (ino d i) = 1) :
    (∀ max, ∃ m2 d2, ((pelo_journal (spfs_read path max)).run m1).exec d1 =
      some ((some (buf.take max), m2), d2)) ↔
    (acha m d path = none → ∃ q, pai m d path = some q ∧
      Cabe (lido m d) q (path_split path).2) := by
  obtain ⟨v, hv, hc, hl⟩ := h.legivel
  have hfile : ∀ i q, v.resolve path = some (i, q) → inode_type (v.ino i) = 1 := fun i q hr => by
    obtain ⟨⟨hi, _⟩, _⟩ := hc.navegavel.resolve hr
    rw [← hv.rep.ino i hi]
    refine hd i ?_
    rw [acha_eq hv hc.navegavel, hr]
    rfl
  obtain ⟨m', d', he, hv'⟩ := (refina_spfs_write hc.navegavel path buf ticks).pelo_journal hv
  rw [he] at hw
  cases hvol : v.write path buf ticks with
  | mk ret v' =>
    rw [hvol] at hw hv'
    cases hw
    have hc' : Coeso v' := by
      have := coeso_write hc path buf ticks fun i q hr => Or.inl (by
        rw [hfile i q hr]
        decide)
      rwa [hvol] at this
    have hread : ∀ max, (∃ m2 d2, ((pelo_journal (spfs_read path max)).run m1).exec d1 =
        some ((some (buf.take max), m2), d2)) ↔ v'.read path max = some (buf.take max) :=
      fun max => by
        obtain ⟨m2, d2, he2, _⟩ := (refina_spfs_read hc'.navegavel path max).pelo_journal hv'
        constructor
        · rintro ⟨m3, d3, he3⟩
          rw [he2] at he3
          exact congrArg (fun r => r.1.1) (Option.some.inj he3)
        · intro hr
          dsimp only at he2
          rw [hr] at he2
          exact ⟨m2, d2, he2⟩
    rw [forall_congr' hread, read_after_write hc hl hp hn hfile hvol, acha_none_iff hv hc,
      pai_eq hv hc]
    refine imp_congr_right fun _ => exists_congr fun q => and_congr_right fun hq => ?_
    obtain ⟨hq1, hq2⟩ := hc.navegavel.parent_find hq
    exact ((igual_lido hv hc hq1 hq2).cabe fun n hn => hv.rep.bmap n hn).symm

end Law

/-! ## A first file -/

section Primeiro

variable {v : Volume} {path : List UInt8}

/-- The blocks of an empty volume after the first entry: at most one is taken. -/
theorem livre_depois_da_entrada (hb : ∀ n, v.bmap n = false) (p child : Nat) (name : List UInt8) :
    ∃ n < BMAP_BITS, (v.dir_add_entry p child name).2.bmap n = false := by
  have hlt : 1 < BMAP_BITS := by
    rw [BMAP_BITS_eq]
    decide
  unfold Volume.dir_add_entry
  rcases dir_add_laco_cases p child name (List.range 10) (v.ino p) v with ⟨he, _⟩ |
    ⟨pre, b, post, s, dir', dblk, w, e, _, _, ha, _, he⟩
  · rw [he]
    exact ⟨0, by omega, hb 0⟩
  · rw [he]
    change ∃ n < BMAP_BITS, w.bmap n = false
    rcases Volume.abre_bloco_cases ha with ⟨_, n, _, _, _, _, _, rfl⟩ | ⟨_, _, _, _, rfl⟩
    · by_cases hn : n = 0
      · exact ⟨1, hlt, (update_of_ne (by omega) _ _).trans (hb 1)⟩
      · exact ⟨0, by omega, (update_of_ne (Ne.symm hn) _ _).trans (hb 0)⟩
    · exact ⟨0, by omega, hb 0⟩

theorem write_laco_fim {buf : List UInt8} {l : List Nat} {x : Inode} {done : Nat}
    (h : buf.length ≤ done) (v : Volume) :
    Volume.write_laco buf l x done v = ((x, done), v) := by
  cases l with
  | nil => rfl
  | cons b l => rw [Volume.write_laco, if_pos h]

/-- One byte fits where one block is free. -/
theorem enche_um {c : UInt8} (h : ∃ n < BMAP_BITS, v.bmap n = false) (i : Nat) :
    (v.enche i [c]).1 = 1 := by
  change (Volume.write_laco [c] (0 :: List.range' 1 9) _ 0 v).1.2 = 1
  rcases write_laco_cons [c] 0 (List.range' 1 9) (inode_por_size (v.ino i) [c].length) 0 v with
    ⟨_, h1 | hall⟩ | ⟨_, n, _, _, he⟩
  · exact absurd h1 (Nat.not_succ_le_zero 0)
  · obtain ⟨n, hn, hfree⟩ := h
    rw [hall n hn] at hfree
    exact absurd hfree (by decide)
  · rw [he, write_laco_fim (Nat.le_refl 1)]
    rfl

/-- The first file of an empty volume, one byte long: nothing is there before, and the write
takes the byte. -/
theorem primeiro_write (path : List UInt8) (hi : ∀ i, v.imap i = decide (i = 0))
    (hb : ∀ n, v.bmap n = false) (hr : v.ino 0 = inode_novo 2 0) (hs : BARRA ∉ path)
    (hn : path ≠ []) (hlen : path.length ≤ 127) (c : UInt8) :
    v.resolve path = none ∧ (v.write path [c] 0).1 = some 1 := by
  have hsplit : path_split path = ([], path) := by
    rcases path_split_cases path with ⟨_, h⟩ | ⟨a, b, hp, _⟩
    · exact h
    · exact absurd (hp ▸ List.mem_append_right a List.mem_cons_self) hs
  have hp : v.parent_find (path_split path).1 = some 0 := by
    rw [hsplit]
    rfl
  have hres : v.resolve path = none := by
    rw [resolve_parent v hlen (by rw [hsplit]; exact hn), hp, Option.bind_some,
      entra_vazio (by rw [hr, size_novo])]
    rfl
  refine ⟨hres, ?_⟩
  unfold Volume.write
  rw [if_neg (show ¬ 10 * 512 < [c].length by rw [List.length_singleton]; decide), hp]
  dsimp only
  unfold Volume.write_inode
  rw [hres]
  dsimp only
  unfold Volume.cria
  rcases hx : v.alloc_inode with ⟨_ | i, v1⟩
  · rcases v.alloc_inode_cases with ⟨hf, _⟩ | ⟨j, _, _, _, _, he⟩
    · have := List.find?_eq_none.mp hf 1 (by decide)
      rw [hi] at this
      exact absurd this (by decide)
    · rw [he] at hx
      cases hx
  · obtain ⟨_, _, _, _, _, hbmap⟩ := alloc_inode_some hx
    refine congrArg some (enche_um (livre_depois_da_entrada (fun n => ?_) 0 i _) i)
    change v1.bmap n = false
    rw [hbmap, hb]

end Primeiro

/-- The write of a first file under a name of 28 bytes takes its byte, and the read that follows
fails. -/
theorem a_long_name_is_not_read_back : ¬ ∀ m d, Alcanca (fun _ => True) (fun _ _ _ => True) m d →
    ∀ path buf ticks m1 d1, Caminho path → (path_split path).2 ≠ [] → buf.length ≤ 5120 →
      ((pelo_journal (spfs_write path buf ticks)).run m).exec d =
        some ((some buf.length, m1), d1) →
      ∀ max, ∃ m2 d2, ((pelo_journal (spfs_read path max)).run m1).exec d1 =
        some ((some (buf.take max), m2), d2) := by
  intro h
  obtain ⟨m, d, ha, hv, hr⟩ := alcanca_vazio (fun _ _ => trivial) fun _ _ _ => True
  have hc := coeso_novo_volume hr
  have hcam : Caminho (List.replicate 28 97) := by
    unfold Caminho
    decide
  have hn : (path_split (List.replicate 28 97)).2 ≠ [] := by decide
  obtain ⟨hres, hone⟩ := primeiro_write (List.replicate 28 97)
    (v := Volume.novo d) (fun _ => rfl) (fun _ => rfl) hr (by decide) (by decide) (by decide) 65
  obtain ⟨m1, d1, he, hv1⟩ := (refina_spfs_write hc.navegavel _ [65] 0).pelo_journal hv
  rw [hone] at he
  obtain ⟨m2, d2, hread⟩ := h m d ha _ [65] 0 m1 d1 hcam hn (by decide) he 0
  have hfile : ∀ i q, (Volume.novo d).resolve (List.replicate 28 97) = some (i, q) →
      inode_type ((Volume.novo d).ino i) = 1 := fun i q hx => by
    rw [hres] at hx
    cases hx
  have hback := read_after_write hc (legivel_novo_volume hr) hcam hn hfile
    (show (Volume.novo d).write (List.replicate 28 97) [65] 0 = (some 1, _) from
      Prod.ext hone rfl)
  have hc1 := coeso_write hc (List.replicate 28 97) [65] 0 fun i q hx => Or.inl (by
    rw [hfile i q hx]
    decide)
  have hall : ∀ max, ((Volume.novo d).write (List.replicate 28 97) [65] 0).2.read
      (List.replicate 28 97) max = some (List.take max [65]) := fun max => by
    obtain ⟨m3, d3, hread⟩ := h m d ha _ [65] 0 m1 d1 hcam hn (by decide) he max
    obtain ⟨m4, d4, he4, _⟩ := (refina_spfs_read hc1.navegavel _ max).pelo_journal hv1
    rw [he4] at hread
    exact congrArg (fun r => r.1.1) (Option.some.inj hread)
  obtain ⟨q, _, hcabe⟩ := hback.mp hall hres
  exact absurd hcabe.nome (by decide)

/-- The law at a first file of one byte under the name `a`. -/
theorem a_first_file_is_read_back : ∃ m d m1 d1, Alcanca SemResto Guarda m d ∧
    ((pelo_journal (spfs_write [97] [65] 0)).run m).exec d = some ((some 1, m1), d1) ∧
    ∀ max, ∃ m2 d2, ((pelo_journal (spfs_read [97] max)).run m1).exec d1 =
      some ((some ([65].take max), m2), d2) := by
  obtain ⟨m, d, ha, hv, hr⟩ := alcanca_vazio (fun _ h => h) Guarda
  have hc := coeso_novo_volume hr
  obtain ⟨hres, hone⟩ := primeiro_write [97] (v := Volume.novo d) (fun _ => rfl)
    (fun _ => rfl) hr
    (by decide) (by decide) (by decide) 65
  obtain ⟨m1, d1, he, _⟩ := (refina_spfs_write hc.navegavel [97] [65] 0).pelo_journal hv
  rw [hone] at he
  have hnone : acha m d [97] = none := (acha_none_iff hv hc _).mpr hres
  have hcabe : Cabe (lido m d) 0 [97] := by
    refine ⟨by decide, ?_, ?_, 0, by decide, fun c hlt => absurd hlt (Nat.not_lt_zero c), ?_⟩
    · change inode_type (ino d 0) = 2
      rw [hr, type_novo]
    · change inode_size (ino d 0) + 32 < 2 ^ 32
      rw [hr, size_novo]
      decide
    · have hz : inode_block ((lido m d).ino 0) 0 = 0 := by
        change inode_block (ino d 0) 0 = 0
        rw [hr, block_novo _ _ (by decide)]
      unfold Vago
      rw [if_pos hz]
      exact ⟨0, by rw [BMAP_BITS_eq]; decide, hv.rep.bmap 0 (by rw [BMAP_BITS_eq]; decide)⟩
  refine ⟨m, d, m1, d1, ha, he, ?_⟩
  refine (a_write_is_read_back_iff ha (show Caminho [97] by unfold Caminho; decide) (by decide) he
    fun i hi => ?_).mpr fun _ => ⟨0, rfl, hcabe⟩
  rw [hnone] at hi
  cases hi

end SpaceOS.SpaceFs
