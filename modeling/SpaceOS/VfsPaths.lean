-- What a path means: the walk over its components, against the two resolvers of kernel/fs/vfs.c.
import SpaceOS.VfsLaws

open Lib.Bytes SpaceOS.Fat32

namespace SpaceOS.Vfs

/-! ## The walk -/

/-- A component that the walk looks up: neither empty nor `.`. -/
def proprio (tok : List UInt8) : Bool := tok ≠ [] && tok ≠ [46]

/-- The walk over the components that are left. A pair is the directory and the name of the last
one, the inner `none` a component on the way that is missing or is no directory, or that there is
no component; the outer `none` is a search that has not ended. -/
def caminha (v : Bpb) (d : Disco) : List (List UInt8) → Nat → Option (Option (Nat × List UInt8))
  | [], _ => some none
  | [tok], cur => some (some (cur, fat32_normalize tok))
  | tok :: toks, cur =>
    (fat32_find v d cur (fat32_normalize tok)).bind fun r =>
      match r with
      | none => some none
      | some e => if is_dir e then caminha v d toks e.cluster else some none

/-- Where a walk starts. -/
def origem (v : Bpb) (cwd : Cwd) (path : List UInt8) : Nat :=
  if path.head? = some BARRA then v.root_cluster else cwd.cluster

def caminho (v : Bpb) (d : Disco) (cwd : Cwd) (path : List UInt8) :
    Option (Option (Nat × List UInt8)) :=
  caminha v d ((path.splitOn BARRA).filter proprio) (origem v cwd path)

/-! ## What a call does to a directory and a name -/

section Em

variable (v : Bpb) (d : Disco)

def open_em : Option (Nat × List UInt8) → Option (Option Entry)
  | none => some none
  | some (p, name11) =>
    (fat32_find v d p name11).map fun fe => fe.map fun e => ⟨is_dir e, e.cluster, e.size⟩

def write_em (buf : List UInt8) : Option (Nat × List UInt8) → Option (Int × Disco)
  | none => some (-1, d)
  | some (p, name11) =>
    (apaga_antigo v d p name11).bind fun d =>
      (fat32_create v d p name11 FAT32_ATTR_ARCHIVE).bind fun (cluster, d) =>
        if cluster = 0 then some (-1, d) else fat32_write_file v d cluster buf

def mkdir_em : Option (Nat × List UInt8) → Option (Int × Disco)
  | none => some (-1, d)
  | some (p, name11) =>
    (fat32_create v d p name11 FAT32_ATTR_DIR).map fun (c, d) => (if c = 0 then -1 else 0, d)

def unlink_em : Option (Nat × List UInt8) → Option (Int × Disco)
  | none => some (-1, d)
  | some (p, name11) => fat32_delete v d p name11

end Em

/-- The directory and the name that the calls take from a path. -/
def alvo (v : Bpb) (d : Disco) (cwd : Cwd) (path : List UInt8) :
    Option (Option (Nat × List UInt8)) :=
  (resolve_pai v d cwd path).map fun (r, p) =>
    if r < 0 then none else some (p, fat32_normalize (path_split_last path).2)

section Alvo

variable {v : Bpb} {d : Disco} {cwd : Cwd} {path : List UInt8}

/-- Each call goes on with what it takes from the path. -/
theorem resolve_pai_bind {β : Type} (f : Option (Nat × List UInt8) → Option β) :
    ((resolve_pai v d cwd path).bind fun (r, p) =>
      if r < 0 then f none else f (some (p, fat32_normalize (path_split_last path).2))) =
      (alvo v d cwd path).bind f := by
  unfold alvo
  cases resolve_pai v d cwd path with
  | none => rfl
  | some r =>
    rw [Option.bind_some, Option.map_some, Option.bind_some]
    dsimp only
    split <;> rfl

theorem vfs_open_alvo (hm : cwd.montado) :
    vfs_open v d cwd path = (alvo v d cwd path).bind (open_em v d) := by
  rw [← resolve_pai_bind, vfs_open, if_pos hm]
  rfl

theorem vfs_write_alvo (hm : cwd.montado) (buf : List UInt8) :
    vfs_write v d cwd path buf = (alvo v d cwd path).bind (write_em v d buf) := by
  rw [← resolve_pai_bind, vfs_write, if_pos hm]
  rfl

theorem vfs_mkdir_alvo (hm : cwd.montado) :
    vfs_mkdir v d cwd path = (alvo v d cwd path).bind (mkdir_em v d) := by
  rw [← resolve_pai_bind, vfs_mkdir, if_pos hm]
  rfl

theorem vfs_unlink_alvo (hm : cwd.montado) :
    vfs_unlink v d cwd path = (alvo v d cwd path).bind (unlink_em v d) := by
  rw [← resolve_pai_bind, vfs_unlink, if_pos hm]
  rfl

end Alvo

/-! ## The two resolvers along the components -/

section Componentes

variable {v : Bpb} {d : Disco}

theorem caminha_cons {tok : List UInt8} {toks : List (List UInt8)} (h : toks ≠ []) (cur : Nat) :
    caminha v d (tok :: toks) cur = (fat32_find v d cur (fat32_normalize tok)).bind fun r =>
      match r with
      | none => some none
      | some e => if is_dir e then caminha v d toks e.cluster else some none := by
  cases toks with
  | nil => exact absurd rfl h
  | cons t toks =>
    rw [caminha]
    simp

/-- The last component of a walk is looked up in what the others lead to. -/
theorem caminha_append {cs : List (List UInt8)} (tok : List UInt8) (hcs : cs ≠ []) (cur : Nat) :
    caminha v d (cs ++ [tok]) cur = (caminha v d cs cur).bind fun r =>
      match r with
      | none => some none
      | some (q, n) => (fat32_find v d q n).map fun r =>
        match r with
        | none => none
        | some e => if is_dir e then some (e.cluster, fat32_normalize tok) else none := by
  induction cs generalizing cur with
  | nil => exact absurd rfl hcs
  | cons c cs ih =>
    rw [List.cons_append, caminha_cons (by simp)]
    by_cases h : cs = []
    · subst h
      rw [caminha, Option.bind_some]
      dsimp only
      rcases fat32_find v d cur (fat32_normalize c) with _ | _ | e
      · rfl
      · rfl
      · rw [Option.bind_some, Option.map_some]
        dsimp only
        split <;> rfl
    · rw [caminha_cons h]
      rcases fat32_find v d cur (fat32_normalize c) with _ | _ | e
      · rfl
      · rfl
      · rw [Option.bind_some, Option.bind_some]
        dsimp only
        split
        · exact ih h e.cluster
        · rfl

theorem proprio_eq_false {tok : List UInt8} : proprio tok = false ↔ tok = [] ∨ tok = [46] := by
  unfold proprio
  by_cases h : tok = [] <;> simp [h]

/-- What `resolve_dir` makes of the components: it walks to the last one and looks it up; a file is
let pass where it is the very last piece of the path. -/
theorem resolve_laco_eq (toks : List (List UInt8)) (cur : Nat) :
    resolve_laco v d toks cur =
      if toks.filter proprio = [] then some (0, cur)
      else (caminha v d (toks.filter proprio) cur).bind fun r =>
        match r with
        | none => some (-1, 0)
        | some (q, n) => (fat32_find v d q n).map fun r =>
          match r with
          | none => (-1, 0)
          | some e =>
            if is_dir e then (0, e.cluster)
            else if proprio (toks.getLast?.getD []) then (1, q) else (-1, 0) := by
  induction toks generalizing cur with
  | nil => rfl
  | cons tok toks ih =>
    rw [resolve_laco]
    by_cases hp : proprio tok = false
    · rw [if_pos (proprio_eq_false.mp hp), List.filter_cons_of_neg (by simp [hp]), ih]
      cases toks with
      | nil => rfl
      | cons t toks => rw [List.getLast?_cons_cons]
    rw [Bool.not_eq_false] at hp
    have hn : ¬ (tok = [] ∨ tok = [46]) := fun h => by simp [proprio_eq_false.mpr h] at hp
    rw [if_neg hn, List.filter_cons_of_pos hp, if_neg (List.cons_ne_nil _ _)]
    by_cases hcs : toks.filter proprio = []
    · rw [hcs, caminha, Option.bind_some]
      dsimp only
      rcases fat32_find v d cur (fat32_normalize tok) with _ | _ | e
      · rfl
      · rfl
      rw [Option.bind_some, Option.map_some]
      dsimp only
      split
      · rw [ih, if_pos hcs]
      · cases toks with
        | nil => simp [hp]
        | cons t toks =>
          have hl : proprio ((tok :: t :: toks).getLast?.getD []) = false := by
            rw [List.getLast?_cons_cons, List.getLast?_eq_some_getLast (by simp), Option.getD_some]
            exact Bool.eq_false_iff.mpr (List.filter_eq_nil_iff.mp hcs _ (List.getLast_mem _))
          rw [hl]
          simp
    · -- a file on the way: there are components behind it
      have hne : toks ≠ [] := fun h => hcs (by rw [h]; rfl)
      rw [caminha_cons hcs]
      rcases fat32_find v d cur (fat32_normalize tok) with _ | _ | e
      · rfl
      · rfl
      rw [Option.bind_some, Option.bind_some]
      dsimp only
      split
      · rw [ih, if_neg hcs]
        cases toks with
        | nil => exact absurd rfl hne
        | cons t toks => rw [List.getLast?_cons_cons]
      · rfl

end Componentes

/-! ## Where the last slash stands -/

section Barras

variable {v : Bpb} {d : Disco} {cwd : Cwd} {path pre last : List UInt8}

theorem ultima_barra_append (pre : List UInt8) (h : BARRA ∉ last) :
    ultima_barra (pre ++ BARRA :: last) = some pre.length := by
  have hlen : (pre ++ BARRA :: last).length = pre.length + 1 + last.length := by
    rw [List.length_append, List.length_cons]
    omega
  have hdepois : ((List.range last.length).map (pre.length + 1 + ·)).filter
      (fun i => decide ((pre ++ BARRA :: last).getD i 0 = BARRA)) = [] := by
    refine List.filter_eq_nil_iff.mpr fun i hi => ?_
    obtain ⟨j, hj, rfl⟩ := List.mem_map.mp hi
    have hj := List.mem_range.mp hj
    rw [decide_eq_true_iff]
    have he : (pre ++ BARRA :: last).getD (pre.length + 1 + j) 0 = last[j] := by
      rw [List.getD, List.getElem?_append_right (by omega)]
      have : pre.length + 1 + j - pre.length = j + 1 := by omega
      rw [this, List.getElem?_cons_succ, List.getElem?_eq_getElem hj, Option.getD_some]
    rw [he]
    exact fun hb => h (hb ▸ List.getElem_mem hj)
  have hbarra : [pre.length].filter (fun i => decide ((pre ++ BARRA :: last).getD i 0 = BARRA)) =
      [pre.length] := by
    simp [List.getD]
  unfold ultima_barra
  rw [hlen, List.range_add, List.filter_append, hdepois, List.append_nil, List.range_succ,
    List.filter_append, hbarra, List.getLast?_concat]

theorem split_barra (hpre : pre ≠ []) (h : BARRA ∉ last)
    (hl : (pre ++ BARRA :: last).length ≤ 255) :
    path_split_last (pre ++ BARRA :: last) = (pre, last) := by
  have h0 : pre.length ≠ 0 := fun h => hpre (List.length_eq_zero_iff.mp h)
  unfold path_split_last
  rw [ultima_barra_append pre h]
  dsimp only
  rw [if_neg h0, List.take_of_length_le hl, List.take_left, List.drop_append,
    List.drop_eq_nil_of_le (by omega)]
  simp

theorem split_raiz (h : BARRA ∉ last) : path_split_last (BARRA :: last) = ([], BARRA :: last) := by
  have hb := ultima_barra_append [] h
  rw [List.nil_append, List.length_nil] at hb
  unfold path_split_last
  rw [hb]
  rfl

/-- A path without a slash, one whose only slash is the first byte, or one with a directory part. -/
theorem formas (path : List UInt8) : BARRA ∉ path ∨
    (∃ last, BARRA ∉ last ∧ path = BARRA :: last) ∨
    ∃ pre last, pre ≠ [] ∧ BARRA ∉ last ∧ path = pre ++ BARRA :: last := by
  by_cases h : BARRA ∈ path
  · obtain ⟨as, bs, he, has⟩ := List.eq_append_cons_of_mem (List.mem_reverse.mpr h)
    have he' : path = bs.reverse ++ BARRA :: as.reverse := by
      rw [← List.reverse_reverse path, he]
      simp
    have hl : BARRA ∉ as.reverse := fun hm => has (List.mem_reverse.mp hm)
    by_cases hb : bs.reverse = []
    · exact .inr (.inl ⟨_, hl, by rw [he', hb, List.nil_append]⟩)
    · exact .inr (.inr ⟨_, _, hb, hl, he'⟩)
  · exact .inl h

theorem resolve_dir_eq (hl : path.length ≤ 255) :
    resolve_dir v d cwd path = resolve_laco v d (path.splitOn BARRA) (origem v cwd path) := by
  unfold resolve_dir origem
  by_cases h : path.head? = some BARRA
  · obtain ⟨t, rfl⟩ := List.head?_eq_some_iff.mp h
    rw [List.length_cons] at hl
    have hs : (BARRA :: t).splitOn BARRA = [] :: t.splitOn BARRA := by
      have := List.splitOn_append_cons_self (a := BARRA) [] t
      rwa [List.splitOn_nil] at this
    rw [if_pos h, if_pos h, hs, resolve_laco, if_pos (.inl rfl), List.tail_cons,
      List.take_of_length_le (by omega)]
  · rw [if_neg h, if_neg h, List.take_of_length_le hl]

end Barras

/-! ## When the calls follow the walk -/

/-- The name of a component without any byte before its extension. -/
def EM_BRANCO : List UInt8 := List.replicate 11 32

/-- The condition on a path, by the pieces between its slashes. `antes` are those before the last
slash, and `b` says that the last of them is a component. -/
def Direto (v : Bpb) (d : Disco) (cwd : Cwd) (path : List UInt8) : Prop :=
  let antes := (path.splitOn BARRA).dropLast
  let ultimo := (path.splitOn BARRA).getLast?.getD []
  let dir := caminha v d (antes.filter proprio) (origem v cwd path)
  let b := proprio (antes.getLast?.getD [])
  if antes = [] then proprio ultimo = true
  else if antes = [[]] then False
  else if proprio ultimo = true then
    -- the directory part does not end in a file right before the last slash
    ∀ q n, dir = some (some (q, n)) → ∀ e, fat32_find v d q n = some (some e) →
      is_dir e = false → b = false
  else
    -- the path ends in a slash or a dot: the walk gets nowhere, or to a blank name that is its own
    antes.filter proprio ≠ [] ∧ ∀ q n, dir = some (some (q, n)) → n = EM_BRANCO ∧
      ∃ e, fat32_find v d q n = some (some e) ∧ if is_dir e then e.cluster = q else b = true

section Iff

variable {v : Bpb} {d : Disco} {cwd : Cwd} {path pre last : List UInt8}

theorem normalize_barra (h : BARRA ∉ last) :
    fat32_normalize (BARRA :: last) ≠ fat32_normalize last := by
  intro he
  have h1 : (fat32_normalize (BARRA :: last)).getD 0 0 = BARRA :=
    (normalize_head (Or.inl (by decide)) (by decide) (by decide) _).mpr rfl
  rw [he, normalize_head (Or.inl (by decide)) (by decide) (by decide)] at h1
  exact h (List.mem_of_mem_head? h1)

theorem normalize_vazio (h : proprio last = false) : fat32_normalize last = EM_BRANCO := by
  rcases proprio_eq_false.mp h with rfl | rfl <;> decide

theorem splitOn_barra (pre : List UInt8) (h : BARRA ∉ last) :
    (pre ++ BARRA :: last).splitOn BARRA = pre.splitOn BARRA ++ [last] := by
  rw [List.splitOn_append_cons_self, List.splitOn_eq_singleton h]

theorem alvo_barra (hpre : pre ≠ []) (h : BARRA ∉ last)
    (hl : (pre ++ BARRA :: last).length ≤ 255) :
    alvo v d cwd (pre ++ BARRA :: last) =
      (resolve_laco v d (pre.splitOn BARRA) (origem v cwd (pre ++ BARRA :: last))).map
        fun (r, p) => if r < 0 then none else some (p, fat32_normalize last) := by
  have ho : origem v cwd (pre ++ BARRA :: last) = origem v cwd pre := by
    unfold origem
    rw [List.head?_append_of_ne_nil _ hpre]
  have hlp : pre.length ≤ 255 := by
    rw [List.length_append] at hl
    omega
  unfold alvo resolve_pai
  rw [split_barra hpre h hl, ho]
  dsimp only
  rw [if_neg hpre, resolve_dir_eq hlp]

/-- A path without a slash is its own last component. -/
theorem alvo_simples (h : BARRA ∉ path) :
    alvo v d cwd path = caminho v d cwd path ↔ Direto v d cwd path := by
  have ho : origem v cwd path = cwd.cluster := if_neg fun hh => h (List.mem_of_mem_head? hh)
  have ha : alvo v d cwd path = some (some (cwd.cluster, fat32_normalize path)) := by
    unfold alvo
    rw [pai_simples h, split_simples h]
    rfl
  unfold caminho Direto
  rw [ha, List.splitOn_eq_singleton h, ho]
  cases hp : proprio path <;> simp [hp, caminha]

/-- Under the root the slash becomes a part of the name. -/
theorem alvo_raiz (h : BARRA ∉ last) :
    alvo v d cwd (BARRA :: last) = caminho v d cwd (BARRA :: last) ↔
      Direto v d cwd (BARRA :: last) := by
  have hs : (BARRA :: last).splitOn BARRA = [[], last] := splitOn_barra [] h
  have ho : origem v cwd (BARRA :: last) = v.root_cluster := if_pos rfl
  have ha : alvo v d cwd (BARRA :: last) =
      some (some (v.root_cluster, fat32_normalize (BARRA :: last))) := by
    unfold alvo resolve_pai
    rw [split_raiz h]
    dsimp only
    rw [if_pos rfl]
    rfl
  have hd : ¬ Direto v d cwd (BARRA :: last) := by
    unfold Direto
    rw [hs]
    simp
  refine iff_of_false (fun he => ?_) hd
  have hv : proprio [] = false := rfl
  rw [ha, caminho, hs, ho] at he
  cases hp : proprio last with
  | true =>
    simp only [List.filter, hv, hp, caminha, Option.some.injEq, Prod.mk.injEq, true_and] at he
    exact normalize_barra h he
  | false =>
    simp only [List.filter, hv, hp, caminha] at he
    cases he

theorem forall_eq_par {P : Nat → List UInt8 → Prop} {q : Nat} {n : List UInt8} :
    (∀ q' n', some (some (q, n)) = some (some (q', n')) → P q' n') ↔ P q n := by
  constructor
  · intro h
    exact h q n rfl
  · rintro h q' n' he
    cases he
    exact h

/-- A path with a directory part. -/
theorem alvo_dir (hpre : pre ≠ []) (h : BARRA ∉ last)
    (hl : (pre ++ BARRA :: last).length ≤ 255) :
    alvo v d cwd (pre ++ BARRA :: last) = caminho v d cwd (pre ++ BARRA :: last) ↔
      Direto v d cwd (pre ++ BARRA :: last) := by
  have hs := splitOn_barra pre h
  have hne : pre.splitOn BARRA ≠ [] := List.splitOn_ne_nil _ _
  have hne' : pre.splitOn BARRA ≠ [[]] := fun he => hpre (by
    have hi : [BARRA].intercalate (pre.splitOn BARRA) = pre := List.intercalate_splitOn BARRA
    rw [← hi, he]
    rfl)
  rw [alvo_barra hpre h hl, resolve_laco_eq]
  unfold caminho Direto
  rw [hs, List.dropLast_concat, List.getLast?_concat, Option.getD_some]
  dsimp only
  rw [if_neg hne, if_neg hne', List.filter_append]
  generalize origem v cwd (pre ++ BARRA :: last) = o
  generalize proprio ((pre.splitOn BARRA).getLast?.getD []) = b
  generalize (pre.splitOn BARRA).filter proprio = cs
  cases hp : proprio last with
  | true =>
    rw [List.filter_cons_of_pos hp, List.filter_nil, if_pos rfl]
    by_cases hcs : cs = []
    · subst hcs
      simp [caminha]
    rw [if_neg hcs, caminha_append last hcs]
    rcases caminha v d cs o with _ | _ | ⟨q, n⟩
    · simp
    · simp
    rw [forall_eq_par, Option.bind_some, Option.bind_some]
    dsimp only
    rcases fat32_find v d q n with _ | _ | e
    · simp
    · simp
    cases he : is_dir e <;> cases b <;> simp [he]
  | false =>
    rw [List.filter_cons_of_neg (by simp [hp]), List.filter_nil, List.append_nil,
      if_neg Bool.false_ne_true, normalize_vazio hp]
    by_cases hcs : cs = []
    · subst hcs
      simp [caminha]
    rw [if_neg hcs]
    rcases caminha v d cs o with _ | _ | ⟨q, n⟩
    · simp [hcs]
    · simp [hcs]
    rw [forall_eq_par, Option.bind_some]
    dsimp only
    rcases fat32_find v d q n with _ | _ | e
    · simp
    · simp
    have hn : EM_BRANCO = n ↔ n = EM_BRANCO := eq_comm
    cases he : is_dir e <;> cases b <;> simp [he, hcs, hn, and_comm]

/-- The calls take from a path what the walk gives for it, under the condition and only then. -/
theorem alvo_eq_caminho_iff (hl : path.length ≤ 255) :
    alvo v d cwd path = caminho v d cwd path ↔ Direto v d cwd path := by
  rcases formas path with hb | ⟨last, hb, rfl⟩ | ⟨pre, last, hpre, hb, rfl⟩
  · exact alvo_simples hb
  · exact alvo_raiz hb
  · exact alvo_dir hpre hb hl

/-- Where the condition holds the path has a component. -/
theorem Direto.componente (h : Direto v d cwd path) : (path.splitOn BARRA).filter proprio ≠ [] := by
  have hne : path.splitOn BARRA ≠ [] := List.splitOn_ne_nil _ _
  have hs := List.dropLast_append_getLast hne
  unfold Direto at h
  rw [List.getLast?_eq_some_getLast hne, Option.getD_some] at h
  generalize (path.splitOn BARRA).dropLast = antes at *
  generalize (path.splitOn BARRA).getLast hne = ultimo at *
  rw [← hs, List.filter_append]
  cases hp : proprio ultimo with
  | true =>
    rw [List.filter_cons_of_pos hp]
    simp
  | false =>
    by_cases ha : antes = []
    · simp [ha, hp] at h
    by_cases ha' : antes = [[]]
    · simp [ha'] at h
    simp only [ha, ha', hp, if_false, Bool.false_eq_true] at h
    exact List.append_ne_nil_of_left_ne_nil h.1 _

/-! ## The law -/

/-- The calls work on the directory and the name that the walk gives for a path, fail without
effect where it gives none, and `vfs_open` reaches what `resolve_dir` does. -/
structure UmSentido (v : Bpb) (d : Disco) (cwd : Cwd) (path : List UInt8) : Prop where
  alvo : alvo v d cwd path = caminho v d cwd path
  vfs_open : vfs_open v d cwd path = (caminho v d cwd path).bind (open_em v d)
  vfs_write : ∀ buf, vfs_write v d cwd path buf = (caminho v d cwd path).bind (write_em v d buf)
  vfs_mkdir : vfs_mkdir v d cwd path = (caminho v d cwd path).bind (mkdir_em v d)
  vfs_unlink : vfs_unlink v d cwd path = (caminho v d cwd path).bind (unlink_em v d)
  resolve_dir : ∀ r c, resolve_dir v d cwd path = some (r, c) → 0 ≤ r →
    ∃ e, Vfs.vfs_open v d cwd path = some (some e) ∧
      if r = 0 then e.is_dir = true ∧ e.cluster = c else e.is_dir = false

/-- What `resolve_dir` reaches is what the walk leads to. -/
theorem resolve_dir_alcanca (hl : path.length ≤ 255) (hm : cwd.montado)
    (ha : alvo v d cwd path = caminho v d cwd path)
    (hc : (path.splitOn BARRA).filter proprio ≠ []) {r : Int} {c : Nat}
    (h : resolve_dir v d cwd path = some (r, c)) (hr : 0 ≤ r) :
    ∃ e, vfs_open v d cwd path = some (some e) ∧
      if r = 0 then e.is_dir = true ∧ e.cluster = c else e.is_dir = false := by
  rw [resolve_dir_eq hl, resolve_laco_eq, if_neg hc] at h
  rw [vfs_open_alvo hm, ha, caminho]
  generalize caminha v d ((path.splitOn BARRA).filter proprio) (origem v cwd path) = w at h ⊢
  rcases w with _ | _ | ⟨q, n⟩
  · cases h
  · cases h
    exact absurd hr (by decide)
  rw [Option.bind_some] at h ⊢
  dsimp only [open_em] at h ⊢
  generalize fat32_find v d q n = f at h ⊢
  rcases f with _ | _ | e
  · cases h
  · cases h
    exact absurd hr (by decide)
  refine ⟨⟨is_dir e, e.cluster, e.size⟩, rfl, ?_⟩
  cases he : is_dir e <;>
    cases hb : proprio ((path.splitOn BARRA).getLast?.getD []) <;> simp [he, hb] at h
  · obtain ⟨rfl, _⟩ := h
    exact absurd hr (by decide)
  · obtain ⟨rfl, _⟩ := h
    simp
  · obtain ⟨rfl, rfl⟩ := h
    simp
  · obtain ⟨rfl, rfl⟩ := h
    simp

/-- A path means its walk to the calls exactly under the condition: not directly under the root,
not without a last component, and not through a file right before the last slash. -/
theorem a_path_means_its_walk_iff (hm : cwd.montado) (hl : path.length ≤ 255) :
    UmSentido v d cwd path ↔ Direto v d cwd path := by
  rw [← alvo_eq_caminho_iff hl]
  constructor
  · exact UmSentido.alvo
  · intro ha
    have hc := ((alvo_eq_caminho_iff hl).mp ha).componente
    exact ⟨ha, by rw [vfs_open_alvo hm, ha], fun buf => by rw [vfs_write_alvo hm, ha],
      by rw [vfs_mkdir_alvo hm, ha], by rw [vfs_unlink_alvo hm, ha],
      fun r c h hr => resolve_dir_alcanca hl hm ha hc h hr⟩

end Iff

/-- The law for `A` in the root directory. -/
theorem a_name_means_its_walk : UmSentido pequeno disco_pequeno ⟨true, 2⟩ [65] := by
  refine (a_path_means_its_walk_iff rfl (by decide)).mpr ?_
  have h : (List.splitOn BARRA [65]).dropLast = [] := by decide
  rw [Direto, if_pos h]
  decide

/-- For `/A` the calls look for a name that begins with the slash. -/
theorem a_path_under_the_root_is_lost :
    ¬ ∀ v d cwd path, cwd.montado = true → path.length ≤ 255 → UmSentido v d cwd path := by
  intro h
  have ha := (h pequeno disco_pequeno ⟨true, 2⟩ [BARRA, 65] rfl (by decide)).alvo
  exact absurd ha (by decide)

/-! ## The walk on a well formed volume -/

/-- The directories that are found have a first cluster. -/
def SubComCluster (v : Bpb) (d : Disco) : Prop :=
  ∀ q name11 e, Dir v d q → name11 ≠ PONTO → name11 ≠ PONTO_PONTO →
    fat32_find v d q name11 = some (some e) → is_dir e = true → e.cluster ≠ 0

section Volume

variable {v : Bpb} {d : Disco} {a p : Nat} {name11 : List UInt8} {e : Dirent}

theorem find_retorna (h : BemFormado v d) (hp : Dir v d p) (name11 : List UInt8) :
    ∃ r, fat32_find v d p name11 = some r := by
  obtain ⟨cs, hc⟩ := h.cadeia hp
  exact ⟨_, find_eq h.geo hc⟩

/-- What is found is a live entry of the directory, and no label. -/
theorem find_vivo (h : BemFormado v d) (hp : Dir v d p)
    (hf : fat32_find v d p name11 = some (some e)) :
    ∃ cs x, Cadeia v d p cs ∧ Vivo d (entradas v cs) x ∧ dirent d x = e ∧ e.raw11 = name11 ∧
      e.attr &&& FAT32_ATTR_VOLUME = 0 := by
  obtain ⟨cs, hc⟩ := h.cadeia hp
  rw [find_eq h.geo hc] at hf
  obtain ⟨x, hx, rfl⟩ := Option.map_eq_some_iff.mp (Option.some.inj hf)
  have hx : (entradas v cs).findSome? (olha_find d name11) = some (some x) := by
    rcases hs : (entradas v cs).findSome? (olha_find d name11) with _ | y
    · rw [hs] at hx
      cases hx
    · rw [hs] at hx
      exact congrArg some hx
  obtain ⟨hv, hraw, hl⟩ := acha_find hx
  exact ⟨cs, x, hc, hv, rfl, hraw, hl⟩

/-- A directory that is found by a name is one of the volume. -/
theorem dir_de_find (h : BemFormado v d) (hs : SubComCluster v d) (hp : Dir v d p)
    (hname : name11 ≠ PONTO ∧ name11 ≠ PONTO_PONTO)
    (hf : fat32_find v d p name11 = some (some e)) (hd : is_dir e = true) : Dir v d e.cluster := by
  have hne := hs p name11 e hp hname.1 hname.2 hf hd
  obtain ⟨cs, x, hc, hv, rfl, hraw, _⟩ := find_vivo h hp hf
  have hdir : (dirent d x).attr &&& FAT32_ATTR_DIR ≠ 0 := of_decide_eq_true hd
  refine .sub hp hc hv ?_ hdir hne
  unfold EhPonto
  rw [hraw]
  exact not_or.mpr hname

/-- The loop of `resolve_dir` returns, and a success leads to a directory. -/
theorem resolve_laco_retorna (h : BemFormado v d) (hs : SubComCluster v d)
    (toks : List (List UInt8)) (ha : Dir v d a) :
    ∃ r c, resolve_laco v d toks a = some (r, c) ∧ (0 ≤ r → Dir v d c) := by
  induction toks generalizing a with
  | nil => exact ⟨0, a, rfl, fun _ => ha⟩
  | cons tok toks ih =>
    rw [resolve_laco]
    split
    · exact ih ha
    obtain ⟨r, hr⟩ := find_retorna h ha (fat32_normalize tok)
    rw [hr, Option.bind_some]
    cases r with
    | none => exact ⟨-1, 0, rfl, fun h => absurd h (by decide)⟩
    | some e =>
      dsimp only
      split
      · exact ih (dir_de_find h hs ha (normalize_ponto _) hr ‹_›)
      · split
        · exact ⟨-1, 0, rfl, fun h => absurd h (by decide)⟩
        · exact ⟨1, a, rfl, fun _ => ha⟩

end Volume

end SpaceOS.Vfs
