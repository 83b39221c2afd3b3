-- Listing the current directory (vfs_readdir) after a file or a directory was made there: when the
-- new entry is shown, under a name that opens it.
import SpaceOS.Fat32Names
import SpaceOS.Fat32Lookups
import SpaceOS.VfsPaths

open Lib.Bytes Lib.Bytes.ByteStr Lib.CString Lib.Links SpaceOS.Fat32

namespace SpaceOS.Vfs

/-! ## Listing -/

/-- `vfs_entry_t`. -/
structure VfsEntry where
  name : ByteStr 13
  is_dir : Bool
  cluster : Nat
  size : Nat

/-- The loop that fills the array of the caller, over what it held. -/
def converte (entries : Nat → VfsEntry) (fe : List Fat32Entry) : Nat → VfsEntry := fun i =>
  match fe[i]? with
  | some e =>
    { name := strncpy (entries i).name 0 (e.name.takeWhile (· ≠ 0)) 12
      is_dir := e.is_dir
      cluster := e.first_cluster
      size := e.size }
  | none => entries i

/-- The result and the array. -/
def vfs_readdir (v : Bpb) (d : Disco) (cwd : Cwd) (path : List UInt8) (entries : Nat → VfsEntry)
    (max : Nat) : Option (Int × (Nat → VfsEntry)) :=
  if cwd.montado then
    (if path = [] then some (0, cwd.cluster) else resolve_dir v d cwd path).bind
      fun (r, dir_cluster) =>
        if r < 0 then some (-1, entries)
        else
          let max_fe := if max < 64 then max else 64
          (fat32_readdir v d dir_cluster max_fe).map fun fe => (fe.length, converte entries fe)
  else some (-1, entries)

/-! ## A new entry -/

/-- A call that makes an entry. -/
inductive Pedido
  | write (buf : List UInt8)
  | mkdir

namespace Pedido

variable (v : Bpb) (d : Disco)

def faz (cwd : Cwd) (f : List UInt8) : Pedido → Option (Int × Disco)
  | write buf => vfs_write v d cwd f buf
  | mkdir => vfs_mkdir v d cwd f

def attr : Pedido → UInt8
  | write _ => FAT32_ATTR_ARCHIVE
  | mkdir => FAT32_ATTR_DIR

/-- The disk when the call comes to `fat32_create`. -/
def antes (p : Nat) (name11 : List UInt8) : Pedido → Option Disco
  | write _ => apaga_antigo v d p name11
  | mkdir => some d

/-- Whether the call deletes an entry first. -/
def apaga (p : Nat) (name11 : List UInt8) : Pedido → Bool
  | write _ => (fat32_find v d p name11).join.isSome
  | mkdir => false

/-- The slot is in use, and the call does not free it. -/
def ocupada (p : Nat) (name11 : List UInt8) (op : Pedido) (y : Slot) : Bool :=
  (dirent d y).first ≠ 0 && (dirent d y).first ≠ 0xE5 &&
    !(op.apaga v d p name11 && (olha_delete d name11 y).isSome)

/-- The entries of the directory in front of the new one. -/
def frente (p : Nat) (cs : List Nat) (name11 : List UInt8) (op : Pedido) : List Slot :=
  (entradas v cs).takeWhile (op.ocupada v d p name11)

end Pedido

/-- The slot where `fat32_create` writes the entry. -/
def slot_criado (v : Bpb) (d : Disco) (parent_cluster : Nat) (attr : UInt8) : Option Slot :=
  let d := preparado v d parent_cluster attr
  (percorre v d (olha_livre d) (voltas v) parent_cluster).join

def Pedido.lugar (v : Bpb) (d : Disco) (cwd : Cwd) (f : List UInt8) (op : Pedido) : Option Slot :=
  (op.antes v d cwd.cluster (fat32_normalize f)).bind fun d =>
    slot_criado v d cwd.cluster op.attr

/-- The slot that `vfs_open` takes its answer from. -/
def slot_aberto (v : Bpb) (d : Disco) (cwd : Cwd) (path : List UInt8) : Option (Option Slot) :=
  (alvo v d cwd path).bind fun r =>
    match r with
    | none => some none
    | some (p, n) => slot_find (voltas v) v d p n

theorem vfs_open_slot {v : Bpb} {d : Disco} {cwd : Cwd} (hm : cwd.montado) (path : List UInt8) :
    vfs_open v d cwd path = (slot_aberto v d cwd path).map fun r =>
      r.map fun x => ⟨is_dir (dirent d x), (dirent d x).cluster, (dirent d x).size⟩ := by
  rw [vfs_open_alvo hm]
  unfold slot_aberto
  rcases alvo v d cwd path with _ | _ | ⟨p, n⟩
  · rfl
  · rfl
  · rw [Option.bind_some, Option.bind_some]
    dsimp only
    rw [open_em, ← find_ate_voltas, find_ate_slot, Option.map_map]
    congr 1
    funext r
    cases r with
    | none => rfl
    | some x => rfl

/-- Whatever the array held, a listing of the current directory has the entry `x` of the name `f`,
with a name of at most twelve characters and a zero behind it, and this name opens the entry; the
field of the extension has only characters from behind the first dot of `f`. -/
structure Confere (v : Bpb) (d : Disco) (cwd : Cwd) (max : Nat) (f : List UInt8) (x : Slot) :
    Prop where
  nome : ∀ entries, ∃ (i : Nat) (n : Int) (depois : Nat → VfsEntry) (r : List Slot),
    vfs_readdir v d cwd [] entries max = some (n, depois) ∧ i < n ∧
    lista_laco v d (voltas v) cwd.cluster (if max < 64 then max else 64) = some r ∧
    r[i]? = some x ∧ (∃ l ≤ 12, strlen (depois i).name = some l) ∧
    slot_aberto v d cwd (text (depois i).name) = some (some x)
  ext : ExtDoPonto f (dirent d x)

section Lista

variable {v : Bpb} {d d' : Disco} {cwd : Cwd} {p c : Nat} {cs : List Nat} {x : Slot}
  {f : List UInt8} {pre post : List Slot}

/-! ## What is shown of a name -/

theorem mostra_nome (h0 : 0 ∉ f) (hf : ¬ Cheia f) (b : ByteStr 13) :
    text (strncpy b 0 (junta (campo_nome f) (campo_ext f)) 12) = junta (campo_nome f) (campo_ext f) := by
  have hz := mem_junta (Or.inl (by decide)) (by decide) (by decide) h0
  obtain ⟨hle, hcheia⟩ := length_junta f
  have hlt : (junta (campo_nome f) (campo_ext f)).length < 12 :=
    Nat.lt_of_le_of_ne hle fun he => hf (hcheia.mp he)
  refine text_eq (by omega) hz fun j hj => ?_
  rw [byte_strncpy _ _ _ _ (by omega), if_pos (by omega), Nat.sub_zero]

/-- A name of twelve characters has no zero behind it where the array held none. -/
theorem nome_sem_zero (h0 : 0 ∉ f) (hf : Cheia f) {b : ByteStr 13} (hb : b.byte 12 ≠ 0) :
    strlen (strncpy b 0 (junta (campo_nome f) (campo_ext f)) 12) = none := by
  have hz := mem_junta (Or.inl (by decide)) (by decide) (by decide) h0
  have hlen := (length_junta f).2.mpr hf
  unfold strlen
  rw [if_neg]
  intro hlt
  have hzero := byte_text (b := strncpy b 0 (junta (campo_nome f) (campo_ext f)) 12) hlt le_rfl
  rw [List.getD_eq_default _ _ le_rfl, byte_strncpy _ _ _ _ hlt] at hzero
  split at hzero
  · rename_i hlt'
    rw [getD_eq_zero_iff hz, hlen] at hzero
    omega
  · rename_i hlt'
    rw [show (text (strncpy b 0 (junta (campo_nome f) (campo_ext f)) 12)).length = 12 by omega]
      at hzero
    exact hb hzero

/-! ## The place of the new entry -/

theorem fila_de_cadeia (g : Geometria v) (h : Cadeia v d c cs) : Fila v d c cs := by
  induction h with
  | last hc =>
    have hr := (elo_ne_none (by rw [hc]; simp : elo v d _ ≠ none)).1
    exact .passo (hr.lt_eof g) (.fim (elo_none hc))
  | cons hc _ ih =>
    have hr := (elo_ne_none (by rw [hc]; simp : elo v d _ ≠ none)).1
    refine .passo (hr.lt_eof g) ?_
    rw [(elo_some hc).1]
    exact ih

/-- The volume after the call: the new entry and the ones in front of it. -/
structure Posto (v : Bpb) (d d' : Disco) (cwd : Cwd) (f : List UInt8) (cs : List Nat)
    (attr : UInt8) (pre : List Slot) (x : Slot) (post : List Slot) (c : Nat) : Prop where
  geo : Geometria v
  cadeia : Cadeia v d' cwd.cluster cs
  eq : entradas v cs = pre ++ x :: post
  antes : ∀ y ∈ pre, dirent d' y = dirent d y ∧ (dirent d y).first ≠ 0
  novo : dirent d' x = novo_dirent (fat32_normalize f) attr c
  attr : attr = FAT32_ATTR_ARCHIVE ∨ attr = FAT32_ATTR_DIR

section Posto

variable {attr : UInt8}

theorem Posto.first (h : Posto v d d' cwd f cs attr pre x post c) :
    (dirent d' x).first = (fat32_normalize f).getD 0 0 := by
  rw [h.novo, novo_first]

/-- It is listed unless its name starts like a deleted entry. -/
theorem Posto.listado_iff (h : Posto v d d' cwd f cs attr pre x post c) :
    listado d' x ↔ f.head? ≠ some 0xE5 := by
  unfold listado
  rw [Bool.and_eq_true, Bool.and_eq_true, decide_eq_true_iff, decide_eq_true_iff,
    decide_eq_true_iff, h.first, Ne, normalize_e5, h.novo, novo_attr]
  constructor
  · exact fun hl => hl.1.1
  · intro hn
    refine ⟨⟨hn, ?_⟩, ?_⟩
    · rcases h.attr with rfl | rfl
      · decide
      · decide
    · rcases h.attr with rfl | rfl
      · decide
      · decide

theorem Posto.visiveis_eq (h : Posto v d d' cwd f cs attr pre x post c) (h0 : 0 ∉ f) :
    visiveis d' (entradas v cs) = pre.filter (listado d) ++
      if listado d' x then x :: visiveis d' post else visiveis d' post := by
  have hne : ∀ y ∈ pre, (dirent d' y).first ≠ 0 := by
    intro y hy
    rw [(h.antes y hy).1]
    exact (h.antes y hy).2
  have hpre : visiveis d' pre = pre.filter (listado d) := by
    unfold visiveis
    rw [List.takeWhile_eq_self_iff.mpr fun y hy => decide_eq_true (hne y hy)]
    refine List.filter_congr fun y hy => ?_
    unfold listado
    rw [(h.antes y hy).1]
  have hx : (dirent d' x).first ≠ 0 := by
    rw [h.first]
    exact (normalize_first h0).1
  rw [h.eq, visiveis_append hne, hpre, visiveis_cons hx]

theorem Posto.nodup (h : Posto v d d' cwd f cs attr pre x post c) :
    (visiveis d' (entradas v cs)).Nodup := by
  have hnd : (entradas v cs).Nodup := entradas_nodup h.geo h.cadeia
  exact (hnd.sublist (List.takeWhile_sublist _)).filter _

theorem Posto.not_mem (h : Posto v d d' cwd f cs attr pre x post c) : x ∉ pre ∧ x ∉ post := by
  have hnd : (entradas v cs).Nodup := entradas_nodup h.geo h.cadeia
  rw [h.eq] at hnd
  obtain ⟨_, hnd', hdis⟩ := List.nodup_append.mp hnd
  exact ⟨fun hm => hdis x hm x List.mem_cons_self rfl, (List.nodup_cons.mp hnd').1⟩

/-- Where a bounded listing has the entry. -/
theorem Posto.indice_iff (h : Posto v d d' cwd f cs attr pre x post c) (h0 : 0 ∉ f) (m i : Nat) :
    ((visiveis d' (entradas v cs)).take m)[i]? = some x ↔
      f.head? ≠ some 0xE5 ∧ i = (pre.filter (listado d)).length ∧ i < m := by
  have hvis := h.visiveis_eq h0
  constructor
  · intro hi
    rw [List.getElem?_take] at hi
    split at hi
    · rename_i him
      have hl : listado d' x := by
        have hmem := List.mem_of_getElem? hi
        unfold visiveis at hmem
        exact (List.mem_filter.mp hmem).2
      rw [if_pos hl] at hvis
      refine ⟨h.listado_iff.mp hl, ?_, him⟩
      obtain ⟨hlt, hix⟩ := List.getElem?_eq_some_iff.mp hi
      have hj : (visiveis d' (entradas v cs))[(pre.filter (listado d)).length]? = some x := by
        rw [hvis, List.getElem?_append_right le_rfl, Nat.sub_self]
        rfl
      exact (List.getElem?_inj hlt h.nodup).mp (hi.trans hj.symm)
    · cases hi
  · rintro ⟨he, rfl, him⟩
    rw [List.getElem?_take, if_pos him, hvis, if_pos (h.listado_iff.mpr he),
      List.getElem?_append_right le_rfl, Nat.sub_self]
    rfl

/-! ## Listing and opening -/

theorem lista_cwd (g : Geometria v) (hc : Cadeia v d cwd.cluster cs) (max : Nat) :
    lista_laco v d (voltas v) cwd.cluster max = some ((visiveis d (entradas v cs)).take max) :=
  lista_laco_eq (fila_de_cadeia g hc)
    (Nat.lt_of_le_of_lt hc.length_le (by unfold voltas; omega)) max

theorem readdir_cwd (hm : cwd.montado) (g : Geometria v) (hc : Cadeia v d cwd.cluster cs)
    (entries : Nat → VfsEntry) {max max_fe : Nat} (hmax : max_fe = if max < 64 then max else 64) :
    vfs_readdir v d cwd [] entries max =
      some ((((visiveis d (entradas v cs)).take max_fe).length : Int),
        converte entries (((visiveis d (entradas v cs)).take max_fe).map fun y =>
          fat32_entry (dirent d y))) := by
  unfold vfs_readdir
  rw [if_pos hm, if_pos rfl, Option.bind_some]
  dsimp only
  rw [if_neg (by decide), ← hmax]
  unfold fat32_readdir fat32_readdir_ate
  rw [lista_cwd g hc, Option.map_some, Option.map_some, List.length_map]

/-- The name of the new entry in the array. -/
theorem Posto.nome (h : Posto v d d' cwd f cs attr pre x post c) (h0 : 0 ∉ f) {r : List Slot}
    {i : Nat} (hi : r[i]? = some x) (entries : Nat → VfsEntry) :
    (converte entries (r.map fun y => fat32_entry (dirent d' y)) i).name =
      strncpy (entries i).name 0 (junta (campo_nome f) (campo_ext f)) 12 := by
  have hz := mem_junta (f := f) (b := 0) (Or.inl (by decide)) (by decide) (by decide) h0
  have htw : (junta (campo_nome f) (campo_ext f)).takeWhile (· ≠ 0) =
      junta (campo_nome f) (campo_ext f) := by
    refine List.takeWhile_eq_self_iff.mpr fun b hb => decide_eq_true ?_
    rintro rfl
    exact hz hb
  unfold converte
  rw [List.getElem?_map, hi, Option.map_some]
  dsimp only
  unfold fat32_entry
  dsimp only
  rw [h.novo, reconstruct_novo, htw]

/-- The name that is listed opens the new entry where it leads to the same 11 bytes and no listed
entry in front of it has them. -/
theorem Posto.aberto_iff (h : Posto v d d' cwd f cs attr pre x post c) (h0 : 0 ∉ f)
    (hb : BARRA ∉ f) (he : f.head? ≠ some 0xE5) :
    slot_aberto v d' cwd (junta (campo_nome f) (campo_ext f)) = some (some x) ↔
      (SemBuraco (parte_nome f) ∧ SemBuraco (parte_ext f)) ∧
        ∀ y ∈ pre, listado d y → (dirent d y).raw11 ≠ fat32_normalize f := by
  have hbarra := mem_junta (f := f) (b := BARRA) (Or.inl (by decide)) (by decide) (by decide) hb
  have hslot : slot_aberto v d' cwd (junta (campo_nome f) (campo_ext f)) =
      some ((visiveis d' (entradas v cs)).find? fun y =>
        (dirent d' y).raw11 = fat32_normalize (junta (campo_nome f) (campo_ext f))) := by
    unfold slot_aberto alvo slot_find
    rw [pai_simples hbarra, split_simples hbarra, Option.map_some, Option.bind_some]
    dsimp only
    rw [if_neg (by decide)]
    dsimp only
    rw [percorre_voltas h.geo h.cadeia, Option.map_some]
    exact congrArg some (find_visivel d' _ (entradas v cs))
  have hraw : (dirent d' x).raw11 = fat32_normalize f := by
    rw [h.novo, novo_raw11 (normalize_length f)]
  rw [hslot, Option.some_inj, ← normalize_campos_iff, h.visiveis_eq h0,
    if_pos (h.listado_iff.mpr he), List.find?_append]
  constructor
  · intro hf
    rcases hF : (pre.filter (listado d)).find? fun y =>
        decide ((dirent d' y).raw11 = fat32_normalize (junta (campo_nome f) (campo_ext f)))
      with _ | z
    · rw [hF, Option.none_or] at hf
      have hx := List.find?_some hf
      rw [decide_eq_true_iff, hraw] at hx
      refine ⟨hx.symm, fun y hy hl he' => ?_⟩
      have hy' := List.find?_eq_none.mp hF y (List.mem_filter.mpr ⟨hy, hl⟩)
      rw [decide_eq_true_iff, (h.antes y hy).1, he', hx] at hy'
      exact hy' rfl
    · rw [hF] at hf
      obtain rfl : z = x := Option.some.inj hf
      exact absurd (List.mem_filter.mp (List.mem_of_find?_eq_some hF)).1 h.not_mem.1
  · rintro ⟨hn, hpre⟩
    have hF : (pre.filter (listado d)).find? (fun y =>
        decide ((dirent d' y).raw11 = fat32_normalize (junta (campo_nome f) (campo_ext f)))) =
          none := by
      refine List.find?_eq_none.mpr fun y hy => ?_
      obtain ⟨hy, hl⟩ := List.mem_filter.mp hy
      rw [decide_eq_true_iff, (h.antes y hy).1, hn]
      exact hpre y hy hl
    rw [hF, Option.none_or, List.find?_cons_of_pos (by rw [hraw, hn]; exact decide_eq_true rfl)]

/-- The conditions on the name alone. -/
structure NomeCerto (f : List UInt8) : Prop where
  ponto : PontoACabe f
  marca : f.head? ≠ some 0xE5
  buracos : SemBuraco (parte_nome f) ∧ SemBuraco (parte_ext f)
  curto : ¬ Cheia f

theorem Posto.confere_iff (h : Posto v d d' cwd f cs attr pre x post c) (hm : cwd.montado)
    (h0 : 0 ∉ f) (hb : BARRA ∉ f) (max : Nat) :
    Confere v d' cwd max f x ↔ NomeCerto f ∧
      (pre.filter (listado d)).length < (if max < 64 then max else 64) ∧
      ∀ y ∈ pre, listado d y → (dirent d y).raw11 ≠ fat32_normalize f := by
  generalize hfe : (if max < 64 then max else 64) = max_fe
  have hlista : lista_laco v d' (voltas v) cwd.cluster max_fe = _ := lista_cwd h.geo h.cadeia max_fe
  have hler := fun entries => readdir_cwd hm h.geo h.cadeia entries hfe.symm
  have hext : ExtDoPonto f (dirent d' x) ↔ PontoACabe f := by
    rw [h.novo]
    exact extDoPonto_iff f attr c
  constructor
  · intro hcon
    -- an array that held no zero
    obtain ⟨i, n, depois, r, hread, _, hr, hi, ⟨l, _, hl⟩, haberto⟩ :=
      hcon.nome fun _ => ⟨fun _ => 1, false, 0, 0⟩
    rw [hfe, hlista] at hr
    obtain rfl := Option.some.inj hr
    rw [hler] at hread
    obtain rfl := (Prod.mk.inj (Option.some.inj hread)).2
    obtain ⟨he, hlen, him⟩ := (h.indice_iff h0 max_fe i).mp hi
    rw [h.nome h0 hi] at hl haberto
    have hcurto : ¬ Cheia f := by
      intro hcheia
      rw [nome_sem_zero h0 hcheia (by decide)] at hl
      cases hl
    rw [mostra_nome h0 hcurto] at haberto
    obtain ⟨hburacos, hunico⟩ := (h.aberto_iff h0 hb he).mp haberto
    exact ⟨⟨hext.mp hcon.ext, he, hburacos, hcurto⟩, hlen ▸ him, hunico⟩
  · rintro ⟨hn, hcabe, hunico⟩
    refine ⟨fun entries => ?_, hext.mpr hn.ponto⟩
    have hi := (h.indice_iff h0 max_fe _).mpr ⟨hn.marca, rfl, hcabe⟩
    have hlt := (List.getElem?_eq_some_iff.mp hi).1
    refine ⟨_, _, _, _, hler entries, Int.ofNat_lt.mpr hlt, hfe ▸ hlista, hi, ?_⟩
    rw [h.nome h0 hi, mostra_nome h0 hn.curto]
    have hle := (length_junta f).1
    refine ⟨⟨_, hle, ?_⟩, (h.aberto_iff h0 hb hn.marca).mpr ⟨hn.buracos, hunico⟩⟩
    have ht := mostra_nome h0 hn.curto (entries (pre.filter (listado d)).length).name
    rw [strlen_eq (by rw [ht]; omega), ht]

end Posto

/-! ## The calls -/

section Chamada

variable {d₁ : Disco} {n : List UInt8} {op : Pedido}

theorem ocupada_iff (op : Pedido) (y : Slot) : op.ocupada v d p n y ↔
    (dirent d y).first ≠ 0 ∧ (dirent d y).first ≠ 0xE5 ∧
      ¬ (op.apaga v d p n = true ∧ (olha_delete d n y).isSome) := by
  unfold Pedido.ocupada
  rw [Bool.and_eq_true, Bool.and_eq_true, decide_eq_true_iff, decide_eq_true_iff,
    Bool.not_eq_true', Bool.and_eq_false_iff, and_assoc, not_and_or, Bool.not_eq_true,
    Bool.not_eq_true]

theorem frente_eq (heq : entradas v cs = pre ++ x :: post)
    (hpre : ∀ y ∈ pre, op.ocupada v d p n y) (hx : ¬ op.ocupada v d p n x) :
    op.frente v d p cs n = pre := by
  unfold Pedido.frente
  rw [heq, List.takeWhile_append_of_pos hpre, List.takeWhile_cons_of_neg hx, List.append_nil]

/-- What a call finds in the directory when it creates the entry. -/
structure Pronto (v : Bpb) (d : Disco) (p : Nat) (cs : List Nat) (n : List UInt8) (op : Pedido)
    (d₁ : Disco) : Prop where
  bem : BemFormado v d₁
  dir : Dir v d₁ p
  cadeia : Cadeia v d₁ p cs
  frente : ∀ pre post x, Livre d₁ (entradas v cs) pre post x →
    (∀ y ∈ pre, dirent d₁ y = dirent d y) ∧ op.frente v d p cs n = pre

/-- Nothing is deleted. -/
theorem pronto_igual (h : BemFormado v d) (hp : Dir v d p) (hc : Cadeia v d p cs)
    (ha : op.apaga v d p n = false) : Pronto v d p cs n op d := by
  refine ⟨h, hp, hc, fun pre post x hl => ⟨fun _ _ => rfl, frente_eq hl.eq (fun y hy => ?_) ?_⟩⟩
  · obtain ⟨h0, h5⟩ := hl.antes y hy
    refine (ocupada_iff op y).mpr ⟨h0, h5, ?_⟩
    rw [ha]
    exact fun hf => absurd hf.1 (by decide)
  · intro hx
    obtain ⟨h0, h5, _⟩ := (ocupada_iff op x).mp hx
    exact hl.livre.elim h0 h5

theorem pronto_apagado {k : Slot} (ha : op.apaga v d p n = true)
    (hk : (entradas v cs).findSome? (olha_delete d n) = some (some k))
    (hap : Apagou v d d₁ p cs k) : Pronto v d p cs n op d₁ := by
  refine ⟨hap.bem, hap.dir, hap.cadeia, fun pre post x hl => ?_⟩
  obtain ⟨pm, b, qm, hss, hb, hpm⟩ := List.findSome?_eq_some_iff.mp hk
  obtain rfl : k = b := (olha_delete_iff.mp hb).1
  have hkpre : k ∉ pre := fun hmem => (hl.antes k hmem).2 (by rw [hap.marca]; rfl)
  have hsub := prefixo_sem (hl.eq.symm.trans hss) hkpre
  have hsame : ∀ y ∈ pre, dirent d₁ y = dirent d y := fun y hy =>
    hap.outros y (hl.eq ▸ List.mem_append_left _ hy) fun he => hkpre (he ▸ hy)
  refine ⟨hsame, frente_eq hl.eq (fun y hy => ?_) ?_⟩
  · obtain ⟨h0, h5⟩ := hl.antes y hy
    rw [hsame y hy] at h0 h5
    refine (ocupada_iff op y).mpr ⟨h0, h5, fun hf => ?_⟩
    rw [hpm y (hsub hy)] at hf
    exact absurd hf.2 (by decide)
  · intro hx
    obtain ⟨h0, h5, hdel⟩ := (ocupada_iff op x).mp hx
    by_cases hxk : x = k
    · -- the slot of the deleted entry
      subst hxk
      exact hdel ⟨ha, by rw [hb]; rfl⟩
    · have he := hap.outros x (hl.eq ▸ List.mem_append_right _ List.mem_cons_self) hxk
      have hlivre := hl.livre
      rw [he] at hlivre
      exact hlivre.elim h0 h5

theorem antes_spec (h : BemFormado v d) (hp : Dir v d p) (hc : Cadeia v d p cs)
    (hname : n ≠ PONTO ∧ n ≠ PONTO_PONTO) (op : Pedido) :
    ∃ d₁, op.antes v d p n = some d₁ ∧ Pronto v d p cs n op d₁ := by
  cases op with
  | mkdir => exact ⟨d, rfl, pronto_igual h hp hc rfl⟩
  | write buf =>
    have hf : fat32_find v d p n = _ := find_eq h.geo hc
    rcases hx : (entradas v cs).findSome? (olha_find d n) with _ | _ | x
    · rw [hx] at hf
      refine ⟨d, ?_, pronto_igual h hp hc ?_⟩
      · unfold Pedido.antes apaga_antigo
        rw [hf]
        rfl
      · unfold Pedido.apaga
        rw [hf]
        rfl
    · rw [hx] at hf
      refine ⟨d, ?_, pronto_igual h hp hc ?_⟩
      · unfold Pedido.antes apaga_antigo
        rw [hf]
        rfl
      · unfold Pedido.apaga
        rw [hf]
        rfl
    · rw [hx] at hf
      obtain ⟨k, hk⟩ := delete_acha hx
      obtain ⟨d₁, hdel, hap⟩ := delete_achou h hp hc hname hk
      refine ⟨d₁, ?_, pronto_apagado ?_ hk hap⟩
      · unfold Pedido.antes apaga_antigo
        rw [hf, hdel]
        rfl
      · unfold Pedido.apaga
        rw [hf]
        rfl

/-- The entry is written to the first free slot that the directory had before. -/
theorem slot_criado_eq {d₂ : Disco} {attr : UInt8} (h : BemFormado v d) (hp : Dir v d p)
    (hc : Cadeia v d p cs) (hcria : fat32_create v d p n attr = some (c, d₂)) (hc0 : c ≠ 0)
    (hl : Livre d (entradas v cs) pre post x) : slot_criado v d p attr = some x := by
  rcases alloc_spec v d with ⟨hcheio, _⟩ | ⟨m, hm, h0, halloc⟩
  · rw [create_cheio hcheio] at hcria
    exact absurd (Prod.mk.inj (Option.some.inj hcria)).1.symm hc0
  have hprep : preparado v d p attr = if attr &&& FAT32_ATTR_DIR ≠ 0 then
      pontos v (zera_cluster v (fat32_write_fat_entry v d m 0x0FFFFFFF) m) m p
    else zera_cluster v (fat32_write_fat_entry v d m 0x0FFFFFFF) m := by
    unfold preparado
    rw [halloc]
  obtain ⟨_, _, hso⟩ := cluster_novo h hm h0 p attr _ hprep
  obtain ⟨hc', he⟩ := ((solta_livre h0).pastas h hso).entradas hp hc
  have hacha : (cs.flatMap (slots v)).findSome? (olha_livre (preparado v d p attr)) = some x := by
    have hx : x ∈ entradas v cs := hl.eq ▸ List.mem_append_right _ List.mem_cons_self
    refine List.findSome?_eq_some_iff.mpr ⟨pre, x, post, hl.eq, ?_, fun y hy => ?_⟩
    · unfold olha_livre
      rw [he x hx, if_pos hl.livre]
    · unfold olha_livre
      rw [he y (hl.eq ▸ List.mem_append_left _ hy), if_neg (not_or.mpr (hl.antes y hy))]
  unfold slot_criado
  dsimp only
  rw [percorre_voltas h.geo hc', hacha]
  rfl

/-- An accepted call has created an entry, and has not written over it again. -/
theorem faz_cria {d₂ : Disco} {r : Int} (hb : BARRA ∉ f) (hm : cwd.montado)
    (hant : op.antes v d cwd.cluster (fat32_normalize f) = some d₁)
    (hcria : fat32_create v d₁ cwd.cluster (fat32_normalize f) op.attr = some (c, d₂))
    (harq : op.attr = FAT32_ATTR_ARCHIVE → c ≠ 0 → Arq v d₂ c [c])
    (hw : op.faz v d cwd f = some (r, d')) (hr : 0 ≤ r) : c ≠ 0 ∧ (d' = d₂ ∨ Poupa v [c] d₂ d') := by
  cases op with
  | mkdir =>
    obtain rfl : d = d₁ := Option.some.inj hant
    have hmk := hw
    unfold Pedido.faz vfs_mkdir at hmk
    dsimp only at hmk
    rw [if_pos hm, pai_simples hb, split_simples hb, Option.bind_some] at hmk
    dsimp only at hmk
    rw [if_neg (by decide), show fat32_create v d cwd.cluster _ FAT32_ATTR_DIR = _ from hcria,
      Option.map_some] at hmk
    obtain ⟨hres, rfl⟩ := Prod.mk.inj (Option.some.inj hmk)
    refine ⟨fun h0 => ?_, Or.inl rfl⟩
    rw [if_pos h0] at hres
    omega
  | write buf =>
    unfold Pedido.faz vfs_write at hw
    dsimp only at hw
    rw [if_pos hm, pai_simples hb, split_simples hb, Option.bind_some] at hw
    dsimp only at hw
    rw [if_neg (by decide), show apaga_antigo v d cwd.cluster _ = _ from hant, Option.bind_some,
      show fat32_create v d₁ cwd.cluster _ FAT32_ATTR_ARCHIVE = _ from hcria, Option.bind_some] at hw
    dsimp only at hw
    by_cases hc0 : c = 0
    · rw [if_pos hc0] at hw
      have := (Prod.mk.inj (Option.some.inj hw)).1
      omega
    · rw [if_neg hc0] at hw
      obtain ⟨r', d₃, cs', hwf, _, hpoupa⟩ := write_spec buf (harq rfl hc0)
      rw [hwf] at hw
      obtain ⟨_, rfl⟩ := Prod.mk.inj (Option.some.inj hw)
      exact ⟨hc0, Or.inr hpoupa⟩

theorem posto {r : Int} (h : BemFormado v d) (hm : cwd.montado) (hp : Dir v d cwd.cluster)
    (hc : Cadeia v d cwd.cluster cs) (hb : BARRA ∉ f) (hz : 0 ∉ f)
    (hw : op.faz v d cwd f = some (r, d')) (hr : 0 ≤ r) :
    ∃ pre x post c, op.lugar v d cwd f = some x ∧
      op.frente v d cwd.cluster cs (fat32_normalize f) = pre ∧
      Posto v d d' cwd f cs op.attr pre x post c := by
  have hattr : op.attr = FAT32_ATTR_DIR ∨ op.attr = FAT32_ATTR_ARCHIVE := by
    cases op with
    | mkdir => exact Or.inl rfl
    | write _ => exact Or.inr rfl
  obtain ⟨d₁, hant, hpronto⟩ := antes_spec h hp hc (normalize_ponto f) op
  obtain ⟨c, d₂, hcria, _, harq, hcriado, _⟩ := create_spec hpronto.bem hpronto.dir
    (normalize_first hz).1 hattr
  obtain ⟨hc0, hdepois⟩ := faz_cria hb hm hant hcria harq hw hr
  obtain ⟨hc₂, hfora, pre, post, x, hl, hx, hpre⟩ := hcriado hc0 cs hpronto.cadeia
  have hfim : Cadeia v d' cwd.cluster cs ∧ ∀ y ∈ entradas v cs, dirent d' y = dirent d₂ y := by
    rcases hdepois with rfl | hpoupa
    · exact ⟨hc₂, fun _ _ => rfl⟩
    · exact hpoupa.cadeia hc₂ fun z hz hzc => hfora (List.mem_singleton.mp hzc ▸ hz)
  obtain ⟨hsame, hfrente⟩ := hpronto.frente pre post x hl
  refine ⟨pre, x, post, c, ?_, hfrente, h.geo, hfim.1, hl.eq, fun y hy => ?_, ?_, hattr.symm⟩
  · unfold Pedido.lugar
    rw [hant, Option.bind_some]
    exact slot_criado_eq hpronto.bem hpronto.dir hpronto.cadeia hcria hc0 hl
  · have hy₁ := (hl.antes y hy).1
    rw [hfim.2 y (hl.eq ▸ List.mem_append_left _ hy), hpre y hy]
    rw [hsame y hy] at hy₁ ⊢
    exact ⟨rfl, hy₁⟩
  · rw [hfim.2 x (hl.eq ▸ List.mem_append_right _ List.mem_cons_self), hx]

end Chamada

/-- What is listed can be opened: after a file or a directory was made in the current directory, a
listing shows the new entry under a name that opens it exactly where its name fits the fields of an
entry with a zero behind it, has no space in front of another character and does not look deleted,
and the entries in front of it leave it room in the listing and have another name. -/
theorem what_is_listed_can_be_opened_iff {op : Pedido} {r : Int} (h : BemFormado v d)
    (hm : cwd.montado) (hp : Dir v d cwd.cluster) (hc : Cadeia v d cwd.cluster cs) (hb : BARRA ∉ f)
    (hz : 0 ∉ f) (hw : op.faz v d cwd f = some (r, d')) (hr : 0 ≤ r) (max : Nat) :
    ∃ x, op.lugar v d cwd f = some x ∧
      (Confere v d' cwd max f x ↔ NomeCerto f ∧
        ((op.frente v d cwd.cluster cs (fat32_normalize f)).filter (listado d)).length <
          (if max < 64 then max else 64) ∧
        ∀ y ∈ op.frente v d cwd.cluster cs (fat32_normalize f), listado d y →
          (dirent d y).raw11 ≠ fat32_normalize f) := by
  obtain ⟨pre, x, post, c, hlugar, rfl, hposto⟩ := posto h hm hp hc hb hz hw hr
  exact ⟨x, hlugar, hposto.confere_iff hm hz hb max⟩

/-! ## Two names -/

theorem cadeia_da_raiz : Cadeia pequeno disco_pequeno 2 [2] := .last (by decide +kernel)

theorem escreve_vazio (f : List UInt8)
    (h : ((Pedido.write []).faz pequeno disco_pequeno ⟨true, 2⟩ f).map (·.1) = some 0) :
    ∃ d', (Pedido.write []).faz pequeno disco_pequeno ⟨true, 2⟩ f = some (0, d') := by
  obtain ⟨⟨r, d'⟩, hw, rfl⟩ := Option.map_eq_some_iff.mp h
  exact ⟨d', hw⟩

/-- `A` is listed, and opens the new entry. -/
theorem a_short_name_is_listed_and_opened : ∃ d' x,
    (Pedido.write []).faz pequeno disco_pequeno ⟨true, 2⟩ [65] = some (0, d') ∧
      Confere pequeno d' ⟨true, 2⟩ 64 [65] x := by
  obtain ⟨d', hw⟩ := escreve_vazio [65] (by decide +kernel)
  obtain ⟨x, _, hx⟩ := what_is_listed_can_be_opened_iff pequeno_bem rfl .raiz cadeia_da_raiz
    (by decide) (by decide) hw (by decide) 64
  have hfrente : (Pedido.write []).frente pequeno disco_pequeno 2 [2] (fat32_normalize [65]) =
      [] := by
    decide +kernel
  refine ⟨d', x, hw, hx.mpr ⟨⟨Or.inl (by decide +kernel), by decide, ?_, ?_⟩, ?_, ?_⟩⟩
  · unfold SemBuraco
    decide +kernel
  · unfold Cheia
    decide +kernel
  · rw [hfrente]
    decide
  · rw [hfrente]
    exact fun y hy => absurd hy List.not_mem_nil

/-- `ABCDEFGH.TXT`. -/
def nome_cheio : List UInt8 := [65, 66, 67, 68, 69, 70, 71, 72, 46, 84, 88, 84]

/-- It fills both fields, and is listed without a zero behind it. -/
theorem a_full_name_is_listed_without_an_end : ∃ d' x,
    (Pedido.write []).faz pequeno disco_pequeno ⟨true, 2⟩ nome_cheio = some (0, d') ∧
      (Pedido.write []).lugar pequeno disco_pequeno ⟨true, 2⟩ nome_cheio = some x ∧
      ¬ Confere pequeno d' ⟨true, 2⟩ 64 nome_cheio x := by
  obtain ⟨d', hw⟩ := escreve_vazio nome_cheio (by decide +kernel)
  obtain ⟨pre, x, post, c, hlugar, _, hposto⟩ := posto pequeno_bem rfl .raiz cadeia_da_raiz
    (by decide) (by decide) hw (by decide)
  refine ⟨d', x, hw, hlugar, fun hcon => ?_⟩
  have hcurto := ((hposto.confere_iff rfl (by decide) (by decide) 64).mp hcon).1.curto
  refine hcurto ?_
  unfold Cheia
  decide +kernel

end Lista

end SpaceOS.Vfs
