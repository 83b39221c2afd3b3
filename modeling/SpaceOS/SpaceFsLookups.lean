-- Searches in a directory that entries come to and leave: its size, which is never made smaller,
-- covers every entry, and the first one with a name is found.
import SpaceOS.SpaceFsReadBack

open Lib.Bytes Lib.BlockProg SpaceOS.Ata
open Function (update update_self update_of_ne)

namespace SpaceOS.SpaceFs

/-! ## The entries in use, in the order of their places -/

/-- The inode numbers and names of the entries of a block. -/
def vivas_do_bloco (dblk : Setor) : List (Nat × List UInt8) :=
  (List.range SFS_DIRENTS_PER_BLK).filterMap fun e =>
    if dirent_inode dblk e = 0 then none
    else some (dirent_inode dblk e, nome_de (dblk.slice (32 * e) 32))

/-- Those of the block at place `b` of a directory, with the contents of the sectors. -/
def vivas_em (dado : Nat → Setor) (dir : Inode) (b : Nat) : List (Nat × List UInt8) :=
  if inode_block dir b = 0 then [] else vivas_do_bloco (dado (inode_block dir b))

/-- Those of a directory on the disk. -/
def vivas (d : Disco) (p : Nat) : List (Nat × List UInt8) :=
  (List.range 10).flatMap (vivas_em d (ino d p))

/-- The inode of the first entry with the name. -/
def primeira (l : List (Nat × List UInt8)) (tok : List UInt8) : Option Nat :=
  (l.find? fun x => x.2 = tok).map Prod.fst

/-! ## A directory whose size covers its entries -/

/-- Entry `e` of the block at place `b` is in use. -/
def Viva (x : Inode) (v : Volume) (b e : Nat) : Prop :=
  b < 10 ∧ inode_block x b ≠ 0 ∧ e < SFS_DIRENTS_PER_BLK ∧
    dirent_inode (v.dado (inode_block x b)) e ≠ 0

/-- The blocks of the directory come first, are marked and lie apart, and the entries in use lie
within its size and have names that end. -/
structure Listada (x : Inode) (v : Volume) : Prop where
  bons : Bons x
  prefixo : ∀ b < 10, inode_block x b ≠ 0 → ∀ c < b, inode_block x c ≠ 0
  marcado : ∀ b < 10, inode_block x b ≠ 0 → v.bmap (inode_block x b - SFS_DATA_START) = true
  distintos : Distintos x
  conta : ∀ {b e}, Viva x v b e → 16 * b + e < inode_size x / 32
  nul : ∀ {b e}, Viva x v b e → ((v.dado (inode_block x b)).slice (32 * e) 32).byte 31 = 0

section Busca

variable {x : Inode} {v : Volume} {tok : List UInt8}

/-- The search in one block, when its entries in use are among those left. -/
theorem find_vivas_do_bloco {dblk : Setor} (entries : Nat)
    (h : ∀ e < SFS_DIRENTS_PER_BLK, dirent_inode dblk e ≠ 0 →
      e < entries ∧ (dblk.slice (32 * e) 32).byte 31 = 0) :
    primeira (vivas_do_bloco dblk) tok =
      (busca_bloco dblk tok entries).map (dirent_inode dblk) := by
  have hnome : ∀ e ∈ List.range SFS_DIRENTS_PER_BLK,
      (if dirent_inode dblk e = 0 then none
        else some (dirent_inode dblk e, nome_de (dblk.slice (32 * e) 32))).any
          (fun x => decide (x.2 = tok)) =
        (decide (dirent_inode dblk e ≠ 0) && decide (dirent_name dblk e = tok)) := fun e he => by
    by_cases h0 : dirent_inode dblk e = 0
    · simp [h0]
    · have hlt := List.mem_range.mp he
      rw [if_neg h0, dirent_name_eq hlt (h e hlt h0).2]
      simp [h0]
  have hmin : (List.range SFS_DIRENTS_PER_BLK).find? (fun e =>
      decide (dirent_inode dblk e ≠ 0) && decide (dirent_name dblk e = tok)) =
        busca_bloco dblk tok entries := by
    unfold busca_bloco
    refine Option.ext fun e => ?_
    rw [List.find?_range_eq_some, List.find?_range_eq_some, List.mem_range, List.mem_range]
    refine and_congr_right fun hq => and_congr_left fun _ => ?_
    simp only [Bool.and_eq_true, decide_eq_true_eq] at hq
    exact ⟨fun hlt => Nat.lt_min.mpr ⟨hlt, (h e hlt hq.1).1⟩, fun hlt => (Nat.lt_min.mp hlt).1⟩
  unfold primeira vivas_do_bloco
  rw [List.find?_filterMap, find_congr hnome, hmin]
  cases hb : busca_bloco dblk tok entries with
  | none => rfl
  | some e =>
    obtain ⟨_, _, h0, _⟩ := Volume.busca_bloco_some hb
    rw [Option.bind_some, if_neg h0]
    rfl

theorem primeira_append (l m : List (Nat × List UInt8)) :
    primeira (l ++ m) tok = (primeira l tok).or (primeira m tok) := by
  unfold primeira
  rw [List.find?_append]
  cases l.find? fun x => decide (x.2 = tok) <;> rfl

theorem vivas_do_bloco_vazio {dblk : Setor}
    (h : ∀ e < SFS_DIRENTS_PER_BLK, dirent_inode dblk e = 0) : vivas_do_bloco dblk = [] :=
  List.filterMap_eq_nil_iff.mpr fun e he => if_pos (h e (List.mem_range.mp he))

/-- The search in a directory, from the block at place `k` on. -/
theorem Listada.busca (h : Listada x v) (k m : Nat) (hm : k + m ≤ 10) :
    v.busca x tok (List.range' k m) (inode_size x / 32 - 16 * k) =
      primeira ((List.range' k m).flatMap (vivas_em v.dado x)) tok := by
  induction m generalizing k with
  | zero => rfl
  | succ m ih =>
    rw [List.range'_succ, Volume.busca]
    -- where no block is left, or no entry, nothing is in use from here on
    have hnada : (∀ b, k ≤ b → b < 10 → vivas_em v.dado x b = []) →
        primeira ((k :: List.range' (k + 1) m).flatMap (vivas_em v.dado x)) tok = none := by
      intro hv
      rw [List.flatMap_eq_nil_iff.mpr fun b hb => ?_]
      · rfl
      · rw [← List.range'_succ] at hb
        have := List.mem_range'_1.mp hb
        exact hv b this.1 (by omega)
    by_cases he : inode_size x / 32 - 16 * k = 0
    · rw [if_pos he, hnada]
      intro b hkb hb
      unfold vivas_em
      by_cases h0 : inode_block x b = 0
      · rw [if_pos h0]
      · rw [if_neg h0]
        refine vivas_do_bloco_vazio fun e hlt => ?_
        by_contra hviva
        have := h.conta ⟨hb, h0, hlt, hviva⟩
        omega
    rw [if_neg he]
    by_cases h0 : inode_block x k = 0
    · rw [if_pos h0, hnada]
      intro b hkb hb
      unfold vivas_em
      rw [if_pos]
      by_contra hne
      rcases Nat.eq_or_lt_of_le hkb with rfl | hlt
      · exact hne h0
      · exact h.prefixo b hb hne k hlt h0
    rw [if_neg h0, List.flatMap_cons, primeira_append, ← ih (k + 1) (by omega)]
    have hk : vivas_em v.dado x k = vivas_do_bloco (v.dado (inode_block x k)) := if_neg h0
    rw [hk, find_vivas_do_bloco (inode_size x / 32 - 16 * k) fun e hlt hviva => ?_]
    · cases busca_bloco (v.dado (inode_block x k)) tok (inode_size x / 32 - 16 * k) with
      | some e => rfl
      | none =>
        have hsub : inode_size x / 32 - 16 * (k + 1) =
            inode_size x / 32 - 16 * k - SFS_DIRENTS_PER_BLK := by
          unfold SFS_DIRENTS_PER_BLK
          omega
        rw [hsub]
        rfl
    · have hv : Viva x v k e := ⟨by omega, h0, hlt, hviva⟩
      have := h.conta hv
      exact ⟨by omega, h.nul hv⟩

end Busca

/-! ## An entry comes -/

section Entra

variable {x : Inode} {v : Volume} {b s e : Nat}

/-- A sector that is free is none of the directory. -/
theorem Listada.livre (h : Listada x v) {n c : Nat} (hfree : v.bmap n = false) (hc : c < 10)
    (h0 : inode_block x c ≠ 0) : inode_block x c ≠ SFS_DATA_START + n := fun hs => by
  have hm := h.marcado c hc h0
  rw [hs, Nat.add_sub_cancel_left, hfree] at hm
  exact absurd hm (by decide)

/-- A free sector, cleared, becomes the next block of the directory. -/
theorem Listada.toma (h : Listada x v) (hb : b < 10) (h0 : inode_block x b = 0)
    (hpre : ∀ c < b, inode_block x c ≠ 0) {n : Nat} (hn : n < BMAP_BITS)
    (hfree : v.bmap n = false) :
    Listada (inode_por_block x b (SFS_DATA_START + n)) (v.tomou n ByteStr.zero) := by
  have hs : DeDados (SFS_DATA_START + n) := ⟨Nat.le_add_right _ _, Nat.add_lt_add_left hn _⟩
  have hself : inode_block (inode_por_block x b (SFS_DATA_START + n)) b = SFS_DATA_START + n := by
    rw [block_por_block_self _ _ hb, Nat.mod_eq_of_lt]
    simp only [DeDados, SFS_DATA_START, BMAP_BITS_eq] at hs ⊢
    omega
  have hne : ∀ c < 10, c ≠ b →
      inode_block (inode_por_block x b (SFS_DATA_START + n)) c = inode_block x c :=
    fun c hc hcb => block_por_block_ne _ _ hc hcb
  have hviva : ∀ {c e}, Viva (inode_por_block x b (SFS_DATA_START + n))
      (v.tomou n ByteStr.zero) c e → c ≠ b ∧ Viva x v c e := fun {c e} hv => by
    obtain ⟨hc, hc0, he, hd⟩ := hv
    change dirent_inode (update v.dado (SFS_DATA_START + n) ByteStr.zero _) e ≠ 0 at hd
    have hcb : c ≠ b := by
      rintro rfl
      rw [hself, update_self] at hd
      exact hd (dirent_zero e)
    rw [hne c hc hcb] at hc0 hd
    rw [update_of_ne (h.livre hfree hc hc0)] at hd
    exact ⟨hcb, hc, hc0, he, hd⟩
  refine ⟨h.bons.por_block hb hs, fun c hc hc0 a ha => ?_, fun c hc hc0 => ?_, ?_, fun hv => ?_,
    fun {c e} hv => ?_⟩
  · by_cases hab : a = b
    · rw [hab, hself]
      unfold SFS_DATA_START
      omega
    · rw [hne a (by omega) hab]
      by_cases hcb : c = b
      · exact hpre a (by omega)
      · rw [hne c hc hcb] at hc0
        exact h.prefixo c hc hc0 a ha
  · change update v.bmap n true _ = true
    by_cases hcb : c = b
    · rw [hcb, hself, Nat.add_sub_cancel_left, update_self]
    · rw [hne c hc hcb] at hc0 ⊢
      by_cases hcn : inode_block x c - SFS_DATA_START = n
      · rw [hcn, update_self]
      · rw [update_of_ne hcn]
        exact h.marcado c hc hc0
  · exact Distintos.por_block (fun h1 h2 => h.distintos h1 h2) hb h0 hs fun c ht =>
      h.livre hfree ht.1 (ht.2.1 ▸ ht.2.2) ht.2.1
  · rw [size_por_block _ _ hb]
    exact h.conta (hviva hv).2
  · obtain ⟨hcb, hv⟩ := hviva hv
    rw [hne c hv.1 hcb]
    change ((update v.dado (SFS_DATA_START + n) ByteStr.zero _).slice _ _).byte 31 = 0
    rw [update_of_ne (h.livre hfree hv.1 hv.2.1)]
    exact h.nul hv

/-- The directory `x'` with its block `b` at `s`, over the volume `v'`, is `x` over `v` in front of
that block. -/
structure Aberta (x : Inode) (v : Volume) (b s : Nat) (x' : Inode) (v' : Volume) : Prop where
  listada : Listada x' v'
  bloco : inode_block x' b = s
  nao_zero : s ≠ 0
  size : inode_size x' = inode_size x
  type : inode_type x' = inode_type x
  ino : v'.ino = v.ino
  antes : ∀ c < b, inode_block x' c = inode_block x c ∧
    v'.dado (inode_block x c) = v.dado (inode_block x c)

/-- A block is there, or a free one that is cleared takes its place. -/
theorem Listada.abre (h : Listada x v) (hb : b < 10) (hpre : ∀ c < b, inode_block x c ≠ 0)
    {x' : Inode} {dblk : Setor} {w : Volume} (ha : v.abre_bloco x b = (some (s, x', dblk), w)) :
    Aberta x v b s x' (w.por_dado s dblk) := by
  rcases Volume.abre_bloco_cases ha with ⟨h0, n, hn, hfree, rfl, rfl, rfl, rfl⟩ |
    ⟨h0, hs, hx, hd, hw⟩
  · refine ⟨h.toma hb h0 hpre hn hfree, ?_, ?_, size_por_block _ _ hb, type_por_block _ _ _, rfl,
      fun c hcb => ⟨block_por_block_ne _ _ (by omega) (by omega), ?_⟩⟩
    · rw [block_por_block_self _ _ hb, Nat.mod_eq_of_lt]
      unfold SFS_DATA_START
      rw [BMAP_BITS_eq] at hn
      omega
    · unfold SFS_DATA_START
      omega
    · exact update_of_ne (h.livre hfree (by omega) (hpre c hcb)) _ _
  · have hself : v.por_dado (inode_block x b) (v.dado (inode_block x b)) = v := by
      unfold Volume.por_dado
      rw [Function.update_eq_self]
    rw [hs, hx, hd, hw, hself]
    exact ⟨h, rfl, h0, rfl, rfl, rfl, fun c _ => ⟨rfl, rfl⟩⟩

/-- One entry of a block is written, and the size may grow. -/
theorem Listada.troca (h : Listada x v) (hb : b < 10) (h0 : inode_block x b ≠ 0) {x' : Inode}
    {dblk' : Setor} (hbloco : ∀ c, inode_block x' c = inode_block x c)
    (hsize : inode_size x ≤ inode_size x')
    (hne : ∀ f < SFS_DIRENTS_PER_BLK, f ≠ e →
      dirent_inode dblk' f = dirent_inode (v.dado (inode_block x b)) f ∧
      dblk'.slice (32 * f) 32 = (v.dado (inode_block x b)).slice (32 * f) 32)
    (hself : dirent_inode dblk' e ≠ 0 → 16 * b + e < inode_size x' / 32 ∧
      (dblk'.slice (32 * e) 32).byte 31 = 0) :
    Listada x' (v.por_dado (inode_block x b) dblk') := by
  have hdado : ∀ c < 10, inode_block x c ≠ 0 → c ≠ b →
      (v.por_dado (inode_block x b) dblk').dado (inode_block x c) = v.dado (inode_block x c) :=
    fun c hc hc0 hcb => update_of_ne
      (fun hs => hcb (h.distintos ⟨hc, rfl, hc0⟩ ⟨hb, hs.symm, hc0⟩)) _ _
  have hdado_b : (v.por_dado (inode_block x b) dblk').dado (inode_block x b) = dblk' :=
    update_self _ _ _
  -- an entry in use is the one written, or was in use before and has its bytes
  have hviva : ∀ {c f}, Viva x' (v.por_dado (inode_block x b) dblk') c f →
      (c = b ∧ f = e ∧ dirent_inode dblk' e ≠ 0) ∨
        (Viva x v c f ∧ ((v.por_dado (inode_block x b) dblk').dado (inode_block x c)).slice
          (32 * f) 32 = (v.dado (inode_block x c)).slice (32 * f) 32) := by
    rintro c f ⟨hc, hc0, hf, hd⟩
    rw [hbloco] at hc0 hd
    by_cases hcb : c = b
    · subst hcb
      rw [hdado_b] at hd ⊢
      by_cases hfe : f = e
      · subst hfe
        exact Or.inl ⟨rfl, rfl, hd⟩
      · obtain ⟨h1, h2⟩ := hne f hf hfe
        rw [h1] at hd
        exact Or.inr ⟨⟨hc, hc0, hf, hd⟩, h2⟩
    · rw [hdado c hc hc0 hcb] at hd ⊢
      exact Or.inr ⟨⟨hc, hc0, hf, hd⟩, rfl⟩
  refine ⟨fun c hc hc0 => ?_, fun c hc hc0 a ha => ?_, fun c hc hc0 => ?_, ?_, fun {c f} hv => ?_,
    fun {c f} hv => ?_⟩
  · rw [hbloco] at hc0 ⊢
    exact h.bons c hc hc0
  · rw [hbloco] at hc0 ⊢
    exact h.prefixo c hc hc0 a ha
  · rw [hbloco] at hc0 ⊢
    exact h.marcado c hc hc0
  · intro c a t h1 h2
    unfold Tem at h1 h2
    rw [hbloco] at h1 h2
    exact h.distintos h1 h2
  · rcases hviva hv with ⟨rfl, rfl, hd⟩ | ⟨hv, _⟩
    · exact (hself hd).1
    · have := h.conta hv
      omega
  · rw [hbloco]
    rcases hviva hv with ⟨rfl, rfl, hd⟩ | ⟨hv, hs⟩
    · rw [hdado_b]
      exact (hself hd).2
    · rw [hs]
      exact h.nul hv

/-- The first entry that is free is the next one after entries in use. -/
theorem Listada.conta_nova (h : Listada x v) (hb : b < 10) (h0 : inode_block x b ≠ 0)
    (hpre : ∀ c < b, Cheio v x c) (he : e < SFS_DIRENTS_PER_BLK)
    (hv : Volume.vaga (v.dado (inode_block x b)) = some e) : 16 * b + e ≤ inode_size x / 32 := by
  rcases Nat.eq_zero_or_pos e with rfl | he0
  · rcases Nat.eq_zero_or_pos b with rfl | hb0
    · exact Nat.zero_le _
    · obtain ⟨h1, h2⟩ := hpre (b - 1) (by omega)
      have h15 : 15 < SFS_DIRENTS_PER_BLK := by decide
      have := h.conta (b := b - 1) (e := 15) ⟨by omega, h1, h15, vaga_none h2 h15⟩
      omega
  · have := h.conta (e := e - 1) ⟨hb, h0, by omega, vaga_antes hv (by omega)⟩
    omega

/-- An entry put into the first free place. -/
theorem Listada.entra (h : Listada x v) (hb : b < 10) (h0 : inode_block x b ≠ 0)
    (hpre : ∀ c < b, Cheio v x c) (hv : Volume.vaga (v.dado (inode_block x b)) = some e)
    (hsize : inode_size x + 32 < 2 ^ 32) (child : Nat) (name : List UInt8) :
    Listada (inode_por_size x (inode_size x + 32)) (v.por_dado (inode_block x b)
      (dirent_por (v.dado (inode_block x b)) e child name)) := by
  have he := (vaga_some _ hv).1
  have hs : inode_size (inode_por_size x (inode_size x + 32)) = inode_size x + 32 := by
    rw [size_por_size, Nat.mod_eq_of_lt hsize]
  refine h.troca (e := e) hb h0 (fun c => block_por_size _ _ _) (by omega) (fun f hf hfe => ?_)
    fun _ => ⟨?_, nul_dirent_por he⟩
  · exact ⟨dirent_por_ne _ _ _ hf hfe, slice_dirent_por_ne hf hfe⟩
  · have := h.conta_nova hb h0 hpre he hv
    omega

theorem Listada.por_ino (h : Listada x v) (i : Nat) (y : Inode) : Listada x (v.por_ino i y) :=
  ⟨h.bons, h.prefixo, h.marcado, h.distintos, h.conta, h.nul⟩

/-- `dir_add_entry` keeps the directory as it should be. -/
theorem listada_dir_add {p : Nat} (h : Listada (v.ino p) v)
    (hsize : inode_size (v.ino p) + 32 < 2 ^ 32) (child : Nat) (name : List UInt8) :
    Listada ((v.dir_add_entry p child name).2.ino p) (v.dir_add_entry p child name).2 ∧
      inode_type ((v.dir_add_entry p child name).2.ino p) = inode_type (v.ino p) ∧
      inode_size ((v.dir_add_entry p child name).2.ino p) ≤ inode_size (v.ino p) + 32 := by
  unfold Volume.dir_add_entry
  rcases dir_add_laco_cases p child name (List.range 10) (v.ino p) v with ⟨he, _⟩ |
    ⟨pre, b, post, s, x', dblk, w, e, hr, hpre, ha, hv, he⟩
  · rw [he]
    exact ⟨h, rfl, Nat.le_add_right _ _⟩
  have hb : b < 10 := List.mem_range.mp (by rw [hr]; simp)
  rw [range_append_cons hr] at hpre
  have hcheio : ∀ c < b, Cheio v (v.ino p) c := fun c hc => hpre c (List.mem_range.mpr hc)
  have hab := h.abre hb (fun c hc => (hcheio c hc).1) ha
  have hdado : (w.por_dado s dblk).dado (inode_block x' b) = dblk := by
    rw [hab.bloco]
    exact update_self _ _ _
  have hent := hab.listada.entra (e := e) hb (by rw [hab.bloco]; exact hab.nao_zero) (fun c hc => by
    obtain ⟨h1, h2⟩ := hab.antes c hc
    unfold Cheio
    rw [h1, h2]
    exact hcheio c hc) (by rw [hdado]; exact hv) (by rw [hab.size]; exact hsize) child name
  have hdup : (w.por_dado s dblk).por_dado s (dirent_por dblk e child name) =
      w.por_dado s (dirent_por dblk e child name) := by
    unfold Volume.por_dado
    dsimp only
    rw [Function.update_idem]
  rw [hdado, hab.bloco, hdup] at hent
  have hino : ((w.por_dado s (dirent_por dblk e child name)).por_ino p
      (inode_por_size x' (inode_size x' + 32))).ino p =
        inode_por_size x' (inode_size x' + 32) := update_self _ _ _
  rw [he]
  dsimp only
  rw [hino]
  refine ⟨hent.por_ino _ _, by rw [type_por_size, hab.type], ?_⟩
  rw [size_por_size, hab.size]
  exact Nat.mod_le _ _

end Entra

/-! ## An entry leaves -/

section Tira

variable {x : Inode} {v : Volume}

theorem Listada.tira (h : Listada x v) (i : Nat) :
    Listada x (Volume.dir_remove x i (List.range 10) v) := by
  rcases dir_remove_cases x v i (List.range 10) with he | ⟨b, hb, h0, e, hlt, he⟩
  · rw [he]
    exact h
  · rw [he]
    refine h.troca (e := e) (List.mem_range.mp hb) h0 (fun _ => rfl) (Nat.le_refl _)
      (fun f hf hfe => ⟨dirent_por_inode_ne _ _ hf hfe, slice_dirent_por_inode_ne hfe⟩) fun hd => ?_
    rw [dirent_por_inode_self _ _ hlt] at hd
    exact absurd rfl hd

end Tira

/-! ## Runs -/

/-- What `spfs_unlink` does to the directory: it is read, and the entry of `inum` in it cleared. -/
def unlink_entry (parent inum : Nat) : S Unit := do
  match ← inode_read parent with
  | none => pure ()
  | some dir => dir_remove dir inum (List.range 10)

/-- A call on the entries of a directory. -/
inductive Operacao where
  | dir_add_entry (child : Nat) (name : List UInt8)
  | unlink_entry (inum : Nat)

namespace Operacao

def executa (p : Nat) : Operacao → StateT Mem (Prog Setor) Unit
  | .dir_add_entry child name => do
    let _ ← pelo_journal (SpaceFs.dir_add_entry p child name)
  | .unlink_entry inum => do
    let _ ← pelo_journal (SpaceFs.unlink_entry p inum)

/-- What the call does to a volume. -/
def no_volume (p : Nat) (v : Volume) : Operacao → Volume
  | .dir_add_entry child name => (v.dir_add_entry p child name).2
  | .unlink_entry inum => Volume.dir_remove (v.ino p) inum (List.range 10) v

/-- The number of entries it may add. -/
def somas : Operacao → Nat
  | .dir_add_entry _ _ => 1
  | .unlink_entry _ => 0

end Operacao

/-- The states of a run of calls on the entries of directory `p`, which is empty at first, after `n`
calls of `dir_add_entry`. -/
inductive Trajeto (p : Nat) : Nat → Mem → Disco → Prop
  | vazio {m : Mem} {d : Disco} {v : Volume} (hv : Vivo m d v) (hp : p < SFS_INODE_MAX)
    (ht : inode_type (ino d p) = 2) (hs : inode_size (ino d p) = 0)
    (hb : ∀ b < 10, inode_block (ino d p) b = 0) : Trajeto p 0 m d
  | faz {n : Nat} {m m' : Mem} {d d' : Disco} {o : Operacao} (h : Trajeto p n m d)
    (he : ((o.executa p).run m).exec d = some (((), m'), d')) : Trajeto p (n + o.somas) m' d'

/-- Directory `p` of the volume, after `n` calls of `dir_add_entry`. -/
structure Contado (p n : Nat) (v : Volume) : Prop where
  lt : p < SFS_INODE_MAX
  dir : inode_type (v.ino p) = 2
  size : inode_size (v.ino p) ≤ 32 * n
  listada : Listada (v.ino p) v

section Trajetos

variable {p n : Nat} {m : Mem} {d : Disco} {v : Volume}

theorem Contado.faz (h : Contado p n v) (o : Operacao) (hn : n + o.somas < 2 ^ 27) :
    Contado p (n + o.somas) (o.no_volume p v) := by
  have hsize := h.size
  cases o with
  | dir_add_entry child name =>
    change n + 1 < 2 ^ 27 at hn
    obtain ⟨h1, h2, h3⟩ := listada_dir_add h.listada (by omega) child name
    refine ⟨h.lt, h2.trans h.dir, ?_, h1⟩
    change inode_size ((v.dir_add_entry p child name).2.ino p) ≤ 32 * (n + 1)
    omega
  | unlink_entry inum =>
    have hino := dir_remove_ino (v.ino p) v inum (List.range 10)
    refine ⟨h.lt, ?_, ?_, ?_⟩
    · change inode_type ((Volume.dir_remove _ _ _ v).ino p) = 2
      rw [hino]
      exact h.dir
    · change inode_size ((Volume.dir_remove _ _ _ v).ino p) ≤ 32 * n
      rw [hino]
      exact hsize
    · change Listada ((Volume.dir_remove _ _ _ v).ino p) (Volume.dir_remove _ _ _ v)
      rw [hino]
      exact h.listada.tira inum

/-- Every call returns. -/
theorem Contado.executa (h : Contado p n v) (hv : Vivo m d v) (o : Operacao) :
    ∃ m' d', ((o.executa p).run m).exec d = some (((), m'), d') ∧ Vivo m' d' (o.no_volume p v) := by
  cases o with
  | dir_add_entry child name =>
    obtain ⟨m', d', he, hv'⟩ := ((anota_dir_add_entry h.lt h.listada.bons child name).refina
      (Anotado.forgets_dir_add_entry p child name)).pelo_journal hv
    exact ⟨m', d', exec_descarta he, hv'⟩
  | unlink_entry inum =>
    have hr : Refina (unlink_entry p inum) v
        ((), Volume.dir_remove (v.ino p) inum (List.range 10) v) :=
      (refina_inode_read h.lt).lift.bind (refina_dir_remove h.listada.bons inum
        (fun _ hb => List.mem_range.mp hb) v).lift
    obtain ⟨m', d', he, hv'⟩ := hr.pelo_journal hv
    exact ⟨m', d', exec_descarta he, hv'⟩

theorem contado_vazio (hv : Vivo m d v) (hp : p < SFS_INODE_MAX) (ht : inode_type (ino d p) = 2)
    (hs : inode_size (ino d p) = 0) (hb : ∀ b < 10, inode_block (ino d p) b = 0) :
    Contado p 0 v := by
  rw [hv.rep.ino p hp] at ht hs hb
  have hviva : ∀ {b e}, ¬ Viva (v.ino p) v b e := fun hx => hx.2.1 (hb _ hx.1)
  exact ⟨hp, ht, by omega, ⟨fun b hlt h0 => absurd (hb b hlt) h0,
    fun b hlt h0 => absurd (hb b hlt) h0, fun b hlt h0 => absurd (hb b hlt) h0,
    fun h1 _ => absurd (h1.2.1.symm.trans (hb _ h1.1)) h1.2.2, fun hx => absurd hx hviva,
    fun hx => absurd hx hviva⟩⟩

theorem Trajeto.contado (h : Trajeto p n m d) (hn : n < 2 ^ 27) :
    ∃ v, Vivo m d v ∧ Contado p n v := by
  induction h with
  | vazio hv hp ht hs hb => exact ⟨_, hv, contado_vazio hv hp ht hs hb⟩
  | @faz n m m' d d' o _ he ih =>
    obtain ⟨v, hv, hc⟩ := ih (by omega)
    obtain ⟨m1, d1, he1, hv1⟩ := hc.executa hv o
    rw [he1] at he
    cases he
    exact ⟨_, hv1, hc.faz o hn⟩

end Trajetos

/-! ## A search on the disk -/

/-- The inodes and sectors as a search on the disk finds them. -/
def lidos (d : Disco) : Volume := Volume.novo fun s => d (setor s)

section Disco

variable (t : Journal.Mem) (d : Disco)

/-- A read through the log is one of the disk. -/
theorem exec_over_read {α : Type} (n : Nat) (f : Option Setor → Prog Setor α) :
    (((sfs_read_sec n >>= f).over journal_driver).run t).exec d =
      (((f (some (d (setor n)))).over journal_driver).run t).exec d := rfl

theorem exec_busca_dir (dir : Inode) (tok : List UInt8) (l : List Nat) (entries : Nat) :
    (((busca_dir dir tok l entries).over journal_driver).run t).exec d =
      some (((lidos d).busca dir tok l entries, t), d) := by
  induction l generalizing entries with
  | nil => rfl
  | cons b l ih =>
    rw [busca_dir, Volume.busca]
    by_cases he : entries = 0
    · rw [if_pos he, if_pos he]
      rfl
    rw [if_neg he, if_neg he]
    by_cases h0 : inode_block dir b = 0
    · rw [if_pos h0, if_pos h0]
      rfl
    rw [if_neg h0, if_neg h0]
    have hd : (lidos d).dado (inode_block dir b) = d (setor (inode_block dir b)) := rfl
    rw [exec_over_read, hd]
    dsimp only
    cases busca_bloco (d (setor (inode_block dir b))) tok entries with
    | some e => rfl
    | none => exact ih _

theorem exec_path_laco (toks : List (List UInt8)) (cur parent : Nat) :
    (((path_laco toks cur parent).over journal_driver).run t).exec d =
      some (((lidos d).caminho toks cur parent, t), d) := by
  induction toks generalizing cur parent with
  | nil => rfl
  | cons tok toks ih =>
    rw [path_laco, Volume.caminho]
    by_cases ht : tok = []
    · rw [if_pos ht, if_pos ht]
      exact ih _ _
    rw [if_neg ht, if_neg ht]
    change (((if inode_type ((lidos d).ino cur) ≠ 2 then Prog.ret none
      else busca_dir ((lidos d).ino cur) tok (List.range 10)
        (inode_size ((lidos d).ino cur) / 32) >>= fun r => _ :
          Prog Setor (Option (Nat × Nat))).over journal_driver).run t).exec d = _
    unfold Volume.entra
    by_cases h2 : inode_type ((lidos d).ino cur) ≠ 2
    · rw [if_pos h2, if_pos h2]
      rfl
    rw [if_neg h2, if_neg h2, Prog.exec_over_bind, exec_busca_dir, Option.bind_some]
    cases (lidos d).busca ((lidos d).ino cur) tok (List.range 10)
        (inode_size ((lidos d).ino cur) / 32) with
    | none => rfl
    | some i => exact ih _ _

variable {m : Mem}

/-- A program that leaves all as it is, run over the log. -/
theorem exec_pelo_journal {α : Type} {x : S α} {a : α}
    (h : (((x.run m.fs).over journal_driver).run m.journal).exec d =
      some (((a, m.fs), m.journal), d)) :
    ((pelo_journal x).run m).exec d = some ((a, m), d) := by
  change ((((x.run m.fs).over journal_driver).run m.journal) >>= fun r =>
    Prog.ret (r.1.1, (⟨r.1.2, r.2⟩ : Mem))).exec d = _
  rw [Prog.exec_bind, h]
  rfl

theorem exec_path_find (hr : super_root_inode m.fs.sb = 0) (path : List UInt8) :
    ((((path_find path).run m.fs).over journal_driver).run m.journal).exec d =
      some ((((lidos d).resolve path, m.fs), m.journal), d) := by
  change (((path_laco (Volume.componentes path) (super_root_inode m.fs.sb)
    (super_root_inode m.fs.sb) >>= fun a => Prog.ret (a, m.fs)).over journal_driver).run
      m.journal).exec d = _
  rw [hr, Prog.exec_over_bind, exec_path_laco]
  rfl

theorem exec_parent_find (hr : super_root_inode m.fs.sb = 0) (path : List UInt8) :
    ((((parent_find path).run m.fs).over journal_driver).run m.journal).exec d =
      some ((((lidos d).parent_find path, m.fs), m.journal), d) := by
  unfold parent_find Volume.parent_find
  by_cases hp : path = []
  · rw [if_pos hp, if_pos hp]
    rfl
  · rw [if_neg hp, if_neg hp, StateT.run_bind, Prog.exec_over_bind, exec_path_find d hr]
    cases (lidos d).resolve path <;> rfl

end Disco

/-! ## The law -/

/-- A search in the directory on the disk. -/
theorem Contado.entra {p n : Nat} {m : Mem} {d : Disco} {v : Volume} (h : Contado p n v)
    (hv : Vivo m d v) (tok : List UInt8) : (lidos d).entra p tok = primeira (vivas d p) tok := by
  have hino : ino d p = v.ino p := hv.rep.ino p h.lt
  have hlido : (lidos d).ino p = v.ino p := by
    have hsec : setor (inode_sector p) = inode_sector p := setor_eq (zona_inode h.lt).1
    change ((d (setor (inode_sector p))).slice (inode_off p) 64) = _
    rw [hsec]
    exact hino
  have hdado : ∀ b < 10, inode_block (v.ino p) b ≠ 0 →
      d (inode_block (v.ino p) b) = v.dado (inode_block (v.ino p) b) := fun b hb h0 =>
    hv.rep.dado _ (h.listada.bons b hb h0)
  have hvivas : vivas d p = (List.range 10).flatMap (vivas_em v.dado (v.ino p)) := by
    unfold vivas
    rw [hino]
    rw [List.flatMap_def, List.flatMap_def, List.map_congr_left fun b hb => ?_]
    unfold vivas_em
    by_cases h0 : inode_block (v.ino p) b = 0
    · rw [if_pos h0, if_pos h0]
    · rw [if_neg h0, if_neg h0, hdado b (List.mem_range.mp hb) h0]
  have hbusca : v.busca (v.ino p) tok (List.range' 0 10) (inode_size (v.ino p) / 32 - 16 * 0) = _ :=
    h.listada.busca 0 10 (Nat.le_refl _)
  rw [Nat.mul_zero, Nat.sub_zero, ← List.range_eq_range'] at hbusca
  unfold Volume.entra
  rw [hlido, if_neg (not_not.mpr h.dir), hvivas, ← hbusca]
  refine busca_congr (fun b hb h0 => ?_) _
  have hs := (h.listada.bons b (List.mem_range.mp hb) h0).zona.1
  change d (setor (inode_block (v.ino p) b)) = _
  rw [setor_eq hs]
  exact hdado b (List.mem_range.mp hb) h0

/-- In every run of fewer than 2^27 calls of `dir_add_entry`, and of removals, on a directory that
is empty at first, a path through it leads to the inode of the first entry with the name, and
nowhere just when no entry has it. -/
theorem a_search_finds_the_first_entry {p n : Nat} {m m' : Mem} {d d' : Disco} {path : List UInt8}
    (h : Trajeto p n m d) (hn : n < 2 ^ 27) (hc : Caminho path) (h0 : (path_split path).2 ≠ [])
    (hp : ((pelo_journal (parent_find (path_split path).1)).run m).exec d =
      some ((some p, m'), d')) :
    ((pelo_journal (path_find path)).run m).exec d =
      some (((primeira (vivas d p) (path_split path).2).map fun i => (i, p), m), d) := by
  obtain ⟨v, hv, hcont⟩ := h.contado hn
  rw [exec_pelo_journal d (exec_parent_find d hv.rep.root _)] at hp
  have hpar : (lidos d).parent_find (path_split path).1 = some p := by
    have := Option.some.inj hp
    exact congrArg (fun r => r.1.1) this
  rw [exec_pelo_journal d (exec_path_find d hv.rep.root path), resolve_parent _ hc.1 h0, hpar,
    Option.bind_some, hcont.entra hv]

/-- After a mount and one call of `dir_add_entry` on the root. -/
theorem a_search_finds_the_first_entry_of_the_root : ∃ m d, Trajeto 0 1 m d ∧
    ((pelo_journal (path_find [97])).run m).exec d =
      some (((primeira (vivas d 0) [97]).map fun i => (i, 0), m), d) := by
  obtain ⟨m, d, -, hv, hr⟩ := alcanca_vazio (fun _ h => h) Poupa
  have ht : Trajeto 0 0 m d := .vazio hv (by decide) (by rw [hr, type_novo])
    (by rw [hr, size_novo]) fun b hb => by rw [hr, block_novo _ _ hb]
  obtain ⟨v, hv, hc⟩ := ht.contado (by decide)
  obtain ⟨m1, d1, he, -⟩ := hc.executa hv (.dir_add_entry 5 [97])
  have ht1 : Trajeto 0 1 m1 d1 := ht.faz he
  have hp : ((pelo_journal (parent_find (path_split [97]).1)).run m1).exec d1 =
      some ((some 0, m1), d1) := rfl
  exact ⟨m1, d1, ht1, a_search_finds_the_first_entry ht1 (by decide) (by unfold Caminho; decide)
    (by decide) hp⟩

end SpaceOS.SpaceFs
