-- A file that is written over a chain of clusters and read back, on any volume whose sectors of the
-- FAT and of the clusters are distinct.
import SpaceOS.Fat32Freeing
import SpaceOS.Fat32Laws

open Lib.Bytes Lib.Bytes.ByteStr Lib.Links Lib.Trail

namespace SpaceOS.Fat32

section Volta

variable {v : Bpb} {d d' : Disco} {c c' m n x l : Nat} {dados : List UInt8} {cs ks ns : List Nat}

/-- The sectors of the FAT and of the clusters are pairwise distinct. Less than 0x0FFFFFF0 clusters
are always few enough. -/
structure Distintos (v : Bpb) : Prop where
  spc_pos : 0 < v.spc
  clusters_le : v.total_clusters + 2 ≤ FAT32_EOF
  dados : ∀ c c' s s', EmFaixa v c → EmFaixa v c' → s < v.spc → s' < v.spc →
    cluster_to_lba v c + s = cluster_to_lba v c' + s' → c = c' ∧ s = s'
  fat : ∀ c c' s, EmFaixa v c → EmFaixa v c' → s < v.spc → fat_sector v c ≠ cluster_to_lba v c' + s

/-- A volume whose regions lie one behind the other. -/
theorem Geometria.distintos (g : Geometria v) : Distintos v := by
  refine ⟨g.spc_pos, g.clusters_le, fun c c' s s' hc hc' hs hs' he => lba_inj g hc hc' hs hs' he, ?_⟩
  intro c c' s hc hc' _ he
  have hfat := fat_sector_lt g hc
  have hdados := data_le_lba (s := s) g hc'
  omega

theorem Distintos.lt_eof (g : Distintos v) (h : EmFaixa v c) : c < FAT32_EOF := by
  have := g.clusters_le
  unfold EmFaixa at h
  omega

theorem Distintos.lt (g : Distintos v) (h : EmFaixa v c) : c < 2 ^ 28 := by
  have := g.lt_eof h
  have := eof_eq
  omega

theorem read_fat_entrada (v : Bpb) (d : Disco) (c : Nat) :
    fat32_read_fat v d c = entrada_fat v d c % 2 ^ 28 := rfl

theorem read_fat_congr (h : entrada_fat v d' c = entrada_fat v d c) :
    fat32_read_fat v d' c = fat32_read_fat v d c := by
  rw [read_fat_entrada, read_fat_entrada, h]

theorem read_fat_escrita (v : Bpb) (d : Disco) (c n : Nat) :
    fat32_read_fat v (fat32_write_fat_entry v d c n) c = n % 2 ^ 28 := by
  rw [read_fat_entrada, entrada_write_self, Nat.mod_mod]

/-! ## What a write leaves -/

/-- The entry of a cluster in the FAT and its sectors are the same on both disks. -/
structure MesmoCluster (v : Bpb) (d d' : Disco) (x : Nat) : Prop where
  entrada : entrada_fat v d' x = entrada_fat v d x
  setores : ∀ s < v.spc, d' (cluster_to_lba v x + s) = d (cluster_to_lba v x + s)

/-- The clusters of the volume outside a list are as they were. -/
def Intactos (v : Bpb) (cs : List Nat) (d d' : Disco) : Prop :=
  ∀ x, EmFaixa v x → x ∉ cs → MesmoCluster v d d' x

theorem MesmoCluster.trans {d'' : Disco} (h : MesmoCluster v d d' x)
    (h' : MesmoCluster v d' d'' x) : MesmoCluster v d d'' x :=
  ⟨h'.entrada.trans h.entrada, fun s hs => (h'.setores s hs).trans (h.setores s hs)⟩

theorem Intactos.trans {d'' : Disco} (h : Intactos v cs d d') (h' : Intactos v cs d' d'') :
    Intactos v cs d d'' :=
  fun x hx hn => (h x hx hn).trans (h' x hx hn)

theorem Intactos.mono (h : Intactos v cs d d') (hs : cs ⊆ ks) : Intactos v ks d d' :=
  fun x hx hn => h x hx fun hmem => hn (hs hmem)

theorem escrita_fat_setores (g : Distintos v) (hc : EmFaixa v c) (hx : EmFaixa v x) (n : Nat) :
    ∀ s < v.spc, fat32_write_fat_entry v d c n (cluster_to_lba v x + s) =
      d (cluster_to_lba v x + s) := by
  intro s hs
  unfold fat32_write_fat_entry
  exact gravar_ne _ (g.fat c x s hc hx hs).symm

theorem intactos_fat (g : Distintos v) (hc : EmFaixa v c) (n : Nat) :
    Intactos v [c] d (fat32_write_fat_entry v d c n) := by
  intro x hx hn
  have hne : x ≠ c := fun he => hn (List.mem_singleton.mpr he)
  exact ⟨entrada_write_ne (g.lt hc) (g.lt hx) n hne, escrita_fat_setores g hc hx n⟩

/-- Only sectors of a cluster are written. -/
def SoSetores (v : Bpb) (c : Nat) (d d' : Disco) : Prop :=
  ∀ l, (∀ s < v.spc, l ≠ cluster_to_lba v c + s) → d' l = d l

theorem SoSetores.trans {d'' : Disco} (h : SoSetores v c d d') (h' : SoSetores v c d' d'') :
    SoSetores v c d d'' :=
  fun l hl => (h' l hl).trans (h l hl)

theorem so_setores_gravar {s : Nat} (hs : s < v.spc) (b : Setor) :
    SoSetores v c d (gravar d (cluster_to_lba v c + s) b) :=
  fun _ hl => gravar_ne b (hl s hs)

/-- The FAT stays as it was. -/
theorem SoSetores.entrada (g : Distintos v) (hc : EmFaixa v c) (h : SoSetores v c d d')
    (hx : EmFaixa v x) : entrada_fat v d' x = entrada_fat v d x := by
  unfold entrada_fat
  rw [h _ fun s hs => g.fat x c s hx hc hs]

theorem SoSetores.intactos (g : Distintos v) (hc : EmFaixa v c) (h : SoSetores v c d d') :
    Intactos v [c] d d' := by
  intro x hx hn
  refine ⟨h.entrada g hc hx, fun s hs => h _ fun s' hs' he => hn ?_⟩
  rw [(g.dados x c s s' hx hc hs hs' he).1]
  exact List.mem_singleton_self c

/-! ## The contents of a cluster -/

/-- A loop that writes some of the sectors from `a` on. -/
theorem foldl_gravar (q : Nat → Prop) [DecidablePred q] (b : Nat → Setor) (a k : Nat) (d : Disco)
    (l : Nat) :
    (List.range k).foldl (fun d s => if q s then gravar d (a + s) (b s) else d) d l =
      if a ≤ l ∧ l < a + k ∧ q (l - a) then b (l - a) else d l := by
  induction k with
  | zero =>
    rw [if_neg (by omega)]
    rfl
  | succ k ih =>
    rw [List.range_succ, List.foldl_append, List.foldl_cons, List.foldl_nil]
    by_cases hl : l = a + k
    · subst hl
      rw [Nat.add_sub_cancel_left]
      by_cases hq : q k
      · rw [if_pos hq, gravar_self, if_pos ⟨by omega, by omega, hq⟩]
      · rw [if_neg hq, ih, if_neg (by omega), if_neg fun h => hq h.2.2]
    · have hsame : (a ≤ l ∧ l < a + (k + 1) ∧ q (l - a)) ↔ (a ≤ l ∧ l < a + k ∧ q (l - a)) := by
        constructor
        · rintro ⟨h1, h2, h3⟩
          exact ⟨h1, by omega, h3⟩
        · rintro ⟨h1, h2, h3⟩
          exact ⟨h1, by omega, h3⟩
      by_cases hq : q k
      · rw [if_pos hq, gravar_ne _ hl, ih]
        exact if_congr hsame.symm rfl rfl
      · rw [if_neg hq, ih]
        exact if_congr hsame.symm rfl rfl

theorem grava_cluster_eq (v : Bpb) (d : Disco) (c : Nat) (dados : List UInt8) (l : Nat) :
    grava_cluster v d c dados l =
      if cluster_to_lba v c ≤ l ∧ l < cluster_to_lba v c + v.spc ∧
          512 * (l - cluster_to_lba v c) < dados.length
      then setor_de ((dados.drop (512 * (l - cluster_to_lba v c))).take 512) else d l := by
  unfold grava_cluster
  exact foldl_gravar (fun s => 512 * s < dados.length)
    (fun s => setor_de ((dados.drop (512 * s)).take 512)) _ _ _ _

theorem so_setores_grava (v : Bpb) (d : Disco) (c : Nat) (dados : List UInt8) :
    SoSetores v c d (grava_cluster v d c dados) := by
  intro l hl
  rw [grava_cluster_eq, if_neg]
  rintro ⟨h1, h2, _⟩
  exact hl (l - cluster_to_lba v c) (by omega) (by omega)

theorem byte_setor_de (s : List UInt8) {j : Nat} (hj : j < 512) : (setor_de s).byte j = s.getD j 0 := by
  unfold byte mem
  rw [dif_pos hj]
  rfl

theorem getElem_le_cluster (v : Bpb) (d : Disco) (c size : Nat) {j : Nat}
    (hj : j < (le_cluster v d c size).length) :
    (le_cluster v d c size)[j] = (d (cluster_to_lba v c + j / 512)).byte (j % 512) := by
  simp [le_cluster]

/-- What was written to a cluster is read from it. -/
theorem le_cluster_grava (v : Bpb) (d : Disco) (c : Nat) (dados : List UInt8) :
    le_cluster v (grava_cluster v d c dados) c dados.length = dados.take (512 * v.spc) := by
  apply List.ext_getElem
  · unfold le_cluster
    rw [List.length_map, List.length_range, List.length_take, Nat.min_comm]
  · intro j hj hj'
    rw [List.length_take] at hj'
    rw [getElem_le_cluster, grava_cluster_eq, if_pos ⟨by omega, by omega, by omega⟩,
      Nat.add_sub_cancel_left, byte_setor_de _ (Nat.mod_lt _ (by decide)), List.getElem_take,
      List.getD_eq_getElem?_getD, List.getElem?_take, if_pos (Nat.mod_lt _ (by decide)),
      List.getElem?_drop, Nat.div_add_mod, List.getElem?_eq_getElem (by omega), Option.getD_some]

theorem le_cluster_congr (hs : ∀ s < v.spc, d' (cluster_to_lba v c + s) = d (cluster_to_lba v c + s))
    (size : Nat) : le_cluster v d' c size = le_cluster v d c size := by
  unfold le_cluster
  refine List.map_congr_left fun j hj => ?_
  have hj := List.mem_range.mp hj
  rw [hs (j / 512) (by omega)]

/-! ## A file on its chain -/

/-- The chain of `c` holds the bytes, and has no cluster more than they need. -/
inductive Guarda (v : Bpb) (d : Disco) : Nat → List UInt8 → List Nat → Prop
  | fim {c : Nat} {dados : List UInt8} : EmFaixa v c → fat32_read_fat v d c ≥ FAT32_EOF →
      dados.length ≤ 512 * v.spc → le_cluster v d c dados.length = dados → Guarda v d c dados [c]
  | segue {c n : Nat} {dados : List UInt8} {cs : List Nat} : EmFaixa v c →
      fat32_read_fat v d c = n → 512 * v.spc < dados.length →
      le_cluster v d c dados.length = dados.take (512 * v.spc) →
      Guarda v d n (dados.drop (512 * v.spc)) cs → Guarda v d c dados (c :: cs)

theorem Guarda.em_faixa (h : Guarda v d c dados cs) : EmFaixa v c := by
  cases h with
  | fim hc => exact hc
  | segue hc => exact hc

theorem elo_of_eof (hc : EmFaixa v c) (he : fat32_read_fat v d c ≥ FAT32_EOF) :
    elo v d c = some none := by
  have := eof_eq
  unfold elo
  rw [if_pos ⟨hc, by omega⟩, if_pos he]

theorem elo_of_lt (hc : EmFaixa v c) (he : fat32_read_fat v d c = n) (h0 : n ≠ 0)
    (hn : n < FAT32_EOF) : elo v d c = some (some n) := by
  unfold elo
  rw [he, if_pos ⟨hc, h0⟩, if_neg (by omega)]

theorem Guarda.length_eq (g : Distintos v) (h : Guarda v d c dados cs) :
    cs.length = max 1 ((dados.length + 512 * v.spc - 1) / (512 * v.spc)) := by
  have hs := g.spc_pos
  induction h with
  | @fim c dados _ _ hle _ =>
    have hlt := Nat.div_lt_of_lt_mul
      (by omega : dados.length + 512 * v.spc - 1 < 512 * v.spc * 2)
    rw [List.length_singleton]
    omega
  | @segue c n dados cs _ _ hlt _ _ ih =>
    rw [List.length_drop, Nat.sub_add_cancel (by omega)] at ih
    have hone : 1 ≤ (dados.length - 1) / (512 * v.spc) :=
      (Nat.one_le_div_iff (by omega)).mpr (by omega)
    have hsucc : (dados.length + 512 * v.spc - 1) / (512 * v.spc) =
        (dados.length - 1) / (512 * v.spc) + 1 := by
      rw [← Nat.add_div_right _ (by omega : 0 < 512 * v.spc)]
      congr 1
      omega
    rw [List.length_cons, ih, hsucc]
    omega

theorem Guarda.read (g : Distintos v) (h : Guarda v d c dados cs) {fuel : Nat}
    (hf : cs.length < fuel) : fat32_read v d fuel c dados.length = some dados := by
  induction h generalizing fuel with
  | @fim c dados hc he hle hd =>
    rw [List.length_singleton] at hf
    obtain ⟨k, rfl⟩ : ∃ k, fuel = k + 2 := ⟨fuel - 2, by omega⟩
    rw [fat32_read]
    by_cases h0 : 0 < dados.length
    · rw [if_pos ⟨g.lt_eof hc, h0⟩, fat32_read, if_neg fun h => absurd he (by omega), hd]
      exact congrArg some (List.append_nil dados)
    · have hnil : dados = [] := List.eq_nil_of_length_eq_zero (by omega)
      rw [if_neg fun h => h0 h.2, hnil]
  | @segue c n dados cs hc he hlt hd hn ih =>
    obtain ⟨k, rfl⟩ : ∃ k, fuel = k + 1 := ⟨fuel - 1, by omega⟩
    rw [List.length_cons] at hf
    have hr := ih (by omega : cs.length < k)
    rw [List.length_drop] at hr
    rw [fat32_read, if_pos ⟨g.lt_eof hc, by omega⟩, he, hr, hd]
    exact congrArg some (List.take_append_drop _ dados)

/-! ## The loop of `fat32_write_file` -/

/-- A round at a cluster of the volume. -/
theorem laco_grava (g : Distintos v) (hc : EmFaixa v c) (h0 : dados ≠ []) (fuel p : Nat) :
    write_laco v (fuel + 1) d c p dados =
      write_laco v fuel (grava_cluster v d c dados)
        (fat32_read_fat v (grava_cluster v d c dados) c) c (dados.drop (512 * v.spc)) := by
  have hlt := g.lt_eof hc
  have h2 := hc.1
  rw [write_laco, if_neg h0, if_neg (by omega : ¬ (c = 0 ∨ c ≥ FAT32_EOF))]
  dsimp only
  rw [if_neg (by omega : ¬ c = 0)]

/-- At the end of the chain a round starts with a new cluster, behind the one before. -/
theorem laco_aloca (g : Distintos v) (hc : c ≥ FAT32_EOF) {p : Nat} (hp : p ≠ 0) (h0 : dados ≠ [])
    (fuel : Nat) :
    write_laco v (fuel + 1) d c p dados = some (-1, d) ∨
      ∃ m, EmFaixa v m ∧ fat32_read_fat v d m = 0 ∧
        write_laco v (fuel + 1) d c p dados = write_laco v (fuel + 1)
          (fat32_write_fat_entry v (fat32_write_fat_entry v d m 0x0FFFFFFF) p m) m p dados := by
  rw [write_laco, if_neg h0, if_pos (Or.inr hc)]
  rcases alloc_spec v d with ⟨_, ha⟩ | ⟨m, hm, hfree, ha⟩
  · left
    rw [ha]
    rfl
  · right
    have hm0 : m ≠ 0 := by
      have := hm.1
      omega
    refine ⟨m, hm, hfree, ?_⟩
    rw [laco_grava g hm h0, ha]
    dsimp only
    rw [if_neg hm0, if_pos hp, if_neg hm0]

/-- A new cluster `m` behind the last one, `c`. -/
structure Ligado (v : Bpb) (d : Disco) (c m : Nat) (d' : Disco) : Prop where
  elo : fat32_read_fat v d' c = m
  novo : fat32_read_fat v d' m ≥ FAT32_EOF
  setores : ∀ s < v.spc, d' (cluster_to_lba v c + s) = d (cluster_to_lba v c + s)
  outros : Intactos v [c, m] d d'

theorem ligado (g : Distintos v) (hc : EmFaixa v c) (hm : EmFaixa v m) (hne : m ≠ c) :
    Ligado v d c m (fat32_write_fat_entry v (fat32_write_fat_entry v d m 0x0FFFFFFF) c m) := by
  have hi := intactos_fat (d := d) g hm 0x0FFFFFFF
  have hi' := intactos_fat (d := fat32_write_fat_entry v d m 0x0FFFFFFF) g hc m
  constructor
  case elo => rw [read_fat_escrita, Nat.mod_eq_of_lt (g.lt hm)]
  case novo =>
    rw [read_fat_congr (hi' m hm fun hx => hne (List.mem_singleton.mp hx)).entrada,
      read_fat_escrita]
    decide
  case setores =>
    intro s hs
    rw [escrita_fat_setores g hc hc m s hs, escrita_fat_setores g hm hc _ s hs]
  case outros => exact (hi.mono (by simp)).trans (hi'.mono (by simp))

/-- What the loop of `fat32_write_file` has done from `c` on, the last cluster of its chain: those
behind it are new. -/
structure Escrita (v : Bpb) (d : Disco) (c : Nat) (dados : List UInt8) (r : Int) (d' : Disco)
    (ns : List Nat) : Prop where
  cadeia : Cadeia v d' c (c :: ns)
  livres : ∀ x ∈ ns, EmFaixa v x ∧ fat32_read_fat v d x = 0
  intactos : Intactos v (c :: ns) d d'
  guarda : 0 ≤ r → Guarda v d' c dados (c :: ns)

/-- A full cluster in front of what the loop does from the new one on. -/
theorem Escrita.emenda {d₁ d₃ : Disco} {r : Int} (g : Distintos v) (hc : EmFaixa v c)
    (hm : EmFaixa v m) (h₁ : SoSetores v c d d₁)
    (hle : le_cluster v d₁ c dados.length = dados.take (512 * v.spc))
    (hlt : 512 * v.spc < dados.length) (hfree : fat32_read_fat v d m = 0) (hl : Ligado v d₁ c m d₃)
    (h : Escrita v d₃ m (dados.drop (512 * v.spc)) r d' ns) :
    Escrita v d c dados r d' (m :: ns) := by
  have hm2 := hm.1
  have hne : c ≠ m := by
    rintro rfl
    have hnovo := hl.novo
    rw [hl.elo] at hnovo
    exact absurd (g.lt_eof hm) (by omega)
  have hcn : c ∉ m :: ns := by
    intro hmem
    have hfc := (h.livres c ((List.mem_cons.mp hmem).resolve_left hne)).2
    rw [hl.elo] at hfc
    omega
  have hic := h.intactos c hc hcn
  have hfat : fat32_read_fat v d' c = m := by rw [read_fat_congr hic.entrada, hl.elo]
  constructor
  case cadeia => exact .cons (elo_of_lt hc hfat (by omega) (g.lt_eof hm)) h.cadeia
  case livres =>
    intro x hx
    rcases List.mem_cons.mp hx with rfl | hx
    · exact ⟨hm, hfree⟩
    obtain ⟨hxr, hx0⟩ := h.livres x hx
    have hxc : x ≠ c := by
      rintro rfl
      exact hcn (List.mem_cons_of_mem _ hx)
    have hxm : x ≠ m := by
      rintro rfl
      have hnovo := hl.novo
      rw [hx0] at hnovo
      exact absurd hnovo (by decide)
    have hx₃ := read_fat_congr (hl.outros x hxr (by simp [hxc, hxm])).entrada
    have hx₁ := read_fat_congr (h₁.entrada g hc hxr)
    exact ⟨hxr, hx₁.symm.trans (hx₃.symm.trans hx0)⟩
  case intactos =>
    have hi₁ : Intactos v (c :: m :: ns) d d₁ := (h₁.intactos g hc).mono (by simp)
    have hi₃ : Intactos v (c :: m :: ns) d₁ d₃ := hl.outros.mono (by simp)
    exact (hi₁.trans hi₃).trans (h.intactos.mono (List.subset_cons_self _ _))
  case guarda =>
    intro hr
    refine .segue hc hfat hlt ?_ (h.guarda hr)
    rw [le_cluster_congr hic.setores, le_cluster_congr hl.setores, hle]

/-- Writing from the last cluster of a chain on: the bytes go to this cluster and to new ones behind
it, also where the disk gets full on the way. -/
theorem laco_escrita (g : Distintos v) {fuel p : Nat} {r : Int} (hc : EmFaixa v c)
    (he : fat32_read_fat v d c ≥ FAT32_EOF) (h0 : dados ≠ [])
    (h : write_laco v fuel d c p dados = some (r, d')) : ∃ ns, Escrita v d c dados r d' ns := by
  induction fuel generalizing d c p dados with
  | zero => cases h
  | succ fuel ih =>
    have hs := so_setores_grava v d c dados
    have hle := le_cluster_grava v d c dados
    have hfat := fun {x} (hx : EmFaixa v x) => read_fat_congr (hs.entrada g hc hx)
    rw [laco_grava g hc h0, hfat hc] at h
    generalize grava_cluster v d c dados = d₁ at h hs hle hfat
    have he₁ : fat32_read_fat v d₁ c ≥ FAT32_EOF := by rwa [hfat hc]
    have hsozinho : ∀ r : Int, (0 ≤ r → Guarda v d₁ c dados [c]) → Escrita v d c dados r d₁ [] :=
      fun r hg => ⟨.last (elo_of_eof hc he₁), fun x hx => absurd hx (by simp), hs.intactos g hc, hg⟩
    cases fuel with
    | zero => cases h
    | succ fuel =>
      by_cases hlen : dados.length ≤ 512 * v.spc
      · -- the last cluster
        rw [List.drop_eq_nil_of_le hlen, write_laco, if_pos rfl] at h
        obtain rfl := (Prod.mk.inj (Option.some.inj h)).2
        rw [List.take_of_length_le hlen] at hle
        exact ⟨[], hsozinho r fun _ => .fim hc he₁ hlen hle⟩
      have hrest : dados.drop (512 * v.spc) ≠ [] := by
        intro hnil
        have := congrArg List.length hnil
        rw [List.length_drop, List.length_nil] at this
        omega
      have hc0 : c ≠ 0 := by
        have := hc.1
        omega
      rcases laco_aloca (d := d₁) g he hc0 hrest fuel with hcheio | ⟨m, hm, hfree, hlaco⟩
      · rw [hcheio] at h
        obtain ⟨rfl, rfl⟩ := Prod.mk.inj (Option.some.inj h)
        exact ⟨[], hsozinho _ fun hr => absurd hr (by decide)⟩
      · rw [hlaco] at h
        rw [hfat hm] at hfree
        have hmc : m ≠ c := by
          rintro rfl
          have := eof_eq
          omega
        have hl := ligado (d := d₁) g hc hm hmc
        obtain ⟨ns, hns⟩ := ih hm hl.novo hrest h
        exact ⟨m :: ns, hns.emenda g hc hm hs hle (by omega) hfree hl⟩

/-- The call at the last cluster of a chain. -/
theorem write_file_escrita (g : Distintos v) {r : Int} (hc : EmFaixa v c)
    (he : fat32_read_fat v d c ≥ FAT32_EOF) (h : fat32_write_file v d c dados = some (r, d')) :
    ∃ r' ns, Escrita v d c dados r' d' ns ∧ r = if r' < 0 then -1 else como_int dados.length := by
  unfold fat32_write_file at h
  obtain ⟨⟨r', d₁⟩, hlaco, hres⟩ := Option.map_eq_some_iff.mp h
  obtain ⟨hr, rfl⟩ := Prod.mk.inj hres
  by_cases h0 : dados = []
  · subst h0
    rw [write_laco, if_pos rfl] at hlaco
    obtain ⟨rfl, rfl⟩ := Prod.mk.inj (Option.some.inj hlaco)
    exact ⟨0, [], ⟨.last (elo_of_eof hc he), fun x hx => absurd hx (by simp),
      fun x _ _ => ⟨rfl, fun _ _ => rfl⟩, fun _ => .fim hc he (Nat.zero_le _) rfl⟩, hr.symm⟩
  · obtain ⟨ns, hns⟩ := laco_escrita g hc he h0 hlaco
    exact ⟨r', ns, hns, hr.symm⟩

/-! ## A new cluster -/

/-- The chain of the directory stays in the volume. -/
def PastaDoVolume (v : Bpb) (d : Disco) (p : Nat) : Prop :=
  ∀ x, Visits (fat32_read_fat v d) (FAT32_EOF ≤ ·) p x → EmFaixa v x

/-- `c` was just returned, and the disk is as the call left it. -/
def AcabaDeSair (v : Bpb) (d : Disco) (c : Nat) : Prop :=
  c ≠ 0 ∧ ((∃ d₀, fat32_alloc_cluster v d₀ = (c, d)) ∨
    ∃ d₀ p name11 attr, PastaDoVolume v d₀ p ∧ fat32_create v d₀ p name11 attr = some (c, d))

/-- What a walk finds lies in a cluster that it comes to. -/
theorem percorre_visita {α : Type} {f : Slot → Option α} {a : α} {fuel : Nat}
    (h : percorre v d f fuel c = some (some a)) :
    ∃ y, Visits (fat32_read_fat v d) (FAT32_EOF ≤ ·) c y ∧ ∃ z ∈ slots v y, f z = some a := by
  induction fuel generalizing c with
  | zero => cases h
  | succ fuel ih =>
    rw [percorre] at h
    by_cases hc : c ≥ FAT32_EOF
    · rw [if_pos hc] at h
      cases h
    rw [if_neg hc] at h
    rcases hf : (slots v c).findSome? f with _ | b
    · rw [hf] at h
      obtain ⟨y, hy, hz⟩ := ih h
      exact ⟨y, hy.head hc, hz⟩
    · rw [hf] at h
      obtain rfl := Option.some.inj (Option.some.inj h)
      obtain ⟨z, hz, hfz⟩ := List.exists_of_findSome?_eq_some hf
      exact ⟨c, .start hc, z, hz, hfz⟩

/-- A free cluster is none of the directory's, and a walk does not come to it. -/
theorem PastaDoVolume.visita {d₀ : Disco} {p y : Nat} (h : PastaDoVolume v d₀ p)
    (hn : fat32_read_fat v d₀ n = 0)
    (he : ∀ x, EmFaixa v x → x ≠ n → fat32_read_fat v d x = fat32_read_fat v d₀ x)
    (hv : Visits (fat32_read_fat v d) (FAT32_EOF ≤ ·) p y) :
    Visits (fat32_read_fat v d₀) (FAT32_EOF ≤ ·) p y := by
  induction hv with
  | start hp => exact .start hp
  | @step x _ hx ih =>
    have hxn : x ≠ n := by
      rintro rfl
      have h0 := h _ (ih.step (by rw [hn]; decide))
      rw [hn] at h0
      exact absurd h0.1 (by decide)
    rw [he x (h x ih) hxn] at hx ⊢
    exact ih.step hx

theorem so_setores_zera (v : Bpb) (d : Disco) (c : Nat) :
    SoSetores v c d (zera_cluster v d c) := by
  intro l hl
  unfold zera_cluster
  have hf := foldl_gravar (fun _ => True) (fun _ => zero) (cluster_to_lba v c) v.spc d l
  simp only [if_true] at hf
  rw [hf, if_neg]
  rintro ⟨h1, h2, _⟩
  exact hl (l - cluster_to_lba v c) (by omega) (by omega)

theorem so_setores_dirent {z : Slot} (hz : z ∈ slots v c) (e : Dirent) :
    SoSetores v c d (gravar_dirent d z e) := by
  obtain ⟨s, hs, i, _, rfl⟩ := mem_slots.mp hz
  exact so_setores_gravar hs _

theorem so_setores_pontos (g : Distintos v) (d : Disco) (c p : Nat) :
    SoSetores v c d (pontos v d c p) := by
  have hz : ∀ i < 16, (cluster_to_lba v c, i) ∈ slots v c := fun i hi =>
    mem_slots.mpr ⟨0, g.spc_pos, i, hi, by rw [Nat.add_zero]⟩
  unfold pontos
  exact (so_setores_dirent (hz 0 (by decide)) _).trans (so_setores_dirent (hz 1 (by decide)) _)

/-- A cluster that was just returned is the last one of its chain. -/
theorem alloc_fim {d₀ : Disco} (hc : c ≠ 0) (h : fat32_alloc_cluster v d₀ = (c, d)) :
    EmFaixa v c ∧ fat32_read_fat v d c ≥ FAT32_EOF := by
  rcases alloc_spec v d₀ with ⟨_, hcheio⟩ | ⟨n, hn, _, hn'⟩
  · rw [hcheio] at h
    exact absurd (Prod.mk.inj h).1.symm hc
  · rw [hn'] at h
    obtain ⟨rfl, rfl⟩ := Prod.mk.inj h
    refine ⟨hn, ?_⟩
    rw [read_fat_escrita]
    decide

theorem create_fim {d₀ : Disco} {p : Nat} {name11 : List UInt8} {attr : UInt8} (g : Distintos v)
    (hp : PastaDoVolume v d₀ p) (hc : c ≠ 0)
    (hcria : fat32_create v d₀ p name11 attr = some (c, d)) :
    EmFaixa v c ∧ fat32_read_fat v d c ≥ FAT32_EOF := by
  unfold fat32_create at hcria
  rcases alloc_spec v d₀ with ⟨_, hcheio⟩ | ⟨n, hn, hfree, hn'⟩
  · rw [hcheio] at hcria
    obtain ⟨rfl, _⟩ := Prod.mk.inj (Option.some.inj hcria)
    exact absurd rfl hc
  · have hn0 : n ≠ 0 := by
      have := hn.1
      omega
    rw [hn'] at hcria
    dsimp only at hcria
    rw [if_neg hn0] at hcria
    have hi := intactos_fat (d := d₀) g hn 0x0FFFFFFF
    have hfim := read_fat_escrita v d₀ n 0x0FFFFFFF
    generalize fat32_write_fat_entry v d₀ n 0x0FFFFFFF = d₁ at hcria hi hfim
    have hs : SoSetores v n d₁ (if attr &&& FAT32_ATTR_DIR ≠ 0 then
        pontos v (zera_cluster v d₁ n) n p else zera_cluster v d₁ n) := by
      split
      · exact (so_setores_zera v d₁ n).trans (so_setores_pontos g _ n p)
      · exact so_setores_zera v d₁ n
    generalize (if attr &&& FAT32_ATTR_DIR ≠ 0 then
        pontos v (zera_cluster v d₁ n) n p else zera_cluster v d₁ n) = d₂ at hcria hs
    obtain ⟨r, hwalk, hres⟩ := Option.map_eq_some_iff.mp hcria
    cases r with
    | none => exact absurd (Prod.mk.inj hres).1.symm hc
    | some z =>
      obtain ⟨rfl, rfl⟩ := Prod.mk.inj hres
      have hfat : ∀ x, EmFaixa v x → fat32_read_fat v d₂ x = fat32_read_fat v d₁ x :=
        fun x hx => read_fat_congr (hs.entrada g hn hx)
      obtain ⟨y, hy, w, hw, hwz⟩ := percorre_visita hwalk
      have hyr : EmFaixa v y := hp y (hp.visita hfree (fun x hx hne => ?_) hy)
      · have hz : z ∈ slots v y := by
          unfold olha_livre at hwz
          split at hwz
          · rwa [← Option.some.inj hwz]
          · cases hwz
        refine ⟨hn, ?_⟩
        rw [read_fat_congr ((so_setores_dirent hz _).entrada g hyr hn), hfat n hn, hfim]
        decide
      · rw [hfat x hx]
        exact read_fat_congr (hi x hx fun hmem => hne (List.mem_singleton.mp hmem)).entrada

theorem AcabaDeSair.fim (g : Distintos v) (h : AcabaDeSair v d c) :
    EmFaixa v c ∧ fat32_read_fat v d c ≥ FAT32_EOF := by
  obtain ⟨hc, ⟨d₀, ha⟩ | ⟨d₀, p, name11, attr, hp, hcria⟩⟩ := h
  · exact alloc_fim hc ha
  · exact create_fim g hp hc hcria

end Volta

end SpaceOS.Fat32
