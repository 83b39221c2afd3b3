-- The paths that the package manager builds from a name (kernel/pkg), in buffers that hold what was
-- in them before. The copy of a name of 8 bytes has no zero, so what lay behind it gets into the
-- path.
import SpaceOS.Lib.CString
import SpaceOS.PkgDbLaws
import SpaceOS.PkgRemote
import SpaceOS.PkgSolver

open Lib.Bytes Lib.Bytes.ByteStr Lib.CString SpaceOS.Net

namespace SpaceOS.Pkg

/-! ## One path -/

section Caminho

variable {n : Nat}

/-- A prefix, up to 8 bytes of a name, and an extension where `k_strlen` finds the end; `none` where
the code leaves the buffer. -/
def monta_caminho (buf : ByteStr n) (prefixo name ext : List UInt8) : Option (ByteStr n) :=
  let buf := strncpy buf 0 prefixo (prefixo.length + 1)
  let buf := strncpy buf prefixo.length name 8
  (strlen buf).bind fun base =>
    if base + (ext.length + 1) ≤ n then some (strncpy buf base ext (ext.length + 1)) else none

/-- The buffer holds the path and its NUL. -/
def Monta (r : Option (ByteStr n)) (path : Path) : Prop := path.length < n ∧ r.map text = some path

/-- What lies in a buffer from place `i` on. -/
def sobra (buf : ByteStr n) (i : Nat) : Lixo := ⟨textFrom buf i, zero_not_mem_text _⟩

end Caminho

/-- `/pkg/`. -/
def PREFIXO_PKG : Path := [47, 112, 107, 103, 47]

/-- `/pkg/incoming/`. -/
def PREFIXO_INCOMING : Path := [47, 112, 107, 103, 47, 105, 110, 99, 111, 109, 105, 110, 103, 47]

/-- `/packages/`. -/
def PREFIXO_PACKAGES : Path := [47, 112, 97, 99, 107, 97, 103, 101, 115, 47]

/-- `.lst`. -/
def EXT_LST : Path := [46, 108, 115, 116]

/-- `.spk`. -/
def EXT_SPK : Path := [46, 115, 112, 107]

/-- `lst_path` in `pkg_files_save`. -/
def pkg_files_save_path (lst_path : ByteStr 32) (name : List UInt8) : Option (ByteStr 32) :=
  monta_caminho lst_path PREFIXO_PKG name EXT_LST

/-- `lst_path` in `pkg_files_load`. -/
def pkg_files_load_path (lst_path : ByteStr 32) (name : List UInt8) : Option (ByteStr 32) :=
  monta_caminho lst_path PREFIXO_PKG name EXT_LST

/-- `lst_path` in `pkg_remove`. -/
def pkg_remove_path (lst_path : ByteStr 32) (name : List UInt8) : Option (ByteStr 32) :=
  monta_caminho lst_path PREFIXO_PKG name EXT_LST

/-- `dep_path` in `pkg_solve_deps`. -/
def pkg_solve_deps_path (dep_path : ByteStr 32) (dep : List UInt8) : Option (ByteStr 32) :=
  monta_caminho dep_path PREFIXO_INCOMING dep EXT_SPK

/-! ## The download -/

/-- The static buffers of `pkg_remote_download`. -/
structure Estaticos where
  path : ByteStr 64
  spk_path : ByteStr 32

def Estaticos.inicio : Estaticos := ⟨zero, zero⟩

def pkg_remote_download_path (s : Estaticos) (pkg_name : List UInt8) : Option (ByteStr 64) :=
  monta_caminho s.path PREFIXO_PACKAGES pkg_name EXT_SPK

def pkg_remote_download_spk_path (s : Estaticos) (pkg_name : List UInt8) : Option (ByteStr 32) :=
  monta_caminho s.spk_path PREFIXO_INCOMING pkg_name EXT_SPK

/-- What a call of `pkg_remote_download` meets: whether there are a network, an address of the
repository and a connection; the memory that `kmalloc` gives, if there is any; and what the calls of
`tcp_recv` return. -/
structure Meio where
  conexao : Bool
  buf : Option Memory
  partes : List (List UInt8)

/-- The result, the buffers and the files after a call; `none` where it leaves a buffer. -/
def pkg_remote_download (amb : Ambiente) (r : Repositorio) (m : Meio) (s : Estaticos) (v : Vfs)
    (pkg_name : List UInt8) : Option (Int × Estaticos × Vfs) :=
  if m.conexao = false then some (-1, s, v)
  else
    (pkg_remote_download_path s pkg_name).bind fun path =>
      let s := { s with path := path }
      match m.buf with
      | none => some (-1, s, v)
      | some buf =>
        let h := http_get (text path) r.repo_host buf (64 * 1024) m.partes
        if h.retorno < 0 ∨ h.out_len = 0 then some (-1, s, v)
        else
          (pkg_remote_download_spk_path s pkg_name).map fun spk_path =>
            let (ret, v) := vfs_write amb v (text spk_path) (trecho h.out_buf h.out_len.toNat)
            (if ret < 0 then -1 else 0, { s with spk_path := spk_path }, v)

/-! ## What a path is made of -/

section Montagem

variable {n : Nat} {buf : ByteStr n} {prefixo name ext : List UInt8}

theorem length_copiado_sobra (buf : ByteStr n) (name : List UInt8)
    (h8 : prefixo.length + 8 ≤ n) :
    prefixo.length + (copiado name 8 (sobra buf (prefixo.length + 8))).length ≤ n := by
  have hs := length_textFrom_le buf (prefixo.length + 8)
  unfold copiado
  split
  · omega
  · rw [List.length_append, List.length_take]
    change _ + (_ + (textFrom buf _).length) ≤ _
    omega

/-- Behind the two copies lies what the buffer had there, if the name is not short. -/
theorem byte_duas_copias {j : Nat} (hj : j < n)
    (hle : j ≤ prefixo.length + (copiado name 8 (sobra buf (prefixo.length + 8))).length) :
    (strncpy (strncpy buf 0 prefixo (prefixo.length + 1)) prefixo.length name 8).byte j =
      (prefixo ++ copiado name 8 (sobra buf (prefixo.length + 8))).getD j 0 := by
  rw [byte_strncpy _ _ _ _ hj, byte_strncpy _ _ _ _ hj]
  rcases Nat.lt_or_ge j prefixo.length with hlt | hge
  · rw [if_neg (by omega), if_pos (by omega), Nat.sub_zero, List.getD_append _ _ _ _ hlt]
  obtain ⟨k, rfl⟩ := Nat.exists_eq_add_of_le hge
  rw [List.getD_append_right _ _ _ _ hge, Nat.add_sub_cancel_left]
  unfold copiado at hle ⊢
  by_cases hcurto : name.length < 8
  · rw [if_pos hcurto] at hle ⊢
    rw [if_pos (by omega)]
  · rw [if_neg hcurto] at hle ⊢
    have htake : (name.take 8).length = 8 := by
      rw [List.length_take]
      omega
    rw [List.length_append, htake] at hle
    rcases Nat.lt_or_ge k 8 with hk | hk
    · rw [if_pos (by omega), List.getD_append _ _ _ _ (by omega)]
      simp [List.getD, hk]
    · obtain ⟨x, rfl⟩ := Nat.exists_eq_add_of_le hk
      rw [if_neg (by omega), if_neg (by omega), List.getD_append_right _ _ _ _ (by omega), htake,
        Nat.add_sub_cancel_left, ← Nat.add_assoc]
      exact byte_textFrom (by omega) (show x ≤ (sobra buf (prefixo.length + 8)).val.length by omega)

theorem text_duas_copias (buf : ByteStr n) (hp : 0 ∉ prefixo) (hn : 0 ∉ name)
    (h8 : prefixo.length + 8 ≤ n) :
    text (strncpy (strncpy buf 0 prefixo (prefixo.length + 1)) prefixo.length name 8) =
      prefixo ++ copiado name 8 (sobra buf (prefixo.length + 8)) := by
  have hlen := length_copiado_sobra buf name h8
  have h0 : 0 ∉ prefixo ++ copiado name 8 (sobra buf (prefixo.length + 8)) := by
    rw [List.mem_append, not_or]
    exact ⟨hp, zero_notMem_copiado hn⟩
  have h := take_text le_rfl h0 fun j hj hle =>
    byte_duas_copias hj (by rwa [List.length_append] at hle)
  rwa [List.take_of_length_le (length_text_le _),
    List.take_of_length_le (by rwa [List.length_append])] at h

/-- The path has what lay behind the name, and is built where it fits with its NUL. -/
theorem monta_caminho_texto (hp : 0 ∉ prefixo) (hn : 0 ∉ name) (he : 0 ∉ ext)
    (h8 : prefixo.length + 8 ≤ n) :
    (monta_caminho buf prefixo name ext).map text =
      if (prefixo ++ copiado name 8 (sobra buf (prefixo.length + 8)) ++ ext).length < n then
        some (prefixo ++ copiado name 8 (sobra buf (prefixo.length + 8)) ++ ext) else none := by
  have ht := text_duas_copias buf hp hn h8
  unfold monta_caminho
  dsimp only
  rw [← ht]
  generalize strncpy (strncpy buf 0 prefixo (prefixo.length + 1)) prefixo.length name 8 = b
  rw [List.length_append]
  by_cases hfit : (text b).length + ext.length < n
  · rw [strlen_eq (by omega), Option.bind_some, if_pos (by omega), if_pos hfit, Option.map_some,
      text_strncpy_end he hfit]
  · rw [if_neg hfit]
    unfold strlen
    split
    · rw [Option.bind_some, if_neg (by omega)]
      rfl
    · rfl

/-- The path is that of the name exactly where the name is short or a zero lies behind it. -/
theorem monta_caminho_iff (hp : 0 ∉ prefixo) (hn : 0 ∉ name) (he : 0 ∉ ext)
    (h8 : prefixo.length + 8 + ext.length < n) :
    Monta (monta_caminho buf prefixo name ext) (prefixo ++ name.take 8 ++ ext) ↔
      name.length < 8 ∨ buf.byte (prefixo.length + 8) = 0 := by
  have hlen : (prefixo ++ name.take 8 ++ ext).length < n := by
    rw [List.length_append, List.length_append, List.length_take]
    omega
  have hcop : copiado name 8 (sobra buf (prefixo.length + 8)) = name.take 8 ↔
      name.length < 8 ∨ buf.byte (prefixo.length + 8) = 0 := by
    rw [← textFrom_eq_nil (by omega)]
    unfold copiado
    split
    · next hcurto => exact iff_of_true (List.take_of_length_le (by omega)).symm (Or.inl hcurto)
    · next hlongo =>
      rw [or_iff_right hlongo, List.append_right_eq_self]
      rfl
  unfold Monta
  rw [and_iff_right hlen, monta_caminho_texto hp hn he (by omega), ← hcop]
  constructor
  · intro h
    split at h
    · have h := Option.some.inj h
      rw [List.append_left_inj, List.append_right_inj] at h
      exact h
    · exact absurd h (by simp)
  · intro h
    rw [h, if_pos hlen]

/-- The byte behind 8 bytes of a name, after a path was built: the zero of an extension that ends
there, or what was there before if the path ends sooner. -/
theorem byte_atras_iff {depois : ByteStr n} (hp : 0 ∉ prefixo) (hn : 0 ∉ name) (he : 0 ∉ ext)
    (hne : 0 < ext.length) (h8 : prefixo.length + 8 < n)
    (h : monta_caminho buf prefixo name ext = some depois) :
    depois.byte (prefixo.length + 8) = 0 ↔ name.length + ext.length = 8 ∨
      name.length + ext.length < 8 ∧ buf.byte (prefixo.length + 8) = 0 := by
  have ht := text_duas_copias buf hp hn (Nat.le_of_lt h8)
  have hbyte : (strncpy (strncpy buf 0 prefixo (prefixo.length + 1)) prefixo.length name 8).byte
      (prefixo.length + 8) = buf.byte (prefixo.length + 8) := by
    rw [byte_strncpy _ _ _ _ h8, if_neg (by omega), byte_strncpy _ _ _ _ h8, if_neg (by omega)]
  unfold monta_caminho at h
  dsimp only at h
  generalize strncpy (strncpy buf 0 prefixo (prefixo.length + 1)) prefixo.length name 8 = b at *
  obtain ⟨base, hbase, h⟩ := Option.bind_eq_some_iff.mp h
  have hb : base = (text b).length := by
    unfold strlen at hbase
    split at hbase
    · exact (Option.some.inj hbase).symm
    · exact absurd hbase (by simp)
  split at h
  · obtain rfl := Option.some.inj h
    rw [byte_strncpy _ _ _ _ h8, hbyte]
    rw [ht, List.length_append] at hb
    unfold copiado at hb
    split at hb
    · -- the name is short: the extension reaches the byte, or not
      split
      · rw [getD_eq_zero_iff he]
        omega
      · next hfora =>
        rw [or_iff_right (by omega), and_iff_right (by omega)]
    · -- the extension begins at the byte, or behind what lies there
      next hlongo =>
      rw [List.length_append, List.length_take, Nat.min_eq_left (by omega)] at hb
      refine iff_of_false ?_ (by omega)
      split
      · rw [getD_eq_zero_iff he]
        omega
      · next hfora =>
        intro hzero
        have hnil : (sobra buf (prefixo.length + 8)).val = [] := (textFrom_eq_nil h8).mpr hzero
        rw [hnil, List.length_nil] at hb
        omega
  · exact absurd h (by simp)

end Montagem

section Ligacao

variable {name : List UInt8}

/-- The paths of the manifests and of the packages are those of the files. -/
theorem manifesto_texto (lst_buf : ByteStr 32) (hn : 0 ∉ name) :
    (monta_caminho lst_buf PREFIXO_PKG name EXT_LST).map text =
      if (lst_path (sobra lst_buf 13) name).length < 32 then
        some (lst_path (sobra lst_buf 13) name) else none :=
  monta_caminho_texto (by decide) hn (by decide) (by decide)

theorem pkg_solve_deps_path_texto (dep_buf : ByteStr 32) (hn : 0 ∉ name) :
    (pkg_solve_deps_path dep_buf name).map text =
      if (dep_path (sobra dep_buf 22) name).length < 32 then
        some (dep_path (sobra dep_buf 22) name) else none :=
  monta_caminho_texto (by decide) hn (by decide) (by decide)

end Ligacao

/-! ## Runs of downloads -/

/-- One call of `pkg_remote_download`. -/
structure Download where
  repositorio : Repositorio
  meio : Meio
  pkg_name : List UInt8

/-- The repository sends a body, so the package is saved. -/
def Download.tem_corpo (p : Download) : Bool :=
  p.meio.conexao && match p.meio.buf with
    | none => false
    | some buf =>
      (http_get [] p.repositorio.repo_host buf (64 * 1024) p.meio.partes).out_len ≠ 0

/-- The buffers after the calls `ps`, the first one first, on any files. -/
inductive Baixados : List Download → Estaticos → Prop
  | nil : Baixados [] Estaticos.inicio
  | snoc {ps : List Download} {p : Download} {s s' : Estaticos} {amb : Ambiente} {v v' : Vfs}
      {ret : Int} : Baixados ps s → 0 ∉ p.pkg_name →
      pkg_remote_download amb p.repositorio p.meio s v p.pkg_name = some (ret, s', v') →
      Baixados (ps ++ [p]) s'

/-- The names that got into `path`. -/
def pedidos (ps : List Download) : List (List UInt8) :=
  (ps.filter (·.meio.conexao)).map Download.pkg_name

/-- The names that got into `spk_path`. -/
def salvos (ps : List Download) : List (List UInt8) :=
  (ps.filter Download.tem_corpo).map Download.pkg_name

/-- The last of the names that have 4 bytes or more has just 4. -/
def UltimoDeQuatro (nomes : List (List UInt8)) : Prop :=
  ∀ nome, (nomes.filter (4 ≤ ·.length)).getLast? = some nome → nome.length = 4

theorem ultimoDeQuatro_concat {nomes : List (List UInt8)} {nome : List UInt8} :
    UltimoDeQuatro (nomes ++ [nome]) ↔
      nome.length = 4 ∨ nome.length < 4 ∧ UltimoDeQuatro nomes := by
  unfold UltimoDeQuatro
  rw [List.filter_append]
  by_cases h4 : 4 ≤ nome.length
  · rw [List.filter_cons_of_pos (by simpa using h4), List.filter_nil, List.getLast?_concat]
    simp only [Option.some.injEq, forall_eq']
    omega
  · rw [List.filter_cons_of_neg (by simpa using h4), List.filter_nil, List.append_nil,
      or_iff_right (by omega), and_iff_right (by omega)]

theorem http_get_retorno_neg_iff {path repo_host : List UInt8} {out_buf : Memory}
    {max_size : UInt32} {partes : List (List UInt8)} :
    (http_get path repo_host out_buf max_size partes).retorno < 0 ↔
      (http_get path repo_host out_buf max_size partes).out_len = 0 := by
  unfold http_get
  dsimp only
  generalize (http_laco max_size partes ⟨out_buf, 0, false⟩).total = total
  split
  · next h => exact iff_of_false (by decide) fun h0 => absurd (h0 ▸ h) (by decide)
  · next h => exact iff_of_true (by decide) (UInt32.le_zero_iff.mp (UInt32.not_lt.mp h))

/-- What a call does to the static buffers. -/
theorem pkg_remote_download_estaticos {amb : Ambiente} {p : Download} {s s' : Estaticos}
    {v v' : Vfs} {ret : Int}
    (h : pkg_remote_download amb p.repositorio p.meio s v p.pkg_name = some (ret, s', v')) :
    (if p.meio.conexao then pkg_remote_download_path s p.pkg_name = some s'.path
      else s'.path = s.path) ∧
      (if p.tem_corpo then pkg_remote_download_spk_path s p.pkg_name = some s'.spk_path
        else s'.spk_path = s.spk_path) := by
  unfold pkg_remote_download at h
  unfold Download.tem_corpo
  cases hc : p.meio.conexao with
  | false =>
    rw [hc, if_pos rfl] at h
    simp only [Option.some.injEq, Prod.mk.injEq] at h
    obtain ⟨-, rfl, -⟩ := h
    exact ⟨rfl, rfl⟩
  | true =>
    rw [hc, if_neg (by decide)] at h
    obtain ⟨path, hpath, h⟩ := Option.bind_eq_some_iff.mp h
    cases hb : p.meio.buf with
    | none =>
      rw [hb] at h
      simp only [Option.some.injEq, Prod.mk.injEq] at h
      obtain ⟨-, rfl, -⟩ := h
      exact ⟨hpath, rfl⟩
    | some buf =>
      rw [hb] at h
      dsimp only at h
      -- what is received does not depend on the path
      change _ ∧ if (true && decide ((http_get (text path) p.repositorio.repo_host buf (64 * 1024)
        p.meio.partes).out_len ≠ 0)) = true then _ else _
      by_cases hz :
          (http_get (text path) p.repositorio.repo_host buf (64 * 1024) p.meio.partes).out_len = 0
      · rw [if_pos (Or.inr hz)] at h
        simp only [Option.some.injEq, Prod.mk.injEq] at h
        obtain ⟨-, rfl, -⟩ := h
        refine ⟨hpath, ?_⟩
        rw [Bool.true_and, decide_eq_false (not_not.mpr hz), if_neg Bool.false_ne_true]
      · rw [if_neg (not_or.mpr ⟨fun hneg => hz (http_get_retorno_neg_iff.mp hneg), hz⟩)] at h
        obtain ⟨spk_path, hspk, h⟩ := Option.map_eq_some_iff.mp h
        simp only [Prod.mk.injEq] at h
        obtain ⟨-, rfl, -⟩ := h
        refine ⟨hpath, ?_⟩
        rw [Bool.true_and, if_pos (decide_eq_true hz)]
        exact hspk

theorem nomes_concat (f : Download → Bool) (ps : List Download) (p : Download) :
    ((ps ++ [p]).filter f).map Download.pkg_name =
      (ps.filter f).map Download.pkg_name ++ if f p then [p.pkg_name] else [] := by
  rw [List.filter_append, List.map_append]
  cases hf : f p with
  | false => rw [List.filter_cons_of_neg (by simp [hf])]; rfl
  | true => rw [List.filter_cons_of_pos hf]; rfl

/-- One buffer over a call that may build a path in it. -/
theorem zero_atras_concat {n : Nat} {buf depois : ByteStr n} {prefixo name : List UInt8}
    {nomes : List (List UInt8)} {c : Bool} (hp : 0 ∉ prefixo) (hn : 0 ∉ name)
    (h8 : prefixo.length + 8 < n)
    (h : if c then monta_caminho buf prefixo name EXT_SPK = some depois else depois = buf)
    (ih : buf.byte (prefixo.length + 8) = 0 ↔ UltimoDeQuatro nomes) :
    depois.byte (prefixo.length + 8) = 0 ↔
      UltimoDeQuatro (nomes ++ if c then [name] else []) := by
  cases c with
  | false =>
    obtain rfl : depois = buf := h
    rw [if_neg Bool.false_ne_true, List.append_nil, ih]
  | true =>
    have hb := byte_atras_iff hp hn (by decide) (by decide) h8 h
    have hspk : EXT_SPK.length = 4 := rfl
    rw [if_pos rfl, ultimoDeQuatro_concat, hb, ih, hspk]
    exact or_congr (by omega) (and_congr_left' (by omega))

/-- The byte behind 8 bytes of a name says which names got into a static buffer before. -/
theorem Baixados.zero_iff {ps : List Download} {s : Estaticos} (h : Baixados ps s) :
    (s.path.byte 18 = 0 ↔ UltimoDeQuatro (pedidos ps)) ∧
      (s.spk_path.byte 22 = 0 ↔ UltimoDeQuatro (salvos ps)) := by
  induction h with
  | nil =>
    have hvazio : UltimoDeQuatro [] := by
      intro nome hn
      exact absurd hn (by simp)
    exact ⟨iff_of_true (byte_zero 18) hvazio, iff_of_true (byte_zero 22) hvazio⟩
  | @snoc ps p s s' amb v v' ret _ h0 hd ih =>
    obtain ⟨hpath, hspk⟩ := pkg_remote_download_estaticos hd
    unfold pedidos salvos at ih ⊢
    rw [nomes_concat, nomes_concat]
    exact ⟨zero_atras_concat (by decide) h0 (by decide) hpath ih.1,
      zero_atras_concat (by decide) h0 (by decide) hspk ih.2⟩

/-! ## All the paths of a name -/

section Nome

variable {name : List UInt8}

theorem manifesto_iff (hn : 0 ∉ name) (lst_buf : ByteStr 32) :
    Monta (monta_caminho lst_buf PREFIXO_PKG name EXT_LST) (PREFIXO_PKG ++ name.take 8 ++ EXT_LST) ↔
      name.length < 8 ∨ lst_buf.byte 13 = 0 :=
  monta_caminho_iff (by decide) hn (by decide) (by decide)

theorem monta_manifesto_iff (hn : 0 ∉ name) (lst_buf : ByteStr 32) (path : Path) :
    Monta (monta_caminho lst_buf PREFIXO_PKG name EXT_LST) path ↔
      path = lst_path (sobra lst_buf 13) name ∧ path.length < 32 := by
  unfold Monta
  rw [manifesto_texto lst_buf hn]
  constructor
  · rintro ⟨hlen, h⟩
    split at h
    · exact ⟨(Option.some.inj h).symm, hlen⟩
    · exact absurd h (by simp)
  · rintro ⟨rfl, hlen⟩
    exact ⟨hlen, if_pos hlen⟩

/-- Three calls use one manifest exactly where the name is short or one text lies behind it. -/
theorem um_manifesto_iff (hn : 0 ∉ name) (a b c : ByteStr 32) :
    (∃ path, Monta (pkg_files_save_path a name) path ∧ Monta (pkg_files_load_path b name) path ∧
        Monta (pkg_remove_path c name) path) ↔
      name.length < 8 ∨ textFrom a 13 = textFrom b 13 ∧ textFrom a 13 = textFrom c 13 ∧
        (textFrom a 13).length < 15 := by
  have hlen : ∀ lixo : Lixo, (lst_path lixo name).length = 9 + (copiado name 8 lixo).length := by
    intro lixo
    unfold lst_path
    rw [List.length_append, List.length_append, List.length_cons]
    simp only [List.length_cons, List.length_nil]
    omega
  have hmesmo : ∀ x y : Lixo, lst_path x name = lst_path y name ↔
      copiado name 8 x = copiado name 8 y := by
    intro x y
    unfold lst_path
    rw [List.append_left_inj, List.append_right_inj]
  unfold pkg_files_save_path pkg_files_load_path pkg_remove_path
  simp only [monta_manifesto_iff hn]
  constructor
  · rintro ⟨path, ⟨rfl, hfit⟩, ⟨hb, -⟩, hc, -⟩
    rcases Nat.lt_or_ge name.length 8 with hcurto | hlongo
    · exact Or.inl hcurto
    · rw [hlen] at hfit
      rw [hmesmo] at hb hc
      unfold copiado at hb hc hfit
      rw [if_neg (by omega), if_neg (by omega), List.append_right_inj] at hb hc
      rw [if_neg (by omega), List.length_append, List.length_take, Nat.min_eq_left hlongo] at hfit
      exact Or.inr ⟨hb, hc, by change (sobra a 13).val.length < 15; omega⟩
  · intro h
    have hcop : copiado name 8 (sobra a 13) = copiado name 8 (sobra b 13) ∧
        copiado name 8 (sobra a 13) = copiado name 8 (sobra c 13) ∧
        (copiado name 8 (sobra a 13)).length < 23 := by
      unfold copiado
      rcases Nat.lt_or_ge name.length 8 with hcurto | hlongo
      · simp only [if_pos hcurto]
        exact ⟨trivial, trivial, by omega⟩
      · obtain ⟨hb, hc, hfit⟩ := h.resolve_left (by omega)
        simp only [if_neg (Nat.not_lt.mpr hlongo)]
        rw [List.length_append, List.length_take]
        refine ⟨congrArg (name.take 8 ++ ·) hb, congrArg (name.take 8 ++ ·) hc, ?_⟩
        change _ + (textFrom a 13).length < 23
        omega
    obtain ⟨hb, hc, hfit⟩ := hcop
    have hpath : (lst_path (sobra a 13) name).length < 32 := by
      rw [hlen]
      omega
    exact ⟨_, ⟨rfl, hpath⟩, ⟨(hmesmo _ _).mpr hb, hpath⟩, (hmesmo _ _).mpr hc, hpath⟩

/-- Where each path is the prefix, the first 8 bytes of the name and the extension, in any buffer
or, for the static ones, after any calls; and where three calls use one manifest. -/
structure CaminhosDe (name : List UInt8) : Prop where
  save : ∀ lst_buf,
    Monta (pkg_files_save_path lst_buf name) (PREFIXO_PKG ++ name.take 8 ++ EXT_LST) ↔
      name.length < 8 ∨ lst_buf.byte 13 = 0
  load : ∀ lst_buf,
    Monta (pkg_files_load_path lst_buf name) (PREFIXO_PKG ++ name.take 8 ++ EXT_LST) ↔
      name.length < 8 ∨ lst_buf.byte 13 = 0
  remove : ∀ lst_buf,
    Monta (pkg_remove_path lst_buf name) (PREFIXO_PKG ++ name.take 8 ++ EXT_LST) ↔
      name.length < 8 ∨ lst_buf.byte 13 = 0
  solve_deps : ∀ dep_buf,
    Monta (pkg_solve_deps_path dep_buf name) (PREFIXO_INCOMING ++ name.take 8 ++ EXT_SPK) ↔
      name.length < 8 ∨ dep_buf.byte 22 = 0
  download : ∀ ps s, Baixados ps s →
    (Monta (pkg_remote_download_path s name) (PREFIXO_PACKAGES ++ name.take 8 ++ EXT_SPK) ↔
      name.length < 8 ∨ UltimoDeQuatro (pedidos ps))
  download_spk : ∀ ps s, Baixados ps s →
    (Monta (pkg_remote_download_spk_path s name) (PREFIXO_INCOMING ++ name.take 8 ++ EXT_SPK) ↔
      name.length < 8 ∨ UltimoDeQuatro (salvos ps))
  um_manifesto : ∀ a b c,
    (∃ path, Monta (pkg_files_save_path a name) path ∧ Monta (pkg_files_load_path b name) path ∧
        Monta (pkg_remove_path c name) path) ↔
      name.length < 8 ∨ textFrom a 13 = textFrom b 13 ∧ textFrom a 13 = textFrom c 13 ∧
        (textFrom a 13).length < 15

/-- The paths depend only on the name exactly where it has fewer than 8 bytes or a zero lies behind
them in the buffer. In a static buffer that is so where the last name of 4 bytes or more had 4. -/
theorem the_paths_depend_only_on_the_name_iff (hn : 0 ∉ name) : CaminhosDe name where
  save := manifesto_iff hn
  load := manifesto_iff hn
  remove := manifesto_iff hn
  solve_deps _ := monta_caminho_iff (by decide) hn (by decide) (by decide)
  download ps s hs := by
    rw [← hs.zero_iff.1]
    exact monta_caminho_iff (by decide) hn (by decide) (by decide)
  download_spk ps s hs := by
    rw [← hs.zero_iff.2]
    exact monta_caminho_iff (by decide) hn (by decide) (by decide)
  um_manifesto := um_manifesto_iff hn

end Nome

/-- The name `ls`. -/
theorem the_paths_depend_only_on_the_name_ls : CaminhosDe [108, 115] :=
  the_paths_depend_only_on_the_name_iff (by decide)

/-- The package `calendar`, of one byte. -/
def calendar_baixado : Download where
  repositorio := Repositorio.padrao
  meio := ⟨true, some fun _ => 0, [FIM_HEADER ++ [120]]⟩
  pkg_name := [99, 97, 108, 101, 110, 100, 97, 114]

/-- The second time that `calendar` is downloaded, its file is not `/pkg/incoming/calendar.spk`. -/
theorem a_name_of_eight_bytes_is_saved_elsewhere_the_second_time :
    ¬ ∀ (ps : List Download) (s : Estaticos) (name : List UInt8), Baixados ps s → 0 ∉ name →
      Monta (pkg_remote_download_spk_path s name) (PREFIXO_INCOMING ++ name.take 8 ++ EXT_SPK) := by
  intro h
  let amb : Ambiente := ⟨fun _ => .ok, fun _ => true⟩
  let v : Vfs := ⟨fun _ => none, [], 0, 0⟩
  have hsome : (pkg_remote_download amb calendar_baixado.repositorio calendar_baixado.meio
      Estaticos.inicio v calendar_baixado.pkg_name).isSome := by decide
  obtain ⟨⟨ret, s, v'⟩, hd⟩ := Option.isSome_iff_exists.mp hsome
  have hs : Baixados ([] ++ [calendar_baixado]) s := Baixados.nil.snoc (by decide) hd
  have hm := h _ s calendar_baixado.pkg_name hs (by decide)
  have hzero := (monta_caminho_iff (by decide) (by decide) (by decide) (by decide)).mp hm
  have hult := hs.zero_iff.2.mp (hzero.resolve_left (by decide))
  have h8 := hult calendar_baixado.pkg_name (by decide)
  exact absurd h8 (by decide)

end SpaceOS.Pkg
