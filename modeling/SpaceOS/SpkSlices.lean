-- The parts of a package that `instalar_spk` takes: the bytes that it sums, and those that it hands to
-- `vfs_write`, set against the payload. Both bounds are checked on sums of 32 bits.
import SpaceOS.Lib.Words
import SpaceOS.PkgRemoveLaws

open Lib.Bytes Lib.Layout

namespace SpaceOS.Pkg

/-! ## The steps with the parts that they take -/

/-- `len` bytes of the buffer from `inicio` on. -/
structure Fatia where
  inicio : Nat
  len : Nat
  deriving DecidableEq

def Fatia.fim (f : Fatia) : Nat := f.inicio + f.len

/-- The content of a file that can be a package. -/
abbrev Imagem := { c : List UInt8 // c.length ≤ SPK_MAX_SIZE }

namespace Imagem

variable (c : Imagem)

/-- The buffer, the header and the records that are read from it. -/
def buf : Memory := fun i => c.val.getD i 0

def hdr : Header := header c.buf c.val.length

def registros : List Record := (List.range c.hdr.num_files.toNat).map (record c.buf c.val.length)

/-- The sum of the sizes, which the file must have. -/
def total : UInt32 := header_total c.hdr + c.hdr.total_payload_size

/-- The payload, in the numbers of the header. -/
def payload : Fatia := ⟨(header_total c.hdr).toNat, c.hdr.total_payload_size.toNat⟩

end Imagem

/-- `verifica` with the part that it sums. -/
def verifica_notada (buf : Memory) (size : UInt32) : Except String Header × List Fatia :=
  if size.toNat > SPK_MAX_SIZE then (.error "spk: pacote muito grande (max 64KB)", [])
  else if size.toNat < HEADER then (.error "spk: arquivo muito pequeno", [])
  else
    let hdr := header buf size.toNat
    if hdr.magic ≠ UInt32.ofNat SPK_MAGIC then
      (.error "spk: formato invalido (magic errado)", [])
    else if hdr.version ≠ UInt32.ofNat SPK_VERSION then
      (.error "spk: versao do formato incompativel", [])
    else if hdr.num_files = 0 ∨ hdr.num_files > UInt32.ofNat SPK_MAX_FILES then
      (.error "spk: numero de arquivos invalido", [])
    else if header_total hdr + hdr.total_payload_size > size then
      (.error "spk: tamanho inconsistente", [])
    else
      let payload : Fatia := ⟨(header_total hdr).toNat, hdr.total_payload_size.toNat⟩
      if pkg_checksum (bytes buf payload.inicio payload.len) ≠ hdr.checksum then
        (.error "spk: checksum invalido — pacote corrompido", [payload])
      else (.ok hdr, [payload])

/-- `extrair` on the records, with the parts that it writes. -/
def extrair_notado (amb : Ambiente) (buf : Memory) (hdr : Header) :
    List Record → Vfs → List Path → (Bool × List Path × Vfs) × List Fatia
  | [], v, installed => ((true, installed, v), [])
  | rec :: resto, v, installed =>
    if rec.offset + rec.size > hdr.total_payload_size then ((false, installed, v), [])
    else
      let file_data : Fatia := ⟨(header_total hdr).toNat + rec.offset.toNat, rec.size.toNat⟩
      let path := rec.install_path
      let (r, v) := vfs_write amb (ensure_parent_dir amb v path) path
        (bytes buf file_data.inicio file_data.len)
      if r < 0 then ((false, installed, v), [file_data])
      else
        let (x, fs) := extrair_notado amb buf hdr resto v (installed ++ [path.take 64])
        (x, file_data :: fs)

/-- What `instalar_spk` returns, and the parts of the package that it sums and writes. -/
structure Instalacao where
  retorno : Int
  vfs : Vfs
  somadas : List Fatia
  escritas : List Fatia

/-- `instalar_spk` with the parts of the package that it takes. -/
def instalar_spk_notado (amb : Ambiente) (pilha : Pilha) (memoria : Bool) (v : Vfs)
    (spk_path : Path) : Instalacao :=
  if memoria = false then ⟨-1, v, [], []⟩
  else
    match v.arquivos spk_path with
    | none => ⟨-1, v, [], []⟩
    | some c =>
      let buf : Memory := fun i => c.getD i 0
      match verifica_notada buf (UInt32.ofNat c.length) with
      | (.error _, somadas) => ⟨-1, v, somadas, []⟩
      | (.ok hdr, somadas) =>
        if pkg_is_installed v hdr.name then ⟨-1, v, somadas, []⟩
        else
          let registros := (List.range hdr.num_files.toNat).map (record buf c.length)
          let r := extrair_e_registrar amb pilha hdr (arquivos_do_pacote buf c.length hdr) v
          ⟨r.1, r.2, somadas, (extrair_notado amb buf hdr registros v []).2⟩

/-! ## The notes change nothing -/

section Notas

variable {amb : Ambiente} {buf : Memory} {hdr : Header}

theorem verifica_notada_fst (buf : Memory) (size : UInt32) :
    (verifica_notada buf size).1 = verifica buf size := by
  unfold verifica_notada verifica
  simp only [apply_ite Prod.fst]

theorem extrair_notado_fst (rs : List Record) (v : Vfs) (installed : List Path) :
    (extrair_notado amb buf hdr rs v installed).1 =
      extrair amb (rs.map fun rec => (rec.install_path, conteudo buf hdr rec)) v installed := by
  induction rs generalizing v installed with
  | nil => rfl
  | cons rec resto ih =>
    rw [List.map_cons]
    unfold extrair_notado conteudo
    by_cases h : rec.offset + rec.size > hdr.total_payload_size
    · rw [if_pos h, if_pos h]
      rfl
    · rw [if_neg h, if_neg h, extrair]
      dsimp only
      split
      · rfl
      · exact ih _ _

theorem instalar_spk_notado_eq (amb : Ambiente) (pilha : Pilha) (memoria : Bool) (v : Vfs)
    (spk_path : Path) :
    ((instalar_spk_notado amb pilha memoria v spk_path).retorno,
      (instalar_spk_notado amb pilha memoria v spk_path).vfs) =
      instalar_spk amb pilha memoria v spk_path := by
  unfold instalar_spk_notado instalar_spk ler_pacote
  split
  · rfl
  · cases v.arquivos spk_path with
    | none => rfl
    | some c =>
      dsimp only
      rw [← verifica_notada_fst]
      rcases verifica_notada (fun i => c.getD i 0) (UInt32.ofNat c.length) with ⟨_ | hdr, fs⟩
      · rfl
      · dsimp only
        split <;> rfl

end Notas

/-! ## What a package must be -/

namespace Imagem

variable (c : Imagem)

/-- The checks on the header but those of its sizes. -/
structure Cabecalho : Prop where
  size : HEADER ≤ c.val.length
  magic : c.hdr.magic = UInt32.ofNat SPK_MAGIC
  version : c.hdr.version = UInt32.ofNat SPK_VERSION
  num_files : ¬ (c.hdr.num_files = 0 ∨ c.hdr.num_files > UInt32.ofNat SPK_MAX_FILES)

/-- The check of the sizes, in 32 bits. -/
def Consistente : Prop := c.total ≤ UInt32.ofNat c.val.length

/-- The check of the checksum. -/
def Confere : Prop := pkg_checksum (bytes c.buf c.payload.inicio c.payload.len) = c.hdr.checksum

/-- The check of a record, in 32 bits. -/
def Aceito (rec : Record) : Prop := rec.offset + rec.size ≤ c.hdr.total_payload_size

/-- What is summed and written lies in the package, and nothing is installed of a package whose
payload leaves the file, or that has a record whose bytes leave the payload. -/
structure Segura (r : Instalacao) : Prop where
  somadas : ∀ f ∈ r.somadas, f.fim ≤ c.val.length
  escritas : ∀ f ∈ r.escritas, c.payload.inicio ≤ f.inicio ∧ f.fim ≤ c.payload.fim ∧
    c.payload.fim ≤ c.val.length
  recusa : r.retorno ≠ -1 → c.payload.fim ≤ c.val.length ∧
    ∀ rec ∈ c.registros, rec.offset.toNat + rec.size.toNat ≤ c.hdr.total_payload_size.toNat

/-- The sums that the checks accept are below 2^32: that of the sizes, and where the checksum is
right those of the records up to the first that is refused. -/
def SemVolta : Prop :=
  c.Cabecalho → c.Consistente → c.payload.fim < 2 ^ 32 ∧
    (c.Confere → ∀ antes rec depois, c.registros = antes ++ rec :: depois →
      (∀ r ∈ antes, c.Aceito r) → c.Aceito rec → rec.offset.toNat + rec.size.toNat < 2 ^ 32)

end Imagem

/-! ## The steps -/

section Verifica

variable {c : Imagem}

theorem toNat_tamanho (c : Imagem) : (UInt32.ofNat c.val.length).toNat = c.val.length := by
  have h := c.property
  have hmax : SPK_MAX_SIZE = 65536 := rfl
  rw [UInt32.toNat_ofNat']
  omega

theorem verifica_notada_imagem (c : Imagem) :
    verifica_notada c.buf (UInt32.ofNat c.val.length) =
      if c.val.length > SPK_MAX_SIZE then (.error "spk: pacote muito grande (max 64KB)", [])
      else if c.val.length < HEADER then (.error "spk: arquivo muito pequeno", [])
      else if c.hdr.magic ≠ UInt32.ofNat SPK_MAGIC then
        (.error "spk: formato invalido (magic errado)", [])
      else if c.hdr.version ≠ UInt32.ofNat SPK_VERSION then
        (.error "spk: versao do formato incompativel", [])
      else if c.hdr.num_files = 0 ∨ c.hdr.num_files > UInt32.ofNat SPK_MAX_FILES then
        (.error "spk: numero de arquivos invalido", [])
      else if c.total > UInt32.ofNat c.val.length then
        (.error "spk: tamanho inconsistente", [])
      else if pkg_checksum (bytes c.buf c.payload.inicio c.payload.len) ≠ c.hdr.checksum then
        (.error "spk: checksum invalido — pacote corrompido", [c.payload])
      else (.ok c.hdr, [c.payload]) := by
  unfold verifica_notada
  rw [toNat_tamanho]
  rfl

/-- A package that fails one of the first checks is refused before anything is summed. -/
theorem verifica_notada_recusa (h : ¬ (c.Cabecalho ∧ c.Consistente)) :
    ∃ e, verifica_notada c.buf (UInt32.ofNat c.val.length) = (.error e, []) := by
  rw [verifica_notada_imagem, if_neg (Nat.not_lt.mpr c.property)]
  by_cases h1 : c.val.length < HEADER
  · exact ⟨_, if_pos h1⟩
  rw [if_neg h1]
  by_cases h2 : c.hdr.magic ≠ UInt32.ofNat SPK_MAGIC
  · exact ⟨_, if_pos h2⟩
  rw [if_neg h2]
  by_cases h3 : c.hdr.version ≠ UInt32.ofNat SPK_VERSION
  · exact ⟨_, if_pos h3⟩
  rw [if_neg h3]
  by_cases h4 : c.hdr.num_files = 0 ∨ c.hdr.num_files > UInt32.ofNat SPK_MAX_FILES
  · exact ⟨_, if_pos h4⟩
  rw [if_neg h4]
  have h5 : c.total > UInt32.ofNat c.val.length := by
    refine UInt32.not_le.mp fun hle => h ⟨⟨Nat.le_of_not_lt h1, ?_, ?_, h4⟩, hle⟩
    · exact Decidable.not_not.mp h2
    · exact Decidable.not_not.mp h3
  exact ⟨_, if_pos h5⟩

/-- Any other package has its payload summed, and is accepted where the checksum is right. -/
theorem verifica_notada_soma (h : c.Cabecalho) (ht : c.Consistente) :
    (c.Confere → verifica_notada c.buf (UInt32.ofNat c.val.length) = (.ok c.hdr, [c.payload])) ∧
      (¬ c.Confere → ∃ e, verifica_notada c.buf (UInt32.ofNat c.val.length) =
        (.error e, [c.payload])) := by
  rw [verifica_notada_imagem, if_neg (Nat.not_lt.mpr c.property), if_neg (Nat.not_lt.mpr h.size),
    if_neg (not_not_intro h.magic), if_neg (not_not_intro h.version), if_neg h.num_files,
    if_neg (UInt32.not_lt.mpr ht)]
  exact ⟨fun hc => if_neg (not_not_intro hc), fun hc => ⟨_, if_pos hc⟩⟩

end Verifica

section Extrair

variable {amb : Ambiente} {buf : Memory} {hdr : Header}

/-- The part of a record. -/
def parte_de (hdr : Header) (rec : Record) : Fatia :=
  ⟨(header_total hdr).toNat + rec.offset.toNat, rec.size.toNat⟩

/-- What is written is the part of a record that is accepted, as are those before it. -/
theorem mem_extrair_notado {rs : List Record} {v : Vfs} {installed : List Path} {f : Fatia}
    (h : f ∈ (extrair_notado amb buf hdr rs v installed).2) :
    ∃ antes rec depois, rs = antes ++ rec :: depois ∧
      (∀ r ∈ antes, r.offset + r.size ≤ hdr.total_payload_size) ∧
      rec.offset + rec.size ≤ hdr.total_payload_size ∧ f = parte_de hdr rec := by
  induction rs generalizing v installed with
  | nil => exact absurd h List.not_mem_nil
  | cons rec resto ih =>
    unfold extrair_notado at h
    by_cases hr : rec.offset + rec.size > hdr.total_payload_size
    · rw [if_pos hr] at h
      exact absurd h List.not_mem_nil
    · have hle := UInt32.not_lt.mp hr
      rw [if_neg hr] at h
      dsimp only at h
      split at h
      · exact ⟨[], rec, resto, rfl, nofun, hle, List.mem_singleton.mp h⟩
      · rcases List.mem_cons.mp h with rfl | h
        · exact ⟨[], rec, resto, rfl, nofun, hle, rfl⟩
        · obtain ⟨antes, r, depois, rfl, hantes, hr', hf⟩ := ih h
          exact ⟨rec :: antes, r, depois, rfl, List.forall_mem_cons.mpr ⟨hle, hantes⟩, hr', hf⟩

/-- Where no write fails, the parts of all records up to the first that is refused are written. -/
theorem extrair_notado_mem (hok : ∀ n, amb.escrita n = .ok) {antes depois : List Record}
    {rec : Record} (hantes : ∀ r ∈ antes, r.offset + r.size ≤ hdr.total_payload_size)
    (hr : rec.offset + rec.size ≤ hdr.total_payload_size) (v : Vfs) (installed : List Path) :
    parte_de hdr rec ∈ (extrair_notado amb buf hdr (antes ++ rec :: depois) v installed).2 := by
  have hw : ∀ (v : Vfs) (path : Path) (dados : List UInt8), ¬ (vfs_write amb v path dados).1 < 0 :=
    fun v path dados h => vfs_write_neg_iff.mp h (hok _)
  induction antes generalizing v installed with
  | nil =>
    rw [List.nil_append]
    unfold extrair_notado
    rw [if_neg (UInt32.not_lt.mpr hr)]
    dsimp only
    rw [if_neg (hw _ _ _)]
    exact List.mem_cons_self
  | cons a antes ih =>
    rw [List.cons_append]
    unfold extrair_notado
    rw [if_neg (UInt32.not_lt.mpr (hantes a List.mem_cons_self))]
    dsimp only
    rw [if_neg (hw _ _ _)]
    exact List.mem_cons_of_mem _ (ih (fun r hr => hantes r (List.mem_cons_of_mem a hr)) _ _)

/-- All records are accepted where all are extracted. -/
theorem aceitos_de_extrair {rs : List Record} {v : Vfs} {installed : List Path}
    (h : (extrair amb (rs.map fun rec => (rec.install_path, conteudo buf hdr rec)) v installed).1 =
      true) : ∀ rec ∈ rs, rec.offset + rec.size ≤ hdr.total_payload_size := by
  induction rs generalizing v installed with
  | nil => exact nofun
  | cons rec resto ih =>
    rw [List.map_cons] at h
    unfold conteudo at h
    by_cases hr : rec.offset + rec.size > hdr.total_payload_size
    · rw [if_pos hr] at h
      exact absurd h Bool.false_ne_true
    · rw [if_neg hr, extrair] at h
      dsimp only at h
      split at h
      · exact absurd h Bool.false_ne_true
      · exact List.forall_mem_cons.mpr ⟨UInt32.not_lt.mp hr, ih h⟩

end Extrair

/-! ## The installation -/

section Instala

variable {c : Imagem} {amb : Ambiente} {pilha : Pilha} {memoria : Bool} {v : Vfs} {spk_path : Path}

/-- An installation is refused with nothing taken, or with the payload summed alone, or it writes the
records of a package that all checks of the header accept. -/
theorem instalar_spk_notado_cases (hv : v.arquivos spk_path = some c.val) :
    (∃ v', instalar_spk_notado amb pilha memoria v spk_path = ⟨-1, v', [], []⟩) ∨
      c.Cabecalho ∧ c.Consistente ∧
        ((∃ v', instalar_spk_notado amb pilha memoria v spk_path = ⟨-1, v', [c.payload], []⟩) ∨
          c.Confere ∧ instalar_spk_notado amb pilha memoria v spk_path =
            ⟨(extrair_e_registrar amb pilha c.hdr
                (arquivos_do_pacote c.buf c.val.length c.hdr) v).1,
              (extrair_e_registrar amb pilha c.hdr
                (arquivos_do_pacote c.buf c.val.length c.hdr) v).2, [c.payload],
              (extrair_notado amb c.buf c.hdr c.registros v []).2⟩) := by
  unfold instalar_spk_notado
  by_cases hm : memoria = false
  · exact Or.inl ⟨v, if_pos hm⟩
  rw [if_neg hm, hv]
  dsimp only
  by_cases hh : c.Cabecalho ∧ c.Consistente
  · refine Or.inr ⟨hh.1, hh.2, ?_⟩
    obtain ⟨hok, herro⟩ := verifica_notada_soma hh.1 hh.2
    by_cases hc : c.Confere
    · have he : verifica_notada (fun i => c.val.getD i 0) (UInt32.ofNat c.val.length) =
          (.ok c.hdr, [c.payload]) := hok hc
      rw [he]
      dsimp only
      by_cases hi : pkg_is_installed v c.hdr.name
      · exact Or.inl ⟨v, if_pos hi⟩
      · exact Or.inr ⟨hc, if_neg hi⟩
    · obtain ⟨e, he⟩ := herro hc
      have he : verifica_notada (fun i => c.val.getD i 0) (UInt32.ofNat c.val.length) =
          (.error e, [c.payload]) := he
      rw [he]
      exact Or.inl ⟨v, rfl⟩
  · obtain ⟨e, he⟩ := verifica_notada_recusa hh
    have he : verifica_notada (fun i => c.val.getD i 0) (UInt32.ofNat c.val.length) =
        (.error e, []) := he
    rw [he]
    exact Or.inl ⟨v, rfl⟩

/-- A package at `/p`, on a disk with nothing else. -/
def so_pacote (c : Imagem) : Vfs where
  arquivos := fun p => if p = [47, 112] then some c.val else none
  diretorios := []
  escritas := 0
  criacoes := 0

theorem arquivos_so_pacote (c : Imagem) : (so_pacote c).arquivos [47, 112] = some c.val := by
  simp [so_pacote]

/-- An installation there, where there is memory, takes the payload of a package
that passes the checks of the header, and writes its records where the checksum is right. -/
theorem instala_so_pacote (amb : Ambiente) (pilha : Pilha) (hh : c.Cabecalho) (ht : c.Consistente) :
    c.payload ∈ (instalar_spk_notado amb pilha true (so_pacote c) [47, 112]).somadas ∧
      (c.Confere → (instalar_spk_notado amb pilha true (so_pacote c) [47, 112]).escritas =
        (extrair_notado amb c.buf c.hdr c.registros (so_pacote c) []).2) := by
  obtain ⟨hok', herro⟩ := verifica_notada_soma hh ht
  unfold instalar_spk_notado
  rw [if_neg (by decide)]
  rw [arquivos_so_pacote]
  dsimp only
  by_cases hc : c.Confere
  · have he : verifica_notada (fun i => c.val.getD i 0) (UInt32.ofNat c.val.length) =
        (.ok c.hdr, [c.payload]) := hok' hc
    have hi : pkg_is_installed (so_pacote c) c.hdr.name = false := rfl
    rw [he]
    dsimp only
    rw [if_neg (by rw [hi]; exact Bool.false_ne_true)]
    exact ⟨List.mem_singleton_self _, fun _ => rfl⟩
  · obtain ⟨e, he⟩ := herro hc
    have he : verifica_notada (fun i => c.val.getD i 0) (UInt32.ofNat c.val.length) =
        (.error e, [c.payload]) := he
    rw [he]
    exact ⟨List.mem_singleton_self _, fun h => absurd h hc⟩

theorem retorno_extrair (hdr : Header) (arquivos : List (Path × Option (List UInt8)))
    (h : (extrair_e_registrar amb pilha hdr arquivos v).1 ≠ -1) :
    (extrair amb arquivos v []).1 = true := by
  unfold extrair_e_registrar at h
  by_contra hf
  refine h ?_
  dsimp only
  rw [if_pos (by simpa using hf)]

end Instala

/-! ## Sums that wrap -/

section Somas

variable {c : Imagem}

/-- A payload whose end does not wrap lies in the file, where the check accepts it. -/
theorem fim_le_of_consistente (ht : c.Consistente) (h : c.payload.fim < 2 ^ 32) :
    c.payload.fim ≤ c.val.length := by
  have hle := UInt32.le_iff_toNat_le.mp ht
  unfold Imagem.total at hle
  rwa [toNat_tamanho, Lib.Words.toNat_add_of_lt h] at hle

/-- So does a record whose end does not wrap lie in the payload. -/
theorem fim_le_of_aceito {rec : Record} (ha : c.Aceito rec)
    (h : rec.offset.toNat + rec.size.toNat < 2 ^ 32) :
    rec.offset.toNat + rec.size.toNat ≤ c.hdr.total_payload_size.toNat := by
  have hle := UInt32.le_iff_toNat_le.mp ha
  rwa [Lib.Words.toNat_add_of_lt h] at hle

end Somas

section Lei

variable {c : Imagem}

theorem segura_de_sem_volta (h : c.SemVolta) {amb : Ambiente} {pilha : Pilha} {memoria : Bool}
    {v : Vfs} {spk_path : Path} (hv : v.arquivos spk_path = some c.val) :
    c.Segura (instalar_spk_notado amb pilha memoria v spk_path) := by
  rcases instalar_spk_notado_cases hv with ⟨v', he⟩ | ⟨hh, ht, ⟨v', he⟩ | ⟨hc, he⟩⟩
  · rw [he]
    exact ⟨nofun, nofun, fun hr => absurd rfl hr⟩
  · have hfim := fim_le_of_consistente ht (h hh ht).1
    rw [he]
    refine ⟨fun f hf => ?_, nofun, fun hr => absurd rfl hr⟩
    rwa [List.mem_singleton.mp hf]
  · obtain ⟨hlt, hrec⟩ := h hh ht
    have hfim := fim_le_of_consistente ht hlt
    rw [he]
    refine ⟨fun f hf => ?_, fun f hf => ?_, fun hr => ⟨hfim, ?_⟩⟩
    · rwa [List.mem_singleton.mp hf]
    · obtain ⟨antes, rec, depois, hrs, hantes, hr, rfl⟩ := mem_extrair_notado hf
      have hle := fim_le_of_aceito hr (hrec hc antes rec depois hrs hantes hr)
      refine ⟨Nat.le_add_right _ _, ?_, hfim⟩
      change (header_total c.hdr).toNat + rec.offset.toNat + rec.size.toNat ≤
        (header_total c.hdr).toNat + c.hdr.total_payload_size.toNat
      omega
    · have hok := retorno_extrair c.hdr _ hr
      have hlist : arquivos_do_pacote c.buf c.val.length c.hdr =
          c.registros.map fun rec => (rec.install_path, conteudo c.buf c.hdr rec) := by
        unfold arquivos_do_pacote Imagem.registros
        rw [List.map_map]
        rfl
      rw [hlist] at hok
      have hall := aceitos_de_extrair hok
      intro rec hmem
      obtain ⟨antes, depois, hrs⟩ := List.append_of_mem hmem
      refine fim_le_of_aceito (hall rec hmem) (hrec hc antes rec depois hrs (fun r hr => ?_) ?_)
      · exact hall r (hrs ▸ List.mem_append_left _ hr)
      · exact hall rec hmem

theorem sem_volta_de_segura (h : ∀ (amb : Ambiente) (pilha : Pilha) (memoria : Bool) (v : Vfs)
    (spk_path : Path), v.arquivos spk_path = some c.val →
      c.Segura (instalar_spk_notado amb pilha memoria v spk_path)) : c.SemVolta := by
  intro hh ht
  have hseg := h sem_falhas pilha_zerada true (so_pacote c) [47, 112] (arquivos_so_pacote c)
  obtain ⟨hsoma, hescritas⟩ := instala_so_pacote sem_falhas pilha_zerada hh ht
  have hfim := hseg.somadas c.payload hsoma
  have hmax : SPK_MAX_SIZE = 65536 := rfl
  have hsize := c.property
  refine ⟨by omega, fun hc antes rec depois hrs hantes hr => ?_⟩
  have hmem : parte_de c.hdr rec ∈
      (extrair_notado sem_falhas c.buf c.hdr (antes ++ rec :: depois) (so_pacote c) []).2 :=
    extrair_notado_mem (fun _ => rfl) hantes hr (so_pacote c) []
  rw [← hrs, ← hescritas hc] at hmem
  have hle := (hseg.escritas _ hmem).2.1
  change (header_total c.hdr).toNat + rec.offset.toNat + rec.size.toNat ≤ _ at hle
  omega

/-- The parts that are summed and written lie in the package, in every installation of it, exactly
where the sums that the checks accept are below 2^32. -/
theorem the_parts_lie_in_the_package_iff (c : Imagem) :
    (∀ (amb : Ambiente) (pilha : Pilha) (memoria : Bool) (v : Vfs) (spk_path : Path),
      v.arquivos spk_path = some c.val →
        c.Segura (instalar_spk_notado amb pilha memoria v spk_path)) ↔ c.SemVolta :=
  ⟨sem_volta_de_segura, fun h _ _ _ _ _ hv => segura_de_sem_volta h hv⟩

end Lei

/-- A package with one record, whose payload is said to have 2^32 bytes less the 465 before it. -/
def pacote_que_volta : Imagem :=
  ⟨le32 SPK_MAGIC ++ le32 SPK_VERSION ++ List.replicate 340 0 ++ le32 1 ++ le32 (2 ^ 32 - 465) ++
    List.replicate 109 0, by decide +kernel⟩

theorem a_wrapping_payload_is_summed_outside_the_package :
    ¬ ∀ (c : Imagem) (amb : Ambiente) (pilha : Pilha) (memoria : Bool) (v : Vfs) (spk_path : Path),
      v.arquivos spk_path = some c.val →
        c.Segura (instalar_spk_notado amb pilha memoria v spk_path) := by
  intro h
  have hh : pacote_que_volta.Cabecalho :=
    ⟨by decide +kernel, by decide +kernel, by decide +kernel, by decide +kernel⟩
  have ht : pacote_que_volta.Consistente := by
    unfold Imagem.Consistente
    decide +kernel
  have hlt := (sem_volta_de_segura (h pacote_que_volta) hh ht).1
  exact absurd hlt (by decide +kernel)

end SpaceOS.Pkg
