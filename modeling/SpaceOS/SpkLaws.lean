-- What the packer writes, the kernel accepts and reads back.
import Mathlib.Data.List.GetD
import SpaceOS.Spk

open Lib.Bytes Lib.Layout

namespace SpaceOS.Pkg

/-! ## The two checksums -/

theorem and_word (n : Nat) : n &&& 0xFFFFFFFF = n % 2 ^ 32 := Nat.and_two_pow_sub_one_eq_mod n 32

theorem checksum_foldl (data : List UInt8) (hash : UInt32) :
    (data.foldl (fun (hash : UInt32) b => ((hash <<< 5) + hash) + b.toUInt32) hash).toNat =
      data.foldl (fun (h : Nat) b => ((h <<< 5) + h + b.toNat) &&& 0xFFFFFFFF) hash.toNat := by
  induction data generalizing hash with
  | nil => rfl
  | cons b data ih =>
    rw [List.foldl_cons, List.foldl_cons, ih, and_word]
    congr 1
    have hshift : (hash <<< 5).toNat = hash.toNat * 32 % 2 ^ 32 := by
      rw [UInt32.toNat_shiftLeft]
      exact congrArg (· % 2 ^ 32) (Nat.shiftLeft_eq _ _)
    rw [UInt32.toNat_add, UInt32.toNat_add, hshift, UInt8.toNat_toUInt32, Nat.shiftLeft_eq]
    omega

/-- The kernel computes the hash of the packer. -/
theorem pkg_checksum_eq (data : List UInt8) : (pkg_checksum data).toNat = djb2 data :=
  checksum_foldl data 5381

theorem djb2_lt (data : List UInt8) : djb2 data < 2 ^ 32 := by
  rw [← pkg_checksum_eq]
  exact UInt32.toNat_lt _

/-! ## Fields -/

section Campos

variable {buf : Memory} {a n : Nat} {s : List UInt8}

theorem campo_le32 (h : Lies buf a (le32 n)) : campo buf a = UInt32.ofNat n := by
  unfold campo
  rw [h.word, ← UInt32.toNat_inj, UInt32.toNat_ofNat', UInt32.toNat_ofNat', Nat.mod_mod]

theorem pack_str_eq (h : s.length < n) : pack_str s n = padded s n := by
  unfold pack_str
  rw [List.take_of_length_le (by omega)]

theorem length_pack_str (h : 0 < n) : (pack_str s n).length = n := by
  unfold pack_str
  refine length_padded ?_
  rw [List.length_take]
  omega

theorem cstr_pack_str {k : Nat} (h : Lies buf a (pack_str s n)) (hs : 0 ∉ s) (hn : s.length < n)
    (hk : n ≤ k) : cstr buf a k = s := by
  rw [pack_str_eq hn] at h
  exact h.cstr hs hn hk

end Campos

/-! ## The image -/

/-- The lists of names and files that the packer is meant for: strings without zero bytes that
fit their fields. -/
structure Cabivel (name version author : List UInt8) (deps : List (List UInt8))
    (files : List Arquivo) : Prop where
  name : 0 ∉ name ∧ name.length ≤ 31
  version : 0 ∉ version ∧ version.length ≤ 15
  author : 0 ∉ author ∧ author.length ≤ 31
  deps_le : deps.length ≤ 8
  deps : ∀ d ∈ deps, 0 ∉ d ∧ d.length ≤ 31
  files_pos : 1 ≤ files.length
  files_le : files.length ≤ 8
  files : ∀ f ∈ files, 0 ∉ f.install_path ∧ f.install_path.length ≤ 63

section Imagem

variable {name version author : List UInt8} {deps : List (List UInt8)} {files : List Arquivo}
  {buf : Memory} {a : Nat}

theorem length_flatMap_range {g : Nat → List UInt8} {n : Nat} (hg : ∀ i, (g i).length = n)
    (k : Nat) : ((List.range k).flatMap g).length = n * k := by
  induction k with
  | zero => rfl
  | succ k ih =>
    rw [List.range_succ, List.flatMap_append, List.length_append, ih, List.flatMap_singleton, hg,
      Nat.mul_succ]

theorem length_deps (deps : List (List UInt8)) (n : Nat) :
    ((List.range n).flatMap fun i => pack_str (deps.getD i []) 32).length = 32 * n :=
  length_flatMap_range (fun _ => length_pack_str (by omega)) n

theorem length_pack_header : (pack_header name version author deps files).length = HEADER := by
  unfold pack_header
  simp only [List.length_append, length_le32, length_deps, List.length_replicate]
  rw [length_pack_str (by omega), length_pack_str (by omega), length_pack_str (by omega)]
  rfl

theorem length_pack_record (f : Arquivo) (offset : Nat) : (pack_record f offset).length = RECORD := by
  unfold pack_record
  simp only [List.length_append, length_le32, List.length_singleton]
  rw [length_pack_str (by omega)]
  rfl

theorem length_records (offset : Nat) (files : List Arquivo) :
    (records offset files).length = RECORD * files.length := by
  induction files generalizing offset with
  | nil => rfl
  | cons f files ih =>
    unfold records
    rw [List.length_append, ih, length_pack_record, List.length_cons, Nat.mul_succ, Nat.add_comm]

/-- Where the `i`-th of some lists lies, of which all have the length `n`. -/
theorem lies_flatMap_range {g : Nat → List UInt8} {n k : Nat} (hg : ∀ i, (g i).length = n)
    (h : Lies buf a ((List.range k).flatMap g)) {i : Nat} (hi : i < k) :
    Lies buf (a + n * i) (g i) := by
  induction k with
  | zero => omega
  | succ k ih =>
    rw [List.range_succ, List.flatMap_append, lies_append] at h
    rcases Nat.lt_succ_iff_lt_or_eq.mp hi with hlt | rfl
    · exact ih h.1 hlt
    · have h2 := h.2
      rw [length_flatMap_range hg] at h2
      simpa using h2

/-- The header that the kernel reads. -/
def cabecalho (name version author : List UInt8) (deps : List (List UInt8))
    (files : List Arquivo) : Header where
  magic := UInt32.ofNat SPK_MAGIC
  version := UInt32.ofNat SPK_VERSION
  name := name
  pkg_version := version
  author := author
  num_deps := UInt32.ofNat deps.length
  deps := (List.range SPK_MAX_DEPS).map fun i => deps.getD i []
  num_files := UInt32.ofNat files.length
  total_payload_size := UInt32.ofNat (payload files).length
  checksum := UInt32.ofNat (djb2 (payload files))

/-- The kernel reads it from the header of the packer. -/
theorem header_pack (h : Lies buf 0 (pack_header name version author deps files))
    (hc : Cabivel name version author deps files) {size : Nat} (hs : HEADER ≤ size) :
    header buf size = cabecalho name version author deps files := by
  have h392 : HEADER = 392 := rfl
  unfold pack_header at h
  simp only [lies_append, length_le32, length_deps,
    length_pack_str (show 0 < 32 by omega), length_pack_str (show 0 < 16 by omega)] at h
  obtain ⟨h1, h2, h3, h4, h5, h6, h7, h8, h9, h10, _⟩ := h
  have hdeps : ∀ i ∈ List.range SPK_MAX_DEPS,
      cstr buf (92 + 32 * i) (size - (92 + 32 * i)) = deps.getD i [] := by
    intro i hi
    have hi8 : i < 8 := List.mem_range.mp hi
    have hd : 0 ∉ deps.getD i [] ∧ (deps.getD i []).length ≤ 31 := by
      by_cases hlt : i < deps.length
      · rw [List.getD_eq_getElem _ _ hlt]
        exact hc.deps _ (List.getElem_mem hlt)
      · rw [List.getD_eq_default _ _ (by omega)]
        simp
    have hl := lies_flatMap_range (fun i => length_pack_str (show 0 < 32 by omega)) h7 hi8
    exact cstr_pack_str hl hd.1 (by omega) (by omega)
  unfold header cabecalho
  rw [List.map_congr_left hdeps]
  congr 1
  · exact campo_le32 h1
  · exact campo_le32 h2
  · exact cstr_pack_str h3 hc.name.1 (by have := hc.name.2; omega) (by omega)
  · exact cstr_pack_str h4 hc.version.1 (by have := hc.version.2; omega) (by omega)
  · exact cstr_pack_str h5 hc.author.1 (by have := hc.author.2; omega) (by omega)
  · exact campo_le32 h6
  · exact campo_le32 h8
  · exact campo_le32 h9
  · exact campo_le32 h10

theorem lies_records {offset i : Nat} (h : Lies buf a (records offset files))
    (hi : i < files.length) :
    Lies buf (a + RECORD * i)
      (pack_record files[i] (offset + (payload (files.take i)).length)) := by
  induction files generalizing a offset i with
  | nil => exact absurd hi (by simp)
  | cons f files ih =>
    unfold records at h
    obtain ⟨h1, h2⟩ := lies_append.mp h
    rw [length_pack_record] at h2
    cases i with
    | zero => simpa [payload] using h1
    | succ i =>
      have hlt : i < files.length := Nat.lt_of_succ_lt_succ hi
      have hr := ih h2 hlt
      have hsum : (payload ((f :: files).take (i + 1))).length =
          f.content.length + (payload (files.take i)).length := by
        simp [payload]
      rw [hsum, List.getElem_cons_succ, ← Nat.add_assoc offset, Nat.mul_succ,
        Nat.add_comm (RECORD * i), ← Nat.add_assoc a]
      exact hr

theorem payload_eq {i : Nat} (hi : i < files.length) :
    payload files = payload (files.take i) ++
      (files[i].content ++ payload (files.drop (i + 1))) := by
  unfold payload
  conv_lhs => rw [← List.take_append_drop i files, List.drop_eq_getElem_cons hi]
  rw [List.flatMap_append, List.flatMap_cons]

theorem lies_payload {i : Nat} (h : Lies buf a (payload files)) (hi : i < files.length) :
    Lies buf (a + (payload (files.take i)).length) files[i].content := by
  rw [payload_eq hi] at h
  exact (lies_append.mp (lies_append.mp h).2).1

theorem length_take_payload {i : Nat} (hi : i < files.length) :
    (payload (files.take i)).length + files[i].content.length ≤ (payload files).length := by
  rw [payload_eq hi, List.length_append, List.length_append]
  omega

/-- What the kernel reads from the `i`-th record. -/
theorem record_pack {f : Arquivo} {offset size i : Nat}
    (h : Lies buf (HEADER + RECORD * i) (pack_record f offset))
    (hf : 0 ∉ f.install_path ∧ f.install_path.length ≤ 63)
    (hs : HEADER + RECORD * i + RECORD ≤ size) :
    record buf size i =
      { install_path := f.install_path
        size := UInt32.ofNat f.content.length
        offset := UInt32.ofNat offset } := by
  have h73 : RECORD = 73 := rfl
  unfold pack_record at h
  simp only [List.append_assoc, lies_append, length_le32,
    length_pack_str (show 0 < 64 by omega)] at h
  obtain ⟨h1, h2, h3, _⟩ := h
  unfold record
  congr 1
  · exact cstr_pack_str h1 hf.1 (by have := hf.2; omega) (by omega)
  · exact campo_le32 h2
  · exact campo_le32 h3

theorem bytes_eq {l : List UInt8} {n : Nat} (h : Lies buf a l) (hn : l.length = n) :
    bytes buf a n = l := by
  unfold bytes
  rw [← hn]
  exact h.range

/-! ## The round trip -/

/-- A package that the packer writes, as it lies in the kernel's buffer. -/
structure Lido (buf : Memory) (name version author : List UInt8) (deps : List (List UInt8))
    (files : List Arquivo) : Prop where
  cabivel : Cabivel name version author deps files
  size_le : HEADER + RECORD * files.length + (payload files).length ≤ SPK_MAX_SIZE
  in_header : Lies buf 0 (pack_header name version author deps files)
  in_records : Lies buf HEADER (records 0 files)
  in_payload : Lies buf (HEADER + RECORD * files.length) (payload files)

theorem criar_spk_some {img : List UInt8} (h : criar_spk name version author deps files = some img) :
    img = pack_header name version author deps files ++ (records 0 files ++ payload files) := by
  unfold criar_spk at h
  split at h
  · exact absurd h (by simp)
  · split at h
    · exact absurd h (by simp)
    · exact (Option.some.inj h).symm

theorem length_criar_spk {img : List UInt8}
    (h : criar_spk name version author deps files = some img) :
    img.length = HEADER + RECORD * files.length + (payload files).length := by
  rw [criar_spk_some h, List.length_append, List.length_append, length_pack_header,
    length_records, Nat.add_assoc]

theorem lido_of_criar_spk {img : List UInt8} (hc : Cabivel name version author deps files)
    (h : criar_spk name version author deps files = some img) (hlen : img.length ≤ SPK_MAX_SIZE)
    (hb : Lies buf 0 img) : Lido buf name version author deps files := by
  have hl := length_criar_spk h
  rw [criar_spk_some h, lies_append, lies_append, length_pack_header, length_records,
    Nat.zero_add] at hb
  exact ⟨hc, hl ▸ hlen, hb.1, hb.2.1, hb.2.2⟩

theorem Lido.header_total_eq (h : Lido buf name version author deps files) :
    (header_total (cabecalho name version author deps files)).toNat =
      HEADER + RECORD * files.length := by
  have h73 : RECORD = 73 := rfl
  have h392 : HEADER = 392 := rfl
  have hle := h.cabivel.files_le
  unfold header_total cabecalho
  rw [UInt32.toNat_add, UInt32.toNat_mul, UInt32.toNat_ofNat', UInt32.toNat_ofNat',
    UInt32.toNat_ofNat', h73, h392]
  omega

theorem Lido.payload_size (h : Lido buf name version author deps files) :
    (cabecalho name version author deps files).total_payload_size.toNat =
      (payload files).length := by
  have hmax : SPK_MAX_SIZE = 65536 := rfl
  have hsize := h.size_le
  unfold cabecalho
  rw [UInt32.toNat_ofNat']
  omega

theorem Lido.num_files (h : Lido buf name version author deps files) :
    (cabecalho name version author deps files).num_files.toNat = files.length := by
  have hle := h.cabivel.files_le
  unfold cabecalho
  rw [UInt32.toNat_ofNat']
  omega

/-- The kernel accepts what the packer wrote. -/
theorem Lido.aceito (h : Lido buf name version author deps files) :
    verifica buf (UInt32.ofNat (HEADER + RECORD * files.length + (payload files).length)) =
      .ok (cabecalho name version author deps files) := by
  have h73 : RECORD = 73 := rfl
  have h392 : HEADER = 392 := rfl
  have hmax : SPK_MAX_SIZE = 65536 := rfl
  have hsize := h.size_le
  have hpos := h.cabivel.files_pos
  have hle := h.cabivel.files_le
  generalize hn : HEADER + RECORD * files.length + (payload files).length = n at *
  have hnat : (UInt32.ofNat n).toNat = n := by
    rw [UInt32.toNat_ofNat']
    omega
  have hhdr : header buf n = cabecalho name version author deps files :=
    header_pack h.in_header h.cabivel (by omega)
  have htot := h.header_total_eq
  have hpay := h.payload_size
  have hnum := h.num_files
  unfold verifica
  rw [hnat, if_neg (by omega), if_neg (by omega)]
  dsimp only
  rw [hhdr, if_neg (fun hm => hm rfl), if_neg (fun hv => hv rfl), if_neg, if_neg, if_neg]
  · rw [htot, hpay, bytes_eq h.in_payload rfl]
    intro hsum
    apply hsum
    rw [← UInt32.toNat_inj, pkg_checksum_eq]
    unfold cabecalho
    rw [UInt32.toNat_ofNat', Nat.mod_eq_of_lt (djb2_lt _)]
  · intro hgt
    rw [gt_iff_lt, UInt32.lt_iff_toNat_lt, UInt32.toNat_add, htot, hpay, hnat] at hgt
    omega
  · rintro (h0 | hgt)
    · rw [← UInt32.toNat_inj, hnum] at h0
      have : (0 : UInt32).toNat = 0 := rfl
      omega
    · rw [gt_iff_lt, UInt32.lt_iff_toNat_lt, hnum] at hgt
      have : (UInt32.ofNat SPK_MAX_FILES).toNat = 8 := rfl
      omega

/-- The kernel reads the files of the package. -/
theorem Lido.arquivo (h : Lido buf name version author deps files) {i size : Nat}
    (hi : i < files.length)
    (hs : size = HEADER + RECORD * files.length + (payload files).length) :
    (record buf size i).install_path = files[i].install_path ∧
      conteudo buf (cabecalho name version author deps files) (record buf size i) =
        some files[i].content := by
  have h73 : RECORD = 73 := rfl
  have h392 : HEADER = 392 := rfl
  have hmax : SPK_MAX_SIZE = 65536 := rfl
  have hsize := h.size_le
  have hpart := length_take_payload hi
  have hrec : RECORD * i + RECORD ≤ RECORD * files.length := by
    rw [← Nat.mul_succ]
    exact Nat.mul_le_mul_left _ hi
  rw [record_pack (lies_records h.in_records hi) (h.cabivel.files _ (List.getElem_mem hi))
    (by omega)]
  refine ⟨rfl, ?_⟩
  have hoff : (UInt32.ofNat (0 + (payload (files.take i)).length)).toNat =
      (payload (files.take i)).length := by
    rw [UInt32.toNat_ofNat']
    omega
  have hlen : (UInt32.ofNat files[i].content.length).toNat = files[i].content.length := by
    rw [UInt32.toNat_ofNat']
    omega
  have hpay := h.payload_size
  unfold conteudo
  rw [if_neg]
  · dsimp only
    rw [h.header_total_eq, hoff, hlen, bytes_eq (lies_payload h.in_payload hi) rfl]
  · dsimp only
    rw [gt_iff_lt, UInt32.lt_iff_toNat_lt, UInt32.toNat_add, hoff, hlen, hpay]
    omega

theorem dependencias_cabecalho (h : deps.length ≤ 8) :
    dependencias (cabecalho name version author deps files) = deps := by
  have h8 : SPK_MAX_DEPS = 8 := rfl
  have hn : (UInt32.ofNat deps.length).toNat = deps.length := by
    rw [UInt32.toNat_ofNat']
    omega
  unfold dependencias cabecalho
  dsimp only
  rw [hn]
  refine List.ext_getElem (by simp; omega) fun i h1 h2 => ?_
  rw [List.getElem_take, List.getElem_map, List.getElem_range, List.getD_eq_getElem _ _ h2]

/-- What `criar_spk` writes passes the checks of `instalar_spk`, and the kernel reads back the
names, the dependencies and the files. -/
theorem spk_round_trip (name version author : List UInt8) (deps : List (List UInt8))
    (files : List Arquivo) (img : List UInt8) (buf : Memory)
    (hc : Cabivel name version author deps files)
    (h : criar_spk name version author deps files = some img)
    (hlen : img.length ≤ SPK_MAX_SIZE) (hb : Lies buf 0 img) :
    ∃ hdr, verifica buf (UInt32.ofNat img.length) = .ok hdr ∧
      hdr.name = name ∧ hdr.pkg_version = version ∧ dependencias hdr = deps ∧
      hdr.num_files.toNat = files.length ∧
      ∀ i (hi : i < files.length),
        (record buf img.length i).install_path = files[i].install_path ∧
          conteudo buf hdr (record buf img.length i) = some files[i].content := by
  have hl := lido_of_criar_spk hc h hlen hb
  have hsize := length_criar_spk h
  refine ⟨cabecalho name version author deps files, ?_, rfl, rfl,
    dependencias_cabecalho hc.deps_le, hl.num_files, fun i hi => hl.arquivo hi hsize⟩
  rw [hsize]
  exact hl.aceito

/-- A file `/x` of two bytes and an empty file `/y`. -/
def arquivos_a : List Arquivo := [⟨[47, 120], [1, 2]⟩, ⟨[47, 121], []⟩]

/-- The package `a 1` with these files, which depends on `b`. -/
def spk_a : List UInt8 := (criar_spk [97] [49] [] [[98]] arquivos_a).getD []

theorem criar_spk_a : criar_spk [97] [49] [] [[98]] arquivos_a = some spk_a := rfl

theorem cabivel_a : Cabivel [97] [49] [] [[98]] arquivos_a := by
  refine ⟨?_, ?_, ?_, ?_, ?_, ?_, ?_, ?_⟩ <;> decide

theorem length_spk_a : spk_a.length ≤ SPK_MAX_SIZE := by
  rw [length_criar_spk criar_spk_a]
  decide

theorem spk_a_round_trip :
    ∃ hdr, verifica (fun i => spk_a.getD i 0) (UInt32.ofNat spk_a.length) = .ok hdr ∧
      hdr.name = [97] ∧ hdr.pkg_version = [49] ∧ dependencias hdr = [[98]] ∧
      hdr.num_files.toNat = arquivos_a.length ∧
      ∀ i (hi : i < arquivos_a.length),
        (record (fun i => spk_a.getD i 0) spk_a.length i).install_path =
            arquivos_a[i].install_path ∧
          conteudo (fun i => spk_a.getD i 0) hdr
              (record (fun i => spk_a.getD i 0) spk_a.length i) = some arquivos_a[i].content :=
  spk_round_trip [97] [49] [] [[98]] arquivos_a spk_a _ cabivel_a criar_spk_a length_spk_a
    (lies_getD spk_a)

end Imagem

end SpaceOS.Pkg
