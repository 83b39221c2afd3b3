-- Mounting a FAT32 volume (fat32_init): what the driver keeps of sector 0, the arithmetic on the
-- fields there, and when the regions that follow from it are ones of the disk.
import Mathlib.Tactic.NormNum
import SpaceOS.Fat32Volume

open Lib.Bytes Lib.Bytes.ByteStr

namespace SpaceOS.Fat32

/-! ## The boot sector -/

/-- A byte of a string, 0 behind its end. -/
def caractere (s : List UInt8) : UInt8 := s.headD 0

/-- The strings are compared up to a difference, a zero byte or `n` bytes. -/
def k_strncmp (a b : List UInt8) : Nat → Int
  | 0 => 0
  | n + 1 =>
    if caractere a ≠ 0 ∧ caractere a = caractere b then k_strncmp a.tail b.tail n
    else (caractere a).toNat - (caractere b).toNat

namespace Raw

def bytes_per_sector (s : Setor) : Nat := s.half 0x0B

def spc (s : Setor) : Nat := (s.byte 0x0D).toNat

def reserved_sectors (s : Setor) : Nat := s.half 0x0E

def num_fats (s : Setor) : Nat := (s.byte 0x10).toNat

def total_sectors32 (s : Setor) : Nat := s.word 0x20

def fat_size32 (s : Setor) : Nat := s.word 0x24

def root_cluster (s : Setor) : Nat := s.word 0x2C

def fs_type (s : Setor) : List UInt8 := List.ofFn (s.slice 0x52 8)

end Raw

open Raw

/-- `FAT32   `. -/
def FAT32_TIPO : List UInt8 := [70, 65, 84, 51, 50, 32, 32, 32]

/-- The checks of the signature. -/
def assinatura (s : Setor) : Bool :=
  if k_strncmp (fs_type s) FAT32_TIPO 5 ≠ 0 then
    if s.byte 510 ≠ 0x55 ∨ s.byte 511 ≠ 0xAA then false
    else if fat_size32 s = 0 then false
    else true
  else true

/-- How `fat32_init` ends: with -1, at a division by zero, or with 0 and what it keeps. -/
inductive Montagem
  | erro
  | divisao_por_zero
  | montado (bps : Nat) (v : Bpb)

/-- `setor0` is what the read of sector 0 gives. All sums are ones of 32 bits. -/
def fat32_init (setor0 : Setor) : Montagem :=
  if assinatura setor0 then
    let fat_lba := reserved_sectors setor0
    let data_lba := (fat_lba + num_fats setor0 * fat_size32 setor0 % 2 ^ 32) % 2 ^ 32
    let total_sectors := total_sectors32 setor0
    if spc setor0 = 0 then .divisao_por_zero
    else
      .montado (bytes_per_sector setor0)
        { spc := spc setor0
          fat_lba
          data_lba
          root_cluster := root_cluster setor0
          total_clusters := (total_sectors + 2 ^ 32 - data_lba) % 2 ^ 32 / spc setor0 }
  else .erro

/-! ## The same with checks -/

/-- A result that does not fit 32 bits is none. -/
def cabe (n : Nat) : Option Nat := if n < 2 ^ 32 then some n else none

def menos (a b : Nat) : Option Nat := if b ≤ a then some (a - b) else none

def dividido (a b : Nat) : Option Nat := if b = 0 then none else some (a / b)

/-- The operations of `fat32_init` in order, none where one of them leaves the 32 bits or divides by
zero. -/
def total_exato (setor0 : Setor) : Option Nat :=
  (cabe (num_fats setor0 * fat_size32 setor0)).bind fun fats =>
    (cabe (reserved_sectors setor0 + fats)).bind fun data_lba =>
      (menos (total_sectors32 setor0) data_lba).bind fun dados => dividido dados (spc setor0)

/-- The first sector behind the FATs. -/
def inicio_dos_dados (s : Setor) : Nat := reserved_sectors s + num_fats s * fat_size32 s

theorem total_exato_iff {s : Setor} {n : Nat} : total_exato s = some n ↔
    inicio_dos_dados s ≤ total_sectors32 s ∧ spc s ≠ 0 ∧
      n = (total_sectors32 s - inicio_dos_dados s) / spc s := by
  have ht : total_sectors32 s < 2 ^ 32 := word_lt s 0x20
  unfold total_exato cabe menos dividido inicio_dos_dados
  generalize num_fats s * fat_size32 s = fats
  constructor
  · intro h
    split at h
    · rw [Option.bind_some] at h
      split at h
      · rw [Option.bind_some] at h
        split at h
        · rw [Option.bind_some] at h
          split at h
          · cases h
          · rename_i hle hspc
            exact ⟨hle, hspc, (Option.some.inj h).symm⟩
        · cases h
      · cases h
    · cases h
  · rintro ⟨hle, hspc, rfl⟩
    rw [if_pos (by omega), Option.bind_some, if_pos (by omega), Option.bind_some, if_pos hle,
      Option.bind_some, if_neg hspc]

/-- Where no operation leaves the 32 bits, `fat32_init` computes what the numbers say. -/
theorem init_exato {s : Setor} {n : Nat} (ha : assinatura s) (h : total_exato s = some n) :
    fat32_init s = .montado (bytes_per_sector s)
      ⟨spc s, reserved_sectors s, inicio_dos_dados s, root_cluster s, n⟩ := by
  obtain ⟨hle, hspc, rfl⟩ := total_exato_iff.mp h
  have ht : total_sectors32 s < 2 ^ 32 := word_lt s 0x20
  have hdata : (reserved_sectors s + num_fats s * fat_size32 s % 2 ^ 32) % 2 ^ 32 =
      inicio_dos_dados s := by
    unfold inicio_dos_dados at hle ⊢
    omega
  have hsub : (total_sectors32 s + 2 ^ 32 - inicio_dos_dados s) % 2 ^ 32 =
      total_sectors32 s - inicio_dos_dados s := by
    omega
  unfold fat32_init
  rw [if_pos ha]
  dsimp only
  rw [if_neg hspc, hdata, hsub]

/-! ## The regions -/

/-- The sectors of the clusters lie behind the FATs and on the disk, and the FAT has a sector for each
of them. -/
structure Regioes (total_sectors : Nat) (v : Bpb) : Prop where
  spc_pos : 1 ≤ v.spc
  dados : ∀ c, EmFaixa v c → ∀ i < v.spc,
    v.data_lba ≤ cluster_to_lba v c + i ∧ cluster_to_lba v c + i < total_sectors
  fat : ∀ c, EmFaixa v c → v.fat_lba ≤ fat_sector v c ∧ fat_sector v c < v.data_lba

/-- The arithmetic is safe, and a volume that is mounted has sectors of 512 bytes and its regions on
the disk. -/
structure Seguro (s : Setor) : Prop where
  exata : assinatura s → total_exato s ≠ none
  volume : ∀ bps v, fat32_init s = .montado bps v → bps = 512 ∧ Regioes (total_sectors32 s) v

/-- The number of clusters that fit behind the FATs. -/
def clusters_que_cabem (s : Setor) : Nat := (total_sectors32 s - inicio_dos_dados s) / spc s

/-- The sector of a cluster in the FAT, by the number of the cluster: from 2^30 on they repeat. -/
theorem fat_sector_eq (v : Bpb) (c : Nat) : fat_sector v c = v.fat_lba + c % 2 ^ 30 / 128 := by
  unfold fat_sector
  omega

theorem lba_de_init {v : Bpb} {c total : Nat} (hc : EmFaixa v c) (ht : total < 2 ^ 32)
    (hle : v.data_lba + v.total_clusters * v.spc ≤ total) (hspc : 1 ≤ v.spc) :
    cluster_to_lba v c = v.data_lba + (c - 2) * v.spc ∧
      (c - 2) * v.spc + v.spc ≤ v.total_clusters * v.spc := by
  obtain ⟨h2, hlt⟩ := hc
  have hmul : (c - 2) * v.spc + v.spc ≤ v.total_clusters * v.spc := by
    rw [← Nat.succ_mul]
    exact Nat.mul_le_mul_right _ (by omega)
  have hle1 : c - 2 ≤ (c - 2) * v.spc := Nat.le_mul_of_pos_right _ hspc
  refine ⟨?_, hmul⟩
  unfold cluster_to_lba
  rw [show c + 2 ^ 32 - 2 = (c - 2) + 2 ^ 32 by omega, Nat.add_mod_right,
    Nat.mod_eq_of_lt (by omega : c - 2 < 2 ^ 32), Nat.mod_eq_of_lt (by omega)]

/-- The FATs have a sector for each cluster exactly where they are as long as the number of clusters
asks for, or as the whole range of the offsets. -/
theorem fat_basta_iff {v : Bpb} {fats : Nat} (hd : v.data_lba = v.fat_lba + fats) :
    (∀ c, EmFaixa v c → v.fat_lba ≤ fat_sector v c ∧ fat_sector v c < v.data_lba) ↔
      v.total_clusters = 0 ∨ (v.total_clusters + 1) / 128 < fats ∨ 2 ^ 23 ≤ fats := by
  constructor
  · intro h
    by_cases h0 : v.total_clusters = 0
    · exact Or.inl h0
    right
    by_cases hbig : v.total_clusters + 1 < 2 ^ 30
    · left
      have hc := (h (v.total_clusters + 1) ⟨by omega, by omega⟩).2
      rw [fat_sector_eq, hd, Nat.mod_eq_of_lt hbig] at hc
      omega
    · right
      have hc := (h (2 ^ 30 - 1) ⟨by norm_num, by omega⟩).2
      rw [fat_sector_eq, hd] at hc
      omega
  · rintro h c ⟨h2, hlt⟩
    rw [fat_sector_eq, hd]
    refine ⟨Nat.le_add_right _ _, ?_⟩
    have hmod : c % 2 ^ 30 ≤ c := Nat.mod_le _ _
    have hmod' : c % 2 ^ 30 < 2 ^ 30 := Nat.mod_lt _ (by norm_num)
    rcases h with h | h | h
    · omega
    · have := Nat.div_le_div_right (c := 128) (show c % 2 ^ 30 ≤ v.total_clusters + 1 by omega)
      omega
    · omega

/-- The data region of the volume that is mounted. -/
theorem dados_cabem_em {s : Setor} (hle : inicio_dos_dados s ≤ total_sectors32 s) :
    inicio_dos_dados s + clusters_que_cabem s * spc s ≤ total_sectors32 s := by
  have h := Nat.div_mul_le_self (total_sectors32 s - inicio_dos_dados s) (spc s)
  unfold clusters_que_cabem
  omega

/-- The arithmetic of a boot sector is safe exactly where it is refused, or has sectors of 512 bytes,
at least one of them in a cluster, the data region on the disk and FATs that are long enough. -/
theorem the_boot_sector_is_safe_iff (s : Setor) : Seguro s ↔
    (assinatura s → bytes_per_sector s = 512 ∧ 1 ≤ spc s ∧
      inicio_dos_dados s ≤ total_sectors32 s ∧
      (clusters_que_cabem s = 0 ∨ (clusters_que_cabem s + 1) / 128 < num_fats s * fat_size32 s ∨
        2 ^ 23 ≤ num_fats s * fat_size32 s)) := by
  constructor
  · intro h ha
    obtain ⟨n, hn⟩ := Option.ne_none_iff_exists'.mp (h.exata ha)
    obtain ⟨hbps, hreg⟩ := h.volume _ _ (init_exato ha hn)
    obtain ⟨hle, hspc, rfl⟩ := total_exato_iff.mp hn
    exact ⟨hbps, hreg.spc_pos, hle, (fat_basta_iff rfl).mp hreg.fat⟩
  · intro h
    constructor
    case exata =>
      intro ha he
      obtain ⟨_, hspc, hle, _⟩ := h ha
      have hn := total_exato_iff.mpr ⟨hle, by omega, rfl⟩
      rw [he] at hn
      cases hn
    case volume =>
      intro bps v hv
      by_cases ha : assinatura s
      · obtain ⟨hbps, hspc, hle, hfat⟩ := h ha
        rw [init_exato ha (total_exato_iff.mpr ⟨hle, by omega, rfl⟩)] at hv
        obtain ⟨rfl, rfl⟩ := Montagem.montado.inj hv
        refine ⟨hbps, hspc, fun c hc i hi => ?_, (fat_basta_iff rfl).mpr hfat⟩
        have hcabem := dados_cabem_em hle
        obtain ⟨hlba, hmul⟩ := lba_de_init hc (word_lt s 0x20) hcabem hspc
        rw [hlba]
        dsimp only at hi hmul ⊢
        unfold clusters_que_cabem at hcabem
        omega
      · unfold fat32_init at hv
        rw [if_neg ha] at hv
        cases hv

/-- Nothing but the name of the type: the sectors of a cluster are 0. -/
def setor_sem_spc : Setor := fun j =>
  if 0x52 ≤ j.val ∧ j.val < 0x5A then FAT32_TIPO.getD (j.val - 0x52) 0 else 0

/-- A boot sector that is not refused makes `fat32_init` divide by zero. -/
theorem a_boot_sector_divides_by_zero :
    fat32_init setor_sem_spc = .divisao_por_zero ∧ ¬ Seguro setor_sem_spc := by
  have ha : assinatura setor_sem_spc = true := by decide +kernel
  have hspc : spc setor_sem_spc = 0 := by decide +kernel
  constructor
  · unfold fat32_init
    rw [if_pos ha]
    dsimp only
    rw [if_pos hspc]
  · intro h
    obtain ⟨n, hn⟩ := Option.ne_none_iff_exists'.mp (h.exata ha)
    exact (total_exato_iff.mp hn).2.1 hspc

/-- A volume with safe arithmetic and fewer clusters than the FAT has numbers for has the geometry
that the rest of the driver takes for granted. -/
theorem Seguro.geometria {s : Setor} {bps : Nat} {v : Bpb} (h : Seguro s)
    (hv : fat32_init s = .montado bps v) (h0 : v.total_clusters ≠ 0)
    (hn : v.total_clusters + 2 ≤ FAT32_EOF) : Geometria v := by
  have he := eof_eq
  have hreg := (h.volume bps v hv).2
  have hlast : EmFaixa v (v.total_clusters + 1) := ⟨by omega, by omega⟩
  have hf := (hreg.fat _ hlast).2
  rw [fat_sector_eq, Nat.mod_eq_of_lt (by omega)] at hf
  have ha : assinatura s = true := by
    by_contra hna
    unfold fat32_init at hv
    rw [if_neg hna] at hv
    cases hv
  obtain ⟨n, hex⟩ := Option.ne_none_iff_exists'.mp (h.exata ha)
  have hle := (total_exato_iff.mp hex).1
  have hinit := init_exato ha hex
  rw [hv] at hinit
  obtain ⟨_, rfl⟩ := Montagem.montado.inj hinit
  obtain ⟨_, _, rfl⟩ := total_exato_iff.mp hex
  have hcabem := dados_cabem_em hle
  have ht : total_sectors32 s < 2 ^ 32 := word_lt s 0x20
  refine ⟨hreg.spc_pos, ?_, ?_, hn⟩
  · dsimp only at hf ⊢
    omega
  · unfold clusters_que_cabem at hcabem
    dsimp only
    omega

end SpaceOS.Fat32
