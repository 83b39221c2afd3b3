-- What the check at boot can find: every change of one byte, once a hash is stored, and nothing on a
-- volume that only the VFS has written.
import SpaceOS.AuditLaws
import SpaceOS.SecBoot
import SpaceOS.VfsSizes

open Lib.Bytes Lib.Words SpaceOS.Fat32 SpaceOS.Vfs

namespace SpaceOS.SecBoot

open SpaceOS.Audit (toNat_nibble hexa)

/-! ## The text of a hash -/

section Texto

theorem digito_hx (i : Nat) (hi : i < 16) : digito (hx.getD i 0) = some (UInt8.ofNat i) := by
  have h : ∀ i < 16, digito (hx.getD i 0) = some (UInt8.ofNat i) := by decide
  exact h i hi

/-- One turn of the loop. -/
theorem toNat_volta (v : UInt32) {d : UInt8} (hd : d.toNat < 16) :
    ((v <<< 4) ||| d.toUInt32).toNat = (v.toNat * 16 + d.toNat) % 2 ^ 32 := by
  have h4 : (4 : UInt32).toNat = 4 := rfl
  rw [UInt32.toNat_or, toNat_shl v 4 (by decide), h4, UInt8.toNat_toUInt32,
    or_eq_add 4 (by omega) hd]
  omega

/-- Reading goes on behind the digits as if the number had been read with them. -/
theorem hex_laco_hexa (n : Nat) (h v : UInt32) (out : List UInt8) :
    hex_laco (hexa n h out) v =
      hex_laco out (UInt32.ofNat (v.toNat * 16 ^ n + h.toNat % 16 ^ n)) := by
  induction n generalizing h out with
  | zero => simp [hexa, Nat.mod_one]
  | succ n ih =>
    have hs : (h >>> 4).toNat = h.toNat / 16 := toNat_shr h 4 (by decide)
    have hv : v.toNat * 16 ^ (n + 1) = v.toNat * 16 ^ n * 16 := by rw [Nat.pow_succ, ← Nat.mul_assoc]
    have hm : h.toNat % 16 ^ (n + 1) = h.toNat % 16 + 16 * (h.toNat / 16 % 16 ^ n) := by
      rw [Nat.pow_succ, Nat.mul_comm]
      exact Nat.mod_mul
    have hlt : h.toNat % 16 < 16 := Nat.mod_lt _ (by decide)
    have hd : digito (Audit.hx.getD (h &&& 0xF).toNat 0) = some (UInt8.ofNat (h.toNat % 16)) := by
      rw [toNat_nibble]
      exact digito_hx _ hlt
    rw [hexa, ih, hex_laco, hd]
    dsimp only
    congr 1
    apply UInt32.toNat_inj.mp
    rw [toNat_volta _ (by rw [UInt8.toNat_ofNat']; omega), UInt32.toNat_ofNat', UInt32.toNat_ofNat',
      UInt8.toNat_ofNat', hs, hv, hm]
    omega

/-- What `secboot_init` stores: the digits are those of the audit log. -/
theorem hex_eq (h : UInt32) : hex h = [48, 120] ++ hexa 8 h [] ++ [10] := rfl

/-- A text that `hex_to_u32` is to read as the hash: with `0x` in front, a newline behind, and with
any number of the leading zeros. -/
def Guardado (h : UInt32) (t : List UInt8) : Prop :=
  ∃ k s, List.replicate k 48 ++ s = hexa 8 h [] ∧ t = [48, 120] ++ s ++ [10]

theorem guardado_hex (h : UInt32) : Guardado h (hex h) := ⟨0, _, rfl, hex_eq h⟩

theorem hex_laco_zeros (k : Nat) (s : List UInt8) : hex_laco (List.replicate k 48 ++ s) 0 = hex_laco s 0 := by
  induction k with
  | zero => rfl
  | succ k ih =>
    rw [List.replicate_succ, List.cons_append, hex_laco]
    exact ih

theorem hex_laco_fim {s : List UInt8} {v : UInt32} : hex_laco (s ++ [10]) v = hex_laco s v := by
  induction s generalizing v with
  | nil => rfl
  | cons c s ih =>
    rw [List.cons_append, hex_laco, hex_laco]
    cases digito c with
    | none => rfl
    | some d => exact ih

/-- The hash is read back. -/
theorem hex_to_u32_guardado {h : UInt32} {t : List UInt8} (ht : Guardado h t) :
    0 ∉ t ∧ hex_to_u32 t = h := by
  obtain ⟨k, s, hs, rfl⟩ := ht
  have hlaco : hex_laco (s ++ [10]) 0 = h := by
    rw [hex_laco_fim, ← hex_laco_zeros k, hs, hex_laco_hexa]
    apply UInt32.toNat_inj.mp
    have := h.toNat_lt
    rw [hex_laco, UInt32.toNat_ofNat', UInt32.toNat_zero, Nat.zero_mul, Nat.zero_add]
    omega
  refine ⟨fun hm => ?_, hlaco⟩
  have h0 : (0 : UInt8) ∈ s := by simpa using hm
  have hx : (0 : UInt8) ∈ hexa 8 h [] := hs ▸ List.mem_append_right _ h0
  rcases Audit.mem_hexa hx with hx | hx
  · exact absurd hx (by decide)
  · cases hx

end Texto

/-! ## The hash -/

section Hash

variable {a z : List UInt8} {b b' c c' : UInt8}

theorem djb2_range_append (a z : List UInt8) : djb2_range (a ++ z) = Audit.djb2 z (djb2_range a) :=
  List.foldl_append

/-- Two neighbouring bytes changed: the hash is the same exactly where the second makes up for the
first. -/
theorem djb2_range_eq_iff : djb2_range (a ++ b' :: c' :: z) = djb2_range (a ++ b :: c :: z) ↔
    33 * b'.toNat + c'.toNat = 33 * b.toNat + c.toNat := by
  have hdois : ∀ (b c : UInt8) (z : List UInt8), djb2_range (a ++ b :: c :: z) =
      Audit.djb2 z (Audit.djb2 [b, c] (djb2_range a)) := fun b c z => djb2_range_append a _
  have hnat : ∀ b c : UInt8, (Audit.djb2 [b, c] (djb2_range a)).toNat =
      ((djb2_range a).toNat * 1089 + (33 * b.toNat + c.toNat)) % 2 ^ 32 := by
    intro b c
    have h : Audit.djb2 [b, c] (djb2_range a) =
        (((djb2_range a <<< 5) + djb2_range a + b.toUInt32) <<< 5) +
          ((djb2_range a <<< 5) + djb2_range a + b.toUInt32) + c.toUInt32 := rfl
    rw [h, UInt32.toNat_add, Audit.toNat_33, UInt32.toNat_add, Audit.toNat_33, UInt8.toNat_toUInt32,
      UInt8.toNat_toUInt32]
    omega
  rw [hdois, hdois, (Audit.djb2_injective z).eq_iff, ← UInt32.toNat_inj, hnat, hnat]
  have := b.toNat_lt
  have := b'.toNat_lt
  have := c.toNat_lt
  have := c'.toNat_lt
  omega

end Hash

/-! ## A boot with a hash stored -/

section Guarda

variable {v : Bpb} {d d' : Disco} {cwd : Cwd} {a z t : List UInt8} {b b' c c' : UInt8} {n r : Int}

theorem read_tamanho {path : List UInt8} {max : Nat} (hr : vfs_read v d cwd path max = some (n, t))
    (ht : t ≠ []) : n = como_int t.length := by
  unfold vfs_read at hr
  obtain ⟨e, -, hr⟩ := Option.bind_eq_some_iff.mp hr
  rcases e with _ | e
  · cases hr
    exact absurd rfl ht
  dsimp only at hr
  split at hr
  · cases hr
    exact absurd rfl ht
  · obtain ⟨bytes, -, hb⟩ := Option.map_eq_some_iff.mp hr
    obtain ⟨hn, ht⟩ := Prod.mk.inj hb
    rw [← hn, ht]

/-- On a volume where `/boot/kernel.hash` reads as the hash of the kernel, a kernel that differs in two
neighbouring bytes at most is found in order exactly if the second makes up for the first; so no change
of one byte is overlooked. -/
theorem a_stored_hash_tells_a_change_iff (hm : cwd.montado = true)
    (hk : vfs_mkdir v d cwd BOOT = some (r, d'))
    (hr : vfs_read v d' cwd SECBOOT_HASH_PATH 31 = some (n, t))
    (ht : Guardado (djb2_range (a ++ b :: c :: z)) t) :
    ∃ s ls, secboot_init v d cwd (a ++ b' :: c' :: z) = some (s, d', ls) ∧
      (s.sb_verified = true ↔ 33 * b'.toNat + c'.toNat = 33 * b.toNat + c.toNat) ∧
      (s.sb_verified = true ↔ ls = [.verificada]) := by
  obtain ⟨h0, hh⟩ := hex_to_u32_guardado ht
  have hn : 0 < n := by
    obtain ⟨k, s, hs, rfl⟩ := ht
    have hlen := congrArg List.length hs
    rw [Audit.length_hexa, List.length_append, List.length_replicate, List.length_nil] at hlen
    rw [read_tamanho hr (by simp)]
    have hle : ∀ k ≤ 11, 3 ≤ k → 0 < como_int k := by decide
    apply hle
    · simp only [List.length_append, List.length_cons, List.length_nil]
      omega
    · simp
  have htake : t.takeWhile (· ≠ 0) = t := by
    refine List.takeWhile_eq_self_iff.mpr fun x hx => ?_
    refine decide_eq_true ?_
    rintro rfl
    exact h0 hx
  unfold secboot_init
  rw [hm, hk]
  dsimp only [Bool.not_true, Option.bind_some]
  rw [if_neg (by decide), hr, Option.bind_some]
  dsimp only
  rw [if_neg (by omega), htake, hh]
  by_cases he : djb2_range (a ++ b :: c :: z) = djb2_range (a ++ b' :: c' :: z)
  · rw [if_pos he]
    exact ⟨_, _, rfl, iff_of_true rfl (djb2_range_eq_iff.mp he.symm), iff_of_true rfl rfl⟩
  · rw [if_neg he]
    refine ⟨_, _, rfl, iff_of_false (by simp) fun h => he (djb2_range_eq_iff.mpr h).symm, ?_⟩
    simp

end Guarda

/-- A full volume with a file `/boot/kernel.hash` that holds the hash of the kernel `[1, 2]`. -/
def disco_com_hash : Disco :=
  let d := fat32_write_fat_entry medio (fun _ => ByteStr.zero) 2 0x0FFFFFFF
  let d := fat32_write_fat_entry medio d 3 0x0FFFFFFF
  let d := fat32_write_fat_entry medio d 4 0x0FFFFFFF
  let d := gravar_dirent d (1, 0) (novo_dirent (fat32_normalize [98, 111, 111, 116]) FAT32_ATTR_DIR 3)
  let d := gravar_dirent d (2, 0) ((novo_dirent (fat32_normalize [107, 101, 114, 110, 101, 108, 46, 104,
    97, 115, 104]) FAT32_ATTR_ARCHIVE 4).putWord 28 11)
  gravar d 3 (setor_de (hex (djb2_range [1, 2])))

/-- A changed byte of the kernel is found. -/
theorem a_changed_byte_is_found : ∃ s ls,
    secboot_init medio disco_com_hash ⟨true, 2⟩ [1, 3] = some (s, disco_com_hash, ls) ∧
      s.sb_verified ≠ true := by
  have hcheio : Cheio medio disco_com_hash := by
    have hall : ∀ c < 5, 2 ≤ c → fat32_read_fat medio disco_com_hash c ≠ 0 := by decide +kernel
    exact fun c hc => hall c hc.2 hc.1
  have hk : vfs_mkdir medio disco_com_hash ⟨true, 2⟩ BOOT = some (-1, disco_com_hash) := by
    have ha : alvo medio disco_com_hash ⟨true, 2⟩ BOOT = some (some (2, fat32_normalize BOOT)) := by
      decide +kernel
    rw [vfs_mkdir_alvo rfl, ha, Option.bind_some]
    unfold mkdir_em
    dsimp only
    rw [create_cheio hcheio]
    rfl
  have hr : vfs_read medio disco_com_hash ⟨true, 2⟩ SECBOOT_HASH_PATH 31 =
      some (11, hex (djb2_range [1, 2])) := by decide +kernel
  have ht : Guardado (djb2_range ([] ++ 1 :: 2 :: [])) (hex (djb2_range [1, 2])) := guardado_hex _
  have hboot : ∃ s ls, secboot_init medio disco_com_hash ⟨true, 2⟩ ([] ++ 1 :: 3 :: []) =
      some (s, disco_com_hash, ls) ∧ (s.sb_verified = true ↔
        33 * (1 : UInt8).toNat + (3 : UInt8).toNat = 33 * (1 : UInt8).toNat + (2 : UInt8).toNat) ∧
      (s.sb_verified = true ↔ ls = [.verificada]) :=
    a_stored_hash_tells_a_change_iff rfl hk hr ht
  obtain ⟨s, ls, hs, hiff, -⟩ := hboot
  exact ⟨s, ls, hs, fun h => absurd (hiff.mp h) (by decide)⟩

/-! ## Boots of a volume that only the VFS has written -/

/-- Boots, each of whatever is in the memory of the kernel, and VFS calls between them. -/
inductive Corre (v : Bpb) (d : Disco) : Disco → Prop
  | nada : Corre v d d
  | liga {d' d'' : Disco} {kernel : List UInt8} {s : Estado} {ls : List Linha} (h : Corre v d d')
    (he : secboot_init v d' (vfs_init (some v)).toCwd kernel = some (s, d'', ls)) : Corre v d d''
  | chama {d' d'' : Disco} {cwd : Cwd} {op : Vfs.Chamada} {r : Int} (h : Corre v d d')
    (hp : Parte v d' cwd op) (he : op.faz v d' cwd = some (r, d'')) : Corre v d d''

section Boots

variable {v : Bpb} {d d' : Disco}

theorem boot_sem_tamanho (h : SemTamanho v d) (kernel : List UInt8) :
    ∃ d', secboot_init v d (vfs_init (some v)).toCwd kernel =
      some (⟨true, djb2_range kernel⟩, d', [.registrado]) ∧ SemTamanho v d' := by
  have hparte : ∀ (d : Disco) (op : Vfs.Chamada), (∀ path ∈ op.paths, 0 ∉ path ∧ path.head? = some BARRA) →
      Parte v d (vfs_init (some v)).toCwd op := by
    intro d op hop _ path hm
    obtain ⟨h0, hb⟩ := hop path hm
    refine ⟨h0, ?_⟩
    unfold origem
    rw [if_pos hb]
    exact .raiz
  obtain ⟨r, d₁, hk, h₁⟩ := passo_sem_tamanho h (hparte d (.mkdir BOOT) (by decide))
  change vfs_mkdir v d _ BOOT = _ at hk
  have hpath : ∀ path ∈ [SECBOOT_HASH_PATH], 0 ∉ path ∧ path.head? = some BARRA := by decide
  have hdir : Dir v d₁ (origem v (vfs_init (some v)).toCwd SECBOOT_HASH_PATH) := by
    unfold origem
    rw [if_pos (by decide)]
    exact .raiz
  obtain ⟨n, hn, hr⟩ : ∃ r ≤ 0, vfs_read v d₁ (vfs_init (some v)).toCwd SECBOOT_HASH_PATH 31 =
      some (r, []) := read_sem_tamanho h₁ (by decide) (fun _ => hdir) 31
  obtain ⟨r₂, d₂, hw, h₂⟩ := passo_sem_tamanho h₁ (hparte d₁ (.write SECBOOT_HASH_PATH
    (hex (djb2_range kernel))) hpath)
  change vfs_write v d₁ _ SECBOOT_HASH_PATH _ = _ at hw
  refine ⟨d₂, ?_, h₂⟩
  unfold secboot_init
  dsimp only
  have hm : (vfs_init (some v)).toCwd.montado = true := rfl
  rw [hm, if_neg (by decide), hk]
  dsimp only [Option.bind_some]
  rw [hr]
  dsimp only [Option.bind_some]
  rw [if_pos hn, hw]
  rfl

end Boots

end SpaceOS.SecBoot
