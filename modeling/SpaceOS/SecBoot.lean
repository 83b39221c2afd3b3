-- The check of the kernel at boot (kernel/cpu/secboot.c): a djb2 hash of the memory of the kernel
-- against the one in /boot/kernel.hash, over the VFS.
import SpaceOS.Vfs

open Lib.Bytes SpaceOS.Fat32 SpaceOS.Vfs

namespace SpaceOS.SecBoot

/-- `sb_verified` and `measured_hash`. -/
structure Estado where
  sb_verified : Bool
  measured_hash : UInt32

/-- The lines that `secboot_init` prints. -/
inductive Linha
  | registrado                              -- "SecBoot: hash inicial registrado"
  | verificada                              -- "SecBoot: integridade verificada"
  | diverge (medido armazenado : UInt32)    -- "SecBoot: AVISO — hash diverge! ..."

/-- "/boot". -/
def BOOT : List UInt8 := [47, 98, 111, 111, 116]

/-- "/boot/kernel.hash". -/
def SECBOOT_HASH_PATH : List UInt8 :=
  BOOT ++ [47, 107, 101, 114, 110, 101, 108, 46, 104, 97, 115, 104]

/-! ## The hash and its text -/

/-- The bytes from `start` to `end`. -/
def djb2_range (kernel : List UInt8) : UInt32 :=
  kernel.foldl (fun h b => ((h <<< 5) + h) + b.toUInt32) 5381

/-- The value of a digit. -/
def digito (c : UInt8) : Option UInt8 :=
  if 48 ≤ c ∧ c ≤ 57 then some (c - 48)
  else if 97 ≤ c ∧ c ≤ 102 then some (c - 97 + 10)
  else if 65 ≤ c ∧ c ≤ 70 then some (c - 65 + 10)
  else none

/-- The loop of `hex_to_u32`: it stops at the zero behind the string or at the first byte that is no
digit. -/
def hex_laco : List UInt8 → UInt32 → UInt32
  | [], v => v
  | c :: s, v =>
    match digito c with
    | none => v
    | some d => hex_laco s ((v <<< 4) ||| d.toUInt32)

/-- The string is given without its zero. -/
def hex_to_u32 (s : List UInt8) : UInt32 :=
  match s with
  | 48 :: x :: s' => if x = 120 ∨ x = 88 then hex_laco s' 0 else hex_laco s 0
  | _ => hex_laco s 0

/-- `0123456789abcdef`. -/
def hx : List UInt8 := [48, 49, 50, 51, 52, 53, 54, 55, 56, 57, 97, 98, 99, 100, 101, 102]

/-- What is stored: `0x`, eight digits and a newline. -/
def hex (measured_hash : UInt32) : List UInt8 :=
  [48, 120] ++ ((List.range 8).map fun i =>
    hx.getD ((measured_hash >>> UInt32.ofNat (28 - i * 4)) &&& 0xF).toNat 0) ++ [10]

/-! ## The boot -/

/-- `none` is a VFS call that has not ended. -/
def secboot_init (v : Bpb) (d : Disco) (cwd : Cwd) (kernel : List UInt8) :
    Option (Estado × Disco × List Linha) :=
  let measured_hash := djb2_range kernel
  if !cwd.montado then some (⟨true, measured_hash⟩, d, [])
  else
    (vfs_mkdir v d cwd BOOT).bind fun (_, d) =>
      (vfs_read v d cwd SECBOOT_HASH_PATH 31).bind fun (n, hash_buf) =>
        if n ≤ 0 then
          (vfs_write v d cwd SECBOOT_HASH_PATH (hex measured_hash)).map fun (_, d) =>
            (⟨true, measured_hash⟩, d, [.registrado])
        else
          let stored := hex_to_u32 (hash_buf.takeWhile (· ≠ 0))
          if stored = measured_hash then some (⟨true, measured_hash⟩, d, [.verificada])
          else some (⟨false, measured_hash⟩, d, [.diverge measured_hash stored])

end SpaceOS.SecBoot
