-- The audit log (kernel/fs/audit.c): lines appended to /var/log/audit.log, each with a hash keyed
-- with the hash before it, which the kernel keeps in a static variable.
import Mathlib.Data.List.Basic

namespace SpaceOS.Audit

/-! ## Hashes and digits -/

def djb2 (data : List UInt8) (seed : UInt32) : UInt32 :=
  data.foldl (fun h b => ((h <<< 5) + h) + b.toUInt32) seed

/-- `0123456789abcdef`. -/
def hx : List UInt8 := [48, 49, 50, 51, 52, 53, 54, 55, 56, 57, 97, 98, 99, 100, 101, 102]

/-- The loop of `u32_to_hex`, which fills `out` from its end. -/
def hexa : Nat → UInt32 → List UInt8 → List UInt8
  | 0, _, out => out
  | n + 1, v, out => hexa n (v >>> 4) (hx.getD (v &&& 0xF).toNat 0 :: out)

def u32_to_hex (v : UInt32) : List UInt8 := hexa 8 v []

/-! ## The entries -/

/-- `buf` is what lies before `pos`, and `s` the string without its zero. -/
def append_str (buf : List UInt8) : List UInt8 → Nat → List UInt8
  | [], _ => buf
  | c :: s, max => if buf.length < max - 1 then append_str (buf ++ [c]) s max else buf

/-- The entry up to and including ` H=`. Only `details` is copied with no bound on `pos`. -/
def texto (ticks : UInt32) (event details : List UInt8) : List UInt8 :=
  let entry := append_str [] [84, 61] 256               -- "T="
  let entry := append_str entry (u32_to_hex ticks) 256
  let entry := append_str entry [32, 69, 61] 256        -- " E="
  let entry := append_str entry event 256
  let entry := append_str entry [32, 68, 61] 256        -- " D="
  let entry := entry ++ details.take 64
  append_str entry [32, 72, 61] 256                     -- " H="

/-- The static variable, and the log file, which a restart does not touch. -/
structure Estado where
  last_hash : UInt32
  arquivo : List UInt8

/-- Before the first start. -/
def Estado.inicio : Estado := { last_hash := 5381, arquivo := [] }

section Chamadas

-- `vfs_append` gives the bytes of the file after the call from those before it and the new ones.
variable (vfs_append : List UInt8 → List UInt8 → List UInt8)

def audit_log (s : Estado) (ticks : UInt32) (event details : List UInt8) : Estado :=
  let entry := texto ticks event details
  let last_hash := djb2 entry s.last_hash
  let entry := append_str entry (u32_to_hex last_hash) 256
  let entry := if entry.length < 255 then entry ++ [10] else entry
  { last_hash, arquivo := vfs_append s.arquivo entry }

/-- `BOOT`. -/
def evento_boot : List UInt8 := [66, 79, 79, 84]

/-- `SpaceOS kernel started`. -/
def detalhes_boot : List UInt8 :=
  [83, 112, 97, 99, 101, 79, 83, 32, 107, 101, 114, 110, 101, 108, 32, 115, 116, 97, 114, 116, 101,
    100]

/-- `audit_init`; `montado` is the answer of `vfs_mounted`. -/
def audit_init (s : Estado) (montado : Bool) (ticks : UInt32) : Estado :=
  if montado then audit_log vfs_append s ticks evento_boot detalhes_boot else s

/-- A call, or a restart of the machine, whose start of the kernel calls `audit_init`. -/
inductive Evento
  | audit_log (ticks : UInt32) (event details : List UInt8)
  | reinicio (montado : Bool) (ticks : UInt32)

def passo (s : Estado) : Evento → Estado
  | .audit_log ticks event details => audit_log vfs_append s ticks event details
  | .reinicio montado ticks => audit_init vfs_append { s with last_hash := 5381 } montado ticks

def roda (s : Estado) (es : List Evento) : Estado := es.foldl (passo vfs_append) s

end Chamadas

/-! ## The file read back -/

/-- The lines of a text, the last one also without its newline; `linha` is what was read of one. -/
def linhas (linha : List UInt8) : List UInt8 → List (List UInt8)
  | [] => if linha = [] then [] else [linha]
  | c :: cs => if c = 10 then linha :: linhas [] cs else linhas (linha ++ [c]) cs

/-- The line without the eight digits at its end. -/
def corpo (linha : List UInt8) : List UInt8 := linha.take (linha.length - 8)

def digito (c : UInt8) : Nat := if c ≤ 57 then c.toNat - 48 else c.toNat - 87

def le_hex (cs : List UInt8) : Nat := cs.foldl (fun v c => v * 16 + digito c) 0

/-- The hash printed on the line. -/
def impresso (linha : List UInt8) : UInt32 := UInt32.ofNat (le_hex (linha.drop (linha.length - 8)))

/-- Every line ends in ` H=` and eight digits, and these are the hash of the text before them, keyed
with the hash printed on the line before. -/
def confere (seed : UInt32) : List (List UInt8) → Bool
  | [] => true
  | l :: ls =>
    [32, 72, 61].isSuffixOf (corpo l) && l == corpo l ++ u32_to_hex (djb2 (corpo l) seed) &&
      confere (impresso l) ls

/-- The hash printed on the last line of the file, 5381 for an empty one. -/
def ultimo_hash (arquivo : List UInt8) : UInt32 :=
  ((linhas [] arquivo).getLast?.map impresso).getD 5381

end SpaceOS.Audit
