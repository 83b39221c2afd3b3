-- The two readers of the ACPI tables: `acpi_init` (kernel/drivers/acpi.c) and `parsear_madt`
-- (kernel/cpu/smp.c). Addresses have 32 bits and wrap around.
import Mathlib.Algebra.Group.Nat.Defs

namespace SpaceOS.Acpi

/-- The contents of the memory, all of it mapped. -/
abbrev Memoria := UInt32 → UInt8

def MAX_CPUS : Nat := 4

def RSD_PTR : List UInt8 := ['R', 'S', 'D', ' ', 'P', 'T', 'R', ' '].map Char.toUInt8

def RSDT : List UInt8 := ['R', 'S', 'D', 'T'].map Char.toUInt8

def APIC : List UInt8 := ['A', 'P', 'I', 'C'].map Char.toUInt8

/-- The variables that `acpi_init` writes. -/
structure Estado where
  lapic_base_addr : UInt32
  acpi_initialized : Bool

/-- `cpu_info_t`. -/
structure CpuInfo where
  apic_id : UInt8
  active : UInt8
  stack : UInt32
  current : UInt32

/-- The table of the processors. -/
structure Cpus where
  cpus : Nat → CpuInfo
  cpu_count : Nat

section Tabelas

variable (m : Memoria)

/-- `*(uint16_t *)a`. -/
def le16 (a : UInt32) : UInt32 := (m a).toUInt32 ||| (m (a + 1)).toUInt32 <<< 8

/-- `*(uint32_t *)a`. -/
def le32 (a : UInt32) : UInt32 := le16 m a ||| le16 m (a + 2) <<< 16

/-- `sig4` and `sig8`: the characters stand at `a`. -/
def sig (a : UInt32) : List UInt8 → Bool
  | [] => true
  | c :: cs => m a == c && sig (a + 1) cs

def acpi_checksum (ptr len : UInt32) : UInt8 :=
  (List.range len.toNat).foldl (fun sum i => sum + m (ptr + UInt32.ofNat i)) 0

/-- The addresses of a scan from `inicio` to `fim` in steps of 16. -/
def posicoes (inicio fim : Nat) : List UInt32 :=
  (List.range' inicio ((fim - inicio + 15) / 16) 16).map UInt32.ofNat

/-- What stands at `p` is an RSDP with a checksum. -/
def candidato (p : UInt32) : Bool := sig m p RSD_PTR && acpi_checksum m p 20 == 0

/-- The entries of an RSDT. -/
def n_entries (rsdt : UInt32) : UInt32 := (le32 m (rsdt + 4) - 36) / 4

def entrada (rsdt : UInt32) (i : Nat) : UInt32 := le32 m (rsdt + 36 + 4 * UInt32.ofNat i)

/-- The loop over the first `n` entries. -/
def acha_apic (rsdt : UInt32) (n : Nat) : Option UInt32 :=
  ((List.range n).map (entrada m rsdt)).find? fun tbl => tbl ≠ 0 && sig m tbl APIC

/-! ## acpi.c -/

/-- The RSDP, from the ROM area or else from the EBDA. -/
def acha_rsdp : Option UInt32 :=
  match (posicoes 0x000E0000 (0x000FFFFF - 8)).find? (candidato m) with
  | some p => some p
  | none =>
    let ebda := (le16 m 0x040E <<< 4).toNat
    (posicoes ebda (ebda + 1024 - 8)).find? (candidato m)

/-- The local `madt` of `acpi_init`. `none`: the tables are rejected. -/
def acpi_madt : Option (Option UInt32) :=
  match acha_rsdp m with
  | none => none
  | some rsdp =>
    let rsdt := le32 m (rsdp + 16)
    if !sig m rsdt RSDT then none
    else if acpi_checksum m rsdt (le32 m (rsdt + 4)) ≠ 0 then none
    else some (acha_apic m rsdt (n_entries m rsdt).toNat)

def acpi_init (e : Estado) : Int × Estado :=
  match acpi_madt m with
  | none => (-1, e)
  | some none => (0, { e with acpi_initialized := true })
  | some (some madt) => (0, ⟨le32 m (madt + 36), true⟩)

/-! ## smp.c -/

/-- The local `madt` of `parsear_madt`. -/
def smp_madt : Option UInt32 :=
  match (posicoes 0x000E0000 0x000FFFFF).find? fun p => sig m p RSD_PTR with
  | none => none
  | some p =>
    let rsdt := le32 m (p + 16)
    acha_apic m rsdt (min (n_entries m rsdt).toNat 32)

/-- The turns of the loop over the entries: there are no more addresses than that. -/
def VOLTAS : Nat := 2 ^ 32

/-- The entry is that of an enabled processor, other than the one that runs. -/
def processador (bsp_apic_id : UInt8) (entry : UInt32) : Bool :=
  m entry == 0 && m (entry + 1) ≥ 8 && le32 m (entry + 4) &&& 1 ≠ 0 && m (entry + 3) ≠ bsp_apic_id

/-- A processor comes to the table, if there is room for it. -/
def registra (apic_id : UInt8) (c : Cpus) : Cpus :=
  if c.cpu_count < MAX_CPUS then
    { cpus := fun i =>
        if i = c.cpu_count then
          { c.cpus i with apic_id := apic_id, active := 0, current := 0 }
        else c.cpus i
      cpu_count := c.cpu_count + 1 }
  else c

/-- The loop over the entries. `none`: it does not end. -/
def entradas (bsp_apic_id : UInt8) (fim : UInt32) : Nat → UInt32 → Cpus → Option Cpus
  | 0, _, _ => none
  | n + 1, entry, c =>
    if entry < fim then
      let c := if processador m bsp_apic_id entry then registra (m (entry + 3)) c else c
      if m (entry + 1) = 0 then some c
      else entradas bsp_apic_id fim n (entry + (m (entry + 1)).toUInt32) c
    else some c

def parsear_madt (bsp_apic_id : UInt8) (c : Cpus) : Option Cpus :=
  match smp_madt m with
  | none => some c
  | some madt => entradas m bsp_apic_id (madt + le32 m (madt + 4)) VOLTAS (madt + 44) c

end Tabelas

end SpaceOS.Acpi
