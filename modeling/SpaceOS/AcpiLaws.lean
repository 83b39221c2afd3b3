-- Which table the two readers of the ACPI tables find, on any contents of the memory, and what the
-- loop over the processors of it does.
import SpaceOS.Acpi
import SpaceOS.Lib.Links
import Mathlib.Data.List.Perm.Subperm

open Lib.Links

namespace SpaceOS.Acpi

/-! ## The table of `parsear_madt` -/

section Tabelas

variable (m : Memoria)

/-- A table with the signature of a MADT. -/
def Madt (t : UInt32) : Prop := t ≠ 0 ∧ sig m t APIC = true

/-- The RSDT of an RSDP. -/
def rsdt (rsdp : UInt32) : UInt32 := le32 m (rsdp + 16)

/-- The first MADT of the RSDT stands at entry `i`. -/
def PrimeiraMadt (r : UInt32) (i : Nat) (t : UInt32) : Prop :=
  i < (n_entries m r).toNat ∧ entrada m r i = t ∧ Madt m t ∧ ∀ j < i, ¬ Madt m (entrada m r j)

/-- The first "RSD PTR " of the ROM area, whatever its checksum, leads to the MADT in one of the first
32 entries of its RSDT. -/
def Lista (t : UInt32) : Prop :=
  ∃ l₁ p l₂, posicoes 0x000E0000 0x000FFFFF = l₁ ++ p :: l₂ ∧ sig m p RSD_PTR = true ∧
    (∀ q ∈ l₁, sig m q RSD_PTR = false) ∧ ∃ i < 32, PrimeiraMadt m (rsdt m p) i t

end Tabelas

section Busca

variable {m : Memoria} {r t : UInt32} {n : Nat}

theorem acha_apic_eq_some : acha_apic m r n = some t ↔
    ∃ i < n, entrada m r i = t ∧ Madt m t ∧ ∀ j < i, ¬ Madt m (entrada m r j) := by
  have hmadt : ∀ x, (x ≠ 0 && sig m x APIC) = true ↔ Madt m x := fun x => by simp [Madt]
  unfold acha_apic
  rw [List.find?_map, Option.map_eq_some_iff]
  constructor
  · rintro ⟨i, hi, rfl⟩
    obtain ⟨hp, hmem, hno⟩ := List.find?_range_eq_some.mp hi
    refine ⟨i, List.mem_range.mp hmem, rfl, (hmadt _).mp hp, fun j hj hm => ?_⟩
    have hfalse := hno j hj
    rw [Function.comp_apply, (hmadt _).mpr hm] at hfalse
    exact absurd hfalse (by decide)
  · rintro ⟨i, hi, rfl, hm, hno⟩
    refine ⟨i, List.find?_range_eq_some.mpr ⟨(hmadt _).mpr hm, List.mem_range.mpr hi, fun j hj => ?_⟩,
      rfl⟩
    rw [Function.comp_apply, Bool.not_eq_true', ← Bool.not_eq_true, hmadt]
    exact hno j hj

/-- What `parsear_madt` finds. -/
theorem smp_madt_eq_some : smp_madt m = some t ↔ Lista m t := by
  unfold smp_madt Lista
  cases hfind : (posicoes 0x000E0000 0x000FFFFF).find? fun p => sig m p RSD_PTR with
  | none =>
    have hno := List.find?_eq_none.mp hfind
    refine iff_of_false (by simp) ?_
    rintro ⟨l₁, p, l₂, hl, hp, -⟩
    refine hno p ?_ hp
    rw [hl]
    exact List.mem_append_right _ List.mem_cons_self
  | some p =>
    dsimp only
    rw [acha_apic_eq_some]
    obtain ⟨hp, l₁, l₂, hl, hno⟩ := List.find?_eq_some_iff_append.mp hfind
    constructor
    · rintro ⟨i, hi, ht, hm, hj⟩
      exact ⟨l₁, p, l₂, hl, hp, fun q hq => by simpa using hno q hq, i, by omega, by
        exact Nat.lt_of_lt_of_le hi (Nat.min_le_left _ _), ht, hm, hj⟩
    · rintro ⟨l₁', q, l₂', hl', hq, hno', i, hi, hn, ht, hm, hj⟩
      have hfind' : (posicoes 0x000E0000 0x000FFFFF).find? (fun p => sig m p RSD_PTR) = some q :=
        List.find?_eq_some_iff_append.mpr ⟨hq, l₁', l₂', hl', fun a ha => by simpa using hno' a ha⟩
      rw [hfind] at hfind'
      obtain rfl := Option.some.inj hfind'
      exact ⟨i, Nat.lt_min.mpr ⟨hn, hi⟩, ht, hm, hj⟩

end Busca

/-! ## The loop over the entries -/

section Entradas

variable (m : Memoria) (bsp : UInt8) (fim : UInt32)

/-- From an entry to the next one. -/
def segue (entry : UInt32) : Option (Option UInt32) :=
  some (if entry < fim ∧ m (entry + 1) ≠ 0 then some (entry + (m (entry + 1)).toUInt32) else none)

/-- There is an entry of another processor. -/
def Outro (entry : UInt32) : Prop := entry < fim ∧ processador m bsp entry = true

instance (entry : UInt32) : Decidable (Outro m bsp fim entry) := inferInstanceAs (Decidable (_ ∧ _))

def conta (entry : UInt32) (c : Cpus) : Cpus :=
  if Outro m bsp fim entry then registra (m (entry + 3)) c else c

/-- The entries of a table, from the first to its end, or to one of length 0. -/
def Entradas (t : UInt32) : List UInt32 → Prop := Chain (segue m (t + le32 m (t + 4))) (t + 44)

variable {m bsp fim} {c : Cpus} {es : List UInt32}

theorem conta_outro {entry : UInt32} (h : Outro m bsp fim entry) (c : Cpus) :
    conta m bsp fim entry c = registra (m (entry + 3)) c := if_pos h

theorem conta_nenhum {entry : UInt32} (h : ¬ Outro m bsp fim entry) (c : Cpus) :
    conta m bsp fim entry c = c := if_neg h

theorem entradas_eq (n : Nat) (entry : UInt32) (c : Cpus) :
    entradas m bsp fim n entry c = run (segue m fim) (conta m bsp fim) n entry c := by
  induction n generalizing entry c with
  | zero => rfl
  | succ n ih =>
    rw [entradas, run]
    unfold segue
    rw [Option.bind_some]
    by_cases hfim : entry < fim
    · have hconta : (if processador m bsp entry then registra (m (entry + 3)) c else c) =
          conta m bsp fim entry c := by
        by_cases hp : processador m bsp entry = true
        · rw [if_pos hp, conta_outro ⟨hfim, hp⟩]
        · rw [if_neg hp, conta_nenhum fun h => hp h.2]
      rw [if_pos hfim]
      dsimp only
      rw [hconta]
      by_cases h0 : m (entry + 1) = 0
      · rw [if_pos h0, if_neg fun h => h.2 h0]
        rfl
      · rw [if_neg h0, if_pos ⟨hfim, h0⟩]
        exact ih _ _
    · rw [if_neg hfim, if_neg fun h => hfim h.1]
      exact congrArg some (conta_nenhum (fun h => hfim h.1) c).symm

/-- Entries that end are no more than the turns of the loop. -/
theorem length_le_voltas {l : List UInt32} (h : l.Nodup) : l.length ≤ VOLTAS := by
  have hnodup := h.map fun a b hab => UInt32.toNat_inj.mp hab
  have hsub : l.map UInt32.toNat ⊆ List.range VOLTAS := fun x hx => by
    obtain ⟨a, -, rfl⟩ := List.mem_map.mp hx
    exact List.mem_range.mpr a.toNat_lt
  have hle := (hnodup.subperm hsub).length_le
  rwa [List.length_map, List.length_range] at hle

theorem registra_cpu_count (apic_id : UInt8) (hc : c.cpu_count ≤ MAX_CPUS) :
    (registra apic_id c).cpu_count = min MAX_CPUS (c.cpu_count + 1) := by
  unfold registra
  split
  · exact (Nat.min_eq_right (show c.cpu_count + 1 ≤ MAX_CPUS by omega)).symm
  · rw [Nat.min_eq_left (by omega)]
    omega

/-- The other processors, as many as there is room for. -/
theorem foldl_cpu_count (es : List UInt32) (hc : c.cpu_count ≤ MAX_CPUS) :
    (es.foldl (fun c entry => conta m bsp fim entry c) c).cpu_count =
      min MAX_CPUS (c.cpu_count + es.countP fun entry => Outro m bsp fim entry) := by
  induction es generalizing c with
  | nil => exact (Nat.min_eq_right hc).symm
  | cons entry es ih =>
    rw [List.foldl_cons, List.countP_cons]
    by_cases ho : Outro m bsp fim entry
    · have hum := registra_cpu_count (m (entry + 3)) hc
      rw [conta_outro ho, ih (by omega), hum, if_pos (decide_eq_true ho)]
      omega
    · rw [conta_nenhum ho, ih hc, decide_eq_false ho]
      rfl

end Entradas

/-! ## The law -/

section Lei

variable {m : Memoria} {bsp : UInt8} {c : Cpus} {t : UInt32}

theorem parsear_madt_sem_tabela (h : smp_madt m = none) : parsear_madt m bsp c = some c := by
  unfold parsear_madt
  rw [h]

/-- The walk over a table ends where its entries do. -/
theorem parsear_madt_eq_some (h : smp_madt m = some t) {c' : Cpus} :
    parsear_madt m bsp c = some c' ↔ ∃ es, Entradas m t es ∧
      c' = es.foldl (fun c entry => conta m bsp (t + le32 m (t + 4)) entry c) c := by
  unfold parsear_madt
  rw [h]
  dsimp only
  rw [entradas_eq]
  constructor
  · intro hrun
    obtain ⟨es, hes⟩ := chain_of_run hrun
    rw [hes.run_eq (length_le_voltas hes.nodup)] at hrun
    exact ⟨es, hes, (Option.some.inj hrun).symm⟩
  · rintro ⟨es, hes, rfl⟩
    exact hes.run_eq (length_le_voltas hes.nodup)

/-- The number of processors never exceeds the table. -/
theorem parsear_madt_cpu_count (hc : c.cpu_count ≤ MAX_CPUS) {c' : Cpus}
    (h : parsear_madt m bsp c = some c') : c'.cpu_count ≤ MAX_CPUS := by
  cases ht : smp_madt m with
  | none =>
    rw [parsear_madt_sem_tabela ht] at h
    exact Option.some.inj h ▸ hc
  | some t =>
    obtain ⟨es, -, rfl⟩ := (parsear_madt_eq_some ht).mp h
    rw [foldl_cpu_count es hc]
    exact Nat.min_le_left _ _

/-- What the two readers are to have in common. -/
structure Concordam (m : Memoria) (bsp : UInt8) (c : Cpus) : Prop where
  mesma : ∀ t, acpi_madt m = some (some t) → smp_madt m = some t
  rejeita : acpi_madt m = none → ∀ c', parsear_madt m bsp c = some c' → c'.cpu_count = c.cpu_count
  termina : (parsear_madt m bsp c).isSome
  limite : ∀ c', parsear_madt m bsp c = some c' → c'.cpu_count ≤ MAX_CPUS

/-- The table that the first "RSD PTR " leads to is the one that `acpi_init` finds; where it rejects
the tables, that one has no other processor, or there is no room; and its entries end. -/
structure Certa (m : Memoria) (bsp : UInt8) (c : Cpus) : Prop where
  mesma : ∀ t, acpi_madt m = some (some t) → Lista m t
  rejeita : acpi_madt m = none → ∀ t es, Lista m t → Entradas m t es →
    (∃ entry ∈ es, Outro m bsp (t + le32 m (t + 4)) entry) → c.cpu_count = MAX_CPUS
  fim : ∀ t, Lista m t → ∃ es, Entradas m t es

/-- The memory with some bytes from an address on. -/
def com_bytes (inicio : Nat) (bs : List UInt8) (m : Memoria) : Memoria := fun a =>
  if inicio ≤ a.toNat ∧ a.toNat < inicio + bs.length then bs.getD (a.toNat - inicio) 0 else m a

/-- An RSDT at 1 MB with one entry, a MADT with one processor. -/
def tabelas_em_1mb : Memoria :=
  com_bytes 0x100100 (APIC ++ [52, 0, 0, 0] ++ List.replicate 36 0 ++ [0, 8, 1, 1, 1, 0, 0, 0])
    (com_bytes 0x100000
      (RSDT ++ [40, 0, 0, 0, 0, 138] ++ List.replicate 26 0 ++ [0x00, 0x01, 0x10, 0x00]) fun _ => 0)

/-- Their RSDP. -/
def rsdp_de_1mb : List UInt8 := RSD_PTR ++ [209] ++ List.replicate 7 0 ++ [0x00, 0x00, 0x10, 0x00]

end Lei

end SpaceOS.Acpi
