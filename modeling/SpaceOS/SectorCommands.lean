-- The sectors that the commands of the three disk drivers name (kernel/disk/ata.c, dma.c, ahci.c),
-- for every `lba` of 32 bits and every `count` of 8 bits.
import SpaceOS.Ahci
import SpaceOS.AtaPorts
import SpaceOS.Lib.Words

open Lib.Words SpaceOS.Ahci SpaceOS.AtaPorts

namespace SpaceOS.SectorCommands

/-! ## What a call is to do -/

/-- A command as the device reads it: where it begins, how many sectors it names, and how many bytes
the call moves for it. -/
structure Pedido where
  inicio : Nat
  setores : Nat
  bytes : Nat

/-- The call fails and issues no command, or it issues one: for the sectors from `lba` on, `count` of
them, and where the call succeeds it moved as many bytes. -/
def Enderecado (lba : UInt32) (count : UInt8) (ret : Int) (pedidos : List Pedido) : Prop :=
  ret = -1 ∧ pedidos = [] ∨
    ∃ p, pedidos = [p] ∧ p.inicio = lba.toNat ∧ p.setores = count.toNat ∧
      (ret = 0 → p.bytes = count.toNat * SETOR_SIZE)

/-- The bytes are the words that the processor moved. -/
def EnderecadoAta (lba : UInt32) (count : UInt8) (r : AtaPorts.Resultado) : Prop :=
  Enderecado lba count r.ret
    (r.comandos.map fun c => ⟨c.inicio, c.setores, 2 * r.palavras.length⟩)

/-- The bytes are those of the descriptor, of which 0 stands for 64 KB. -/
def EnderecadoDma (lba : UInt32) (count : UInt8) (r : ResultadoDma) : Prop :=
  Enderecado lba count r.ret (r.comandos.map fun c =>
    ⟨c.1.inicio, c.1.setores, if c.2 = 0 then 65536 else c.2.toNat⟩)

def EnderecadoAhci (lba : UInt32) (count : UInt8) (r : Ahci.Resultado) : Prop :=
  Enderecado lba count r.ret (r.slots.map fun s => ⟨s.inicio, s.setores, s.bytes⟩)

/-! ## The encodings -/

theorem toNat_toUInt8_shr (x n : UInt32) (hn : n.toNat < 32) :
    (x >>> n).toUInt8.toNat = x.toNat / 2 ^ n.toNat % 2 ^ 8 := by
  rw [UInt32.toNat_toUInt8, toNat_shr x n hn]

theorem drive_low (x : Fin 16) :
    (((0xE0 : UInt8) ||| UInt8.ofNat x) &&& 0xF).toNat = x := by
  revert x
  decide

/-- Four registers hold 28 bits of `lba`. -/
theorem inicio_comando (lba : UInt32) (count cmd : UInt8) :
    (comando lba count cmd).inicio = lba.toNat % 2 ^ 28 := by
  have hdrive : (((0xE0 : UInt8) ||| ((lba >>> 24) &&& 0x0F).toUInt8) &&& 0xF).toNat =
      lba.toNat / 2 ^ 24 % 2 ^ 4 := by
    have hx : ((lba >>> 24) &&& 0x0F).toNat = lba.toNat / 2 ^ 24 % 2 ^ 4 := by
      rw [toNat_and_low _ 0x0F (n := 4) rfl, toNat_shr lba 24 (by decide)]
      rfl
    have hlt : lba.toNat / 2 ^ 24 % 2 ^ 4 < 16 := Nat.mod_lt _ (by decide)
    have hbyte : ((lba >>> 24) &&& 0x0F).toUInt8 = UInt8.ofNat (lba.toNat / 2 ^ 24 % 2 ^ 4) := by
      rw [← hx]
      rfl
    rw [hbyte]
    exact drive_low ⟨_, hlt⟩
  unfold Comando.inicio comando
  simp only [hdrive, toUInt8_and, UInt32.toNat_toUInt8, toNat_toUInt8_shr lba 8 (by decide),
    toNat_toUInt8_shr lba 16 (by decide)]
  rw [show (8 : UInt32).toNat = 8 from rfl, show (16 : UInt32).toNat = 16 from rfl]
  omega

theorem setores_comando {lba : UInt32} {count cmd : UInt8} (h : count ≠ 0) :
    (comando lba count cmd).setores = count.toNat := if_neg h

/-- The FIS holds all of `lba`. -/
theorem inicio_monta (ata_cmd : UInt8) (lba : UInt32) (count : UInt8) (write : Bool) :
    (monta ata_cmd lba count write).inicio = lba.toNat := by
  have hlba := lba.toNat_lt
  unfold Slot.inicio monta
  simp only [UInt32.toNat_toUInt8, toNat_toUInt8_shr lba 8 (by decide),
    toNat_toUInt8_shr lba 16 (by decide), toNat_toUInt8_shr lba 24 (by decide)]
  rw [show (8 : UInt32).toNat = 8 from rfl, show (16 : UInt32).toNat = 16 from rfl,
    show (24 : UInt32).toNat = 24 from rfl, show (0 : UInt8).toNat = 0 from rfl]
  omega

/-- A count of zero stands for 65536 in the FIS. -/
theorem setores_monta (ata_cmd : UInt8) (lba : UInt32) (count : UInt8) (write : Bool) :
    (monta ata_cmd lba count write).setores = if count = 0 then 65536 else count.toNat := by
  unfold Slot.setores monta
  by_cases h : count = 0
  · rw [if_pos ⟨h, rfl⟩, if_pos h]
  · rw [if_neg fun he => h he.1, if_neg h]
    exact Nat.add_zero _

theorem toNat_bytes (count : UInt8) : (count.toUInt32 * 512).toNat = count.toNat * SETOR_SIZE := by
  have hlt := count.toNat_lt
  rw [UInt32.toNat_mul, UInt8.toNat_toUInt32, show (512 : UInt32).toNat = 512 from rfl,
    Nat.mod_eq_of_lt (by omega)]
  rfl

/-- One less than the bytes of the transfer. -/
theorem bytes_monta (ata_cmd : UInt8) (lba : UInt32) {count : UInt8} (write : Bool)
    (h : count ≠ 0) : (monta ata_cmd lba count write).bytes = count.toNat * SETOR_SIZE := by
  have hlt := count.toNat_lt
  have hpos : count.toNat ≠ 0 := fun h0 => h (UInt8.toNat_inj.mp h0)
  have hbytes : (count.toUInt32 * 512).toNat = count.toNat * 512 := toNat_bytes count
  have hle : (1 : UInt32) ≤ count.toUInt32 * 512 := by
    rw [UInt32.le_iff_toNat_le, hbytes, show (1 : UInt32).toNat = 1 from rfl]
    omega
  have hdbc : (count.toUInt32 * 512 - 1).toNat = count.toNat * 512 - 1 := by
    rw [UInt32.toNat_sub_of_le _ _ hle, hbytes]
    rfl
  unfold Slot.bytes monta SETOR_SIZE
  simp only [hdbc]
  omega

/-! ## Programmed transfers -/

/-- All sectors are 256 words each. -/
theorem length_transfere {status : Nat → UInt8} {fonte : Nat → UInt16} {s i : Nat}
    {palavras : List UInt16} (h : (transfere status fonte s i palavras).2 = true) :
    (transfere status fonte s i palavras).1.length = palavras.length + 256 * s := by
  induction s generalizing i palavras with
  | zero => rfl
  | succ s ih =>
    unfold transfere at h ⊢
    cases hdrq : ata_esperar_drq status 100000 i with
    | none =>
      rw [hdrq] at h
      exact absurd h Bool.false_ne_true
    | some j =>
      rw [hdrq] at h
      have hrest := ih h
      rw [List.length_append, List.length_map, List.length_range] at hrest
      simp only [hrest]
      omega

/-- What makes `ata_ler` and `ata_gravar` return -1 before the command. -/
def RecusaAta (disco_presente : Bool) (status : Nat → UInt8) (count : UInt8) (buffer : Bool) :
    Prop :=
  disco_presente = false ∨ buffer = false ∨ count = 0 ∨ ata_esperar_pronto status 100000 0 = none

variable {lba : UInt32} {count : UInt8}

/-- One command with the right count, and a sector that 28 bits have to hold. -/
theorem enderecado_singleton {ret : Int} {p : Pedido} (hinicio : p.inicio = lba.toNat % 2 ^ 28)
    (hsetores : p.setores = count.toNat) (hbytes : ret = 0 → p.bytes = count.toNat * SETOR_SIZE) :
    Enderecado lba count ret [p] ↔ lba.toNat < 2 ^ 28 := by
  constructor
  · rintro (⟨-, h⟩ | ⟨q, hq, hlba, -, -⟩)
    · exact absurd h (List.cons_ne_nil _ _)
    · obtain rfl : p = q := (List.cons.inj hq).1
      rw [← hlba, hinicio]
      exact Nat.mod_lt _ (by decide)
  · exact fun h => .inr ⟨p, rfl, hinicio.trans (Nat.mod_eq_of_lt h), hsetores, hbytes⟩

theorem enderecado_ata_iff (cmd : UInt8) (disco_presente : Bool) (status : Nat → UInt8)
    (fonte : Nat → UInt16) (buffer : Bool) :
    EnderecadoAta lba count (ata_op cmd disco_presente status fonte lba count buffer) ↔
      RecusaAta disco_presente status count buffer ∨ lba.toNat < 2 ^ 28 := by
  have hrecusa : EnderecadoAta lba count recusa := .inl ⟨rfl, rfl⟩
  unfold ata_op RecusaAta
  by_cases h1 : disco_presente = false
  · rw [if_pos h1]
    exact iff_of_true hrecusa (.inl (.inl h1))
  by_cases h2 : buffer = false ∨ count = 0
  · rw [if_neg h1, if_pos h2]
    exact iff_of_true hrecusa (.inl (.inr (or_assoc.mp (.inl h2))))
  rw [if_neg h1, if_neg h2]
  cases hpronto : ata_esperar_pronto status 100000 0 with
  | none => exact iff_of_true hrecusa (.inl (.inr (.inr (.inr rfl))))
  | some i =>
    rw [not_or] at h2
    simp only [h1, h2.1, h2.2, reduceCtorEq, or_self, false_or]
    refine enderecado_singleton (inicio_comando lba count cmd) (setores_comando h2.2) fun hret => ?_
    have hok : (transfere status fonte count.toNat i []).2 = true := by
      by_contra hno
      rw [if_neg hno] at hret
      exact absurd hret (show ¬ (-1 : Int) = 0 by decide)
    show 2 * (transfere status fonte count.toNat i []).1.length = _
    rw [length_transfere hok, List.length_nil, SETOR_SIZE]
    omega

/-! ## The bus master -/

/-- What makes `dma_op` return -1 before the command. -/
def RecusaDma (dma_ok : Bool) (count : UInt8) : Prop := dma_ok = false ∨ count = 0 ∨ count > 16

theorem enderecado_dma_iff (dma_ok : Bool) (bm_status : Nat → UInt8) (fonte : Nat → UInt8)
    (write : Bool) :
    EnderecadoDma lba count (dma_op dma_ok bm_status fonte lba count write) ↔
      RecusaDma dma_ok count ∨ lba.toNat < 2 ^ 28 := by
  by_cases h : dma_ok = false ∨ count = 0 ∨ count > 16
  · rw [dma_op, if_pos h]
    exact iff_of_true (.inl ⟨rfl, rfl⟩) (.inl h)
  have h0 : count ≠ 0 := fun h0 => h (.inr (.inl h0))
  have h16 : count.toNat ≤ 16 := by
    have hle : ¬ count > 16 := fun h16 => h (.inr (.inr h16))
    rw [gt_iff_lt, UInt8.lt_iff_toNat_lt, show (16 : UInt8).toNat = 16 from rfl] at hle
    omega
  have hpos : count.toNat ≠ 0 := fun hz => h0 (UInt8.toNat_inj.mp hz)
  have hbytes : (count.toUInt32 * 512).toNat = count.toNat * 512 := toNat_bytes count
  have hne : count.toUInt32 * 512 ≠ 65536 := fun he => by
    have hn := congrArg UInt32.toNat he
    rw [hbytes, show (65536 : UInt32).toNat = 65536 from rfl] at hn
    omega
  have hcount : (count.toUInt32 * 512).toUInt16.toNat = count.toNat * 512 := by
    rw [UInt32.toNat_toUInt16, hbytes]
    omega
  have hcount0 : (count.toUInt32 * 512).toUInt16 ≠ 0 := fun hz => by
    rw [hz, show (0 : UInt16).toNat = 0 from rfl] at hcount
    omega
  rw [dma_op, if_neg h, RecusaDma, or_iff_right h]
  simp only [if_neg hne]
  split
  all_goals
    refine enderecado_singleton (inicio_comando lba count _) (setores_comando h0) fun _ => ?_
    exact (if_neg hcount0).trans hcount

/-! ## AHCI -/

/-- What makes `ahci_ler` and `ahci_gravar` return -1 before the command. -/
def RecusaAhci (ahci_ready : Bool) (count : UInt8) : Prop := ahci_ready = false ∨ count > 16

theorem slots_ahci_issue (ci is_ : Nat → UInt32) (fonte : Nat → UInt8) (ata_cmd : UInt8)
    (write : Bool) : (ahci_issue ci is_ fonte ata_cmd lba count write).slots =
      [monta ata_cmd lba count write] := by
  simp only [ahci_issue]
  split
  · rfl
  · split <;> rfl

theorem enderecado_ahci_issue_iff (ci is_ : Nat → UInt32) (fonte : Nat → UInt8) (ata_cmd : UInt8)
    (write : Bool) :
    EnderecadoAhci lba count (ahci_issue ci is_ fonte ata_cmd lba count write) ↔ count ≠ 0 := by
  unfold EnderecadoAhci
  rw [slots_ahci_issue]
  constructor
  · rintro (⟨-, h⟩ | ⟨p, hp, -, hsetores, -⟩) rfl
    · exact absurd h (List.cons_ne_nil _ _)
    · obtain rfl := (List.cons.inj hp).1
      have hzero := (setores_monta ata_cmd lba 0 write).symm.trans hsetores
      rw [if_pos rfl] at hzero
      exact absurd hzero (by decide)
  · refine fun h => .inr ⟨_, rfl, inicio_monta _ _ _ _, ?_, fun _ => bytes_monta _ _ _ h⟩
    exact (setores_monta _ _ _ _).trans (if_neg h)

theorem enderecado_ahci_iff {ahci_ready : Bool} {r r' : Ahci.Resultado}
    (hr : r = if ahci_ready = false ∨ count > 16 then ⟨-1, [], []⟩ else r')
    (hr' : EnderecadoAhci lba count r' ↔ count ≠ 0) :
    EnderecadoAhci lba count r ↔ RecusaAhci ahci_ready count ∨ count ≠ 0 := by
  unfold RecusaAhci
  by_cases h : ahci_ready = false ∨ count > 16
  · rw [hr, if_pos h]
    exact iff_of_true (.inl ⟨rfl, rfl⟩) (.inl h)
  · rw [hr, if_neg h, or_iff_right h]
    exact hr'

theorem enderecado_ahci_ler_iff (ahci_ready : Bool) (ci is_ : Nat → UInt32) (fonte : Nat → UInt8) :
    EnderecadoAhci lba count (ahci_ler ahci_ready ci is_ fonte lba count) ↔
      RecusaAhci ahci_ready count ∨ count ≠ 0 :=
  enderecado_ahci_iff rfl (enderecado_ahci_issue_iff ci is_ fonte 0x25 false)

theorem enderecado_ahci_gravar_iff (ahci_ready : Bool) (ci is_ : Nat → UInt32)
    (fonte : Nat → UInt8) :
    EnderecadoAhci lba count (ahci_gravar ahci_ready ci is_ fonte lba count) ↔
      RecusaAhci ahci_ready count ∨ count ≠ 0 :=
  enderecado_ahci_iff rfl (enderecado_ahci_issue_iff ci is_ fonte 0x35 true)

/-! ## The three drivers -/

/-- The programmed and the bus master transfers name the sectors that were asked for where `lba` has
28 bits, the AHCI ones where `count` is not zero. -/
theorem sectors_are_addressed_iff (lba : UInt32) (count : UInt8) (disco_presente buffer : Bool)
    (status : Nat → UInt8) (dados : Nat → UInt16) (dma_ok : Bool) (bm_status : Nat → UInt8)
    (ahci_ready : Bool) (ci is_ : Nat → UInt32) (fonte : Nat → UInt8) :
    (EnderecadoAta lba count (ata_ler disco_presente status dados lba count buffer) ↔
      RecusaAta disco_presente status count buffer ∨ lba.toNat < 2 ^ 28) ∧
    (EnderecadoAta lba count (ata_gravar disco_presente status dados lba count buffer) ↔
      RecusaAta disco_presente status count buffer ∨ lba.toNat < 2 ^ 28) ∧
    (EnderecadoDma lba count (dma_ler dma_ok bm_status fonte lba count) ↔
      RecusaDma dma_ok count ∨ lba.toNat < 2 ^ 28) ∧
    (EnderecadoDma lba count (dma_gravar dma_ok bm_status fonte lba count) ↔
      RecusaDma dma_ok count ∨ lba.toNat < 2 ^ 28) ∧
    (EnderecadoAhci lba count (ahci_ler ahci_ready ci is_ fonte lba count) ↔
      RecusaAhci ahci_ready count ∨ count ≠ 0) ∧
    (EnderecadoAhci lba count (ahci_gravar ahci_ready ci is_ fonte lba count) ↔
      RecusaAhci ahci_ready count ∨ count ≠ 0) :=
  ⟨enderecado_ata_iff _ _ _ _ _, enderecado_ata_iff _ _ _ _ _, enderecado_dma_iff _ _ _ _,
    enderecado_dma_iff _ _ _ _, enderecado_ahci_ler_iff _ _ _ _,
    enderecado_ahci_gravar_iff _ _ _ _⟩

/-- Sector 2^28 is sector 0 for two of the drivers, and no sectors are 65536 for the third one. -/
theorem sector_numbers_wrap :
    ¬ EnderecadoAta 0x10000000 1 (ata_ler true (fun _ => 8) (fun _ => 0) 0x10000000 1 true) ∧
      ¬ EnderecadoDma 0x10000000 1 (dma_ler true (fun _ => 0) (fun _ => 0) 0x10000000 1) ∧
      ¬ EnderecadoAhci 0 0 (ahci_ler true (fun _ => 0) (fun _ => 0) (fun _ => 0) 0 0) := by
  refine ⟨fun h => ?_, fun h => ?_, fun h => ?_⟩
  · rcases (enderecado_ata_iff _ _ _ _ _).mp h with (h | h | h | h) | h
    · exact absurd h (by decide)
    · exact absurd h (by decide)
    · exact absurd h (by decide)
    · exact absurd (h.symm.trans (show _ = some 1 from rfl)) (by decide)
    · exact absurd h (by decide)
  · rcases (enderecado_dma_iff _ _ _ _).mp h with (h | h | h) | h
    · exact absurd h (by decide)
    · exact absurd h (by decide)
    · exact absurd h (by decide)
    · exact absurd h (by decide)
  · rcases (enderecado_ahci_ler_iff _ _ _ _).mp h with (h | h) | h
    · exact absurd h (by decide)
    · exact absurd h (by decide)
    · exact h rfl

end SpaceOS.SectorCommands
