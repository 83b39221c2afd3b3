-- The waits for a device: of the disk drivers (kernel/disk/ahci.c, kernel/disk/dma.c), of the USB
-- controller (kernel/drivers/usb.c) and of the reset of the network card (kernel/net/rtl8139.c),
-- for every sequence of values that the device shows.
import SpaceOS.Ahci
import SpaceOS.AtaPorts
import SpaceOS.Lib.Polling

open Lib.Polling SpaceOS.Ahci SpaceOS.AtaPorts

namespace SpaceOS.Polls

/-! ## The USB controller -/

def QTD_STS_ACTIVE : UInt32 := (1 : UInt32) <<< 7

def QTD_STS_HALTED : UInt32 := (1 : UInt32) <<< 6

/-- What the controller shows at a look at the memory: the token of the queue head, and those of the
transfer descriptors. -/
structure Fila where
  token : UInt32
  qtds : List UInt32

/-- The descriptors are retired. -/
def Fila.Retirada (f : Fila) : Prop := ∀ q ∈ f.qtds, q &&& QTD_STS_ACTIVE = 0

/-- The wait for the queue head: the number of the look after it. -/
def espera_qh (mem : Nat → Fila) : Nat → Nat → Nat
  | 0, i => i
  | t + 1, i =>
    if (mem i).token &&& QTD_STS_ACTIVE = 0 then i + 1 else espera_qh mem t (i + 1)

/-- `ehci_run_qh` after the queue head went to the ring, with one more look behind the wait. The
wait for the ring to stop has no effect on what follows. -/
def ehci_run_qh (mem : Nat → Fila) : Int :=
  let qh := mem (espera_qh mem 500000 0)
  if qh.token &&& (QTD_STS_HALTED ||| QTD_STS_ACTIVE) ≠ 0 then -1 else 0

/-! ## The reset of the network card -/

def CR_RST : UInt8 := 0x10

/-- The loop of the reset: what is left in `timeout`. -/
def espera_rst (cr : Nat → UInt8) : Nat → Nat → UInt32
  | 0, i => if cr i &&& CR_RST ≠ 0 then 0 - 1 else 0
  | t + 1, i => if cr i &&& CR_RST ≠ 0 then espera_rst cr t (i + 1) else UInt32.ofNat (t + 1)

/-- The reset step of `rtl8139_init`: `true` where it goes on. -/
def rtl8139_reset (cr : Nat → UInt8) : Bool := espera_rst cr 100000 0 ≠ 0

/-! ## What the drivers are to report -/

/-- Look `k` at PORT_CI finds the command done. -/
def Pronto (ci : Nat → UInt32) (k : Nat) : Prop := ci k &&& 1 = 0

def Fatal (is_ : Nat → UInt32) (k : Nat) : Prop := is_ k &&& ((1 : UInt32) <<< 30) ≠ 0

/-- The bus master is not active. -/
def Parado (bm_status : Nat → UInt8) (k : Nat) : Prop := bm_status k &&& BM_ST_ACTIVE = 0

def Erro (bm_status : Nat → UInt8) (k : Nat) : Prop := bm_status k &&& BM_ST_ERR ≠ 0

/-- The overlay of the queue head is not active. -/
def Livre (mem : Nat → Fila) (k : Nat) : Prop := (mem k).token &&& QTD_STS_ACTIVE = 0

/-- The overlay shows a halt or activity. -/
def Ocupada (mem : Nat → Fila) (k : Nat) : Prop :=
  (mem k).token &&& (QTD_STS_HALTED ||| QTD_STS_ACTIVE) ≠ 0

/-- The reset bit is clear. -/
def Limpo (cr : Nat → UInt8) (k : Nat) : Prop := cr k &&& CR_RST = 0

/-- Success only after PORT_CI was seen clear with no fatal error before, and an error after the
last of the 500000 looks. -/
structure AhciCerto (ci is_ : Nat → UInt32) (ret : Int) : Prop where
  sucesso : ret = 0 → ∃ k < 500000, Pronto ci k ∧ ∀ j < k, ¬ Fatal is_ j
  esgotado : (∀ k < 500000, ¬ Pronto ci k ∧ ¬ Fatal is_ k) → ret = -1

/-- Success only after the bus master was seen inactive without error, and an error after the last
of the 500001 looks. -/
structure DmaCerto (bm_status : Nat → UInt8) (ret : Int) : Prop where
  sucesso : ret = 0 → ∃ k < 500001, Parado bm_status k ∧ ¬ Erro bm_status k
  esgotado : (∀ k < 500001, ¬ Parado bm_status k) → ret = -1

/-- Success only after the descriptors were retired at some look, and an error after the last of the
500000 looks of the wait. -/
structure EhciCerto (mem : Nat → Fila) (ret : Int) : Prop where
  sucesso : ret = 0 → ∃ k ≤ espera_qh mem 500000 0, (mem k).Retirada
  esgotado : (∀ k < 500000, ¬ Livre mem k) → ret = -1

/-- The reset passes exactly where one of the 100001 looks saw the bit clear. -/
def ResetCerto (cr : Nat → UInt8) : Prop :=
  rtl8139_reset cr = true ↔ ∃ k < 100001, Limpo cr k

/-! ## ahci_issue -/

section Ahci

variable {ci is_ : Nat → UInt32}

theorem polls_espera : Polls (espera ci is_) (fun k => Pronto ci k ∨ Fatal is_ k)
    (fun t i => if ci i &&& 1 = 0 then some (UInt32.ofNat t) else none) (fun _ => some (0 - 1)) where
  zero _ := rfl
  stop t i h := by
    unfold espera
    by_cases hp : ci i &&& 1 = 0
    · rw [if_pos hp, if_pos hp]
    · rw [if_neg hp, if_neg hp]
      exact if_pos (h.resolve_left hp)
  next t i h := by
    rw [not_or] at h
    exact (if_neg h.1).trans (if_neg h.2)

theorem ret_ahci_issue (fonte : Nat → UInt8) (ata_cmd : UInt8) (lba : UInt32) (count : UInt8)
    (write : Bool) : (ahci_issue ci is_ fonte ata_cmd lba count write).ret =
      if espera ci is_ 500000 0 = none ∨ espera ci is_ 500000 0 = some 0 then -1 else 0 := by
  unfold ahci_issue
  cases espera ci is_ 500000 0 with
  | none => rfl
  | some t =>
    by_cases h : t = 0
    · simp [h]
    · simp [h]

/-- After the last look the counter has wrapped, and the timeout is not seen. -/
theorem ahciCerto_iff (fonte : Nat → UInt8) (ata_cmd : UInt8) (lba : UInt32) (count : UInt8)
    (write : Bool) : AhciCerto ci is_ (ahci_issue ci is_ fonte ata_cmd lba count write).ret ↔
      ∃ k < 500000, Pronto ci k ∨ Fatal is_ k := by
  rw [ret_ahci_issue]
  rcases first_or_none (fun k => Pronto ci k ∨ Fatal is_ k) 500000 with ⟨k, hk, hfirst⟩ | hnone
  · rw [polls_espera.of_first hk hfirst]
    refine iff_of_true ⟨fun hret => ?_, fun hall => ?_⟩ ⟨k, hk, hfirst.1⟩
    · by_cases hp : ci k &&& 1 = 0
      · exact ⟨k, hk, hp, fun j hj hf => hfirst.2 j hj (.inr hf)⟩
      · rw [if_neg hp, if_pos (.inl rfl)] at hret
        exact absurd hret (by decide)
    · exact absurd hfirst.1 (not_or.mpr (hall k hk))
  · rw [polls_espera.of_none hnone]
    refine iff_of_false (fun h => ?_) fun ⟨k, hk, h⟩ => hnone k hk h
    have hret := h.esgotado fun k hk => not_or.mp (hnone k hk)
    exact absurd hret (by decide)

end Ahci

/-! ## dma_op -/

section Dma

variable {bm_status : Nat → UInt8}

theorem polls_espera_bm : Polls (espera_bm bm_status) (Parado bm_status)
    (fun _ i => bm_status i) bm_status where
  zero _ := rfl
  stop _ _ h := if_pos h
  next _ _ h := if_neg h

theorem ret_dma_op {dma_ok : Bool} {count : UInt8}
    (h : ¬ (dma_ok = false ∨ count = 0 ∨ count > 16)) (fonte : Nat → UInt8) (lba : UInt32)
    (write : Bool) : (dma_op dma_ok bm_status fonte lba count write).ret =
      if espera_bm bm_status 500000 0 &&& BM_ST_ERR ≠ 0 then -1 else 0 := by
  simp only [dma_op, if_neg h]
  split <;> rfl

/-- After the last look only the error bit is looked at. -/
theorem dmaCerto_iff (dma_ok : Bool) (fonte : Nat → UInt8) (lba : UInt32) (count : UInt8)
    (write : Bool) : DmaCerto bm_status (dma_op dma_ok bm_status fonte lba count write).ret ↔
      (dma_ok = false ∨ count = 0 ∨ count > 16) ∨ (∃ k < 500001, Parado bm_status k) ∨
        Erro bm_status 500000 := by
  by_cases hrecusa : dma_ok = false ∨ count = 0 ∨ count > 16
  · have hret : (dma_op dma_ok bm_status fonte lba count write).ret = -1 := by
      rw [dma_op, if_pos hrecusa]
    rw [hret]
    exact iff_of_true ⟨fun h => absurd h (by decide), fun _ => rfl⟩ (.inl hrecusa)
  rw [ret_dma_op hrecusa, or_iff_right hrecusa]
  rcases first_or_none (Parado bm_status) 500000 with ⟨k, hk, hfirst⟩ | hnone
  · rw [polls_espera_bm.of_first hk hfirst]
    refine iff_of_true ⟨fun hret => ⟨k, by omega, hfirst.1, fun herr => ?_⟩, fun hall => ?_⟩
      (.inl ⟨k, by omega, hfirst.1⟩)
    · exact absurd ((if_pos herr).symm.trans hret) (by decide)
    · exact absurd hfirst.1 (hall k (by omega))
  · rw [polls_espera_bm.of_none hnone]
    by_cases herr : bm_status 500000 &&& BM_ST_ERR ≠ 0
    · rw [if_pos herr]
      exact iff_of_true ⟨fun h => absurd h (by decide), fun _ => rfl⟩ (.inr herr)
    · have herro : ¬ Erro bm_status 500000 := herr
      rw [if_neg herr, or_iff_left herro]
      by_cases hlast : Parado bm_status 500000
      · refine iff_of_true ⟨fun _ => ⟨500000, by omega, hlast, herr⟩, fun hall => ?_⟩
          ⟨500000, by omega, hlast⟩
        exact absurd hlast (hall 500000 (by omega))
      · have hall (k : Nat) (hk : k < 500001) : ¬ Parado bm_status k := by
          rcases Nat.lt_or_eq_of_le (Nat.le_of_lt_succ hk) with h | rfl
          · exact hnone k h
          · exact hlast
        refine iff_of_false (fun h => absurd (h.esgotado hall) (by decide)) ?_
        exact fun ⟨k, hk, h⟩ => hall k hk h

end Dma

/-! ## ehci_run_qh -/

section Ehci

variable {mem : Nat → Fila}

theorem polls_espera_qh : Polls (espera_qh mem) (Livre mem) (fun _ i => i + 1) (fun i => i) where
  zero _ := rfl
  stop _ _ h := if_pos h
  next _ _ h := if_neg h

theorem ehci_run_qh_eq_zero_iff :
    ehci_run_qh mem = 0 ↔ ¬ Ocupada mem (espera_qh mem 500000 0) := by
  unfold ehci_run_qh Ocupada
  simp only
  split
  · simp [*]
  · simp [*]

theorem ehci_run_qh_eq_neg_one_iff :
    ehci_run_qh mem = -1 ↔ Ocupada mem (espera_qh mem 500000 0) := by
  unfold ehci_run_qh Ocupada
  simp only
  split
  · simp [*]
  · simp [*]

/-- The overlay is not active before the controller has read the first descriptor. -/
theorem ehciCerto_iff : EhciCerto mem (ehci_run_qh mem) ↔
    (∃ k < 500000, First (Livre mem) k ∧ (Ocupada mem (k + 1) ∨ ∃ j ≤ k + 1, (mem j).Retirada)) ∨
      (∀ k < 500000, ¬ Livre mem k) ∧ Ocupada mem 500000 := by
  rcases first_or_none (Livre mem) 500000 with ⟨k, hk, hfirst⟩ | hnone
  · have hlooks : espera_qh mem 500000 0 = k + 1 := polls_espera_qh.of_first hk hfirst
    have hsome : ¬ ∀ k < 500000, ¬ Livre mem k := fun hall => hall k hk hfirst.1
    have hk' (l : Nat) (hl : First (Livre mem) l) : l = k := by
      rcases Nat.lt_trichotomy l k with h | h | h
      · exact absurd hl.1 (hfirst.2 l h)
      · exact h
      · exact absurd hfirst.1 (hl.2 k h)
    rw [or_iff_left fun h => hsome h.1]
    constructor
    · intro h
      refine ⟨k, hk, hfirst, ?_⟩
      by_cases hocupada : Ocupada mem (k + 1)
      · exact .inl hocupada
      · have hret := ehci_run_qh_eq_zero_iff.mpr (hlooks ▸ hocupada)
        exact .inr (hlooks ▸ h.sucesso hret)
    · rintro ⟨l, -, hl, h⟩
      obtain rfl := hk' l hl
      refine ⟨fun hret => ?_, fun hall => absurd hall hsome⟩
      rw [hlooks]
      exact h.resolve_left (hlooks ▸ ehci_run_qh_eq_zero_iff.mp hret)
  · have hlooks : espera_qh mem 500000 0 = 500000 := polls_espera_qh.of_none hnone
    have hnofirst : ¬ ∃ k < 500000, First (Livre mem) k ∧
        (Ocupada mem (k + 1) ∨ ∃ j ≤ k + 1, (mem j).Retirada) :=
      fun ⟨k, hk, hfirst, _⟩ => hnone k hk hfirst.1
    rw [or_iff_right hnofirst]
    constructor
    · exact fun h => ⟨hnone, hlooks ▸ ehci_run_qh_eq_neg_one_iff.mp (h.esgotado hnone)⟩
    · intro h
      have hret : ehci_run_qh mem = -1 := by
        rw [ehci_run_qh_eq_neg_one_iff, hlooks]
        exact h.2
      exact ⟨fun h0 => absurd (hret.symm.trans h0) (by decide), fun _ => hret⟩

end Ehci

/-! ## rtl8139_init -/

section Reset

variable {cr : Nat → UInt8}

theorem polls_espera_rst : Polls (espera_rst cr) (Limpo cr) (fun t _ => UInt32.ofNat (t + 1))
    (fun i => if cr i &&& CR_RST ≠ 0 then 0 - 1 else 0) where
  zero _ := rfl
  stop _ _ h := if_neg (not_not.mpr h)
  next _ _ h := if_pos h

/-- The counter is zero where the last look sees the bit clear, and only there. -/
theorem resetCerto_iff : ResetCerto cr ↔ ∃ k < 100000, Limpo cr k := by
  unfold ResetCerto rtl8139_reset
  rw [decide_eq_true_eq]
  rcases first_or_none (Limpo cr) 100000 with ⟨k, hk, hfirst⟩ | hnone
  · rw [polls_espera_rst.of_first hk hfirst]
    refine iff_of_true (iff_of_true (fun h => ?_) ⟨k, by omega, hfirst.1⟩) ⟨k, hk, hfirst.1⟩
    have hzero := congrArg UInt32.toNat h
    rw [UInt32.toNat_ofNat_of_lt' (show _ < 4294967296 by omega)] at hzero
    exact absurd hzero (Nat.succ_ne_zero _)
  · rw [polls_espera_rst.of_none hnone]
    refine iff_of_false (fun h => ?_) fun ⟨k, hk, h⟩ => hnone k hk h
    by_cases hlast : cr 100000 &&& CR_RST = 0
    · rw [if_neg (not_not.mpr hlast)] at h
      exact h.mpr ⟨100000, by omega, hlast⟩ rfl
    · rw [if_pos hlast] at h
      obtain ⟨k, hk, hlimpo⟩ := h.mp (by decide)
      rcases Nat.lt_or_eq_of_le (Nat.le_of_lt_succ hk) with hlt | rfl
      · exact hnone k hlt hlimpo
      · exact hlast hlimpo

end Reset

/-! ## All of them -/

/-- For every sequence of values that the devices show, each wait reports as it should exactly where
its budget is not the end of it. -/
theorem success_means_completion_iff (ci is_ : Nat → UInt32) (bm_status cr : Nat → UInt8)
    (mem : Nat → Fila) (dma_ok : Bool) (fonte : Nat → UInt8) (ata_cmd : UInt8) (lba : UInt32)
    (count : UInt8) (write : Bool) :
    (AhciCerto ci is_ (ahci_issue ci is_ fonte ata_cmd lba count write).ret ↔
      ∃ k < 500000, Pronto ci k ∨ Fatal is_ k) ∧
    (DmaCerto bm_status (dma_op dma_ok bm_status fonte lba count write).ret ↔
      (dma_ok = false ∨ count = 0 ∨ count > 16) ∨ (∃ k < 500001, Parado bm_status k) ∨
        Erro bm_status 500000) ∧
    (EhciCerto mem (ehci_run_qh mem) ↔
      (∃ k < 500000, First (Livre mem) k ∧
        (Ocupada mem (k + 1) ∨ ∃ j ≤ k + 1, (mem j).Retirada)) ∨
        (∀ k < 500000, ¬ Livre mem k) ∧ Ocupada mem 500000) ∧
    (ResetCerto cr ↔ ∃ k < 100000, Limpo cr k) :=
  ⟨ahciCerto_iff fonte ata_cmd lba count write, dmaCerto_iff dma_ok fonte lba count write,
    ehciCerto_iff, resetCerto_iff⟩

/-- Devices that never get ready: the command bit stays set, the bus master stays active, the
descriptor stays active behind an overlay that was never filled, and the reset bit stays set. -/
theorem devices_that_hang_succeed :
    ¬ AhciCerto (fun _ => 1) (fun _ => 0)
        (ahci_issue (fun _ => 1) (fun _ => 0) (fun _ => 0) 0x25 0 1 false).ret ∧
      ¬ DmaCerto (fun _ => 1) (dma_op true (fun _ => 1) (fun _ => 0) 0 1 false).ret ∧
      ¬ EhciCerto (fun _ => ⟨0, [0x80]⟩) (ehci_run_qh fun _ => ⟨0, [0x80]⟩) ∧
      ¬ ResetCerto fun _ => 0x10 := by
  refine ⟨fun h => ?_, fun h => ?_, fun h => ?_, fun h => ?_⟩
  · obtain ⟨_, _, h | h⟩ := (ahciCerto_iff _ _ _ _ _).mp h
    · exact absurd h (show ¬ (1 : UInt32) &&& 1 = 0 by decide)
    · exact h (show (0 : UInt32) &&& ((1 : UInt32) <<< 30) = 0 by decide)
  · have hbusy : ¬ (1 : UInt8) &&& BM_ST_ACTIVE = 0 := by decide
    rcases (dmaCerto_iff _ _ _ _ _).mp h with h | ⟨_, _, h⟩ | h
    · exact absurd h (by decide)
    · exact hbusy h
    · exact h (show (1 : UInt8) &&& BM_ST_ERR = 0 by decide)
  · have hidle : (0 : UInt32) &&& (QTD_STS_HALTED ||| QTD_STS_ACTIVE) = 0 := by decide
    have hactive : ¬ (0x80 : UInt32) &&& QTD_STS_ACTIVE = 0 := by decide
    rcases ehciCerto_iff.mp h with ⟨_, _, _, h | ⟨_, _, h⟩⟩ | ⟨_, h⟩
    · exact h hidle
    · exact hactive (h 0x80 List.mem_cons_self)
    · exact h hidle
  · obtain ⟨_, _, h⟩ := resetCerto_iff.mp h
    exact absurd h (show ¬ (0x10 : UInt8) &&& CR_RST = 0 by decide)

end SpaceOS.Polls
