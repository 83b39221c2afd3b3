-- What the option loop of the DHCP handler reads, and what it takes from an option that is shorter
-- than its value or leaves the field.
import SpaceOS.DhcpLaws
import SpaceOS.Lib.Footprint

open Lib.Bytes Lib.Footprint

namespace SpaceOS.Dhcp

open SpaceOS.Net

/-! ## The loop with its reads -/

/-- `opcao` with its reads. -/
def opcao_lida (code : UInt8) (opt : Nat) (r : Negociacao × UInt8) : Reader (Negociacao × UInt8) :=
  if code = OPT_MSG_TYPE then do
    let t ← Reader.byte opt
    return (r.1, t)
  else if code = OPT_SUBNET_MASK then do
    let v ← Reader.word32 opt
    return ({ r.1 with offered_mask := ntohl v }, r.2)
  else if code = OPT_ROUTER then do
    let v ← Reader.word32 opt
    return ({ r.1 with offered_gw := ntohl v }, r.2)
  else if code = OPT_DNS then do
    let v ← Reader.word32 opt
    return ({ r.1 with offered_dns := ntohl v }, r.2)
  else if code = OPT_SERVER_ID then do
    let v ← Reader.word32 opt
    return ({ r.1 with server_id := ntohl v }, r.2)
  else return r

/-- `opcoes_laco` with its reads. -/
def opcoes_lidas : Nat → Nat → Negociacao × UInt8 → Reader (Negociacao × UInt8)
  | 0, _, r => return r
  | n + 1, opt, r =>
    if opt < SIZEOF_PKT then do
      let code ← Reader.byte opt
      if code = OPT_END then return r
      else if code = 0 then opcoes_lidas n (opt + 1) r
      else do
        let olen ← Reader.byte (opt + 1)
        let r ← opcao_lida code (opt + 2) r
        opcoes_lidas n (opt + 2 + olen.toNat) r
    else return r

/-- How many bytes the value of an option has. -/
def tamanho (code : UInt8) : Nat :=
  if code = OPT_MSG_TYPE then 1
  else if code = OPT_SUBNET_MASK ∨ code = OPT_ROUTER ∨ code = OPT_DNS ∨ code = OPT_SERVER_ID then 4
  else 0

/-- The length that an option declares, in the byte before its value. -/
def olen (data : Memory) (o : UInt8 × Nat) : Nat := (data (o.2 - 1)).toNat

/-- The declared length is too short for the value, or runs past the field. -/
def Invalida (data : Memory) (o : UInt8 × Nat) : Prop :=
  olen data o < tamanho o.1 ∨ SIZEOF_PKT < o.2 + olen data o

instance (data : Memory) (o : UInt8 × Nat) : Decidable (Invalida data o) :=
  inferInstanceAs (Decidable (_ ∨ _))

/-- The option changes nothing, whatever the variables hold. -/
def SemEfeito (data : Memory) (o : UInt8 × Nat) : Prop := ∀ r, opcao data o.1 o.2 r = r

/-- All of the parts lie in the field of the options. -/
def NoCampo (ps : List Part) : Prop := ∀ p ∈ ps, OPTIONS ≤ p.start ∧ p.Within SIZEOF_PKT

/-- The loop ends, reads its field alone, and takes nothing from an invalid option. -/
structure OpcoesSeguras (m : Mensagem) : Prop where
  termina : ∀ k r, opcoes_laco m.data (313 + k) OPTIONS r = opcoes_laco m.data 313 OPTIONS r
  no_campo : nossa m → ∀ r, NoCampo ((opcoes_lidas 313 OPTIONS r).parts m.data)
  sem_efeito : nossa m → ∀ o ∈ opcoes m, Invalida m.data o → SemEfeito m.data o

/-- In a message of ours, each option has its length in the field, and one that the client takes a
value from is long enough for it and ends in the field. -/
def OpcoesInteiras (m : Mensagem) : Prop :=
  nossa m → ∀ o ∈ opcoes m, o.2 ≤ SIZEOF_PKT ∧ (0 < tamanho o.1 → ¬ Invalida m.data o)

/-! ## One option -/

section Opcao

variable {data : Memory} {code : UInt8} {opt : Nat} {r : Negociacao × UInt8}

theorem val_opcao_lida : (opcao_lida code opt r).val data = opcao data code opt r := by
  unfold opcao_lida opcao
  simp only [Reader.val_ite]
  rfl

/-- An option reads its value. -/
theorem parts_opcao_lida :
    (opcao_lida code opt r).parts data = if tamanho code = 0 then [] else [⟨opt, tamanho code⟩] := by
  unfold opcao_lida tamanho
  by_cases h1 : code = OPT_MSG_TYPE
  · rw [if_pos h1, if_pos h1]
    rfl
  by_cases h2 : code = OPT_SUBNET_MASK
  · rw [if_neg h1, if_neg h1, if_pos h2, if_pos (Or.inl h2)]
    rfl
  by_cases h3 : code = OPT_ROUTER
  · rw [if_neg h1, if_neg h1, if_neg h2, if_pos h3, if_pos (Or.inr (Or.inl h3))]
    rfl
  by_cases h4 : code = OPT_DNS
  · rw [if_neg h1, if_neg h1, if_neg h2, if_neg h3, if_pos h4, if_pos (Or.inr (Or.inr (Or.inl h4)))]
    rfl
  by_cases h5 : code = OPT_SERVER_ID
  · rw [if_neg h1, if_neg h1, if_neg h2, if_neg h3, if_neg h4, if_pos h5,
      if_pos (Or.inr (Or.inr (Or.inr h5)))]
    rfl
  rw [if_neg h1, if_neg h1, if_neg h2, if_neg h3, if_neg h4, if_neg h5,
    if_neg (not_or.mpr ⟨h2, not_or.mpr ⟨h3, not_or.mpr ⟨h4, h5⟩⟩⟩)]
  rfl

/-- Only an option without a value changes nothing. -/
theorem sem_efeito_iff {o : UInt8 × Nat} : SemEfeito data o ↔ tamanho o.1 = 0 := by
  obtain ⟨code, opt⟩ := o
  -- for each code with a value, the variable that it writes can hold another one
  have hne : ∀ v : UInt32, v + 1 ≠ v := fun v h => by
    have h' := congrArg UInt32.toNat h
    rw [UInt32.toNat_add] at h'
    have hv := v.toNat_lt
    change (v.toNat + 1) % 2 ^ 32 = v.toNat at h'
    omega
  unfold SemEfeito opcao tamanho
  dsimp only
  by_cases h1 : code = OPT_MSG_TYPE
  · simp only [if_pos h1]
    refine iff_of_false (fun h => ?_) (by decide)
    have h0 := congrArg Prod.snd (h (⟨false, false, 0, 0, 0, 0, 0⟩, 0))
    have h5 := congrArg Prod.snd (h (⟨false, false, 0, 0, 0, 0, 0⟩, 1))
    exact absurd (h0.symm.trans h5) (by decide)
  simp only [if_neg h1]
  by_cases h2 : code = OPT_SUBNET_MASK
  · simp only [if_pos h2, if_pos (Or.inl h2)]
    refine iff_of_false (fun h => ?_) (by decide)
    have hm := congrArg (fun x => x.1.offered_mask)
      (h (⟨false, false, 0, 0, 0, endereco_em data opt + 1, 0⟩, 0))
    exact hne _ hm.symm
  by_cases h3 : code = OPT_ROUTER
  · simp only [if_neg h2, if_pos h3, if_pos (Or.inr (Or.inl h3))]
    refine iff_of_false (fun h => ?_) (by decide)
    have hm := congrArg (fun x => x.1.offered_gw)
      (h (⟨false, false, 0, 0, endereco_em data opt + 1, 0, 0⟩, 0))
    exact hne _ hm.symm
  by_cases h4 : code = OPT_DNS
  · simp only [if_neg h2, if_neg h3, if_pos h4, if_pos (Or.inr (Or.inr (Or.inl h4)))]
    refine iff_of_false (fun h => ?_) (by decide)
    have hm := congrArg (fun x => x.1.offered_dns)
      (h (⟨false, false, 0, 0, 0, 0, endereco_em data opt + 1⟩, 0))
    exact hne _ hm.symm
  by_cases h5 : code = OPT_SERVER_ID
  · simp only [if_neg h2, if_neg h3, if_neg h4, if_pos h5, if_pos (Or.inr (Or.inr (Or.inr h5)))]
    refine iff_of_false (fun h => ?_) (by decide)
    have hm := congrArg (fun x => x.1.server_id)
      (h (⟨false, false, 0, endereco_em data opt + 1, 0, 0, 0⟩, 0))
    exact hne _ hm.symm
  simp only [if_neg h2, if_neg h3, if_neg h4, if_neg h5,
    if_neg (not_or.mpr ⟨h2, not_or.mpr ⟨h3, not_or.mpr ⟨h4, h5⟩⟩⟩), implies_true]

end Opcao

/-! ## The loop -/

section Laco

variable {data : Memory} {n opt : Nat} {r : Negociacao × UInt8}

theorem val_opcoes_lidas : (opcoes_lidas n opt r).val data = opcoes_laco data n opt r := by
  induction n generalizing opt r with
  | zero => rfl
  | succ n ih =>
    unfold opcoes_lidas opcoes_laco
    by_cases h : opt < SIZEOF_PKT
    · rw [if_pos h, Reader.val_bind, Reader.val_byte]
      by_cases he : data opt = OPT_END
      · rw [if_pos he, if_neg fun hc => hc.2 he]
        rfl
      · have hc : opt < SIZEOF_PKT ∧ data opt ≠ OPT_END := ⟨h, he⟩
        rw [if_neg he, if_pos hc]
        dsimp only
        by_cases hz : data opt = 0
        · rw [if_pos hz, if_pos hz, ih]
        · rw [if_neg hz, if_neg hz, Reader.val_bind, Reader.val_bind, Reader.val_byte, ih,
            val_opcao_lida]
    · rw [if_neg h, if_neg fun hc => h hc.1]
      rfl

theorem no_campo_append {ps qs : List Part} : NoCampo (ps ++ qs) ↔ NoCampo ps ∧ NoCampo qs :=
  List.forall_mem_append

theorem no_campo_um {a l : Nat} : NoCampo [⟨a, l⟩] ↔ OPTIONS ≤ a ∧ a + l ≤ SIZEOF_PKT := by
  unfold NoCampo Part.Within
  simp only [List.mem_singleton, forall_eq]

theorem no_campo_nil : NoCampo [] := nofun

/-- The value of an option lies in the field, if it has one. -/
theorem no_campo_opcao {code : UInt8} (h : OPTIONS ≤ opt) :
    NoCampo ((opcao_lida code opt r).parts data) ↔
      (0 < tamanho code → opt + tamanho code ≤ SIZEOF_PKT) := by
  rw [parts_opcao_lida]
  by_cases h0 : tamanho code = 0
  · rw [if_pos h0]
    exact iff_of_true no_campo_nil fun hpos => absurd h0 (Nat.pos_iff_ne_zero.mp hpos)
  · rw [if_neg h0, no_campo_um]
    exact ⟨fun hc _ => hc.2, fun hc => ⟨h, hc (Nat.pos_of_ne_zero h0)⟩⟩

/-- The loop stays in the field where the length and the value of each option do. -/
theorem no_campo_opcoes (h : OPTIONS ≤ opt) :
    NoCampo ((opcoes_lidas n opt r).parts data) ↔
      ∀ o ∈ opcoes_de data n opt,
        o.2 ≤ SIZEOF_PKT ∧ (0 < tamanho o.1 → o.2 + tamanho o.1 ≤ SIZEOF_PKT) := by
  induction n generalizing opt r with
  | zero => exact iff_of_true no_campo_nil fun _ ho => absurd ho List.not_mem_nil
  | succ n ih =>
    unfold opcoes_lidas opcoes_de
    by_cases hlt : opt < SIZEOF_PKT
    · rw [if_pos hlt, Reader.parts_bind, Reader.parts_byte, Reader.val_byte, no_campo_append,
        no_campo_um, and_iff_right ⟨h, hlt⟩]
      by_cases he : data opt = OPT_END
      · rw [if_pos he, if_neg fun hc => hc.2 he]
        exact iff_of_true no_campo_nil fun _ ho => absurd ho List.not_mem_nil
      · have hc : opt < SIZEOF_PKT ∧ data opt ≠ OPT_END := ⟨hlt, he⟩
        rw [if_neg he, if_pos hc]
        by_cases hz : data opt = 0
        · rw [if_pos hz, if_pos hz, ih (by omega)]
        · rw [if_neg hz, if_neg hz, Reader.parts_bind, Reader.parts_bind, Reader.parts_byte,
            no_campo_append, no_campo_append, no_campo_um, no_campo_opcao (by omega),
            List.forall_mem_cons, Reader.val_byte, ih (by omega), and_assoc,
            and_iff_right (show OPTIONS ≤ opt + 1 by omega)]
          exact and_assoc.symm
    · rw [if_neg hlt, if_neg fun hc => hlt hc.1]
      exact iff_of_true no_campo_nil fun _ ho => absurd ho List.not_mem_nil

theorem opcoes_laco_mais (h : SIZEOF_PKT < opt + n) (k : Nat) (r : Negociacao × UInt8) :
    opcoes_laco data (n + k) opt r = opcoes_laco data n opt r := by
  induction k with
  | zero => rfl
  | succ k ih => rw [← Nat.add_assoc, opcoes_laco_voltas (by omega), ih]

end Laco

/-- The loop over the options is safe exactly on the messages that have whole options alone. Only the
code of an option is checked against the field. -/
theorem the_options_are_read_safely_iff (m : Mensagem) : OpcoesSeguras m ↔ OpcoesInteiras m := by
  constructor
  · intro h hm o ho
    have hcampo := (no_campo_opcoes (Nat.le_refl OPTIONS)).mp
      (h.no_campo hm (⟨false, false, 0, 0, 0, 0, 0⟩, 0)) o ho
    refine ⟨hcampo.1, fun hpos hinv => ?_⟩
    have h0 := sem_efeito_iff.mp (h.sem_efeito hm o ho hinv)
    omega
  · intro h
    refine ⟨opcoes_laco_mais (by decide), fun hm r => ?_, fun hm o ho hinv => ?_⟩
    · refine (no_campo_opcoes (Nat.le_refl OPTIONS)).mpr fun o ho => ?_
      obtain ⟨hle, hval⟩ := h hm o ho
      refine ⟨hle, fun hpos => ?_⟩
      have hinv := hval hpos
      unfold Invalida at hinv
      omega
    · refine sem_efeito_iff.mpr (Nat.eq_zero_of_not_pos fun hpos => ?_)
      exact (h hm o ho).2 hpos hinv

/-- A message that names its server in an option of no bytes. -/
def servidor_vazio : Mensagem := mensagem 0x0A000001 0x0A000005 [OPT_SERVER_ID, 0, 7, 7, OPT_END]

theorem an_empty_option_sets_the_server : ¬ ∀ m : Mensagem, SIZEOF_PKT ≤ m.len.toNat →
    OpcoesSeguras m := by
  intro h
  have hs := (h servidor_vazio (by decide)).sem_efeito (by decide +kernel) (OPT_SERVER_ID, 242)
    (by decide +kernel) (by decide +kernel)
  exact absurd (sem_efeito_iff.mp hs) (by decide)

end SpaceOS.Dhcp
