-- What the DNS handler reads of a datagram. The walk over names and records is stated on the bytes
-- alone, and the handler stays inside exactly where the address that this walk comes to does.
import SpaceOS.Dns
import SpaceOS.FrameReads

open Lib.Bytes Lib.Footprint SpaceOS.Net

namespace SpaceOS.Dns

/-! ## The walk on the bytes -/

/-- The labels from `p` on end at `q`: at the root, behind a pointer, or at the end of the
datagram. -/
inductive FimRotulos (m : Memory) (fim : Nat) : Nat → Nat → Prop
  | borda {p : Nat} (h : fim ≤ p) : FimRotulos m fim p p
  | raiz {p : Nat} (h : p < fim) (hz : m p = 0) : FimRotulos m fim p p
  | ponteiro {p : Nat} (h : p < fim) (hp : m p &&& 0xC0 = 0xC0) : FimRotulos m fim p (p + 2)
  | rotulo {p q : Nat} (h : p < fim) (hz : m p ≠ 0) (hp : m p &&& 0xC0 ≠ 0xC0)
      (hq : FimRotulos m fim (p + (m p).toNat + 1) q) : FimRotulos m fim p q

/-- The question at `p` ends at `q`. The root is a byte of its own, a pointer is not. -/
def FimPergunta (m : Memory) (fim p q : Nat) : Prop :=
  ∃ r, FimRotulos m fim p r ∧ q = if r < fim ∧ m r = 0 then r + 1 + 4 else r + 4

/-- The name of the record at `p` ends at `q`. -/
def FimNome (m : Memory) (fim p q : Nat) : Prop :=
  if m p &&& 0xC0 = 0xC0 then q = p + 2 else ∃ r, FimRotulos m fim p r ∧ q = r + 1

/-- The fields at `q` are those of an address: type A, class IN and four bytes of data. -/
def EhEndereco (m : Memory) (q : Nat) : Prop :=
  campo16 m q = 1 ∧ campo16 m (q + 2) = 1 ∧ campo16 m (q + 8) = 4

instance (m : Memory) (q : Nat) : Decidable (EhEndereco m q) :=
  inferInstanceAs (Decidable (_ ∧ _ ∧ _))

/-- Of the `n` records from `p` on, the fields of one lie at `q` and no address comes before it. -/
def Chega (m : Memory) (fim : Nat) : Nat → Nat → Nat → Prop
  | 0, _, _ => False
  | n + 1, p, q => p < fim ∧ ∃ r, FimNome m fim p r ∧ r + 10 ≤ fim ∧
      (q = r ∨ ¬ EhEndereco m r ∧ Chega m fim n (r + 10 + (campo16 m (r + 8)).toNat) q)

/-- The datagram is a response to the query. -/
def EhResposta (s : Consulta) (len : UInt16) (m : Memory) : Prop :=
  SIZEOF_HDR ≤ len.toNat ∧ campo16 m 0 = s.dns_query_id ∧ campo16 m 2 &&& 0x8000 ≠ 0

/-- In a response to the query, the first address lies in the datagram with its four bytes. -/
def EnderecoInteiro (s : Consulta) (len : UInt16) (m : Memory) : Prop :=
  EhResposta s len m → ∀ p q, FimPergunta m len.toNat SIZEOF_HDR p →
    Chega m len.toNat (campo16 m 6).toNat p q → EhEndereco m q → q + 14 ≤ len.toNat

/-! ## Names -/

section Nomes

variable {m : Memory} {fim n p q : Nat}

theorem sem_marca_zero : ¬ (0 : UInt8) &&& 0xC0 = 0xC0 := by decide

theorem dentro_pula_rotulos : Dentro (pula_rotulos fim n p) m fim := by
  induction n generalizing p with
  | zero => exact dentro_pure p
  | succ n ih =>
    unfold pula_rotulos
    rw [dentro_ite]
    refine ⟨fun hp => ?_, fun _ => dentro_pure p⟩
    rw [dentro_bind, dentro_byte, dentro_ite, dentro_ite]
    exact ⟨hp, fun _ => dentro_pure _, fun _ => ⟨fun _ => dentro_pure _, fun _ => ih⟩⟩

/-- With turns for all of the bytes that are left, the loop comes to the end of the labels. -/
theorem fim_rotulos_iff (hn : fim ≤ p + n) :
    FimRotulos m fim p q ↔ q = (pula_rotulos fim n p).val m := by
  induction n generalizing p with
  | zero =>
    constructor
    · intro h
      cases h with
      | borda => rfl
      | raiz => rfl
      | ponteiro h => omega
      | rotulo h => omega
    · rintro rfl
      exact .borda hn
  | succ n ih =>
    unfold pula_rotulos
    by_cases hp : p < fim
    · rw [if_pos hp, Reader.val_bind, Reader.val_byte]
      by_cases hz : m p = 0
      · rw [if_pos hz]
        constructor
        · intro h
          cases h with
          | borda => rfl
          | raiz => rfl
          | ponteiro _ hm => exact absurd (hz ▸ hm) sem_marca_zero
          | rotulo _ hz' => exact absurd hz hz'
        · rintro rfl
          exact .raiz hp hz
      · rw [if_neg hz]
        by_cases hm : m p &&& 0xC0 = 0xC0
        · rw [if_pos hm]
          constructor
          · intro h
            cases h with
            | borda h => omega
            | raiz _ hz' => exact absurd hz' hz
            | ponteiro => rfl
            | rotulo _ _ hm' => exact absurd hm hm'
          · rintro rfl
            exact .ponteiro hp hm
        · rw [if_neg hm, ← ih (by omega)]
          constructor
          · intro h
            cases h with
            | borda h => omega
            | raiz _ hz' => exact absurd hz' hz
            | ponteiro _ hm' => exact absurd hm' hm
            | rotulo _ _ _ hq => exact hq
          · exact .rotulo hp hz hm
    · rw [if_neg hp]
      constructor
      · intro h
        cases h with
        | borda => rfl
        | raiz h => exact absurd h hp
        | ponteiro h => exact absurd h hp
        | rotulo h => exact absurd h hp
      · rintro rfl
        exact .borda (Nat.le_of_not_lt hp)

/-- More turns than that change nothing. -/
theorem run_pula_rotulos (hn : fim ≤ p + n) (k : Nat) :
    (pula_rotulos fim (n + k) p).run m = (pula_rotulos fim n p).run m := by
  induction n generalizing p with
  | zero =>
    cases k with
    | zero => rfl
    | succ k =>
      rw [Nat.zero_add]
      unfold pula_rotulos
      rw [if_neg (show ¬ p < fim by omega)]
  | succ n ih =>
    rw [Nat.succ_add, pula_rotulos, pula_rotulos]
    split
    · refine Reader.run_bind_congr ?_
      split
      · rfl
      · split
        · rfl
        · exact ih (by omega)
    · rfl

theorem fim_pergunta_iff : FimPergunta m fim p q ↔ q = (pula_pergunta fim p).val m := by
  unfold FimPergunta pula_pergunta
  rw [Reader.val_bind]
  have hr : ∀ r, FimRotulos m fim p r ↔ r = (pula_rotulos fim fim p).val m :=
    fun r => fim_rotulos_iff (Nat.le_add_left fim p)
  simp only [hr, exists_eq_left]
  generalize (pula_rotulos fim fim p).val m = r
  by_cases hlt : r < fim
  · rw [if_pos hlt, Reader.val_bind, Reader.val_byte]
    by_cases hz : m r = 0
    · rw [if_pos ⟨hlt, hz⟩, if_pos hz]
      rfl
    · rw [if_neg fun h => hz h.2, if_neg hz]
      rfl
  · rw [if_neg fun h => hlt h.1, if_neg hlt]
    rfl

theorem dentro_pula_pergunta : Dentro (pula_pergunta fim p) m fim := by
  unfold pula_pergunta
  rw [dentro_bind, dentro_ite]
  refine ⟨dentro_pula_rotulos, fun hlt => ?_, fun _ => dentro_pure _⟩
  rw [dentro_bind, dentro_byte, dentro_ite]
  exact ⟨hlt, fun _ => dentro_pure _, fun _ => dentro_pure _⟩

theorem fim_nome_iff : FimNome m fim p q ↔ q = (pula_nome fim p).val m := by
  unfold FimNome pula_nome
  rw [Reader.val_bind, Reader.val_byte, Reader.val_ite]
  split
  · rfl
  · have hr : ∀ r, FimRotulos m fim p r ↔ r = (pula_rotulos fim fim p).val m :=
      fun r => fim_rotulos_iff (Nat.le_add_left fim p)
    simp only [hr, exists_eq_left]
    rfl

theorem dentro_pula_nome (hp : p < fim) : Dentro (pula_nome fim p) m fim := by
  unfold pula_nome
  rw [dentro_bind, dentro_byte, dentro_ite, dentro_bind]
  exact ⟨hp, fun _ => dentro_pure _, fun _ => ⟨dentro_pula_rotulos, dentro_pure _⟩⟩

end Nomes

/-! ## Records -/

section Registros

variable {m : Memory} {fim n p : Nat}

/-- The loop over the records checks all that it reads but the address. -/
theorem dentro_respostas : Dentro (respostas fim n p) m fim ↔
    ∀ q, Chega m fim n p q → EhEndereco m q → q + 14 ≤ fim := by
  induction n generalizing p with
  | zero => exact iff_of_true (dentro_pure _) fun q h => h.elim
  | succ n ih =>
    simp only [respostas, Chega, fim_nome_iff, exists_eq_left, dentro_ite]
    by_cases hp : p < fim
    · generalize hr : (pula_nome fim p).val m = r
      rw [dentro_bind, hr, dentro_ite]
      by_cases h10 : r + 10 ≤ fim
      · simp only [dentro_bind, dentro_half16, dentro_ite, dentro_word32, dentro_pure, and_true]
        -- the fields that the loop tests are those of `EhEndereco`
        change (_ → _ ∧ (_ → _) ∧ (_ → _ ∧ _ ∧ _ ∧ (EhEndereco m r → r + 10 + 4 ≤ fim) ∧
          (¬ EhEndereco m r → Dentro (respostas fim n (r + 10 + (campo16 m (r + 8)).toNat)) m fim))) ∧
          (_ → _) ↔ _
        rw [ih]
        constructor
        · rintro ⟨h, -⟩ q ⟨-, -, rfl | ⟨hA, hq⟩⟩ hqA
          · exact ((h hp).2.2 (by omega)).2.2.2.1 hqA
          · exact ((h hp).2.2 (by omega)).2.2.2.2 hA q hq hqA
        · intro h
          refine ⟨fun _ => ⟨dentro_pula_nome hp, fun _ => trivial, fun _ => ⟨by omega, by omega,
            by omega, fun hA => h r ⟨hp, h10, Or.inl rfl⟩ hA,
            fun hA q hq => h q ⟨hp, h10, Or.inr ⟨hA, hq⟩⟩⟩⟩, fun hnp => absurd hp hnp⟩
      · refine iff_of_true ⟨fun _ => ⟨dentro_pula_nome hp, fun _ => dentro_pure _, fun h => ?_⟩,
          fun hnp => absurd hp hnp⟩ fun q h => absurd h.2.1 h10
        exact absurd (Nat.le_of_not_lt h) h10
    · exact iff_of_true ⟨fun h => absurd h hp, fun _ => dentro_pure _⟩ fun q h => absurd h.1 hp

end Registros

/-! ## The handler -/

/-- The handler ends, and reads no byte behind the datagram. -/
structure LeDentro (s : Consulta) (len : UInt16) (m : Memory) : Prop where
  termina : ∀ k p, (pula_rotulos len.toNat (len.toNat + k) p).run m =
    (pula_rotulos len.toNat len.toNat p).run m
  dentro : Dentro (dns_handler s len) m len.toNat

section Handler

variable {s : Consulta} {len : UInt16} {m : Memory}

theorem dentro_dns_handler : Dentro (dns_handler s len) m len.toNat ↔ EnderecoInteiro s len m := by
  have hhdr : SIZEOF_HDR = 12 := rfl
  unfold dns_handler EnderecoInteiro EhResposta
  by_cases hs : len.toNat < SIZEOF_HDR
  · rw [if_pos hs]
    exact iff_of_true (dentro_pure _) fun h => absurd h.1 (Nat.not_le.mpr hs)
  · rw [if_neg hs]
    simp only [dentro_bind, dentro_half16, dentro_ite, dentro_pure, dentro_respostas,
      dentro_pula_pergunta, fim_pergunta_iff, implies_true, true_and, not_not]
    have hc : ∀ a, ntohs ((Reader.half16 a).val m) = campo16 m a := fun _ => rfl
    simp only [hc]
    constructor
    · rintro ⟨-, h⟩ ⟨-, hid, hflags⟩ p q rfl hq
      refine (((h hid).2 hflags).2 ?_).1 q hq
      intro h0
      rw [h0] at hq
      exact hq
    · intro h
      refine ⟨by omega, fun hid => ⟨by omega, fun hflags => ⟨by omega, fun _ => ⟨?_, ?_⟩⟩⟩⟩
      · intro q hq
        exact h ⟨by omega, hid, hflags⟩ _ q rfl hq
      · split <;> exact dentro_pure _

/-- The handler stays in the datagram exactly where the first address does. The check before the
fields of a record leaves out the data behind them. -/
theorem the_handler_stays_in_the_datagram_iff_the_address_does :
    LeDentro s len m ↔ EnderecoInteiro s len m :=
  ⟨fun h => dentro_dns_handler.mp h.dentro, fun h =>
    ⟨fun k p => run_pula_rotulos (Nat.le_add_left _ p) k, dentro_dns_handler.mpr h⟩⟩

end Handler

/-- A response to the query 1 that ends where the address of its record begins. -/
def resposta_cortada : List UInt8 :=
  [0, 1, 0x81, 0x80, 0, 1, 0, 1, 0, 0, 0, 0] ++ [0, 0, 1, 0, 1] ++
    [0xC0, 12, 0, 1, 0, 1, 0, 0, 0, 60, 0, 4]

theorem a_cut_address_is_read_behind_the_datagram :
    ¬ ∀ (s : Consulta) (len : UInt16) (m : Memory), LeDentro s len m := by
  intro h
  have hd := (h ⟨0, 0, 1⟩ 29 (memoria resposta_cortada)).dentro
  exact absurd (hd ⟨29, 4⟩ (by decide)) (by decide)

end SpaceOS.Dns
