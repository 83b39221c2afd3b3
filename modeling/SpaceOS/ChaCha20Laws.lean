-- ChaCha20 against its definition in RFC 8439: what `chacha20_encrypt` writes is the exclusive or
-- of its input and the keystream.
import Mathlib.Data.Fin.VecNotation
import Mathlib.Data.Fintype.Basic
import Mathlib.Tactic.FinCases
import SpaceOS.ChaCha20
import SpaceOS.Lib.Chunks
import SpaceOS.Lib.Words

namespace SpaceOS.ChaCha20

/-! ## RFC 8439 -/

/-- The state as the four by four matrix of section 2.3, by row and column. -/
abbrev Matriz := Fin 4 → Fin 4 → UInt32

/-- Rotation to the left. -/
def rotl (x : UInt32) (n : Nat) : UInt32 := ⟨x.toBitVec.rotateLeft n⟩

/-- The quarter round (2.1). -/
def quarto (v : Fin 4 → UInt32) : Fin 4 → UInt32 :=
  let a := v 0 + v 1
  let d := rotl (v 3 ^^^ a) 16
  let c := v 2 + d
  let b := rotl (v 1 ^^^ c) 12
  let a := a + b
  let d := rotl (d ^^^ a) 8
  let c := c + d
  let b := rotl (b ^^^ c) 7
  ![a, b, c, d]

/-- The column round. -/
def colunas (m : Matriz) : Matriz := fun i j => quarto (fun r => m r j) i

/-- The diagonal round. The diagonal that starts in column `k` has its entry of row `r` in column
`k + r`. -/
def diagonais (m : Matriz) : Matriz := fun i j => quarto (fun r => m r (j - i + r)) i

/-- The little-endian word `i` of a byte string. -/
def palavra_rfc (bs : List UInt8) (i : Nat) : UInt32 :=
  UInt32.ofNat ((bs.getD (4 * i) 0).toNat + (bs.getD (4 * i + 1) 0).toNat * 2 ^ 8 +
    (bs.getD (4 * i + 2) 0).toNat * 2 ^ 16 + (bs.getD (4 * i + 3) 0).toNat * 2 ^ 24)

/-- The initial state of a block (2.3). -/
def inicial (key nonce : List UInt8) (counter : UInt32) : Matriz :=
  ![![0x61707865, 0x3320646e, 0x79622d32, 0x6b206574],
    fun j => palavra_rfc key j, fun j => palavra_rfc key (4 + j),
    ![counter, palavra_rfc nonce 0, palavra_rfc nonce 1, palavra_rfc nonce 2]]

/-- The block function: twenty rounds, and the initial state added. -/
def bloco_rfc (m : Matriz) : Matriz := fun i j => (diagonais ∘ colunas)^[10] m i j + m i j

/-- Byte `n` of the keystream that starts at `counter` (2.4): the blocks are serialised row by row,
each word with its lowest byte first. -/
def fluxo (key nonce : List UInt8) (counter : UInt32) (n : Nat) : UInt8 :=
  let bloco := bloco_rfc (inicial key nonce (counter + UInt32.ofNat (n / 64)))
  let w := bloco (Fin.ofNat 4 (n % 64 / 16)) (Fin.ofNat 4 (n % 64 / 4))
  UInt8.ofNat (w.toNat / 256 ^ (n % 4))

/-! ## The block function -/

theorem ROTL32_eq (v n : UInt32) (h0 : 0 < n.toNat) (hn : n.toNat < 32) :
    ROTL32 v n = rotl v n.toNat := Lib.Words.rotateLeft_eq v n h0 hn

section Lugares

variable (x : Bloco) (p : Fin 4 → Fin 16) (v : Fin 4 → UInt32)

/-- The block with the words of `v` at the places of `p`. -/
def poe : Bloco := (((x.set (p 0) (v 0)).set (p 1) (v 1)).set (p 2) (v 2)).set (p 3) (v 3)

theorem poe_fora {i : Fin 16} (h : ∀ k, p k ≠ i) : (poe x p v).get i = x.get i := by
  change (poe x p v)[i.val] = x[i.val]
  simp only [poe, Vector.getElem_set, Fin.val_inj, h, if_false]

variable {p} (hp : Function.Injective p)
include hp

theorem poe_ler (k : Fin 4) : (poe x p v)[p k] = v k := by
  fin_cases k <;> simp [poe, Fin.val_inj, hp.eq_iff]

theorem poe_igual {y : Bloco} (hv : ∀ k, y[p k] = v k)
    (h : ∀ i, (∀ k, p k ≠ i) → y.get i = x.get i) : y = poe x p v := by
  apply Vector.ext
  intro i hi
  by_cases he : ∃ k, p k = ⟨i, hi⟩
  · obtain ⟨k, hk⟩ := he
    have := hv k
    have := poe_ler x v hp k
    simp_all
  · have he := not_exists.mp he
    exact (h ⟨i, hi⟩ he).trans (poe_fora x p v he).symm

theorem poe_set (k : Fin 4) (e : UInt32) :
    (poe x p v).set (p k) e = poe x p (Function.update v k e) := by
  apply poe_igual _ _ hp
  · intro l
    by_cases hl : l = k
    · simp [hl]
    · have hne : (p k).val ≠ (p l).val := fun hc => hl (hp (Fin.ext hc)).symm
      rw [Fin.getElem_fin, Vector.getElem_set_ne _ _ hne, Function.update_of_ne hl]
      exact poe_ler x v hp l
  · intro i hi
    have hne : (p k).val ≠ i.val := fun hc => hi k (Fin.ext hc)
    have hset : ((poe x p v).set (p k) e).get i = (poe x p v).get i :=
      Vector.getElem_set_ne _ _ hne
    exact hset.trans (poe_fora x p v hi)

theorem QR_eq : QR x (p 0) (p 1) (p 2) (p 3) = poe x p (quarto fun k => x[p k]) := by
  have hx : x = poe x p fun k => x[p k] := poe_igual _ _ hp (fun _ => rfl) fun _ _ => rfl
  conv_lhs => rw [hx]
  simp only [QR, poe_set _ _ hp, poe_ler _ _ hp]
  congr 1
  funext k
  fin_cases k <;> simp [quarto, ROTL32_eq]

theorem QR_ler (k : Fin 4) :
    (QR x (p 0) (p 1) (p 2) (p 3))[p k] = quarto (fun r => x[p r]) k := by
  rw [QR_eq x hp, poe_ler _ _ hp]

theorem QR_fora {i : Fin 16} (h : ∀ k, p k ≠ i) :
    (QR x (p 0) (p 1) (p 2) (p 3)).get i = x.get i := by
  rw [QR_eq x hp, poe_fora _ _ _ h]

end Lugares

/-- Quarter rounds in turn, the one of `j` on the places `p j`. -/
def quartos (p : Fin 4 → Fin 4 → Fin 16) (js : List (Fin 4)) (x : Bloco) : Bloco :=
  js.foldl (fun x j => QR x (p j 0) (p j 1) (p j 2) (p j 3)) x

/-- With places that are all different, each quarter round sees the words it would see alone. -/
theorem quartos_ler {p : Fin 4 → Fin 4 → Fin 16}
    (hp : ∀ j r j' r', p j r = p j' r' → j = j' ∧ r = r') {js : List (Fin 4)} (hj : js.Nodup)
    (x : Bloco) (j r : Fin 4) :
    (quartos p js x)[p j r] =
      if j ∈ js then quarto (fun r => x[p j r]) r else x[p j r] := by
  have hi : ∀ j, Function.Injective (p j) := fun j r r' h => (hp j r j r' h).2
  induction js generalizing x with
  | nil => simp [quartos]
  | cons k js ih =>
    obtain ⟨hk, hj⟩ := List.nodup_cons.mp hj
    have hf : j ≠ k → ∀ r, (QR x (p k 0) (p k 1) (p k 2) (p k 3))[p j r] = x[p j r] :=
      fun hjk r => QR_fora x (hi k) fun l h => hjk (hp _ _ _ _ h).1.symm
    rw [quartos, List.foldl_cons, ← quartos, ih hj]
    by_cases hjk : j = k
    · subst hjk
      simp only [hk, if_false, List.mem_cons_self, if_true]
      exact QR_ler x (hi j) r
    · simp only [List.mem_cons, hjk, false_or, hf hjk]

/-- The place of row `r` and column `j`. -/
def lugar (r j : Fin 4) : Fin 16 := ⟨4 * r + j, by omega⟩

/-- A block as a matrix. -/
def matriz (x : Bloco) : Matriz := fun r j => x[lugar r j]

/-- The column `j`, by row. -/
def coluna (j r : Fin 4) : Fin 16 := lugar r j

/-- The diagonal that starts in column `j`. -/
def diagonal (j r : Fin 4) : Fin 16 := lugar r (j + r)

theorem volta_eq (x : Bloco) :
    volta x = quartos diagonal [0, 1, 2, 3] (quartos coluna [0, 1, 2, 3] x) := by
  simp only [volta, quartos, List.foldl_cons, List.foldl_nil]
  rfl

theorem matriz_volta (x : Bloco) : matriz (volta x) = diagonais (colunas (matriz x)) := by
  have ht : ∀ j : Fin 4, j ∈ [0, 1, 2, 3] := by decide
  have hn : ([0, 1, 2, 3] : List (Fin 4)).Nodup := by decide
  have hs : ∀ j r : Fin 4, j - r + r = j := by decide
  have hc : matriz (quartos coluna [0, 1, 2, 3] x) = colunas (matriz x) := by
    funext r j
    have h := quartos_ler (p := coluna) (by decide) hn x j r
    rw [if_pos (ht j)] at h
    exact h
  funext r j
  have hd := quartos_ler (p := diagonal) (by decide) hn (quartos coluna [0, 1, 2, 3] x) (j - r) r
  rw [if_pos (ht _)] at hd
  simp only [diagonal, hs] at hd
  rw [← hc, volta_eq]
  exact hd

theorem matriz_block (x : Bloco) : matriz (chacha20_block x) = bloco_rfc (matriz x) := by
  have hv : ∀ n, matriz (volta^[n] x) = (diagonais ∘ colunas)^[n] (matriz x) := by
    intro n
    induction n with
    | zero => rfl
    | succ n ih =>
      rw [Function.iterate_succ_apply', Function.iterate_succ_apply', matriz_volta, ih,
        Function.comp_apply]
  funext r j
  rw [bloco_rfc, ← hv]
  simp [matriz, chacha20_block]

/-! ## The keystream -/

theorem palavra_eq (bs : List UInt8) (i : Nat) : palavra bs i = palavra_rfc bs i := by
  rw [palavra, palavra_rfc, ← Lib.Words.toNat_word, UInt32.ofNat_toNat]

theorem matriz_estado (key nonce : List UInt8) (counter : UInt32) :
    matriz (estado key nonce counter) = inicial key nonce counter := by
  funext r j
  simp only [matriz, estado, palavra_eq]
  fin_cases r <;> fin_cases j <;> rfl

theorem matriz_ler (x : Bloco) {n : Nat} (h : n < 64) :
    x[n / 4] = matriz x (Fin.ofNat 4 (n / 16)) (Fin.ofNat 4 (n / 4)) := by
  have hp : (⟨n / 4, by omega⟩ : Fin 16) =
      lugar (Fin.ofNat 4 (n / 16)) (Fin.ofNat 4 (n / 4)) := by
    apply Fin.ext
    simp only [lugar, Fin.ofNat]
    omega
  exact congrArg (fun i : Fin 16 => x[i]) hp

theorem bytes_block (key nonce : List UInt8) (counter : UInt32) {n : Nat} (h : n < 64) :
    (bytes (chacha20_block (estado key nonce counter)))[n]? = some (fluxo key nonce counter n) := by
  have h0 : counter + UInt32.ofNat (n / 64) = counter := by
    rw [Nat.div_eq_of_lt h]
    exact UInt32.add_zero counter
  simp only [bytes, List.getElem?_ofFn, h, dif_pos, matriz_ler _ h, matriz_block, matriz_estado,
    fluxo, h0, Nat.mod_eq_of_lt h, byte,
    Lib.Words.byte_of_word _ (Nat.mod_lt n (by decide : 0 < 4))]

/-- A block later, with the counter one more. -/
theorem fluxo_bloco (key nonce : List UInt8) (counter : UInt32) (k n : Nat) :
    fluxo key nonce counter (n + 64 * k) = fluxo key nonce (counter + UInt32.ofNat k) n := by
  have hd : (n + 64 * k) / 64 = k + n / 64 := by omega
  have hm : (n + 64 * k) % 64 = n % 64 := by omega
  have h4 : (n + 64 * k) % 4 = n % 4 := by omega
  simp only [fluxo, hd, hm, h4, UInt32.ofNat_add, UInt32.add_assoc]

/-- The string, each byte with the byte of the keystream in its place. -/
def xor_fluxo (key nonce : List UInt8) (counter : UInt32) (entrada : List UInt8) : List UInt8 :=
  entrada.mapIdx fun n b => b ^^^ fluxo key nonce counter n

theorem xor_fluxo_blocos (key nonce : List UInt8) (counter : UInt32) (entrada : List UInt8)
    (k : Nat) :
    xor_fluxo key nonce counter entrada =
      xor_fluxo key nonce counter (entrada.take (64 * k)) ++
        xor_fluxo key nonce (counter + UInt32.ofNat k) (entrada.drop (64 * k)) := by
  by_cases hk : 64 * k ≤ entrada.length
  · have hl : (entrada.take (64 * k)).length = 64 * k := List.length_take_of_le hk
    conv_lhs => rw [← List.take_append_drop (64 * k) entrada]
    simp only [xor_fluxo, List.mapIdx_append, hl, fluxo_bloco]
  · have hk := Nat.le_of_not_le hk
    rw [List.take_of_length_le hk, List.drop_of_length_le hk]
    simp [xor_fluxo]

/-- What one turn of the outer loop writes. -/
theorem mistura_fluxo (key nonce : List UInt8) (counter : UInt32) (entrada : List UInt8) :
    List.zipWith (· ^^^ ·) entrada (bytes (chacha20_block (estado key nonce counter))) =
      xor_fluxo key nonce counter (entrada.take 64) := by
  apply List.ext_getElem
  · simp [xor_fluxo, Nat.min_comm]
  · intro n h1 h2
    have hn : n < 64 := by
      rw [List.length_zipWith, bytes_length] at h1
      omega
    have hb := bytes_block key nonce counter hn
    rw [List.getElem?_eq_some_iff] at hb
    obtain ⟨_, hb⟩ := hb
    simp [xor_fluxo, hb]

theorem laco_eq (key nonce : List UInt8) (counter : UInt32) (entrada : List UInt8) :
    laco (estado key nonce counter) entrada = xor_fluxo key nonce counter entrada := by
  induction entrada using Lib.Chunks.chunks_induction (n := 64) (by decide)
    generalizing counter with
  | nil => simp [laco, xor_fluxo]
  | step entrada h ih =>
    have hset : ∀ c, (estado key nonce counter).set 12 c = estado key nonce c := fun _ => rfl
    rw [laco, dif_neg h]
    simp only [mistura_eq, bytes_length, hset, mistura_fluxo]
    rw [ih, xor_fluxo_blocos key nonce counter entrada 1, Nat.mul_one]
    rfl

/-! ## Laws -/

/-- `chacha20_encrypt` is the exclusive or with the keystream; so twice is the identity, and a
string may be encrypted in two pieces cut between blocks. -/
theorem chacha20_encrypt_fluxo (key nonce : List UInt8) (counter : UInt32) (entrada : List UInt8) :
    chacha20_encrypt key nonce counter entrada =
        entrada.mapIdx (fun n b => b ^^^ fluxo key nonce counter n) ∧
      chacha20_encrypt key nonce counter (chacha20_encrypt key nonce counter entrada) = entrada ∧
      ∀ k, chacha20_encrypt key nonce counter entrada =
        chacha20_encrypt key nonce counter (entrada.take (64 * k)) ++
          chacha20_encrypt key nonce (counter + UInt32.ofNat k) (entrada.drop (64 * k)) := by
  have he : ∀ counter entrada,
      chacha20_encrypt key nonce counter entrada = xor_fluxo key nonce counter entrada :=
    fun counter entrada => laco_eq key nonce counter entrada
  refine ⟨he counter entrada, ?_, fun k => ?_⟩
  · rw [he, he]
    apply List.ext_getElem
    · simp [xor_fluxo]
    · intro n _ _
      simp only [xor_fluxo, List.getElem_mapIdx, UInt8.xor_assoc, UInt8.xor_self, UInt8.xor_zero]
  · rw [he, he, he]
    exact xor_fluxo_blocos key nonce counter entrada k

end SpaceOS.ChaCha20
