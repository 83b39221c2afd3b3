-- SHA-256 against FIPS 180-4: whatever the chunks of a message, the streaming interface gives its
-- digest.
import Mathlib.Data.Fin.VecNotation
import Mathlib.Data.Fintype.Basic
import Mathlib.Data.Nat.NthRoot.Defs
import Mathlib.Tactic.FinCases
import Mathlib.Tactic.IntervalCases
import SpaceOS.Sha256
import SpaceOS.Lib.Chunks
import SpaceOS.Lib.Words

namespace SpaceOS.Sha256

open Lib.Chunks Lib.Words

/-! ## FIPS 180-4 -/

/-- The first 64 primes. -/
def primos : List Nat :=
  (List.range 312).filter fun n => 2 ≤ n && (List.range n).all fun m => m < 2 || n % m != 0

/-- The first 32 bits of the fractional part of the square root of a prime (5.3.3). -/
def H0 (i : Nat) : UInt32 := UInt32.ofNat (Nat.nthRoot 2 (primos.getD i 0 * 2 ^ 64))

/-- The same of its cube root (4.2.2). -/
def K (t : Nat) : UInt32 := UInt32.ofNat (Nat.nthRoot 3 (primos.getD t 0 * 2 ^ 96))

def ROTR (n : Nat) (x : UInt32) : UInt32 := ⟨x.toBitVec.rotateRight n⟩

def Ch (x y z : UInt32) : UInt32 := (x &&& y) ^^^ (~~~x &&& z)

def Maj (x y z : UInt32) : UInt32 := (x &&& y) ^^^ (x &&& z) ^^^ (y &&& z)

def Sigma0 (x : UInt32) : UInt32 := ROTR 2 x ^^^ ROTR 13 x ^^^ ROTR 22 x

def Sigma1 (x : UInt32) : UInt32 := ROTR 6 x ^^^ ROTR 11 x ^^^ ROTR 25 x

def sigma0 (x : UInt32) : UInt32 := ROTR 7 x ^^^ ROTR 18 x ^^^ UInt32.ofNat (x.toNat / 2 ^ 3)

def sigma1 (x : UInt32) : UInt32 := ROTR 17 x ^^^ ROTR 19 x ^^^ UInt32.ofNat (x.toNat / 2 ^ 10)

/-- Word `t` of a block (5.2.1): big-endian. -/
def M (bloco : List UInt8) (t : Nat) : UInt32 :=
  UInt32.ofNat ((bloco.getD (4 * t) 0).toNat * 2 ^ 24 + (bloco.getD (4 * t + 1) 0).toNat * 2 ^ 16 +
    (bloco.getD (4 * t + 2) 0).toNat * 2 ^ 8 + (bloco.getD (4 * t + 3) 0).toNat)

/-- The message schedule (6.2.2, step 1). -/
def W (bloco : List UInt8) (t : Nat) : UInt32 :=
  if t < 16 then M bloco t
  else sigma1 (W bloco (t - 2)) + W bloco (t - 7) + sigma0 (W bloco (t - 15)) + W bloco (t - 16)
termination_by t

/-- The working variables `a` to `h`. -/
abbrev Variaveis := Fin 8 → UInt32

/-- Step 3. -/
def passo (bloco : List UInt8) (v : Variaveis) (t : Nat) : Variaveis :=
  let T1 := v 7 + Sigma1 (v 4) + Ch (v 4) (v 5) (v 6) + K t + W bloco t
  let T2 := Sigma0 (v 0) + Maj (v 0) (v 1) (v 2)
  ![T1 + T2, v 0, v 1, v 2, v 3 + T1, v 4, v 5, v 6]

/-- The next hash value (step 4). -/
def comprime (H : Variaveis) (bloco : List UInt8) : Variaveis := fun i =>
  H i + (List.range 64).foldl (passo bloco) H i

/-- The number `n` in 64 bits, big-endian. -/
def be64 (n : Nat) : List UInt8 := List.ofFn fun k : Fin 8 => UInt8.ofNat (n / 256 ^ (7 - k.val))

/-- Padding (5.1.1): the bit 1, zeros up to 8 bytes before the end of a block, and the length in
bits. -/
def preenche (m : List UInt8) : List UInt8 :=
  m ++ 0x80 :: List.replicate ((119 - m.length % 64) % 64) 0 ++ be64 (8 * m.length)

/-- The digest of a message (6.2). -/
def fips (m : List UInt8) : List UInt8 :=
  let H := (chunks 64 (preenche m)).foldl comprime fun i => H0 i
  (List.finRange 8).flatMap fun i =>
    List.ofFn fun k : Fin 4 => UInt8.ofNat ((H i).toNat / 256 ^ (3 - k.val))

/-! ## The compression -/

theorem ROR32_eq (x n : UInt32) (h0 : 0 < n.toNat) (hn : n.toNat < 32) :
    Tls.ROR32 x n = ROTR n.toNat x := rotateRight_eq x n h0 hn

theorem EP0_eq (x : UInt32) : Tls.EP0 x = Sigma0 x := by
  simp [Tls.EP0, Sigma0, ROR32_eq]

theorem EP1_eq (x : UInt32) : Tls.EP1 x = Sigma1 x := by
  simp [Tls.EP1, Sigma1, ROR32_eq]

theorem shr_eq (x n : UInt32) (hn : n.toNat < 32) :
    x >>> n = UInt32.ofNat (x.toNat / 2 ^ n.toNat) := by
  rw [← toNat_shr x n hn, UInt32.ofNat_toNat]

theorem SIG0_eq (x : UInt32) : Tls.SIG0 x = sigma0 x := by
  simp [Tls.SIG0, sigma0, ROR32_eq, shr_eq]

theorem SIG1_eq (x : UInt32) : Tls.SIG1 x = sigma1 x := by
  simp [Tls.SIG1, sigma1, ROR32_eq, shr_eq]

theorem primos_eq : primos =
    [2, 3, 5, 7, 11, 13, 17, 19, 23, 29, 31, 37, 41, 43, 47, 53, 59, 61, 67, 71, 73, 79, 83,
     89, 97, 101, 103, 107, 109, 113, 127, 131, 137, 139, 149, 151, 157, 163, 167, 173, 179,
     181, 191, 193, 197, 199, 211, 223, 227, 229, 233, 239, 241, 251, 257, 263, 269, 271,
     277, 281, 283, 293, 307, 311] := by
  decide +kernel

theorem sha256_k_eq : ∀ t < 64, Tls.sha256_k.getD t 0 = K t := by
  simp only [K, primos_eq]
  decide +kernel

theorem inicio_eq : ∀ i < 8,
    [Tls.sha256_init.state.a, Tls.sha256_init.state.b, Tls.sha256_init.state.c,
      Tls.sha256_init.state.d, Tls.sha256_init.state.e, Tls.sha256_init.state.f,
      Tls.sha256_init.state.g, Tls.sha256_init.state.h].getD i 0 = H0 i := by
  simp only [H0, primos_eq]
  decide +kernel

theorem or_inverte (x y z w : UInt32) : x ||| y ||| z ||| w = w ||| z ||| y ||| x := by
  rw [UInt32.or_comm _ w, UInt32.or_comm _ z, UInt32.or_comm x y, ← UInt32.or_assoc,
    ← UInt32.or_assoc]

theorem palavra_eq (bloco : List UInt8) (t : Nat) : Tls.palavra bloco (4 * t) = M bloco t := by
  have hw := toNat_word (bloco.getD (4 * t + 3) 0) (bloco.getD (4 * t + 2) 0)
    (bloco.getD (4 * t + 1) 0) (bloco.getD (4 * t) 0)
  have ho : Tls.palavra bloco (4 * t) = (bloco.getD (4 * t + 3) 0).toUInt32 |||
      (bloco.getD (4 * t + 2) 0).toUInt32 <<< 8 ||| (bloco.getD (4 * t + 1) 0).toUInt32 <<< 16 |||
      (bloco.getD (4 * t) 0).toUInt32 <<< 24 := or_inverte _ _ _ _
  apply UInt32.toNat_inj.mp
  have hl := (Tls.palavra bloco (4 * t)).toNat_lt
  rw [ho, hw] at hl
  rw [ho, hw, M, UInt32.toNat_ofNat', Nat.mod_eq_of_lt (by omega)]
  omega

/-- One word more of `w`. -/
def empurra (w : Array UInt32) (i : Nat) : Array UInt32 :=
  w.push (Tls.SIG1 (w.getD (i + 14) 0) + w.getD (i + 9) 0 + Tls.SIG0 (w.getD (i + 1) 0) +
    w.getD i 0)

/-- `w` after `n` turns of its second loop. -/
def parcial (bloco : List UInt8) (n : Nat) : Array UInt32 :=
  (List.range n).foldl empurra ((List.range 16).map fun i => Tls.palavra bloco (4 * i)).toArray

theorem parcial_succ (bloco : List UInt8) (n : Nat) :
    parcial bloco (n + 1) = empurra (parcial bloco n) n := by
  rw [parcial, parcial, List.range_succ (n := n), List.foldl_append]
  rfl

/-- The words so far are those of the schedule. -/
theorem parcial_eq (bloco : List UInt8) (n : Nat) :
    (parcial bloco n).size = n + 16 ∧ ∀ t < n + 16, (parcial bloco n).getD t 0 = W bloco t := by
  induction n with
  | zero =>
    refine ⟨by rw [parcial, List.range_zero, List.foldl_nil, List.size_toArray, List.length_map,
      List.length_range], fun t ht => ?_⟩
    have ht : t < 16 := by omega
    rw [W, if_pos ht, ← palavra_eq, parcial, List.range_zero, List.foldl_nil,
      Array.getD_eq_getD_getElem?, List.getElem?_toArray, List.getElem?_map,
      List.getElem?_range ht]
    rfl
  | succ n ih =>
    obtain ⟨hs, hw⟩ := ih
    rw [parcial_succ]
    refine ⟨by rw [empurra, Array.size_push, hs, Nat.succ_add], fun t ht => ?_⟩
    rw [empurra, Array.getD_eq_getD_getElem?, Array.getElem?_push, hs]
    by_cases hn : t = n + 16
    · rw [if_pos hn, Option.getD_some, W, if_neg (by omega), hw _ (by omega), hw _ (by omega),
        hw _ (by omega), hw _ (by omega), SIG0_eq, SIG1_eq, hn]
      rfl
    · rw [if_neg hn, ← Array.getD_eq_getD_getElem?]
      exact hw t (by omega)

/-- The eight words of the state, as the standard numbers them. -/
def vetor (s : Tls.Sha) : Variaveis := ![s.a, s.b, s.c, s.d, s.e, s.f, s.g, s.h]

theorem rodada_eq (bloco : List UInt8) (s : Tls.Sha) {t : Nat} (ht : t < 64) :
    vetor (Tls.rodada (Tls.agenda bloco) s t) = passo bloco (vetor s) t := by
  have hw : (Tls.agenda bloco).getD t 0 = W bloco t := (parcial_eq bloco 48).2 t ht
  funext i
  simp only [Tls.rodada, hw, sha256_k_eq t ht, EP0_eq, EP1_eq]
  fin_cases i <;> rfl

theorem rodadas_eq (bloco : List UInt8) (s : Tls.Sha) {n : Nat} (hn : n ≤ 64) :
    vetor ((List.range n).foldl (Tls.rodada (Tls.agenda bloco)) s) =
      (List.range n).foldl (passo bloco) (vetor s) := by
  induction n with
  | zero => rfl
  | succ n ih =>
    simp only [List.range_succ, List.foldl_append, List.foldl_cons, List.foldl_nil]
    rw [rodada_eq bloco _ hn, ih (Nat.le_of_succ_le hn)]

theorem transform_eq (bloco : List UInt8) (s : Tls.Sha) :
    vetor (Tls.sha256_transform s bloco) = comprime (vetor s) bloco := by
  funext i
  rw [comprime, ← rodadas_eq bloco s (Nat.le_refl 64), Tls.sha256_transform]
  fin_cases i <;> rfl

/-! ## The bytes of a message -/

/-- The context after the message `m`: `cheios` are the whole blocks, `resto` is in the buffer. -/
structure Absorveu (ctx : Tls.Ctx) (m cheios resto : List UInt8) : Prop where
  partes : m = cheios ++ resto
  menor : resto.length < 64
  inteiros : ∃ k, cheios.length = 64 * k
  buf : ctx.buf = resto
  count : ctx.count = UInt64.ofNat m.length
  state : vetor ctx.state = (chunks 64 cheios).foldl comprime fun i => H0 i

theorem absorveu_init : Absorveu Tls.sha256_init [] [] [] where
  partes := rfl
  menor := by decide
  inteiros := ⟨0, rfl⟩
  buf := rfl
  count := rfl
  state := by
    funext i
    rw [chunks_nil, List.foldl_nil, ← inicio_eq i i.isLt]
    fin_cases i <;> rfl

theorem chunks_bloco {b : List UInt8} (h : b.length = 64) : chunks 64 b = [b] := by
  have hn : b ≠ [] := List.length_pos_iff.mp (by omega)
  rw [chunks_of_ne_nil (by decide) hn, List.take_of_length_le (Nat.le_of_eq h),
    List.drop_of_length_le (Nat.le_of_eq h), chunks_nil]

theorem absorveu_byte {ctx : Tls.Ctx} {m cheios resto : List UInt8}
    (h : Absorveu ctx m cheios resto) (b : UInt8) :
    ∃ cheios' resto', Absorveu (Tls.update_byte ctx b) (m ++ [b]) cheios' resto' := by
  obtain ⟨hp, hr, ⟨k, hk⟩, hb, hc, hs⟩ := h
  have hn : ctx.count + 1 = UInt64.ofNat (m ++ [b]).length := by
    rw [hc, List.length_append, UInt64.ofNat_add]
    rfl
  by_cases hl : (ctx.buf ++ [b]).length = 64
  · refine ⟨cheios ++ (ctx.buf ++ [b]), [], ⟨?_, by decide, ⟨k + 1, ?_⟩, ?_, ?_, ?_⟩⟩
    · rw [hp, hb, List.append_nil, List.append_assoc]
    · rw [List.length_append, hl, hk, Nat.mul_succ]
    · simp only [Tls.update_byte, if_pos hl]
    · simp only [Tls.update_byte, if_pos hl]
      exact hn
    · simp only [Tls.update_byte, if_pos hl]
      rw [transform_eq, hs, chunks_append _ (by decide) hk, chunks_bloco hl, List.foldl_append]
      rfl
  · have hl' : (ctx.buf ++ [b]).length < 64 := by
      rw [List.length_append, hb] at hl ⊢
      simp only [List.length_cons, List.length_nil] at hl ⊢
      omega
    refine ⟨cheios, ctx.buf ++ [b], ⟨?_, hl', ⟨k, hk⟩, ?_, ?_, ?_⟩⟩
    · rw [hp, hb, List.append_assoc]
    · simp only [Tls.update_byte, if_neg hl]
    · simp only [Tls.update_byte, if_neg hl]
      exact hn
    · simp only [Tls.update_byte, if_neg hl]
      exact hs

theorem absorveu_update (data : List UInt8) {ctx : Tls.Ctx} {m cheios resto : List UInt8}
    (h : Absorveu ctx m cheios resto) :
    ∃ cheios' resto', Absorveu (Tls.sha256_update ctx data) (m ++ data) cheios' resto' := by
  induction data generalizing ctx m cheios resto with
  | nil => exact ⟨cheios, resto, by rwa [List.append_nil]⟩
  | cons b data ih =>
    obtain ⟨cheios', resto', h'⟩ := absorveu_byte h b
    obtain ⟨cheios'', resto'', h''⟩ := ih h'
    exact ⟨cheios'', resto'', by rwa [List.append_assoc] at h''⟩

/-! ## The digest -/

/-- The bytes of the state. -/
def resumo (H : Variaveis) : List UInt8 :=
  (List.finRange 8).flatMap fun i =>
    List.ofFn fun k : Fin 4 => UInt8.ofNat ((H i).toNat / 256 ^ (3 - k.val))

theorem be32_eq (w : UInt32) :
    Tls.be32 w = List.ofFn fun k : Fin 4 => UInt8.ofNat (w.toNat / 256 ^ (3 - k.val)) := by
  have h0 : w.toUInt8 = UInt8.ofNat (w.toNat / 256 ^ 0) := by
    rw [Nat.pow_zero, Nat.div_one]
    rfl
  have h1 := byte_of_word w (k := 1) (by decide)
  have h2 := byte_of_word w (k := 2) (by decide)
  have h3 := byte_of_word w (k := 3) (by decide)
  exact congrArg₂ List.cons h3 (congrArg₂ List.cons h2 (congrArg₂ List.cons h1
    (congrArg (· :: []) h0)))

theorem resumo_vetor (s : Tls.Sha) :
    resumo (vetor s) = Tls.be32 s.a ++ Tls.be32 s.b ++ Tls.be32 s.c ++ Tls.be32 s.d ++
      Tls.be32 s.e ++ Tls.be32 s.f ++ Tls.be32 s.g ++ Tls.be32 s.h := by
  simp only [be32_eq, List.append_assoc]
  rfl

/-- The eight bytes of the length. -/
theorem byte_do_tamanho (bits : UInt64) {n j : Nat} (h : bits.toNat = n % 2 ^ 64) (hj : j < 8) :
    (bits >>> UInt64.ofNat (8 * j)).toUInt8 = UInt8.ofNat (n / 256 ^ j) := by
  have hk : (UInt64.ofNat (8 * j)).toNat = 8 * j := UInt64.toNat_ofNat_of_lt' (by
    show _ < 2 ^ 64
    omega)
  apply toUInt8_shr64 _ _ (by omega)
  rw [hk, h, Nat.pow_mul]
  interval_cases j <;> simp only [Nat.reducePow] <;> omega

theorem be64_eq (bits : UInt64) {n : Nat} (h : bits.toNat = n % 2 ^ 64) :
    (List.range 8).map (fun k => (bits >>> UInt64.ofNat (56 - k * 8)).toUInt8) = be64 n := by
  apply List.ext_getElem
  · rw [List.length_map, List.length_range, be64, List.length_ofFn]
  · intro k h1 _
    rw [List.length_map, List.length_range] at h1
    have hj := byte_do_tamanho bits h (j := 7 - k) (by omega)
    rw [show 8 * (7 - k) = 56 - k * 8 by omega] at hj
    simp only [List.getElem_map, List.getElem_range, hj, be64, List.getElem_ofFn]

theorem be64_length (n : Nat) : (be64 n).length = 8 := List.length_ofFn

theorem be32_de {w : UInt32} {n j : Nat} (h : w.toNat = n / 256 ^ j % 2 ^ 32) :
    Tls.be32 w = List.ofFn fun k : Fin 4 => UInt8.ofNat (n / 256 ^ (j + (3 - k.val))) := by
  rw [be32_eq, h]
  congr 1
  funext k
  apply UInt8.toNat_inj.mp
  rw [UInt8.toNat_ofNat', UInt8.toNat_ofNat', Nat.pow_add, ← Nat.div_div_eq_div_mul]
  generalize n / 256 ^ j = q
  fin_cases k <;> simp only [Nat.reducePow, Nat.reduceSub] <;> omega

/-- The length in two words, as `Tls.sha256_final` writes it. -/
theorem be32_be32 (bits : UInt64) {n : Nat} (h : bits.toNat = n % 2 ^ 64) :
    Tls.be32 (bits >>> 32).toUInt32 ++ Tls.be32 bits.toUInt32 = be64 n := by
  have hs : (bits >>> 32).toNat = bits.toNat / 2 ^ 32 := by
    rw [UInt64.toNat_shiftRight, Nat.shiftRight_eq_div_pow]
    rfl
  have hh : (bits >>> 32).toUInt32.toNat = n / 256 ^ 4 % 2 ^ 32 := by
    rw [UInt64.toNat_toUInt32, hs, h]
    omega
  have hl : bits.toUInt32.toNat = n / 256 ^ 0 % 2 ^ 32 := by
    rw [UInt64.toNat_toUInt32, h]
    omega
  rw [be32_de hh, be32_de hl]
  rfl

/-- The bits of a message that was absorbed. -/
theorem bits_de {ctx : Tls.Ctx} {m : List UInt8} (h : ctx.count = UInt64.ofNat m.length) :
    (ctx.count * 8).toNat = 8 * m.length % 2 ^ 64 := by
  rw [h, UInt64.toNat_mul, UInt64.toNat_ofNat', Nat.mul_comm 8]
  exact Nat.mod_mul_mod _ _ _

theorem length_completa {n : Nat} (xs : List UInt8) (h : xs.length ≤ n) :
    (Tls.completa xs n).length = n := by
  rw [Tls.completa, List.length_append, List.length_replicate]
  omega

/-- With room for the length, the padded message ends in one block more than the message filled. -/
theorem preenche_curto {m cheios resto : List UInt8} {k : Nat} (hm : m = cheios ++ resto)
    (hk : cheios.length = 64 * k) (hr : resto.length + 1 ≤ 56) :
    preenche m = cheios ++ (Tls.completa (resto ++ [0x80]) 56 ++ be64 (8 * m.length)) := by
  have hl : m.length % 64 = resto.length := by
    rw [hm, List.length_append, hk]
    omega
  have hz : (119 - m.length % 64) % 64 = 56 - (resto ++ [0x80]).length := by
    rw [hl, List.length_append, List.length_singleton]
    omega
  rw [preenche, hz, hm]
  simp [Tls.completa]

/-- Without, in two. -/
theorem preenche_longo {m cheios resto : List UInt8} {k : Nat} (hm : m = cheios ++ resto)
    (hk : cheios.length = 64 * k) (hr : 56 < resto.length + 1) (h64 : resto.length < 64) :
    preenche m = cheios ++ (Tls.completa (resto ++ [0x80]) 64 ++
      (Tls.completa [] 56 ++ be64 (8 * m.length))) := by
  have hl : m.length % 64 = resto.length := by
    rw [hm, List.length_append, hk]
    omega
  have hz : (119 - m.length % 64) % 64 = 64 - (resto ++ [0x80]).length + 56 := by
    rw [hl, List.length_append, List.length_singleton]
    omega
  rw [preenche, hz, hm, List.replicate_add]
  simp [Tls.completa]

/-- The last one or two blocks of an absorbed message, from the buffer. -/
def ultimos (s : Variaveis) (buf fim : List UInt8) : Variaveis :=
  if (buf ++ [0x80]).length > 56 then
    comprime (comprime s (Tls.completa (buf ++ [0x80]) 64)) (Tls.completa [] 56 ++ fim)
  else comprime s (Tls.completa (buf ++ [0x80]) 56 ++ fim)

theorem ultimos_eq {ctx : Tls.Ctx} {m cheios resto : List UInt8}
    (h : Absorveu ctx m cheios resto) :
    ultimos (vetor ctx.state) ctx.buf (be64 (8 * m.length)) =
      (chunks 64 (preenche m)).foldl comprime fun i => H0 i := by
  obtain ⟨hp, hr, ⟨k, hk⟩, hb, -, hs⟩ := h
  have hl : (resto ++ [0x80]).length = resto.length + 1 := List.length_append
  have hf := be64_length (8 * m.length)
  rw [ultimos, hb, hs]
  split
  · rename_i hg
    have hg : 56 < resto.length + 1 := hl ▸ hg
    have h64 := length_completa (n := 64) (resto ++ [0x80]) (by omega)
    have h56 := length_completa (n := 56) [] (by simp)
    have hu := chunks_bloco (b := Tls.completa [] 56 ++ be64 (8 * m.length))
      (by rw [List.length_append, h56, hf])
    rw [preenche_longo hp hk hg hr, chunks_append _ (by decide) hk,
      chunks_append (k := 1) _ (by decide) h64, chunks_bloco h64, hu, List.foldl_append]
    rfl
  · rename_i hg
    have h56 := length_completa (n := 56) (resto ++ [0x80]) (by omega)
    have hu := chunks_bloco (b := Tls.completa (resto ++ [0x80]) 56 ++ be64 (8 * m.length))
      (by rw [List.length_append, h56, hf])
    rw [preenche_curto hp hk (by omega), chunks_append _ (by decide) hk, hu, List.foldl_append]
    rfl

theorem sha256_final_eq (ctx : Tls.Ctx) :
    Tls.sha256_final ctx = resumo (ultimos (vetor ctx.state) ctx.buf
      (Tls.be32 ((ctx.count * 8) >>> 32).toUInt32 ++ Tls.be32 (ctx.count * 8).toUInt32)) := by
  by_cases hl : (ctx.buf ++ [0x80]).length > 56
  · simp only [Tls.sha256_final, ultimos, if_pos hl, ← transform_eq, resumo_vetor,
      List.append_assoc]
  · simp only [Tls.sha256_final, ultimos, if_neg hl, ← transform_eq, resumo_vetor,
      List.append_assoc]

/-- `sha256` is the digest of the standard. -/
theorem tls_sha256_fips (m : List UInt8) : Tls.sha256 m = fips m := by
  obtain ⟨cheios, resto, h⟩ := absorveu_update m absorveu_init
  rw [List.nil_append] at h
  rw [Tls.sha256, sha256_final_eq, be32_be32 _ (bits_de h.count), ultimos_eq h]
  rfl

/-! ## The buffer -/

/-- What a context shows: the bytes of its buffer that `count` says are filled. -/
structure Mostra (ctx : Ctx) (t : Tls.Ctx) : Prop where
  state : ctx.state = t.state
  count : ctx.count = t.count
  buf : ctx.buf.toList.take t.buf.length = t.buf
  length : t.buf.length = ctx.count.toNat % 64

theorem indice_eq (ctx : Ctx) : (indice ctx).toNat = ctx.count.toNat % 64 := by
  have hm : (ctx.count &&& 63).toNat = ctx.count.toNat % 2 ^ 6 := by
    rw [UInt64.toNat_and, show (63 : UInt64).toNat = 2 ^ 6 - 1 by decide,
      Nat.and_two_pow_sub_one_eq_mod]
  rw [indice, UInt64.toNat_toUInt32, hm]
  omega

@[simp] theorem sha256_transform_count (ctx : Ctx) : (sha256_transform ctx).count = ctx.count := by
  unfold sha256_transform
  rfl

theorem sha256_transform_state (ctx : Ctx) :
    (sha256_transform ctx).state = Tls.sha256_transform ctx.state ctx.buf.toList := by
  unfold sha256_transform
  rfl

@[simp] theorem escreve_state (ctx : Ctx) (i : UInt32) (b : UInt8) :
    (escreve ctx i b).state = ctx.state := rfl

@[simp] theorem escreve_count (ctx : Ctx) (i : UInt32) (b : UInt8) :
    (escreve ctx i b).count = ctx.count := rfl

theorem escreve_buf (ctx : Ctx) (i : UInt32) (b : UInt8) :
    (escreve ctx i b).buf.toList = ctx.buf.toList.set i.toNat b := by
  simp [escreve]

theorem escreve_take (ctx : Ctx) {i : UInt32} (hi : i.toNat < 64) (b : UInt8) :
    (escreve ctx i b).buf.toList.take (i.toNat + 1) = ctx.buf.toList.take i.toNat ++ [b] := by
  have hl : i.toNat < (ctx.buf.toList.set i.toNat b).length := by
    rw [List.length_set, Vector.length_toList]
    exact hi
  rw [escreve_buf, List.take_succ_eq_append_getElem hl, List.getElem_set_self,
    List.take_set_of_le (Nat.le_refl _)]

/-- The loop of an update against the bytes of the buffer, from the index on. -/
theorem laco_mostra (data : List UInt8) {c : Ctx} {t : Tls.Ctx} {i : UInt32}
    (hs : c.state = t.state) (hi : i.toNat = t.buf.length) (h64 : t.buf.length < 64)
    (hb : c.buf.toList.take t.buf.length = t.buf) :
    let r := laco data i c
    let t' := Tls.sha256_update t data
    r.state = t'.state ∧ r.count = c.count ∧ r.buf.toList.take t'.buf.length = t'.buf ∧
      t'.buf.length = (t.buf.length + data.length) % 64 ∧
      t'.count = t.count + UInt64.ofNat data.length := by
  induction data generalizing c t i with
  | nil =>
    refine ⟨hs, rfl, hb, (Nat.mod_eq_of_lt h64).symm, ?_⟩
    exact (UInt64.add_zero t.count).symm
  | cons b data ih =>
    have hl : (t.buf ++ [b]).length = i.toNat + 1 := by
      rw [List.length_append, List.length_singleton, hi]
    have ht : (escreve c i b).buf.toList.take (i.toNat + 1) = t.buf ++ [b] := by
      rw [escreve_take c (by omega), hi, hb]
    have hc : ∀ n, t.count + 1 + UInt64.ofNat n = t.count + UInt64.ofNat (n + 1) := fun n => by
      rw [UInt64.ofNat_add, UInt64.add_comm (UInt64.ofNat n), ← UInt64.add_assoc, UInt64.ofNat_one]
    have hi1 : (i + 1).toNat = i.toNat + 1 := toNat_add_of_lt (by simp; omega)
    have hu : Tls.sha256_update t (b :: data) = Tls.sha256_update (Tls.update_byte t b) data := rfl
    simp only [laco, hu]
    by_cases hf : (t.buf ++ [b]).length = 64
    · have h1 : i + 1 = 64 := UInt32.toNat_inj.mp (by rw [hi1, ← hl, hf]; rfl)
      have hb' : (escreve c i b).buf.toList = t.buf ++ [b] := by
        rw [← ht, List.take_of_length_le (by rw [Vector.length_toList]; omega)]
      have hv : Tls.update_byte t b =
          { state := Tls.sha256_transform t.state (t.buf ++ [b]), count := t.count + 1
            buf := [] } := by
        simp only [Tls.update_byte, if_pos hf]
      rw [if_pos h1, hv]
      obtain ⟨e1, e2, e3, e4, e5⟩ := ih (c := sha256_transform (escreve c i b))
        (t := { state := Tls.sha256_transform t.state (t.buf ++ [b]), count := t.count + 1
                buf := [] }) (i := 0) (by rw [sha256_transform, escreve_state, hb', hs]) rfl
        (Nat.zero_lt_succ 63) List.take_zero
      refine ⟨e1, e2.trans (sha256_transform_count _), e3, ?_, e5.trans (hc _)⟩
      rw [e4, List.length_nil, List.length_cons]
      omega
    · have h1 : i + 1 ≠ 64 := fun h => hf (by rw [hl, ← hi1, h]; rfl)
      have hv : Tls.update_byte t b = { t with count := t.count + 1, buf := t.buf ++ [b] } := by
        simp only [Tls.update_byte, if_neg hf]
      rw [if_neg h1, hv]
      obtain ⟨e1, e2, e3, e4, e5⟩ := ih (c := escreve c i b)
        (t := { t with count := t.count + 1, buf := t.buf ++ [b] }) (i := i + 1) hs
        (by rw [hi1, hl]) (by dsimp only; omega) (by rw [hl, ht])
      refine ⟨e1, e2, e3, ?_, e5.trans (hc _)⟩
      rw [e4, hl, List.length_cons]
      omega

theorem update_mostra {ctx : Ctx} {t : Tls.Ctx} (h : Mostra ctx t) {data : List UInt8}
    (hd : data.length < 2 ^ 32) :
    Mostra (sha256_update ctx data) (Tls.sha256_update t data) := by
  obtain ⟨hs, hc, hb, hl⟩ := h
  have hn : (UInt32.ofNat data.length).toUInt64 = UInt64.ofNat data.length := by
    have h64 : data.length < 2 ^ 64 := Nat.lt_trans hd (by decide)
    apply UInt64.toNat_inj.mp
    rw [UInt32.toNat_toUInt64, UInt32.toNat_ofNat_of_lt' hd, UInt64.toNat_ofNat_of_lt' h64]
  have hu : sha256_update ctx data = laco data (indice ctx)
      { ctx with count := ctx.count + (UInt32.ofNat data.length).toUInt64 } := rfl
  obtain ⟨e1, e2, e3, e4, e5⟩ := laco_mostra data
    (c := { ctx with count := ctx.count + (UInt32.ofNat data.length).toUInt64 }) hs
    ((indice_eq ctx).trans hl.symm) (by omega) hb
  rw [← hu] at e1 e2 e3
  refine ⟨e1, ?_, e3, ?_⟩
  · rw [e2, e5, ← hc, hn]
  · rw [e2, e4, hl, hn, UInt64.toNat_add, UInt64.toNat_ofNat']
    omega

/-! ## The last blocks -/

/-- Bytes written one after the other, from place `s` on. -/
theorem foldl_escreve {n s : Nat} (ctx : Ctx) {f : Nat → UInt32} (g : Nat → UInt8)
    (hf : ∀ k < n, (f k).toNat = s + k) (hn : s + n ≤ 64) :
    let r := (List.range n).foldl (fun ctx k => escreve ctx (f k) (g k)) ctx
    r.state = ctx.state ∧ r.count = ctx.count ∧
      r.buf.toList = ctx.buf.toList.take s ++ (List.range n).map g ++ ctx.buf.toList.drop (s + n) := by
  induction n with
  | zero => exact ⟨rfl, rfl, by simp⟩
  | succ n ih =>
    obtain ⟨hs, hc, hb⟩ := ih (fun k hk => hf k (Nat.lt_succ_of_lt hk)) (by omega)
    simp only [List.range_succ, List.foldl_append, List.foldl_cons, List.foldl_nil]
    refine ⟨hs, hc, ?_⟩
    have hl : s + n < ctx.buf.toList.length := by
      rw [Vector.length_toList]
      omega
    have hp : (ctx.buf.toList.take s ++ (List.range n).map g).length = s + n := by
      rw [List.length_append, List.length_take, List.length_map, List.length_range]
      omega
    rw [escreve_buf, hb, hf n (Nat.lt_succ_self n), List.set_append_right _ _ (by omega), hp,
      Nat.sub_self, List.drop_eq_getElem_cons hl, List.set_cons_zero, List.map_append]
    simp [Nat.add_assoc]

theorem zera_eq (ctx : Ctx) {i : UInt32} {n : Nat} (hi : i.toNat ≤ n) (hn : n ≤ 64) :
    (zera ctx i n).state = ctx.state ∧ (zera ctx i n).count = ctx.count ∧
      (zera ctx i n).buf.toList.take n = Tls.completa (ctx.buf.toList.take i.toNat) n := by
  have hf : ∀ k < n - i.toNat, (i + UInt32.ofNat k).toNat = i.toNat + k := fun k hk => by
    have hk' : (UInt32.ofNat k).toNat = k := UInt32.toNat_ofNat_of_lt' (show k < 2 ^ 32 by omega)
    rw [toNat_add_of_lt (by omega), hk']
  obtain ⟨hs, hc, hb⟩ := foldl_escreve ctx (fun _ => 0) hf (by omega)
  refine ⟨hs, hc, ?_⟩
  have hl : (ctx.buf.toList.take i.toNat).length = i.toNat := by
    rw [List.length_take, Vector.length_toList]
    omega
  have hz : (List.range (n - i.toNat)).map (fun _ => (0 : UInt8)) =
      List.replicate (n - i.toNat) 0 := by
    rw [List.map_const', List.length_range]
  rw [zera, hb, hz, Tls.completa, hl]
  apply List.take_left'
  rw [List.length_append, hl, List.length_replicate]
  omega

/-- The first loop over the bit count writes where the second one does. -/
theorem conta_bits_eq (ctx : Ctx) :
    (conta_bits ctx).state = ctx.state ∧ (conta_bits ctx).count = ctx.count ∧
      (conta_bits ctx).buf.toList.take 56 = ctx.buf.toList.take 56 := by
  have hk : ∀ ks : List Nat, (∀ k ∈ ks, k < 8) → ∀ s : Ctx × UInt64,
      let r := ks.foldl (fun (s : Ctx × UInt64) k =>
        (escreve s.1 (UInt32.ofNat (56 + k)) (s.2 &&& 0xFF).toUInt8, s.2 >>> 8)) s
      r.1.state = s.1.state ∧ r.1.count = s.1.count ∧
        r.1.buf.toList.take 56 = s.1.buf.toList.take 56 := by
    intro ks hks
    induction ks with
    | nil => exact fun s => ⟨rfl, rfl, rfl⟩
    | cons k ks ih =>
      intro s
      obtain ⟨hs, hc, hb⟩ := ih (fun j hj => hks j (List.mem_cons_of_mem _ hj))
        (escreve s.1 (UInt32.ofNat (56 + k)) (s.2 &&& 0xFF).toUInt8, s.2 >>> 8)
      refine ⟨hs, hc, hb.trans ?_⟩
      have h8 := hks k List.mem_cons_self
      have hi : (UInt32.ofNat (56 + k)).toNat = 56 + k :=
        UInt32.toNat_ofNat_of_lt' (show _ < 2 ^ 32 by omega)
      rw [escreve_buf, hi, List.take_set_of_le (Nat.le_add_right 56 k)]
  exact hk [7, 6, 5, 4, 3, 2, 1, 0] (by decide) (ctx, ctx.count * 8)

theorem grava_bits_eq (ctx : Ctx) :
    (grava_bits ctx).state = ctx.state ∧
      (grava_bits ctx).buf.toList = ctx.buf.toList.take 56 ++ be64 (ctx.count * 8).toNat := by
  have hf : ∀ k < 8, (UInt32.ofNat (56 + k)).toNat = 56 + k := fun k hk =>
    UInt32.toNat_ofNat_of_lt' (show _ < 2 ^ 32 by omega)
  obtain ⟨hs, -, hb⟩ := foldl_escreve ctx
    (fun k => ((ctx.count * 8) >>> UInt64.ofNat (56 - k * 8)).toUInt8) hf (by decide)
  have hn : (ctx.count * 8).toNat = (ctx.count * 8).toNat % 2 ^ 64 :=
    (Nat.mod_eq_of_lt (ctx.count * 8).toNat_lt).symm
  refine ⟨hs, ?_⟩
  rw [grava_bits, hb, be64_eq _ hn, List.drop_of_length_le (by rw [Vector.length_toList]),
    List.append_nil]

/-- The last block, from the bytes before index `i`. -/
theorem ultimo_bloco (ctx : Ctx) {i : UInt32} (hi : i.toNat ≤ 56) :
    vetor (sha256_transform (grava_bits (conta_bits (zera ctx i 56)))).state =
      comprime (vetor ctx.state)
        (Tls.completa (ctx.buf.toList.take i.toNat) 56 ++ be64 (ctx.count * 8).toNat) := by
  obtain ⟨zs, zc, zb⟩ := zera_eq ctx hi (by decide)
  obtain ⟨cs, cc, cb⟩ := conta_bits_eq (zera ctx i 56)
  obtain ⟨gs, gb⟩ := grava_bits_eq (conta_bits (zera ctx i 56))
  rw [sha256_transform_state, transform_eq, gs, gb, cs, cb, cc, zs, zb, zc]

/-- The digest, from the words of the state. -/
theorem digest_eq (s : Tls.Sha) :
    ([s.a, s.b, s.c, s.d, s.e, s.f, s.g, s.h].flatMap fun w : UInt32 =>
      [(w >>> 24).toUInt8, (w >>> 16).toUInt8, (w >>> 8).toUInt8, w.toUInt8]) =
      resumo (vetor s) := by
  rw [resumo_vetor]
  simp only [List.flatMap_cons, List.flatMap_nil, List.append_nil, List.append_assoc]
  rfl

theorem final_mostra {ctx : Ctx} {t : Tls.Ctx} (h : Mostra ctx t) :
    sha256_final ctx = Tls.sha256_final t := by
  obtain ⟨hs, hc, hb, hl⟩ := h
  have hi : (indice ctx).toNat = t.buf.length := (indice_eq ctx).trans hl.symm
  have h64 : t.buf.length < 64 := by omega
  have hi1 : (indice ctx + 1).toNat = t.buf.length + 1 := by
    rw [toNat_add_of_lt (by simp; omega), hi]
    rfl
  have ht : (escreve ctx (indice ctx) 0x80).buf.toList.take (indice ctx + 1).toNat =
      t.buf ++ [0x80] := by
    have he := escreve_take ctx (i := indice ctx) (by omega) 0x80
    rwa [hi, ← hi1, hb] at he
  have hn : (ctx.count * 8).toNat = (ctx.count * 8).toNat % 2 ^ 64 :=
    (Nat.mod_eq_of_lt (ctx.count * 8).toNat_lt).symm
  have hlen : (t.buf ++ [0x80]).length = t.buf.length + 1 := List.length_append
  rw [sha256_final_eq, ← hc, be32_be32 _ hn, sha256_final]
  simp only [digest_eq]
  by_cases hg : (t.buf ++ [0x80]).length > 56
  · have hg' : indice ctx + 1 > 56 := UInt32.lt_iff_toNat_lt.mpr (by
      rw [hi1]
      exact hlen ▸ hg)
    obtain ⟨zs, zc, zb⟩ := zera_eq (escreve ctx (indice ctx) 0x80) (i := indice ctx + 1)
      (n := 64) (by omega) (by decide)
    have hz : (zera (escreve ctx (indice ctx) 0x80) (indice ctx + 1) 64).buf.toList =
        Tls.completa (t.buf ++ [0x80]) 64 := by
      rw [← ht, ← zb, List.take_of_length_le (by rw [Vector.length_toList])]
    simp only [if_pos hg', ultimos, if_pos hg]
    rw [ultimo_bloco _ (i := 0) (by decide), sha256_transform_count, zc, escreve_count,
      sha256_transform_state, transform_eq, zs, escreve_state, hz, hs]
    rfl
  · have hg' : ¬ indice ctx + 1 > 56 := fun h => hg (by
      have h := UInt32.lt_iff_toNat_lt.mp h
      rw [hi1] at h
      exact hlen ▸ h)
    simp only [if_neg hg', ultimos, if_neg hg]
    rw [ultimo_bloco _ (by omega), escreve_count, escreve_state, ht, hs]

/-! ## Streaming -/

/-- However a message is cut into chunks, the streaming interface gives its digest, whatever the
context held before. -/
theorem sha256_pedacos_fips (ctx : Ctx) (pedacos : List (List UInt8))
    (h : ∀ p ∈ pedacos, p.length < 2 ^ 32) :
    sha256_pedacos ctx pedacos = fips pedacos.flatten := by
  have hm : ∀ (ps : List (List UInt8)), (∀ p ∈ ps, p.length < 2 ^ 32) →
      ∀ (c : Ctx) (t : Tls.Ctx), Mostra c t →
        Mostra (ps.foldl sha256_update c) (Tls.sha256_update t ps.flatten) := by
    intro ps hps
    induction ps with
    | nil => exact fun c t hc => hc
    | cons p ps ih =>
      intro c t hc
      have hp := update_mostra hc (hps p List.mem_cons_self)
      rw [List.flatten_cons, Tls.sha256_update, List.foldl_append]
      exact ih (fun q hq => hps q (List.mem_cons_of_mem _ hq)) _ _ hp
  have hi : Mostra (sha256_init ctx) Tls.sha256_init := ⟨rfl, rfl, rfl, rfl⟩
  rw [sha256_pedacos, final_mostra (hm pedacos h _ _ hi), ← tls_sha256_fips]
  rfl

theorem sha256_pedacos_fips_abc :
    sha256_pedacos ⟨Tls.sha256_init.state, 7, Vector.replicate 64 1⟩ [[97], [], [98, 99]] =
      fips [97, 98, 99] :=
  sha256_pedacos_fips _ _ (by decide)

end SpaceOS.Sha256
