-- ChaCha20-Poly1305 (kernel/net/tls.c): the authenticated encryption of a string, its opening, and
-- the bytes that both of them authenticate.
import Mathlib.Algebra.Group.Nat.Defs
import SpaceOS.ChaCha20Laws
import SpaceOS.Net
import SpaceOS.Poly1305

open Lib.Bytes SpaceOS.ChaCha20 SpaceOS.Poly1305

namespace SpaceOS.Aead

/-! ## The authenticated bytes

Both functions fill `mac_input` from its start on, each write at place `mi`: the bytes here are the
ones below `mi`. -/

/-- `while (mi & 15) mac_input[mi++] = 0`, for `n` turns at most. -/
def preenche_laco : Nat → List UInt8 → List UInt8
  | 0, mac_input => mac_input
  | n + 1, mac_input =>
    if mac_input.length % 16 = 0 then mac_input else preenche_laco n (mac_input ++ [0])

/-- The loop ends after fifteen turns. -/
def preenche (mac_input : List UInt8) : List UInt8 := preenche_laco 15 mac_input

/-- Turn `i` of a loop over a length: the count that the length is shifted by, and the byte that is
written. The machine takes a count modulo 32. -/
def volta_len (len : UInt32) (i : Nat) : Nat × UInt8 :=
  (i * 8, (len >>> UInt32.ofNat (i * 8)).toUInt8)

/-- `for (int i = 0; i < 8; i++) mac_input[mi++] = (uint8_t)(len >> (i*8))`. -/
def voltas_len (len : UInt32) : List (Nat × UInt8) := (List.range 8).map (volta_len len)

def mac_input (aad texto : List UInt8) : List UInt8 :=
  preenche (preenche aad ++ texto) ++ (voltas_len (UInt32.ofNat aad.length)).map Prod.snd ++
    (voltas_len (UInt32.ofNat texto.length)).map Prod.snd

/-! ## The two functions -/

def otk (key nonce : List UInt8) : List UInt8 :=
  chacha20_encrypt key nonce 0 (List.replicate 32 0)

/-- `cipher_out` and `tag_out`. -/
def chacha20poly1305_encrypt (key nonce aad plain : List UInt8) : List UInt8 × List UInt8 :=
  let cipher_out := chacha20_encrypt key nonce 1 plain
  (cipher_out, poly1305_mac (otk key nonce) (mac_input aad cipher_out))

/-- The loop over the sixteen bytes of two tags. -/
def diferenca (expected_tag tag : List UInt8) : UInt8 :=
  (List.range 16).foldl (fun diff i => diff ||| (expected_tag.getD i 0 ^^^ tag.getD i 0)) 0

/-- The code, and `plain_out` as it is left. -/
def chacha20poly1305_decrypt (key nonce aad cipher tag : List UInt8) (plain_out : Memory) :
    Int × Memory :=
  let expected_tag := poly1305_mac (otk key nonce) (mac_input aad cipher)
  if diferenca expected_tag tag ≠ 0 then (-1, plain_out)
  else (0, Net.copia plain_out 0 (chacha20_encrypt key nonce 1 cipher))

/-! ## Small laws -/

theorem chacha20_encrypt_twice (key nonce : List UInt8) (counter : UInt32) (entrada : List UInt8) :
    chacha20_encrypt key nonce counter (chacha20_encrypt key nonce counter entrada) = entrada :=
  (chacha20_encrypt_fluxo key nonce counter entrada).2.1

@[simp] theorem length_chacha20_encrypt (key nonce : List UInt8) (counter : UInt32)
    (entrada : List UInt8) :
    (chacha20_encrypt key nonce counter entrada).length = entrada.length := by
  rw [(chacha20_encrypt_fluxo key nonce counter entrada).1, List.length_mapIdx]

theorem length_poly1305_mac (key msg : List UInt8) : (poly1305_mac key msg).length = 16 := rfl

/-- The differences gathered are zero where the bytes are the same. -/
theorem diferenca_laco {is : List Nat} {a b : List UInt8} {d : UInt8} :
    is.foldl (fun diff i => diff ||| (a.getD i 0 ^^^ b.getD i 0)) d = 0 ↔
      d = 0 ∧ ∀ i ∈ is, a.getD i 0 = b.getD i 0 := by
  induction is generalizing d with
  | nil => simp
  | cons i is ih =>
    rw [List.foldl_cons, ih, UInt8.or_eq_zero_iff, UInt8.xor_eq_zero_iff, List.forall_mem_cons,
      and_assoc]

theorem diferenca_eq_zero_iff {a b : List UInt8} (ha : a.length = 16) (hb : b.length = 16) :
    diferenca a b = 0 ↔ a = b := by
  unfold diferenca
  rw [diferenca_laco]
  constructor
  · rintro ⟨_, h⟩
    refine List.ext_getElem (by rw [ha, hb]) fun i h1 h2 => ?_
    have hi := h i (List.mem_range.mpr (ha ▸ h1))
    rwa [List.getD_eq_getElem?_getD, List.getD_eq_getElem?_getD, List.getElem?_eq_getElem h1,
      List.getElem?_eq_getElem h2] at hi
  · rintro rfl
    exact ⟨rfl, fun _ _ => rfl⟩

/-! ## Round trip and rejection -/

section Abertura

variable {key nonce aad cipher tag : List UInt8} {plain_out : Memory}

/-- The tag that the opening expects. -/
theorem decrypt_aceita (ht : tag.length = 16)
    (h : tag = poly1305_mac (otk key nonce) (mac_input aad cipher)) :
    chacha20poly1305_decrypt key nonce aad cipher tag plain_out =
      (0, Net.copia plain_out 0 (chacha20_encrypt key nonce 1 cipher)) := by
  have hd := (diferenca_eq_zero_iff (length_poly1305_mac (otk key nonce) (mac_input aad cipher))
    ht).mpr h.symm
  unfold chacha20poly1305_decrypt
  dsimp only
  rw [if_neg (not_not.mpr hd)]

theorem decrypt_recusa (ht : tag.length = 16)
    (h : tag ≠ poly1305_mac (otk key nonce) (mac_input aad cipher)) :
    chacha20poly1305_decrypt key nonce aad cipher tag plain_out = (-1, plain_out) := by
  have hd := (diferenca_eq_zero_iff (length_poly1305_mac (otk key nonce) (mac_input aad cipher))
    ht).not.mpr h.symm
  unfold chacha20poly1305_decrypt
  dsimp only
  rw [if_pos hd]

theorem decrypt_encrypt (plain : List UInt8) :
    chacha20poly1305_decrypt key nonce aad (chacha20poly1305_encrypt key nonce aad plain).1
      (chacha20poly1305_encrypt key nonce aad plain).2 plain_out =
        (0, Net.copia plain_out 0 plain) := by
  unfold chacha20poly1305_encrypt
  dsimp only
  rw [decrypt_aceita (length_poly1305_mac _ _) rfl, chacha20_encrypt_twice]

end Abertura

/-- What is encrypted comes back, and a tag is accepted just where it is the one of the plaintext
that the ciphertext has; where it is not, `plain_out` is left as it was. -/
theorem decryption_undoes_encryption_and_takes_no_other_tag (key nonce aad : List UInt8)
    (plain_out : Memory) :
    (∀ plain, chacha20poly1305_decrypt key nonce aad
      (chacha20poly1305_encrypt key nonce aad plain).1
      (chacha20poly1305_encrypt key nonce aad plain).2 plain_out =
        (0, Net.copia plain_out 0 plain)) ∧
    ∀ cipher tag, tag.length = 16 → ∃ plain : List UInt8,
      (chacha20poly1305_encrypt key nonce aad plain).1 = cipher ∧
      (tag = (chacha20poly1305_encrypt key nonce aad plain).2 →
        chacha20poly1305_decrypt key nonce aad cipher tag plain_out =
          (0, Net.copia plain_out 0 plain)) ∧
      (tag ≠ (chacha20poly1305_encrypt key nonce aad plain).2 →
        chacha20poly1305_decrypt key nonce aad cipher tag plain_out = (-1, plain_out)) := by
  refine ⟨fun plain => decrypt_encrypt plain, fun cipher tag ht =>
    ⟨chacha20_encrypt key nonce 1 cipher, chacha20_encrypt_twice key nonce 1 cipher, ?_, ?_⟩⟩
  · intro h
    refine decrypt_aceita ht ?_
    rw [h]
    unfold chacha20poly1305_encrypt
    dsimp only
    rw [chacha20_encrypt_twice]
  · intro h
    refine decrypt_recusa ht fun he => h ?_
    rw [he]
    unfold chacha20poly1305_encrypt
    dsimp only
    rw [chacha20_encrypt_twice]

/-! ## The standard -/

/-- The zeros after a string of `n` bytes, up to a multiple of 16. -/
def zeros (n : Nat) : List UInt8 := List.replicate ((16 - n % 16) % 16) 0

/-- A 64-bit number, low byte first. -/
def le64 (n : Nat) : List UInt8 := (List.range 8).map fun i => UInt8.ofNat (n / 256 ^ i)

/-- What RFC 8439 authenticates. -/
def mac_data (aad texto : List UInt8) : List UInt8 :=
  aad ++ zeros aad.length ++ texto ++ zeros texto.length ++ le64 aad.length ++ le64 texto.length

/-- The encryption authenticates the bytes of the standard, and shifts by no count that a 32-bit
number does not have. -/
structure Conforme (key nonce aad plain : List UInt8) : Prop where
  bytes : mac_input aad (chacha20poly1305_encrypt key nonce aad plain).1 =
    mac_data aad (chacha20poly1305_encrypt key nonce aad plain).1
  contagens : ∀ v ∈ voltas_len (UInt32.ofNat aad.length) ++ voltas_len (UInt32.ofNat plain.length),
    v.1 < 32

theorem preenche_laco_eq (n : Nat) {m : List UInt8} (h : (16 - m.length % 16) % 16 ≤ n) :
    preenche_laco n m = m ++ zeros m.length := by
  induction n generalizing m with
  | zero =>
    have h0 : (16 - m.length % 16) % 16 = 0 := by omega
    unfold preenche_laco zeros
    rw [h0, List.replicate_zero, List.append_nil]
  | succ n ih =>
    unfold preenche_laco
    split
    · rename_i h0
      have h0 : (16 - m.length % 16) % 16 = 0 := by omega
      unfold zeros
      rw [h0, List.replicate_zero, List.append_nil]
    · rename_i h0
      have hl : (m ++ [(0 : UInt8)]).length = m.length + 1 := List.length_append
      have hs : (16 - m.length % 16) % 16 = (16 - (m.length + 1) % 16) % 16 + 1 := by omega
      rw [ih (by rw [hl]; omega), hl, List.append_assoc]
      unfold zeros
      rw [hs, List.replicate_succ]
      rfl

theorem preenche_eq (m : List UInt8) : preenche m = m ++ zeros m.length :=
  preenche_laco_eq 15 (by omega)

theorem length_preenche (m : List UInt8) : (preenche m).length = (m.length + 15) / 16 * 16 := by
  rw [preenche_eq, List.length_append]
  unfold zeros
  rw [List.length_replicate]
  omega

theorem length_mac_input (aad texto : List UInt8) : (mac_input aad texto).length =
    (aad.length + 15) / 16 * 16 + (texto.length + 15) / 16 * 16 + 16 := by
  have h8 : ∀ len, ((voltas_len len).map Prod.snd).length = 8 := fun len => by simp [voltas_len]
  unfold mac_input
  rw [List.length_append, List.length_append, h8, h8, length_preenche, List.length_append,
    length_preenche]
  omega

/-- The bytes in `mac_input`: those of the standard up to the lengths. -/
theorem mac_input_eq (aad texto : List UInt8) : mac_input aad texto =
    aad ++ zeros aad.length ++ texto ++ zeros texto.length ++
      ((voltas_len (UInt32.ofNat aad.length)).map Prod.snd ++
        (voltas_len (UInt32.ofNat texto.length)).map Prod.snd) := by
  have hz : zeros (preenche aad ++ texto).length = zeros texto.length := by
    rw [List.length_append, length_preenche]
    unfold zeros
    congr 1
    omega
  unfold mac_input
  rw [preenche_eq (preenche aad ++ texto), hz, preenche_eq aad, List.append_assoc (_ ++ _)]

/-- A length loop writes the 64-bit number just where the length is 0: its last four turns write
the low half again. -/
theorem voltas_len_eq_le64_iff {n : Nat} (h : n < 2 ^ 32) :
    (voltas_len (UInt32.ofNat n)).map Prod.snd = le64 n ↔ n = 0 := by
  constructor
  · intro he
    have hn : (UInt32.ofNat n).toNat = n := UInt32.toNat_ofNat_of_lt' h
    -- the bytes of turns 4 to 7
    have hi : ∀ i < 4, n / 256 ^ i % 256 = 0 := by
      intro i hi
      have hget := congrArg (fun l => (l.getD (4 + i) 0).toNat) he
      have h4 : 4 + i < 8 := by omega
      simp only [voltas_len, le64, List.getD_eq_getElem?_getD, List.getElem?_map,
        List.getElem?_range h4, Option.map_some, Option.getD_some, volta_len,
        UInt32.toNat_toUInt8, UInt32.toNat_shiftRight, hn, UInt8.toNat_ofNat'] at hget
      have hs : (UInt32.ofNat ((4 + i) * 8)).toNat % 32 = 8 * i := by
        rw [UInt32.toNat_ofNat']
        omega
      have hz : n / 256 ^ (4 + i) = 0 := by
        have : n / 256 ^ 4 = 0 := Nat.div_eq_of_lt (by omega)
        rw [Nat.pow_add, ← Nat.div_div_eq_div_mul, this, Nat.zero_div]
      rw [hs, hz, Nat.shiftRight_eq_div_pow, Nat.pow_mul] at hget
      exact hget
    have h0 := hi 0 (by decide)
    have h1 := hi 1 (by decide)
    have h2 := hi 2 (by decide)
    have h3 := hi 3 (by decide)
    omega
  · rintro rfl
    decide

/-- Turn 7 of a loop over a length shifts by 56. -/
theorem not_conforme (key nonce aad plain : List UInt8) : ¬ Conforme key nonce aad plain := by
  intro h
  have h7 := h.contagens (volta_len (UInt32.ofNat aad.length) 7)
    (List.mem_append_left _ (List.mem_map_of_mem (by decide)))
  exact absurd h7 (by simp [volta_len])

/-- No input meets the standard: the loops over the lengths shift a 32-bit number by up to 56, and
what they write is the length in 64 bits only where it is 0. -/
theorem no_encryption_is_that_of_the_standard (key nonce aad plain : List UInt8)
    (h : (aad.length + 15) / 16 * 16 + (plain.length + 15) / 16 * 16 ≤ 4096 + 48) :
    ¬ Conforme key nonce aad plain ∧
    (mac_input aad (chacha20poly1305_encrypt key nonce aad plain).1 =
        mac_data aad (chacha20poly1305_encrypt key nonce aad plain).1 ↔ aad = [] ∧ plain = []) := by
  have hl : (chacha20poly1305_encrypt key nonce aad plain).1.length = plain.length :=
    length_chacha20_encrypt key nonce 1 plain
  have hmap : ∀ n, ((voltas_len (UInt32.ofNat n)).map Prod.snd).length = (le64 n).length :=
    fun n => by simp [voltas_len, le64]
  refine ⟨not_conforme key nonce aad plain, ?_⟩
  rw [mac_input_eq, hl]
  unfold mac_data
  rw [hl, List.append_assoc _ (le64 _), List.append_cancel_left_eq, ← List.length_eq_zero_iff,
    ← List.length_eq_zero_iff, ← voltas_len_eq_le64_iff (n := aad.length) (by omega),
    ← voltas_len_eq_le64_iff (n := plain.length) (by omega)]
  exact ⟨fun he => List.append_inj he (hmap _), fun he => by rw [he.1, he.2]⟩

/-- The law at the header of a record with no payload: its length is written twice. -/
theorem the_header_of_an_empty_record_is_not_authenticated_as_the_standard_says :
    ¬ mac_input (List.replicate 8 0)
        (chacha20poly1305_encrypt (List.replicate 32 0) (List.replicate 12 0)
          (List.replicate 8 0) []).1 =
      mac_data (List.replicate 8 0)
        (chacha20poly1305_encrypt (List.replicate 32 0) (List.replicate 12 0)
          (List.replicate 8 0) []).1 := by
  intro h
  have hn := (no_encryption_is_that_of_the_standard (List.replicate 32 0) (List.replicate 12 0)
    (List.replicate 8 0) [] (by decide)).2.mp h
  exact absurd hn.1 (by decide)

theorem an_empty_record_is_not_that_of_the_standard : ¬ ∀ key nonce aad plain : List UInt8,
    (aad.length + 15) / 16 * 16 + (plain.length + 15) / 16 * 16 ≤ 4096 + 48 →
      Conforme key nonce aad plain := by
  intro h
  exact not_conforme _ _ _ _ (h (List.replicate 32 0) (List.replicate 12 0) (List.replicate 8 0) []
    (by decide))

end SpaceOS.Aead
