-- Poly1305 against its definition over the integers: the tag is the polynomial of the message
-- modulo 2^130 - 5, and no word overflows on the way.
import Mathlib.Algebra.BigOperators.Intervals
import Mathlib.Algebra.BigOperators.Ring.Finset
import Mathlib.Algebra.Order.Ring.Nat
import Mathlib.Data.Int.ModEq
import Mathlib.Data.List.GetD
import Mathlib.Data.Nat.Digits.Defs
import Mathlib.Tactic.IntervalCases
import SpaceOS.Poly1305
import SpaceOS.Lib.Chunks
import SpaceOS.Lib.Words

namespace SpaceOS.Poly1305

open Lib.Chunks Lib.Words

/-! ## The definition -/

def primo : Nat := 2 ^ 130 - 5

/-- The little-endian number of a byte string. -/
def le (bs : List UInt8) : Nat := Nat.ofDigits 256 (bs.map UInt8.toNat)

/-- `r`: the first half of the key, without the bits that clamping clears. -/
def r (key : List UInt8) : Nat := le (key.take 16) &&& 0x0ffffffc0ffffffc0ffffffc0fffffff

/-- `s`: the second half of the key. -/
def s (key : List UInt8) : Nat := le ((key.drop 16).take 16)

/-- The coefficient of a block: its number, with a byte 1 above it. -/
def coeficiente (pedaco : List UInt8) : Nat := le (pedaco ++ [1])

/-- The polynomial of the message at `x`; the first block has the highest power. -/
def polinomio (x : Nat) (msg : List UInt8) : Nat :=
  let blocos := chunks 16 msg
  ∑ i ∈ Finset.range blocos.length,
    coeficiente (blocos.getD i []) * x ^ (blocos.length - i)

/-- The number of the tag. -/
def etiqueta (key msg : List UInt8) : Nat := (polinomio (r key) msg % primo + s key) % 2 ^ 128

/-- Sixteen bytes, little-endian. -/
def em_bytes (n : Nat) : List UInt8 := List.ofFn fun i : Fin 16 => UInt8.ofNat (n / 256 ^ i.val)

/-! ## Numbers of bytes -/

@[simp] theorem le_nil : le [] = 0 := rfl

theorem le_cons (b : UInt8) (bs : List UInt8) : le (b :: bs) = b.toNat + 256 * le bs := by
  simp [le, Nat.ofDigits_cons]

/-- The first byte, and the rest. -/
theorem le_drop (bs : List UInt8) (i : Nat) :
    le (bs.drop i) = (bs.getD i 0).toNat + 256 * le (bs.drop (i + 1)) := by
  by_cases h : i < bs.length
  · rw [List.drop_eq_getElem_cons h, le_cons]
    simp [h]
  · have h := Nat.le_of_not_lt h
    rw [List.drop_of_length_le h, List.drop_of_length_le (by omega)]
    simp [h]

/-- Bytes in their places, four at a time. -/
def quatro (b : Nat → Nat) (i : Nat) : Nat :=
  b i + b (i + 1) * 2 ^ 8 + b (i + 2) * 2 ^ 16 + b (i + 3) * 2 ^ 24

/-- The number of seventeen bytes. -/
def dezassete (b : Nat → Nat) : Nat :=
  quatro b 0 + quatro b 4 * 2 ^ 32 + quatro b 8 * 2 ^ 64 + quatro b 12 * 2 ^ 96 + b 16 * 2 ^ 128

theorem le_dezassete {bs : List UInt8} (h : bs.length ≤ 17) :
    le bs = dezassete fun i => (bs.getD i 0).toNat := by
  have h17 : le (bs.drop 17) = 0 := by rw [List.drop_of_length_le h, le_nil]
  have hd := le_drop bs
  have h0 : le bs = le (bs.drop 0) := by rw [List.drop_zero]
  simp only [dezassete, quatro]
  rw [h0, hd 0, hd 1, hd 2, hd 3, hd 4, hd 5, hd 6, hd 7, hd 8, hd 9, hd 10, hd 11, hd 12, hd 13,
    hd 14, hd 15, hd 16, h17]
  ring

/-! ## Limbs -/

/-- Limb `j` of the number of seventeen bytes: 26 bits of it, all that is left for `j = 4`. -/
def limb (b : Nat → Nat) : Nat → Nat
  | 0 => b 0 + b 1 * 2 ^ 8 + b 2 * 2 ^ 16 + b 3 % 4 * 2 ^ 24
  | 1 => b 3 / 4 + b 4 * 2 ^ 6 + b 5 * 2 ^ 14 + b 6 % 16 * 2 ^ 22
  | 2 => b 6 / 16 + b 7 * 2 ^ 4 + b 8 * 2 ^ 12 + b 9 % 64 * 2 ^ 20
  | 3 => b 9 / 64 + b 10 * 2 ^ 2 + b 11 * 2 ^ 10 + b 12 * 2 ^ 18
  | _ => b 13 + b 14 * 2 ^ 8 + b 15 * 2 ^ 16 + b 16 * 2 ^ 24

theorem limbs_dezassete (b : Nat → Nat) :
    limb b 0 + limb b 1 * 2 ^ 26 + limb b 2 * 2 ^ 52 + limb b 3 * 2 ^ 78 + limb b 4 * 2 ^ 104 =
      dezassete b := by
  have h3 : b 3 = 4 * (b 3 / 4) + b 3 % 4 := (Nat.div_add_mod (b 3) 4).symm
  have h6 : b 6 = 16 * (b 6 / 16) + b 6 % 16 := (Nat.div_add_mod (b 6) 16).symm
  have h9 : b 9 = 64 * (b 9 / 64) + b 9 % 64 := (Nat.div_add_mod (b 9) 64).symm
  simp only [limb, dezassete, quatro, Nat.zero_add, Nat.reduceAdd]
  generalize b 3 / 4 = q3, b 3 % 4 = m3 at h3 ⊢
  generalize b 6 / 16 = q6, b 6 % 16 = m6 at h6 ⊢
  generalize b 9 / 64 = q9, b 9 % 64 = m9 at h9 ⊢
  rw [h3, h6, h9]
  ring

theorem toNat_mascara (x : UInt32) : (x &&& 0x3FFFFFF).toNat = x.toNat % 2 ^ 26 :=
  toNat_and_low x 0x3FFFFFF (by decide)

/-- A word made of the high bits of one byte and the three bytes after it. -/
theorem toNat_alto (a b c d : UInt8) {k n m l : UInt32} (hk : k.toNat + n.toNat = 8)
    (hm : m.toNat = n.toNat + 8) (hl : l.toNat = n.toNat + 16) :
    (a.toUInt32 >>> k ||| b.toUInt32 <<< n ||| c.toUInt32 <<< m ||| d.toUInt32 <<< l).toNat =
      a.toNat / 2 ^ k.toNat + (b.toNat + c.toNat * 2 ^ 8 + d.toNat * 2 ^ 16) * 2 ^ n.toNat := by
  have hx : (a.toUInt32 >>> k).toNat = a.toNat / 2 ^ k.toNat := by
    rw [toNat_shr _ _ (by omega), UInt8.toNat_toUInt32]
  have ha : a.toNat / 2 ^ k.toNat < 2 ^ n.toNat := by
    rw [Nat.div_lt_iff_lt_mul (Nat.two_pow_pos _), ← Nat.pow_add, Nat.add_comm, hk]
    exact a.toNat_lt
  rw [toNat_or_three _ b c d hm hl (by omega) (hx ▸ ha), hx]

/-- The numbers of the bytes of `blk`, zeros behind them. -/
abbrev numeros (blk : List UInt8) (i : Nat) : Nat := (blk.getD i 0).toNat

section Partes

variable (blk : List UInt8)

theorem partes_h0 : (partes blk).h0.toNat = limb (numeros blk) 0 := by
  have h0 := (blk.getD 0 0).toNat_lt
  have h1 := (blk.getD 1 0).toNat_lt
  have h2 := (blk.getD 2 0).toNat_lt
  simp only [partes, toNat_mascara, toNat_word, limb, numeros]
  omega

theorem partes_h1 : (partes blk).h1.toNat = limb (numeros blk) 1 := by
  have h3 := (blk.getD 3 0).toNat_lt
  have h4 := (blk.getD 4 0).toNat_lt
  have h5 := (blk.getD 5 0).toNat_lt
  simp only [partes, toNat_mascara, limb, numeros]
  rw [toNat_alto _ _ _ _ (by decide) (by decide) (by decide)]
  simp only [UInt32.reduceToNat]
  omega

theorem partes_h2 : (partes blk).h2.toNat = limb (numeros blk) 2 := by
  have h6 := (blk.getD 6 0).toNat_lt
  have h7 := (blk.getD 7 0).toNat_lt
  have h8 := (blk.getD 8 0).toNat_lt
  simp only [partes, toNat_mascara, limb, numeros]
  rw [toNat_alto _ _ _ _ (by decide) (by decide) (by decide)]
  simp only [UInt32.reduceToNat]
  omega

theorem partes_h3 : (partes blk).h3.toNat = limb (numeros blk) 3 := by
  have h9 := (blk.getD 9 0).toNat_lt
  have h10 := (blk.getD 10 0).toNat_lt
  have h11 := (blk.getD 11 0).toNat_lt
  have h12 := (blk.getD 12 0).toNat_lt
  simp only [partes, toNat_mascara, limb, numeros]
  rw [toNat_alto _ _ _ _ (by decide) (by decide) (by decide)]
  simp only [UInt32.reduceToNat]
  omega

theorem byte_shr_8 (b : UInt8) : b.toUInt32 >>> 8 = 0 := by
  have hb := b.toNat_lt
  apply UInt32.toNat_inj.mp
  rw [toNat_shr _ _ (by decide), UInt8.toNat_toUInt32]
  exact Nat.div_eq_of_lt hb

theorem partes_h4 : (partes blk).h4.toNat = limb (numeros blk) 4 := by
  simp only [partes, limb, byte_shr_8, UInt32.zero_or, toNat_word]

/-- A block's limbs hold its coefficient. -/
theorem partes_valor {pedaco : List UInt8} (h : pedaco.length ≤ 16) :
    (partes (pedaco ++ [1])).h0.toNat + (partes (pedaco ++ [1])).h1.toNat * 2 ^ 26 +
      (partes (pedaco ++ [1])).h2.toNat * 2 ^ 52 + (partes (pedaco ++ [1])).h3.toNat * 2 ^ 78 +
      (partes (pedaco ++ [1])).h4.toNat * 2 ^ 104 = coeficiente pedaco := by
  rw [partes_h0, partes_h1, partes_h2, partes_h3, partes_h4, limbs_dezassete, coeficiente,
    le_dezassete (by rw [List.length_append]; exact Nat.succ_le_succ h)]

end Partes

/-! ## The clamped key -/

theorem and_byte {a b : Nat} (x y : Nat) (ha : a < 2 ^ 8) (hb : b < 2 ^ 8) :
    (a + 2 ^ 8 * x) &&& (b + 2 ^ 8 * y) = (a &&& b) + 2 ^ 8 * (x &&& y) := by
  have hm := Nat.and_mod_two_pow (a := a + 2 ^ 8 * x) (b := b + 2 ^ 8 * y) (n := 8)
  have hd := Nat.and_div_two_pow (a := a + 2 ^ 8 * x) (b := b + 2 ^ 8 * y) (n := 8)
  rw [Nat.add_mul_mod_self_left, Nat.add_mul_mod_self_left, Nat.mod_eq_of_lt ha,
    Nat.mod_eq_of_lt hb] at hm
  rw [Nat.add_mul_div_left _ _ (by decide), Nat.add_mul_div_left _ _ (by decide),
    Nat.div_eq_of_lt ha, Nat.div_eq_of_lt hb, Nat.zero_add, Nat.zero_add] at hd
  rw [← hm, ← hd, Nat.mod_add_div]

/-- The bits two strings share are the bits their numbers share. -/
theorem le_and (xs ys : List UInt8) :
    le (List.zipWith (· &&& ·) xs ys) = le xs &&& le ys := by
  induction xs generalizing ys with
  | nil => simp
  | cons x xs ih =>
    cases ys with
    | nil => simp
    | cons y ys =>
      rw [List.zipWith_cons_cons, le_cons, le_cons, le_cons, ih, UInt8.toNat_and]
      exact (and_byte _ _ x.toNat_lt y.toNat_lt).symm

def mascara : List UInt8 :=
  [255, 255, 255, 15, 252, 255, 255, 15, 252, 255, 255, 15, 252, 255, 255, 15]

def presa (key : List UInt8) : List UInt8 := List.zipWith (· &&& ·) (key.take 16) mascara

theorem le_presa (key : List UInt8) : le (presa key) = r key := by
  have hm : le mascara = 0x0ffffffc0ffffffc0ffffffc0fffffff := by decide
  rw [presa, le_and, hm, r]

theorem rb_mascara (key : List UInt8) {i : Nat} (h : i < 16) :
    rb key i = key.getD i 0 &&& mascara.getD i 0 := by
  simp only [rb]
  split_ifs with h15 h252
  · rcases h15 with rfl | rfl | rfl | rfl <;> rfl
  · rcases h252 with rfl | rfl | rfl <;> rfl
  · have hm : mascara.getD i 0 = 255 := by interval_cases i <;> simp_all [mascara]
    rw [hm]
    exact UInt8.and_neg_one.symm

theorem presa_getD (key : List UInt8) {i : Nat} (h : i < 16) :
    (presa key).getD i 0 = rb key i := by
  have hl : mascara.length = 16 := rfl
  rw [rb_mascara key h]
  by_cases hk : i < key.length
  · simp [presa, hk, h, hl]
  · simp [presa, hk]

/-- Bits put above the limb do not count. -/
theorem toNat_mascara_or (x y : UInt32) {n : UInt32} (hn : 26 ≤ n.toNat) (hn' : n.toNat < 32) :
    ((x ||| y <<< n) &&& 0x3FFFFFF).toNat = x.toNat % 2 ^ 26 := by
  have hy : (y <<< n).toNat % 2 ^ 26 = 0 := by
    rw [toNat_shl _ _ hn', Nat.mod_mod_of_dvd _ (Nat.pow_dvd_pow 2 (by decide))]
    exact Nat.mod_eq_zero_of_dvd (Dvd.dvd.mul_left (Nat.pow_dvd_pow 2 hn) _)
  rw [toNat_mascara, UInt32.toNat_or, Nat.or_mod_two_pow, hy, Nat.or_zero]

section Presa

variable (key : List UInt8)

theorem numeros_presa {i : Nat} (h : i < 16) : numeros (presa key) i = (rb key i).toNat := by
  rw [numeros, presa_getD key h]

theorem carrega_r0 : (carrega key).r0.toNat = limb (numeros (presa key)) 0 := by
  have h0 := (rb key 0).toNat_lt
  have h1 := (rb key 1).toNat_lt
  have h2 := (rb key 2).toNat_lt
  simp (disch := decide) only [carrega, toNat_mascara, toNat_word, limb, numeros_presa]
  omega

theorem carrega_r1 : (carrega key).r1.toNat = limb (numeros (presa key)) 1 := by
  have h3 := (rb key 3).toNat_lt
  have h4 := (rb key 4).toNat_lt
  have h5 := (rb key 5).toNat_lt
  simp (disch := decide) only [carrega, toNat_mascara_or, limb, numeros_presa]
  rw [toNat_alto _ _ _ _ (by decide) (by decide) (by decide)]
  simp only [UInt32.reduceToNat]
  omega

theorem carrega_r2 : (carrega key).r2.toNat = limb (numeros (presa key)) 2 := by
  have h6 := (rb key 6).toNat_lt
  have h7 := (rb key 7).toNat_lt
  have h8 := (rb key 8).toNat_lt
  simp (disch := decide) only [carrega, toNat_mascara_or, limb, numeros_presa]
  rw [toNat_alto _ _ _ _ (by decide) (by decide) (by decide)]
  simp only [UInt32.reduceToNat]
  omega

theorem carrega_r3 : (carrega key).r3.toNat = limb (numeros (presa key)) 3 := by
  have h9 := (rb key 9).toNat_lt
  have h10 := (rb key 10).toNat_lt
  have h11 := (rb key 11).toNat_lt
  have h12 := (rb key 12).toNat_lt
  simp (disch := decide) only [carrega, toNat_mascara_or, limb, numeros_presa]
  rw [toNat_alto _ _ _ _ (by decide) (by decide) (by decide)]
  simp only [UInt32.reduceToNat]
  omega

theorem carrega_r4 : (carrega key).r4.toNat = limb (numeros (presa key)) 4 := by
  have h13 := (rb key 13).toNat_lt
  have h14 := (rb key 14).toNat_lt
  have h15 := (rb key 15).toNat_lt
  have hz : (rb key 13).toUInt32 <<< 0 = (rb key 13).toUInt32 := UInt32.shiftLeft_zero
  have h16 : numeros (presa key) 16 = 0 := by simp [numeros, presa, mascara]
  have hw := toNat_word (rb key 13) (rb key 14) (rb key 15) 0
  rw [show (0 : UInt8).toUInt32 = 0 from rfl, UInt32.zero_shiftLeft, UInt32.or_zero] at hw
  simp (disch := decide) only [carrega, byte_shr_8, UInt32.zero_or, hz, toNat_mascara, hw, limb,
    numeros_presa, h16]
  simp only [UInt8.toNat_zero]
  omega

/-- What the loop needs of the key: the limbs of `x`, and five times them. -/
structure Chave.Guarda (k : Chave) (x : Nat) : Prop where
  r0 : k.r0.toNat < 2 ^ 26
  r1 : k.r1.toNat < 2 ^ 26
  r2 : k.r2.toNat < 2 ^ 26
  r3 : k.r3.toNat < 2 ^ 26
  r4 : k.r4.toNat < 2 ^ 26
  s0 : k.s0.toNat = 5 * k.r1.toNat
  s1 : k.s1.toNat = 5 * k.r2.toNat
  s2 : k.s2.toNat = 5 * k.r3.toNat
  s3 : k.s3.toNat = 5 * k.r4.toNat
  valor : k.r0.toNat + k.r1.toNat * 2 ^ 26 + k.r2.toNat * 2 ^ 52 + k.r3.toNat * 2 ^ 78 +
    k.r4.toNat * 2 ^ 104 = x

theorem mascara_lt (x : UInt32) : (x &&& 0x3FFFFFF).toNat < 2 ^ 26 := by
  rw [toNat_mascara]
  exact Nat.mod_lt _ (by decide)

theorem toNat_vezes_5 {x : UInt32} (h : x.toNat < 2 ^ 26) : (x * 5).toNat = 5 * x.toNat := by
  simp only [UInt32.toNat_mul, UInt32.reduceToNat]
  omega

theorem carrega_guarda : (carrega key).Guarda (r key) where
  r0 := mascara_lt _
  r1 := mascara_lt _
  r2 := mascara_lt _
  r3 := mascara_lt _
  r4 := mascara_lt _
  s0 := toNat_vezes_5 (mascara_lt _)
  s1 := toNat_vezes_5 (mascara_lt _)
  s2 := toNat_vezes_5 (mascara_lt _)
  s3 := toNat_vezes_5 (mascara_lt _)
  valor := by
    have hl : (presa key).length ≤ 17 := by
      simp [presa, mascara]
    rw [carrega_r0, carrega_r1, carrega_r2, carrega_r3, carrega_r4, limbs_dezassete, ← le_presa,
      le_dezassete hl]

end Presa

/-! ## A block without overflow -/

/-- The sums of two limbs fit in 32 bits. -/
def soma_exata (h t : Limbs) : Prop :=
  h.h0.toNat + t.h0.toNat < 2 ^ 32 ∧ h.h1.toNat + t.h1.toNat < 2 ^ 32 ∧
    h.h2.toNat + t.h2.toNat < 2 ^ 32 ∧ h.h3.toNat + t.h3.toNat < 2 ^ 32 ∧
    h.h4.toNat + t.h4.toNat < 2 ^ 32

/-- The sum of five products. -/
def cinco (x0 y0 x1 y1 x2 y2 x3 y3 x4 y4 : UInt32) : Nat :=
  x0.toNat * y0.toNat + x1.toNat * y1.toNat + x2.toNat * y2.toNat + x3.toNat * y3.toNat +
    x4.toNat * y4.toNat

/-- `d0` to `d4` fit in 64 bits. -/
def produto_exato (k : Chave) (h : Limbs) : Prop :=
  cinco h.h0 k.r0 h.h1 k.s3 h.h2 k.s2 h.h3 k.s1 h.h4 k.s0 < 2 ^ 64 ∧
    cinco h.h0 k.r1 h.h1 k.r0 h.h2 k.s3 h.h3 k.s2 h.h4 k.s1 < 2 ^ 64 ∧
    cinco h.h0 k.r2 h.h1 k.r1 h.h2 k.r0 h.h3 k.s3 h.h4 k.s2 < 2 ^ 64 ∧
    cinco h.h0 k.r3 h.h1 k.r2 h.h2 k.r1 h.h3 k.r0 h.h4 k.s3 < 2 ^ 64 ∧
    cinco h.h0 k.r4 h.h1 k.r3 h.h2 k.r2 h.h3 k.r1 h.h4 k.r0 < 2 ^ 64

/-- Each carry fits in 32 bits, and each of `d1` to `d4` takes the one before it. -/
def propaga_exata (d : Produto) : Prop :=
  let e := propaga d
  (e.d0.toNat / 2 ^ 26 < 2 ^ 32 ∧ d.d1.toNat + e.d0.toNat / 2 ^ 26 < 2 ^ 64) ∧
    (e.d1.toNat / 2 ^ 26 < 2 ^ 32 ∧ d.d2.toNat + e.d1.toNat / 2 ^ 26 < 2 ^ 64) ∧
    (e.d2.toNat / 2 ^ 26 < 2 ^ 32 ∧ d.d3.toNat + e.d2.toNat / 2 ^ 26 < 2 ^ 64) ∧
    (e.d3.toNat / 2 ^ 26 < 2 ^ 32 ∧ d.d4.toNat + e.d3.toNat / 2 ^ 26 < 2 ^ 64)

/-- The last carry, `c * 5`, and what `h0` and `h1` take. -/
def recolhe_exata (d : Produto) : Prop :=
  let c := d.d4.toNat / 2 ^ 26
  let h0 := d.d0.toNat % 2 ^ 26 + c * 5
  c < 2 ^ 32 ∧ c * 5 < 2 ^ 32 ∧ h0 < 2 ^ 32 ∧ d.d1.toNat % 2 ^ 26 + h0 / 2 ^ 26 < 2 ^ 32

/-- No word of one turn of the loop overflows. -/
def bloco_exato (k : Chave) (h : Limbs) (pedaco : List UInt8) : Prop :=
  let a := soma h (partes (pedaco ++ [1]))
  soma_exata h (partes (pedaco ++ [1])) ∧ produto_exato k a ∧ propaga_exata (produto k a) ∧
    recolhe_exata (propaga (produto k a))

theorem toNat_cinco {x0 y0 x1 y1 x2 y2 x3 y3 x4 y4 : UInt32}
    (h : cinco x0 y0 x1 y1 x2 y2 x3 y3 x4 y4 < 2 ^ 64) :
    (x0.toUInt64 * y0.toUInt64 + x1.toUInt64 * y1.toUInt64 + x2.toUInt64 * y2.toUInt64 +
      x3.toUInt64 * y3.toUInt64 + x4.toUInt64 * y4.toUInt64).toNat =
      cinco x0 y0 x1 y1 x2 y2 x3 y3 x4 y4 := by
  simp only [UInt64.toNat_add, UInt64.toNat_mul, UInt32.toNat_toUInt64, Nat.mod_add_mod,
    Nat.add_mod_mod]
  exact Nat.mod_eq_of_lt h

theorem toNat_vai {d : UInt64} (h : d.toNat / 2 ^ 26 < 2 ^ 32) :
    (vai d).toNat = d.toNat / 2 ^ 26 := by
  have hs : (d >>> 26).toNat = d.toNat / 2 ^ 26 := by
    rw [UInt64.toNat_shiftRight, Nat.shiftRight_eq_div_pow]
    rfl
  rw [vai, UInt64.toNat_toUInt32, hs, Nat.mod_eq_of_lt h]

theorem toNat_add_vai {d e : UInt64} (h : e.toNat / 2 ^ 26 < 2 ^ 32)
    (h' : d.toNat + e.toNat / 2 ^ 26 < 2 ^ 64) :
    (d + (vai e).toUInt64).toNat = d.toNat + e.toNat / 2 ^ 26 := by
  rw [UInt64.toNat_add, UInt32.toNat_toUInt64, toNat_vai h, Nat.mod_eq_of_lt h']

theorem toNat_baixo (d : UInt64) :
    ((d >>> 0).toUInt32 &&& 0x3FFFFFF).toNat = d.toNat % 2 ^ 26 := by
  have hz : d >>> 0 = d := UInt64.shiftRight_zero
  rw [toNat_mascara, hz, UInt64.toNat_toUInt32,
    Nat.mod_mod_of_dvd _ (Nat.pow_dvd_pow 2 (by decide))]

/-! ## Values -/

def Limbs.valor (h : Limbs) : Nat :=
  h.h0.toNat + h.h1.toNat * 2 ^ 26 + h.h2.toNat * 2 ^ 52 + h.h3.toNat * 2 ^ 78 +
    h.h4.toNat * 2 ^ 104

def Produto.valor (d : Produto) : Nat :=
  d.d0.toNat + d.d1.toNat * 2 ^ 26 + d.d2.toNat * 2 ^ 52 + d.d3.toNat * 2 ^ 78 +
    d.d4.toNat * 2 ^ 104

/-- The limbs between two blocks: the carry into `h1` is not taken further. -/
structure Limbs.Dentro (h : Limbs) : Prop where
  h0 : h.h0.toNat < 2 ^ 26
  h1 : h.h1.toNat < 2 ^ 26 + 2 ^ 7
  h2 : h.h2.toNat < 2 ^ 26
  h3 : h.h3.toNat < 2 ^ 26
  h4 : h.h4.toNat < 2 ^ 26

/-- The limbs with a block added. -/
structure Limbs.Ate (h : Limbs) : Prop where
  h0 : h.h0.toNat ≤ 2 ^ 27 + 2 ^ 7
  h1 : h.h1.toNat ≤ 2 ^ 27 + 2 ^ 7
  h2 : h.h2.toNat ≤ 2 ^ 27 + 2 ^ 7
  h3 : h.h3.toNat ≤ 2 ^ 27 + 2 ^ 7
  h4 : h.h4.toNat ≤ 2 ^ 27 + 2 ^ 7

/-- The products before the carries; `d4` has none of the factors that are five times a limb. -/
structure Produto.Ate (d : Produto) : Prop where
  d0 : d.d0.toNat ≤ 25 * (2 ^ 27 + 2 ^ 7) * 2 ^ 26
  d1 : d.d1.toNat ≤ 25 * (2 ^ 27 + 2 ^ 7) * 2 ^ 26
  d2 : d.d2.toNat ≤ 25 * (2 ^ 27 + 2 ^ 7) * 2 ^ 26
  d3 : d.d3.toNat ≤ 25 * (2 ^ 27 + 2 ^ 7) * 2 ^ 26
  d4 : d.d4.toNat ≤ 5 * (2 ^ 27 + 2 ^ 7) * 2 ^ 26

section Passo

variable {k : Chave} {x : Nat} {h t : Limbs} {d : Produto} {pedaco : List UInt8}

theorem partes_lt (hp : pedaco.length ≤ 16) :
    (partes (pedaco ++ [1])).h0.toNat < 2 ^ 26 ∧ (partes (pedaco ++ [1])).h1.toNat < 2 ^ 26 ∧
      (partes (pedaco ++ [1])).h2.toNat < 2 ^ 26 ∧ (partes (pedaco ++ [1])).h3.toNat < 2 ^ 26 ∧
      (partes (pedaco ++ [1])).h4.toNat < 2 ^ 26 := by
  refine ⟨mascara_lt _, mascara_lt _, mascara_lt _, mascara_lt _, ?_⟩
  have h13 := ((pedaco ++ [1]).getD 13 0).toNat_lt
  have h14 := ((pedaco ++ [1]).getD 14 0).toNat_lt
  have h15 := ((pedaco ++ [1]).getD 15 0).toNat_lt
  have h16 : ((pedaco ++ [1]).getD 16 0).toNat ≤ 1 := by
    by_cases hl : pedaco.length = 16
    · simp [← hl]
    · have hz : (pedaco ++ [1]).getD 16 0 = 0 := by
        rw [List.getD_eq_getElem?_getD, List.getElem?_eq_none (by simp; omega), Option.getD_none]
      rw [hz]
      decide
  rw [partes_h4]
  simp only [limb, numeros]
  omega

theorem soma_passo (hh : h.Dentro) (h0 : t.h0.toNat < 2 ^ 26) (h1 : t.h1.toNat < 2 ^ 26)
    (h2 : t.h2.toNat < 2 ^ 26) (h3 : t.h3.toNat < 2 ^ 26) (h4 : t.h4.toNat < 2 ^ 26) :
    soma_exata h t ∧ (soma h t).Ate ∧ (soma h t).valor = h.valor + t.valor := by
  obtain ⟨g0, g1, g2, g3, g4⟩ := hh
  have he : soma_exata h t := ⟨by omega, by omega, by omega, by omega, by omega⟩
  have e0 : (soma h t).h0.toNat = h.h0.toNat + t.h0.toNat := toNat_add_of_lt he.1
  have e1 : (soma h t).h1.toNat = h.h1.toNat + t.h1.toNat := toNat_add_of_lt he.2.1
  have e2 : (soma h t).h2.toNat = h.h2.toNat + t.h2.toNat := toNat_add_of_lt he.2.2.1
  have e3 : (soma h t).h3.toNat = h.h3.toNat + t.h3.toNat := toNat_add_of_lt he.2.2.2.1
  have e4 : (soma h t).h4.toNat = h.h4.toNat + t.h4.toNat := toNat_add_of_lt he.2.2.2.2
  refine ⟨he, ⟨by omega, by omega, by omega, by omega, by omega⟩, ?_⟩
  rw [Limbs.valor, e0, e1, e2, e3, e4, Limbs.valor, Limbs.valor]
  ring

/-- Five products of a limb of the sum and a limb of the key, or five times one. -/
theorem cinco_le {y0 y1 y2 y3 y4 : UInt32} {m : Nat} (hh : h.Ate) (g0 : y0.toNat ≤ m)
    (g1 : y1.toNat ≤ m) (g2 : y2.toNat ≤ m) (g3 : y3.toNat ≤ m) (g4 : y4.toNat ≤ m) :
    cinco h.h0 y0 h.h1 y1 h.h2 y2 h.h3 y3 h.h4 y4 ≤ 5 * ((2 ^ 27 + 2 ^ 7) * m) := by
  have e0 := Nat.mul_le_mul hh.h0 g0
  have e1 := Nat.mul_le_mul hh.h1 g1
  have e2 := Nat.mul_le_mul hh.h2 g2
  have e3 := Nat.mul_le_mul hh.h3 g3
  have e4 := Nat.mul_le_mul hh.h4 g4
  unfold cinco
  omega

theorem produto_exato_de (hk : k.Guarda x) (hh : h.Ate) : produto_exato k h := by
  obtain ⟨r0, r1, r2, r3, r4, s0, s1, s2, s3, -⟩ := hk
  have l : 5 * ((2 ^ 27 + 2 ^ 7) * (5 * 2 ^ 26)) < 2 ^ 64 := by decide
  refine ⟨?_, ?_, ?_, ?_, ?_⟩ <;>
    exact (cinco_le hh (by omega) (by omega) (by omega) (by omega) (by omega)).trans_lt l

theorem produto_ate (hk : k.Guarda x) (hh : h.Ate) : (produto k h).Ate := by
  obtain ⟨e0, e1, e2, e3, e4⟩ := produto_exato_de hk hh
  obtain ⟨r0, r1, r2, r3, r4, s0, s1, s2, s3, -⟩ := hk
  constructor
  · exact (toNat_cinco e0).trans_le (cinco_le (m := 5 * 2 ^ 26) hh
      (by omega) (by omega) (by omega) (by omega) (by omega))
  · exact (toNat_cinco e1).trans_le (cinco_le (m := 5 * 2 ^ 26) hh
      (by omega) (by omega) (by omega) (by omega) (by omega))
  · exact (toNat_cinco e2).trans_le (cinco_le (m := 5 * 2 ^ 26) hh
      (by omega) (by omega) (by omega) (by omega) (by omega))
  · exact (toNat_cinco e3).trans_le (cinco_le (m := 5 * 2 ^ 26) hh
      (by omega) (by omega) (by omega) (by omega) (by omega))
  · exact (toNat_cinco e4).trans_le (cinco_le (m := 2 ^ 26) hh
      (by omega) (by omega) (by omega) (by omega) (by omega))

/-- The product, with what lies above 2^130 folded back five times. -/
theorem produto_valor (hk : k.Guarda x) (hh : h.Ate) :
    ∃ q, (produto k h).valor + primo * q = h.valor * x := by
  obtain ⟨e0, e1, e2, e3, e4⟩ := produto_exato_de hk hh
  have d0 := toNat_cinco e0
  have d1 := toNat_cinco e1
  have d2 := toNat_cinco e2
  have d3 := toNat_cinco e3
  have d4 := toNat_cinco e4
  obtain ⟨-, -, -, -, -, s0, s1, s2, s3, hx⟩ := hk
  refine ⟨h.h1.toNat * k.r4.toNat + h.h2.toNat * k.r3.toNat + h.h3.toNat * k.r2.toNat +
    h.h4.toNat * k.r1.toNat + (h.h2.toNat * k.r4.toNat + h.h3.toNat * k.r3.toNat +
    h.h4.toNat * k.r2.toNat) * 2 ^ 26 + (h.h3.toNat * k.r4.toNat +
    h.h4.toNat * k.r3.toNat) * 2 ^ 52 + h.h4.toNat * k.r4.toNat * 2 ^ 78, ?_⟩
  have hv : (produto k h).valor = cinco h.h0 k.r0 h.h1 k.s3 h.h2 k.s2 h.h3 k.s1 h.h4 k.s0 +
      cinco h.h0 k.r1 h.h1 k.r0 h.h2 k.s3 h.h3 k.s2 h.h4 k.s1 * 2 ^ 26 +
      cinco h.h0 k.r2 h.h1 k.r1 h.h2 k.r0 h.h3 k.s3 h.h4 k.s2 * 2 ^ 52 +
      cinco h.h0 k.r3 h.h1 k.r2 h.h2 k.r1 h.h3 k.r0 h.h4 k.s3 * 2 ^ 78 +
      cinco h.h0 k.r4 h.h1 k.r3 h.h2 k.r2 h.h3 k.r1 h.h4 k.r0 * 2 ^ 104 := by
    rw [← d0, ← d1, ← d2, ← d3, ← d4]
    rfl
  have hp : primo = 1361129467683753853853498429727072845819 := rfl
  rw [hv, ← hx, Limbs.valor, hp]
  simp only [cinco, s0, s1, s2, s3]
  ring

/-- The carries into `d1` to `d4`, as numbers. -/
theorem propaga_passo (hd : d.Ate) :
    propaga_exata d ∧ (propaga d).d0.toNat = d.d0.toNat ∧
      (propaga d).d1.toNat = d.d1.toNat + (propaga d).d0.toNat / 2 ^ 26 ∧
      (propaga d).d2.toNat = d.d2.toNat + (propaga d).d1.toNat / 2 ^ 26 ∧
      (propaga d).d3.toNat = d.d3.toNat + (propaga d).d2.toNat / 2 ^ 26 ∧
      (propaga d).d4.toNat = d.d4.toNat + (propaga d).d3.toNat / 2 ^ 26 := by
  obtain ⟨l0, l1, l2, l3, l4⟩ := hd
  have h0 : (propaga d).d0.toNat = d.d0.toNat := rfl
  have c0 : (propaga d).d0.toNat / 2 ^ 26 < 2 ^ 32 := by omega
  have e1 : (propaga d).d1.toNat = d.d1.toNat + (propaga d).d0.toNat / 2 ^ 26 :=
    toNat_add_vai (e := (propaga d).d0) c0 (by omega)
  have c1 : (propaga d).d1.toNat / 2 ^ 26 < 2 ^ 32 := by omega
  have e2 : (propaga d).d2.toNat = d.d2.toNat + (propaga d).d1.toNat / 2 ^ 26 :=
    toNat_add_vai (e := (propaga d).d1) c1 (by omega)
  have c2 : (propaga d).d2.toNat / 2 ^ 26 < 2 ^ 32 := by omega
  have e3 : (propaga d).d3.toNat = d.d3.toNat + (propaga d).d2.toNat / 2 ^ 26 :=
    toNat_add_vai (e := (propaga d).d2) c2 (by omega)
  have c3 : (propaga d).d3.toNat / 2 ^ 26 < 2 ^ 32 := by omega
  have e4 : (propaga d).d4.toNat = d.d4.toNat + (propaga d).d3.toNat / 2 ^ 26 :=
    toNat_add_vai (e := (propaga d).d3) c3 (by omega)
  exact ⟨⟨⟨c0, by omega⟩, ⟨c1, by omega⟩, ⟨c2, by omega⟩, ⟨c3, by omega⟩⟩, h0, e1, e2, e3, e4⟩

/-- The last carry goes round, five times itself. -/
theorem recolhe_passo (hd : d.d4.toNat ≤ 5 * (2 ^ 27 + 2 ^ 7) * 2 ^ 26 + 2 ^ 32) :
    recolhe_exata d ∧ (recolhe d).Dentro ∧
      (recolhe d).h0.toNat = (d.d0.toNat % 2 ^ 26 + d.d4.toNat / 2 ^ 26 * 5) % 2 ^ 26 ∧
      (recolhe d).h1.toNat = d.d1.toNat % 2 ^ 26 +
        (d.d0.toNat % 2 ^ 26 + d.d4.toNat / 2 ^ 26 * 5) / 2 ^ 26 ∧
      (recolhe d).h2.toNat = d.d2.toNat % 2 ^ 26 ∧ (recolhe d).h3.toNat = d.d3.toNat % 2 ^ 26 ∧
      (recolhe d).h4.toNat = d.d4.toNat % 2 ^ 26 := by
  have hc : (vai d.d4).toNat = d.d4.toNat / 2 ^ 26 := toNat_vai (by omega)
  have h0 : (((d.d0 >>> 0).toUInt32 &&& 0x3FFFFFF) + vai d.d4 * 5).toNat =
      d.d0.toNat % 2 ^ 26 + d.d4.toNat / 2 ^ 26 * 5 := by
    simp only [UInt32.toNat_add, UInt32.toNat_mul, toNat_baixo, hc, UInt32.reduceToNat]
    omega
  have e0 : (recolhe d).h0.toNat =
      (d.d0.toNat % 2 ^ 26 + d.d4.toNat / 2 ^ 26 * 5) % 2 ^ 26 := by
    rw [recolhe, toNat_mascara, h0]
  have e1 : (recolhe d).h1.toNat = d.d1.toNat % 2 ^ 26 +
      (d.d0.toNat % 2 ^ 26 + d.d4.toNat / 2 ^ 26 * 5) / 2 ^ 26 := by
    simp only [recolhe, UInt32.toNat_add, toNat_baixo, toNat_shr _ 26 (by decide), h0,
      UInt32.reduceToNat]
    omega
  have e2 : (recolhe d).h2.toNat = d.d2.toNat % 2 ^ 26 := toNat_baixo _
  have e3 : (recolhe d).h3.toNat = d.d3.toNat % 2 ^ 26 := toNat_baixo _
  have e4 : (recolhe d).h4.toNat = d.d4.toNat % 2 ^ 26 := toNat_baixo _
  refine ⟨⟨by omega, by omega, by omega, by omega⟩, ⟨by omega, by omega, by omega, by omega,
    by omega⟩, e0, e1, e2, e3, e4⟩

/-- The carries keep the value, up to the prime. -/
theorem carrega_valor (hd : d.Ate) :
    recolhe_exata (propaga d) ∧ (recolhe (propaga d)).Dentro ∧
      ∃ q, (recolhe (propaga d)).valor + primo * q = d.valor := by
  obtain ⟨-, p0, p1, p2, p3, p4⟩ := propaga_passo hd
  obtain ⟨l0, l1, l2, l3, l4⟩ := hd
  obtain ⟨hr, hi, e0, e1, e2, e3, e4⟩ := recolhe_passo (d := propaga d) (by omega)
  refine ⟨hr, hi, (propaga d).d4.toNat / 2 ^ 26, ?_⟩
  have hp : primo = 1361129467683753853853498429727072845819 := rfl
  rw [Limbs.valor, Produto.valor, e0, e1, e2, e3, e4, hp]
  omega

/-- One turn of the loop: no word overflows, and the accumulator is the next one. -/
theorem bloco_passo (hk : k.Guarda x) (hh : h.Dentro) (hp : pedaco.length ≤ 16) :
    bloco_exato k h pedaco ∧ (bloco k h pedaco).Dentro ∧
      (bloco k h pedaco).valor ≡ (h.valor + coeficiente pedaco) * x [MOD primo] := by
  obtain ⟨t0, t1, t2, t3, t4⟩ := partes_lt hp
  obtain ⟨hs, ha, hv⟩ := soma_passo hh t0 t1 t2 t3 t4
  have hd := produto_ate hk ha
  obtain ⟨hr, hi, q, hq⟩ := carrega_valor hd
  obtain ⟨q', hq'⟩ := produto_valor hk ha
  refine ⟨⟨hs, produto_exato_de hk ha, (propaga_passo hd).1, hr⟩, hi, ?_⟩
  have ht : (partes (pedaco ++ [1])).valor = coeficiente pedaco := partes_valor hp
  rw [← ht, ← hv, ← hq', ← hq]
  simp [Nat.ModEq, bloco, Nat.add_assoc, ← Nat.mul_add]

end Passo

/-! ## The loop -/

theorem laco_eq (k : Chave) (h : Limbs) (msg : List UInt8) :
    laco k h msg = (chunks 16 msg).foldl (bloco k) h := by
  induction msg using chunks_induction (n := 16) (by decide) generalizing h with
  | nil => rw [laco, if_pos rfl, chunks_nil, List.foldl_nil]
  | step msg hm ih =>
    rw [laco, if_neg hm, ih, chunks_of_ne_nil (by decide) hm, List.foldl_cons]

/-- No word overflows in any turn of the loop. -/
def laco_exato (k : Chave) (h : Limbs) (msg : List UInt8) : Prop :=
  ∀ antes pedaco depois, chunks 16 msg = antes ++ pedaco :: depois →
    bloco_exato k (antes.foldl (bloco k) h) pedaco

/-- Horner's rule for the polynomial. -/
def horner (x a : Nat) (blocos : List (List UInt8)) : Nat :=
  blocos.foldl (fun a p => (a + coeficiente p) * x) a

theorem blocos_passo {k : Chave} {x : Nat} (hk : k.Guarda x) {blocos : List (List UInt8)}
    (hb : ∀ p ∈ blocos, p.length ≤ 16) {h : Limbs} {a : Nat} (hh : h.Dentro)
    (ha : h.valor ≡ a [MOD primo]) :
    (blocos.foldl (bloco k) h).Dentro ∧
      (blocos.foldl (bloco k) h).valor ≡ horner x a blocos [MOD primo] := by
  induction blocos generalizing h a with
  | nil => exact ⟨hh, ha⟩
  | cons p blocos ih =>
    obtain ⟨-, hi, hv⟩ := bloco_passo hk hh (hb p List.mem_cons_self)
    exact ih (fun q hq => hb q (List.mem_cons_of_mem _ hq)) hi
      (hv.trans ((ha.add_right _).mul_right x))

theorem horner_eq (x : Nat) (msg : List UInt8) :
    horner x 0 (chunks 16 msg) = polinomio x msg := by
  unfold polinomio
  generalize chunks 16 msg = blocos
  induction blocos using List.reverseRecOn with
  | nil => simp [horner]
  | append_singleton blocos p ih =>
    have hs : horner x 0 (blocos ++ [p]) = (horner x 0 blocos + coeficiente p) * x := by
      simp [horner]
    simp only [hs, ih, List.length_append, List.length_cons, List.length_nil, Nat.zero_add]
    rw [Finset.sum_range_succ, Nat.add_mul, Finset.sum_mul]
    congr 1
    · apply Finset.sum_congr rfl
      intro i hi
      have hi := Finset.mem_range.mp hi
      rw [List.getD_append _ _ _ _ hi, Nat.succ_sub (Nat.le_of_lt hi), Nat.pow_succ,
        Nat.mul_assoc]
    · simp

/-! ## The reduction -/

/-- The carries after the loop, as numbers; none of the words overflows. -/
def normaliza_exata (h : Limbs) : Prop :=
  let c1 := h.h1.toNat / 2 ^ 26
  let c2 := (h.h2.toNat + c1) / 2 ^ 26
  let c3 := (h.h3.toNat + c2) / 2 ^ 26
  let c4 := (h.h4.toNat + c3) / 2 ^ 26
  let c0 := (h.h0.toNat + c4 * 5) / 2 ^ 26
  h.h2.toNat + c1 < 2 ^ 32 ∧ h.h3.toNat + c2 < 2 ^ 32 ∧ h.h4.toNat + c3 < 2 ^ 32 ∧
    c4 * 5 < 2 ^ 32 ∧ h.h0.toNat + c4 * 5 < 2 ^ 32 ∧ h.h1.toNat % 2 ^ 26 + c0 < 2 ^ 32

/-- The same for the subtraction of the prime, up to the one that is meant to go below zero. -/
def menos_exato (h : Limbs) : Prop :=
  let c0 := (h.h0.toNat + 5) / 2 ^ 26
  let c1 := (h.h1.toNat + c0) / 2 ^ 26
  let c2 := (h.h2.toNat + c1) / 2 ^ 26
  let c3 := (h.h3.toNat + c2) / 2 ^ 26
  h.h0.toNat + 5 < 2 ^ 32 ∧ h.h1.toNat + c0 < 2 ^ 32 ∧ h.h2.toNat + c1 < 2 ^ 32 ∧
    h.h3.toNat + c2 < 2 ^ 32 ∧ h.h4.toNat + c3 < 2 ^ 32

/-- Every limb has 26 bits. -/
structure Limbs.Normal (h : Limbs) : Prop where
  h0 : h.h0.toNat < 2 ^ 26
  h1 : h.h1.toNat < 2 ^ 26
  h2 : h.h2.toNat < 2 ^ 26
  h3 : h.h3.toNat < 2 ^ 26
  h4 : h.h4.toNat < 2 ^ 26

theorem toNat_shr_26 (x : UInt32) : (x >>> 26).toNat = x.toNat / 2 ^ 26 :=
  toNat_shr x 26 (by decide)

theorem toNat_add_shr {a b : UInt32} (h : a.toNat + b.toNat / 2 ^ 26 < 2 ^ 32) :
    (a + b >>> 26).toNat = a.toNat + b.toNat / 2 ^ 26 := by
  rw [← toNat_shr_26] at h ⊢
  exact toNat_add_of_lt h

theorem normaliza_passo {h : Limbs} (hh : h.Dentro) :
    normaliza_exata h ∧ (normaliza h).Normal ∧ (normaliza h).valor ≡ h.valor [MOD primo] := by
  obtain ⟨h0, h1, h2, h3, h4⟩ := hh
  have he : normaliza_exata h := ⟨by omega, by omega, by omega, by omega, by omega, by omega⟩
  have a2 := toNat_add_shr (a := h.h2) (b := h.h1) (by omega)
  have a3 := toNat_add_shr (a := h.h3) (b := h.h2 + h.h1 >>> 26) (by omega)
  have a4 := toNat_add_shr (a := h.h4) (b := h.h3 + (h.h2 + h.h1 >>> 26) >>> 26) (by omega)
  generalize hg4 : h.h4 + (h.h3 + (h.h2 + h.h1 >>> 26) >>> 26) >>> 26 = g4 at a4
  generalize hg3 : h.h3 + (h.h2 + h.h1 >>> 26) >>> 26 = g3 at a3 a4
  generalize hg2 : h.h2 + h.h1 >>> 26 = g2 at a2 a3
  have c5 : (g4 >>> 26 * 5).toNat = g4.toNat / 2 ^ 26 * 5 := by
    simp only [UInt32.toNat_mul, toNat_shr_26, UInt32.reduceToNat]
    omega
  have a0 : (h.h0 + g4 >>> 26 * 5).toNat = h.h0.toNat + g4.toNat / 2 ^ 26 * 5 := by
    rw [toNat_add_of_lt (by omega), c5]
  generalize hg0 : h.h0 + g4 >>> 26 * 5 = g0 at a0
  have a1 : ((h.h1 &&& (0x3FFFFFF : UInt32)) + g0 >>> 26).toNat =
      h.h1.toNat % 2 ^ 26 + g0.toNat / 2 ^ 26 := by
    rw [toNat_add_shr (by rw [toNat_mascara]; omega), toNat_mascara]
  have hn : normaliza h = ⟨g0 &&& 0x3FFFFFF, (h.h1 &&& (0x3FFFFFF : UInt32)) + g0 >>> 26,
      g2 &&& 0x3FFFFFF, g3 &&& 0x3FFFFFF, g4 &&& 0x3FFFFFF⟩ := by
    rw [← hg0, ← hg4, ← hg3, ← hg2]
    rfl
  have hp : primo = 1361129467683753853853498429727072845819 := rfl
  refine ⟨he, ?_, ?_⟩
  · rw [hn]
    refine ⟨mascara_lt _, ?_, mascara_lt _, mascara_lt _, mascara_lt _⟩
    show (_ + _ : UInt32).toNat < _
    rw [a1]
    omega
  · have hv : (normaliza h).valor + primo * (g4.toNat / 2 ^ 26) = h.valor := by
      rw [hn, hp]
      simp only [Limbs.valor, a1, toNat_mascara]
      omega
    rw [← hv]
    simp [Nat.ModEq]

/-- The subtraction with its carries as numbers: either it goes below zero and `g4` says so, or it
does not and the limbs are those of the difference. -/
theorem menos_passo {h : Limbs} (hh : h.Normal) :
    menos_exato h ∧
      (h.valor < primo ∧ (menos_p h).h4 >>> 31 = 1 ∨
        (menos_p h).Normal ∧ (menos_p h).h4 = 0 ∧ (menos_p h).valor + primo = h.valor) := by
  obtain ⟨h0, h1, h2, h3, h4⟩ := hh
  have he : menos_exato h := ⟨by omega, by omega, by omega, by omega, by omega⟩
  have a0 : (h.h0 + 5).toNat = h.h0.toNat + 5 := toNat_add_of_lt (by simp; omega)
  have a1 := toNat_add_shr (a := h.h1) (b := h.h0 + 5) (by omega)
  have a2 := toNat_add_shr (a := h.h2) (b := h.h1 + (h.h0 + 5) >>> 26) (by omega)
  have a3 := toNat_add_shr (a := h.h3) (b := h.h2 + (h.h1 + (h.h0 + 5) >>> 26) >>> 26) (by omega)
  have a4 := toNat_add_shr (a := h.h4)
    (b := h.h3 + (h.h2 + (h.h1 + (h.h0 + 5) >>> 26) >>> 26) >>> 26) (by omega)
  generalize hg4 : h.h4 + (h.h3 + (h.h2 + (h.h1 + (h.h0 + 5) >>> 26) >>> 26) >>> 26) >>> 26 = g4
    at a4
  generalize hg3 : h.h3 + (h.h2 + (h.h1 + (h.h0 + 5) >>> 26) >>> 26) >>> 26 = g3 at a3 a4
  generalize hg2 : h.h2 + (h.h1 + (h.h0 + 5) >>> 26) >>> 26 = g2 at a2 a3
  generalize hg1 : h.h1 + (h.h0 + 5) >>> 26 = g1 at a1 a2
  generalize hg0 : h.h0 + 5 = g0 at a0 a1
  have hm : menos_p h = ⟨g0 &&& 0x3FFFFFF, g1 &&& 0x3FFFFFF, g2 &&& 0x3FFFFFF, g3 &&& 0x3FFFFFF,
      g4 - (1 : UInt32) <<< 26⟩ := by
    rw [← hg4, ← hg3, ← hg2, ← hg1, ← hg0]
    rfl
  have hp : primo = 1361129467683753853853498429727072845819 := rfl
  have hs : (g4 - (1 : UInt32) <<< 26).toNat = (2 ^ 32 - 2 ^ 26 + g4.toNat) % 2 ^ 32 :=
    UInt32.toNat_sub _ _
  refine ⟨he, ?_⟩
  by_cases hc : g4.toNat < 2 ^ 26
  · left
    refine ⟨by rw [Limbs.valor, hp]; omega, ?_⟩
    apply UInt32.toNat_inj.mp
    rw [hm, toNat_shr _ 31 (by decide), hs]
    simp only [UInt32.reduceToNat]
    omega
  · right
    have hz : g4 - (1 : UInt32) <<< 26 = 0 := by
      apply UInt32.toNat_inj.mp
      rw [hs]
      simp only [UInt32.reduceToNat]
      omega
    rw [hm, hz]
    refine ⟨⟨mascara_lt _, mascara_lt _, mascara_lt _, mascara_lt _, Nat.two_pow_pos 26⟩, rfl, ?_⟩
    simp only [Limbs.valor, toNat_mascara, hp, UInt32.reduceToNat]
    omega

/-- The limbs of the tag: those of the remainder. -/
theorem escolhe_passo {h : Limbs} (hh : h.Normal) :
    (escolhe h (menos_p h)).Normal ∧ (escolhe h (menos_p h)).valor = h.valor % primo := by
  obtain ⟨-, ⟨hlt, hg⟩ | ⟨hn, hg, hv⟩⟩ := menos_passo hh
  · have he : escolhe h (menos_p h) = h := by
      simp only [escolhe, hg, UInt32.sub_self, UInt32.not_zero, UInt32.and_neg_one,
        UInt32.and_zero, UInt32.or_zero]
    rw [he, Nat.mod_eq_of_lt hlt]
    exact ⟨hh, rfl⟩
  · have hm : ((menos_p h).h4 >>> 31) - 1 = (-1 : UInt32) := by rw [hg]; decide
    have he : escolhe h (menos_p h) = menos_p h := by
      simp only [escolhe, hm, UInt32.not_neg_one, UInt32.and_neg_one, UInt32.and_zero,
        UInt32.zero_or]
    have hlt : h.valor < 2 ^ 130 := by
      obtain ⟨h0, h1, h2, h3, h4⟩ := hh
      rw [Limbs.valor]
      omega
    have hp : primo = 1361129467683753853853498429727072845819 := rfl
    rw [he, ← hv, Nat.add_mod_right, Nat.mod_eq_of_lt (by omega)]
    exact ⟨hn, rfl⟩

/-! ## The tag -/

/-- The four bytes of a number from the byte `4 * j` on. -/
def fatia (n j : Nat) : List UInt8 :=
  [UInt8.ofNat (n / 256 ^ (4 * j)), UInt8.ofNat (n / 256 ^ (4 * j + 1)),
    UInt8.ofNat (n / 256 ^ (4 * j + 2)), UInt8.ofNat (n / 256 ^ (4 * j + 3))]

theorem em_bytes_eq (n : Nat) :
    em_bytes n = fatia n 0 ++ fatia n 1 ++ fatia n 2 ++ fatia n 3 := rfl

theorem bytes_eq {F : UInt64} {n j : Nat} (h : F.toNat % 2 ^ 32 = n / 256 ^ (4 * j) % 2 ^ 32) :
    bytes F = fatia n j := by
  have hd : ∀ k, n / 256 ^ (4 * j + k) = n / 256 ^ (4 * j) / 256 ^ k := fun k => by
    rw [Nat.pow_add, Nat.div_div_eq_div_mul]
  have h0 : F.toUInt8 = UInt8.ofNat (n / 256 ^ (4 * j)) := by
    have hz : F >>> 0 = F := UInt64.shiftRight_zero
    rw [← hz]
    exact toUInt8_shr64 F 0 (by decide) (by simp only [UInt64.reduceToNat]; omega)
  have h1 := toUInt8_shr64 F 8 (n := n / 256 ^ (4 * j + 1)) (by decide)
    (by rw [hd]; simp only [UInt64.reduceToNat]; omega)
  have h2 := toUInt8_shr64 F 16 (n := n / 256 ^ (4 * j + 2)) (by decide)
    (by rw [hd]; simp only [UInt64.reduceToNat]; omega)
  have h3 := toUInt8_shr64 F 24 (n := n / 256 ^ (4 * j + 3)) (by decide)
    (by rw [hd]; simp only [UInt64.reduceToNat]; omega)
  rw [bytes, fatia, h0, h1, h2, h3]

/-- The second half of the key. -/
def metade (key : List UInt8) : List UInt8 := (key.drop 16).take 16

theorem metade_getD (key : List UInt8) {i : Nat} (h : i < 16) :
    (metade key).getD i 0 = key.getD (16 + i) 0 := by
  simp [metade, List.getD_eq_getElem?_getD, h]

theorem f_eq (key : List UInt8) {i : Nat} (h : i ≤ 12) :
    (f key i).toNat = quatro (numeros (metade key)) i := by
  have hg : ∀ j < 4, (metade key).getD (i + j) 0 = key.getD (16 + i + j) 0 := fun j hj => by
    rw [metade_getD key (by omega), Nat.add_assoc]
  have h0 := hg 0 (by decide)
  have h1 := hg 1 (by decide)
  have h2 := hg 2 (by decide)
  have h3 := hg 3 (by decide)
  rw [Nat.add_zero] at h0
  rw [quatro, numeros, numeros, numeros, numeros, h0, h1, h2, h3]
  exact toNat_word _ _ _ _

theorem s_eq (key : List UInt8) :
    s key = (f key 0).toNat + (f key 4).toNat * 2 ^ 32 + (f key 8).toNat * 2 ^ 64 +
      (f key 12).toNat * 2 ^ 96 := by
  have hl : (metade key).length ≤ 17 := by
    rw [metade, List.length_take]
    omega
  have h16 : numeros (metade key) 16 = 0 := by
    simp [numeros, metade, List.getD_eq_getElem?_getD]
  have hs : s key = dezassete (numeros (metade key)) := le_dezassete hl
  rw [hs, dezassete, h16, Nat.zero_mul, Nat.add_zero, f_eq key (by decide), f_eq key (by decide),
    f_eq key (by decide), f_eq key (by decide)]

theorem toNat_todos (x : UInt32) : (x &&& 0xFFFFFFFF).toNat = x.toNat := by
  rw [toNat_and_low x 0xFFFFFFFF (n := 32) (by decide), Nat.mod_eq_of_lt x.toNat_lt]

/-- The high bits of a limb and the low bits of the next one, as a word of the tag. -/
theorem palavra_da_etiqueta (a b : UInt32) {k n : UInt32} (hk : k.toNat + n.toNat = 26)
    (ha : a.toNat < 2 ^ 26) :
    ((a >>> k ||| b <<< n) &&& 0xFFFFFFFF).toUInt64.toNat =
      a.toNat / 2 ^ k.toNat + b.toNat * 2 ^ n.toNat % 2 ^ 32 := by
  have hx : (a >>> k).toNat = a.toNat / 2 ^ k.toNat := toNat_shr _ _ (by omega)
  have hl : a.toNat / 2 ^ k.toNat < 2 ^ n.toNat := by
    rw [Nat.div_lt_iff_lt_mul (Nat.two_pow_pos _), ← Nat.pow_add, Nat.add_comm, hk]
    exact ha
  rw [UInt32.toNat_toUInt64, toNat_todos, toNat_or_shl _ _ _ (by omega) (hx ▸ hl), hx]

theorem toNat_F (F : UInt64) (w g : UInt32) :
    (F >>> 32 + (w.toUInt64 + g.toUInt64)).toNat = F.toNat / 2 ^ 32 + (w.toNat + g.toNat) := by
  have hF := F.toNat_lt
  have hw := w.toNat_lt
  have hg := g.toNat_lt
  have hs : (F >>> 32).toNat = F.toNat / 2 ^ 32 := by
    rw [UInt64.toNat_shiftRight, Nat.shiftRight_eq_div_pow]
    rfl
  rw [UInt64.toNat_add, UInt64.toNat_add, hs, UInt32.toNat_toUInt64, UInt32.toNat_toUInt64]
  omega

/-- The carries of `F` add four words to four words. -/
theorem soma_palavras (w0 w1 w2 w3 f0 f1 f2 f3 n : Nat)
    (h : n = (w0 + w1 * 2 ^ 32 + w2 * 2 ^ 64 + w3 * 2 ^ 96 +
      (f0 + f1 * 2 ^ 32 + f2 * 2 ^ 64 + f3 * 2 ^ 96)) % 2 ^ 128) :
    let F0 := w0 + f0
    let F1 := F0 / 2 ^ 32 + (w1 + f1)
    let F2 := F1 / 2 ^ 32 + (w2 + f2)
    let F3 := F2 / 2 ^ 32 + (w3 + f3)
    F0 % 2 ^ 32 = n / 256 ^ (4 * 0) % 2 ^ 32 ∧ F1 % 2 ^ 32 = n / 256 ^ (4 * 1) % 2 ^ 32 ∧
      F2 % 2 ^ 32 = n / 256 ^ (4 * 2) % 2 ^ 32 ∧ F3 % 2 ^ 32 = n / 256 ^ (4 * 3) % 2 ^ 32 := by
  intro F0 F1 F2 F3
  have h0 : F0 = w0 + f0 := rfl
  have h1 : F1 = F0 / 2 ^ 32 + (w1 + f1) := rfl
  have h2 : F2 = F1 / 2 ^ 32 + (w2 + f2) := rfl
  have h3 : F3 = F2 / 2 ^ 32 + (w3 + f3) := rfl
  have hn : n = F0 % 2 ^ 32 + F1 % 2 ^ 32 * 2 ^ 32 + F2 % 2 ^ 32 * 2 ^ 64 +
      F3 % 2 ^ 32 * 2 ^ 96 := by
    clear_value F0 F1 F2 F3
    omega
  clear_value F0 F1 F2 F3
  refine ⟨?_, ?_, ?_, ?_⟩ <;> omega

/-- The bytes of the sum of a number in limbs and `s`. -/
theorem saida_eq (key : List UInt8) {h : Limbs} (hh : h.Normal) :
    saida key h = em_bytes ((h.valor + s key) % 2 ^ 128) := by
  obtain ⟨h0, h1, h2, h3, h4⟩ := hh
  have hz : h.h0 >>> 0 = h.h0 := UInt32.shiftRight_zero
  have w0 := palavra_da_etiqueta h.h0 h.h1 (k := 0) (n := 26) (by decide) h0
  have w1 := palavra_da_etiqueta h.h1 h.h2 (k := 6) (n := 20) (by decide) h1
  have w2 := palavra_da_etiqueta h.h2 h.h3 (k := 12) (n := 14) (by decide) h2
  have w3 := palavra_da_etiqueta h.h3 h.h4 (k := 18) (n := 8) (by decide) h3
  simp only [hz, UInt32.reduceToNat, UInt32.toNat_toUInt64] at w0 w1 w2 w3
  have hv : h.valor = ((h.h0 ||| h.h1 <<< 26) &&& 0xFFFFFFFF).toNat +
      ((h.h1 >>> 6 ||| h.h2 <<< 20) &&& 0xFFFFFFFF).toNat * 2 ^ 32 +
      ((h.h2 >>> 12 ||| h.h3 <<< 14) &&& 0xFFFFFFFF).toNat * 2 ^ 64 +
      ((h.h3 >>> 18 ||| h.h4 <<< 8) &&& 0xFFFFFFFF).toNat * 2 ^ 96 +
      h.h4.toNat / 2 ^ 24 * 2 ^ 128 := by
    rw [w0, w1, w2, w3, Limbs.valor]
    omega
  have hn : (h.valor + s key) % 2 ^ 128 = (((h.h0 ||| h.h1 <<< 26) &&& 0xFFFFFFFF).toNat +
      ((h.h1 >>> 6 ||| h.h2 <<< 20) &&& 0xFFFFFFFF).toNat * 2 ^ 32 +
      ((h.h2 >>> 12 ||| h.h3 <<< 14) &&& 0xFFFFFFFF).toNat * 2 ^ 64 +
      ((h.h3 >>> 18 ||| h.h4 <<< 8) &&& 0xFFFFFFFF).toNat * 2 ^ 96 +
      ((f key 0).toNat + (f key 4).toNat * 2 ^ 32 + (f key 8).toNat * 2 ^ 64 +
      (f key 12).toNat * 2 ^ 96)) % 2 ^ 128 := by
    rw [s_eq, hv]
    omega
  obtain ⟨e0, e1, e2, e3⟩ := soma_palavras _ _ _ _ _ _ _ _ _ hn
  have hF : ∀ w g : UInt32, (w.toUInt64 + g.toUInt64).toNat = w.toNat + g.toNat := fun w g => by
    have hw := w.toNat_lt
    have hg := g.toNat_lt
    rw [UInt64.toNat_add, UInt32.toNat_toUInt64, UInt32.toNat_toUInt64]
    omega
  rw [em_bytes_eq, saida]
  rw [← hF _ (f key 0)] at e0
  rw [← hF _ (f key 0), ← toNat_F] at e1
  rw [← hF _ (f key 0), ← toNat_F, ← toNat_F] at e2
  rw [← hF _ (f key 0), ← toNat_F, ← toNat_F, ← toNat_F] at e3
  rw [bytes_eq e0, bytes_eq e1, bytes_eq e2, bytes_eq e3]

/-! ## Poly1305 -/

/-- No word of `poly1305_mac` overflows where the arithmetic is not meant to wrap. -/
structure SemEstouro (key msg : List UInt8) : Prop where
  blocos : laco_exato (carrega key) ⟨0, 0, 0, 0, 0⟩ msg
  transportes : normaliza_exata (laco (carrega key) ⟨0, 0, 0, 0, 0⟩ msg)
  diferenca : menos_exato (normaliza (laco (carrega key) ⟨0, 0, 0, 0, 0⟩ msg))

/-- `poly1305_mac` is Poly1305, and none of its words overflows. -/
theorem poly1305_mac_correto (key msg : List UInt8) :
    poly1305_mac key msg = em_bytes (etiqueta key msg) ∧ SemEstouro key msg := by
  have hk := carrega_guarda key
  have h0 : (⟨0, 0, 0, 0, 0⟩ : Limbs).Dentro :=
    ⟨by decide, by decide, by decide, by decide, by decide⟩
  have hb : ∀ p ∈ chunks 16 msg, p.length ≤ 16 := fun p => length_le_of_mem_chunks
  have hl := laco_eq (carrega key) ⟨0, 0, 0, 0, 0⟩ msg
  obtain ⟨hd, hv⟩ := blocos_passo hk hb h0 (Nat.ModEq.refl 0)
  rw [← hl] at hd hv
  obtain ⟨hn, hi, hm⟩ := normaliza_passo hd
  obtain ⟨he, hr⟩ := escolhe_passo hi
  constructor
  · have ht : etiqueta key msg =
        ((escolhe (normaliza (laco (carrega key) ⟨0, 0, 0, 0, 0⟩ msg))
          (menos_p (normaliza (laco (carrega key) ⟨0, 0, 0, 0, 0⟩ msg)))).valor + s key) %
          2 ^ 128 := by
      rw [etiqueta, hr, ← horner_eq, (hm.trans hv)]
    rw [ht, ← saida_eq key he]
    rfl
  · refine ⟨?_, hn, (menos_passo hi).1⟩
    intro antes pedaco depois hc
    have ha : ∀ p ∈ antes, p.length ≤ 16 := fun p hp => hb p (hc ▸ List.mem_append_left _ hp)
    have hp : pedaco.length ≤ 16 := hb pedaco (hc ▸ by simp)
    exact (bloco_passo hk (blocos_passo hk ha h0 (Nat.ModEq.refl 0)).1 hp).1

end SpaceOS.Poly1305
