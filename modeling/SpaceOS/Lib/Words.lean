-- Machine words as numbers: what a shift, an exclusive or of rotations and a word put together from
-- bytes are in arithmetic.
import Mathlib.Algebra.Group.Nat.Defs
import Mathlib.Data.Nat.Init
import Mathlib.Tactic.Ring

namespace Lib.Words

/-! ## Sums and shifts -/

theorem toNat_add_of_lt {a b : UInt32} (h : a.toNat + b.toNat < 2 ^ 32) :
    (a + b).toNat = a.toNat + b.toNat := by
  rw [UInt32.toNat_add, Nat.mod_eq_of_lt h]

theorem toNat_shl (y n : UInt32) (hn : n.toNat < 32) :
    (y <<< n).toNat = y.toNat * 2 ^ n.toNat % 2 ^ 32 := by
  rw [UInt32.toNat_shiftLeft, Nat.mod_eq_of_lt hn, Nat.shiftLeft_eq]

theorem toNat_shr (y n : UInt32) (hn : n.toNat < 32) :
    (y >>> n).toNat = y.toNat / 2 ^ n.toNat := by
  rw [UInt32.toNat_shiftRight, Nat.mod_eq_of_lt hn, Nat.shiftRight_eq_div_pow]

theorem or_mul_pow {a n : Nat} (b : Nat) (h : a < 2 ^ n) : a ||| b * 2 ^ n = a + b * 2 ^ n := by
  rw [Nat.or_comm, ← Nat.shiftLeft_eq, ← Nat.shiftLeft_add_eq_or_of_lt h, Nat.add_comm]

/-- Fields that are apart are a sum. -/
theorem or_eq_add {n p : Nat} (k : Nat) (hn : n % 2 ^ k = 0) (hp : p < 2 ^ k) :
    n ||| p = n + p := by
  have hdiv : n / 2 ^ k * 2 ^ k = n := Nat.div_mul_cancel (Nat.dvd_of_mod_eq_zero hn)
  have h := or_mul_pow (n / 2 ^ k) hp
  rw [hdiv] at h
  rw [Nat.or_comm, h, Nat.add_comm]

/-- A word beside the low bits of another is their sum. -/
theorem toNat_or_shl (x y n : UInt32) (hn : n.toNat < 32) (h : x.toNat < 2 ^ n.toNat) :
    (x ||| y <<< n).toNat = x.toNat + y.toNat * 2 ^ n.toNat % 2 ^ 32 := by
  have hp : y.toNat * 2 ^ n.toNat % 2 ^ 32 = y.toNat % 2 ^ (32 - n.toNat) * 2 ^ n.toNat := by
    have h32 : 2 ^ 32 = 2 ^ (32 - n.toNat) * 2 ^ n.toNat := by
      rw [← Nat.pow_add, Nat.sub_add_cancel (Nat.le_of_lt hn)]
    rw [h32, Nat.mul_mod_mul_right]
  rw [UInt32.toNat_or, toNat_shl _ _ hn, hp, or_mul_pow _ h]

/-- The low `n` bits of a word. -/
theorem toNat_and_low (x m : UInt32) {n : Nat} (hm : m.toNat = 2 ^ n - 1) :
    (x &&& m).toNat = x.toNat % 2 ^ n := by
  rw [UInt32.toNat_and, hm, Nat.and_two_pow_sub_one_eq_mod]

/-- The low half of a word. -/
theorem toUInt16_and (x : UInt32) : (x &&& 0xFFFF).toUInt16 = x.toUInt16 := by
  refine UInt16.toNat_inj.mp ?_
  rw [UInt32.toNat_toUInt16, UInt32.toNat_toUInt16, toNat_and_low x 0xFFFF (n := 16) rfl,
    Nat.mod_mod]

/-- The low byte of a word. -/
theorem toUInt8_and (x : UInt32) : (x &&& 0xFF).toUInt8 = x.toUInt8 := by
  refine UInt8.toNat_inj.mp ?_
  rw [UInt32.toNat_toUInt8, UInt32.toNat_toUInt8, toNat_and_low x 0xFF (n := 8) rfl, Nat.mod_mod]

/-- `w` bits of a number, left in their place. -/
theorem and_mask_shiftLeft (n w k : Nat) :
    n &&& (2 ^ w - 1) <<< k = n / 2 ^ k % 2 ^ w * 2 ^ k := by
  rw [← Nat.and_two_pow_sub_one_eq_mod, ← Nat.shiftRight_eq_div_pow, ← Nat.shiftLeft_eq]
  refine Nat.eq_of_testBit_eq fun i => ?_
  simp only [Nat.testBit_and, Nat.testBit_shiftLeft, Nat.testBit_shiftRight]
  by_cases hi : k ≤ i
  · rw [Nat.add_sub_cancel' hi]
    simp [hi]
  · simp [hi]

/-! ## Rotations -/

theorem rotateLeft_eq (v n : UInt32) (h0 : 0 < n.toNat) (hn : n.toNat < 32) :
    (v <<< n) ||| (v >>> (32 - n)) = ⟨v.toBitVec.rotateLeft n.toNat⟩ := by
  have hs : (32 - n).toNat = 32 - n.toNat := UInt32.toNat_sub_of_le _ _ (Nat.le_of_lt hn)
  apply UInt32.toNat_inj.mp
  rw [UInt32.toNat_or, toNat_shl _ _ hn, toNat_shr _ _ (by omega), hs]
  simp [BitVec.rotateLeft_def, Nat.mod_eq_of_lt hn, Nat.shiftLeft_eq, Nat.shiftRight_eq_div_pow]

theorem rotateRight_eq (v n : UInt32) (h0 : 0 < n.toNat) (hn : n.toNat < 32) :
    (v >>> n) ||| (v <<< (32 - n)) = ⟨v.toBitVec.rotateRight n.toNat⟩ := by
  have hs : (32 - n).toNat = 32 - n.toNat := UInt32.toNat_sub_of_le _ _ (Nat.le_of_lt hn)
  apply UInt32.toNat_inj.mp
  rw [UInt32.toNat_or, toNat_shr _ _ hn, toNat_shl _ _ (by omega), hs]
  simp [BitVec.rotateRight_def, Nat.mod_eq_of_lt hn, Nat.shiftLeft_eq, Nat.shiftRight_eq_div_pow]

/-! ## Words and bytes -/

theorem toNat_or_byte (x : UInt32) (b : UInt8) {n : UInt32} (hn : n.toNat + 8 ≤ 32)
    (hx : x.toNat < 2 ^ n.toNat) :
    (x ||| b.toUInt32 <<< n).toNat = x.toNat + b.toNat * 2 ^ n.toNat := by
  have hb : b.toNat * 2 ^ n.toNat < 2 ^ 8 * 2 ^ n.toNat :=
    Nat.mul_lt_mul_of_pos_right b.toNat_lt (Nat.two_pow_pos _)
  have h32 : 2 ^ (8 + n.toNat) ≤ 2 ^ 32 := Nat.pow_le_pow_right (by decide) (by omega)
  rw [Nat.pow_add] at h32
  rw [toNat_or_shl _ _ _ (by omega) hx, UInt8.toNat_toUInt32,
    Nat.mod_eq_of_lt (Nat.lt_of_lt_of_le hb h32)]

/-- Three bytes above the low `n` bits of a word. -/
theorem toNat_or_three (x : UInt32) (b c d : UInt8) {n m l : UInt32}
    (hm : m.toNat = n.toNat + 8) (hl : l.toNat = n.toNat + 16) (hn : n.toNat + 24 ≤ 32)
    (hx : x.toNat < 2 ^ n.toNat) :
    (x ||| b.toUInt32 <<< n ||| c.toUInt32 <<< m ||| d.toUInt32 <<< l).toNat =
      x.toNat + (b.toNat + c.toNat * 2 ^ 8 + d.toNat * 2 ^ 16) * 2 ^ n.toNat := by
  have hb := b.toNat_lt
  have hc := c.toNat_lt
  have h1 := toNat_or_byte x b (n := n) (by omega) hx
  have hp : ∀ i, 2 ^ (n.toNat + i) = 2 ^ n.toNat * 2 ^ i := fun i => Nat.pow_add _ _ _
  have h2 := toNat_or_byte (x ||| b.toUInt32 <<< n) c (n := m) (by omega) (by
    rw [h1, hm, hp]
    have := Nat.mul_le_mul_right (2 ^ n.toNat) (Nat.le_of_lt_succ hb)
    omega)
  have h3 := toNat_or_byte (x ||| b.toUInt32 <<< n ||| c.toUInt32 <<< m) d (n := l) (by omega) (by
    rw [h2, h1, hm, hl, hp, hp]
    have := Nat.mul_le_mul_right (2 ^ n.toNat) (Nat.le_of_lt_succ hb)
    have := Nat.mul_le_mul_right (2 ^ n.toNat * 2 ^ 8) (Nat.le_of_lt_succ hc)
    omega)
  rw [h3, h2, h1, hm, hl, hp, hp]
  ring

/-- The little-endian word of four bytes. -/
theorem toNat_word (a b c d : UInt8) :
    (a.toUInt32 ||| b.toUInt32 <<< 8 ||| c.toUInt32 <<< 16 ||| d.toUInt32 <<< 24).toNat =
      a.toNat + b.toNat * 2 ^ 8 + c.toNat * 2 ^ 16 + d.toNat * 2 ^ 24 := by
  have ha : a.toUInt32.toNat < 2 ^ (8 : UInt32).toNat := by simpa using a.toNat_lt
  rw [toNat_or_three a.toUInt32 b c d (by decide) (by decide) (by decide) ha]
  simp only [UInt8.toNat_toUInt32, UInt32.reduceToNat]
  omega

/-- Byte `k` of a word, counted from the lowest. -/
theorem byte_of_word (w : UInt32) {k : Nat} (hk : k < 4) :
    (w >>> UInt32.ofNat (8 * k)).toUInt8 = UInt8.ofNat (w.toNat / 256 ^ k) := by
  have hn : (UInt32.ofNat (8 * k)).toNat = 8 * k := UInt32.toNat_ofNat_of_lt' (show _ < 2 ^ 32 by omega)
  apply UInt8.toNat_inj.mp
  rw [UInt32.toNat_toUInt8, toNat_shr _ _ (by omega), hn, UInt8.toNat_ofNat', Nat.pow_mul]

theorem toUInt8_shr64 (w k : UInt64) {n : Nat} (hk : k.toNat < 64)
    (h : w.toNat / 2 ^ k.toNat % 256 = n % 256) : (w >>> k).toUInt8 = UInt8.ofNat n := by
  apply UInt8.toNat_inj.mp
  rw [UInt64.toNat_toUInt8, UInt64.toNat_shiftRight, Nat.mod_eq_of_lt hk,
    Nat.shiftRight_eq_div_pow, UInt8.toNat_ofNat']
  exact h

end Lib.Words
