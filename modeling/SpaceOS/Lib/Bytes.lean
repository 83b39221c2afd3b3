-- Byte memory: little-endian words read from and written to a memory.
import Mathlib.Tactic.Ring
import Mathlib.Tactic.SplitIfs

namespace Lib.Bytes

/-! ## Words in a memory -/

/-- A memory gives one byte for each address. -/
abbrev Memory := Nat → UInt8

/-- The 16-bit little-endian word at address `a`. -/
def half (m : Memory) (a : Nat) : Nat := (m a).toNat + 256 * (m (a + 1)).toNat

/-- The 32-bit little-endian word at address `a`. -/
def word (m : Memory) (a : Nat) : Nat :=
  (m a).toNat + 256 * (m (a + 1)).toNat + 65536 * (m (a + 2)).toNat +
    16777216 * (m (a + 3)).toNat

/-- The memory with the byte `v` at address `a`. -/
def putByte (m : Memory) (a : Nat) (v : UInt8) : Memory := fun i => if i = a then v else m i

/-- The memory with the low 16 bits of `v` at address `a`. -/
def putHalf (m : Memory) (a v : Nat) : Memory := fun i =>
  if i = a then UInt8.ofNat v else if i = a + 1 then UInt8.ofNat (v / 256) else m i

/-- The memory with the low 32 bits of `v` at address `a`. -/
def putWord (m : Memory) (a v : Nat) : Memory := fun i =>
  if i = a then UInt8.ofNat v
  else if i = a + 1 then UInt8.ofNat (v / 256)
  else if i = a + 2 then UInt8.ofNat (v / 65536)
  else if i = a + 3 then UInt8.ofNat (v / 16777216)
  else m i

theorem word_lt (m : Memory) (a : Nat) : word m a < 2 ^ 32 := by
  have h0 := (m a).toNat_lt
  have h1 := (m (a + 1)).toNat_lt
  have h2 := (m (a + 2)).toNat_lt
  have h3 := (m (a + 3)).toNat_lt
  unfold word
  omega

@[simp] theorem putByte_self (m : Memory) (a : Nat) (v : UInt8) : putByte m a v a = v := by
  simp [putByte]

theorem putByte_ne (m : Memory) {a i : Nat} (v : UInt8) (h : i ≠ a) : putByte m a v i = m i := by
  simp [putByte, h]

theorem putHalf_ne (m : Memory) {a i : Nat} (v : Nat) (h : i < a ∨ a + 2 ≤ i) :
    putHalf m a v i = m i := by
  unfold putHalf
  rw [if_neg (by omega), if_neg (by omega)]

theorem putWord_ne (m : Memory) {a i : Nat} (v : Nat) (h : i < a ∨ a + 4 ≤ i) :
    putWord m a v i = m i := by
  unfold putWord
  rw [if_neg (by omega), if_neg (by omega), if_neg (by omega), if_neg (by omega)]

/-- A word depends only on its four bytes. -/
theorem word_congr {m m' : Memory} {a : Nat} (h : ∀ i, a ≤ i → i < a + 4 → m' i = m i) :
    word m' a = word m a := by
  unfold word
  rw [h a (by omega) (by omega), h (a + 1) (by omega) (by omega),
    h (a + 2) (by omega) (by omega), h (a + 3) (by omega) (by omega)]

theorem half_congr {m m' : Memory} {a : Nat} (h : ∀ i, a ≤ i → i < a + 2 → m' i = m i) :
    half m' a = half m a := by
  unfold half
  rw [h a (by omega) (by omega), h (a + 1) (by omega) (by omega)]

theorem word_putWord_self (m : Memory) (a v : Nat) : word (putWord m a v) a = v % 2 ^ 32 := by
  have e1 : a + 1 ≠ a := by omega
  have e2 : a + 2 ≠ a ∧ a + 2 ≠ a + 1 := by omega
  have e3 : a + 3 ≠ a ∧ a + 3 ≠ a + 1 ∧ a + 3 ≠ a + 2 := by omega
  simp only [word, putWord, if_true, e1, if_false, e2, e3, UInt8.toNat_ofNat']
  omega

theorem word_putWord_ne (m : Memory) {a b : Nat} (v : Nat) (h : b + 4 ≤ a ∨ a + 4 ≤ b) :
    word (putWord m a v) b = word m b :=
  word_congr fun _ _ _ => putWord_ne m v (by omega)

theorem word_putHalf_ne (m : Memory) {a b : Nat} (v : Nat) (h : b + 4 ≤ a ∨ a + 2 ≤ b) :
    word (putHalf m a v) b = word m b :=
  word_congr fun _ _ _ => putHalf_ne m v (by omega)

theorem word_putByte_ne (m : Memory) {a b : Nat} (v : UInt8) (h : b + 4 ≤ a ∨ a < b) :
    word (putByte m a v) b = word m b :=
  word_congr fun _ _ _ => putByte_ne m v (by omega)

end Lib.Bytes
