-- How data lies in a byte memory: lists of bytes at an address, little-endian words, and strings
-- that end with a zero byte.
import SpaceOS.Lib.Bytes

open Lib.Bytes

namespace Lib.Layout

/-- The bytes `l` lie in the memory from address `a` on. -/
def Lies (m : Memory) (a : Nat) (l : List UInt8) : Prop := ∀ i (h : i < l.length), m (a + i) = l[i]

/-- A 32-bit number as it lies in memory. -/
def le32 (n : Nat) : List UInt8 :=
  [UInt8.ofNat n, UInt8.ofNat (n / 256), UInt8.ofNat (n / 65536), UInt8.ofNat (n / 16777216)]

/-- A string in a field of `n` bytes. -/
def padded (s : List UInt8) (n : Nat) : List UInt8 := s ++ List.replicate (n - s.length) 0

/-- The string at address `a`: the bytes up to the first zero, `n` at most. -/
def cstr (m : Memory) (a n : Nat) : List UInt8 :=
  ((List.range n).map fun i => m (a + i)).takeWhile (· ≠ 0)

variable {m : Memory} {a n : Nat} {l l' s : List UInt8}

theorem lies_append : Lies m a (l ++ l') ↔ Lies m a l ∧ Lies m (a + l.length) l' := by
  constructor
  · intro h
    refine ⟨fun i hi => ?_, fun i hi => ?_⟩
    · rw [h i (by simp; omega), List.getElem_append_left hi]
    · rw [Nat.add_assoc, h (l.length + i) (by simp; omega)]
      simp
  · rintro ⟨h1, h2⟩ i hi
    by_cases hl : i < l.length
    · rw [h1 i hl, List.getElem_append_left hl]
    · have h := h2 (i - l.length) (by simp at hi; omega)
      rw [List.getElem_append_right (by omega), ← h]
      congr 1
      omega

theorem lies_getD (l : List UInt8) : Lies (fun i => l.getD i 0) 0 l := by
  intro i hi
  dsimp only
  rw [Nat.zero_add, List.getD_eq_getElem?_getD, List.getElem?_eq_getElem hi, Option.getD_some]

theorem Lies.range (h : Lies m a l) : ((List.range l.length).map fun i => m (a + i)) = l := by
  refine List.ext_getElem (by simp) fun i h1 h2 => ?_
  simp [h i h2]

@[simp] theorem length_le32 (n : Nat) : (le32 n).length = 4 := rfl

theorem length_padded (h : s.length ≤ n) : (padded s n).length = n := by
  simp [padded]
  omega

/-- A number read back from its four bytes. -/
theorem Lies.word (h : Lies m a (le32 n)) : Bytes.word m a = n % 2 ^ 32 := by
  have h0 : m (a + 0) = UInt8.ofNat n := h 0 (by simp)
  have h1 : m (a + 1) = UInt8.ofNat (n / 256) := h 1 (by simp)
  have h2 : m (a + 2) = UInt8.ofNat (n / 65536) := h 2 (by simp)
  have h3 : m (a + 3) = UInt8.ofNat (n / 16777216) := h 3 (by simp)
  rw [Nat.add_zero] at h0
  unfold Bytes.word
  rw [h0, h1, h2, h3]
  simp only [UInt8.toNat_ofNat']
  omega

/-- A string read back from its field. -/
theorem Lies.cstr {k : Nat} (h : Lies m a (padded s n)) (hs : 0 ∉ s) (hn : s.length < n)
    (hk : n ≤ k) : Layout.cstr m a k = s := by
  obtain ⟨r, rfl⟩ : ∃ r, k = s.length + (r + 1) := ⟨k - s.length - 1, by omega⟩
  obtain ⟨h1, h2⟩ := lies_append.mp h
  have hz : m (a + s.length + 0) = 0 := by
    rw [h2 0 (by simp; omega), List.getElem_replicate]
  unfold Layout.cstr
  rw [List.range_add, List.map_append, h1.range, List.takeWhile_append_of_pos]
  · rw [List.range_succ_eq_map, List.map_cons, List.map_cons]
    rw [List.takeWhile_cons_of_neg, List.append_nil]
    rw [← Nat.add_assoc, hz]
    simp
  · intro x hx
    simp only [decide_eq_true_eq]
    rintro rfl
    exact hs hx

end Lib.Layout
