-- A memory read as a set of bits, eight to a byte, the low bit first.
import SpaceOS.Lib.Bytes
import Mathlib.Data.Nat.Bitwise

open Lib.Bytes

namespace Lib.Bitmap

/-- Bit `i` of the memory. -/
def bit (m : Memory) (i : Nat) : Bool := (m (i / 8)).toNat.testBit (i % 8)

/-- The byte with only bit `i % 8` set. -/
def mask (i : Nat) : UInt8 := 1 <<< UInt8.ofNat (i % 8)

def setBit (m : Memory) (i : Nat) : Memory := putByte m (i / 8) (m (i / 8) ||| mask i)

def clearBit (m : Memory) (i : Nat) : Memory := putByte m (i / 8) (m (i / 8) &&& ~~~mask i)

theorem mask_toNat (i : Nat) : (mask i).toNat = 2 ^ (i % 8) := by
  have h : i % 8 < 8 := Nat.mod_lt _ (by decide)
  have h2 : 2 ^ (i % 8) < 2 ^ 8 := Nat.pow_lt_pow_right (by decide) h
  unfold mask
  rw [UInt8.toNat_shiftLeft, UInt8.toNat_ofNat']
  have e : i % 8 % 2 ^ 8 % 8 = i % 8 := by omega
  rw [e, UInt8.toNat_one, Nat.one_shiftLeft, Nat.mod_eq_of_lt h2]

theorem mask_testBit (i j : Nat) : (mask i).toNat.testBit j = decide (i % 8 = j) := by
  rw [mask_toNat, Nat.testBit_two_pow]

theorem and_mask (x : UInt8) (i : Nat) : x &&& mask i ≠ 0 ↔ x.toNat.testBit (i % 8) = true := by
  rw [Ne, ← UInt8.toNat_inj, UInt8.toNat_and, mask_toNat, Nat.and_two_pow]
  cases x.toNat.testBit (i % 8) <;> simp

theorem bit_setBit (m : Memory) (i j : Nat) : bit (setBit m i) j = (decide (i = j) || bit m j) := by
  unfold bit setBit
  by_cases h : j / 8 = i / 8
  · rw [h, putByte_self, UInt8.toNat_or, Nat.testBit_or, mask_testBit, Bool.or_comm]
    congr 1
    have : i % 8 = j % 8 ↔ i = j := by omega
    simp [this]
  · rw [putByte_ne _ _ h]
    have : i ≠ j := fun he => h (by rw [he])
    simp [this]

theorem bit_clearBit (m : Memory) (i j : Nat) :
    bit (clearBit m i) j = (!decide (i = j) && bit m j) := by
  unfold bit clearBit
  by_cases h : j / 8 = i / 8
  · have hlt : (mask i).toNat < 2 ^ 8 := (mask i).toNat_lt
    have hj : j % 8 < 8 := Nat.mod_lt _ (by decide)
    rw [h, putByte_self, UInt8.toNat_and, Nat.testBit_and, Bool.and_comm]
    congr 1
    have e : UInt8.size - 1 - (mask i).toNat = 2 ^ 8 - ((mask i).toNat + 1) := by
      simp only [UInt8.size]
      omega
    rw [UInt8.toNat_not, e, Nat.testBit_two_pow_sub_succ hlt, mask_testBit]
    have hij : i % 8 = j % 8 ↔ i = j := by omega
    simp [hij, hj]
  · rw [putByte_ne _ _ h]
    have : i ≠ j := fun he => h (by rw [he])
    simp [this]

/-! ## The number of the clear bits -/

/-- The arguments below `n` at which `f` is false. -/
def unset (f : Nat → Bool) (n : Nat) : Nat := (List.range n).countP fun i => !f i

section Unset

variable {f f' : Nat → Bool} {i n : Nat}

theorem unset_succ (f : Nat → Bool) (n : Nat) :
    unset f (n + 1) = unset f n + if f n then 0 else 1 := by
  unfold unset
  rw [List.range_succ, List.countP_append, List.countP_singleton]
  cases f n <;> rfl

theorem unset_congr (h : ∀ j < n, f' j = f j) : unset f' n = unset f n :=
  List.countP_congr fun j hj => by rw [h j (List.mem_range.mp hj)]

/-- Where an argument becomes true, there is one less. -/
theorem unset_of_set (hi : i < n) (hne : ∀ j, j ≠ i → f' j = f j) (h : f i = false)
    (h' : f' i = true) : unset f' n + 1 = unset f n := by
  induction n with
  | zero => omega
  | succ n ih =>
    rw [unset_succ, unset_succ]
    by_cases hin : i = n
    · subst hin
      rw [h, h', unset_congr fun j hj => hne j (by omega)]
      simp
    · rw [hne n (Ne.symm hin)]
      have := ih (by omega)
      omega

theorem unset_update_true (hi : i < n) (h : f i = false) :
    unset (Function.update f i true) n + 1 = unset f n :=
  unset_of_set hi (fun _ hj => Function.update_of_ne hj _ _) h (Function.update_self _ _ _)

theorem unset_update_false (hi : i < n) (h : f i = true) :
    unset (Function.update f i false) n = unset f n + 1 :=
  (unset_of_set hi (fun _ hj => (Function.update_of_ne hj _ _).symm)
    (Function.update_self _ _ _) h).symm

theorem unset_le (f : Nat → Bool) (n : Nat) : unset f n ≤ n := by
  have := List.countP_le_length (p := fun i => !f i) (l := List.range n)
  rwa [List.length_range] at this

theorem unset_eq_self (h : ∀ i < n, f i = false) : unset f n = n := by
  have hall : (List.range n).countP (fun i => !f i) = (List.range n).length :=
    List.countP_eq_length.mpr fun i hi => by rw [h i (List.mem_range.mp hi)]; rfl
  rwa [List.length_range] at hall

theorem unset_eq_zero : unset f n = 0 ↔ ∀ i < n, f i = true := by
  simp [unset, List.countP_eq_zero]

theorem countP_add_unset (f : Nat → Bool) (n : Nat) : (List.range n).countP f + unset f n = n := by
  have h := List.length_eq_countP_add_countP f (l := List.range n)
  rw [List.length_range] at h
  have hnot : (List.range n).countP (fun i => decide ¬f i = true) = unset f n :=
    List.countP_congr fun i _ => by simp
  omega

/-- Where all the arguments at which `f` is true stand in a list, it leaves the others. -/
theorem le_unset_add_length {l : List Nat} (h : ∀ i < n, f i = true → i ∈ l) :
    n ≤ unset f n + l.length := by
  have hsub : (List.range n).filter f ⊆ l := fun i hi => by
    obtain ⟨hr, hf⟩ := List.mem_filter.mp hi
    exact h i (List.mem_range.mp hr) hf
  have hnd : ((List.range n).filter f).Nodup := List.nodup_range.filter f
  have hle := hnd.length_le_of_subset hsub
  rw [← List.countP_eq_length_filter] at hle
  have := countP_add_unset f n
  omega

end Unset

/-- The clear bits below bit `n`. -/
def clear (m : Memory) (n : Nat) : Nat := (List.range n).countP fun i => !bit m i

section Clear

variable {m m' : Memory} {i n : Nat}

theorem clear_eq_unset (m : Memory) (n : Nat) : clear m n = unset (bit m) n := rfl

/-- A clear bit that is set is one less. -/
theorem clear_of_set (hi : i < n) (hne : ∀ j, j ≠ i → bit m' j = bit m j) (h : bit m i = false)
    (h' : bit m' i = true) : clear m' n + 1 = clear m n := unset_of_set hi hne h h'

theorem clear_setBit (hi : i < n) (h : bit m i = false) : clear (setBit m i) n + 1 = clear m n := by
  refine clear_of_set hi (fun j hj => ?_) h ?_
  · simp [bit_setBit, Ne.symm hj]
  · simp [bit_setBit]

theorem clear_clearBit (hi : i < n) (h : bit m i = true) :
    clear (clearBit m i) n = clear m n + 1 := by
  refine (clear_of_set hi (fun j hj => ?_) ?_ h).symm
  · simp [bit_clearBit, Ne.symm hj]
  · simp [bit_clearBit]

theorem clear_le (m : Memory) (n : Nat) : clear m n ≤ n := unset_le _ _

theorem clear_eq_zero : clear m n = 0 ↔ ∀ i < n, bit m i = true := unset_eq_zero

end Clear

end Lib.Bitmap
