-- Strings that end with a zero byte, in buffers of a fixed length: their text, their length as a
-- walk to the zero finds it, and a copy of at most so many bytes with zeros behind it.
import Mathlib.Data.List.GetD
import Mathlib.Data.List.TakeWhile
import SpaceOS.Lib.ByteString

namespace Lib.CString

open Lib.Bytes

variable {n : Nat}

/-- The bytes of a buffer up to its first zero. -/
def text (b : ByteStr n) : List UInt8 := (List.ofFn b).takeWhile (· ≠ 0)

/-- The length of the text; `none` where the buffer has no zero and the walk leaves it. -/
def strlen (b : ByteStr n) : Option Nat :=
  if (text b).length < n then some (text b).length else none

/-- `src` copied to place `i`, `k` bytes in all: a longer text is cut, a shorter one is followed by
zeros. -/
def strncpy (b : ByteStr n) (i : Nat) (src : List UInt8) (k : Nat) : ByteStr n := fun j =>
  if i ≤ j.val ∧ j.val < i + k then src.getD (j.val - i) 0 else b j

/-- The text that begins at place `i`. -/
def textFrom (b : ByteStr n) (i : Nat) : List UInt8 := text (b.slice i (n - i))

section Text

variable {b : ByteStr n} {s : List UInt8}

theorem zero_not_mem_text (b : ByteStr n) : 0 ∉ text b := fun h => by
  have := List.mem_takeWhile_imp h
  simp at this

theorem length_text_le (b : ByteStr n) : (text b).length ≤ n := by
  have := (List.takeWhile_prefix (l := List.ofFn b) (· ≠ 0)).length_le
  rwa [List.length_ofFn] at this

theorem byte_eq_getD {j : Nat} (hj : j < n) : b.byte j = (List.ofFn b).getD j 0 := by
  rw [ByteStr.byte, ByteStr.mem, dif_pos hj, List.getD, List.getElem?_eq_getElem (by simpa using hj)]
  simp

/-- A text reads as zero behind its end only. -/
theorem getD_eq_zero_iff (h0 : 0 ∉ s) (j : Nat) :
    s.getD j 0 = 0 ↔ s.length ≤ j := by
  constructor
  · intro h
    by_contra hlt
    rw [List.getD_eq_getElem _ _ (by omega)] at h
    exact h0 (h ▸ List.getElem_mem _)
  · exact List.getD_eq_default _ _

/-- The byte behind the text is a zero. -/
theorem byte_text {j : Nat} (hj : j < n) (hle : j ≤ (text b).length) :
    b.byte j = (text b).getD j 0 := by
  have happ : text b ++ (List.ofFn b).dropWhile (· ≠ 0) = List.ofFn b :=
    List.takeWhile_append_dropWhile
  rw [byte_eq_getD hj, ← happ]
  rcases Nat.lt_or_eq_of_le hle with hlt | rfl
  · rw [List.getD_append _ _ _ _ hlt]
  · rw [List.getD_append_right _ _ _ _ le_rfl, Nat.sub_self, List.getD_eq_default _ _ le_rfl]
    have hlen := congrArg List.length happ
    rw [List.length_append, List.length_ofFn] at hlen
    cases hd : (List.ofFn b).dropWhile (· ≠ 0) with
    | nil =>
      rw [hd, List.length_nil] at hlen
      omega
    | cons a l =>
      have ha := List.head?_dropWhile_not (fun x : UInt8 => decide (x ≠ 0)) (List.ofFn b)
      rw [hd, List.head?_cons] at ha
      simpa using ha

/-- Two texts are one as far as they are compared, with the zeros behind them. -/
theorem take_eq_of_getD {m : Nat} {s t : List UInt8} (hs : 0 ∉ s) (ht : 0 ∉ t)
    (h : ∀ j < m, j ≤ s.length → j ≤ t.length → s.getD j 0 = t.getD j 0) : s.take m = t.take m := by
  induction m generalizing s t with
  | zero => rfl
  | succ m ih =>
    have h0 := h 0 (Nat.succ_pos m) (Nat.zero_le _) (Nat.zero_le _)
    match s, t with
    | [], [] => rfl
    | [], b :: t => exact absurd (List.mem_cons.mpr (.inl h0)) ht
    | a :: s, [] => exact absurd (List.mem_cons.mpr (.inl h0.symm)) hs
    | a :: s, b :: t =>
      obtain rfl : a = b := h0
      rw [List.take_succ_cons, List.take_succ_cons,
        ih (fun hm => hs (List.mem_cons_of_mem _ hm)) (fun hm => ht (List.mem_cons_of_mem _ hm))
          fun j hj hjs hjt => ?_]
      exact h (j + 1) (Nat.succ_lt_succ hj) (Nat.succ_le_succ hjs) (Nat.succ_le_succ hjt)

/-- A buffer that begins with the bytes of `s`, up to place `m` or to a zero behind them. -/
theorem take_text {m : Nat} (hm : m ≤ n) (h0 : 0 ∉ s)
    (h : ∀ j < m, j ≤ s.length → b.byte j = s.getD j 0) : (text b).take m = s.take m := by
  refine take_eq_of_getD (zero_not_mem_text b) h0 fun j hj hjt hjs => ?_
  rw [← byte_text (by omega) hjt]
  exact h j hj hjs

/-- The text of a buffer that holds `s` and a zero. -/
theorem text_eq (hlen : s.length < n) (h0 : 0 ∉ s)
    (h : ∀ j ≤ s.length, b.byte j = s.getD j 0) : text b = s := by
  have ht := take_text (m := n) (b := b) le_rfl h0 fun j _ hj => h j hj
  rwa [List.take_of_length_le (length_text_le b), List.take_of_length_le hlen.le] at ht

theorem strlen_eq (h : (text b).length < n) : strlen b = some (text b).length := if_pos h

theorem length_textFrom_le (b : ByteStr n) (i : Nat) : (textFrom b i).length ≤ n - i :=
  length_text_le _

theorem byte_textFrom {i j : Nat} (hj : i + j < n) (hle : j ≤ (textFrom b i).length) :
    b.byte (i + j) = (textFrom b i).getD j 0 := by
  rw [← ByteStr.byte_slice b i (show j < n - i by omega)]
  exact byte_text (by omega) hle

theorem textFrom_eq_nil {i : Nat} (hi : i < n) : textFrom b i = [] ↔ b.byte i = 0 := by
  constructor
  · intro h
    have h0 := byte_textFrom (b := b) (i := i) (j := 0) hi (Nat.zero_le _)
    rw [h] at h0
    exact h0
  · intro h
    refine text_eq (show 0 < n - i by omega) List.not_mem_nil fun j hj => ?_
    obtain rfl : j = 0 := by simpa using hj
    rw [ByteStr.byte_slice b i (show 0 < n - i by omega)]
    exact h

/-! ## Writes -/

theorem byte_strncpy (b : ByteStr n) (i : Nat) (src : List UInt8) (k : Nat) {j : Nat} (hj : j < n) :
    (strncpy b i src k).byte j = if i ≤ j ∧ j < i + k then src.getD (j - i) 0 else b.byte j := by
  unfold ByteStr.byte ByteStr.mem strncpy
  rw [dif_pos hj, dif_pos hj]

/-- A zero cuts the text. -/
theorem text_putByte_zero {i : Nat} (hi : i < n) (hle : i ≤ (text b).length) :
    text (b.putByte i 0) = (text b).take i := by
  have hlen : ((text b).take i).length = i := by
    rw [List.length_take]
    omega
  refine text_eq (by omega) (fun hm => zero_not_mem_text b (List.mem_of_mem_take hm))
    fun j hj => ?_
  rw [hlen] at hj
  rcases Nat.lt_or_eq_of_le hj with hlt | rfl
  · rw [ByteStr.byte_putByte_ne _ _ (by omega), byte_text (by omega) (by omega)]
    simp [List.getD, hlt]
  · rw [ByteStr.byte_putByte_self _ _ hi, List.getD_eq_default _ _ (by omega)]

/-- What a copy puts behind the text that is there. -/
theorem take_text_strncpy {i m : Nat} {src : List UInt8} (hsrc : 0 ∉ src)
    (hi : i = (text b).length) (him : i ≤ m) (hm : m ≤ n) :
    (text (strncpy b i src (m - i))).take m = (text b ++ src).take m := by
  refine take_text hm ?_ fun j hj hle => ?_
  · exact fun h => (List.mem_append.mp h).elim (zero_not_mem_text b) hsrc
  rw [byte_strncpy _ _ _ _ (by omega)]
  by_cases hij : i ≤ j
  · rw [if_pos (by omega), List.getD_append_right _ _ _ _ (by omega), hi]
  · rw [if_neg (by omega), byte_text (by omega) (by omega), List.getD_append _ _ _ _ (by omega)]

/-- A copy with its zero right behind the text. -/
theorem text_strncpy_end {src : List UInt8} (hsrc : 0 ∉ src)
    (hfit : (text b).length + src.length < n) :
    text (strncpy b (text b).length src (src.length + 1)) = text b ++ src := by
  have h := take_text_strncpy (b := b) (m := (text b).length + (src.length + 1)) hsrc rfl (by omega)
    (by omega)
  rw [Nat.add_sub_cancel_left, List.take_of_length_le (l := text b ++ src) (by simp)] at h
  have hlen := congrArg List.length h
  rw [List.length_take, List.length_append] at hlen
  rwa [List.take_of_length_le (by omega)] at h

/-- A copy to the start of a buffer. -/
theorem take_text_strncpy_zero {k : Nat} {src : List UInt8} (hsrc : 0 ∉ src) (hk : k ≤ n) :
    (text (strncpy b 0 src k)).take k = src.take k := by
  refine take_text hk hsrc fun j hj hle => ?_
  rw [byte_strncpy _ _ _ _ (by omega), if_pos (by omega), Nat.sub_zero]

end Text

end Lib.CString
