-- Texts that end with a zero in a memory of `n` bytes, and the loops that look for a character in
-- them without leaving it.
import SpaceOS.Lib.Bytes

namespace Lib.Text

open Lib.Bytes

/-! ## Accesses -/

/-- A read. `none` is one outside of the memory. -/
def read (n : Nat) (m : Memory) (i : Nat) : Option UInt8 := if i < n then some (m i) else none

/-- A write. `none` is one outside of the memory. -/
def write (n : Nat) (m : Memory) (i : Nat) (v : UInt8) : Option Memory :=
  if i < n then some (putByte m i v) else none

/-- A loop that goes on to the first place with a character of `stop`, `k` looks at most. -/
def scan (n : Nat) (stop : UInt8 → Bool) (m : Memory) : Nat → Nat → Option Nat
  | 0, _ => none
  | k + 1, p => (read n m p).bind fun c => if stop c then some p else scan n stop m k (p + 1)

/-- The text `t` stands at `p`, with its zero. -/
def TextAt (n : Nat) (m : Memory) : Nat → List UInt8 → Prop
  | p, [] => p < n ∧ m p = 0
  | p, c :: t => p < n ∧ m p = c ∧ c ≠ 0 ∧ TextAt n m (p + 1) t

/-- The text at `p`, as far as the memory goes. -/
def textOf (n : Nat) (m : Memory) (p : Nat) : List UInt8 :=
  ((List.range (n - p)).map fun i => m (p + i)).takeWhile (· ≠ 0)

section Laws

variable {n p k : Nat} {m m' : Memory} {t l r : List UInt8} {c : UInt8} {stop : UInt8 → Bool}

theorem read_eq (h : p < n) : read n m p = some (m p) := if_pos h

theorem write_eq (h : p < n) : write n m p c = some (putByte m p c) := if_pos h

namespace TextAt

theorem lt (h : TextAt n m p t) : p + t.length < n := by
  induction t generalizing p with
  | nil => exact h.1
  | cons c t ih =>
    have hlt := ih h.2.2.2
    rw [List.length_cons]
    omega

theorem head (h : TextAt n m p t) : read n m p = some (t.headD 0) := by
  cases t with
  | nil => rw [read_eq h.1, h.2, List.headD_nil]
  | cons c t => rw [read_eq h.1, h.2.1, List.headD_cons]

theorem zero_not_mem (h : TextAt n m p t) : 0 ∉ t := by
  induction t generalizing p with
  | nil => exact List.not_mem_nil
  | cons c t ih => exact List.not_mem_cons_of_ne_of_not_mem h.2.2.1.symm (ih h.2.2.2)

theorem head_ne_zero (h : TextAt n m p t) (hne : t ≠ []) : t.headD 0 ≠ 0 := by
  obtain ⟨c, t, rfl⟩ := List.exists_cons_of_ne_nil hne
  exact h.2.2.1

/-- What stands behind a part of the text. -/
theorem drop (h : TextAt n m p (l ++ r)) : TextAt n m (p + l.length) r := by
  induction l generalizing p with
  | nil => exact h
  | cons c l ih =>
    rw [List.length_cons, ← Nat.add_assoc, Nat.add_right_comm]
    exact ih h.2.2.2

theorem congr (h : TextAt n m p t) (he : ∀ i, p ≤ i → i ≤ p + t.length → m' i = m i) :
    TextAt n m' p t := by
  induction t generalizing p with
  | nil => exact ⟨h.1, (he p (Nat.le_refl p) (Nat.le_refl p)).trans h.2⟩
  | cons c t ih =>
    rw [List.length_cons] at he
    exact ⟨h.1, (he p (Nat.le_refl p) (by omega)).trans h.2.1, h.2.2.1,
      ih h.2.2.2 fun i hi hi' => he i (by omega) (by omega)⟩

/-- A zero in the place of a character ends the text there. -/
theorem cut (h : TextAt n m p (l ++ r)) : TextAt n (putByte m (p + l.length) 0) p l := by
  have hself : putByte m (p + l.length) 0 (p + l.length) = 0 := if_pos rfl
  induction l generalizing p with
  | nil =>
    have hlt := h.lt
    exact ⟨by omega, hself⟩
  | cons b l ih =>
    obtain ⟨h1, h2, h3, h4⟩ := h
    rw [List.length_cons, ← Nat.add_assoc, Nat.add_right_comm] at hself ⊢
    refine ⟨h1, ?_, h3, ih h4 hself⟩
    rw [putByte_ne _ _ (by omega)]
    exact h2

/-- The rest of the text behind that zero is as before. -/
theorem behind_cut (h : TextAt n m p (l ++ c :: r)) :
    TextAt n (putByte m (p + l.length) 0) (p + l.length + 1) r :=
  h.drop.2.2.2.congr fun _ hi _ => putByte_ne _ _ (by omega)

/-- The loop stops behind a part of the text without a character of `stop`, at such a character or
at the zero. -/
theorem scan_eq (h : TextAt n m p (l ++ r)) (hl : ∀ c ∈ l, stop c = false)
    (hr : stop (r.headD 0) = true) (hk : l.length < k) :
    scan n stop m k p = some (p + l.length) := by
  induction l generalizing p k with
  | nil =>
    obtain ⟨k, rfl⟩ : ∃ j, k = j + 1 := ⟨k - 1, by omega⟩
    have hhead : read n m p = some (r.headD 0) := h.head
    rw [scan, hhead, Option.bind_some, if_pos hr]
    rfl
  | cons c l ih =>
    rw [List.length_cons] at hk ⊢
    obtain ⟨k, rfl⟩ : ∃ j, k = j + 1 := ⟨k - 1, by omega⟩
    have hc := hl c List.mem_cons_self
    have hhead : read n m p = some c := h.head
    rw [scan, hhead, Option.bind_some, if_neg (by rw [hc]; exact Bool.false_ne_true),
      ih h.2.2.2 (fun b hb => hl b (List.mem_cons_of_mem c hb)) (by omega)]
    congr 1
    omega

theorem textOf_eq (h : TextAt n m p t) : textOf n m p = t := by
  induction t generalizing p with
  | nil =>
    obtain ⟨k, hk⟩ : ∃ k, n - p = k + 1 := ⟨n - p - 1, by have := h.1; omega⟩
    rw [textOf, hk, List.range_succ_eq_map, List.map_cons, Nat.add_zero, h.2, List.takeWhile_cons]
    rfl
  | cons c t ih =>
    obtain ⟨h1, h2, h3, h4⟩ := h
    obtain ⟨k, hk⟩ : ∃ k, n - p = k + 1 := ⟨n - p - 1, by omega⟩
    have htail : textOf n m (p + 1) = t := ih h4
    rw [textOf, show n - (p + 1) = k by omega] at htail
    rw [textOf, hk, List.range_succ_eq_map, List.map_cons, Nat.add_zero, h2, List.map_map,
      List.takeWhile_cons, if_pos (decide_eq_true h3)]
    refine congrArg (c :: ·) (Eq.trans (congrArg _ (List.map_congr_left fun i _ => ?_)) htail)
    exact congrArg m (by omega)

end TextAt

end Laws

end Lib.Text
