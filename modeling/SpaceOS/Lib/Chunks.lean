-- A list cut into pieces of one length, of which only the last may be shorter.
import Mathlib.Data.List.Basic

namespace Lib.Chunks

variable {α : Type*}

/-- The pieces of `n` elements, in order. -/
def chunks (n : Nat) (xs : List α) : List (List α) :=
  (List.range ((xs.length + n - 1) / n)).map fun i => (xs.drop (n * i)).take n

@[simp] theorem chunks_nil (n : Nat) : chunks n ([] : List α) = [] := by
  simp only [chunks, List.length_nil, Nat.zero_add, List.map_eq_nil_iff, List.range_eq_nil,
    Nat.div_eq_zero_iff]
  omega

/-- The first piece, and the pieces of what is left. -/
theorem chunks_of_ne_nil {n : Nat} {xs : List α} (hn : 0 < n) (h : xs ≠ []) :
    chunks n xs = xs.take n :: chunks n (xs.drop n) := by
  have hl : 0 < xs.length := List.length_pos_iff.mpr h
  have hc : (xs.length + n - 1) / n = (xs.length - n + n - 1) / n + 1 := by
    by_cases hx : n ≤ xs.length
    · rw [show xs.length + n - 1 = (xs.length - n + n - 1) + n by omega,
        Nat.add_div_right _ hn]
    · have h1 : (xs.length + n - 1) / n = 1 :=
        Nat.div_eq_of_lt_le (by omega) (by omega)
      have h2 : (xs.length - n + n - 1) / n = 0 := Nat.div_eq_of_lt (by omega)
      omega
  unfold chunks
  rw [hc, List.range_succ_eq_map, List.map_cons, List.map_map, List.length_drop]
  simp only [Nat.mul_zero, List.drop_zero, List.drop_drop, Function.comp_def, Nat.mul_succ,
    Nat.add_comm n]

theorem length_le_of_mem_chunks {n : Nat} {xs c : List α} (h : c ∈ chunks n xs) :
    c.length ≤ n := by
  obtain ⟨i, -, rfl⟩ := List.mem_map.mp h
  rw [List.length_take]
  exact Nat.min_le_left _ _

/-- Induction along the pieces. -/
theorem chunks_induction {n : Nat} (hn : 0 < n) {motive : List α → Prop} (nil : motive [])
    (step : ∀ xs, xs ≠ [] → motive (xs.drop n) → motive xs) (xs : List α) : motive xs := by
  induction hl : xs.length using Nat.strongRecOn generalizing xs with
  | ind l ih =>
    by_cases h : xs = []
    · exact h ▸ nil
    · have hp : 0 < xs.length := List.length_pos_iff.mpr h
      exact step xs h (ih _ (by rw [List.length_drop]; omega) _ rfl)

/-- A list of whole pieces comes before the pieces of the rest. -/
theorem chunks_append {n k : Nat} {xs : List α} (ys : List α) (hn : 0 < n)
    (h : xs.length = n * k) : chunks n (xs ++ ys) = chunks n xs ++ chunks n ys := by
  induction k generalizing xs with
  | zero =>
    have hx : xs = [] := List.length_eq_zero_iff.mp h
    simp [hx]
  | succ k ih =>
    have hl : n ≤ xs.length := h ▸ Nat.le_mul_of_pos_right n k.succ_pos
    have hx : xs ≠ [] := List.length_pos_iff.mp (by omega)
    rw [chunks_of_ne_nil hn (by simp [hx]), chunks_of_ne_nil hn hx,
      List.take_append_of_le_length hl, List.drop_append_of_le_length hl,
      ih (by rw [List.length_drop, h, Nat.mul_succ]; omega), List.cons_append]

end Lib.Chunks
