-- A variable that a loop over a list writes: after the loop it holds the last value written, or the
-- first one where a write closes the variable.
import Mathlib.Data.List.Basic

namespace Lib.LastWrite

variable {α β σ : Type} {step : σ → α → σ}

/-- The last value that `w` gives along the list. -/
def last (w : α → Option β) (l : List α) : Option β := (l.filterMap w).getLast?

section Last

variable {w : α → Option β} {v : σ → β}

theorem last_append (w : α → Option β) (l l' : List α) :
    last w (l ++ l') = (last w l').or (last w l) := by
  unfold last
  rw [List.filterMap_append, List.getLast?_append]

theorem last_cons (w : α → Option β) (a : α) (l : List α) :
    last w (a :: l) = (last w l).or (w a) := by
  rw [show a :: l = [a] ++ l from rfl, last_append]
  congr 1
  unfold last
  cases h : w a <;> simp [h]

/-- Each turn writes the variable, or leaves it. -/
theorem foldl_last (hs : ∀ s a, v (step s a) = (w a).getD (v s)) (l : List α) (s : σ) :
    v (l.foldl step s) = (last w l).getD (v s) := by
  induction l generalizing s with
  | nil => rfl
  | cons a l ih =>
    rw [List.foldl_cons, ih, hs, last_cons]
    cases last w l <;> rfl

end Last

section First

variable {p : α → Bool} {set : σ → Bool} {I : σ → Prop}

theorem foldl_inv (hi : ∀ s a, I s → I (step s a)) (l : List α) {s : σ} (h : I s) :
    I (l.foldl step s) := by
  induction l generalizing s with
  | nil => exact h
  | cons a l ih => exact ih (hi s a h)

/-- The flag of a variable that is written once: it is set where some turn sets it. -/
theorem foldl_flag (hi : ∀ s a, I s → I (step s a))
    (hs : ∀ s a, I s → set (step s a) = (set s || p a)) (l : List α) {s : σ} (h : I s) :
    set (l.foldl step s) = (set s || l.any p) := by
  induction l generalizing s with
  | nil => simp
  | cons a l ih => rw [List.foldl_cons, ih (hi s a h), hs s a h, List.any_cons, Bool.or_assoc]

section Value

variable {v : σ → β} {w : α → β} (hs : ∀ s a, set (step s a) = (set s || p a))
  (hv : ∀ s a, set s = true → v (step s a) = v s)

include hs hv

/-- The variable keeps its value once the flag is set. -/
theorem foldl_kept (l : List α) {s : σ} (h : set s = true) : v (l.foldl step s) = v s := by
  induction l generalizing s with
  | nil => rfl
  | cons a l ih =>
    rw [List.foldl_cons, ih (by rw [hs, h, Bool.true_or]), hv s a h]

/-- A variable that is written where its flag gets set: its value comes from the first such turn. -/
theorem foldl_first (hw : ∀ s a, set s = false → p a = true → v (step s a) = w a)
    (l : List α) {s : σ} (h : set s = false) {a : α} (ha : l.find? p = some a) :
    v (l.foldl step s) = w a := by
  induction l generalizing s with
  | nil => exact absurd ha (by simp)
  | cons b l ih =>
    rw [List.foldl_cons]
    cases hb : p b with
    | true =>
      rw [List.find?_cons_of_pos hb] at ha
      obtain rfl := Option.some.inj ha
      rw [foldl_kept hs hv l (by rw [hs, hb, Bool.or_true]), hw s b h hb]
    | false =>
      rw [List.find?_cons_of_neg (by simp [hb])] at ha
      exact ih (by rw [hs, h, hb]; rfl) ha

end Value

end First

end Lib.LastWrite
