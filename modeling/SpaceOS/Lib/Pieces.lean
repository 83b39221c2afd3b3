-- A list taken apart at a separator by a loop that scans to the next one and passes over it: the pieces
-- between the separators, without an empty one behind the last.
import Mathlib.Data.List.Basic
import Mathlib.Data.List.TakeWhile

namespace Lib.Pieces

variable {α : Type*} [DecidableEq α]

/-- The list without a separator at its end. -/
def trim (sep : α) (l : List α) : List α := if l.getLast? = some sep then l.dropLast else l

def pieces (sep : α) (l : List α) : List (List α) := if l = [] then [] else (trim sep l).splitOn sep

variable {sep : α} {l r : List α}

theorem eq_trim_or (sep : α) (l : List α) : l = trim sep l ∨ l = trim sep l ++ [sep] := by
  unfold trim
  split
  · next h =>
    refine Or.inr ?_
    obtain ⟨ys, rfl⟩ := List.getLast?_eq_some_iff.mp h
    rw [List.dropLast_concat]
  · exact Or.inl rfl

theorem trim_concat (sep : α) (l : List α) : trim sep (l ++ [sep]) = l := by
  unfold trim
  rw [List.getLast?_concat, if_pos rfl, List.dropLast_concat]

theorem trim_of_not_mem (h : sep ∉ l) : trim sep l = l := by
  unfold trim
  rw [if_neg]
  exact fun hl => h (List.mem_of_getLast? hl)

theorem trim_append (l : List α) (hr : r ≠ []) : trim sep (l ++ r) = l ++ trim sep r := by
  unfold trim
  rw [List.getLast?_append_of_ne_nil l hr]
  split
  · exact List.dropLast_append_of_ne_nil hr
  · rfl

@[simp] theorem pieces_nil : pieces sep [] = [] := rfl

theorem pieces_ne_nil (h : l ≠ []) : pieces sep l ≠ [] := by
  unfold pieces
  rw [if_neg h]
  exact List.splitOn_ne_nil sep _

/-- A list without a separator is one piece. -/
theorem pieces_of_not_mem (h : sep ∉ l) (hne : l ≠ []) : pieces sep l = [l] := by
  unfold pieces
  rw [if_neg hne, trim_of_not_mem h, List.splitOn_eq_singleton h]

/-- The piece before the first separator. -/
theorem pieces_append (h : sep ∉ l) : pieces sep (l ++ sep :: r) = l :: pieces sep r := by
  unfold pieces
  rw [if_neg (by simp)]
  by_cases hr : r = []
  · rw [if_pos hr, hr, trim_concat, List.splitOn_eq_singleton h]
  · rw [if_neg hr, ← List.singleton_append, ← List.append_assoc, trim_append _ hr,
      List.append_assoc, List.singleton_append, List.splitOn_append_cons_self_of_not_mem h]

theorem intercalate_pieces (sep : α) (l : List α) :
    [sep].intercalate (pieces sep l) = trim sep l := by
  unfold pieces
  split
  · next h => rw [h]; rfl
  · exact List.intercalate_splitOn sep

/-- The scan to the first separator, and what it leaves. -/
theorem scan (sep : α) (l : List α) : ∃ p, l.takeWhile (· ≠ sep) = p ∧ sep ∉ p ∧
    (l = p ∨ ∃ r, l = p ++ sep :: r) := by
  have hsplit : l.takeWhile (· ≠ sep) ++ l.dropWhile (· ≠ sep) = l :=
    List.takeWhile_append_dropWhile
  have hnot : sep ∉ l.takeWhile (· ≠ sep) := by
    intro hm
    simpa using List.mem_takeWhile_imp hm
  have hsep := List.head?_dropWhile_not (fun x : α => decide (x ≠ sep)) l
  refine ⟨_, rfl, hnot, ?_⟩
  cases hd : l.dropWhile (· ≠ sep) with
  | nil =>
    rw [hd, List.append_nil] at hsplit
    exact Or.inl hsplit.symm
  | cons a r =>
    rw [hd, List.head?_cons] at hsep
    obtain rfl : a = sep := by simpa using hsep
    exact Or.inr ⟨r, by rw [← hd, hsplit]⟩

end Lib.Pieces
