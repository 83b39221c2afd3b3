-- A log of which a circular array keeps the last entries, and a cursor that walks over them from
-- the newest one to the oldest one and back.
import Mathlib.Data.Fin.Basic
import Mathlib.Data.List.Basic
import Mathlib.Data.List.Induction
import Mathlib.Logic.Function.Basic

namespace Lib.Recents

variable {α : Type} {n : Nat}

/-! ## The log -/

/-- The log with an entry that is not the newest one already. -/
def addNew [DecidableEq α] (log : List α) (x : α) : List α :=
  if log.getLast? = some x then log else log ++ [x]

/-- The entry of the log that is `p` before the newest one. -/
def back (log : List α) (p : Nat) : Option α := log.reverse[p]?

/-- How many entries are kept. -/
def kept (n : Nat) (log : List α) : Nat := min log.length n

/-- Each entry differs from the one before it. -/
def NoRepeat (log : List α) : Prop :=
  ∀ p, p + 1 < log.length → back log p ≠ back log (p + 1)

theorem back_eq (log : List α) {p : Nat} (h : p < log.length) :
    back log p = log[log.length - 1 - p]? := by
  rw [back, List.getElem?_reverse h]

theorem back_zero (log : List α) : back log 0 = log.getLast? := by
  rw [back, ← List.head?_eq_getElem?, List.head?_reverse]

theorem back_append (log : List α) (x : α) (p : Nat) :
    back (log ++ [x]) (p + 1) = back log p := by
  simp [back]

theorem noRepeat_addNew [DecidableEq α] {log : List α} (h : NoRepeat log) (x : α) :
    NoRepeat (addNew log x) := by
  unfold addNew
  split
  · exact h
  · rename_i hx
    intro p hp
    rw [back_append]
    cases p with
    | zero =>
      rw [back_zero, back_zero, List.getLast?_concat]
      exact fun he => hx he.symm
    | succ p =>
      rw [back_append]
      refine h p ?_
      rw [List.length_append, List.length_singleton] at hp
      omega

/-! ## The array -/

/-- The array holds the last `n` entries of the log, each at its number modulo `n`. -/
def Holds (slots : Fin n → α) (log : List α) : Prop :=
  ∀ i (s : Fin n), s.val = i % n → log.length ≤ i + n → i < log.length → log[i]? = some (slots s)

theorem holds_nil (slots : Fin n → α) : Holds slots [] := fun _ _ _ _ h => absurd h (Nat.not_lt_zero _)

/-- The next entry takes the place of the oldest one. -/
theorem holds_push {slots : Fin n → α} {log : List α} (h : Holds slots log) (x : α) {s : Fin n}
    (hs : s.val = log.length % n) : Holds (Function.update slots s x) (log ++ [x]) := by
  intro i t ht hle hlt
  rw [List.length_append, List.length_singleton] at hle hlt
  rcases Nat.lt_or_eq_of_le (Nat.le_of_lt_succ hlt) with hi | rfl
  · have hne : t ≠ s := by
      intro he
      have hmod : i % n = log.length % n := by rw [← ht, ← hs, he]
      have hdvd : n ∣ log.length - i :=
        Nat.dvd_of_mod_eq_zero (Nat.sub_mod_eq_zero_of_mod_eq hmod.symm)
      exact absurd (Nat.le_of_dvd (by omega) hdvd) (by omega)
    rw [Function.update_of_ne hne, List.getElem?_append_left hi]
    exact h i t ht (by omega) hi
  · obtain rfl : t = s := Fin.ext (by rw [ht, hs])
    rw [Function.update_self, List.getElem?_concat_length]

/-- The place `p` before the newest entry, counted around the array: what is there is among the last
`n` entries, whatever `p` is. -/
theorem holds_back {slots : Fin n → α} {log : List α} (h : Holds slots log) {p : Nat}
    (hp : p < log.length) {s : Fin n} (hs : s.val = (log.length - 1 - p) % n) :
    back log (p % n) = some (slots s) := by
  have hpn : p % n < n := Nat.mod_lt _ (Nat.lt_of_le_of_lt (Nat.zero_le _) s.isLt)
  have hle := Nat.mod_le p n
  rw [back_eq _ (by omega)]
  refine h _ s ?_ (by omega) (by omega)
  have hsplit : log.length - 1 - p % n = (log.length - 1 - p) + n * (p / n) := by
    have := Nat.mod_add_div p n
    omega
  rw [hs, hsplit, Nat.add_mul_mod_self_left]

/-! ## The cursor -/

inductive Arrow | up | down
  deriving DecidableEq

/-- One step of a cursor over `m` entries, 0 being the place before the newest one. -/
def move (m k : Nat) : Arrow → Nat
  | .up => min (k + 1) m
  | .down => k - 1

/-- The cursor after a run of arrows. -/
def cursor (m : Nat) (as : List Arrow) : Nat := as.foldl (move m) 0

/-- The entry under the cursor. -/
def under (log : List α) : Nat → Option α
  | 0 => none
  | k + 1 => back log k

theorem cursor_append (m : Nat) (as : List Arrow) (a : Arrow) :
    cursor m (as ++ [a]) = move m (cursor m as) a := by
  simp [cursor, List.foldl_append]

theorem cursor_le (m : Nat) (as : List Arrow) : cursor m as ≤ m := by
  induction as using List.reverseRecOn with
  | nil => exact Nat.zero_le _
  | append_singleton as a ih =>
    rw [cursor_append]
    cases a with
    | up => exact Nat.min_le_right _ _
    | down => exact (Nat.sub_le _ _).trans ih

/-- So many steps up, as far as there are entries. -/
theorem cursor_ups (m k : Nat) : cursor m (List.replicate k .up) = min k m := by
  induction k with
  | zero => exact (Nat.zero_min _).symm
  | succ k ih =>
    rw [List.replicate_succ', cursor_append, ih]
    simp only [move]
    omega

/-- Two cursors move as one as long as none of them stops before the other one. -/
theorem cursor_eq_of_le {m l : Nat} {as : List Arrow} (hml : m ≤ l)
    (h : ∀ bs, bs <+: as → cursor l bs ≤ m) : cursor l as = cursor m as := by
  induction as using List.reverseRecOn with
  | nil => rfl
  | append_singleton as a ih =>
    have hall := h _ (List.prefix_refl _)
    rw [cursor_append] at hall
    rw [cursor_append, cursor_append,
      ← ih fun bs hb => h bs (hb.trans (List.prefix_append _ _))]
    cases a with
    | up =>
      simp only [move] at hall ⊢
      omega
    | down => rfl

end Lib.Recents
