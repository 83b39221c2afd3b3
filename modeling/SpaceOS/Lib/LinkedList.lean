-- Singly linked lists that end with a null pointer: the keys that a pointer leads to, searches along
-- them, and what a change of some links leaves of them.
import Mathlib.Data.List.Nodup
import SpaceOS.Lib.Links

open Lib.Links

namespace Lib.LinkedList

variable {κ : Type} {null : κ} {next next' : κ → κ} {a p z : κ} {l l' : List κ}

/-- The keys from the pointer `a` on, up to the null pointer. -/
def Linked (null : κ) (next : κ → κ) : κ → List κ → Prop
  | a, [] => a = null
  | a, p :: l => a = p ∧ p ≠ null ∧ Linked null next (next p) l

/-- The pointer to the first key. -/
def first (null : κ) (l : List κ) : κ := l.headD null

theorem Linked.ne_null (h : Linked null next a l) : ∀ p ∈ l, p ≠ null := by
  induction l generalizing a with
  | nil => simp
  | cons q l ih =>
    intro p hp
    rcases List.mem_cons.mp hp with rfl | hp
    · exact h.2.1
    · exact ih h.2.2 p hp

theorem Linked.eq_first (h : Linked null next a l) : a = first null l := by
  cases l with
  | nil => exact h
  | cons p l => exact h.1

theorem Linked.unique (h : Linked null next a l) (h' : Linked null next a l') : l = l' := by
  induction l generalizing a l' with
  | nil =>
    cases l' with
    | nil => rfl
    | cons q l' => exact absurd (h'.1.symm.trans h) h'.2.1
  | cons p l ih =>
    cases l' with
    | nil => exact absurd (h.1.symm.trans h') h.2.1
    | cons q l' =>
      obtain rfl := h.1
      obtain rfl := h'.1
      rw [ih h.2.2 h'.2.2]

theorem Linked.congr (h : Linked null next a l) (he : ∀ p ∈ l, next' p = next p) :
    Linked null next' a l := by
  induction l generalizing a with
  | nil => exact h
  | cons p l ih =>
    obtain ⟨rfl, hp, h⟩ := h
    refine ⟨rfl, hp, ?_⟩
    rw [he a List.mem_cons_self]
    exact ih h fun q hq => he q (List.mem_cons_of_mem _ hq)

/-- A new key in front. -/
theorem Linked.push (h : Linked null next a l) (hp : p ≠ null) (hn : next' p = a)
    (he : ∀ q ∈ l, next' q = next q) : Linked null next' p (p :: l) :=
  ⟨rfl, hp, hn ▸ h.congr he⟩

/-- A new key at the end. -/
theorem Linked.snoc (h : Linked null next a (l ++ [z])) (hp : p ≠ null) (hz : next' z = p)
    (hlast : next' p = null) (he : ∀ q ∈ l, next' q = next q) :
    Linked null next' a (l ++ [z, p]) := by
  induction l generalizing a with
  | nil =>
    obtain ⟨rfl, hz0, _⟩ := h
    exact ⟨rfl, hz0, hz, hp, hlast⟩
  | cons q l ih =>
    obtain ⟨rfl, hq, h⟩ := h
    refine ⟨rfl, hq, ?_⟩
    rw [he a List.mem_cons_self]
    exact ih h fun r hr => he r (List.mem_cons_of_mem _ hr)

/-- A key of the list leads to another one, or is the last. -/
theorem Linked.next_mem (h : Linked null next a l) (hp : p ∈ l) : next p = null ∨ next p ∈ l := by
  induction l generalizing a with
  | nil => exact absurd hp List.not_mem_nil
  | cons q l ih =>
    obtain ⟨rfl, _, h⟩ := h
    rcases List.mem_cons.mp hp with rfl | hp
    · cases l with
      | nil => exact Or.inl h
      | cons r l => exact Or.inr (h.1 ▸ List.mem_cons_of_mem _ List.mem_cons_self)
    · exact (ih h hp).imp_right (List.mem_cons_of_mem _)

/-- Keys that are linked in the order of their numbers. -/
theorem linked_range {f : Nat → κ} {k n : Nat} (hn : 0 < n)
    (hne : ∀ i, k ≤ i → i < k + n → f i ≠ null)
    (hnext : ∀ i, k ≤ i → i + 1 < k + n → next (f i) = f (i + 1))
    (hlast : ∀ i, i + 1 = k + n → next (f i) = null) :
    Linked null next (f k) ((List.range' k n).map f) := by
  induction n generalizing k with
  | zero => omega
  | succ n ih =>
    rw [List.range'_succ, List.map_cons]
    refine ⟨rfl, hne k (Nat.le_refl k) (by omega), ?_⟩
    rcases Nat.eq_zero_or_pos n with rfl | hn
    · exact hlast k rfl
    · rw [hnext k (Nat.le_refl k) (by omega)]
      exact ih hn (fun i h1 h2 => hne i (by omega) (by omega))
        (fun i h1 h2 => hnext i (by omega) (by omega)) fun i hi => hlast i (by omega)

section Nodup

variable [DecidableEq κ]

/-- The links of a list, as a chain of keys. -/
def link (null : κ) (next : κ → κ) (p : κ) : Option (Option κ) :=
  some (if next p = null then none else some (next p))

theorem Linked.chain (h : Linked null next a (p :: l)) : Chain (link null next) p (p :: l) := by
  induction l generalizing a p with
  | nil =>
    have hp : next p = null := h.2.2
    refine .last ?_
    unfold link
    rw [if_pos hp]
  | cons q l ih =>
    obtain ⟨_, _, h⟩ := h
    refine .cons ?_ (ih h)
    unfold link
    rw [if_neg (h.1.trans_ne h.2.1), h.1]

/-- A list that ends has no key twice. -/
theorem Linked.nodup (h : Linked null next a l) : l.Nodup := by
  cases l with
  | nil => exact List.nodup_nil
  | cons p l => exact h.chain.nodup

end Nodup

/-! ## Searches -/

section Search

variable [DecidableEq κ] {f : κ → Bool} {n : Nat}

/-- The loop `while (p && !f(p)) p = p->next`. `none`: it has not ended after `n` turns. -/
def search (null : κ) (next : κ → κ) (f : κ → Bool) : Nat → κ → Option κ
  | 0, _ => none
  | n + 1, p => if p = null ∨ f p then some p else search null next f n (next p)

/-- The first key of the list for which `f` holds, or the null pointer. -/
theorem Linked.search_eq (h : Linked null next a l) (hn : l.length < n) :
    search null next f n a = some ((l.find? f).getD null) := by
  induction l generalizing a n with
  | nil =>
    obtain ⟨n, rfl⟩ : ∃ m, n = m + 1 := ⟨n - 1, by omega⟩
    obtain rfl : a = null := h
    rw [search, if_pos (Or.inl rfl), List.find?_nil]
    rfl
  | cons p l ih =>
    rw [List.length_cons] at hn
    obtain ⟨n, rfl⟩ : ∃ m, n = m + 1 := ⟨n - 1, by omega⟩
    obtain ⟨rfl, hp, h⟩ := h
    rw [search]
    by_cases hf : f a = true
    · rw [if_pos (Or.inr hf), List.find?_cons_of_pos hf]
      rfl
    · rw [if_neg (not_or.mpr ⟨hp, hf⟩), List.find?_cons_of_neg hf]
      exact ih h (by omega)

/-- The loop `while (p->next) p = p->next` ends at the last key. -/
theorem Linked.search_last (h : Linked null next a (l ++ [z])) (hn : l.length < n) :
    search null next (fun q => next q = null) n a = some z := by
  induction l generalizing a n with
  | nil =>
    obtain ⟨n, rfl⟩ : ∃ m, n = m + 1 := ⟨n - 1, by omega⟩
    obtain ⟨rfl, _, h⟩ := h
    have hlast : next a = null := h
    exact if_pos (Or.inr (decide_eq_true hlast))
  | cons p l ih =>
    rw [List.length_cons] at hn
    obtain ⟨n, rfl⟩ : ∃ m, n = m + 1 := ⟨n - 1, by omega⟩
    obtain ⟨rfl, hp, h⟩ := h
    have hnext : next a ≠ null := by
      rw [h.eq_first]
      refine h.ne_null _ ?_
      cases l with
      | nil => exact List.mem_cons_self
      | cons q l => exact List.mem_cons_self
    rw [search, if_neg (not_or.mpr ⟨hp, by simpa using hnext⟩)]
    exact ih h (by omega)

end Search

end Lib.LinkedList
