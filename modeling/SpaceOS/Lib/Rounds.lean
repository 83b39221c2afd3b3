-- Walks around a linked list whose end leads to its start again: the keys that they pass, and the ones
-- that stand before a key.
import Mathlib.Data.List.Chain
import Mathlib.Data.List.Iterate
import SpaceOS.Lib.LinkedList

open Lib.LinkedList

namespace Lib.Rounds

variable {κ : Type}

/-! ## Walks -/

section Walk

variable {r : κ → κ} {a p : κ} {l : List κ} {n : Nat}

/-- A walk passes the keys of a chain one after the other. -/
theorem iterate_chain (h : (p :: l).IsChain fun a b => r a = b) (hn : l.length < n) :
    p :: l <+: List.iterate r p n := by
  induction l generalizing p n with
  | nil =>
    obtain ⟨n, rfl⟩ : ∃ m, n = m + 1 := ⟨n - 1, by omega⟩
    exact List.prefix_cons_inj p |>.mpr List.nil_prefix
  | cons q l ih =>
    rw [List.length_cons] at hn
    obtain ⟨n, rfl⟩ : ∃ m, n = m + 1 := ⟨n - 1, by omega⟩
    obtain ⟨rfl, h⟩ := List.isChain_cons_cons.mp h
    rw [List.iterate]
    exact List.prefix_cons_inj p |>.mpr (ih h (by omega))

end Walk

/-! ## Rings -/

section Ring

variable {r : κ → κ} {c : κ} {u v : List κ} {n : Nat}

/-- Each key leads to the next one, and the last one to the first. -/
def Ring (r : κ → κ) (l : List κ) : Prop :=
  (l.IsChain fun a b => r a = b) ∧ ∀ x ∈ l.getLast?, ∀ y ∈ l.head?, r x = y

theorem Ring.rotate (h : Ring r (u ++ v)) : Ring r (v ++ u) := by
  rcases List.eq_nil_or_concat u with rfl | ⟨u, x, rfl⟩
  · rw [List.append_nil]
    exact h
  cases v with
  | nil =>
    rw [List.append_nil] at h
    exact h
  | cons y v =>
    rw [List.concat_eq_append] at h ⊢
    obtain ⟨hchain, hclose⟩ := h
    obtain ⟨hu, hv, huv⟩ := List.isChain_append.mp hchain
    have hhead : (u ++ [x] ++ y :: v).head? = (u ++ [x]).head? := by
      rw [List.head?_append, Option.or_of_isSome (by simp)]
    rw [hhead, List.getLast?_append_cons] at hclose
    refine ⟨List.isChain_append.mpr ⟨hv, hu, hclose⟩, fun a ha b hb => ?_⟩
    rw [← List.append_assoc, List.getLast?_concat] at ha
    obtain rfl := Option.some.inj ha
    obtain rfl := Option.some.inj hb
    exact huv x (by rw [List.getLast?_concat]; rfl) y rfl

/-- A walk that is long enough passes every key of a ring, in its order from the one after `c`. -/
theorem Ring.walk (h : Ring r (u ++ c :: v)) (hn : (u ++ c :: v).length ≤ n) :
    v ++ (u ++ [c]) <+: List.iterate r (r c) n := by
  rw [List.append_cons] at h
  obtain ⟨hchain, hclose⟩ := h.rotate
  have hlen : (v ++ (u ++ [c])).length ≤ n := by
    simp only [List.length_append, List.length_cons, List.length_nil] at hn ⊢
    omega
  rw [← List.append_assoc, List.getLast?_concat, List.append_assoc] at hclose
  cases hl : v ++ (u ++ [c]) with
  | nil => exact absurd hl (by simp)
  | cons q l =>
    rw [hl] at hchain hclose hlen
    rw [hclose c rfl q rfl]
    exact iterate_chain hchain (by rw [List.length_cons] at hlen; omega)

end Ring

/-! ## Linked lists as rings -/

section Around

variable [DecidableEq κ] {null : κ} {next : κ → κ} {a p z : κ} {l : List κ}

/-- The next key, where the last one leads to `a` again, as the null pointer does. -/
def around (null : κ) (next : κ → κ) (a p : κ) : κ :=
  if p = null ∨ next p = null then a else next p

theorem isChain_around (h : Linked null next p l) : l.IsChain fun x y => around null next a x = y := by
  induction l generalizing p with
  | nil => exact List.isChain_nil
  | cons q l ih =>
    obtain ⟨-, hq, h⟩ := h
    cases l with
    | nil => exact List.isChain_singleton q
    | cons x l =>
      refine List.isChain_cons_cons.mpr ⟨?_, ih h⟩
      obtain ⟨hx, hne, -⟩ := h
      unfold around
      rw [if_neg (not_or.mpr ⟨hq, hx.trans_ne hne⟩), hx]

theorem around_last (h : Linked null next p (l ++ [z])) : around null next a z = a := by
  induction l generalizing p with
  | nil => exact if_pos (Or.inr h.2.2)
  | cons q l ih => exact ih h.2.2

theorem ring_around (h : Linked null next a l) : Ring (around null next a) l := by
  refine ⟨isChain_around h, fun x hx y hy => ?_⟩
  rcases List.eq_nil_or_concat l with rfl | ⟨l, z, rfl⟩
  · exact absurd hx (by simp)
  rw [List.concat_eq_append] at h hx hy
  rw [List.getLast?_concat] at hx
  obtain rfl := Option.some.inj hx
  rw [around_last h, h.eq_first]
  unfold first
  rw [List.headD_eq_head?_getD, Option.mem_def.mp hy, Option.getD_some]

end Around

end Lib.Rounds
