-- Loops that look at a device until it is ready, with a budget: the first look that stops the loop
-- decides what comes out, or the budget does.
import Mathlib.Order.Nat

namespace Lib.Polling

variable {α : Type} {loop : Nat → Nat → α} {p : Nat → Prop} {out : Nat → Nat → α} {spent : Nat → α}

/-- Look `k` is the first one at which `p` holds. -/
def First (p : Nat → Prop) (k : Nat) : Prop := p k ∧ ∀ j < k, ¬ p j

theorem first_or_none (p : Nat → Prop) (n : Nat) : (∃ k < n, First p k) ∨ ∀ k < n, ¬ p k := by
  induction n with
  | zero => exact .inr fun _ h => absurd h (Nat.not_lt_zero _)
  | succ n ih =>
    rcases ih with ⟨k, hk, hfirst⟩ | hnone
    · exact .inl ⟨k, Nat.lt_succ_of_lt hk, hfirst⟩
    · by_cases hn : p n
      · exact .inl ⟨n, Nat.lt_succ_self n, hn, hnone⟩
      · refine .inr fun k hk => ?_
        rcases Nat.lt_or_eq_of_le (Nat.le_of_lt_succ hk) with h | rfl
        · exact hnone k h
        · exact hn

/-- A loop with a budget that numbers its looks: a look at which `p` holds stops it, with what is
left of the budget; without budget it ends with `spent`. -/
structure Polls (loop : Nat → Nat → α) (p : Nat → Prop) (out : Nat → Nat → α) (spent : Nat → α) :
    Prop where
  zero : ∀ i, loop 0 i = spent i
  stop : ∀ t i, p i → loop (t + 1) i = out t i
  next : ∀ t i, ¬ p i → loop (t + 1) i = loop t (i + 1)

namespace Polls

theorem skip (h : Polls loop p out spent) {n : Nat} (t : Nat) (hnone : ∀ k < n, ¬ p k) :
    loop (n + t) 0 = loop t n := by
  induction n generalizing t with
  | zero => rw [Nat.zero_add]
  | succ n ih =>
    rw [show n + 1 + t = n + (t + 1) by omega, ih (t + 1) fun k hk => hnone k (Nat.lt_succ_of_lt hk)]
    exact h.next t n (hnone n (Nat.lt_succ_self n))

theorem of_first (h : Polls loop p out spent) {n k : Nat} (hk : k < n) (hfirst : First p k) :
    loop n 0 = out (n - 1 - k) k := by
  have hsplit : n = k + (n - 1 - k + 1) := by omega
  rw [hsplit, h.skip _ hfirst.2, h.stop _ _ hfirst.1]
  congr 1
  omega

theorem of_none (h : Polls loop p out spent) {n : Nat} (hnone : ∀ k < n, ¬ p k) :
    loop n 0 = spent n := by
  have hskip := h.skip 0 hnone
  rwa [Nat.add_zero, h.zero] at hskip

end Polls

end Lib.Polling
