-- Maps that a run of writes changes, and what is back after a clean-up that removes keys.
import Mathlib.Data.List.Basic

namespace Lib.Undo

variable {κ ν : Type} [DecidableEq κ]

/-- The effect of one write: the key has the value now, or none. -/
def write (m : κ → Option ν) (e : κ × Option ν) : κ → Option ν :=
  fun k => if k = e.1 then e.2 else m k

def run (m : κ → Option ν) (es : List (κ × Option ν)) : κ → Option ν := es.foldl write m

def remove (m : κ → Option ν) (ks : List κ) : κ → Option ν := fun k => if k ∈ ks then none else m k

/-- The last of the effects on a key. -/
def last : List (κ × Option ν) → κ → Option (Option ν)
  | [], _ => none
  | e :: es, k => (last es k).or (if k = e.1 then some e.2 else none)

section Run

variable {m : κ → Option ν} {es es' : List (κ × Option ν)} {ks : List κ} {k : κ}

@[simp] theorem run_nil : run m ([] : List (κ × Option ν)) = m := rfl

theorem run_cons (e : κ × Option ν) : run m (e :: es) = run (write m e) es := rfl

theorem run_append : run m (es ++ es') = run (run m es) es' := List.foldl_append

theorem last_cons (e : κ × Option ν) :
    last (e :: es) k = (last es k).or (if k = e.1 then some e.2 else none) := rfl

theorem last_append : last (es ++ es') k = (last es' k).or (last es k) := by
  induction es with
  | nil => simp [last]
  | cons e es ih => rw [List.cons_append, last_cons, ih, last_cons, Option.or_assoc]

theorem run_eq (m : κ → Option ν) (es : List (κ × Option ν)) (k : κ) :
    run m es k = (last es k).getD (m k) := by
  induction es generalizing m with
  | nil => rfl
  | cons e es ih =>
    rw [run_cons, ih, last_cons]
    rcases last es k with _ | x
    · by_cases h : k = e.1 <;> simp [write, h]
    · simp

theorem last_eq_none : last es k = none ↔ k ∉ es.map Prod.fst := by
  induction es with
  | nil => simp [last]
  | cons e es ih =>
    rw [last_cons, Option.or_eq_none_iff, ih, List.map_cons, List.mem_cons, not_or]
    constructor
    · rintro ⟨h1, h2⟩
      refine ⟨fun h => ?_, h1⟩
      rw [if_pos h] at h2
      exact absurd h2 (by simp)
    · rintro ⟨h1, h2⟩
      exact ⟨h2, if_neg h1⟩

theorem mem_of_last {x : Option ν} (h : last es k = some x) : k ∈ es.map Prod.fst := by
  by_contra hn
  rw [last_eq_none.mpr hn] at h
  exact absurd h (by simp)

theorem run_of_notMem (h : k ∉ es.map Prod.fst) : run m es k = m k := by
  rw [run_eq, last_eq_none.mpr h]
  rfl

/-- Effects that leave a value leave one wherever there was one or one was written. -/
theorem run_isSome (he : ∀ e ∈ es, e.2.isSome) (h : (m k).isSome ∨ k ∈ es.map Prod.fst) :
    (run m es k).isSome := by
  induction es generalizing m with
  | nil => exact h.resolve_right (by simp)
  | cons e es ih =>
    rw [run_cons]
    apply ih fun e' he' => he e' (List.mem_cons_of_mem _ he')
    rw [List.map_cons, List.mem_cons] at h
    unfold write
    by_cases hk : k = e.1
    · rw [if_pos hk]
      exact Or.inl (he e List.mem_cons_self)
    · rw [if_neg hk]
      exact h.imp id fun h => h.resolve_left hk

theorem remove_of_notMem (h : k ∉ ks) : remove m ks k = m k := if_neg h

theorem remove_nil : remove m [] = m := by
  funext k
  simp [remove]

theorem remove_cons {a : κ} : remove m (a :: ks) = remove (remove m [a]) ks := by
  funext k
  unfold remove
  by_cases h : k ∈ ks
  · simp [h]
  · simp [h]

theorem remove_append {ks' : List κ} : remove (remove m ks) ks' = remove m (ks ++ ks') := by
  funext k
  unfold remove
  by_cases h : k ∈ ks'
  · simp [h]
  · simp [h]

end Run

/-- A clean-up gives back the map, up to a reflexive relation at each key, just when the keys it
removes may be without a value, and every key that was written and stays was left as it was. -/
theorem remove_run_rel_iff {R : κ → Option ν → Option ν → Prop} (hR : ∀ k x, R k x x)
    (m : κ → Option ν) (es : List (κ × Option ν)) (ks : List κ) :
    (∀ k, R k (m k) (remove (run m es) ks k)) ↔
      (∀ k ∈ ks, R k (m k) none) ∧ ∀ k x, last es k = some x → k ∈ ks ∨ R k (m k) x := by
  constructor
  · intro h
    refine ⟨fun k hk => ?_, fun k x hx => ?_⟩
    · have hk' := h k
      rwa [remove, if_pos hk] at hk'
    · by_cases hk : k ∈ ks
      · exact Or.inl hk
      · have hk' := h k
        rw [remove, if_neg hk, run_eq, hx] at hk'
        exact Or.inr hk'
  · rintro ⟨h1, h2⟩ k
    unfold remove
    split
    · rename_i hk
      exact h1 k hk
    · rename_i hk
      rw [run_eq]
      rcases hx : last es k with _ | x
      · exact hR k (m k)
      · exact (h2 k x hx).resolve_left hk

end Lib.Undo
