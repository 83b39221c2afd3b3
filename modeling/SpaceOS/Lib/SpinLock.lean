-- A lock that is one word, taken with an atomic test-and-set by any number of threads, and a section of
-- many steps behind it: whatever the order of the steps, the sections run as if one came after the other.
import Mathlib.Data.List.Basic
import Mathlib.Logic.Function.Basic

namespace Lib.SpinLock

variable {ι κ ρ σ : Type}

/-! ## The section alone

A step sees the rest of the section and the shared state. It gives the new state, with the rest that
is left; `none` in place of both is a step that cannot be done. -/

section Alone

variable (body : ρ → σ → Option (Option ρ × σ))

/-- Some steps, with more of them to come. -/
inductive Begun : ρ → σ → ρ → σ → Prop
  | refl (a : ρ) (s : σ) : Begun a s a s
  | step {a b c : ρ} {s t u : σ} : Begun a s b t → body b t = some (some c, u) → Begun a s c u

/-- The whole section. -/
inductive Section : ρ → σ → σ → Prop
  | last {a : ρ} {s t : σ} : body a s = some (none, t) → Section a s t
  | next {a b : ρ} {s t u : σ} : body a s = some (some b, t) → Section b t u → Section a s u

/-- Sections, one after the other, each from the start of its argument. -/
inductive Serial (start : κ → ρ) (s : σ) : List κ → σ → Prop
  | nil : Serial start s [] s
  | snoc {ks : List κ} {k : κ} {t u : σ} :
      Serial start s ks t → Section body (start k) t u → Serial start s (ks ++ [k]) u

variable {body} {a b : ρ} {s t u : σ}

theorem section_next (h : body a s = some (some b, t)) : Section body a s u ↔ Section body b t u := by
  refine ⟨fun hs => ?_, .next h⟩
  cases hs with
  | last h' => exact nomatch h.symm.trans h'
  | next h' hs =>
    obtain ⟨hb, rfl⟩ := Prod.mk.inj (Option.some.inj (h.symm.trans h'))
    obtain rfl := Option.some.inj hb
    exact hs

theorem section_last (h : body a s = some (none, t)) : Section body a s u ↔ u = t := by
  refine ⟨fun hs => ?_, fun he => he ▸ .last h⟩
  cases hs with
  | last h' => exact (Prod.mk.inj (Option.some.inj (h'.symm.trans h))).2
  | next h' _ => exact nomatch h.symm.trans h'

theorem section_stuck (h : body a s = none) : ¬ Section body a s u := by
  intro hs
  cases hs with
  | last h' => exact nomatch h.symm.trans h'
  | next h' _ => exact nomatch h.symm.trans h'

/-- Steps at the start of a section. -/
theorem Begun.section_iff (h : Begun body a s b t) : Section body a s u ↔ Section body b t u := by
  induction h with
  | refl => exact Iff.rfl
  | step _ hb ih => exact ih.trans (section_next hb)

/-- A section that comes to its end is not stuck on the way. -/
theorem Begun.can_step (h : Begun body a s b t) (hs : Section body a s u) : ∃ r, body b t = some r := by
  cases h.section_iff.mp hs with
  | last hb => exact ⟨_, hb⟩
  | next hb _ => exact ⟨_, hb⟩

end Alone

/-! ## Many threads -/

/-- Where a thread is: outside of the lock, at the test-and-set, at the loop that only reads the word,
in the section, at the store that gives the lock back. -/
inductive Place (κ ρ : Type) where
  | out
  | test (k : κ)
  | spin (k : κ)
  | inside (a : ρ)
  | release

/-- `taken` are the arguments of the sections, in the order in which their threads got the lock. -/
structure Sys (ι κ ρ σ : Type) where
  locked : Bool
  place : ι → Place κ ρ
  shared : σ
  taken : List κ

def Sys.start (s : σ) : Sys ι κ ρ σ := ⟨false, fun _ => .out, s, []⟩

/-! ## The invariant -/

variable (body : ρ → σ → Option (Option ρ × σ)) (start : κ → ρ)

/-- The thread has the lock. -/
def Place.Holds : Place κ ρ → Prop
  | .inside _ => True
  | .release => True
  | _ => False

/-- What the threads have done to the shared state: the sections so far, and of the last one, where a
thread is still in it, only the steps so far. -/
structure Inv (s : σ) (u : Sys ι κ ρ σ) : Prop where
  alone : ∀ i j, (u.place i).Holds → (u.place j).Holds → i = j
  word : u.locked = true ↔ ∃ i, (u.place i).Holds
  inside : ∀ i a, u.place i = .inside a →
    ∃ ks k t, u.taken = ks ++ [k] ∧ Serial body start s ks t ∧ Begun body (start k) t a u.shared
  quiet : (∀ i a, u.place i ≠ .inside a) → Serial body start s u.taken u.shared

section Inv

variable {body} {start} {s : σ} {u : Sys ι κ ρ σ} {i j : ι}

theorem inv_start (s : σ) : Inv body start s (.start s : Sys ι κ ρ σ) where
  alone _ _ h := h.elim
  word := ⟨fun h => Bool.noConfusion h, fun ⟨_, h⟩ => h.elim⟩
  inside _ _ h := nomatch h
  quiet _ := .nil

theorem Inv.holds_false (h : Inv body start s u) (hl : u.locked = false) (j : ι) : ¬ (u.place j).Holds :=
  fun hj => Bool.noConfusion (hl.symm.trans (h.word.mpr ⟨j, hj⟩))

/-- The thread that has the lock is the only one. -/
theorem Inv.others (h : Inv body start s u) (hi : (u.place i).Holds) (hj : j ≠ i) : ¬ (u.place j).Holds :=
  fun hh => hj (h.alone j i hh hi)

end Inv

/-! ## The steps -/

variable [DecidableEq ι]

def Sys.move (s : Sys ι κ ρ σ) (i : ι) (p : Place κ ρ) : Sys ι κ ρ σ :=
  { s with place := Function.update s.place i p }

/-- One step of one thread. -/
inductive Step (s : Sys ι κ ρ σ) : Sys ι κ ρ σ → Prop
  | call (i : ι) (k : κ) : s.place i = .out → Step s (s.move i (.test k))
  | take {i : ι} {k : κ} : s.place i = .test k → s.locked = false →
      Step s { s.move i (.inside (start k)) with locked := true, taken := s.taken ++ [k] }
  | fail {i : ι} {k : κ} : s.place i = .test k → s.locked = true →
      Step s { s.move i (.spin k) with locked := true }
  | wait {i : ι} {k : κ} : s.place i = .spin k → s.locked = true → Step s s
  | retry {i : ι} {k : κ} : s.place i = .spin k → s.locked = false → Step s (s.move i (.test k))
  | work {i : ι} {a b : ρ} {t : σ} : s.place i = .inside a → body a s.shared = some (some b, t) →
      Step s { s.move i (.inside b) with shared := t }
  | last {i : ι} {a : ρ} {t : σ} : s.place i = .inside a → body a s.shared = some (none, t) →
      Step s { s.move i .release with shared := t }
  | free {i : ι} : s.place i = .release → Step s { s.move i .out with locked := false }

inductive Run (s : σ) : Sys ι κ ρ σ → Prop
  | start : Run s (.start s)
  | step {u v : Sys ι κ ρ σ} : Run s u → Step body start u v → Run s v

variable {body} {start} {s : σ} {u v : Sys ι κ ρ σ} {i j : ι} {k : κ} {a b : ρ} {p : Place κ ρ}

@[simp] theorem move_self : (u.move i p).place i = p := Function.update_self _ _ _

@[simp] theorem move_ne (h : j ≠ i) : (u.move i p).place j = u.place j := Function.update_of_ne h _ _

@[simp] theorem move_locked : (u.move i p).locked = u.locked := rfl

namespace Inv

/-- A thread in front of the lock moves. -/
theorem outside (h : Inv body start s u) (hi : ¬ (u.place i).Holds) (hp : ¬ p.Holds) :
    Inv body start s (u.move i p) := by
  have hsame : ∀ j, ((u.move i p).place j).Holds ↔ (u.place j).Holds := by
    intro j
    by_cases hj : j = i
    · rw [hj, move_self]
      exact ⟨fun h => absurd h hp, fun h => absurd h hi⟩
    · rw [move_ne hj]
  have hinside : ∀ j a, (u.move i p).place j = .inside a ↔ u.place j = .inside a := by
    intro j a
    by_cases hj : j = i
    · rw [hj, move_self]
      exact ⟨fun h => absurd (h ▸ trivial) hp, fun h => absurd (h ▸ trivial) hi⟩
    · rw [move_ne hj]
  refine ⟨fun j k hj hk => h.alone j k ((hsame j).mp hj) ((hsame k).mp hk), ?_, ?_, ?_⟩
  · rw [move_locked, h.word]
    exact exists_congr fun j => (hsame j).symm
  · exact fun j a hj => h.inside j a ((hinside j a).mp hj)
  · exact fun hq => h.quiet fun j a hj => hq j a ((hinside j a).mpr hj)

/-- A thread gets the lock. -/
theorem take (h : Inv body start s u) (hl : u.locked = false) :
    Inv body start s { u.move i (.inside (start k)) with locked := true, taken := u.taken ++ [k] } := by
  have hfree := h.holds_false hl
  have hothers : ∀ j, j ≠ i → ¬ ((u.move i (.inside (start k))).place j).Holds := by
    intro j hj
    rw [move_ne hj]
    exact hfree j
  have hquiet := h.quiet fun j a hj => hfree j (hj ▸ trivial)
  refine ⟨fun j l hj hl => ?_, ?_, fun j b hj => ?_, fun hq => absurd move_self (hq i (start k))⟩
  · rw [not_imp_comm.mp (hothers j) (not_not.mpr hj), not_imp_comm.mp (hothers l) (not_not.mpr hl)]
  · exact ⟨fun _ => ⟨i, by rw [move_self]; trivial⟩, fun _ => rfl⟩
  · have hji : j = i := not_imp_comm.mp (hothers j) (not_not.mpr (hj ▸ trivial))
    rw [hji] at hj
    obtain rfl : start k = b := Place.inside.inj (move_self.symm.trans hj)
    exact ⟨u.taken, k, u.shared, rfl, hquiet, .refl _ u.shared⟩

/-- A step in the section. -/
theorem work {t : σ} (h : Inv body start s u) (hi : u.place i = .inside a)
    (hb : body a u.shared = some (some b, t)) :
    Inv body start s { u.move i (.inside b) with shared := t } := by
  have hholds : (u.place i).Holds := hi ▸ trivial
  have hothers : ∀ j, j ≠ i → ¬ ((u.move i (.inside b)).place j).Holds := by
    intro j hj
    rw [move_ne hj]
    exact h.others hholds hj
  refine ⟨fun j k hj hk => ?_, ?_, fun j c hj => ?_, fun hq => absurd move_self (hq i b)⟩
  · rw [not_imp_comm.mp (hothers j) (not_not.mpr hj), not_imp_comm.mp (hothers k) (not_not.mpr hk)]
  · exact ⟨fun _ => ⟨i, by rw [move_self]; trivial⟩, fun _ => h.word.mpr ⟨i, hholds⟩⟩
  · have hji : j = i := not_imp_comm.mp (hothers j) (not_not.mpr (hj ▸ trivial))
    rw [hji] at hj
    obtain rfl : b = c := Place.inside.inj (move_self.symm.trans hj)
    obtain ⟨as, d, t', htaken, hserial, hbegun⟩ := h.inside i a hi
    exact ⟨as, d, t', htaken, hserial, hbegun.step hb⟩

/-- The last step of the section. -/
theorem last {t : σ} (h : Inv body start s u) (hi : u.place i = .inside a)
    (hb : body a u.shared = some (none, t)) : Inv body start s { u.move i .release with shared := t } := by
  have hholds : (u.place i).Holds := hi ▸ trivial
  have hothers : ∀ j, j ≠ i → ¬ ((u.move i .release).place j).Holds := by
    intro j hj
    rw [move_ne hj]
    exact h.others hholds hj
  refine ⟨fun j k hj hk => ?_, ?_, fun j c hj => ?_, fun _ => ?_⟩
  · rw [not_imp_comm.mp (hothers j) (not_not.mpr hj), not_imp_comm.mp (hothers k) (not_not.mpr hk)]
  · exact ⟨fun _ => ⟨i, by rw [move_self]; trivial⟩, fun _ => h.word.mpr ⟨i, hholds⟩⟩
  · have hji : j = i := not_imp_comm.mp (hothers j) (not_not.mpr (hj ▸ trivial))
    rw [hji] at hj
    exact nomatch move_self.symm.trans hj
  · obtain ⟨as, d, t', htaken, hserial, hbegun⟩ := h.inside i a hi
    change Serial body start s u.taken t
    rw [htaken]
    exact hserial.snoc (hbegun.section_iff.mpr (.last hb))

/-- The lock is given back. -/
theorem free (h : Inv body start s u) (hi : u.place i = .release) :
    Inv body start s { u.move i .out with locked := false } := by
  have hholds : (u.place i).Holds := hi ▸ trivial
  have hnone : ∀ j, ¬ ((u.move i .out).place j).Holds := by
    intro j
    by_cases hj : j = i
    · rw [hj, move_self]
      exact id
    · rw [move_ne hj]
      exact h.others hholds hj
  refine ⟨fun j _ hj => absurd hj (hnone j), ?_, fun j a hj => ?_, fun _ => ?_⟩
  · exact ⟨fun hf => Bool.noConfusion hf, fun ⟨j, hj⟩ => absurd hj (hnone j)⟩
  · exact absurd (hj ▸ trivial) (hnone j)
  · refine h.quiet fun j a hj => ?_
    by_cases hji : j = i
    · rw [hji, hi] at hj
      exact nomatch hj
    · exact h.others hholds hji (hj ▸ trivial)

/-- Every step keeps the invariant. -/
theorem step (h : Inv body start s u) (hs : Step body start u v) : Inv body start s v := by
  cases hs with
  | call i k hi => exact h.outside (by rw [hi]; exact id) id
  | take hi hl => exact h.take hl
  | fail hi hl =>
    rw [← hl]
    exact h.outside (by rw [hi]; exact id) id
  | wait hi hl => exact h
  | retry hi hl => exact h.outside (by rw [hi]; exact id) id
  | work hi hb => exact h.work hi hb
  | last hi hb => exact h.last hi hb
  | free hi => exact h.free hi

end Inv

theorem Run.inv (h : Run body start s u) : Inv body start s u := by
  induction h with
  | start => exact inv_start s
  | step _ hs ih => exact ih.step hs

end Lib.SpinLock
