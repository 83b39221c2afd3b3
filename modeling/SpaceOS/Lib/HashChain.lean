-- A log whose every line carries the hash of its text, keyed with the hash on the line before, and a
-- writer that keeps the last hash in memory: what it writes is a chain as long as the value in
-- memory is the one on the last line.
import Mathlib.Data.List.Basic
import Mathlib.Logic.Function.Defs

namespace Lib.HashChain

variable {T H : Type*} (hash : T → H → H) (seed : H)

/-- Every line carries the hash of its text, keyed with the hash on the line before it. -/
def Linked (s : H) : List (T × H) → Prop
  | [] => True
  | (t, h) :: ls => h = hash t s ∧ Linked h ls

/-- The hash on the last line. -/
def tip (s : H) (ls : List (T × H)) : H := (ls.getLast?.map Prod.snd).getD s

@[simp] theorem tip_nil : tip seed ([] : List (T × H)) = seed := rfl

@[simp] theorem tip_concat (ls : List (T × H)) (l : T × H) : tip seed (ls ++ [l]) = l.2 := by
  simp [tip]

theorem tip_cons (l : T × H) (ls : List (T × H)) : tip seed (l :: ls) = tip l.2 ls := by
  cases ls with
  | nil => rfl
  | cons m ls => simp [tip, List.getLast?_cons]

theorem linked_concat (ls : List (T × H)) (t : T) (h : H) :
    Linked hash seed (ls ++ [(t, h)]) ↔ Linked hash seed ls ∧ h = hash t (tip seed ls) := by
  induction ls generalizing seed with
  | nil => simp [Linked]
  | cons l ls ih =>
    rw [List.cons_append, Linked, ih, Linked, tip_cons, and_assoc]

/-! ## The writer -/

/-- The hash in memory and the lines written. -/
structure Writer (T H : Type*) where
  mem : H
  lines : List (T × H)

/-- A line logged, or the memory set to the seed again. -/
inductive Act (T : Type*)
  | log (t : T)
  | restart

def Writer.step (w : Writer T H) : Act T → Writer T H
  | .log t => ⟨hash t w.mem, w.lines ++ [(t, hash t w.mem)]⟩
  | .restart => { w with mem := seed }

def Writer.run (w : Writer T H) (as : List (Act T)) : Writer T H := as.foldl (·.step hash seed) w

/-- Some line is logged. -/
def Writes (as : List (Act T)) : Prop := ∃ t, Act.log t ∈ as

/-- Every restart that a line follows finds the seed on the last line, or no line. -/
def Calm (w : Writer T H) : List (Act T) → Prop
  | [] => True
  | .log t :: as => Calm (w.step hash seed (.log t)) as
  | .restart :: as => (Writes as → tip seed w.lines = seed) ∧ Calm (w.step hash seed .restart) as

variable {hash seed} {w : Writer T H}

@[simp] theorem writes_log (t : T) (as : List (Act T)) : Writes (.log t :: as) :=
  ⟨t, List.mem_cons_self⟩

@[simp] theorem writes_restart (as : List (Act T)) : Writes (.restart :: as) ↔ Writes as := by
  simp [Writes]

theorem calm_of_not_writes {as : List (Act T)} (h : ¬ Writes as) : Calm hash seed w as := by
  induction as generalizing w with
  | nil => trivial
  | cons a as ih =>
    cases a with
    | log t => exact absurd (writes_log t as) h
    | restart =>
      rw [writes_restart] at h
      exact ⟨fun hw => absurd hw h, ih h⟩

theorem linked_of_run {as : List (Act T)} (h : Linked hash seed (w.run hash seed as).lines) :
    Linked hash seed w.lines := by
  induction as generalizing w with
  | nil => exact h
  | cons a as ih =>
    have hs := ih h
    cases a with
    | log t => exact ((linked_concat hash seed _ _ _).mp hs).1
    | restart => exact hs

/-- A writer that was restarted off the seed breaks the chain with its next line. -/
theorem linked_run_of_stale (hi : ∀ t, Function.Injective (hash t))
    (hl : Linked hash seed w.lines) (hm : w.mem = seed) (ht : tip seed w.lines ≠ seed)
    (as : List (Act T)) : Linked hash seed (w.run hash seed as).lines ↔ ¬ Writes as := by
  induction as generalizing w with
  | nil => simpa [Writes, Writer.run] using hl
  | cons a as ih =>
    cases a with
    | log t =>
      constructor
      · intro h
        have hc := ((linked_concat hash seed _ _ _).mp (linked_of_run (w := w.step hash seed _) h)).2
        rw [hm] at hc
        exact absurd (hi t hc).symm ht
      · intro h
        exact absurd (writes_log t as) h
    | restart =>
      rw [writes_restart]
      exact ih (w := w.step hash seed .restart) hl rfl ht

/-- What a writer logs is a chain exactly when its restarts fall where the chain stands at the
seed. -/
theorem linked_run_iff (hi : ∀ t, Function.Injective (hash t)) (hl : Linked hash seed w.lines)
    (hm : w.mem = tip seed w.lines) (as : List (Act T)) :
    Linked hash seed (w.run hash seed as).lines ↔ Calm hash seed w as := by
  induction as generalizing w with
  | nil => simpa [Calm, Writer.run] using hl
  | cons a as ih =>
    cases a with
    | log t =>
      have hs : Linked hash seed (w.step hash seed (.log t)).lines :=
        (linked_concat hash seed _ _ _).mpr ⟨hl, by rw [hm]⟩
      exact ih hs (tip_concat seed w.lines (t, hash t w.mem)).symm
    | restart =>
      by_cases ht : tip seed w.lines = seed
      · have hr := ih (w := w.step hash seed .restart) hl ht.symm
        exact hr.trans ⟨fun h => ⟨fun _ => ht, h⟩, And.right⟩
      · have hr := linked_run_of_stale (w := w.step hash seed .restart) hi hl rfl ht as
        refine hr.trans ⟨fun h => ⟨fun hw => absurd hw h, calm_of_not_writes h⟩, ?_⟩
        intro h hw
        exact ht (h.1 hw)

end Lib.HashChain
