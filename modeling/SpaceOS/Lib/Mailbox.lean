-- A place for one message between a writer, who overwrites it, and a reader, who takes it in two steps:
-- it reads the place, and then clears it.
import Mathlib.Data.List.Basic

namespace Lib.Mailbox

variable {α : Type}

inductive Event (α : Type) where
  | put (a : α)
  | read
  | clear

/-- What is in the place, and what the reader has seen. -/
structure Box (α : Type) where
  cell : Option α
  seen : List α

def step (b : Box α) : Event α → Box α
  | .put a => { b with cell := some a }
  | .read => { b with seen := b.seen ++ b.cell.toList }
  | .clear => { b with cell := none }

def run (b : Box α) (es : List (Event α)) : Box α := es.foldl step b

/-- The reader reads and clears in turns; `b`: it clears next. -/
def Turns : Bool → List (Event α) → Prop
  | _, [] => True
  | b, .put _ :: es => Turns b es
  | b, .read :: es => b = false ∧ Turns true es
  | b, .clear :: es => b = true ∧ Turns false es

/-- The messages that the reader reads before anything else happens to the place. -/
def taken : List (Event α) → List α
  | [] => []
  | .put a :: .read :: es => a :: taken es
  | _ :: es => taken es

/-- All messages. -/
def written : List (Event α) → List α
  | [] => []
  | .put a :: es => a :: written es
  | _ :: es => written es

theorem taken_put_put (a b : α) (es : List (Event α)) :
    taken (.put a :: .put b :: es) = taken (.put b :: es) := by
  rw [taken]
  simp

theorem taken_put_clear (a : α) (es : List (Event α)) : taken (.put a :: .clear :: es) = taken es := by
  rw [taken, taken]
  · simp
  · simp

theorem taken_read (es : List (Event α)) : taken (.read :: es) = taken es := by
  rw [taken]
  simp

theorem taken_clear (es : List (Event α)) : taken (.clear :: es) = taken es := by
  rw [taken]
  simp

/-- Before the reader clears, no message is taken: each of them goes with what was read. -/
theorem taken_put_of_turns {es : List (Event α)} (h : Turns true es) (a : α) :
    taken (.put a :: es) = taken es := by
  cases es with
  | nil => rfl
  | cons e es =>
    cases e with
    | put b => exact taken_put_put a b es
    | read => exact absurd h.1 (by decide)
    | clear => rw [taken_put_clear, taken_clear]

/-- The reader sees the messages that are taken, with the one that is there when it reads next. -/
theorem seen_run {es : List (Event α)} {b : Bool} (h : Turns b es) (box : Box α) :
    (run box es).seen = box.seen ++
      if b then taken es else taken ((box.cell.toList.map .put) ++ es) := by
  induction es generalizing b box with
  | nil =>
    cases hc : box.cell with
    | none => cases b <;> simp [run, taken]
    | some a => cases b <;> simp [run, taken]
  | cons e es ih =>
    cases e with
    | put a =>
      have ih := ih (b := b) h (step box (.put a))
      refine ih.trans (congrArg (box.seen ++ ·) ?_)
      cases b with
      | true =>
        have hes : Turns true es := h
        rw [if_pos rfl, if_pos rfl]
        exact (taken_put_of_turns hes a).symm
      | false =>
        cases hc : box.cell with
        | none => rfl
        | some c => exact (taken_put_put c a es).symm
    | read =>
      obtain ⟨rfl, h⟩ := h
      refine (ih h (step box .read)).trans ?_
      cases hc : box.cell with
      | none => simp [step, hc, taken_read]
      | some c => simp [step, hc, taken]
    | clear =>
      obtain ⟨rfl, h⟩ := h
      refine (ih h (step box .clear)).trans ?_
      simp [step, taken_clear]

/-- No message is taken twice, and the order stays. -/
theorem taken_sublist (es : List (Event α)) : (taken es).Sublist (written es) := by
  fun_induction taken es with
  | case1 => exact List.Sublist.refl _
  | case2 a es ih => exact ih.cons_cons a
  | case3 e es _ ih =>
    cases e with
    | put a => exact ih.cons a
    | read => exact ih
    | clear => exact ih

end Lib.Mailbox
