-- Programs over a block device, as trees of reads and writes. `exec` runs one on a device
-- where every access succeeds, `Cut` is what a power cut between two writes leaves, and
-- `Runs` states both at once, with one rule for each construct.
import Mathlib.Logic.Function.Basic
import Mathlib.Tactic.Common

namespace Lib.BlockProg

/-- The contents of a device, block by block. -/
abbrev Disk (B : Type) := Nat → B

/-- A program that may ask whether the device is there, read a block (`none`: an error), write
one (`false`: an error), or loop for ever. -/
inductive Prog (B α : Type) where
  | ret (a : α)
  | probe (k : Bool → Prog B α)
  | read (n : Nat) (k : Option B → Prog B α)
  | write (n : Nat) (b : B) (k : Bool → Prog B α)
  | hang

namespace Prog

variable {B α β : Type}

def bind : Prog B α → (α → Prog B β) → Prog B β
  | .ret a, f => f a
  | .probe k, f => .probe fun x => (k x).bind f
  | .read n k, f => .read n fun x => (k x).bind f
  | .write n b k, f => .write n b fun x => (k x).bind f
  | .hang, _ => .hang

instance : Monad (Prog B) where
  pure := .ret
  bind := bind

theorem bind_eq (p : Prog B α) (f : α → Prog B β) : p >>= f = p.bind f := rfl

protected theorem bind_ret (p : Prog B α) : p.bind .ret = p := by
  induction p with
  | ret a => rfl
  | probe k ih => exact congrArg _ (funext ih)
  | read n k ih => exact congrArg _ (funext ih)
  | write n b k ih => exact congrArg _ (funext ih)
  | hang => rfl

protected theorem bind_assoc {γ : Type} (p : Prog B α) (f : α → Prog B β) (g : β → Prog B γ) :
    (p.bind f).bind g = p.bind fun a => (f a).bind g := by
  induction p with
  | ret a => rfl
  | probe k ih => exact congrArg _ (funext ih)
  | read n k ih => exact congrArg _ (funext ih)
  | write n b k ih => exact congrArg _ (funext ih)
  | hang => rfl

instance : LawfulMonad (Prog B) := LawfulMonad.mk' _
  (fun p => p.bind_ret) (fun _ _ => rfl) (fun p f g => p.bind_assoc f g)

/-- The result and the device after a run where the device is there and every access succeeds.
`none`: the program does not return. -/
def exec : Prog B α → Disk B → Option (α × Disk B)
  | .ret a, d => some (a, d)
  | .probe k, d => (k true).exec d
  | .read n k, d => (k (some (d n))).exec d
  | .write n b k, d => (k true).exec (Function.update d n b)
  | .hang, _ => none

theorem exec_bind (p : Prog B α) (f : α → Prog B β) (d : Disk B) :
    (p >>= f).exec d = (p.exec d).bind fun r => (f r.1).exec r.2 := by
  rw [bind_eq]
  induction p generalizing d with
  | ret a => rfl
  | probe k ih => exact ih true d
  | read n k ih => exact ih (some (d n)) d
  | write n b k ih => exact ih true _
  | hang => rfl

/-- A power cut during the run on `d` can leave the device as `d'`. -/
inductive Cut : Prog B α → Disk B → Disk B → Prop
  | here (p : Prog B α) (d : Disk B) : Cut p d d
  | probe {k : Bool → Prog B α} {d d' : Disk B} (h : Cut (k true) d d') : Cut (.probe k) d d'
  | read {n : Nat} {k : Option B → Prog B α} {d d' : Disk B} (h : Cut (k (some (d n))) d d') :
    Cut (.read n k) d d'
  | write {n : Nat} {b : B} {k : Bool → Prog B α} {d d' : Disk B}
    (h : Cut (k true) (Function.update d n b) d') : Cut (.write n b k) d d'

/-- The end of a run is one of the places where the power may go. -/
theorem Cut.of_exec {p : Prog B α} {d d' : Disk B} {a : α} (h : p.exec d = some (a, d')) :
    Cut p d d' := by
  induction p generalizing d with
  | ret a => cases h; exact .here _ _
  | probe k ih => exact .probe (ih true h)
  | read n k ih => exact .read (ih (some (d n)) h)
  | write n b k ih => exact .write (ih true h)
  | hang => cases h

/-- A cut of a sequence falls in the first program or, after it has returned, in the second. -/
theorem Cut.of_bind {p : Prog B α} {f : α → Prog B β} {d d' : Disk B} (h : Cut (p >>= f) d d') :
    Cut p d d' ∨ ∃ a d1, p.exec d = some (a, d1) ∧ Cut (f a) d1 d' := by
  rw [bind_eq] at h
  induction p generalizing d with
  | ret a => exact Or.inr ⟨a, d, rfl, h⟩
  | probe k ih =>
    cases h with
    | here => exact Or.inl (.here _ _)
    | probe h => exact (ih true h).imp .probe id
  | read n k ih =>
    cases h with
    | here => exact Or.inl (.here _ _)
    | read h => exact (ih (some (d n)) h).imp .read id
  | write n b k ih =>
    cases h with
    | here => exact Or.inl (.here _ _)
    | write h => exact (ih true h).imp .write id
  | hang =>
    cases h with
    | here => exact Or.inl (.here _ _)

/-- The run on `d` returns `a` and leaves `d'`, and every power cut on the way leaves a device
in `C`. -/
structure Runs (p : Prog B α) (d : Disk B) (a : α) (d' : Disk B) (C : Disk B → Prop) : Prop where
  exec_eq : p.exec d = some (a, d')
  cut : ∀ d1, Cut p d d1 → C d1

namespace Runs

variable {C : Disk B → Prop} {d d' d'' : Disk B} {a : α} {b : β}

theorem start {p : Prog B α} (h : Runs p d a d' C) : C d := h.cut d (.here p d)

theorem finish {p : Prog B α} (h : Runs p d a d' C) : C d' := h.cut d' (.of_exec h.exec_eq)

theorem ret (h : C d) : Runs (.ret a) d a d C :=
  ⟨rfl, fun _ hc => by cases hc; exact h⟩

theorem pure (h : C d) : Runs (Pure.pure a : Prog B α) d a d C := ret h

theorem probe {k : Bool → Prog B α} (h : Runs (k true) d a d' C) : Runs (.probe k) d a d' C :=
  ⟨h.exec_eq, fun _ hc => by
    cases hc with
    | here => exact h.start
    | probe hc => exact h.cut _ hc⟩

theorem read {n : Nat} {k : Option B → Prog B α} (h : Runs (k (some (d n))) d a d' C) :
    Runs (.read n k) d a d' C :=
  ⟨h.exec_eq, fun _ hc => by
    cases hc with
    | here => exact h.start
    | read hc => exact h.cut _ hc⟩

theorem write {n : Nat} {v : B} {k : Bool → Prog B α} (hd : C d)
    (h : Runs (k true) (Function.update d n v) a d' C) : Runs (.write n v k) d a d' C :=
  ⟨h.exec_eq, fun _ hc => by
    cases hc with
    | here => exact hd
    | write hc => exact h.cut _ hc⟩

theorem bind {p : Prog B α} {f : α → Prog B β} (hp : Runs p d a d' C)
    (hf : Runs (f a) d' b d'' C) : Runs (p >>= f) d b d'' C := by
  refine ⟨by rw [exec_bind, hp.exec_eq]; exact hf.exec_eq, fun d1 hc => ?_⟩
  rcases hc.of_bind with hc | ⟨a1, d2, he, hc⟩
  · exact hp.cut d1 hc
  · rw [hp.exec_eq] at he
    cases he
    exact hf.cut d1 hc

theorem weaken {C' : Disk B → Prop} {p : Prog B α} (h : Runs p d a d' C) (hc : ∀ x, C x → C' x) :
    Runs p d a d' C' := ⟨h.exec_eq, fun x hx => hc x (h.cut x hx)⟩

end Runs

end Prog

/-! ## Programs with variables -/

section Does

variable {σ B α β : Type} {C : Disk B → Prop} {m m' m'' : σ} {d d' d'' : Disk B} {a : α} {b : β}

/-- From the variables `m` and the device `d` the program returns `a` and leaves `m'` and `d'`,
and every power cut on the way leaves a device in `C`. -/
def Does (x : StateT σ (Prog B) α) (m : σ) (d : Disk B) (a : α) (m' : σ) (d' : Disk B)
    (C : Disk B → Prop) : Prop := Prog.Runs (x.run m) d (a, m') d' C

namespace Does

theorem start {x : StateT σ (Prog B) α} (h : Does x m d a m' d' C) : C d := Prog.Runs.start h

theorem pure (h : C d) : Does (Pure.pure a) m d a m d C := Prog.Runs.ret h

theorem bind {x : StateT σ (Prog B) α} {f : α → StateT σ (Prog B) β} (hx : Does x m d a m' d' C)
    (hf : Does (f a) m' d' b m'' d'' C) : Does (x >>= f) m d b m'' d'' C := Prog.Runs.bind hx hf

theorem lift {p : Prog B α} (h : p.Runs d a d' C) :
    Does (liftM p : StateT σ (Prog B) α) m d a m d' C := Prog.Runs.bind h (.ret h.finish)

theorem get_bind {f : σ → StateT σ (Prog B) β} (h : Does (f m) m d b m' d' C) :
    Does (get >>= f) m d b m' d' C := h

theorem set_bind {f : PUnit → StateT σ (Prog B) β} (h : Does (f ⟨⟩) m' d b m'' d' C) :
    Does (set m' >>= f) m d b m'' d' C := h

theorem modify_bind {g : σ → σ} {f : PUnit → StateT σ (Prog B) β}
    (h : Does (f ⟨⟩) (g m) d b m' d' C) : Does (modify g >>= f) m d b m' d' C := h

theorem modify {g : σ → σ} (h : C d) : Does (modify g) m d ⟨⟩ (g m) d C := Prog.Runs.ret h

theorem weaken {C' : Disk B → Prop} {x : StateT σ (Prog B) α} (h : Does x m d a m' d' C)
    (hc : ∀ x, C x → C' x) : Does x m d a m' d' C' := Prog.Runs.weaken h hc

end Does

end Does

end Lib.BlockProg
