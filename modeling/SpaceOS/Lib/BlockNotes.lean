-- Programs over a block device that note what they do in a list they never read. A program with
-- the notes dropped is another program; what is proved of the first holds of the second.
import SpaceOS.Lib.BlockWp

namespace Lib.BlockProg

variable {σ τ ε B B' α β : Type}

/-- A program with variables `σ` and a list of notes. -/
abbrev Noted (σ ε B : Type) := StateT (σ × List ε) (Prog B)

/-- The note `e` is made. -/
def note (e : ε) : Noted σ ε B Unit := modify fun s => (s.1, s.2 ++ [e])

/-- A program that has nothing to note. -/
def quiet (x : StateT σ (Prog B) α) : Noted σ ε B α := fun s => do
  let r ← x.run s.1
  pure (r.1, (r.2, s.2))

/-- `y` is `x` with the notes dropped. -/
def Forgets (x : Noted σ ε B α) (y : StateT σ (Prog B) α) : Prop :=
  ∀ s es, (fun r => (r.1, r.2.1)) <$> x.run (s, es) = y.run s

namespace Forgets

theorem pure (a : α) : Forgets (Pure.pure a : Noted σ ε B α) (Pure.pure a) := fun _ _ => rfl

theorem bind {x : Noted σ ε B α} {y : StateT σ (Prog B) α} {f : α → Noted σ ε B β}
    {g : α → StateT σ (Prog B) β} (hx : Forgets x y) (hf : ∀ a, Forgets (f a) (g a)) :
    Forgets (x >>= f) (y >>= g) := fun s es => by
  rw [StateT.run_bind, StateT.run_bind, ← hx s es, map_bind, bind_map_left]
  congr 1
  funext r
  exact hf r.1 r.2.1 r.2.2

theorem quiet (x : StateT σ (Prog B) α) : Forgets (quiet x : Noted σ ε B α) x := fun s es => by
  change (fun r : α × σ × List ε => (r.1, r.2.1)) <$> (x.run s >>= fun r =>
    Pure.pure (r.1, (r.2, es))) = x.run s
  simp

theorem lift (p : Prog B α) : Forgets (liftM p : Noted σ ε B α) (liftM p) := fun s es => by
  change (fun r : α × σ × List ε => (r.1, r.2.1)) <$> (p >>= fun a => Pure.pure (a, (s, es))) =
    p >>= fun a => Pure.pure (a, s)
  simp

/-- `bind` for a program without variables. -/
theorem lift_bind {x : Noted σ ε B α} {p : Prog B α} {f : α → Noted σ ε B β} {g : α → Prog B β}
    (hx : Forgets x (liftM p)) (hf : ∀ a, Forgets (f a) (liftM (g a))) :
    Forgets (x >>= f) (liftM (p >>= g)) := by
  have h : (liftM (p >>= g) : StateT σ (Prog B) β) = liftM p >>= fun a => liftM (g a) :=
    monadLift_bind p g
  rw [h]
  exact hx.bind hf

theorem note {e : ε} {f : Unit → Noted σ ε B β} {y : StateT σ (Prog B) β}
    (h : Forgets (f ()) y) : Forgets (note e >>= f) y := fun s es => h s (es ++ [e])

theorem get {f : σ × List ε → Noted σ ε B β} {g : σ → StateT σ (Prog B) β}
    (h : ∀ s es, Forgets (f (s, es)) (g s)) :
    Forgets (MonadState.get >>= f) (MonadState.get >>= g) := fun s es => h s es s es

theorem ite {c : Prop} [Decidable c] {x x' : Noted σ ε B α} {y y' : StateT σ (Prog B) α}
    (h : Forgets x y) (h' : Forgets x' y') :
    Forgets (if c then x else x') (if c then y else y') := by
  split
  · exact h
  · exact h'

/-- What holds of the noted program holds of the program. -/
theorem wp {x : Noted σ ε B α} {y : StateT σ (Prog B) α} (h : Forgets x y) {S : Nat → Prop} {s : σ}
    {es : List ε} {d : Disk B} {Q : α → σ → Disk B → Prop}
    (hx : Wp S x (s, es) d fun a m d' => Q a m.1 d') : Wp S y s d Q := by
  unfold Wp
  rw [← h s es, map_eq_pure_bind]
  exact Prog.wp_bind.mpr hx

end Forgets

/-! ## Notes under a driver -/

theorem Prog.over_bind (D : Driver τ B B') (p : Prog B α) (f : α → Prog B β) :
    (p >>= f).over D = p.over D >>= fun a => (f a).over D := by
  rw [bind_eq]
  induction p with
  | ret a => exact (pure_bind a fun a => (f a).over D).symm
  | probe k ih =>
    simp only [Prog.over, Prog.bind, ih, bind_assoc]
  | read n k ih => simp only [Prog.over, Prog.bind, ih, bind_assoc]
  | write n b k ih => simp only [Prog.over, Prog.bind, ih, bind_assoc]
  | hang => rfl

/-- Over a driver too the program is the noted one with the notes dropped. -/
theorem Forgets.over {x : Noted σ ε B α} {y : StateT σ (Prog B) α} (h : Forgets x y)
    (D : Driver τ B B') (s : σ) (es : List ε) :
    (y.run s).over D = (x.run (s, es)).over D >>= fun r => Pure.pure (r.1, r.2.1) := by
  rw [← h s es, map_eq_pure_bind, Prog.over_bind]
  rfl

/-! ## Weakest preconditions -/

namespace Wp

variable {S : Nat → Prop} {s : σ} {es : List ε} {d : Disk B} {R : β → σ × List ε → Disk B → Prop}

theorem note_bind {e : ε} {f : Unit → Noted σ ε B β} (h : Wp S (f ()) (s, es ++ [e]) d R) :
    Wp S (note e >>= f) (s, es) d R := h

theorem quiet {x : StateT σ (Prog B) β} (h : Wp S x s d fun b s' d' => R b (s', es) d') :
    Wp S (quiet x) (s, es) d R := Prog.wp_bind.mpr h

end Wp

end Lib.BlockProg
