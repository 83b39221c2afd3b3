-- Weakest preconditions for programs over a block device that keep to a part of the device,
-- and drivers: what is proved of a program on a plain device holds of it over any driver
-- that implements the device on that part.
import SpaceOS.Lib.BlockProg

namespace Lib.BlockProg

variable {σ τ B B' α β : Type}

namespace Prog

/-- The run on `d` returns, touches only blocks of `S`, and ends in `Q`. -/
def wp (S : Nat → Prop) : Prog B α → Disk B → (α → Disk B → Prop) → Prop
  | .ret a, d, Q => Q a d
  | .probe k, d, Q => (k true).wp S d Q
  | .read n k, d, Q => S n ∧ (k (some (d n))).wp S d Q
  | .write n b k, d, Q => S n ∧ (k true).wp S (Function.update d n b) Q
  | .hang, _, _ => False

variable {S : Nat → Prop} {d : Disk B}

theorem wp_bind {p : Prog B α} {f : α → Prog B β} {Q : β → Disk B → Prop} :
    (p >>= f).wp S d Q ↔ p.wp S d fun a d' => (f a).wp S d' Q := by
  rw [bind_eq]
  induction p generalizing d with
  | ret a => exact Iff.rfl
  | probe k ih => exact ih true
  | read n k ih => exact and_congr_right fun _ => ih (some (d n))
  | write n b k ih => exact and_congr_right fun _ => ih true
  | hang => exact Iff.rfl

theorem wp.mono {p : Prog B α} {Q Q' : α → Disk B → Prop} (h : p.wp S d Q)
    (hq : ∀ a d', Q a d' → Q' a d') : p.wp S d Q' := by
  induction p generalizing d with
  | ret a => exact hq a d h
  | probe k ih => exact ih true h
  | read n k ih => exact ⟨h.1, ih (some (d n)) h.2⟩
  | write n b k ih => exact ⟨h.1, ih true h.2⟩
  | hang => exact h

/-- A program that satisfies its precondition returns. -/
theorem wp.exec {p : Prog B α} {Q : α → Disk B → Prop} (h : p.wp S d Q) :
    ∃ a d', p.exec d = some (a, d') ∧ Q a d' := by
  induction p generalizing d with
  | ret a => exact ⟨a, d, rfl, h⟩
  | probe k ih => exact ih true h
  | read n k ih => exact ih (some (d n)) h.2
  | write n b k ih => exact ih true h.2
  | hang => exact h.elim

end Prog

/-! ## Programs with variables -/

/-- `Prog.wp` for a program with variables. -/
def Wp (S : Nat → Prop) (x : StateT σ (Prog B) α) (m : σ) (d : Disk B)
    (Q : α → σ → Disk B → Prop) : Prop := (x.run m).wp S d fun r d' => Q r.1 r.2 d'

namespace Wp

variable {S : Nat → Prop} {m : σ} {d : Disk B} {Q : α → σ → Disk B → Prop}
  {R : β → σ → Disk B → Prop}

theorem pure {a : α} (h : Q a m d) : Wp S (Pure.pure a) m d Q := h

theorem bind {x : StateT σ (Prog B) α} {f : α → StateT σ (Prog B) β}
    (h : Wp S x m d fun a m' d' => Wp S (f a) m' d' R) : Wp S (x >>= f) m d R :=
  Prog.wp_bind.mpr h

theorem mono {x : StateT σ (Prog B) α} {Q' : α → σ → Disk B → Prop} (h : Wp S x m d Q)
    (hq : ∀ a m' d', Q a m' d' → Q' a m' d') : Wp S x m d Q' :=
  Prog.wp.mono h fun r d' => hq r.1 r.2 d'

/-- A call whose specification gives `Q`, and what follows it. -/
theorem call {x : StateT σ (Prog B) α} {f : α → StateT σ (Prog B) β} (h : Wp S x m d Q)
    (hf : ∀ a m' d', Q a m' d' → Wp S (f a) m' d' R) : Wp S (x >>= f) m d R := bind (h.mono hf)

theorem lift {p : Prog B α} (h : p.wp S d fun a d' => Q a m d') :
    Wp S (liftM p : StateT σ (Prog B) α) m d Q := Prog.wp_bind.mpr h

/-- `call` for a program without variables. -/
theorem call_lift {p : Prog B α} {q : α → Disk B → Prop} {f : α → StateT σ (Prog B) β}
    (h : p.wp S d q) (hf : ∀ a d', q a d' → Wp S (f a) m d' R) :
    Wp S (liftM p >>= f) m d R := bind (lift (h.mono hf))

theorem get_bind {f : σ → StateT σ (Prog B) β} (h : Wp S (f m) m d R) :
    Wp S (get >>= f) m d R := h

theorem set_bind {m' : σ} {f : PUnit → StateT σ (Prog B) β} (h : Wp S (f ⟨⟩) m' d R) :
    Wp S (set m' >>= f) m d R := h

theorem modify_bind {g : σ → σ} {f : PUnit → StateT σ (Prog B) β} (h : Wp S (f ⟨⟩) (g m) d R) :
    Wp S (modify g >>= f) m d R := h

end Wp

/-! ## Drivers -/

/-- How a layer below carries out the accesses of a program, with variables of its own. -/
structure Driver (τ B B' : Type) where
  probe : StateT τ (Prog B') Bool
  read : Nat → StateT τ (Prog B') (Option B)
  write : Nat → B → StateT τ (Prog B') Bool

/-- The program with each access carried out by the driver. -/
def Prog.over (D : Driver τ B B') : Prog B α → StateT τ (Prog B') α
  | .ret a => pure a
  | .probe k => D.probe >>= fun x => (k x).over D
  | .read n k => D.read n >>= fun x => (k x).over D
  | .write n b k => D.write n b >>= fun x => (k x).over D
  | .hang => fun _ => .hang

/-- A sequence over a driver. -/
theorem Prog.exec_over_bind (D : Driver τ B B') (p : Prog B α) (f : α → Prog B β) (t : τ)
    (e : Disk B') : (((p >>= f).over D).run t).exec e = (((p.over D).run t).exec e).bind fun r =>
      (((f r.1.1).over D).run r.1.2).exec r.2 := by
  rw [bind_eq]
  induction p generalizing t e with
  | ret a => rfl
  | probe k ih =>
    rw [Prog.bind, Prog.over, Prog.over, StateT.run_bind, StateT.run_bind, exec_bind, exec_bind,
      Option.bind_assoc]
    exact congrArg _ (funext fun r => ih r.1.1 r.1.2 r.2)
  | read n k ih =>
    rw [Prog.bind, Prog.over, Prog.over, StateT.run_bind, StateT.run_bind, exec_bind, exec_bind,
      Option.bind_assoc]
    exact congrArg _ (funext fun r => ih r.1.1 r.1.2 r.2)
  | write n b k ih =>
    rw [Prog.bind, Prog.over, Prog.over, StateT.run_bind, StateT.run_bind, exec_bind, exec_bind,
      Option.bind_assoc]
    exact congrArg _ (funext fun r => ih r.1.1 r.1.2 r.2)
  | hang => rfl

/-- On the blocks of `S` the driver behaves as the plain device that `R` relates to its
variables and its own device. -/
structure Driver.Implements (D : Driver τ B B') (S : Nat → Prop)
    (R : τ → Disk B' → Disk B → Prop) : Prop where
  probe : ∀ {t e d}, R t e d → ∃ t' e',
    ((D.probe.run t).exec e = some ((true, t'), e')) ∧ R t' e' d
  read : ∀ {t e d n}, S n → R t e d → ∃ t' e',
    ((D.read n).run t).exec e = some ((some (d n), t'), e') ∧ R t' e' d
  write : ∀ {t e d n b}, S n → R t e d → ∃ t' e',
    ((D.write n b).run t).exec e = some ((true, t'), e') ∧ R t' e' (Function.update d n b)

/-- A program keeps its specification over a driver that implements the device. -/
theorem Prog.wp.over {D : Driver τ B B'} {S : Nat → Prop} {R : τ → Disk B' → Disk B → Prop}
    (hD : D.Implements S R) {p : Prog B α} {t : τ} {e : Disk B'} {d : Disk B}
    {Q : α → Disk B → Prop} (h : p.wp S d Q) (hR : R t e d) :
    ∃ a d' t' e', ((p.over D).run t).exec e = some ((a, t'), e') ∧ R t' e' d' ∧ Q a d' := by
  induction p generalizing t e d with
  | ret a => exact ⟨a, d, t, e, rfl, hR, h⟩
  | probe k ih =>
    obtain ⟨t1, e1, he, hR1⟩ := hD.probe hR
    obtain ⟨a, d', t', e', hx, hr, hq⟩ := ih true h hR1
    exact ⟨a, d', t', e', by rw [Prog.over, StateT.run_bind, exec_bind, he]; exact hx, hr, hq⟩
  | read n k ih =>
    obtain ⟨t1, e1, he, hR1⟩ := hD.read h.1 hR
    obtain ⟨a, d', t', e', hx, hr, hq⟩ := ih (some (d n)) h.2 hR1
    exact ⟨a, d', t', e', by rw [Prog.over, StateT.run_bind, exec_bind, he]; exact hx, hr, hq⟩
  | write n b k ih =>
    obtain ⟨t1, e1, he, hR1⟩ := hD.write h.1 hR
    obtain ⟨a, d', t', e', hx, hr, hq⟩ := ih true h.2 hR1
    exact ⟨a, d', t', e', by rw [Prog.over, StateT.run_bind, exec_bind, he]; exact hx, hr, hq⟩
  | hang => exact h.elim

end Lib.BlockProg
