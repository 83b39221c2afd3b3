-- What a program writes to a block device, in order, and runs on a device that may refuse a
-- write: the writes that take effect, and weakest preconditions over them.
import SpaceOS.Lib.BlockProg

namespace Lib.BlockProg

variable {σ B α β : Type}

namespace Prog

/-! ## The writes of a run -/

/-- The writes of the run on `d`, in order, up to where it loops for ever. -/
def writes : Prog B α → Disk B → List (Nat × B)
  | .ret _, _ => []
  | .probe k, d => (k true).writes d
  | .read n k, d => (k (some (d n))).writes d
  | .write n b k, d => (n, b) :: (k true).writes (Function.update d n b)
  | .hang, _ => []

/-- A sequence writes what its first program writes and, once that has returned, the rest. -/
theorem writes_bind (p : Prog B α) (f : α → Prog B β) (d : Disk B) :
    (p >>= f).writes d =
      p.writes d ++ ((p.exec d).elim [] fun r => (f r.1).writes r.2) := by
  rw [bind_eq]
  induction p generalizing d with
  | ret a => rfl
  | probe k ih => exact ih true d
  | read n k ih => exact ih (some (d n)) d
  | write n b k ih => exact congrArg ((n, b) :: ·) (ih true _)
  | hang => rfl

theorem writes_bind_of_exec {p : Prog B α} {d d' : Disk B} {a : α} (h : p.exec d = some (a, d'))
    (f : α → Prog B β) : (p >>= f).writes d = p.writes d ++ (f a).writes d' := by
  rw [writes_bind, h]
  rfl

/-! ## Writes that fail -/

/-- The device after a write to block `n`, if the write takes effect. -/
def attempt (ok : Bool) (d : Disk B) (n : Nat) (b : B) : Disk B :=
  if ok then Function.update d n b else d

theorem attempt_of_ne (ok : Bool) (d : Disk B) {n x : Nat} (b : B) (h : x ≠ n) :
    attempt ok d n b x = d x := by
  unfold attempt
  split
  · exact Function.update_of_ne h b d
  · rfl

theorem attempt_self (ok : Bool) (d : Disk B) (n : Nat) (b : B) :
    attempt ok d n b n = if ok then b else d n := by
  cases ok with
  | true => exact Function.update_self n b d
  | false => rfl

/-- The run on `d` where the writes that `ok` names take effect and each other one reports an
error and leaves the device; the writes are counted from `i`. -/
def execWith (ok : Nat → Bool) : Prog B α → Nat → Disk B → Option (α × Nat × Disk B)
  | .ret a, i, d => some (a, i, d)
  | .probe k, i, d => (k true).execWith ok i d
  | .read n k, i, d => (k (some (d n))).execWith ok i d
  | .write n b k, i, d => (k (ok i)).execWith ok (i + 1) (attempt (ok i) d n b)
  | .hang, _, _ => none

/-- The writes that take effect, each with the device as it was before. -/
def effects (ok : Nat → Bool) : Prog B α → Nat → Disk B → List (Nat × B × Disk B)
  | .ret _, _, _ => []
  | .probe k, i, d => (k true).effects ok i d
  | .read n k, i, d => (k (some (d n))).effects ok i d
  | .write n b k, i, d =>
    (if ok i then [(n, b, d)] else []) ++ (k (ok i)).effects ok (i + 1) (attempt (ok i) d n b)
  | .hang, _, _ => []

/-- Without a failure it is the plain run. -/
theorem execWith_true (p : Prog B α) (i : Nat) (d : Disk B) :
    (p.execWith (fun _ => true) i d).map (fun r => (r.1, r.2.2)) = p.exec d := by
  induction p generalizing i d with
  | ret a => rfl
  | probe k ih => exact ih true i d
  | read n k ih => exact ih (some (d n)) i d
  | write n b k ih => exact ih true (i + 1) _
  | hang => rfl

/-- The run returns, each write that takes effect meets `E`, and it ends in `Q`. -/
def wpWith (ok : Nat → Bool) (E : Nat → B → Disk B → Prop) :
    Prog B α → Nat → Disk B → (α → Nat → Disk B → Prop) → Prop
  | .ret a, i, d, Q => Q a i d
  | .probe k, i, d, Q => (k true).wpWith ok E i d Q
  | .read n k, i, d, Q => (k (some (d n))).wpWith ok E i d Q
  | .write n b k, i, d, Q =>
    (ok i = true → E n b d) ∧ (k (ok i)).wpWith ok E (i + 1) (attempt (ok i) d n b) Q
  | .hang, _, _, _ => False

variable {ok : Nat → Bool} {E : Nat → B → Disk B → Prop} {i : Nat} {d : Disk B}

theorem wpWith_bind {p : Prog B α} {f : α → Prog B β} {Q : β → Nat → Disk B → Prop} :
    (p >>= f).wpWith ok E i d Q ↔
      p.wpWith ok E i d fun a i' d' => (f a).wpWith ok E i' d' Q := by
  rw [bind_eq]
  induction p generalizing i d with
  | ret a => exact Iff.rfl
  | probe k ih => exact ih true
  | read n k ih => exact ih (some (d n))
  | write n b k ih => exact and_congr_right fun _ => ih (ok i)
  | hang => exact Iff.rfl

theorem wpWith.mono {p : Prog B α} {Q Q' : α → Nat → Disk B → Prop} (h : p.wpWith ok E i d Q)
    (hq : ∀ a i' d', Q a i' d' → Q' a i' d') : p.wpWith ok E i d Q' := by
  induction p generalizing i d with
  | ret a => exact hq a i d h
  | probe k ih => exact ih true h
  | read n k ih => exact ih (some (d n)) h
  | write n b k ih => exact ⟨h.1, ih (ok i) h.2⟩
  | hang => exact h

/-- A program that satisfies its precondition returns, and every write that took effect met `E`. -/
theorem wpWith.exec {p : Prog B α} {Q : α → Nat → Disk B → Prop} (h : p.wpWith ok E i d Q) :
    (∃ a i' d', p.execWith ok i d = some (a, i', d') ∧ Q a i' d') ∧
      ∀ w ∈ p.effects ok i d, E w.1 w.2.1 w.2.2 := by
  induction p generalizing i d with
  | ret a => exact ⟨⟨a, i, d, rfl, h⟩, fun _ hw => absurd hw List.not_mem_nil⟩
  | probe k ih => exact ih true h
  | read n k ih => exact ih (some (d n)) h
  | write n b k ih =>
    obtain ⟨hr, hw⟩ := ih (ok i) h.2
    refine ⟨hr, fun w hmem => ?_⟩
    rcases List.mem_append.mp hmem with hmem | hmem
    · split at hmem
      · rename_i hok
        obtain rfl := List.mem_singleton.mp hmem
        exact h.1 hok
      · exact absurd hmem List.not_mem_nil
    · exact hw w hmem
  | hang => exact h.elim

end Prog

/-! ## Programs with variables -/

/-- `Prog.wpWith` for a program with variables. -/
def WpWith (ok : Nat → Bool) (E : Nat → B → Disk B → Prop) (x : StateT σ (Prog B) α) (m : σ)
    (i : Nat) (d : Disk B) (Q : α → σ → Nat → Disk B → Prop) : Prop :=
  (x.run m).wpWith ok E i d fun r i' d' => Q r.1 r.2 i' d'

namespace WpWith

variable {ok : Nat → Bool} {E : Nat → B → Disk B → Prop} {m : σ} {i : Nat} {d : Disk B}
  {Q : α → σ → Nat → Disk B → Prop} {R : β → σ → Nat → Disk B → Prop}

theorem pure {a : α} (h : Q a m i d) : WpWith ok E (Pure.pure a) m i d Q := h

theorem bind {x : StateT σ (Prog B) α} {f : α → StateT σ (Prog B) β}
    (h : WpWith ok E x m i d fun a m' i' d' => WpWith ok E (f a) m' i' d' R) :
    WpWith ok E (x >>= f) m i d R := Prog.wpWith_bind.mpr h

theorem mono {x : StateT σ (Prog B) α} {Q' : α → σ → Nat → Disk B → Prop}
    (h : WpWith ok E x m i d Q) (hq : ∀ a m' i' d', Q a m' i' d' → Q' a m' i' d') :
    WpWith ok E x m i d Q' := Prog.wpWith.mono h fun r i' d' => hq r.1 r.2 i' d'

/-- A call whose specification gives `Q`, and what follows it. -/
theorem call {x : StateT σ (Prog B) α} {f : α → StateT σ (Prog B) β} (h : WpWith ok E x m i d Q)
    (hf : ∀ a m' i' d', Q a m' i' d' → WpWith ok E (f a) m' i' d' R) :
    WpWith ok E (x >>= f) m i d R := bind (h.mono hf)

/-- `call` for a program without variables. -/
theorem call_lift {p : Prog B α} {q : α → Nat → Disk B → Prop} {f : α → StateT σ (Prog B) β}
    (h : p.wpWith ok E i d q) (hf : ∀ a i' d', q a i' d' → WpWith ok E (f a) m i' d' R) :
    WpWith ok E (liftM p >>= f) m i d R := by
  refine bind (Prog.wpWith_bind.mpr ?_)
  exact h.mono hf

theorem get_bind {f : σ → StateT σ (Prog B) β} (h : WpWith ok E (f m) m i d R) :
    WpWith ok E (get >>= f) m i d R := h

theorem set_bind {m' : σ} {f : PUnit → StateT σ (Prog B) β} (h : WpWith ok E (f ⟨⟩) m' i d R) :
    WpWith ok E (set m' >>= f) m i d R := h

theorem modify_bind {g : σ → σ} {f : PUnit → StateT σ (Prog B) β}
    (h : WpWith ok E (f ⟨⟩) (g m) i d R) : WpWith ok E (modify g >>= f) m i d R := h

end WpWith

end Lib.BlockProg
