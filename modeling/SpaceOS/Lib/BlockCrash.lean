-- What a power cut during a program over a block device leaves, from the cuts of its parts: programs
-- that only read, sequences, and programs over a driver whose cuts leave what a cut of the plain
-- device can leave.
import SpaceOS.Lib.BlockWp

namespace Lib.BlockProg

variable {σ τ B B' α β : Type}

/-! ## Programs that do not write -/

/-- The program writes no block. -/
def Prog.Reads : Prog B α → Prop
  | .ret _ => True
  | .probe k => ∀ x, (k x).Reads
  | .read _ k => ∀ x, (k x).Reads
  | .write _ _ _ => False
  | .hang => True

namespace Prog

variable {d d' : Disk B}

theorem Reads.bind {p : Prog B α} {f : α → Prog B β} (hp : p.Reads) (hf : ∀ a, (f a).Reads) :
    (p >>= f).Reads := by
  rw [bind_eq]
  induction p with
  | ret a => exact hf a
  | probe k ih => exact fun x => ih x (hp x)
  | read n k ih => exact fun x => ih x (hp x)
  | write n b k => exact hp.elim
  | hang => trivial

/-- A cut leaves the device as it was. -/
theorem Reads.cut {p : Prog B α} (hp : p.Reads) (h : p.Cut d d') : d' = d := by
  induction h with
  | here => rfl
  | probe _ ih => exact ih (hp _)
  | read _ ih => exact ih (hp _)
  | write => exact hp.elim

/-- A cut of a program that writes one block. -/
theorem Cut.of_write {n : Nat} {b : B} {k : Bool → Prog B α} (h : (Prog.write n b k).Cut d d') :
    d' = d ∨ (k true).Cut (Function.update d n b) d' := by
  cases h with
  | here => exact Or.inl rfl
  | write h => exact Or.inr h

end Prog

/-! ## Programs with variables -/

/-- Whatever the power cut, the program leaves a device in `C`. -/
def Survives (x : StateT σ (Prog B) α) (m : σ) (d : Disk B) (C : Disk B → Prop) : Prop :=
  ∀ d', (x.run m).Cut d d' → C d'

namespace Survives

variable {C : Disk B → Prop} {m : σ} {d : Disk B}

theorem start {x : StateT σ (Prog B) α} (h : Survives x m d C) : C d := h d (.here _ _)

theorem finish {x : StateT σ (Prog B) α} {a : α} {m' : σ} {d' : Disk B} (h : Survives x m d C)
    (he : (x.run m).exec d = some ((a, m'), d')) : C d' := h d' (.of_exec he)

theorem reads {x : StateT σ (Prog B) α} (hx : (x.run m).Reads) (h : C d) : Survives x m d C :=
  fun _ hc => by rwa [hx.cut hc]

theorem pure {a : α} (h : C d) : Survives (Pure.pure a) m d C := reads trivial h

theorem get {f : σ → StateT σ (Prog B) β} (h : Survives (f m) m d C) :
    Survives (MonadState.get >>= f) m d C := h

theorem bind {x : StateT σ (Prog B) α} {f : α → StateT σ (Prog B) β} (hx : Survives x m d C)
    (hf : ∀ a m' d', (x.run m).exec d = some ((a, m'), d') → Survives (f a) m' d' C) :
    Survives (x >>= f) m d C := by
  intro d1 hc
  rcases Prog.Cut.of_bind hc with hc | ⟨⟨a, m'⟩, d2, he, hc⟩
  · exact hx d1 hc
  · exact hf a m' d2 he d1 hc

theorem lift {p : Prog B α} (hp : ∀ d', p.Cut d d' → C d') :
    Survives (liftM p : StateT σ (Prog B) α) m d C := by
  intro d1 hc
  rcases Prog.Cut.of_bind hc with hc | ⟨a, d2, he, hc⟩
  · exact hp d1 hc
  · rw [Prog.Reads.cut (p := Prog.ret (a, m)) trivial hc]
    exact hp d2 (.of_exec he)

theorem write {n : Nat} {b : B} (h : C d) (h' : C (Function.update d n b)) :
    Survives (liftM (.write n b .ret : Prog B Bool) : StateT σ (Prog B) Bool) m d C := by
  apply lift
  intro d' hc
  rcases hc.of_write with rfl | hc
  · exact h
  · rwa [Prog.Reads.cut (p := Prog.ret true) trivial hc]

theorem write_bind {n : Nat} {b : B} {f : Bool → StateT σ (Prog B) β} (h : C d)
    (hf : Survives (f true) m (Function.update d n b) C) :
    Survives (liftM (.write n b .ret : Prog B Bool) >>= f) m d C := by
  apply (write h hf.start).bind
  intro a m' d' he
  cases he
  exact hf

theorem mono {C' : Disk B → Prop} {x : StateT σ (Prog B) α} (h : Survives x m d C)
    (hc : ∀ e, C e → C' e) : Survives x m d C' := fun d' hd => hc d' (h d' hd)

end Survives

/-! ## What the variables keep -/

/-- Whatever the device answers, the program ends with a value of `P`. -/
def Prog.Returns (P : α → Prop) : Prog B α → Prop
  | .ret a => P a
  | .probe k => ∀ x, (k x).Returns P
  | .read _ k => ∀ x, (k x).Returns P
  | .write _ _ k => ∀ x, (k x).Returns P
  | .hang => True

namespace Prog.Returns

variable {P : α → Prop} {Q : β → Prop}

theorem bind {p : Prog B α} {f : α → Prog B β} (hp : p.Returns P) (hf : ∀ a, P a → (f a).Returns Q) :
    (p >>= f).Returns Q := by
  rw [bind_eq]
  induction p with
  | ret a => exact hf a hp
  | probe k ih => exact fun x => ih x (hp x)
  | read n k ih => exact fun x => ih x (hp x)
  | write n b k ih => exact fun x => ih x (hp x)
  | hang => trivial

theorem any (p : Prog B α) : p.Returns fun _ => True := by
  induction p with
  | ret a => trivial
  | probe k ih => exact ih
  | read n k ih => exact ih
  | write n b k ih => exact ih
  | hang => trivial

theorem wp {S : Nat → Prop} {p : Prog B α} {d : Disk B} {R : α → Disk B → Prop} (hp : p.Returns P)
    (h : p.wp S d R) : p.wp S d fun a d' => P a ∧ R a d' := by
  induction p generalizing d with
  | ret a => exact ⟨hp, h⟩
  | probe k ih => exact ih true (hp true) h
  | read n k ih => exact ⟨h.1, ih _ (hp _) h.2⟩
  | write n b k ih => exact ⟨h.1, ih true (hp true) h.2⟩
  | hang => exact h

end Prog.Returns

/-- Whatever the device answers, the program keeps `I` of its variables. -/
def Keeps (I : σ → Prop) (x : StateT σ (Prog B) α) : Prop :=
  ∀ m, I m → (x.run m).Returns fun r => I r.2

namespace Keeps

variable {I : σ → Prop}

theorem pure (a : α) : Keeps (B := B) I (Pure.pure a) := fun _ h => h

theorem lift (p : Prog B α) : Keeps I (liftM p : StateT σ (Prog B) α) :=
  fun _ h => (Prog.Returns.any p).bind fun _ _ => h

theorem bind {x : StateT σ (Prog B) α} {f : α → StateT σ (Prog B) β} (hx : Keeps I x)
    (hf : ∀ a, Keeps I (f a)) : Keeps I (x >>= f) := fun m h => (hx m h).bind fun r hr => hf r.1 r.2 hr

theorem get {f : σ → StateT σ (Prog B) β} (hf : ∀ m, I m → Keeps I (f m)) :
    Keeps I (MonadState.get >>= f) := fun m h => hf m h m h

theorem modify {g : σ → σ} (hg : ∀ m, I m → I (g m)) :
    Keeps (B := B) I (MonadState.modifyGet fun s => (PUnit.unit, g s)) := fun m h => hg m h

end Keeps

/-! ## Cuts over a driver -/

/-- Wherever an access of the driver is cut, its device stands for two states of the plain device of
which the second comes at most one access later. -/
structure Driver.Survives (D : Driver τ B B') (S : Nat → Prop) (R : τ → Disk B' → Disk B → Prop)
    (K : Disk B' → Disk B → Disk B → Prop) : Prop extends D.Implements S R where
  here : ∀ {t e d}, R t e d → K e d d
  cut_probe : ∀ {t e d e'}, R t e d → (D.probe.run t).Cut e e' → K e' d d
  cut_read : ∀ {t e d n e'}, S n → R t e d → ((D.read n).run t).Cut e e' → K e' d d
  cut_write : ∀ {t e d n b e'}, S n → R t e d → ((D.write n b).run t).Cut e e' →
    K e' d (Function.update d n b)

/-- A program over the driver, cut anywhere, leaves a device that stands for states that the plain
program leaves where it is cut. -/
theorem Prog.Cut.over {D : Driver τ B B'} {S : Nat → Prop} {R : τ → Disk B' → Disk B → Prop}
    {K : Disk B' → Disk B → Disk B → Prop} (hD : D.Survives S R K) {p : Prog B α} {t : τ}
    {e e' : Disk B'} {d : Disk B} {Q : α → Disk B → Prop} (hp : p.wp S d Q) (hR : R t e d)
    (h : ((p.over D).run t).Cut e e') : ∃ d0 d1, p.Cut d d0 ∧ p.Cut d d1 ∧ K e' d0 d1 := by
  induction p generalizing t e d with
  | ret a =>
    rw [Prog.Reads.cut (p := Prog.ret (a, t)) trivial h]
    exact ⟨d, d, .here _ _, .here _ _, hD.here hR⟩
  | probe k ih =>
    rw [Prog.over, StateT.run_bind] at h
    rcases h.of_bind with h | ⟨⟨x, t1⟩, e1, he, h⟩
    · exact ⟨d, d, .here _ _, .here _ _, hD.cut_probe hR h⟩
    · obtain ⟨t2, e2, he2, hR2⟩ := hD.probe hR
      obtain ⟨⟨rfl, rfl⟩, rfl⟩ := by simpa using he2.symm.trans he
      obtain ⟨d0, d1, h0, h1, hk⟩ := ih true hp hR2 h
      exact ⟨d0, d1, .probe h0, .probe h1, hk⟩
  | read n k ih =>
    rw [Prog.over, StateT.run_bind] at h
    rcases h.of_bind with h | ⟨⟨x, t1⟩, e1, he, h⟩
    · exact ⟨d, d, .here _ _, .here _ _, hD.cut_read hp.1 hR h⟩
    · obtain ⟨t2, e2, he2, hR2⟩ := hD.read hp.1 hR
      obtain ⟨⟨rfl, rfl⟩, rfl⟩ := by simpa using he2.symm.trans he
      obtain ⟨d0, d1, h0, h1, hk⟩ := ih _ hp.2 hR2 h
      exact ⟨d0, d1, .read h0, .read h1, hk⟩
  | write n b k ih =>
    rw [Prog.over, StateT.run_bind] at h
    rcases h.of_bind with h | ⟨⟨x, t1⟩, e1, he, h⟩
    · exact ⟨d, _, .here _ _, .write (.here _ _), hD.cut_write hp.1 hR h⟩
    · obtain ⟨t2, e2, he2, hR2⟩ := hD.write hp.1 hR
      obtain ⟨⟨rfl, rfl⟩, rfl⟩ := by simpa using he2.symm.trans he
      obtain ⟨d0, d1, h0, h1, hk⟩ := ih true hp.2 hR2 h
      exact ⟨d0, d1, .write h0, .write h1, hk⟩
  | hang => exact hp.elim

end Lib.BlockProg
