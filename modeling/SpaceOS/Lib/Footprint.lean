-- Programs that read a byte memory. Each one carries the parts of the memory that it takes, and
-- the proof that it depends on no other byte.
import SpaceOS.Lib.Bytes

open Lib.Bytes

namespace Lib.Footprint

/-- A part of a memory. -/
structure Part where
  start : Nat
  len : Nat
  deriving DecidableEq, Repr

/-- The part ends at address `n` or before. -/
def Part.Within (n : Nat) (p : Part) : Prop := p.start + p.len ≤ n

instance (n : Nat) (p : Part) : Decidable (p.Within n) := inferInstanceAs (Decidable (_ ≤ _))

/-- `m'` has the bytes of `m` in all of the parts. -/
def Agree (ps : List Part) (m m' : Memory) : Prop :=
  ∀ p ∈ ps, ∀ a, p.start ≤ a → a < p.start + p.len → m' a = m a

theorem Agree.left {ps qs : List Part} {m m' : Memory} (h : Agree (ps ++ qs) m m') :
    Agree ps m m' :=
  fun p hp => h p (List.mem_append_left qs hp)

theorem Agree.right {ps qs : List Part} {m m' : Memory} (h : Agree (ps ++ qs) m m') :
    Agree qs m m' :=
  fun p hp => h p (List.mem_append_right ps hp)

/-- Memories that are the same below `n` agree on the parts that end there. -/
theorem agree_of_within {n : Nat} {ps : List Part} {m m' : Memory} (h : ∀ p ∈ ps, p.Within n)
    (hm : ∀ a < n, m' a = m a) : Agree ps m m' := by
  intro p hp a _ ha
  have hn : p.start + p.len ≤ n := h p hp
  exact hm a (by omega)

/-- A run gives a value and the parts of the memory that were taken. -/
structure Reader (α : Type) where
  run : Memory → α × List Part
  congr : ∀ {m m'}, Agree (run m).2 m m' → run m' = run m

namespace Reader

variable {α β : Type}

/-- The value of a run. -/
def val (x : Reader α) (m : Memory) : α := (x.run m).1

/-- The parts that a run takes. -/
def parts (x : Reader α) (m : Memory) : List Part := (x.run m).2

def ret (v : α) : Reader α := ⟨fun _ => (v, []), fun _ => rfl⟩

def andThen (x : Reader α) (f : α → Reader β) : Reader β where
  run m := ((f (x.val m)).val m, x.parts m ++ (f (x.val m)).parts m)
  congr := by
    intro m m' h
    have hx : x.run m' = x.run m := x.congr h.left
    have hf : (f (x.val m)).run m' = (f (x.val m)).run m := (f (x.val m)).congr h.right
    unfold val parts at *
    rw [hx, hf]

instance : Monad Reader where
  pure := ret
  bind := andThen

/-- A value that is read from one part. -/
def field (start len : Nat) (f : Memory → α)
    (h : ∀ {m m' : Memory}, (∀ a, start ≤ a → a < start + len → m' a = m a) → f m' = f m) :
    Reader α where
  run m := (f m, [⟨start, len⟩])
  congr hm := by rw [h fun a h1 h2 => hm _ (List.mem_singleton_self _) a h1 h2]

@[simp] theorem val_pure (v : α) (m : Memory) : (pure v : Reader α).val m = v := rfl

@[simp] theorem parts_pure (v : α) (m : Memory) : (pure v : Reader α).parts m = [] := rfl

@[simp] theorem val_bind (x : Reader α) (f : α → Reader β) (m : Memory) :
    (x >>= f).val m = (f (x.val m)).val m := rfl

@[simp] theorem parts_bind (x : Reader α) (f : α → Reader β) (m : Memory) :
    (x >>= f).parts m = x.parts m ++ (f (x.val m)).parts m := rfl

/-- Behind the same program, two programs that run alike on its value. -/
theorem run_bind_congr {x : Reader α} {f g : α → Reader β} {m : Memory}
    (h : (f (x.val m)).run m = (g (x.val m)).run m) : (x >>= f).run m = (x >>= g).run m := by
  have hv : (f (x.val m)).val m = (g (x.val m)).val m := congrArg Prod.fst h
  have hp : (f (x.val m)).parts m = (g (x.val m)).parts m := congrArg Prod.snd h
  exact Prod.ext hv (congrArg (x.parts m ++ ·) hp)

/-- Two memories that are the same below `n` give one value, where all that is taken ends
there. -/
theorem val_congr {x : Reader α} {n : Nat} {m m' : Memory} (h : ∀ p ∈ x.parts m, p.Within n)
    (hm : ∀ a < n, m' a = m a) : x.val m' = x.val m :=
  congrArg Prod.fst (x.congr (agree_of_within h hm))

/-! ## The fields -/

/-- One byte. -/
def byte (a : Nat) : Reader UInt8 :=
  field a 1 (fun m => m a) fun h => h a (Nat.le_refl a) (Nat.lt_succ_self a)

/-- A 16-bit word. -/
def half16 (a : Nat) : Reader UInt16 :=
  field a 2 (fun m => UInt16.ofNat (half m a)) fun h => by rw [half_congr h]

/-- A 32-bit word. -/
def word32 (a : Nat) : Reader UInt32 :=
  field a 4 (fun m => UInt32.ofNat (word m a)) fun h => by rw [word_congr h]

/-- The `n` bytes from address `a` on. -/
def bytes (a n : Nat) : Reader (List UInt8) :=
  field a n (fun m => (List.range n).map fun i => m (a + i)) fun h =>
    List.map_congr_left fun i hi => h (a + i) (Nat.le_add_right a i)
      (Nat.add_lt_add_left (List.mem_range.mp hi) a)

variable {m : Memory} {a n : Nat}

@[simp] theorem val_byte : (byte a).val m = m a := rfl

@[simp] theorem parts_byte : (byte a).parts m = [⟨a, 1⟩] := rfl

@[simp] theorem val_half16 : (half16 a).val m = UInt16.ofNat (half m a) := rfl

@[simp] theorem parts_half16 : (half16 a).parts m = [⟨a, 2⟩] := rfl

@[simp] theorem val_word32 : (word32 a).val m = UInt32.ofNat (word m a) := rfl

@[simp] theorem parts_word32 : (word32 a).parts m = [⟨a, 4⟩] := rfl

@[simp] theorem val_bytes : (bytes a n).val m = (List.range n).map fun i => m (a + i) := rfl

@[simp] theorem parts_bytes : (bytes a n).parts m = [⟨a, n⟩] := rfl

@[simp] theorem val_ite {c : Prop} [Decidable c] (x y : Reader α) :
    (if c then x else y).val m = if c then x.val m else y.val m := by
  split <;> rfl

@[simp] theorem parts_ite {c : Prop} [Decidable c] (x y : Reader α) :
    (if c then x else y).parts m = if c then x.parts m else y.parts m := by
  split <;> rfl

end Reader

end Lib.Footprint
