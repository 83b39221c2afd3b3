-- Sums of 16-bit words with the carry out of the top added at the bottom, and what the order of
-- the bytes of a word does to them.
import Mathlib.Algebra.BigOperators.Group.List.Basic
import Mathlib.Data.Nat.ModEq

namespace Lib.OnesComplement

/-! ## Sums -/

/-- The one's complement sum of two 16-bit numbers. -/
def ocAdd (a b : Nat) : Nat := if a + b < 65536 then a + b else a + b - 65535

def ocSum (ws : List Nat) : Nat := ws.foldr ocAdd 0

/-- `r` is what is left of `n` when every carry has been added in: 0 for 0 alone. -/
structure Reduced (n r : Nat) : Prop where
  lt : r < 65536
  modEq : r ≡ n [MOD 65535]
  zero : r = 0 ↔ n = 0

namespace Reduced

variable {n r : Nat}

theorem refl (h : n < 65536) : Reduced n n := ⟨h, Nat.ModEq.refl n, Iff.rfl⟩

/-- One carry added in keeps the number modulo 65535. -/
theorem carry (h : Reduced (n % 65536 + n / 65536) r) : Reduced n r where
  lt := h.lt
  modEq := by
    refine h.modEq.trans ?_
    change (n % 65536 + n / 65536) % 65535 = n % 65535
    omega
  zero := by
    have hz := h.zero
    omega

theorem add {m t : Nat} (h : Reduced n r) (h' : Reduced m t) : Reduced (n + m) (ocAdd r t) := by
  have hr := h.lt
  have ht := h'.lt
  have h0 := h.zero
  have h0' := h'.zero
  have hm := h.modEq.add h'.modEq
  unfold ocAdd
  split
  · exact ⟨by assumption, hm, by omega⟩
  · rename_i hlt
    refine ⟨by omega, ?_, by omega⟩
    refine Nat.ModEq.trans ?_ hm
    change (r + t - 65535) % 65535 = (r + t) % 65535
    omega

/-- All bits are set just for the multiples of 65535 but 0. -/
theorem eq_top_iff (h : Reduced n r) : r = 65535 ↔ n ≠ 0 ∧ 65535 ∣ n := by
  have hlt := h.lt
  have hm : r % 65535 = n % 65535 := h.modEq
  have hz := h.zero
  rw [Nat.dvd_iff_mod_eq_zero]
  omega

end Reduced

theorem ocSum_reduced {ws : List Nat} (h : ∀ w ∈ ws, w < 65536) : Reduced ws.sum (ocSum ws) := by
  induction ws with
  | nil => exact Reduced.refl (by decide)
  | cons w ws ih =>
    rw [List.sum_cons]
    exact (Reduced.refl (h w List.mem_cons_self)).add
      (ih fun x hx => h x (List.mem_cons_of_mem _ hx))

/-! ## Bytes -/

/-- The 16-bit words of a string, the low byte of each first. -/
def littleWords : List UInt8 → List Nat
  | [] => []
  | [a] => [a.toNat]
  | a :: b :: p => (a.toNat + 256 * b.toNat) :: littleWords p

/-- The 16-bit words of a string, the high byte of each first. -/
def bigWords : List UInt8 → List Nat
  | [] => []
  | [a] => [256 * a.toNat]
  | a :: b :: p => (256 * a.toNat + b.toNat) :: bigWords p

def littleSum (bs : List UInt8) : Nat := (littleWords bs).sum

def bigSum (bs : List UInt8) : Nat := (bigWords bs).sum

@[simp] theorem littleSum_nil : littleSum [] = 0 := rfl

@[simp] theorem littleSum_singleton (a : UInt8) : littleSum [a] = a.toNat := rfl

@[simp] theorem littleSum_cons (a b : UInt8) (p : List UInt8) :
    littleSum (a :: b :: p) = a.toNat + 256 * b.toNat + littleSum p := List.sum_cons

@[simp] theorem bigSum_nil : bigSum [] = 0 := rfl

@[simp] theorem bigSum_singleton (a : UInt8) : bigSum [a] = 256 * a.toNat := rfl

@[simp] theorem bigSum_cons (a b : UInt8) (p : List UInt8) :
    bigSum (a :: b :: p) = 256 * a.toNat + b.toNat + bigSum p := List.sum_cons

theorem bigWords_lt {bs : List UInt8} : ∀ w ∈ bigWords bs, w < 65536 := by
  fun_induction bigWords bs with
  | case1 => simp
  | case2 a =>
    have := a.toNat_lt
    simp
    omega
  | case3 a b p ih =>
    have := a.toNat_lt
    have := b.toNat_lt
    exact List.forall_mem_cons.mpr ⟨by omega, ih⟩

/-- With the bytes of each word the other way round, the sum is 256 times as large. -/
theorem bigSum_modEq (bs : List UInt8) : bigSum bs ≡ 256 * littleSum bs [MOD 65535] := by
  fun_induction bigWords bs with
  | case1 => rfl
  | case2 a => rfl
  | case3 a b p ih =>
    rw [bigSum_cons, littleSum_cons]
    have hb : 256 * a.toNat + b.toNat ≡ 256 * (a.toNat + 256 * b.toNat) [MOD 65535] := by
      change (256 * a.toNat + b.toNat) % 65535 = 256 * (a.toNat + 256 * b.toNat) % 65535
      omega
    rw [Nat.mul_add]
    exact hb.add ih

theorem littleSum_append {xs : List UInt8} (ys : List UInt8) (h : xs.length % 2 = 0) :
    littleSum (xs ++ ys) = littleSum xs + littleSum ys := by
  fun_induction littleWords xs with
  | case1 => simp
  | case2 a => simp at h
  | case3 a b p ih =>
    have := ih (by simp only [List.length_cons] at h; omega)
    simp only [List.cons_append, littleSum_cons, this]
    omega

theorem bigSum_append {xs : List UInt8} (ys : List UInt8) (h : xs.length % 2 = 0) :
    bigSum (xs ++ ys) = bigSum xs + bigSum ys := by
  fun_induction bigWords xs with
  | case1 => simp
  | case2 a => simp at h
  | case3 a b p ih =>
    have := ih (by simp only [List.length_cons] at h; omega)
    simp only [List.cons_append, bigSum_cons, this]
    omega

/-- One byte changed, at an even place or an odd one. -/
theorem littleSum_set {bs : List UInt8} {i : Nat} {x : UInt8} (y : UInt8) (h : bs[i]? = some x) :
    littleSum (bs.set i y) + 256 ^ (i % 2) * x.toNat =
      littleSum bs + 256 ^ (i % 2) * y.toNat := by
  induction bs using littleWords.induct generalizing i with
  | case1 => simp at h
  | case2 a =>
    cases i with
    | zero =>
      obtain rfl : a = x := by simpa using h
      simp
      omega
    | succ i => simp at h
  | case3 a b p ih =>
    match i with
    | 0 =>
      obtain rfl : a = x := by simpa using h
      simp
      omega
    | 1 =>
      obtain rfl : b = x := by simpa using h
      simp
      omega
    | i + 2 =>
      have := ih (i := i) (by simpa using h)
      have hm : (i + 2) % 2 = i % 2 := by omega
      simp only [List.set_cons_succ, littleSum_cons, hm]
      omega

end Lib.OnesComplement
