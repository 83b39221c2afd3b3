-- A queue in a ring of `n` cells. One cell stays free, so that an empty ring and a full one
-- look different.
import Mathlib.Logic.Function.Basic
import Mathlib.Tactic.Common

namespace Lib.RingQueue

/-- The cells from `head` up to `tail` are in use. -/
structure Queue (n : Nat) (α : Type) where
  buf : Nat → α
  head : Nat
  tail : Nat
  head_lt : head < n
  tail_lt : tail < n

namespace Queue

variable {n : Nat} {α : Type}

/-- The cell after cell `i`. -/
def next (n i : Nat) : Nat := (i + 1) % n

theorem next_lt {i : Nat} (h : i < n) : next n i < n := Nat.mod_lt _ (by omega)

/-- The number of cells in use. -/
def used (r : Queue n α) : Nat :=
  if r.head ≤ r.tail then r.tail - r.head else n - r.head + r.tail

/-- What the queue holds, oldest first. -/
def contents (r : Queue n α) : List α :=
  (List.range r.used).map fun k => r.buf ((r.head + k) % n)

/-- `x` put at the end, or dropped where the ring is full. -/
def push (r : Queue n α) (x : α) : Queue n α :=
  if next n r.tail = r.head then r
  else { r with
    buf := Function.update r.buf r.tail x
    tail := next n r.tail
    tail_lt := next_lt r.tail_lt }

def pushAll (r : Queue n α) (xs : List α) : Queue n α := xs.foldl push r

/-- The ring with its first element taken out. -/
def behead (r : Queue n α) : Queue n α :=
  { r with head := next n r.head, head_lt := next_lt r.head_lt }

/-- The first `k` elements taken out. -/
def pull : Nat → Queue n α → List α × Queue n α
  | 0, r => ([], r)
  | k + 1, r =>
    let (xs, r') := pull k r.behead
    (r.buf r.head :: xs, r')

def empty (h : 0 < n) (x : α) : Queue n α := ⟨fun _ => x, 0, 0, h, h⟩

@[simp] theorem contents_empty (h : 0 < n) (x : α) : (empty h x).contents = [] := rfl

theorem used_lt (r : Queue n α) : r.used < n := by
  have := r.head_lt
  have := r.tail_lt
  unfold used
  split <;> omega

@[simp] theorem length_contents (r : Queue n α) : r.contents.length = r.used := by
  simp [contents]

theorem next_eq {i : Nat} (h : i < n) : next n i = if i + 1 = n then 0 else i + 1 := by
  unfold next
  split
  · rename_i h'
    rw [h', Nat.mod_self]
  · exact Nat.mod_eq_of_lt (by omega)

theorem add_mod_eq {a k : Nat} (ha : a < n) (hk : k < n) :
    (a + k) % n = if a + k < n then a + k else a + k - n := by
  split
  · exact Nat.mod_eq_of_lt (by omega)
  · rw [Nat.mod_eq_sub_mod (by omega), Nat.mod_eq_of_lt (by omega)]

/-- The ring is full when one more cell would use them all. -/
theorem next_tail_eq_head_iff (r : Queue n α) : next n r.tail = r.head ↔ r.used + 1 = n := by
  have := r.head_lt
  have := r.tail_lt
  rw [next_eq r.tail_lt]
  unfold used
  split <;> split <;> omega

theorem push_full {r : Queue n α} (h : r.used + 1 = n) (x : α) : r.push x = r := by
  unfold push
  rw [if_pos (r.next_tail_eq_head_iff.mpr h)]

theorem tail_push {r : Queue n α} (h : r.used + 1 < n) (x : α) :
    (r.push x).buf = Function.update r.buf r.tail x ∧ (r.push x).head = r.head ∧
      (r.push x).tail = next n r.tail := by
  have hne : next n r.tail ≠ r.head := fun he => by
    have := r.next_tail_eq_head_iff.mp he
    omega
  unfold push
  rw [if_neg hne]
  exact ⟨rfl, rfl, rfl⟩

theorem used_push {r : Queue n α} (h : r.used + 1 < n) (x : α) : (r.push x).used = r.used + 1 := by
  have hh := r.head_lt
  have ht := r.tail_lt
  obtain ⟨_, h1, h2⟩ := tail_push h x
  unfold used at *
  rw [h1, h2, next_eq ht]
  by_cases hw : r.tail + 1 = n
  · rw [if_pos hw]
    split at h <;> split <;> omega
  · rw [if_neg hw]
    split at h <;> split <;> omega

theorem contents_push {r : Queue n α} (h : r.used + 1 < n) (x : α) :
    (r.push x).contents = r.contents ++ [x] := by
  have hh := r.head_lt
  have ht := r.tail_lt
  have hlt := r.used_lt
  obtain ⟨h1, h2, _⟩ := tail_push h x
  have hlast : (r.head + r.used) % n = r.tail := by
    unfold used
    split
    · rw [Nat.mod_eq_of_lt (by omega)]
      omega
    · have : r.head + (n - r.head + r.tail) = n + r.tail := by omega
      rw [this, Nat.add_mod_left, Nat.mod_eq_of_lt ht]
  unfold contents
  rw [used_push h, List.range_succ, List.map_append, h1, h2]
  congr 1
  · refine List.map_congr_left fun k hk => ?_
    have hk := List.mem_range.mp hk
    refine Function.update_of_ne ?_ _ _
    rw [← hlast]
    rw [add_mod_eq hh (by omega), add_mod_eq hh hlt]
    split <;> split <;> omega
  · rw [List.map_singleton, hlast, Function.update_self]

/-- A list is stored up to where the ring fills, and its rest is dropped. -/
theorem contents_pushAll (r : Queue n α) (xs : List α) :
    (r.pushAll xs).contents = r.contents ++ xs.take (n - 1 - r.used) := by
  induction xs generalizing r with
  | nil => rw [List.take_nil, List.append_nil]; rfl
  | cons x xs ih =>
    have hstep : r.pushAll (x :: xs) = (r.push x).pushAll xs := rfl
    have hlt := r.used_lt
    rw [hstep, ih]
    by_cases h : r.used + 1 < n
    · rw [contents_push h, used_push h, List.append_assoc, List.singleton_append,
        ← List.take_succ_cons]
      congr 2
      omega
    · have hfull : n - 1 - r.used = 0 := by omega
      rw [push_full (by omega), hfull, List.take_zero, List.take_zero]

theorem used_pushAll (r : Queue n α) (xs : List α) :
    (r.pushAll xs).used = r.used + min xs.length (n - 1 - r.used) := by
  have h := congrArg List.length (contents_pushAll r xs)
  rw [length_contents, List.length_append, length_contents, List.length_take] at h
  omega

theorem used_behead {r : Queue n α} (h : r.used ≠ 0) : r.used = r.behead.used + 1 := by
  have hh := r.head_lt
  have ht := r.tail_lt
  have hn : r.behead.head = if r.head + 1 = n then 0 else r.head + 1 := next_eq hh
  have hb : r.behead.tail = r.tail := rfl
  unfold used at *
  rw [hn, hb]
  by_cases hle : r.head ≤ r.tail
  · rw [if_pos hle] at h ⊢
    rw [if_neg (show r.head + 1 ≠ n by omega), if_pos (by omega)]
    omega
  · rw [if_neg hle]
    by_cases hw : r.head + 1 = n
    · rw [if_pos hw, if_pos (Nat.zero_le _)]
      omega
    · rw [if_neg hw, if_neg (by omega)]
      omega

theorem contents_cons {r : Queue n α} (h : r.used ≠ 0) :
    r.contents = r.buf r.head :: r.behead.contents := by
  unfold contents
  rw [used_behead h, List.range_succ_eq_map, List.map_cons, List.map_map, Nat.add_zero,
    Nat.mod_eq_of_lt r.head_lt]
  congr 1
  refine List.map_congr_left fun k _ => ?_
  change r.buf ((r.head + (k + 1)) % n) = r.buf ((next n r.head + k) % n)
  congr 1
  unfold next
  rw [Nat.mod_add_mod]
  congr 1
  omega

/-- Elements come out in the order of the queue. -/
theorem pull_eq {k : Nat} {r : Queue n α} (h : k ≤ r.used) :
    (pull k r).1 = r.contents.take k ∧ (pull k r).2.contents = r.contents.drop k := by
  induction k generalizing r with
  | zero => exact ⟨rfl, rfl⟩
  | succ k ih =>
    have h0 : r.used ≠ 0 := by omega
    have hc := contents_cons h0
    have hlen := congrArg List.length hc
    rw [length_contents, List.length_cons, length_contents] at hlen
    obtain ⟨h1, h2⟩ := ih (r := r.behead) (by omega)
    rw [hc, List.take_succ_cons, List.drop_succ_cons]
    exact ⟨congrArg _ h1, h2⟩

/-! ## What becomes of each element -/

/-- An element as it comes to the queue: how many wait there, and whether it is taken in. -/
structure Offer (α : Type) where
  item : α
  used : Nat
  taken : Bool

/-- The elements of a list as they come to the queue one by one. -/
def offers : Queue n α → List α → List (Offer α)
  | _, [] => []
  | r, x :: xs => ⟨x, r.used, decide (next n r.tail ≠ r.head)⟩ :: offers (r.push x) xs

/-- The elements that were taken in. -/
def taken (os : List (Offer α)) : List α := (os.filter Offer.taken).map Offer.item

@[simp] theorem taken_nil : taken ([] : List (Offer α)) = [] := rfl

theorem taken_append (os ps : List (Offer α)) : taken (os ++ ps) = taken os ++ taken ps := by
  unfold taken
  rw [List.filter_append, List.map_append]

theorem taken_cons (o : Offer α) (os : List (Offer α)) :
    taken (o :: os) = (if o.taken then [o.item] else []) ++ taken os := by
  unfold taken
  rw [List.filter_cons]
  split <;> rfl

/-- What the queue holds after a list is what it held and what it took in. -/
theorem contents_pushAll_taken (r : Queue n α) (xs : List α) :
    (r.pushAll xs).contents = r.contents ++ taken (r.offers xs) := by
  induction xs generalizing r with
  | nil => exact (List.append_nil _).symm
  | cons x xs ih =>
    have hstep : r.pushAll (x :: xs) = (r.push x).pushAll xs := rfl
    have hlt := r.used_lt
    rw [hstep, ih, offers, taken_cons, ← List.append_assoc]
    congr 1
    by_cases hf : r.used + 1 = n
    · have hd : decide (next n r.tail ≠ r.head) = false := by
        rw [decide_eq_false_iff_not, not_not]
        exact r.next_tail_eq_head_iff.mpr hf
      rw [push_full hf, hd]
      exact (List.append_nil _).symm
    · have hd : decide (next n r.tail ≠ r.head) = true := by
        rw [decide_eq_true_iff]
        exact fun he => hf (r.next_tail_eq_head_iff.mp he)
      rw [contents_push (by omega), hd]
      rfl

/-- An element is left out just where all cells but one are in use. -/
theorem taken_offers {r : Queue n α} {xs : List α} {o : Offer α} (h : o ∈ r.offers xs) :
    o.taken = false ↔ o.used + 1 = n := by
  induction xs generalizing r with
  | nil => simp [offers] at h
  | cons x xs ih =>
    rcases List.mem_cons.mp h with rfl | h
    · rw [decide_eq_false_iff_not, not_not]
      exact r.next_tail_eq_head_iff
    · exact ih h

end Queue

end Lib.RingQueue
