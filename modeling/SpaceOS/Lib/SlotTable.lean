-- A table of slots, each free or with the value of a key. An entry goes to the first slot that is free
-- or has its key. Read by key the table is a map; a key keeps to one slot as long as it is not put in
-- while its slot lies behind a free one.
import Mathlib.Data.Fin.Tuple.Basic
import Mathlib.Data.List.FinRange

namespace Lib.SlotTable

variable {κ ν : Type*} {n : Nat}

abbrev Table (n : Nat) (κ ν : Type*) := Fin n → Option (κ × ν)

section Definitions

variable [DecidableEq κ] (t : Table n κ ν) (k : κ)

/-- The value of key `k` in slot `i`. -/
def hit (i : Fin n) : Option ν := (t i).bind fun e => if e.1 = k then some e.2 else none

/-- The value in the first slot with key `k`. -/
def lookup : Option ν := Fin.findSome? (hit t k)

/-- The first slot that is free or has key `k`. -/
def place : Option (Fin n) := Fin.find? fun i => (t i).isNone || (hit t k i).isSome

/-- `none`: there is no slot for the key. -/
def put (v : ν) : Option (Table n κ ν) :=
  (place t k).map fun i => Function.update t i (some (k, v))

/-- All slots with key `k` are set free. -/
def drop : Table n κ ν := fun i => if (hit t k i).isSome then none else t i

/-- A key lies behind a free slot. -/
def Behind : Prop := ∃ i j, i < j ∧ t i = none ∧ (hit t k j).isSome

/-- No key has two slots. -/
def Unique : Prop := ∀ k i j, (hit t k i).isSome → (hit t k j).isSome → i = j

end Definitions

/-- The free slots come last. -/
def Packed (t : Table n κ ν) : Prop := ∀ i j, i < j → t i = none → t j = none

def Full (t : Table n κ ν) : Prop := ∀ i, t i ≠ none

section Laws

variable [DecidableEq κ] {t t' : Table n κ ν} {k k' : κ} {v w : ν} {i j : Fin n}

theorem hit_eq_some : hit t k i = some v ↔ t i = some (k, v) := by
  unfold hit
  cases h : t i with
  | none => simp
  | some e =>
    obtain ⟨a, b⟩ := e
    by_cases ha : a = k <;> simp [ha]

theorem hit_of_free (h : t i = none) : hit t k i = none := by
  unfold hit
  rw [h]
  rfl

theorem hit_update (t : Table n κ ν) (i : Fin n) (k : κ) (v : ν) (k' : κ) (j : Fin n) :
    hit (Function.update t i (some (k, v))) k' j =
      if j = i then (if k = k' then some v else none) else hit t k' j := by
  unfold hit
  by_cases h : j = i
  · rw [if_pos h, h, Function.update_self]
    rfl
  · rw [if_neg h, Function.update_of_ne h]

/-! ## The map -/

theorem lookup_eq_none : lookup t k = none ↔ ∀ i, hit t k i = none := Fin.findSome?_eq_none_iff

theorem lookup_eq_some (hu : Unique t) : lookup t k = some v ↔ ∃ i, hit t k i = some v := by
  unfold lookup
  rw [Fin.findSome?_eq_some_iff]
  constructor
  · rintro ⟨i, h, -⟩
    exact ⟨i, h⟩
  · rintro ⟨i, h⟩
    refine ⟨i, h, fun j hj => ?_⟩
    by_contra hne
    have hsome : (hit t k j).isSome := Option.isSome_iff_ne_none.mpr hne
    have he := hu k i j (by rw [h]; rfl) hsome
    exact absurd hj (by rw [he]; exact lt_irrefl j)

theorem place_eq_some (h : place t k = some i) :
    (t i = none ∨ (hit t k i).isSome) ∧ ∀ j < i, t j ≠ none ∧ hit t k j = none := by
  obtain ⟨hi, hlt⟩ := Fin.find?_eq_some_iff.mp h
  refine ⟨by simpa using hi, fun j hj => ?_⟩
  have hj := hlt j hj
  simpa [Option.isSome_iff_ne_none] using hj

theorem put_eq_some (h : put t k v = some t') :
    ∃ i, place t k = some i ∧ t' = Function.update t i (some (k, v)) := by
  obtain ⟨i, hi, rfl⟩ := Option.map_eq_some_iff.mp h
  exact ⟨i, hi, rfl⟩

/-- There is no slot for a key exactly where the table is full of others. -/
theorem put_eq_none : put t k v = none ↔ Full t ∧ lookup t k = none := by
  unfold put place
  rw [Option.map_eq_none_iff, Fin.find?_eq_none_iff, lookup_eq_none]
  unfold Full
  simp only [Bool.or_eq_false_iff, Option.isNone_eq_false_iff, Option.isSome_eq_false_iff,
    Option.isNone_iff_eq_none, Option.isSome_iff_ne_none, forall_and]

/-- Another entry in a slot without key `k'` does not change what `k'` gives. -/
theorem lookup_update_of_ne (hk : k ≠ k') (hi : hit t k' i = none) :
    lookup (Function.update t i (some (k, v))) k' = lookup t k' := by
  unfold lookup
  congr 1
  funext j
  rw [hit_update]
  by_cases hj : j = i
  · rw [if_pos hj, if_neg hk, hj, hi]
  · rw [if_neg hj]

/-- An entry makes the table the map with that entry. -/
theorem lookup_put (h : put t k v = some t') : lookup t' = Function.update (lookup t) k (some v) := by
  obtain ⟨i, hplace, rfl⟩ := put_eq_some h
  obtain ⟨hi, hlt⟩ := place_eq_some hplace
  funext k'
  by_cases hk : k' = k
  · subst hk
    rw [Function.update_self]
    refine Fin.findSome?_eq_some_iff.mpr ⟨i, ?_, fun j hj => ?_⟩
    · rw [hit_update, if_pos rfl, if_pos rfl]
    · rw [hit_update, if_neg (ne_of_lt hj)]
      exact (hlt j hj).2
  · rw [Function.update_of_ne hk]
    refine lookup_update_of_ne (Ne.symm hk) ?_
    rcases hi with hfree | hsome
    · exact hit_of_free hfree
    · obtain ⟨w, hw⟩ := Option.isSome_iff_exists.mp hsome
      unfold hit
      rw [hit_eq_some.mp hw]
      exact if_neg (Ne.symm hk)

theorem hit_drop (t : Table n κ ν) (k k' : κ) (i : Fin n) :
    hit (drop t k) k' i = if k' = k then none else hit t k' i := by
  cases h : t i with
  | none =>
    have hd : drop t k i = none := by
      unfold drop
      rw [h]
      exact ite_self none
    rw [hit_of_free hd, hit_of_free h, ite_self]
  | some e =>
    obtain ⟨a, b⟩ := e
    by_cases ha : a = k
    · have hd : drop t k i = none := if_pos (by rw [hit_eq_some.mpr (ha ▸ h)]; rfl)
      rw [hit_of_free hd]
      by_cases hk : k' = k
      · rw [if_pos hk]
      · rw [if_neg hk, hit, h]
        exact (if_neg fun he : a = k' => hk (he.symm.trans ha)).symm
    · have hd : drop t k i = t i := if_neg (by simp [hit, h, ha])
      have hs : hit (drop t k) k' i = hit t k' i := by
        unfold hit
        rw [hd]
      rw [hs]
      by_cases hk : k' = k
      · rw [if_pos hk, hk, hit, h]
        exact if_neg ha
      · rw [if_neg hk]

/-- Setting a key free makes the table the map without it. -/
theorem lookup_drop (t : Table n κ ν) (k : κ) : lookup (drop t k) = Function.update (lookup t) k none := by
  funext k'
  have hhit : hit (drop t k) k' = fun i => if k' = k then none else hit t k' i :=
    funext (hit_drop t k k')
  by_cases hk : k' = k
  · rw [hk, Function.update_self, lookup_eq_none]
    intro i
    rw [hit_drop, if_pos rfl]
  · rw [Function.update_of_ne hk]
    unfold lookup
    rw [hhit]
    simp only [if_neg hk]

/-! ## One slot for each key -/

/-- An entry in the one slot that may have its key. -/
theorem unique_update (hu : Unique t) (h : ∀ j, (hit t k j).isSome → j = i) :
    Unique (Function.update t i (some (k, v))) := by
  intro k' a b ha hb
  rw [hit_update] at ha hb
  by_cases hai : a = i <;> by_cases hbi : b = i
  · rw [hai, hbi]
  · rw [if_pos hai] at ha
    rw [if_neg hbi] at hb
    by_cases hk : k = k'
    · exact absurd (h b (hk ▸ hb)) hbi
    · rw [if_neg hk] at ha
      exact absurd ha Bool.false_ne_true
  · rw [if_neg hai] at ha
    rw [if_pos hbi] at hb
    by_cases hk : k = k'
    · exact absurd (h a (hk ▸ ha)) hai
    · rw [if_neg hk] at hb
      exact absurd hb Bool.false_ne_true
  · rw [if_neg hai] at ha
    rw [if_neg hbi] at hb
    exact hu k' a b ha hb

/-- An entry keeps each key to one slot just where it does not lie behind a free one. -/
theorem unique_put (hu : Unique t) (h : put t k v = some t') : Unique t' ↔ ¬ Behind t k := by
  obtain ⟨i, hplace, rfl⟩ := put_eq_some h
  obtain ⟨hi, hlt⟩ := place_eq_some hplace
  constructor
  · rintro hu' ⟨a, b, hab, hfree, hb⟩
    have hia : i ≤ a := le_of_not_gt fun hai => (hlt a hai).1 hfree
    have hbi : b ≠ i := ne_of_gt (lt_of_le_of_lt hia hab)
    refine hbi (hu' k b i ?_ ?_)
    · rwa [hit_update, if_neg hbi]
    · rw [hit_update, if_pos rfl, if_pos rfl]
      rfl
  · intro hb
    refine unique_update hu fun j hj => ?_
    rcases lt_trichotomy j i with hji | rfl | hij
    · rw [(hlt j hji).2] at hj
      exact absurd hj Bool.false_ne_true
    · rfl
    · rcases hi with hfree | hsome
      · exact absurd ⟨i, j, hij, hfree, hj⟩ hb
      · exact hu k j i hj hsome

theorem unique_drop (hu : Unique t) : Unique (drop t k) := by
  intro k' i j hi hj
  rw [hit_drop] at hi hj
  by_cases hk : k' = k
  · rw [if_pos hk] at hi
    exact absurd hi Bool.false_ne_true
  · rw [if_neg hk] at hi hj
    exact hu k' i j hi hj

/-! ## Free slots -/

theorem Packed.not_behind (hp : Packed t) : ¬ Behind t k := by
  rintro ⟨i, j, hij, hfree, hj⟩
  rw [hit_of_free (hp i j hij hfree)] at hj
  exact Bool.false_ne_true hj

theorem packed_put (hp : Packed t) (h : put t k v = some t') : Packed t' := by
  obtain ⟨i, hplace, rfl⟩ := put_eq_some h
  obtain ⟨hi, hlt⟩ := place_eq_some hplace
  intro a b hab ha
  by_cases hai : a = i
  · rw [hai, Function.update_self] at ha
    exact absurd ha (Option.some_ne_none _)
  · rw [Function.update_of_ne hai] at ha
    -- the slots before that of the entry are taken
    have hia : i < a := lt_of_le_of_ne (le_of_not_gt fun hlt' => (hlt a hlt').1 ha) (Ne.symm hai)
    rw [Function.update_of_ne (ne_of_gt (lt_trans hia hab))]
    exact hp a b hab ha

omit [DecidableEq κ] in
theorem Full.packed (h : Full t) : Packed t := fun i _ _ hi => absurd hi (h i)

omit [DecidableEq κ] in
theorem full_update (h : Full t) : Full (Function.update t i (some (k, v))) := by
  intro j
  by_cases hj : j = i
  · rw [hj, Function.update_self]
    exact Option.some_ne_none _
  · rw [Function.update_of_ne hj]
    exact h j

/-- A full table has as many keys as slots. -/
theorem keys_of_full (hu : Unique t) (h : Full t) :
    ∃ ks : List κ, ks.Nodup ∧ ks.length = n ∧ ∀ k ∈ ks, lookup t k ≠ none := by
  have hkey : ∀ i, ∃ k, (hit t k i).isSome := by
    intro i
    obtain ⟨⟨k, v⟩, hi⟩ := Option.ne_none_iff_exists'.mp (h i)
    exact ⟨k, by rw [hit_eq_some.mpr hi]; rfl⟩
  choose f hf using hkey
  refine ⟨List.ofFn f, List.nodup_ofFn.mpr ?_, List.length_ofFn, fun k hk hnone => ?_⟩
  · exact fun i j hij => hu (f i) i j (hf i) (hij ▸ hf j)
  · obtain ⟨i, rfl⟩ := List.mem_ofFn.mp hk
    have hi := hf i
    rw [lookup_eq_none.mp hnone i] at hi
    exact Bool.false_ne_true hi

end Laws

end Lib.SlotTable
