-- Resources held by owners, each at one place of one owner, next to those in the hand of the
-- running operation and a mark on every resource in use: how taking, giving back, dropping
-- an owner and adopting one keep the marks right.
import Mathlib.Tactic.Common

namespace Lib.Ownership

variable {ι β ρ : Type}

/-- `holds i b r`: owner `i` has resource `r` at its place `b`. -/
abbrev Holds (ι β ρ : Type) := ι → β → ρ → Prop

/-- No resource has two places, none in hand has one, and the marks are on those in use. -/
structure Owned (holds : Holds ι β ρ) (hand mark : ρ → Prop) : Prop where
  unique : ∀ {i b j c r}, holds i b r → holds j c r → i = j ∧ b = c
  hand_free : ∀ {i b r}, hand r → ¬ holds i b r
  mark_iff : ∀ r, mark r ↔ hand r ∨ ∃ i b, holds i b r

/-- Every owner but `i`. -/
def without (holds : Holds ι β ρ) (i : ι) : Holds ι β ρ := fun j b r => j ≠ i ∧ holds j b r

/-- The owners and `i` with the places `x`. -/
def adding (holds : Holds ι β ρ) (i : ι) (x : β → ρ → Prop) : Holds ι β ρ :=
  fun j b r => holds j b r ∨ (j = i ∧ x b r)

namespace Owned

variable {holds holds' : Holds ι β ρ} {hand hand' mark mark' : ρ → Prop}

theorem congr (h : Owned holds hand mark) (h1 : ∀ i b r, holds' i b r ↔ holds i b r)
    (h2 : ∀ r, hand' r ↔ hand r) (h3 : ∀ r, mark' r ↔ mark r) : Owned holds' hand' mark' := by
  obtain rfl : holds' = holds := funext fun i => funext fun b => funext fun r => propext (h1 i b r)
  obtain rfl : hand' = hand := funext fun r => propext (h2 r)
  obtain rfl : mark' = mark := funext fun r => propext (h3 r)
  exact h

theorem mark_of_holds (h : Owned holds hand mark) {i : ι} {b : β} {r : ρ} (hr : holds i b r) :
    mark r := (h.mark_iff r).mpr (Or.inr ⟨i, b, hr⟩)

theorem mark_of_hand (h : Owned holds hand mark) {r : ρ} (hr : hand r) : mark r :=
  (h.mark_iff r).mpr (Or.inl hr)

/-- A resource not marked is taken into the hand. -/
theorem take (h : Owned holds hand mark) {r : ρ} (hr : ¬ mark r) :
    Owned holds (fun t => hand t ∨ t = r) (fun t => mark t ∨ t = r) where
  unique := h.unique
  hand_free := by
    rintro i b t (ht | rfl) hh
    · exact h.hand_free ht hh
    · exact hr (h.mark_of_holds hh)
  mark_iff := fun t => by
    rw [h.mark_iff t]
    exact or_right_comm

/-- A resource in hand is given back. -/
theorem give (h : Owned holds hand mark) {r : ρ} (hr : hand r) :
    Owned holds (fun t => hand t ∧ t ≠ r) (fun t => mark t ∧ t ≠ r) where
  unique := h.unique
  hand_free := fun ht => h.hand_free ht.1
  mark_iff := fun t => by
    rw [h.mark_iff t]
    constructor
    · rintro ⟨ht | ht, hne⟩
      · exact Or.inl ⟨ht, hne⟩
      · exact Or.inr ht
    · rintro (⟨ht, hne⟩ | ⟨i, b, ht⟩)
      · exact ⟨Or.inl ht, hne⟩
      · exact ⟨Or.inr ⟨i, b, ht⟩, by rintro rfl; exact h.hand_free hr ht⟩

/-- An owner is dropped: what it had comes into the hand. -/
theorem drop (h : Owned holds hand mark) (i : ι) :
    Owned (without holds i) (fun r => hand r ∨ ∃ b, holds i b r) mark where
  unique := fun h1 h2 => h.unique h1.2 h2.2
  hand_free := by
    rintro j b r (hr | ⟨c, hr⟩) ⟨hne, hh⟩
    · exact h.hand_free hr hh
    · exact hne (h.unique hh hr).1
  mark_iff := fun r => by
    rw [h.mark_iff r]
    constructor
    · rintro (hr | ⟨j, b, hr⟩)
      · exact Or.inl (Or.inl hr)
      · by_cases hj : j = i
        · exact Or.inl (Or.inr ⟨b, hj ▸ hr⟩)
        · exact Or.inr ⟨j, b, hj, hr⟩
    · rintro ((hr | ⟨b, hr⟩) | ⟨j, b, _, hr⟩)
      · exact Or.inl hr
      · exact Or.inr ⟨i, b, hr⟩
      · exact Or.inr ⟨j, b, hr⟩

/-- An owner without resources is given some of those in hand, each at one place. -/
theorem adopt (h : Owned holds hand mark) {i : ι} (hi : ∀ b r, ¬ holds i b r) {x : β → ρ → Prop}
    (hx : ∀ b r, x b r → hand r) (hinj : ∀ {b c r}, x b r → x c r → b = c) :
    Owned (adding holds i x) (fun r => hand r ∧ ∀ b, ¬ x b r) mark where
  unique := by
    rintro j b k c r (h1 | ⟨rfl, h1⟩) (h2 | ⟨rfl, h2⟩)
    · exact h.unique h1 h2
    · exact absurd h1 (h.hand_free (hx _ _ h2))
    · exact absurd h2 (h.hand_free (hx _ _ h1))
    · exact ⟨rfl, hinj h1 h2⟩
  hand_free := by
    rintro j b r ⟨hr, hn⟩ (hh | ⟨rfl, hh⟩)
    · exact h.hand_free hr hh
    · exact hn b hh
  mark_iff := fun r => by
    rw [h.mark_iff r]
    constructor
    · rintro (hr | ⟨j, b, hr⟩)
      · by_cases hb : ∃ b, x b r
        · obtain ⟨b, hb⟩ := hb
          exact Or.inr ⟨i, b, Or.inr ⟨rfl, hb⟩⟩
        · exact Or.inl ⟨hr, fun b hx => hb ⟨b, hx⟩⟩
      · exact Or.inr ⟨j, b, Or.inl hr⟩
    · rintro (⟨hr, _⟩ | ⟨j, b, hr | ⟨rfl, hr⟩⟩)
      · exact Or.inl hr
      · exact Or.inr ⟨j, b, hr⟩
      · exact Or.inl (hx b r hr)

end Owned

end Lib.Ownership
