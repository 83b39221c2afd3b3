-- Walks that follow a function from key to key until a stop: what they visit, when they end, and
-- what a walk leaves of a table that it clears behind itself.
import Mathlib.Data.Finset.Card
import Mathlib.Data.Set.Finite.Basic
import Mathlib.Logic.Function.Basic

namespace Lib.Trail

variable {κ ν : Type} {next next' : κ → κ} {stop : κ → Prop} {c x y : κ}

/-! ## What a walk visits -/

/-- The keys that a walk from `c` comes to before it stops. -/
inductive Visits (next : κ → κ) (stop : κ → Prop) (c : κ) : κ → Prop
  | start : ¬ stop c → Visits next stop c c
  | step {x : κ} : Visits next stop c x → ¬ stop (next x) → Visits next stop c (next x)

theorem Visits.not_stop (h : Visits next stop c x) : ¬ stop x := by
  cases h with
  | start hc => exact hc
  | step _ hx => exact hx

theorem Visits.from_not_stop (h : Visits next stop c x) : ¬ stop c := by
  induction h with
  | start hc => exact hc
  | step _ _ ih => exact ih

theorem Visits.trans (h : Visits next stop c x) (h' : Visits next stop x y) :
    Visits next stop c y := by
  induction h' with
  | start _ => exact h
  | step _ hy ih => exact .step ih hy

/-- A walk visits its first key and what the rest of it visits. -/
theorem Visits.cases_head (h : Visits next stop c x) : x = c ∨ Visits next stop (next c) x := by
  induction h with
  | start _ => exact Or.inl rfl
  | @step x _ hx ih =>
    right
    rcases ih with rfl | ih
    · exact .start hx
    · exact .step ih hx

theorem Visits.head (hc : ¬ stop c) (h : Visits next stop (next c) x) : Visits next stop c x :=
  (Visits.step (.start hc) h.from_not_stop).trans h

/-- Only the links of keys that do not stop the walk matter. -/
theorem Visits.congr (he : ∀ x, ¬ stop x → next x = next' x) (h : Visits next stop c x) :
    Visits next' stop c x := by
  induction h with
  | start hc => exact .start hc
  | @step x hv hx ih =>
    rw [he x hv.not_stop] at hx ⊢
    exact .step ih hx

/-- The keys at each step, as long as none of them stops the walk. -/
theorem Visits.iterate (h : ∀ n, ¬ stop (next^[n] c)) (n : Nat) : Visits next stop c (next^[n] c) := by
  induction n with
  | zero => exact .start (h 0)
  | succ n ih =>
    have hn := h (n + 1)
    rw [Function.iterate_succ_apply'] at hn ⊢
    exact .step ih hn

/-! ## Where a walk ends -/

inductive Ends (next : κ → κ) (stop : κ → Prop) : κ → Prop
  | here {c : κ} : stop c → Ends next stop c
  | later {c : κ} : ¬ stop c → Ends next stop (next c) → Ends next stop c

theorem Ends.rest (h : Ends next stop c) (hc : ¬ stop c) : Ends next stop (next c) := by
  cases h with
  | here hs => exact absurd hs hc
  | later _ h => exact h

/-- No key is visited again. -/
def NoLap (next : κ → κ) (stop : κ → Prop) (c : κ) : Prop :=
  ∀ x, Visits next stop c x → ¬ Visits next stop (next x) x

theorem Ends.noLap (h : Ends next stop c) : NoLap next stop c := by
  induction h with
  | here hs =>
    intro x hx _
    exact hx.from_not_stop hs
  | @later c hc _ ih =>
    intro x hx hlap
    rcases hx.cases_head with rfl | hx
    · exact ih x hlap hlap
    · exact ih x hx hlap

/-- A walk that never stops comes to a key again, if there are only so many. -/
theorem exists_lap (hfin : {x | Visits next stop c x}.Finite) (h : ∀ n, ¬ stop (next^[n] c)) :
    ∃ x, Visits next stop c x ∧ Visits next stop (next x) x := by
  have hninj : ¬ Function.Injective fun n => next^[n] c := fun hinj =>
    Set.infinite_of_injective_forall_mem hinj (Visits.iterate h) hfin
  have hlap : ∀ i j, i < j → next^[i] c = next^[j] c →
      ∃ x, Visits next stop c x ∧ Visits next stop (next x) x := by
    intro i j hij he
    refine ⟨next^[i] c, Visits.iterate h i, ?_⟩
    have hj : j = (j - i - 1) + (i + 1) := by omega
    have hrest : ∀ n, ¬ stop (next^[n] (next (next^[i] c))) := by
      intro n
      have hn := h (n + (i + 1))
      rw [Function.iterate_add_apply, Function.iterate_succ_apply'] at hn
      exact hn
    have hv := Visits.iterate hrest (j - i - 1)
    rw [← Function.iterate_succ_apply' next i c, ← Function.iterate_add_apply, ← hj, ← he] at hv
    rwa [Function.iterate_succ_apply'] at hv
  obtain ⟨i, j, he, hne⟩ := Function.not_injective_iff.mp hninj
  rcases Nat.lt_or_gt_of_ne hne with hij | hji
  · exact hlap i j hij he
  · exact hlap j i hji he.symm

theorem iterate_stop (n : Nat) (h : stop (next^[n] c)) : Ends next stop c := by
  induction n generalizing c with
  | zero => exact .here h
  | succ n ih =>
    by_cases hc : stop c
    · exact .here hc
    · exact .later hc (ih h)

/-- A walk over finitely many keys ends where it comes to no key twice. -/
theorem ends_iff (hfin : {x | Visits next stop c x}.Finite) :
    Ends next stop c ↔ NoLap next stop c := by
  constructor
  · exact Ends.noLap
  · intro h
    by_contra hn
    obtain ⟨x, hx, hlap⟩ := exists_lap hfin fun n hs => hn (iterate_stop n hs)
    exact h x hx hlap

/-! ## A walk that clears what is behind it -/

variable {link : ν → κ} {z : ν} {t t' : κ → ν}

/-- The table after the walk: the keys that were visited are cleared, and no others change. -/
structure Wiped (link : ν → κ) (stop : κ → Prop) (z : ν) (t : κ → ν) (c : κ) (t' : κ → ν) :
    Prop where
  visited : ∀ x, Visits (fun x => link (t x)) stop c x → t' x = z
  others : ∀ x, ¬ Visits (fun x => link (t x)) stop c x → t' x = t x

theorem Wiped.nothing (h : stop c) : Wiped link stop z t c t :=
  ⟨fun _ hx => absurd h hx.from_not_stop, fun _ _ => rfl⟩

section Wipe

variable [DecidableEq κ]

/-- The entry of each key on the way is read and then cleared with `z`; `link` leads from an entry to
the next key. -/
def wipe (link : ν → κ) (stop : κ → Prop) [DecidablePred stop] (z : ν) :
    Nat → (κ → ν) → κ → Option (κ → ν)
  | 0, _, _ => none
  | fuel + 1, t, c =>
    if stop c then some t else wipe link stop z fuel (Function.update t c z) (link (t c))

/-- Clearing the first key takes it, and nothing else, from the keys that are visited. -/
theorem visits_update (link : ν → κ) (hz : stop (link z)) (hc : ¬ stop c) :
    Visits (fun x => link (t x)) stop c x ↔
      x = c ∨ Visits (fun x => link (Function.update t c z x)) stop (link (t c)) x := by
  constructor
  · intro h
    induction h with
    | start _ => exact Or.inl rfl
    | @step x _ hx ih =>
      right
      by_cases hxc : x = c
      · subst hxc
        exact .start hx
      · have hv := ih.resolve_left hxc
        have hs := Visits.step hv (by rwa [Function.update_of_ne hxc])
        rwa [Function.update_of_ne hxc] at hs
  · rintro (rfl | h)
    · exact .start hc
    · induction h with
      | start hs => exact .step (.start hc) hs
      | @step x _ hx ih =>
        by_cases hxc : x = c
        · subst hxc
          rw [Function.update_self] at hx
          exact absurd hz hx
        · rw [Function.update_of_ne hxc] at hx ⊢
          exact .step ih hx

theorem Wiped.step (hz : stop (link z)) (hc : ¬ stop c)
    (h : Wiped link stop z (Function.update t c z) (link (t c)) t') :
    Wiped link stop z t c t' := by
  constructor
  case visited =>
    intro x hx
    by_cases hr : Visits (fun x => link (Function.update t c z x)) stop (link (t c)) x
    · exact h.visited x hr
    · obtain rfl := ((visits_update link hz hc).mp hx).resolve_right hr
      rw [h.others x hr, Function.update_self]
  case others =>
    intro x hx
    have hn := fun hor => hx ((visits_update link hz hc).mpr hor)
    rw [h.others x fun hr => hn (Or.inr hr), Function.update_of_ne fun he => hn (Or.inl he)]

/-- The walk ends, also where it comes back to a key: the entry there is cleared by then. The measure
is the number of keys whose entry is not clear. -/
theorem wipe_spec (link : ν → κ) (stop : κ → Prop) [DecidablePred stop] [DecidableEq ν]
    (hz : stop (link z)) (keys : Finset κ) (hin : ∀ x, ¬ stop x → x ∈ keys) (t : κ → ν) (c : κ) :
    ∃ t', Wiped link stop z t c t' ∧
      ∀ fuel, (keys.filter fun x => t x ≠ z).card + 2 ≤ fuel → wipe link stop z fuel t c = some t' := by
  generalize hm : (keys.filter fun x => t x ≠ z).card = m
  induction m using Nat.strongRecOn generalizing t c with
  | ind m ih =>
    by_cases hc : stop c
    · refine ⟨t, Wiped.nothing hc, fun fuel hf => ?_⟩
      obtain ⟨k, rfl⟩ : ∃ k, fuel = k + 1 := ⟨fuel - 1, by omega⟩
      rw [wipe, if_pos hc]
    by_cases htc : t c = z
    · -- the walk came back to a key: it stops at once
      refine ⟨Function.update t c z, Wiped.step hz hc (Wiped.nothing (htc ▸ hz)), fun fuel hf => ?_⟩
      obtain ⟨k, rfl⟩ : ∃ k, fuel = k + 2 := ⟨fuel - 2, by omega⟩
      rw [wipe, if_neg hc, wipe, if_pos (htc ▸ hz)]
    · have hmem : c ∈ keys.filter fun x => t x ≠ z := Finset.mem_filter.mpr ⟨hin c hc, htc⟩
      have herase : (keys.filter fun x => Function.update t c z x ≠ z) =
          (keys.filter fun x => t x ≠ z).erase c := by
        ext x
        by_cases hxc : x = c
        · subst hxc
          simp
        · simp [hxc]
      have hcard : (keys.filter fun x => Function.update t c z x ≠ z).card + 1 = m := by
        rw [herase, Finset.card_erase_add_one hmem, hm]
      obtain ⟨t', ht, hrun⟩ := ih _ (by omega) (Function.update t c z) (link (t c)) rfl
      refine ⟨t', Wiped.step hz hc ht, fun fuel hf => ?_⟩
      obtain ⟨k, rfl⟩ : ∃ k, fuel = k + 1 := ⟨fuel - 1, by omega⟩
      rw [wipe, if_neg hc]
      exact hrun k (by omega)

end Wipe

end Lib.Trail
