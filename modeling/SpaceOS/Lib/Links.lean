-- Chains of links that end: a link is missing, or is the last one, or leads to another key.
import Mathlib.Data.List.Nodup

namespace Lib.Links

variable {κ : Type}

/-- From a key along the links to the last one, with the keys on the way. -/
inductive Chain (next : κ → Option (Option κ)) : κ → List κ → Prop
  | last {c : κ} : next c = some none → Chain next c [c]
  | cons {c d : κ} {cs : List κ} : next c = some (some d) → Chain next d cs →
      Chain next c (c :: cs)

section Chain

variable {next next' : κ → Option (Option κ)} {c d : κ} {cs ds : List κ}

theorem Chain.unique (h : Chain next c cs) (h' : Chain next c ds) : cs = ds := by
  induction h generalizing ds with
  | last hc =>
    cases h' with
    | last _ => rfl
    | cons hd _ =>
      rw [hc] at hd
      exact absurd hd (by simp)
  | cons hc _ ih =>
    cases h' with
    | last hd =>
      rw [hc] at hd
      exact absurd hd (by simp)
    | cons hd h' =>
      rw [hc] at hd
      obtain rfl := Option.some.inj (Option.some.inj hd)
      rw [ih h']

theorem Chain.head_mem (h : Chain next c cs) : c ∈ cs := by
  cases h with
  | last _ => exact List.mem_cons_self
  | cons _ _ => exact List.mem_cons_self

theorem Chain.linked (h : Chain next c cs) : ∀ x ∈ cs, next x ≠ none := by
  induction h with
  | last hc =>
    intro x hx
    rw [List.mem_singleton.mp hx, hc]
    simp
  | cons hc _ ih =>
    intro x hx
    rcases List.mem_cons.mp hx with rfl | hx
    · rw [hc]
      simp
    · exact ih x hx

theorem Chain.congr (h : Chain next c cs) (he : ∀ x ∈ cs, next' x = next x) :
    Chain next' c cs := by
  induction h with
  | last hc => exact .last ((he _ List.mem_cons_self).trans hc)
  | cons hc _ ih =>
    exact .cons ((he _ List.mem_cons_self).trans hc)
      (ih fun x hx => he x (List.mem_cons_of_mem _ hx))

theorem Chain.next_mem (h : Chain next c cs) {x y : κ} (hx : x ∈ cs)
    (hy : next x = some (some y)) : y ∈ cs := by
  induction h with
  | last hc =>
    rw [List.mem_singleton.mp hx, hc] at hy
    exact absurd hy (by simp)
  | cons hc h ih =>
    rcases List.mem_cons.mp hx with rfl | hx
    · rw [hc] at hy
      obtain rfl := Option.some.inj (Option.some.inj hy)
      exact List.mem_cons_of_mem _ h.head_mem
    · exact List.mem_cons_of_mem _ (ih hx)

/-- From a key on the way the chain is a suffix. -/
theorem Chain.suffix (h : Chain next c cs) {x : κ} (hx : x ∈ cs) :
    ∃ ds, Chain next x ds ∧ ds.length ≤ cs.length := by
  induction h with
  | last hc =>
    rw [List.mem_singleton.mp hx]
    exact ⟨_, .last hc, Nat.le_refl _⟩
  | @cons c d cs hc h ih =>
    rcases List.mem_cons.mp hx with rfl | hx
    · exact ⟨_, .cons hc h, Nat.le_refl _⟩
    · obtain ⟨ds, hd, hle⟩ := ih hx
      exact ⟨ds, hd, Nat.le_succ_of_le hle⟩

/-- A chain that ends has no key twice. -/
theorem Chain.nodup (h : Chain next c cs) : cs.Nodup := by
  induction h with
  | last _ => exact List.nodup_singleton _
  | @cons c d cs hc h ih =>
    refine List.nodup_cons.mpr ⟨fun hmem => ?_, ih⟩
    obtain ⟨ds, hd, hle⟩ := h.suffix hmem
    have hlen := congrArg List.length (hd.unique (.cons hc h))
    rw [List.length_cons] at hlen
    omega

/-- A chain that is made longer at its last key. -/
theorem Chain.extend (h : Chain next c cs) {z : κ} (hz : z ∈ cs) (hlast : next z = some none)
    (he : ∀ x ∈ cs, x ≠ z → next' x = next x) (hl : next' z = some (some d))
    (hd : Chain next' d ds) : Chain next' c (cs ++ ds) := by
  induction h with
  | last hc =>
    rw [List.mem_singleton.mp hz] at hl
    exact .cons hl hd
  | @cons c e cs hc h ih =>
    have hcz : c ≠ z := by
      rintro rfl
      rw [hc] at hlast
      exact absurd hlast (by simp)
    have hz' := (List.mem_cons.mp hz).resolve_left hcz.symm
    exact .cons ((he c List.mem_cons_self hcz).trans hc)
      (ih hz' fun x hx => he x (List.mem_cons_of_mem _ hx))

end Chain

/-! ## A loop along a chain -/

section Run

variable {σ : Type} {next : κ → Option (Option κ)} {f : κ → σ → σ} {c : κ} {cs : List κ} {s t : σ}

/-- A loop that does `f` at each key, up to the last one. `none`: it has not ended after `n` turns, or
a link is missing. -/
def run (next : κ → Option (Option κ)) (f : κ → σ → σ) : Nat → κ → σ → Option σ
  | 0, _, _ => none
  | n + 1, c, s =>
    (next c).bind fun d => d.elim (some (f c s)) fun d => run next f n d (f c s)

theorem Chain.run_eq (h : Chain next c cs) {n : Nat} (hn : cs.length ≤ n) :
    run next f n c s = some (cs.foldl (fun s c => f c s) s) := by
  induction h generalizing n s with
  | last hc =>
    obtain ⟨n, rfl⟩ : ∃ m, n = m + 1 := ⟨n - 1, by simp at hn; omega⟩
    rw [run, hc]
    rfl
  | cons hc _ ih =>
    rw [List.length_cons] at hn
    obtain ⟨n, rfl⟩ : ∃ m, n = m + 1 := ⟨n - 1, by omega⟩
    rw [run, hc]
    exact ih (by omega)

/-- A loop that ends has gone along a chain. -/
theorem chain_of_run {n : Nat} (h : run next f n c s = some t) : ∃ cs, Chain next c cs := by
  induction n generalizing c s with
  | zero => exact absurd h (by simp [run])
  | succ n ih =>
    rw [run] at h
    obtain ⟨d, hd, h⟩ := Option.bind_eq_some_iff.mp h
    cases d with
    | none => exact ⟨_, .last hd⟩
    | some d =>
      obtain ⟨cs, hcs⟩ := ih h
      exact ⟨_, .cons hd hcs⟩

end Run

end Lib.Links
