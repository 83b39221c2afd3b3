-- What the heap is for: an array of bytes for each live pointer, apart from all others. The calls of the
-- heap act on these arrays one at a time.
import Mathlib.Data.List.GetD
import SpaceOS.KheapLaws

open Lib.Bytes Lib.BlockList

namespace SpaceOS.Kheap

/-! ## The arrays -/

/-- The bytes of the block of pointer `p`. -/
def conteudo (h : Heap) (p : Nat) : List UInt8 :=
  (List.range (carga h p)).map fun i => h.mem (p + i)

/-- The array of each live pointer. -/
def arranjos (s : Estado) (p : Nat) : Option (List UInt8) :=
  if p ∈ s.vivos then some (conteudo s.heap p) else none

section Arranjos

variable {s s' : Estado} {bs cs : List Block} {p q : Nat}

theorem length_conteudo (h : Heap) (p : Nat) : (conteudo h p).length = carga h p := by
  unfold conteudo
  rw [List.length_map, List.length_range]

theorem arranjos_vivo (hp : p ∈ s.vivos) : arranjos s p = some (conteudo s.heap p) := if_pos hp

theorem arranjos_outro (hp : p ∉ s.vivos) : arranjos s p = none := if_neg hp

/-- A block that stays, stays with its bytes. -/
theorem Inteiro.conteudo_fica (hi' : Inteiro s' cs) (h : Fica s.heap.mem s'.heap.mem cs (p, Kheap.carga s.heap p)) :
    conteudo s'.heap p = conteudo s.heap p := by
  unfold conteudo
  rw [hi'.carga_eq h.1]
  exact List.map_congr_left fun i hi => h.2 (p + i) (Nat.le_add_right p i)
    (Nat.add_lt_add_left (List.mem_range.mp hi) p)

/-! ## The calls -/

/-- A new array beside those that there are. -/
theorem Inteiro.kmalloc_arranjos (hi : Inteiro s bs) {n : Nat} {h' : Heap}
    (hk : Kheap.kmalloc s.heap n = some (p, h')) :
    (p = 0 → arranjos ⟨h', s.vivos⟩ = arranjos s) ∧
      (p ≠ 0 → arranjos s p = none ∧ ∃ l, alinhar n ≤ l.length ∧
        arranjos ⟨h', p :: s.vivos⟩ = Function.update (arranjos s) p (some l)) := by
  obtain ⟨p1, h1, cs, hk1, hi', hnew, hfica⟩ := hi.kmalloc_usados n
  obtain ⟨rfl, rfl⟩ := Prod.mk.inj (Option.some.inj (hk1.symm.trans hk))
  have hmesmo : ∀ q ∈ s.vivos, conteudo h1 q = conteudo s.heap q := fun q hq =>
    hi'.conteudo_fica (hfica _ (hi.carga hq))
  refine ⟨fun _ => funext fun q => ?_, fun hp => ⟨arranjos_outro (hnew hp).1, conteudo h1 p1, ?_,
    funext fun q => ?_⟩⟩
  · by_cases hq : q ∈ s.vivos
    · rw [arranjos_vivo hq, ← hmesmo q hq]
      exact if_pos hq
    · rw [arranjos_outro hq]
      exact if_neg hq
  · rw [length_conteudo]
    exact (hnew hp).2
  · rcases eq_or_ne q p1 with rfl | hne
    · rw [Function.update_self]
      exact if_pos List.mem_cons_self
    rw [Function.update_of_ne hne]
    by_cases hq : q ∈ s.vivos
    · rw [arranjos_vivo hq, ← hmesmo q hq]
      exact if_pos (List.mem_cons_of_mem _ hq)
    · rw [arranjos_outro hq]
      exact if_neg fun hm => (List.mem_cons.mp hm).elim hne hq

/-- One array goes, and the others stay. -/
theorem Inteiro.kfree_arranjos (hi : Inteiro s bs) (hp : p ∈ s.vivos) {h' : Heap}
    (hk : Kheap.kfree s.heap p = some h') :
    arranjos ⟨h', s.vivos.erase p⟩ = Function.update (arranjos s) p none := by
  obtain ⟨h1, cs, hk1, hi', hfica⟩ := hi.kfree_usados hp
  obtain rfl := Option.some.inj (hk1.symm.trans hk)
  have hmem : ∀ q, q ∈ s.vivos.erase p ↔ q ≠ p ∧ q ∈ s.vivos := fun q => hi.vivos_nodup.mem_erase_iff
  funext q
  rcases eq_or_ne q p with rfl | hne
  · rw [Function.update_self]
    exact if_neg fun hm => ((hmem q).mp hm).1 rfl
  rw [Function.update_of_ne hne]
  by_cases hq : q ∈ s.vivos
  · rw [arranjos_vivo hq, ← hi'.conteudo_fica (hfica _ (hi.carga hq) hne)]
    exact if_pos ((hmem q).mpr ⟨hne, hq⟩)
  · rw [arranjos_outro hq]
    exact if_neg fun hm => hq ((hmem q).mp hm).2

/-- A write into one array changes the one place of it. -/
theorem Inteiro.escreve_arranjos (hi : Inteiro s bs) (hp : p ∈ s.vivos) {i : Nat} (v : UInt8)
    (hlt : i < Kheap.carga s.heap p) :
    arranjos ⟨{ s.heap with mem := putByte s.heap.mem (p + i) v }, s.vivos⟩ =
      Function.update (arranjos s) p (some ((conteudo s.heap p).set i v)) := by
  have hi' := hi.escreve v hp (Nat.le_add_right p i) (Nat.add_lt_add_left hlt p)
  have hcarga : ∀ q ∈ s.vivos, Kheap.carga { s.heap with mem := putByte s.heap.mem (p + i) v } q =
      Kheap.carga s.heap q := fun q hq => hi'.carga_eq (hi.carga hq)
  funext q
  rcases eq_or_ne q p with rfl | hne
  · rw [Function.update_self]
    refine (if_pos hp).trans (congrArg some (List.ext_getElem ?_ fun j h1 h2 => ?_))
    · rw [List.length_set, length_conteudo, length_conteudo]
      exact hcarga q hp
    · rw [List.getElem_set]
      simp only [conteudo, List.getElem_map, List.getElem_range]
      split
      · rename_i hij
        rw [hij]
        exact putByte_self _ _ _
      · exact putByte_ne _ _ (by omega)
  rw [Function.update_of_ne hne]
  by_cases hq : q ∈ s.vivos
  · rw [arranjos_vivo hq]
    refine (if_pos hq).trans (congrArg some ?_)
    refine hi'.conteudo_fica ⟨hi.carga hq, fun x h1 h2 => putByte_ne _ _ ?_⟩
    have := used_disjoint CABECALHO (hi.carga hp) (hi.carga hq) hne.symm
    dsimp only at h1 h2 this
    omega
  · rw [arranjos_outro hq]
    exact if_neg hq

/-! ## The law -/

/-- Each call, as a step on the arrays. -/
structure Separados (s : Estado) : Prop where
  kmalloc : ∀ (n : UInt32) p h', Kheap.kmalloc s.heap n.toNat = some (p, h') →
    (p = 0 → arranjos ⟨h', s.vivos⟩ = arranjos s) ∧
      (p ≠ 0 → arranjos s p = none ∧ ∃ l, alinhar n.toNat ≤ l.length ∧
        arranjos ⟨h', p :: s.vivos⟩ = Function.update (arranjos s) p (some l))
  kfree : ∀ p l h', arranjos s p = some l → Kheap.kfree s.heap p = some h' →
    arranjos ⟨h', s.vivos.erase p⟩ = Function.update (arranjos s) p none
  escreve : ∀ p l i v, arranjos s p = some l → i < l.length →
    arranjos ⟨{ s.heap with mem := putByte s.heap.mem (p + i) v }, s.vivos⟩ =
      Function.update (arranjos s) p (some (l.set i v))
  le : ∀ p l i, arranjos s p = some l → i < l.length → s.heap.mem (p + i) = l.getD i 0

theorem arranjos_some {l : List UInt8} (h : arranjos s p = some l) :
    p ∈ s.vivos ∧ conteudo s.heap p = l := by
  unfold arranjos at h
  split at h
  · rename_i hp
    exact ⟨hp, Option.some.inj h⟩
  · cases h

end Arranjos

end SpaceOS.Kheap
