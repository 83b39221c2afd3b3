-- The loop of fat32_delete that frees a chain, on any FAT: it ends, and it clears the entries of the
-- clusters that it comes to and no others.
import SpaceOS.Lib.Trail
import SpaceOS.Fat32Volume

open Lib.Bytes Lib.Bytes.ByteStr Lib.Trail

namespace SpaceOS.Fat32

section Libera

variable {v : Bpb} {d d' : Disco} {c c' x l fuel : Nat}

/-- The word of a cluster in the FAT, with the four bits that the mask takes away. -/
def entrada_fat (v : Bpb) (d : Disco) (cluster : Nat) : Nat :=
  (d (fat_sector v cluster)).word (fat_offset cluster)

theorem entrada_write_self (v : Bpb) (d : Disco) (c n : Nat) :
    entrada_fat v (fat32_write_fat_entry v d c n) c = n % 2 ^ 28 := by
  unfold entrada_fat fat32_write_fat_entry
  rw [gravar_self, ByteStr.word_putWord_self]
  · omega
  · unfold fat_offset
    omega

theorem entrada_write_ne (hc : c < 2 ^ 28) (hc' : c' < 2 ^ 28) (n : Nat) (hne : c' ≠ c) :
    entrada_fat v (fat32_write_fat_entry v d c n) c' = entrada_fat v d c' := by
  unfold entrada_fat fat32_write_fat_entry
  by_cases hs : fat_sector v c' = fat_sector v c
  · rw [hs, gravar_self, ByteStr.word_putWord_ne]
    · unfold fat_sector at hs
      unfold fat_offset
      omega
    · unfold fat_offset
      omega
  · rw [gravar_ne _ hs]

/-- Where the loop ends. -/
def FimDaCadeia (c : Nat) : Prop := ¬ (2 ≤ c ∧ c < FAT32_EOF)

instance : DecidablePred FimDaCadeia := fun _ => inferInstanceAs (Decidable (¬ _))

theorem lt_of_not_fim (h : ¬ FimDaCadeia c) : c < 2 ^ 28 := by
  have := (not_not.mp h).2
  have := eof_eq
  omega

/-- The clusters from the first one up to the first value below 2 or at least `FAT32_EOF`. -/
def Visitado (v : Bpb) (d : Disco) (c x : Nat) : Prop :=
  Visits (fat32_read_fat v d) FimDaCadeia c x

/-- The FAT as a table. A number of 2^28 or more is no cluster. -/
def tabela (v : Bpb) (d : Disco) (c : Nat) : Nat := if c < 2 ^ 28 then entrada_fat v d c else 0

theorem tabela_eq (hc : ¬ FimDaCadeia c) : tabela v d c = entrada_fat v d c :=
  if_pos (lt_of_not_fim hc)

theorem tabela_write (hc : ¬ FimDaCadeia c) :
    tabela v (fat32_write_fat_entry v d c 0) = Function.update (tabela v d) c 0 := by
  have hlt := lt_of_not_fim hc
  funext x
  unfold tabela
  by_cases hx : x < 2 ^ 28
  · rw [if_pos hx]
    by_cases hxc : x = c
    · subst hxc
      rw [Function.update_self, entrada_write_self, Nat.zero_mod]
    · rw [Function.update_of_ne hxc, if_pos hx, entrada_write_ne hlt hx 0 hxc]
  · rw [if_neg hx, Function.update_of_ne (by omega), if_neg hx]

/-- The loop is a walk over the table that clears the entries behind it. -/
theorem libera_wipe (fuel : Nat) (d : Disco) (c : Nat) :
    (libera v fuel d c).map (tabela v) = wipe (· % 2 ^ 28) FimDaCadeia 0 fuel (tabela v d) c := by
  induction fuel generalizing d c with
  | zero => rfl
  | succ fuel ih =>
    rw [libera, wipe]
    by_cases hc : FimDaCadeia c
    · rw [if_pos hc, if_neg hc]
      rfl
    · rw [if_neg hc, if_pos (not_not.mp hc), ih, tabela_write hc, tabela_eq hc]
      rfl

theorem visitado_iff :
    Visits (fun x => tabela v d x % 2 ^ 28) FimDaCadeia c x ↔ Visitado v d c x := by
  constructor
  · intro h
    refine h.congr fun y hy => ?_
    rw [tabela_eq hy]
    rfl
  · intro h
    refine Visits.congr (fun y hy => ?_) h
    rw [tabela_eq hy]
    rfl

/-- A sector with the entry of no cluster on the way stays as it was. -/
theorem libera_setor (h : libera v fuel d c = some d')
    (hl : ∀ x, Visitado v d c x → fat_sector v x ≠ l) : d' l = d l := by
  induction fuel generalizing d c with
  | zero => cases h
  | succ fuel ih =>
    rw [libera] at h
    by_cases hc : FimDaCadeia c
    · rw [if_neg hc] at h
      rw [Option.some.inj h]
    · rw [if_pos (not_not.mp hc)] at h
      rw [ih h fun x hx => hl x ?_]
      · exact gravar_ne _ (hl c (.start hc)).symm
      · have hv := visitado_iff.mpr hx
        rw [tabela_write hc] at hv
        have hz : FimDaCadeia (0 % 2 ^ 28) := by decide
        refine visitado_iff.mp ((visits_update (· % 2 ^ 28) hz hc).mpr (Or.inr ?_))
        rw [tabela_eq hc]
        exact hv

/-- More fuel does not change where the loop ends. -/
theorem libera_mais (k : Nat) (h : libera v fuel d c = some d') :
    libera v (fuel + k) d c = some d' := by
  induction fuel generalizing d c with
  | zero => cases h
  | succ fuel ih =>
    rw [Nat.succ_add]
    rw [libera] at h ⊢
    by_cases hc : 2 ≤ c ∧ c < FAT32_EOF
    · rw [if_pos hc] at h ⊢
      exact ih h
    · rw [if_neg hc] at h ⊢
      exact h

/-- The loop ends, also where the chain has a loop or runs into another one. -/
theorem libera_acaba (v : Bpb) (d : Disco) (c : Nat) :
    ∃ d' n, (∀ fuel, n ≤ fuel → libera v fuel d c = some d') ∧
      Wiped (· % 2 ^ 28) FimDaCadeia 0 (tabela v d) c (tabela v d') := by
  obtain ⟨t, ht, hrun⟩ := wipe_spec (· % 2 ^ 28) FimDaCadeia (z := 0) (by decide)
    (Finset.range (2 ^ 28)) (fun x hx => Finset.mem_range.mpr (lt_of_not_fim hx))
    (tabela v d) c
  generalize (Finset.filter (fun x => tabela v d x ≠ 0) (Finset.range (2 ^ 28))).card + 2 = n
    at hrun
  have he := libera_wipe (v := v) n d c
  rw [hrun n (Nat.le_refl n)] at he
  obtain ⟨d', hd', rfl⟩ := Option.map_eq_some_iff.mp he
  refine ⟨d', n, fun fuel hf => ?_, ht⟩
  obtain ⟨k, rfl⟩ := Nat.exists_eq_add_of_le hf
  exact libera_mais k hd'

/-- Freeing a chain is exact and always ends: the entries of the clusters that it comes to are 0 then,
and nothing else changes. -/
theorem a_chain_is_freed_exactly (v : Bpb) (d : Disco) (c : Nat) :
    ∃ d' n, (∀ fuel, n ≤ fuel → libera v fuel d c = some d') ∧
      (∀ x, Visitado v d c x → entrada_fat v d' x = 0) ∧
      (∀ x < 2 ^ 28, ¬ Visitado v d c x → entrada_fat v d' x = entrada_fat v d x) ∧
      ∀ l, (∀ x, Visitado v d c x → fat_sector v x ≠ l) → d' l = d l := by
  obtain ⟨d', n, hrun, ht⟩ := libera_acaba v d c
  refine ⟨d', n, hrun, fun x hx => ?_, fun x hlt hx => ?_, fun l hl => ?_⟩
  · rw [← tabela_eq hx.not_stop]
    exact ht.visited x (visitado_iff.mpr hx)
  · have he := ht.others x fun hv => hx (visitado_iff.mp hv)
    unfold tabela at he
    rwa [if_pos hlt, if_pos hlt] at he
  · exact libera_setor (hrun n (Nat.le_refl n)) hl

end Libera

end SpaceOS.Fat32
