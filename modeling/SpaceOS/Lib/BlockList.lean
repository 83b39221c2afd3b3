-- A region cut into blocks, each a header and a payload: first-fit
-- allocation with splitting, release, and merging of neighbours that are free.
import Mathlib.Data.List.Chain
import Mathlib.Data.List.Perm.Subperm

namespace Lib.BlockList

/-- A block of the region: the size of its payload, and whether it is free. -/
structure Block where
  size : Nat
  free : Bool
  deriving DecidableEq, Repr

-- `hdr` is the size of a header, `rest` the smallest payload that a split leaves.
variable (hdr rest : Nat)

/-! ## The operations -/

/-- The bytes that the blocks take, headers included. -/
def span : List Block → Nat
  | [] => 0
  | b :: bs => hdr + b.size + span bs

/-- No two neighbours are both free. -/
def Merged (bs : List Block) : Prop :=
  bs.IsChain fun b c => ¬(b.free = true ∧ c.free = true)

/-- The block taken for `n` bytes: cut in two where the rest is large enough. -/
def carve (n : Nat) (b : Block) : List Block :=
  if n + hdr + rest ≤ b.size then [⟨n, false⟩, ⟨b.size - n - hdr, true⟩] else [⟨b.size, false⟩]

/-- First fit from address `a`: the payload address and the blocks after it. -/
def alloc (n a : Nat) : List Block → Option (Nat × List Block)
  | [] => none
  | b :: bs =>
    if b.free = true ∧ n ≤ b.size then some (a + hdr, carve hdr rest n b ++ bs)
    else (alloc n (a + hdr + b.size) bs).map fun r => (r.1, b :: r.2)

/-- The blocks with the one whose payload starts at `p` set free. -/
def release (p a : Nat) : List Block → List Block
  | [] => []
  | b :: bs =>
    if p = a + hdr then ⟨b.size, true⟩ :: bs else b :: release p (a + hdr + b.size) bs

/-- Every run of free neighbours joined to one block. -/
def merge : List Block → List Block
  | [] => []
  | [b] => [b]
  | b :: c :: bs =>
    if b.free = true ∧ c.free = true then merge (⟨b.size + (hdr + c.size), true⟩ :: bs)
    else b :: merge (c :: bs)
termination_by bs => bs.length

/-- The addresses of the headers, the first block at `a`. -/
def headers (a : Nat) : List Block → List Nat
  | [] => []
  | b :: bs => a :: headers (a + hdr + b.size) bs

/-- The payload address and size of each block in use. -/
def used (a : Nat) : List Block → List (Nat × Nat)
  | [] => []
  | b :: bs =>
    (if b.free then [] else [(a + hdr, b.size)]) ++ used (a + hdr + b.size) bs

/-! ## The space that the blocks take -/

theorem span_append (bs cs : List Block) : span hdr (bs ++ cs) = span hdr bs + span hdr cs := by
  induction bs with
  | nil => simp [span]
  | cons b bs ih => simp only [List.cons_append, span, ih]; omega

theorem span_carve (n : Nat) (b : Block) : span hdr (carve hdr rest n b) = hdr + b.size := by
  unfold carve
  split
  · simp only [span]; omega
  · simp [span]

/-- First fit carves one free block, and leaves those before and after it as they are. -/
theorem alloc_split {n a p : Nat} {bs cs : List Block} (h : alloc hdr rest n a bs = some (p, cs)) :
    ∃ pre b post, bs = pre ++ b :: post ∧ b.free = true ∧ n ≤ b.size ∧
      p = a + span hdr pre + hdr ∧ cs = pre ++ (carve hdr rest n b ++ post) := by
  induction bs generalizing a cs with
  | nil => simp [alloc] at h
  | cons b bs ih =>
    unfold alloc at h
    split at h
    · rename_i hf
      cases h
      exact ⟨[], b, bs, rfl, hf.1, hf.2, by simp [span], rfl⟩
    · obtain ⟨⟨q, ds⟩, hd, he⟩ := Option.map_eq_some_iff.mp h
      cases he
      obtain ⟨pre, c, post, rfl, hc, hn, hp, rfl⟩ := ih hd
      exact ⟨b :: pre, c, post, rfl, hc, hn, by simp only [span]; omega, rfl⟩

/-- First fit finds a block if there is one that is free and large enough. -/
theorem alloc_none {n a : Nat} {bs : List Block} (h : alloc hdr rest n a bs = none) :
    ∀ b ∈ bs, ¬ (b.free = true ∧ n ≤ b.size) := by
  induction bs generalizing a with
  | nil => exact fun _ hb => absurd hb List.not_mem_nil
  | cons b bs ih =>
    unfold alloc at h
    split at h
    · cases h
    · rename_i hf
      exact List.forall_mem_cons.mpr ⟨hf, ih (Option.map_eq_none_iff.mp h)⟩

theorem span_alloc {n a p : Nat} {bs cs : List Block} (h : alloc hdr rest n a bs = some (p, cs)) :
    span hdr cs = span hdr bs := by
  obtain ⟨pre, b, post, rfl, _, _, _, rfl⟩ := alloc_split hdr rest h
  simp only [span_append, span_carve, span]

theorem span_release (p a : Nat) (bs : List Block) : span hdr (release hdr p a bs) = span hdr bs := by
  induction bs generalizing a with
  | nil => rfl
  | cons b bs ih => unfold release; split <;> simp [span, ih]

theorem span_merge (bs : List Block) : span hdr (merge hdr bs) = span hdr bs := by
  fun_induction merge hdr bs with
  | case1 => rfl
  | case2 => rfl
  | case3 b c bs _ ih => rw [ih]; simp only [span]; omega
  | case4 b c bs _ ih => simp only [span] at ih ⊢; omega

/-! ## Free neighbours -/

/-- Merging keeps the free bit of the first block. -/
theorem merge_head (b : Block) (bs : List Block) :
    ∃ c cs, merge hdr (b :: bs) = c :: cs ∧ c.free = b.free := by
  induction bs generalizing b with
  | nil => exact ⟨b, [], by simp [merge], rfl⟩
  | cons c bs ih =>
    unfold merge
    split
    · rename_i hf
      obtain ⟨d, ds, hd, hfree⟩ := ih ⟨b.size + (hdr + c.size), true⟩
      exact ⟨d, ds, hd, by rw [hfree, hf.1]⟩
    · exact ⟨b, _, rfl, rfl⟩

/-- However free the blocks were, merging leaves no two free neighbours. -/
theorem merged_merge (bs : List Block) : Merged (merge hdr bs) := by
  fun_induction merge hdr bs with
  | case1 => exact List.isChain_nil
  | case2 => exact List.isChain_singleton _
  | case3 b c bs _ ih => exact ih
  | case4 b c bs hf ih =>
    obtain ⟨d, ds, hd, hfree⟩ := merge_head hdr c bs
    unfold Merged at ih ⊢
    rw [hd] at ih ⊢
    exact List.isChain_cons_cons.mpr ⟨by rw [hfree]; exact hf, ih⟩

theorem merged_used_cons {b : Block} (hb : b.free = false) {bs : List Block} (h : Merged bs) :
    Merged (b :: bs) := by
  unfold Merged at h ⊢
  cases bs with
  | nil => exact List.isChain_singleton _
  | cons c bs => exact List.isChain_cons_cons.mpr ⟨by simp [hb], h⟩

theorem merged_tail {b : Block} {bs : List Block} (h : Merged (b :: bs)) : Merged bs := h.tail

/-- A split leaves the taken block in front, so a free rest stands next to a used block. -/
theorem merged_carve {n : Nat} {b : Block} {bs : List Block} (hb : b.free = true)
    (h : Merged (b :: bs)) : Merged (carve hdr rest n b ++ bs) := by
  unfold carve
  split
  · refine merged_used_cons rfl ?_
    cases bs with
    | nil => exact List.isChain_singleton _
    | cons c bs =>
      have hc := (List.isChain_cons_cons.mp h).1
      exact List.isChain_cons_cons.mpr ⟨fun hf => hc ⟨hb, hf.2⟩, merged_tail h⟩
  · exact merged_used_cons rfl (merged_tail h)

theorem carve_head (n : Nat) (b : Block) : ∃ c cs, carve hdr rest n b = c :: cs ∧ c.free = false := by
  unfold carve
  split
  · exact ⟨_, _, rfl, rfl⟩
  · exact ⟨_, _, rfl, rfl⟩

/-- First fit keeps the free bit of the first block, or takes that block. -/
theorem alloc_head {n a p : Nat} {b : Block} {bs cs : List Block}
    (h : alloc hdr rest n a (b :: bs) = some (p, cs)) :
    ∃ c ds, cs = c :: ds ∧ (c.free = true → b.free = true) := by
  unfold alloc at h
  split at h
  · rename_i hf
    cases h
    obtain ⟨c, ds, hc, _⟩ := carve_head hdr rest n b
    exact ⟨c, ds ++ bs, by rw [hc]; rfl, fun _ => hf.1⟩
  · obtain ⟨⟨q, ds⟩, _, he⟩ := Option.map_eq_some_iff.mp h
    cases he
    exact ⟨b, ds, rfl, id⟩

theorem merged_alloc {n a p : Nat} {bs cs : List Block} (hm : Merged bs)
    (h : alloc hdr rest n a bs = some (p, cs)) : Merged cs := by
  induction bs generalizing a cs with
  | nil => simp [alloc] at h
  | cons b bs ih =>
    unfold alloc at h
    split at h
    · rename_i hf
      cases h
      exact merged_carve hdr rest hf.1 hm
    · obtain ⟨⟨q, ds⟩, hd, he⟩ := Option.map_eq_some_iff.mp h
      cases he
      have hds := ih (merged_tail hm) hd
      cases bs with
      | nil => simp [alloc] at hd
      | cons c bs =>
        obtain ⟨d, es, rfl, hfree⟩ := alloc_head hdr rest hd
        have hbc := (List.isChain_cons_cons.mp hm).1
        exact List.isChain_cons_cons.mpr ⟨fun hf => hbc ⟨hf.1, hfree hf.2⟩, hds⟩

/-- Blocks that are all free and merged are one block. -/
theorem one_block_of_all_free {bs : List Block} (hm : Merged bs) (hf : ∀ b ∈ bs, b.free = true)
    (hne : bs ≠ []) : bs = [⟨span hdr bs - hdr, true⟩] := by
  match bs, hm, hf, hne with
  | [b], _, hf, _ =>
    obtain ⟨n, f⟩ := b
    have : f = true := hf _ List.mem_cons_self
    simp [span, this]
  | b :: c :: bs, hm, hf, _ =>
    exact absurd ⟨hf b (by simp), hf c (by simp)⟩ (List.isChain_cons_cons.mp hm).1

/-! ## The blocks in use -/

theorem used_append (a : Nat) (bs cs : List Block) :
    used hdr a (bs ++ cs) = used hdr a bs ++ used hdr (a + span hdr bs) cs := by
  induction bs generalizing a with
  | nil => simp [used, span]
  | cons b bs ih =>
    simp only [List.cons_append, used, ih, span, List.append_assoc]
    congr 3
    omega

theorem used_carve {n : Nat} (a : Nat) {b : Block} (hn : n ≤ b.size) :
    ∃ size, n ≤ size ∧ used hdr a (carve hdr rest n b) = [(a + hdr, size)] := by
  unfold carve
  split
  · exact ⟨n, Nat.le_refl n, by simp [used]⟩
  · exact ⟨b.size, hn, by simp [used]⟩

/-- A payload lies in the region, and past the header of its block. -/
theorem used_bounds {a : Nat} {bs : List Block} {x : Nat × Nat} (h : x ∈ used hdr a bs) :
    a + hdr ≤ x.1 ∧ x.1 + x.2 ≤ a + span hdr bs := by
  induction bs generalizing a with
  | nil => simp [used] at h
  | cons b bs ih =>
    rw [used, List.mem_append] at h
    simp only [span]
    rcases h with h | h
    · cases hf : b.free
      · simp only [hf, Bool.false_eq_true, if_false, List.mem_singleton] at h
        subst h
        exact ⟨Nat.le_refl _, by simp only; omega⟩
      · simp [hf] at h
    · have := ih h
      omega

/-- Merging joins free blocks only, so the used ones stay where they are. -/
theorem used_merge (a : Nat) (bs : List Block) : used hdr a (merge hdr bs) = used hdr a bs := by
  fun_induction merge hdr bs generalizing a with
  | case1 => rfl
  | case2 => rfl
  | case3 b c bs hf ih =>
    have e : a + hdr + b.size + hdr + c.size = a + hdr + (b.size + (hdr + c.size)) := by omega
    rw [ih]
    simp only [used, hf.1, hf.2, if_true, List.nil_append, e]
  | case4 b c bs _ ih => rw [used, ih]; rfl

/-- First fit adds one used block that is large enough, and keeps every other. -/
theorem mem_used_alloc {n a p : Nat} {bs cs : List Block}
    (h : alloc hdr rest n a bs = some (p, cs)) :
    ∃ size, n ≤ size ∧ ∀ x, x ∈ used hdr a cs ↔ x = (p, size) ∨ x ∈ used hdr a bs := by
  obtain ⟨pre, b, post, rfl, hb, hn, rfl, rfl⟩ := alloc_split hdr rest h
  obtain ⟨size, hle, hs⟩ := used_carve hdr rest (a + span hdr pre) hn
  have hspan : a + span hdr pre + (hdr + b.size) = a + span hdr pre + hdr + b.size := by omega
  refine ⟨size, hle, fun x => ?_⟩
  simp only [used_append, span_carve, hs, used, hb, if_true, List.nil_append, List.mem_append,
    List.mem_singleton, hspan]
  tauto

/-- The payload that first fit gives was not in use. -/
theorem alloc_fresh {n a p : Nat} {bs cs : List Block} (hpos : 0 < hdr)
    (h : alloc hdr rest n a bs = some (p, cs)) (size : Nat) : (p, size) ∉ used hdr a bs := by
  obtain ⟨pre, b, post, rfl, hb, _, rfl, _⟩ := alloc_split hdr rest h
  rw [used_append, used, hb]
  simp only [if_true, List.nil_append, List.mem_append, not_or]
  constructor
  · intro hu
    have := (used_bounds hdr hu).2
    simp only at this
    omega
  · intro hu
    have := (used_bounds hdr hu).1
    simp only at this
    omega

/-- A used block is one of the list, and releasing it sets that one free. -/
theorem release_split {a p size : Nat} {bs : List Block} (hpos : 0 < hdr)
    (h : (p, size) ∈ used hdr a bs) :
    ∃ pre post, bs = pre ++ ⟨size, false⟩ :: post ∧ p = a + span hdr pre + hdr ∧
      release hdr p a bs = pre ++ ⟨size, true⟩ :: post := by
  induction bs generalizing a with
  | nil => simp [used] at h
  | cons b bs ih =>
    obtain ⟨n, f⟩ := b
    rw [used, List.mem_append] at h
    rcases h with h | h
    · cases f
      · simp only [Bool.false_eq_true, if_false, List.mem_singleton, Prod.mk.injEq] at h
        obtain ⟨rfl, rfl⟩ := h
        exact ⟨[], bs, rfl, by simp [span], by simp [release]⟩
      · simp at h
    · obtain ⟨pre, post, rfl, hp, hr⟩ := ih h
      simp only at hp hr
      refine ⟨⟨n, f⟩ :: pre, post, rfl, by simp only [span]; omega, ?_⟩
      have hne : ¬p = a + hdr := by omega
      rw [release, if_neg hne, hr, List.cons_append]

theorem headers_append (a : Nat) (bs cs : List Block) :
    headers hdr a (bs ++ cs) = headers hdr a bs ++ headers hdr (a + span hdr bs) cs := by
  induction bs generalizing a with
  | nil => rfl
  | cons b bs ih =>
    have e : a + (hdr + b.size + span hdr bs) = a + hdr + b.size + span hdr bs := by omega
    rw [List.cons_append, headers, headers, ih, span, e, List.cons_append]

theorem headers_bounds {a : Nat} {bs : List Block} {y : Nat} (h : y ∈ headers hdr a bs) :
    a ≤ y ∧ y + hdr ≤ a + span hdr bs := by
  induction bs generalizing a with
  | nil => simp [headers] at h
  | cons b bs ih =>
    rw [headers, List.mem_cons] at h
    simp only [span]
    rcases h with rfl | h
    · omega
    · have := ih h
      omega

/-- The header of a payload in use lies in front of it. -/
theorem header_of_used {a p size : Nat} {bs : List Block} (hpos : 0 < hdr)
    (h : (p, size) ∈ used hdr a bs) : p - hdr ∈ headers hdr a bs := by
  obtain ⟨pre, post, rfl, rfl, -⟩ := release_split hdr hpos h
  rw [headers_append, Nat.add_sub_cancel, headers]
  exact List.mem_append_right _ List.mem_cons_self

/-- Releasing takes the one block at `p` from the used ones. -/
theorem mem_used_release {p a : Nat} {bs : List Block} {x : Nat × Nat} (hpos : 0 < hdr) :
    x ∈ used hdr a (release hdr p a bs) ↔ x ∈ used hdr a bs ∧ x.1 ≠ p := by
  induction bs generalizing a with
  | nil => simp [release, used]
  | cons b bs ih =>
    unfold release
    split
    · rename_i hp
      have hne : ∀ y ∈ used hdr (a + hdr + b.size) bs, y.1 ≠ p := fun y hy => by
        have := (used_bounds hdr hy).1
        omega
      cases hf : b.free
      · simp only [used, hf, if_true, List.nil_append, Bool.false_eq_true, if_false,
          List.mem_append, List.mem_singleton]
        constructor
        · exact fun h => ⟨Or.inr h, hne x h⟩
        · rintro ⟨rfl | h, hx⟩
          · exact absurd hp.symm hx
          · exact h
      · simp only [used, hf, if_true, List.nil_append]
        exact ⟨fun h => ⟨h, hne x h⟩, fun h => h.1⟩
    · rename_i hp
      rw [used, List.mem_append, ih, used, List.mem_append]
      constructor
      · rintro (h | h)
        · refine ⟨Or.inl h, ?_⟩
          cases hf : b.free
          · simp only [hf, Bool.false_eq_true, if_false, List.mem_singleton] at h
            subst h
            exact fun he => hp he.symm
          · simp [hf] at h
        · exact ⟨Or.inr h.1, h.2⟩
      · rintro ⟨h | h, hx⟩
        · exact Or.inl h
        · exact Or.inr ⟨h, hx⟩

/-- Two payloads in use are apart, with the header of the later one between them. -/
theorem used_pairwise (a : Nat) (bs : List Block) :
    (used hdr a bs).Pairwise fun x y => x.1 + x.2 + hdr ≤ y.1 := by
  induction bs generalizing a with
  | nil => exact List.Pairwise.nil
  | cons b bs ih =>
    rw [used, List.pairwise_append]
    refine ⟨?_, ih _, ?_⟩
    · split
      · exact List.Pairwise.nil
      · exact List.pairwise_singleton _ _
    · intro x hx y hy
      have hy' := used_bounds hdr hy
      cases hf : b.free
      · simp only [hf, Bool.false_eq_true, if_false, List.mem_singleton] at hx
        subst hx
        exact hy'.1
      · simp [hf] at hx

theorem used_disjoint {a : Nat} {bs : List Block} {x y : Nat × Nat} (hx : x ∈ used hdr a bs)
    (hy : y ∈ used hdr a bs) (hne : x.1 ≠ y.1) : x.1 + x.2 ≤ y.1 ∨ y.1 + y.2 ≤ x.1 := by
  have hp := used_pairwise hdr a bs
  refine List.Pairwise.forall_of_forall_of_flip
    (R := fun x y => x.1 ≠ y.1 → x.1 + x.2 ≤ y.1 ∨ y.1 + y.2 ≤ x.1)
    (fun _ _ h => absurd rfl h) (hp.imp ?_) (hp.imp ?_) hx hy hne
  · intro x y h _
    left
    omega
  · intro x y h _
    right
    omega

/-- The blocks in use with `n` bytes or more take no more than all the space. -/
theorem length_used_mul_le (n a : Nat) (bs : List Block) :
    ((used hdr a bs).filter fun x => n ≤ x.2).length * (hdr + n) ≤ span hdr bs := by
  induction bs generalizing a with
  | nil => simp [used]
  | cons b bs ih =>
    have hrest := ih (a + hdr + b.size)
    rw [used, List.filter_append, List.length_append, Nat.add_mul, span]
    have hone : ((if b.free then [] else [(a + hdr, b.size)]).filter
        fun x => decide (n ≤ x.2)).length * (hdr + n) ≤ hdr + b.size := by
      cases b.free
      · by_cases hn : n ≤ b.size
        · simp [hn]
        · simp [hn]
      · simp
    omega

/-- So there are not many pointers to as many bytes. -/
theorem length_mul_le {n a : Nat} {bs : List Block} {l : List Nat} (hl : l.Nodup)
    (h : ∀ p ∈ l, ∃ size, n ≤ size ∧ (p, size) ∈ used hdr a bs) :
    l.length * (hdr + n) ≤ span hdr bs := by
  have hsub : l ⊆ ((used hdr a bs).filter fun x => n ≤ x.2).map Prod.fst := fun p hp => by
    obtain ⟨size, hn, hu⟩ := h p hp
    exact List.mem_map.mpr ⟨(p, size), List.mem_filter.mpr ⟨hu, decide_eq_true hn⟩, rfl⟩
  have hle := (hl.subperm hsub).length_le
  rw [List.length_map] at hle
  exact (Nat.mul_le_mul_right _ hle).trans (length_used_mul_le hdr n a bs)

/-- No payload in use meets a header. -/
theorem used_headers_disjoint {a : Nat} {bs : List Block} {x : Nat × Nat} {y : Nat}
    (hx : x ∈ used hdr a bs) (hy : y ∈ headers hdr a bs) : y + hdr ≤ x.1 ∨ x.1 + x.2 ≤ y := by
  induction bs generalizing a with
  | nil => simp [headers] at hy
  | cons b bs ih =>
    rw [used, List.mem_append] at hx
    rw [headers, List.mem_cons] at hy
    rcases hy with rfl | hy
    · left
      rcases hx with hx | hx
      · cases hf : b.free
        · simp only [hf, Bool.false_eq_true, if_false, List.mem_singleton] at hx
          subst hx
          exact Nat.le_refl _
        · simp [hf] at hx
      · have := used_bounds hdr hx
        omega
    · rcases hx with hx | hx
      · right
        cases hf : b.free
        · simp only [hf, Bool.false_eq_true, if_false, List.mem_singleton] at hx
          subst hx
          exact (headers_bounds hdr hy).1
        · simp [hf] at hx
      · exact ih hx hy

end Lib.BlockList
