-- The lines of a text, each of which ends with a separator or with the text, and what is left of
-- them where the text is cut at the first occurrence of another character; and its words.
import Mathlib.Data.List.Infix
import Mathlib.Data.List.TakeWhile

namespace Lib.Lines

variable {α : Type} [DecidableEq α] {nl z : α} {l s t : List α}

/-- A character in front of the first line. -/
def attach (c : α) : List (List α) → List (List α)
  | [] => [[c]]
  | l :: ls => (c :: l) :: ls

/-- The lines of a text. A separator at its end begins no other line. -/
def lines (nl : α) : List α → List (List α)
  | [] => []
  | c :: s => if c = nl then [] :: lines nl s else attach c (lines nl s)

theorem lines_nl (s : List α) : lines nl (nl :: s) = [] :: lines nl s := if_pos rfl

theorem lines_cons {c : α} (h : c ≠ nl) (s : List α) : lines nl (c :: s) = attach c (lines nl s) :=
  if_neg h

/-- A first line that ends with a separator. -/
theorem lines_append_nl (h : nl ∉ l) (s : List α) : lines nl (l ++ nl :: s) = l :: lines nl s := by
  induction l with
  | nil => exact lines_nl s
  | cons c l ih =>
    obtain ⟨hc, hl⟩ := List.ne_and_not_mem_of_not_mem_cons h
    rw [List.cons_append, lines_cons (Ne.symm hc), ih hl]
    rfl

/-- A text without separators is one line. -/
theorem lines_of_not_mem (h : nl ∉ l) (hne : l ≠ []) : lines nl l = [l] := by
  induction l with
  | nil => exact absurd rfl hne
  | cons c l ih =>
    obtain ⟨hc, hl⟩ := List.ne_and_not_mem_of_not_mem_cons h
    rw [lines_cons (Ne.symm hc)]
    rcases eq_or_ne l [] with rfl | hne'
    · rfl
    · rw [ih hl hne']
      rfl

/-- The characters of a line are characters of the text. -/
theorem not_mem_of_mem_lines (h : z ∉ s) (hl : l ∈ lines nl s) : z ∉ l := by
  induction s generalizing l with
  | nil => exact absurd hl List.not_mem_nil
  | cons c s ih =>
    obtain ⟨hc, hs⟩ := List.ne_and_not_mem_of_not_mem_cons h
    by_cases hn : c = nl
    · rw [hn, lines_nl] at hl
      rcases List.mem_cons.mp hl with rfl | hl
      · exact List.not_mem_nil
      · exact ih hs hl
    · rw [lines_cons hn] at hl
      cases hls : lines nl s with
      | nil =>
        rw [hls] at hl
        rw [List.mem_singleton.mp hl]
        exact fun hz => hc (List.mem_singleton.mp hz)
      | cons l' ls =>
        rw [hls] at hl
        rcases List.mem_cons.mp hl with rfl | hl
        · exact List.not_mem_cons_of_ne_of_not_mem hc (ih hs (hls ▸ List.mem_cons_self))
        · exact ih hs (hls ▸ List.mem_cons_of_mem _ hl)

/-! ## A text that is cut -/

/-- A text and its part in front of a `z`: the lines are the same up to the one with the `z`, of
which the part has a beginning, or nothing. -/
structure Cut (nl z : α) (t s : List α) (before last : List (List α)) (l : List α)
    (after : List (List α)) : Prop where
  part : lines nl t = before ++ last
  text : lines nl (t ++ z :: s) = before ++ l :: after
  mem : z ∈ l
  before_clean : ∀ x ∈ before, z ∉ x
  last_eq : last = [] ∨ ∃ a, last = [a] ∧ a <+: l ∧ z ∉ a

section Cut

variable {before last after : List (List α)}

theorem cut_nil (hz : z ≠ nl) (s : List α) : ∃ l after, Cut nl z [] s [] [] l after := by
  cases hls : lines nl s with
  | nil =>
    refine ⟨[z], [], rfl, ?_, List.mem_singleton.mpr rfl, nofun, Or.inl rfl⟩
    rw [List.nil_append, lines_cons hz, hls]
    rfl
  | cons l ls =>
    refine ⟨z :: l, ls, rfl, ?_, List.mem_cons_self, nofun, Or.inl rfl⟩
    rw [List.nil_append, lines_cons hz, hls]
    rfl

/-- An empty line in front. -/
theorem Cut.nl_cons (h : Cut nl z t s before last l after) :
    Cut nl z (nl :: t) s ([] :: before) last l after where
  part := by rw [lines_nl, h.part, List.cons_append]
  text := by rw [List.cons_append, lines_nl, h.text, List.cons_append]
  mem := h.mem
  before_clean x hx := by
    rcases List.mem_cons.mp hx with rfl | hx
    · exact List.not_mem_nil
    · exact h.before_clean x hx
  last_eq := h.last_eq

/-- A character in front of the first line. -/
theorem Cut.cons {c : α} (h : Cut nl z t s before last l after) (hn : c ≠ nl) (hc : z ≠ c) :
    ∃ before last l, Cut nl z (c :: t) s before last l after := by
  have hpart : lines nl (c :: t) = attach c (before ++ last) := by rw [lines_cons hn, h.part]
  have htext : lines nl (c :: t ++ z :: s) = attach c (before ++ l :: after) := by
    rw [List.cons_append, lines_cons hn, h.text]
  cases before with
  | cons b before =>
    refine ⟨(c :: b) :: before, last, l, hpart, htext, h.mem, fun x hx => ?_, h.last_eq⟩
    rcases List.mem_cons.mp hx with rfl | hx
    · exact List.not_mem_cons_of_ne_of_not_mem hc (h.before_clean b List.mem_cons_self)
    · exact h.before_clean x (List.mem_cons_of_mem b hx)
  | nil =>
    -- The line with the `z` begins with this character.
    have hmem := List.mem_cons_of_mem c h.mem
    rcases h.last_eq with rfl | ⟨a, rfl, ha, hza⟩
    · exact ⟨[], [[c]], c :: l, hpart, htext, hmem, nofun, Or.inr ⟨[c], rfl,
        List.prefix_append [c] l, fun hz => hc (List.mem_singleton.mp hz)⟩⟩
    · exact ⟨[], [c :: a], c :: l, hpart, htext, hmem, nofun, Or.inr ⟨c :: a, rfl,
        List.cons_prefix_cons.mpr ⟨rfl, ha⟩, List.not_mem_cons_of_ne_of_not_mem hc hza⟩⟩

theorem exists_cut (hz : z ≠ nl) (ht : z ∉ t) (s : List α) :
    ∃ before last l after, Cut nl z t s before last l after := by
  induction t with
  | nil => exact ⟨[], [], cut_nil hz s⟩
  | cons c t ih =>
    obtain ⟨hc, ht'⟩ := List.ne_and_not_mem_of_not_mem_cons ht
    obtain ⟨before, last, l, after, h⟩ := ih ht'
    by_cases hn : c = nl
    · rw [hn]
      exact ⟨_, _, _, _, h.nl_cons⟩
    · obtain ⟨before, last, l, h⟩ := h.cons hn hc
      exact ⟨before, last, l, after, h⟩

end Cut

/-- No line with `p` has a `z`, and no line in front of one. -/
def CleanUpTo (z : α) (p : List α → Bool) (ls : List (List α)) : Prop :=
  ∀ before l after, ls = before ++ l :: after → p l = true → z ∉ l ∧ ∀ x ∈ before, z ∉ x

theorem cleanUpTo_of_not_mem {p : List α → Bool} (hs : z ∉ s) : CleanUpTo z p (lines nl s) := by
  intro before l after hls _
  have hmem : ∀ x ∈ lines nl s, z ∉ x := fun x hx => not_mem_of_mem_lines hs hx
  rw [hls] at hmem
  exact ⟨hmem l (List.mem_append_right _ List.mem_cons_self),
    fun x hx => hmem x (List.mem_append_left _ hx)⟩

section Filter

variable {before last after : List (List α)} {p : List α → Bool}

omit [DecidableEq α] in
/-- Behind lines without a `z` there is one with it: no line has `p` from there on. -/
theorem cleanUpTo_append_iff (hbefore : ∀ x ∈ before, z ∉ x) (hl : z ∈ l) :
    CleanUpTo z p (before ++ l :: after) ↔ (l :: after).filter p = [] := by
  constructor
  · intro h
    refine List.filter_eq_nil_iff.mpr fun x hx hpx => ?_
    obtain ⟨c, d, hcd⟩ := List.append_of_mem hx
    have hx' := h (before ++ c) x d (by rw [hcd, List.append_assoc]) hpx
    cases c with
    | nil =>
      obtain rfl := (List.cons.inj hcd).1
      exact hx'.1 hl
    | cons y c =>
      obtain rfl := (List.cons.inj hcd).1
      exact hx'.2 l (List.mem_append_right _ List.mem_cons_self) hl
  · intro hnone pre x post hls hx
    have hno : x ∉ l :: after := fun hmem => List.filter_eq_nil_iff.mp hnone x hmem hx
    rcases List.append_eq_append_iff.mp hls with ⟨c, -, hc⟩ | ⟨c, rfl, hc⟩
    · refine absurd ?_ hno
      rw [hc]
      exact List.mem_append_right _ List.mem_cons_self
    · cases c with
      | nil =>
        refine absurd ?_ hno
        rw [← List.nil_append (l :: after), ← hc]
        exact List.mem_cons_self
      | cons y c =>
        obtain rfl := (List.cons.inj hc).1
        exact ⟨hbefore x (List.mem_append_right _ List.mem_cons_self),
          fun w hw => hbefore w (List.mem_append_left _ hw)⟩

/-- What is left of the line with the `z` is not that line: the lines with `p` are the same only
without one from there on. -/
theorem Cut.filter_eq_iff (h : Cut nl z t s before last l after)
    (hp : ∀ a b, a <+: b → p a = true → p b = true) :
    last.filter p = (l :: after).filter p ↔ (l :: after).filter p = [] := by
  rcases h.last_eq with rfl | ⟨a, rfl, ha, hza⟩
  · exact eq_comm
  · by_cases hpa : p a = true
    · have hpl := hp a l ha hpa
      rw [List.filter_cons_of_pos hpa, List.filter_cons_of_pos hpl]
      exact iff_of_false (fun heq => hza ((List.cons.inj heq).1 ▸ h.mem)) (List.cons_ne_nil _ _)
    · rw [List.filter_cons_of_neg hpa, List.filter_nil]
      exact eq_comm

/-- Up to the first `z` there are the same lines with `p`, where `p` holds of every line that begins
with one that has it, exactly if there is no `z` up to the last of them. -/
theorem filter_lines_takeWhile_iff (hp : ∀ a b, a <+: b → p a = true → p b = true)
    (hz : z ≠ nl) (s : List α) :
    (lines nl (s.takeWhile (· ≠ z))).filter p = (lines nl s).filter p ↔
      CleanUpTo z p (lines nl s) := by
  by_cases hs : z ∈ s
  · obtain ⟨t, r, rfl, ht⟩ := List.eq_append_cons_of_mem hs
    have htake : (t ++ z :: r).takeWhile (· ≠ z) = t := by
      have hpos : ∀ a ∈ t, decide (a ≠ z) = true := fun a ha =>
        decide_eq_true fun he => ht (he ▸ ha)
      rw [List.takeWhile_append_of_pos hpos, List.takeWhile_cons_of_neg (by simp), List.append_nil]
    obtain ⟨before, last, l, after, h⟩ := exists_cut hz ht r
    rw [htake, h.part, h.text, List.filter_append, List.filter_append, List.append_cancel_left_eq,
      h.filter_eq_iff hp, cleanUpTo_append_iff h.before_clean h.mem]
  · have htake : s.takeWhile (· ≠ z) = s :=
      List.takeWhile_eq_self_iff.mpr fun x hx => decide_eq_true fun he => hs (he ▸ hx)
    rw [htake]
    exact iff_of_true rfl (cleanUpTo_of_not_mem hs)

end Filter

/-! ## Words -/

/-- The words of a text: what stands between the separators, where it is not empty. -/
def words (sp : α) (s : List α) : List (List α) := (s.splitOn sp).filter (· ≠ [])

section Words

variable {sp : α}

theorem words_nil (sp : α) : words sp [] = [] := rfl

/-- A separator in front. -/
theorem words_cons_self (sp : α) (s : List α) : words sp (sp :: s) = words sp s := by
  unfold words
  rw [← List.nil_append (sp :: s), List.splitOn_append_cons_self_of_not_mem List.not_mem_nil]
  rfl

theorem words_append (h : ∀ c ∈ l, c = sp) (s : List α) : words sp (l ++ s) = words sp s := by
  induction l with
  | nil => rfl
  | cons c l ih =>
    rw [h c List.mem_cons_self, List.cons_append, words_cons_self]
    exact ih fun b hb => h b (List.mem_cons_of_mem c hb)

/-- A first word that ends with a separator. -/
theorem words_append_cons (h : sp ∉ l) (hne : l ≠ []) (s : List α) :
    words sp (l ++ sp :: s) = l :: words sp s := by
  unfold words
  rw [List.splitOn_append_cons_self_of_not_mem h, List.filter_cons_of_pos (by simpa using hne)]

/-- A text without separators is one word. -/
theorem words_of_not_mem (h : sp ∉ l) (hne : l ≠ []) : words sp l = [l] := by
  unfold words
  rw [List.splitOn_eq_singleton h, List.filter_cons_of_pos (by simpa using hne), List.filter_nil]

theorem words_of_forall_eq (h : ∀ c ∈ s, c = sp) : words sp s = [] := by
  rw [← List.append_nil s, words_append h, words_nil]

/-- The first word of a text: separators, the word, and what is left. -/
structure FirstWord (sp : α) (s l w r : List α) : Prop where
  text : s = l ++ (w ++ r)
  blanks : ∀ c ∈ l, c = sp
  not_mem : sp ∉ w
  ne_nil : w ≠ []
  rest : r = [] ∨ ∃ r', r = sp :: r'

theorem FirstWord.words_eq {w r : List α} (h : FirstWord sp s l w r) :
    words sp s = w :: words sp r := by
  rw [h.text, words_append h.blanks]
  rcases h.rest with rfl | ⟨r', rfl⟩
  · rw [List.append_nil, words_of_not_mem h.not_mem h.ne_nil, words_nil]
  · rw [words_append_cons h.not_mem h.ne_nil, words_cons_self]

/-- A text has a first word, or it is separators only. -/
theorem exists_firstWord (sp : α) (s : List α) :
    (∀ c ∈ s, c = sp) ∨ ∃ l w r, FirstWord sp s l w r := by
  induction s with
  | nil => exact .inl fun c hc => absurd hc List.not_mem_nil
  | cons c s ih =>
    by_cases hc : c = sp
    · rcases ih with hs | ⟨l, w, r, h⟩
      · exact .inl (List.forall_mem_cons.mpr ⟨hc, hs⟩)
      · exact .inr ⟨c :: l, w, r, congrArg (c :: ·) h.text, List.forall_mem_cons.mpr ⟨hc, h.blanks⟩,
          h.not_mem, h.ne_nil, h.rest⟩
    · right
      by_cases hs : sp ∈ c :: s
      · obtain ⟨w, r, hw, hno⟩ := List.eq_append_cons_of_mem hs
        refine ⟨[], w, sp :: r, hw, nofun, hno, ?_, .inr ⟨r, rfl⟩⟩
        rintro rfl
        exact hc (List.cons.inj hw).1
      · exact ⟨[], c :: s, [], (List.append_nil _).symm, nofun, hs, List.cons_ne_nil c s, .inl rfl⟩

end Words

end Lib.Lines
