-- Printing the end of the audit log (audit_dump): three passes over the first 4095 bytes of the file,
-- and when they show the newest lines.
import Mathlib.Data.List.Basic
import Mathlib.Data.List.Flatten

namespace SpaceOS.Audit

/-- What goes to the shell. -/
inductive Saida
  | log_vazio                     -- shell_writeln("(log vazio)")
  | writeln                       -- shell_writeln("")
  | write_char (c : UInt8)

/-- `sizeof(buf) - 1`. -/
def JANELA : Nat := 4095

/-- The pass that looks for the start: `i` and `seen` are as in the code, and the result is 0 where
the loop ends without a match. -/
def acha_inicio (skip : Int) : List UInt8 → Nat → Int → Nat
  | [], _, _ => 0
  | b :: buf, i, seen =>
    if b = 10 then
      if seen + 1 = skip then i + 1 else acha_inicio skip buf (i + 1) (seen + 1)
    else acha_inicio skip buf (i + 1) seen

/-- `arquivo` are the bytes of the log, none where `vfs_read` fails. -/
def audit_dump (arquivo : Option (List UInt8)) (n_lines : Int) : List Saida :=
  match arquivo with
  | none => [.log_vazio]
  | some bytes =>
    let buf := bytes.take JANELA
    if buf.length = 0 then [.log_vazio]
    else
      let total : Int := buf.count 10
      let skip := if total - n_lines < 0 then 0 else total - n_lines
      let start := acha_inicio skip buf 0 0
      (buf.drop start).map fun b => if b = 10 then .writeln else .write_char b

/-- The bytes of the log that the shell shows; the message about an empty log is none of them. -/
def mostrado (s : List Saida) : List UInt8 :=
  s.flatMap fun
    | .log_vazio => []
    | .writeln => [10]
    | .write_char c => [c]

/-! ## Lines -/

section Linhas

variable {ls ms : List (List UInt8)} {parte : List UInt8} {n : Nat}

/-- The lines as a text, each with its newline. -/
def em_texto (ls : List (List UInt8)) : List UInt8 := ls.flatMap (· ++ [10])

/-- No line has a newline in it. -/
def SaoLinhas (ls : List (List UInt8)) : Prop := ∀ l ∈ ls, (10 : UInt8) ∉ l

instance (ls : List (List UInt8)) : Decidable (SaoLinhas ls) :=
  inferInstanceAs (Decidable (∀ l ∈ ls, _))

/-- The last `n` lines, or all of them. -/
def ultimas (n : Nat) (ls : List (List UInt8)) : List (List UInt8) := ls.drop (ls.length - n)

@[simp] theorem em_texto_nil : em_texto [] = [] := rfl

theorem em_texto_cons (l : List UInt8) (ls : List (List UInt8)) :
    em_texto (l :: ls) = l ++ 10 :: em_texto ls := by
  unfold em_texto
  rw [List.flatMap_cons, List.append_assoc]
  rfl

theorem em_texto_eq_nil (h : em_texto ls = []) : ls = [] := by
  cases ls with
  | nil => rfl
  | cons l ls =>
    rw [em_texto_cons] at h
    exact absurd h (by simp)

theorem em_texto_append (ls ms : List (List UInt8)) :
    em_texto (ls ++ ms) = em_texto ls ++ em_texto ms := List.flatMap_append

theorem SaoLinhas.tail {l : List UInt8} (h : SaoLinhas (l :: ls)) : SaoLinhas ls :=
  fun m hm => h m (List.mem_cons_of_mem _ hm)

theorem SaoLinhas.sublista (h : SaoLinhas ls) (hs : ms ⊆ ls) : SaoLinhas ms :=
  fun m hm => h m (hs hm)

theorem mostrado_map (bs : List UInt8) :
    mostrado (bs.map fun b => if b = 10 then .writeln else .write_char b) = bs := by
  induction bs with
  | nil => rfl
  | cons b bs ih =>
    unfold mostrado at ih ⊢
    rw [List.map_cons, List.flatMap_cons, ih]
    by_cases hb : b = 10
    · rw [if_pos hb, hb]
      rfl
    · rw [if_neg hb]
      rfl

theorem count_em_texto (h : SaoLinhas ls) : (em_texto ls).count 10 = ls.length := by
  induction ls with
  | nil => rfl
  | cons l ls ih =>
    rw [em_texto_cons, List.count_append, List.count_cons_self, ih h.tail,
      List.count_eq_zero.mpr (h l List.mem_cons_self), List.length_cons]
    omega

/-- A text has one reading as lines with a rest. -/
theorem em_texto_unico {ms : List (List UInt8)} (h : SaoLinhas ls) (h' : SaoLinhas ms)
    (hp : (10 : UInt8) ∉ parte) (he : em_texto ls ++ parte = em_texto ms) : ls = ms ∧ parte = [] := by
  induction ls generalizing ms with
  | nil =>
    cases ms with
    | nil => exact ⟨rfl, he⟩
    | cons m ms =>
      rw [em_texto_nil, List.nil_append, em_texto_cons] at he
      exact absurd (he ▸ List.mem_append_right _ List.mem_cons_self) hp
  | cons l ls ih =>
    rw [em_texto_cons, List.append_assoc, List.cons_append] at he
    cases ms with
    | nil => exact absurd he (by simp)
    | cons m ms =>
      rw [em_texto_cons] at he
      have hl := h l List.mem_cons_self
      have hm := h' m List.mem_cons_self
      -- the first newline of the text ends the first line of both
      obtain ⟨hlm, hrest⟩ : l = m ∧ em_texto ls ++ parte = em_texto ms := by
        rcases List.append_eq_append_iff.mp he with ⟨as, rfl, has⟩ | ⟨bs, rfl, hbs⟩
        · cases as with
          | nil => exact ⟨(List.append_nil _).symm, (List.cons.inj has).2⟩
          | cons a as =>
            obtain ⟨rfl, _⟩ := List.cons.inj has
            exact absurd (List.mem_append_right _ List.mem_cons_self) hm
        · cases bs with
          | nil => exact ⟨List.append_nil _, (List.cons.inj hbs).2.symm⟩
          | cons b bs =>
            obtain ⟨rfl, _⟩ := List.cons.inj hbs
            exact absurd (List.mem_append_right _ List.mem_cons_self) hl
      obtain ⟨rfl, rfl⟩ := ih h.tail h'.tail hrest
      exact ⟨congrArg (· :: ls) hlm, rfl⟩

/-- The beginning of a text is its first lines and a part of the next one. -/
theorem inicio_do_texto (h : SaoLinhas ls) (k : Nat) : ∃ j parte, j ≤ ls.length ∧
    (em_texto ls).take k = em_texto (ls.take j) ++ parte ∧ (10 : UInt8) ∉ parte ∧
    (j = ls.length → parte = []) := by
  induction ls generalizing k with
  | nil => exact ⟨0, [], Nat.le_refl 0, by simp, List.not_mem_nil, fun _ => rfl⟩
  | cons l ls ih =>
    rw [em_texto_cons]
    by_cases hk : k ≤ l.length
    · refine ⟨0, l.take k, Nat.zero_le _, ?_, ?_, fun h0 => absurd h0 (by simp)⟩
      · rw [List.take_append_of_le_length hk, List.take_zero]
        rfl
      · exact fun hm => h l List.mem_cons_self (List.mem_of_mem_take hm)
    · obtain ⟨j, parte, hj, he, hp, hfim⟩ := ih h.tail (k - l.length - 1)
      refine ⟨j + 1, parte, by rw [List.length_cons]; omega, ?_, hp, fun hj' => ?_⟩
      · obtain ⟨m, hm⟩ : ∃ m, k - l.length = m + 1 := ⟨k - l.length - 1, by omega⟩
        rw [hm, Nat.add_sub_cancel] at he
        rw [List.take_append, hm, List.take_of_length_le (by omega), List.take_succ_cons, he,
          List.take_succ_cons, em_texto_cons, List.append_assoc]
        rfl
      · rw [List.length_cons] at hj'
        exact hfim (by omega)

end Linhas

/-! ## The dump -/

section Janela

variable {ls : List (List UInt8)} {parte : List UInt8} {n : Nat}

/-- No newline has the number 0. -/
theorem acha_inicio_zero (bs : List UInt8) (i seen : Nat) : acha_inicio 0 bs i seen = 0 := by
  induction bs generalizing i seen with
  | nil => rfl
  | cons b bs ih =>
    rw [acha_inicio]
    split
    · rw [if_neg (by omega)]
      exact ih (i + 1) (seen + 1)
    · exact ih (i + 1) seen

/-- Up to a newline the pass only counts bytes. -/
theorem acha_inicio_linha (skip : Int) {l : List UInt8} (hl : (10 : UInt8) ∉ l)
    (rest : List UInt8) (i seen : Nat) : acha_inicio skip (l ++ 10 :: rest) i seen =
      if (seen : Int) + 1 = skip then i + l.length + 1
      else acha_inicio skip rest (i + l.length + 1) (seen + 1) := by
  induction l generalizing i with
  | nil =>
    rw [List.nil_append, acha_inicio, if_pos rfl]
    rfl
  | cons b l ih =>
    have hb : b ≠ 10 := fun hb => hl (hb ▸ List.mem_cons_self)
    rw [List.cons_append, acha_inicio, if_neg hb, ih fun hm => hl (List.mem_cons_of_mem _ hm),
      List.length_cons, show i + 1 + l.length + 1 = i + (l.length + 1) + 1 by omega]

/-- The pass finds the byte behind the newline number `skip`. -/
theorem acha_inicio_eq (h : SaoLinhas ls) (skip i seen : Nat) (hs : seen < skip)
    (hle : skip ≤ seen + ls.length) :
    acha_inicio skip (em_texto ls ++ parte) i seen =
      i + (em_texto (ls.take (skip - seen))).length := by
  induction ls generalizing i seen with
  | nil =>
    rw [List.length_nil] at hle
    omega
  | cons l ls ih =>
    rw [List.length_cons] at hle
    obtain ⟨m, hm⟩ : ∃ m, skip - seen = m + 1 := ⟨skip - seen - 1, by omega⟩
    rw [em_texto_cons, List.append_assoc, List.cons_append, acha_inicio_linha _ (h l List.mem_cons_self),
      hm, List.take_succ_cons, em_texto_cons, List.length_append, List.length_cons]
    by_cases hlast : seen + 1 = skip
    · obtain rfl : m = 0 := by omega
      rw [if_pos (by omega), List.take_zero, em_texto_nil, List.length_nil]
      omega
    · have he := ih h.tail (i + l.length + 1) (seen + 1) (by omega) (by omega)
      rw [show skip - (seen + 1) = m by omega] at he
      rw [if_neg (by omega)]
      rw [Int.natCast_succ] at he
      rw [he]
      omega

/-- What is shown of a file: the last lines of the window, and the part of a line at its end. -/
theorem mostrado_janela {bytes : List UInt8} (h : SaoLinhas ls) (hp : (10 : UInt8) ∉ parte)
    (he : bytes.take JANELA = em_texto ls ++ parte) :
    mostrado (audit_dump (some bytes) n) = em_texto (ultimas n ls) ++ parte := by
  have hcount : (em_texto ls ++ parte).count 10 = ls.length := by
    rw [List.count_append, count_em_texto h, List.count_eq_zero.mpr hp, Nat.add_zero]
  unfold audit_dump
  dsimp only
  rw [he]
  by_cases h0 : (em_texto ls ++ parte).length = 0
  · have hnil := List.length_eq_zero_iff.mp h0
    obtain ⟨htexto, rfl⟩ := List.append_eq_nil_iff.mp hnil
    obtain rfl := em_texto_eq_nil htexto
    rw [if_pos h0]
    unfold ultimas
    rw [List.drop_nil]
    rfl
  rw [if_neg h0, mostrado_map, hcount]
  have hskip : (if (ls.length : Int) - (n : Int) < 0 then 0 else (ls.length : Int) - (n : Int)) =
      ((ls.length - n : Nat) : Int) := by
    split
    · omega
    · omega
  rw [hskip]
  unfold ultimas
  by_cases hs : ls.length - n = 0
  · -- nothing is left out
    have hz : acha_inicio 0 (em_texto ls ++ parte) 0 0 = 0 := acha_inicio_zero _ 0 0
    rw [hs, Int.natCast_zero, hz]
    rfl
  · have hi : acha_inicio ((ls.length - n : Nat) : Int) (em_texto ls ++ parte) 0 0 = _ :=
      acha_inicio_eq h (ls.length - n) 0 0 (by omega) (by omega)
    rw [Nat.sub_zero, Nat.zero_add] at hi
    rw [hi]
    have hsplit : em_texto ls = em_texto (ls.take (ls.length - n)) ++
        em_texto (ls.drop (ls.length - n)) := by
      rw [← em_texto_append, List.take_append_drop]
    conv_lhs => rw [hsplit]
    rw [List.append_assoc, List.drop_left']
    rfl

/-- The log is shown as it should be: its last lines and nothing else. -/
def MostraAsUltimas (ls : List (List UInt8)) (n : Nat) : Prop :=
  mostrado (audit_dump (some (em_texto ls)) n) = em_texto (ultimas n ls)

/-- The dump shows the newest lines exactly where the log fits its window of 4095 bytes, or the window
ends with a line and its last `n_lines` lines happen to read like those of the log. -/
theorem the_newest_lines_are_shown_iff (ls : List (List UInt8)) (h : SaoLinhas ls) (n : Nat) :
    MostraAsUltimas ls n ↔ (em_texto ls).length ≤ JANELA ∨
      ∃ k, em_texto (ls.take k) = (em_texto ls).take JANELA ∧ n ≤ k ∧ k ≤ ls.length ∧
        ultimas n (ls.take k) = ultimas n ls := by
  obtain ⟨k, parte, hk, he, hp, hfim⟩ := inicio_do_texto h JANELA
  have htake : SaoLinhas (ls.take k) := h.sublista (List.take_subset _ _)
  unfold MostraAsUltimas
  rw [mostrado_janela htake hp he]
  by_cases hle : (em_texto ls).length ≤ JANELA
  · refine iff_of_true ?_ (Or.inl hle)
    rw [List.take_of_length_le hle] at he
    obtain ⟨hls, rfl⟩ := em_texto_unico htake h hp he.symm
    rw [hls, List.append_nil]
  rw [or_iff_right hle]
  have hlen : (ls.take k).length = k := by
    rw [List.length_take]
    omega
  constructor
  · intro heq
    obtain ⟨hult, rfl⟩ := em_texto_unico (htake.sublista (List.drop_subset _ _))
      (h.sublista (List.drop_subset _ _)) hp heq
    rw [List.append_nil] at he
    refine ⟨k, he.symm, ?_, hk, hult⟩
    -- the log has more lines than the window
    have hlt : k < ls.length := by
      rcases Nat.lt_or_eq_of_le hk with hlt | rfl
      · exact hlt
      · rw [List.take_length] at he
        have := congrArg List.length he
        rw [List.length_take] at this
        omega
    have := congrArg List.length hult
    rw [List.length_drop, List.length_drop, hlen] at this
    omega
  · rintro ⟨k', he', _, _, hult⟩
    obtain ⟨hkk, rfl⟩ := em_texto_unico htake (h.sublista (List.take_subset k' ls)) hp
      (he.symm.trans he'.symm)
    rw [List.append_nil, hkk, hult]

/-- Two short lines and the last of them. -/
theorem the_last_of_two_lines_is_shown : MostraAsUltimas [[65], [66]] 1 :=
  (the_newest_lines_are_shown_iff [[65], [66]] (by decide) 1).mpr (Or.inl (by decide))

/-- Nothing behind the window is shown. -/
theorem mostrado_subset (bytes : List UInt8) (n : Int) :
    mostrado (audit_dump (some bytes) n) ⊆ bytes.take JANELA := by
  unfold audit_dump
  dsimp only
  split
  · exact List.nil_subset _
  · rw [mostrado_map]
    exact List.drop_subset _ _

/-- Eighty lines of 60 bytes and a new one. -/
def log_longo : List (List UInt8) := List.replicate 80 (List.replicate 59 65) ++ [[66]]

/-- The newest line of a log of 4802 bytes is not shown. -/
theorem the_newest_line_is_not_shown : SaoLinhas log_longo ∧ ¬ MostraAsUltimas log_longo 1 := by
  have hbytes : ∀ b ∈ em_texto (List.replicate 80 (List.replicate 59 65)), b = 65 ∨ b = 10 := by
    intro b hb
    obtain ⟨l, hl, hb⟩ := List.mem_flatMap.mp hb
    rw [List.eq_of_mem_replicate hl] at hb
    rcases List.mem_append.mp hb with hb | hb
    · exact Or.inl (List.eq_of_mem_replicate hb)
    · exact Or.inr (List.mem_singleton.mp hb)
  have hlen : (em_texto (List.replicate 80 (List.replicate 59 65))).length = 4800 := by
    decide +kernel
  refine ⟨by decide +kernel, fun h => ?_⟩
  have hmem : (66 : UInt8) ∈ em_texto (ultimas 1 log_longo) := by decide +kernel
  rw [← h] at hmem
  have hjanela := mostrado_subset _ _ hmem
  unfold log_longo at hjanela
  rw [em_texto_append, List.take_append_of_le_length (by rw [hlen]; decide)] at hjanela
  rcases hbytes 66 (List.mem_of_mem_take hjanela) with hb | hb
  · exact absurd hb (by decide)
  · exact absurd hb (by decide)

end Janela

end SpaceOS.Audit
