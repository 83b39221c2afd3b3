-- How the shell splits a line into the words of a command (`parser`, kernel/shell/shell.c), and
-- that it finds them all, one behind the other.
import SpaceOS.Lib.Lines
import SpaceOS.Lib.Text
import SpaceOS.Shell

open Lib.Bytes Lib.Lines Lib.Text

namespace SpaceOS.Shell

/-! ## The function

An access outside of `tokens` is `none`. Each turn of a loop looks at a byte behind the one of the
turn before, so there are no more turns than bytes. -/

abbrev ARGS_MAX : Nat := 16

def VOLTAS_PARSER : Nat := MAX_INPUT + 1

/-- The static variables of the parser: `argv` holds places of `tokens`. -/
structure Argumentos where
  tokens : Memory
  argv : Nat → Nat
  argc : Nat

/-- The loop that copies the line from place `j` on. -/
def copia_entrada (tokens : Memory) : Nat → List UInt8 → Option (Memory × Nat)
  | j, [] => some (tokens, j)
  | j, c :: entrada =>
    if j < MAX_INPUT - 1 then
      (write MAX_INPUT tokens j c).bind fun tokens => copia_entrada tokens (j + 1) entrada
    else some (tokens, j)

def pula_espacos (tokens : Memory) (i : Nat) : Option Nat :=
  scan MAX_INPUT (fun c => c ≠ 32) tokens VOLTAS_PARSER i

def fim_do_token (tokens : Memory) (i : Nat) : Option Nat :=
  scan MAX_INPUT (fun c => ¬ (c ≠ 32 ∧ c ≠ 0)) tokens VOLTAS_PARSER i

/-- The loop over the words. -/
def separa : Nat → Argumentos → Nat → Option Argumentos
  | 0, _, _ => none
  | n + 1, cmd, i =>
    (read MAX_INPUT cmd.tokens i).bind fun c =>
      if c ≠ 0 ∧ cmd.argc < ARGS_MAX then
        (pula_espacos cmd.tokens i).bind fun i =>
          (read MAX_INPUT cmd.tokens i).bind fun c =>
            if c = 0 then some cmd
            else
              let argv := Function.update cmd.argv cmd.argc i
              (fim_do_token cmd.tokens i).bind fun i =>
                (read MAX_INPUT cmd.tokens i).bind fun c =>
                  if c = 32 then
                    (write MAX_INPUT cmd.tokens i 0).bind fun tokens =>
                      separa n ⟨tokens, argv, cmd.argc + 1⟩ (i + 1)
                  else separa n ⟨cmd.tokens, argv, cmd.argc + 1⟩ i
      else some cmd

/-- The line is the text without its zero. -/
def parser (cmd : Argumentos) (entrada : List UInt8) : Option Argumentos :=
  (copia_entrada cmd.tokens 0 entrada).bind fun (tokens, j) =>
    (write MAX_INPUT tokens j 0).bind fun tokens =>
      separa VOLTAS_PARSER { cmd with tokens, argc := 0 } 0

/-! ## The words of the line -/

section Palavras

variable {cmd : Argumentos} {tokens : Memory} {i j n : Nat} {entrada r l : List UInt8}

/-- The copy, with its zero. -/
theorem copia_entrada_spec (tokens : Memory) (h0 : 0 ∉ entrada) (hlen : j + entrada.length < MAX_INPUT) :
    ∃ tokens', copia_entrada tokens j entrada = some (tokens', j + entrada.length) ∧
      (∀ k < j, tokens' k = tokens k) ∧
      TextAt MAX_INPUT (putByte tokens' (j + entrada.length) 0) j entrada := by
  induction entrada generalizing tokens j with
  | nil => exact ⟨tokens, rfl, fun _ _ => rfl, hlen, if_pos rfl⟩
  | cons c e ih =>
    obtain ⟨hc, he⟩ := List.ne_and_not_mem_of_not_mem_cons h0
    rw [List.length_cons] at hlen ⊢
    obtain ⟨tokens', hcopia, hantes, htexto⟩ := ih (putByte tokens j c) (j := j + 1) he
      (by omega)
    rw [show j + (e.length + 1) = j + 1 + e.length by omega]
    refine ⟨tokens', ?_, fun k hk => ?_, by omega, ?_, hc.symm, htexto⟩
    · rw [copia_entrada, if_pos (by omega), write_eq (by omega), Option.bind_some, hcopia]
    · rw [hantes k (by omega), putByte_ne _ _ (by omega)]
    · rw [putByte_ne _ _ (by omega), hantes j (Nat.lt_succ_self j), putByte_self]

theorem pula_espacos_eq (h : TextAt MAX_INPUT tokens i (l ++ r)) (hl : ∀ c ∈ l, c = 32)
    (hr : r.headD 0 ≠ 32) : pula_espacos tokens i = some (i + l.length) := by
  have hlt := h.lt
  rw [List.length_append] at hlt
  exact h.scan_eq (fun c hc => decide_eq_false fun hn => hn (hl c hc)) (decide_eq_true hr)
    (by unfold VOLTAS_PARSER; omega)

theorem fim_do_token_eq (h : TextAt MAX_INPUT tokens i (l ++ r)) (hl : 32 ∉ l)
    (hr : r = [] ∨ ∃ r', r = 32 :: r') : fim_do_token tokens i = some (i + l.length) := by
  have hlt := h.lt
  rw [List.length_append] at hlt
  refine h.scan_eq (fun c hc => decide_eq_false fun hn => hn ⟨?_, ?_⟩) ?_
    (by unfold VOLTAS_PARSER; omega)
  · exact fun h32 => hl (h32 ▸ hc)
  · exact fun h0 => h.zero_not_mem (h0 ▸ List.mem_append_left r hc)
  · rcases hr with rfl | ⟨r', rfl⟩ <;> rfl

/-- The loop ends at the end of the line, or where `argv` is full. -/
theorem separa_fim (h : TextAt MAX_INPUT cmd.tokens i r) (hr : r = [] ∨ cmd.argc = ARGS_MAX) :
    separa (n + 1) cmd i = some cmd := by
  rw [separa, h.head, Option.bind_some, if_neg]
  rintro ⟨h0, hlt⟩
  rcases hr with rfl | hcheio
  · exact h0 rfl
  · exact absurd hcheio (Nat.ne_of_lt hlt)

/-- No word is left. -/
theorem separa_espacos (h : TextAt MAX_INPUT cmd.tokens i r) (hr : ∀ c ∈ r, c = 32) :
    separa (n + 1) cmd i = some cmd := by
  by_cases hfim : r = [] ∨ cmd.argc = ARGS_MAX
  · exact separa_fim h hfim
  rw [not_or] at hfim
  by_cases hlt : cmd.argc < ARGS_MAX
  · have h' : TextAt MAX_INPUT cmd.tokens i (r ++ []) := (List.append_nil r).symm ▸ h
    have hzero : read MAX_INPUT cmd.tokens (i + r.length) = some 0 := h'.drop.head
    rw [separa, h.head, Option.bind_some, if_pos ⟨h.head_ne_zero hfim.1, hlt⟩,
      pula_espacos_eq h' hr (by decide), Option.bind_some, hzero, Option.bind_some, if_pos rfl]
  · rw [separa, h.head, Option.bind_some, if_neg fun hc => hlt hc.2]

/-- The place of the next word goes to `argv`. -/
def Argumentos.recebe (cmd : Argumentos) (tokens : Memory) (i : Nat) : Argumentos :=
  ⟨tokens, Function.update cmd.argv cmd.argc i, cmd.argc + 1⟩

/-- One turn at a word: a blank behind it becomes its zero, or it has that of the line. -/
theorem separa_palavra {p r' : List UInt8} (h : TextAt MAX_INPUT cmd.tokens i r)
    (hf : FirstWord 32 r l p r') (hlt : cmd.argc < ARGS_MAX) :
    separa (n + 1) cmd i =
      if r'.headD 0 = 32 then
        separa n (cmd.recebe (putByte cmd.tokens (i + l.length + p.length) 0) (i + l.length))
          (i + l.length + p.length + 1)
      else
        separa n (cmd.recebe cmd.tokens (i + l.length)) (i + l.length + p.length) := by
  have hne : r ≠ [] := by
    rw [hf.text]
    exact List.append_ne_nil_of_right_ne_nil _ (List.append_ne_nil_of_left_ne_nil hf.ne_nil _)
  have hr : TextAt MAX_INPUT cmd.tokens i (l ++ (p ++ r')) := hf.text ▸ h
  have hp : TextAt MAX_INPUT cmd.tokens (i + l.length) (p ++ r') := hr.drop
  have hfim : TextAt MAX_INPUT cmd.tokens (i + l.length + p.length) r' := hp.drop
  have hcabeca : (p ++ r').headD 0 ≠ 32 := by
    obtain ⟨c, p', rfl⟩ := List.exists_cons_of_ne_nil hf.ne_nil
    exact fun h32 => hf.not_mem (h32 ▸ List.mem_cons_self)
  have hzero := hp.head_ne_zero (List.append_ne_nil_of_left_ne_nil hf.ne_nil _)
  have hdentro : i + l.length + p.length < MAX_INPUT := by
    have := hfim.lt
    omega
  rw [separa, h.head, Option.bind_some, if_pos ⟨h.head_ne_zero hne, hlt⟩,
    pula_espacos_eq hr hf.blanks hcabeca, Option.bind_some, hp.head, Option.bind_some,
    if_neg hzero]
  dsimp only
  rw [fim_do_token_eq hp hf.not_mem hf.rest, Option.bind_some, hfim.head, Option.bind_some,
    write_eq hdentro, Option.bind_some]
  rfl

/-- What the loop does from place `i` on, where `ps` are the words that are left. -/
structure Separou (cmd cmd' : Argumentos) (i : Nat) (ps : List (List UInt8)) : Prop where
  argc : cmd'.argc = min ARGS_MAX (cmd.argc + ps.length)
  antes : ∀ j < i, cmd'.tokens j = cmd.tokens j
  argv : ∀ k < cmd.argc, cmd'.argv k = cmd.argv k
  palavra : ∀ k p, cmd.argc + k < ARGS_MAX → ps[k]? = some p →
    TextAt MAX_INPUT cmd'.tokens (cmd'.argv (cmd.argc + k)) p

theorem Separou.nada (hc : cmd.argc ≤ ARGS_MAX) (i : Nat) : Separou cmd cmd i [] :=
  ⟨(Nat.min_eq_right hc).symm, fun _ _ => rfl, fun _ _ => rfl,
    fun k p _ hp => absurd hp (by simp)⟩

theorem Separou.cheio (hc : cmd.argc = ARGS_MAX) (i : Nat) (ps : List (List UInt8)) :
    Separou cmd cmd i ps := by
  refine ⟨?_, fun _ _ => rfl, fun _ _ => rfl, fun k p hk _ => ?_⟩ <;> omega

/-- A word that has its zero in front of place `i'`, and the words behind it. -/
theorem Separou.cons {cmd' : Argumentos} {tokens : Memory} {a i' : Nat} {p : List UInt8}
    {ps : List (List UInt8)} (h : Separou (cmd.recebe tokens a) cmd' i' ps)
    (hp : TextAt MAX_INPUT tokens a p) (hi : a + p.length < i')
    (hantes : ∀ j < i, tokens j = cmd.tokens j) (hii : i ≤ i') :
    Separou cmd cmd' i (p :: ps) := by
  refine ⟨?_, fun j hj => ?_, fun k hk => ?_, fun k q hk hq => ?_⟩
  · rw [h.argc, List.length_cons, Argumentos.recebe, Nat.add_right_comm, Nat.add_assoc]
  · exact (h.antes j (by omega)).trans (hantes j hj)
  · exact (h.argv k (Nat.lt_succ_of_lt hk)).trans (Function.update_of_ne (Nat.ne_of_lt hk) _ _)
  · cases k with
    | zero =>
      obtain rfl : p = q := Option.some.inj hq
      have ha : cmd'.argv cmd.argc = a :=
        (h.argv cmd.argc (Nat.lt_succ_self _)).trans (Function.update_self _ _ _)
      rw [Nat.add_zero, ha]
      exact hp.congr fun j _ hj => h.antes j (by omega)
    | succ k =>
      have hq' := h.palavra k q (by change cmd.argc + 1 + k < _; omega) hq
      rwa [show (cmd.recebe tokens a).argc + k = cmd.argc + (k + 1) by
        change cmd.argc + 1 + k = _; omega] at hq'

theorem separa_spec (cmd : Argumentos) (h : TextAt MAX_INPUT cmd.tokens i r) (hc : cmd.argc ≤ ARGS_MAX)
    (hn : r.length < n) : ∃ cmd', separa n cmd i = some cmd' ∧ Separou cmd cmd' i (words 32 r) := by
  induction n generalizing cmd i r with
  | zero => exact absurd hn (Nat.not_lt_zero _)
  | succ n ih =>
    by_cases hcheio : cmd.argc = ARGS_MAX
    · exact ⟨cmd, separa_fim h (.inr hcheio), .cheio hcheio i _⟩
    have hlt : cmd.argc < ARGS_MAX := Nat.lt_of_le_of_ne hc hcheio
    rcases exists_firstWord 32 r with hr | ⟨l, p, r', hf⟩
    · refine ⟨cmd, separa_espacos h hr, ?_⟩
      rw [words_of_forall_eq hr]
      exact .nada hc i
    have hlen := congrArg List.length hf.text
    rw [List.length_append, List.length_append] at hlen
    have hr : TextAt MAX_INPUT cmd.tokens i (l ++ (p ++ r')) := hf.text ▸ h
    have hp : TextAt MAX_INPUT cmd.tokens (i + l.length) (p ++ r') := hr.drop
    rw [separa_palavra h hf hlt, hf.words_eq]
    rcases hf.rest with rfl | ⟨r'', rfl⟩
    · -- The last word: the loop ends at the zero of the line.
      have hpos := List.length_pos_iff.mpr hf.ne_nil
      obtain ⟨n, rfl⟩ : ∃ m, n = m + 1 := ⟨n - 1, by omega⟩
      have hfim : TextAt MAX_INPUT (cmd.recebe cmd.tokens (i + l.length)).tokens
          (i + l.length + p.length) [] := hp.drop
      rw [List.append_nil] at hp
      rw [if_neg (by decide), separa_fim hfim (.inl rfl), words_nil]
      have hcabe : (cmd.recebe cmd.tokens (i + l.length)).argc ≤ ARGS_MAX := hlt
      have hnada := Separou.nada hcabe (i + l.length + p.length + 1)
      exact ⟨_, rfl, hnada.cons hp (Nat.lt_succ_self _) (fun _ _ => rfl) (by omega)⟩
    · rw [List.headD_cons, if_pos rfl, words_cons_self]
      rw [List.length_cons] at hlen
      obtain ⟨cmd', he, hs⟩ := ih (cmd.recebe
        (putByte cmd.tokens (i + l.length + p.length) 0) (i + l.length)) hp.behind_cut hlt
        (by omega)
      exact ⟨cmd', he, hs.cons hp.cut (Nat.lt_succ_self _)
        (fun j hj => putByte_ne _ _ (by omega)) (by omega)⟩

variable (cmd)

/-- Whatever the variables held before, a line of at most 127 bytes is split into its first 16
words, in order, each with its zero in `tokens`. -/
theorem the_words_of_a_line_are_found (h0 : 0 ∉ entrada) (hlen : entrada.length ≤ MAX_INPUT - 1) :
    ∃ cmd', parser cmd entrada = some cmd' ∧
      cmd'.argc = min ARGS_MAX (words 32 entrada).length ∧
      ∀ k < cmd'.argc, ∃ p, (words 32 entrada)[k]? = some p ∧
        TextAt MAX_INPUT cmd'.tokens (cmd'.argv k) p := by
  have hmax : MAX_INPUT = 128 := rfl
  obtain ⟨tokens, hcopia, -, htexto⟩ := copia_entrada_spec cmd.tokens (j := 0) h0 (by omega)
  rw [Nat.zero_add] at hcopia htexto
  obtain ⟨cmd', he, hs⟩ := separa_spec (n := VOLTAS_PARSER)
    ⟨putByte tokens entrada.length 0, cmd.argv, 0⟩ htexto (Nat.zero_le _)
    (by unfold VOLTAS_PARSER; omega)
  refine ⟨cmd', ?_, hs.argc.trans (by rw [Nat.zero_add]), fun k hk => ?_⟩
  · rw [parser, hcopia, Option.bind_some]
    dsimp only
    rw [write_eq (by omega), Option.bind_some, he]
  · have hargc := hs.argc
    rw [Nat.zero_add] at hargc
    have hk' : k < (words 32 entrada).length := by omega
    refine ⟨_, List.getElem?_eq_getElem hk', ?_⟩
    have hp := hs.palavra k _ (by change 0 + k < _; omega) (List.getElem?_eq_getElem hk')
    rwa [show (0 : Nat) + k = k from Nat.zero_add k] at hp

/-- A line of two words between blanks. -/
theorem the_words_of_a_short_line_are_found : ∃ cmd',
    parser ⟨fun _ => 65, fun _ => 200, 3⟩ [32, 97, 98, 32, 32, 99] = some cmd' ∧
      cmd'.argc = min ARGS_MAX (words 32 [32, 97, 98, 32, 32, 99]).length ∧
      ∀ k < cmd'.argc, ∃ p, (words 32 [32, 97, 98, 32, 32, 99])[k]? = some p ∧
        TextAt MAX_INPUT cmd'.tokens (cmd'.argv k) p :=
  the_words_of_a_line_are_found _ (by decide) (by decide)

end Palavras

end SpaceOS.Shell
