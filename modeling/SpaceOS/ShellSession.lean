-- A session of the shell: the loop of `shell_init` (kernel/shell/shell.c) with the commands that it
-- calls (`comandos_executar`, kernel/shell/comandos.c), as an editor of lines that knows neither
-- buffers nor places.
import SpaceOS.Console
import SpaceOS.ShellLaws
import SpaceOS.ShellParser

open Lib.Bytes Lib.Bytes.ByteStr Lib.CString Lib.Lines Lib.Recents Lib.Text
open SpaceOS.Console (bytes)

namespace SpaceOS.Shell

/-! ## The commands -/

/-- The names of `tabela`. -/
def tabela : List String :=
  ["help", "clear", "info", "cor", "eco", "tecla", "mem", "paging", "espaco", "heap", "slab", "proc",
    "syscall", "reboot", "fork", "disco", "ls", "cd", "pwd", "cat", "mkdir", "rm", "cp", "mv", "spk",
    "pci", "shutdown", "net", "spfs", "audit", "ahci", "dma", "usb", "wifi", "secboot"]

/-- The loop that compares the text at place `a` with a name, and the test behind it. -/
def igual_nome (tokens : Memory) : Nat → List UInt8 → Option Bool
  | a, [] => (read MAX_INPUT tokens a).map (· = 0)
  | a, b :: nome =>
    (read MAX_INPUT tokens a).bind fun c =>
      if c = 0 then some false
      else if c ≠ b then some false
      else igual_nome tokens (a + 1) nome

/-- The loop over the table: the entry that is called. -/
def procura (tokens : Memory) (a : Nat) : List String → Option (Option String)
  | [] => some none
  | nome :: nomes =>
    (igual_nome tokens a (bytes nome)).bind fun igual =>
      if igual then some (some nome) else procura tokens a nomes

/-- The value, and the entry whose function is called. -/
def comandos_executar (args : Argumentos) : Option (Int × Option String) :=
  if args.argc = 0 then some (0, none)
  else
    (procura args.tokens (args.argv 0) tabela).map fun chamado =>
      (if chamado.isSome then 0 else -1, chamado)

/-- The texts that the function of a command finds in `argv`. -/
def textos (args : Argumentos) : List (List UInt8) :=
  (List.range args.argc).map fun k => textOf MAX_INPUT args.tokens (args.argv k)

/-! ## The loop

What a command does is left out, but for two things: `tecla` has a loop of its own that takes keys up to
the escape key, and `reboot` and `shutdown` do not come back. -/

/-- Where the kernel asks for keys. -/
inductive Modo where
  | prompt
  | tecla
  | fim
  deriving DecidableEq

/-- What a session does: a command with its texts, the message about a line that has none, and a key
that the command `tecla` prints. -/
inductive Saida where
  | comando (nome : String) (argv : List (List UInt8))
  | nao_encontrado (input_buf : List UInt8)
  | char (c : UInt8)
  deriving DecidableEq

structure Sessao where
  sh : Estado
  args : Argumentos
  modo : Modo
  saidas : List Saida

/-- `args` is what the variables of the parser hold. -/
def Sessao.inicio (args : Argumentos) : Sessao := ⟨.inicio, args, .prompt, []⟩

def modo_de (chamado : Option String) : Modo :=
  if chamado = some "tecla" then .tecla
  else if chamado = some "reboot" ∨ chamado = some "shutdown" then .fim
  else .prompt

/-- The enter key, with its command. -/
def enter_sessao (s : Sessao) : Option Sessao :=
  (enter s.sh).bind fun sh =>
    if s.sh.input_len > 0 then
      let input_buf := text (s.sh.input_buf.putByte s.sh.input_len 0)
      (parser s.args input_buf).bind fun args =>
        (comandos_executar args).map fun (valor, chamado) =>
          { sh, args
            modo := modo_de chamado
            saidas := s.saidas ++ (chamado.map fun nome => .comando nome (textos args)).toList ++
              if valor = -1 then [.nao_encontrado input_buf] else [] }
    else some { s with sh }

/-- One character that `teclado_ultimo_char` gives. -/
def tecla_sessao (s : Sessao) (c : UInt8) : Option Sessao :=
  if c = 0 then some s
  else
    match s.modo with
    | .prompt => if c = 10 then enter_sessao s else (tecla s.sh c).map fun sh => { s with sh }
    | .tecla =>
      some { s with saidas := s.saidas ++ [.char c], modo := if c = 27 then .prompt else .tecla }
    | .fim => some s

def sessao_teclas (s : Sessao) (cs : List UInt8) : Option Sessao := cs.foldlM tecla_sessao s

/-! ## The editor -/

/-- The line, the commands so far, and how many steps the arrows are above the prompt. -/
structure Editor where
  linha : List UInt8
  log : List (List UInt8)
  nav : Nat
  modo : Modo
  saidas : List Saida

def Editor.inicio : Editor := ⟨[], [], 0, .prompt, []⟩

/-- The command of a line. -/
def chamado (linha : List UInt8) : Option String :=
  (words 32 linha).head?.bind fun p => tabela.find? fun nome => bytes nome = p

/-- What comes of a line. -/
def resposta (linha : List UInt8) : List Saida :=
  if words 32 linha = [] then []
  else
    match chamado linha with
    | some nome => [.comando nome ((words 32 linha).take ARGS_MAX)]
    | none => [.nao_encontrado linha]

/-- An empty line leaves the arrows where they are. -/
def Editor.enter (e : Editor) : Editor :=
  if e.linha = [] then e
  else ⟨[], salva e.log e.linha, 0, modo_de (chamado e.linha), e.saidas ++ resposta e.linha⟩

/-- The arrows take another line in the place of this one, if there is one. -/
def Editor.seta (e : Editor) (a : Arrow) : Editor :=
  if e.log = [] ∨ a = .down ∧ e.nav = 0 then e
  else { e with nav := move e.log.length e.nav a, linha := mostrada e.log (move e.log.length e.nav a) }

def Editor.tecla (e : Editor) (c : UInt8) : Editor :=
  if c = 0 then e
  else
    match e.modo with
    | .prompt =>
      if c = 10 then e.enter
      else if c = 8 then { e with linha := e.linha.dropLast }
      else if c = TECLA_SETA_CIMA then e.seta .up
      else if c = TECLA_SETA_BAIXO then e.seta .down
      else if Normal c ∧ e.linha.length < MAX_INPUT - 1 then { e with linha := e.linha ++ [c], nav := 0 }
      else e
    | .tecla =>
      { e with saidas := e.saidas ++ [.char c], modo := if c = 27 then .prompt else .tecla }
    | .fim => e

def Editor.teclas (e : Editor) (cs : List UInt8) : Editor := cs.foldl Editor.tecla e

/-! ## The parser and the table -/

section Comandos

variable {args : Argumentos} {tokens : Memory} {a : Nat} {p nome linha : List UInt8}

/-- The texts are the first words of the line. -/
theorem parser_spec (args : Argumentos) (h0 : 0 ∉ linha) (hlen : linha.length < MAX_INPUT) :
    ∃ args', parser args linha = some args' ∧
      args'.argc = min ARGS_MAX (words 32 linha).length ∧
      textos args' = (words 32 linha).take ARGS_MAX ∧
      ∀ q, (words 32 linha).head? = some q → TextAt MAX_INPUT args'.tokens (args'.argv 0) q := by
  obtain ⟨tokens, hcopia, -, htexto⟩ := copia_entrada_spec args.tokens (j := 0) h0 (by omega)
  rw [Nat.zero_add] at hcopia htexto
  obtain ⟨args', he, hs⟩ := separa_spec (n := VOLTAS_PARSER)
    ⟨putByte tokens linha.length 0, args.argv, 0⟩ htexto (Nat.zero_le _)
    (Nat.lt_succ_of_lt hlen)
  have hargc : args'.argc = min ARGS_MAX (words 32 linha).length :=
    hs.argc.trans (by rw [Nat.zero_add])
  have hpalavra : ∀ k q, k < ARGS_MAX → (words 32 linha)[k]? = some q →
      TextAt MAX_INPUT args'.tokens (args'.argv k) q := by
    intro k q hk hq
    have hp := hs.palavra k q (by rw [Nat.zero_add]; exact hk) hq
    rwa [Nat.zero_add] at hp
  refine ⟨args', ?_, hargc, ?_, fun q hq => hpalavra 0 q (by decide) (List.head?_eq_getElem? ▸ hq)⟩
  · rw [parser, hcopia, Option.bind_some]
    dsimp only
    rw [write_eq hlen, Option.bind_some, he]
  · refine List.ext_getElem (by simp [textos, hargc]) fun k h1 h2 => ?_
    have hk : k < min ARGS_MAX (words 32 linha).length := by rwa [List.length_take] at h2
    rw [List.getElem_take]
    simp only [textos, List.getElem_map, List.getElem_range]
    exact (hpalavra k _ (by omega) (List.getElem?_eq_getElem (by omega))).textOf_eq

theorem igual_nome_eq (h : TextAt MAX_INPUT tokens a p) (hn : 0 ∉ nome) :
    igual_nome tokens a nome = some (decide (nome = p)) := by
  induction nome generalizing a p with
  | nil =>
    rw [igual_nome, h.head, Option.map_some]
    cases p with
    | nil => rfl
    | cons c p => exact congrArg some (decide_eq_false (h.head_ne_zero (List.cons_ne_nil c p)) |>.trans rfl)
  | cons b nome ih =>
    obtain ⟨hb, hn⟩ := List.ne_and_not_mem_of_not_mem_cons hn
    rw [igual_nome, h.head, Option.bind_some]
    cases p with
    | nil => rfl
    | cons c p =>
      rw [List.headD_cons, if_neg h.2.2.1]
      by_cases hc : c = b
      · rw [if_neg (not_not.mpr hc), ih h.2.2.2 hn, hc]
        simp
      · rw [if_pos hc]
        refine congrArg some (decide_eq_false fun he => hc ?_).symm
        exact (List.cons.inj he).1.symm

theorem procura_eq (h : TextAt MAX_INPUT tokens a p) {nomes : List String}
    (hn : ∀ nome ∈ nomes, 0 ∉ bytes nome) :
    procura tokens a nomes = some (nomes.find? fun nome => bytes nome = p) := by
  induction nomes with
  | nil => rfl
  | cons nome nomes ih =>
    rw [procura, igual_nome_eq h (hn nome List.mem_cons_self), Option.bind_some, List.find?_cons]
    by_cases hp : bytes nome = p
    · rw [decide_eq_true hp]
      rfl
    · rw [decide_eq_false hp]
      exact ih fun nome hm => hn nome (List.mem_cons_of_mem _ hm)

theorem zero_not_mem_tabela : ∀ nome ∈ tabela, 0 ∉ bytes nome := by decide +kernel

/-- What the shell does with a line that has been split. -/
theorem executa_spec (args : Argumentos) (h0 : 0 ∉ linha) (hlen : linha.length < MAX_INPUT) :
    ∃ args' valor, parser args linha = some args' ∧
      comandos_executar args' = some (valor, chamado linha) ∧
      ((chamado linha).map fun nome => .comando nome (textos args')).toList ++
        (if valor = -1 then [.nao_encontrado linha] else []) = resposta linha := by
  obtain ⟨args', he, hargc, htextos, hcabeca⟩ := parser_spec args h0 hlen
  unfold comandos_executar resposta
  by_cases hw : words 32 linha = []
  · have hargc0 : args'.argc = 0 := by rw [hargc, hw, List.length_nil, Nat.min_zero]
    have hnone : chamado linha = none := by rw [chamado, hw]; rfl
    rw [if_pos hw, hnone]
    exact ⟨args', 0, he, by rw [if_pos hargc0], rfl⟩
  · obtain ⟨q, ps, hq⟩ := List.exists_cons_of_ne_nil hw
    have hhead : (words 32 linha).head? = some q := by rw [hq, List.head?_cons]
    have hargc0 : args'.argc ≠ 0 := by
      have hmax : ARGS_MAX = 16 := rfl
      rw [hargc, hq, List.length_cons]
      omega
    have hprocura := procura_eq (hcabeca q hhead) zero_not_mem_tabela
    have hchamado : chamado linha = tabela.find? fun nome => bytes nome = q := by
      rw [chamado, hhead, Option.bind_some]
    rw [← hchamado] at hprocura
    refine ⟨args', _, he, by rw [if_neg hargc0, hprocura, Option.map_some], ?_⟩
    rw [if_neg hw, htextos]
    cases chamado linha with
    | none => rfl
    | some nome => rfl

end Comandos

/-! ## The refinement -/

section Sessao

variable {sh : Estado} {s : Sessao} {e : Editor} {linha : List UInt8} {log : List (List UInt8)}

/-- A line that can be typed. -/
def Digitavel (linha : List UInt8) : Prop := (∀ c ∈ linha, Normal c) ∧ linha.length < MAX_INPUT

theorem Digitavel.zero_not_mem (h : Digitavel linha) : 0 ∉ linha := fun hm => absurd (h.1 0 hm) (by decide)

theorem digitavel_nil : Digitavel [] := ⟨nofun, by decide⟩

theorem digitavel_mostrada (h : ∀ l ∈ log, Digitavel l) (p : Nat) : Digitavel (mostrada log p) := by
  cases p with
  | zero => exact digitavel_nil
  | succ p =>
    rw [mostrada]
    cases hb : back log (p % HISTORICO_MAX) with
    | none => exact digitavel_nil
    | some l => exact h l (List.mem_reverse.mp (List.mem_of_getElem? hb))

theorem digitavel_salva (h : ∀ l ∈ log, Digitavel l) (hlinha : Digitavel linha) :
    ∀ l ∈ salva log linha, Digitavel l := by
  unfold salva addNew
  split_ifs
  · exact h
  · exact h
  · intro l hl
    rcases List.mem_append.mp hl with hl | hl
    · exact h l hl
    · exact List.mem_singleton.mp hl ▸ hlinha

/-- The enter key behind a line, wherever the arrows are. -/
theorem Guarda.enter_cheia (h : Guarda sh log) (hlinha : Digitavel sh.linha) (hpos : sh.input_len > 0)
    (hlog : (salva log sh.linha).length < 2 ^ 31) :
    ∃ sh', Shell.enter sh = some sh' ∧ Pronto sh' (salva log sh.linha) := by
  have hlen := hlinha.2
  rw [length_linha] at hlen
  have htext := text_linha hlen hlinha.zero_not_mem
  have hg : Guarda { sh with input_buf := sh.input_buf.putByte sh.input_len 0 } log :=
    ⟨h.total, h.textos, h.curtos⟩
  obtain ⟨hsalvo, hroom⟩ := hg.salvar (sh.input_buf.putByte sh.input_len 0)
    (by rw [htext, length_linha]; exact hlen)
  rw [htext] at hsalvo hroom
  obtain ⟨sh1, h1⟩ := Option.isSome_iff_exists.mp (hroom hlog)
  have hg1 := hsalvo sh1 h1
  unfold Shell.enter
  simp only [hpos, if_true, h1, Option.map_some]
  exact ⟨_, rfl, ⟨hg1.total, hg1.textos, hg1.curtos⟩, rfl, rfl⟩

/-- The enter key on an empty line. -/
theorem enter_vazia (hpos : ¬ sh.input_len > 0) : ∃ sh', enter sh = some sh' ∧ sh'.linha = [] ∧
    sh'.historico = sh.historico ∧ sh'.hist_total = sh.hist_total ∧ sh'.hist_nav = sh.hist_nav := by
  unfold enter
  simp only [hpos, if_false, Option.map_some]
  exact ⟨_, rfl, rfl, rfl, rfl, rfl⟩

theorem linha_digita (hlen : sh.input_len < MAX_INPUT) (c : UInt8) :
    { sh with
      input_buf := sh.input_buf.putByte sh.input_len c
      input_len := sh.input_len + 1
      hist_nav := -1 : Estado }.linha = sh.linha ++ [c] := by
  simp only [Estado.linha, List.range_succ, List.map_append, List.map_singleton]
  rw [byte_putByte_self _ _ hlen]
  refine congrArg (· ++ [c]) (List.map_congr_left fun j hj => ?_)
  exact byte_putByte_ne _ _ (List.mem_range.mp hj).ne

theorem linha_apaga (sh : Estado) :
    { sh with input_len := sh.input_len - 1 : Estado }.linha = sh.linha.dropLast := by
  obtain ⟨buf, len, hist, total, nav⟩ := sh
  cases len with
  | zero => rfl
  | succ len => simp [Estado.linha, List.range_succ]

/-- The variables hold what the editor holds. -/
structure Refina (s : Sessao) (e : Editor) : Prop extends Guarda s.sh e.log where
  linha : s.sh.linha = e.linha
  nav : s.sh.hist_nav + 1 = e.nav
  nav_le : e.nav ≤ e.log.length
  digitavel : Digitavel e.linha
  log_digitavel : ∀ l ∈ e.log, Digitavel l
  modo : s.modo = e.modo
  saidas : s.saidas = e.saidas

theorem refina_inicio (args : Argumentos) : Refina (.inicio args) .inicio where
  toGuarda := guarda_inicio
  linha := rfl
  nav := rfl
  nav_le := Nat.le_refl 0
  digitavel := digitavel_nil
  log_digitavel := nofun
  modo := rfl
  saidas := rfl

theorem Refina.enter (h : Refina s e) (hlog : e.enter.log.length < 2 ^ 31) :
    ∃ s', enter_sessao s = some s' ∧ Refina s' e.enter := by
  have hlen : s.sh.input_len = e.linha.length := by rw [← length_linha, h.linha]
  unfold enter_sessao
  unfold Editor.enter at hlog ⊢
  by_cases hvazia : e.linha = []
  · have hpos : ¬ s.sh.input_len > 0 := by
      rw [hlen, hvazia]
      exact Nat.lt_irrefl 0
    obtain ⟨sh', he, h1, h2, h3, h4⟩ := enter_vazia hpos
    rw [if_pos hvazia, he, Option.bind_some, if_neg hpos]
    exact ⟨_, rfl, ⟨h3.trans h.total, h2 ▸ h.textos, h2 ▸ h.curtos⟩, h1.trans hvazia.symm,
      (congrArg (· + 1) h4).trans h.nav, h.nav_le, h.digitavel, h.log_digitavel, h.modo, h.saidas⟩
  · have hpos : s.sh.input_len > 0 := by
      rw [hlen]
      exact List.length_pos_iff.mpr hvazia
    rw [if_neg hvazia] at hlog ⊢
    have hdig : Digitavel s.sh.linha := h.linha ▸ h.digitavel
    obtain ⟨sh', he, hp⟩ := h.toGuarda.enter_cheia hdig hpos (by rw [h.linha]; exact hlog)
    rw [h.linha] at hp
    have htext : text (s.sh.input_buf.putByte s.sh.input_len 0) = e.linha := by
      rw [text_linha (by rw [hlen]; exact h.digitavel.2) hdig.zero_not_mem, h.linha]
    obtain ⟨args, valor, hparser, hexecuta, hresposta⟩ :=
      executa_spec s.args h.digitavel.zero_not_mem h.digitavel.2
    rw [he, Option.bind_some, if_pos hpos, htext]
    dsimp only
    rw [hparser, Option.bind_some, hexecuta, Option.map_some]
    refine ⟨_, rfl, hp.toGuarda, ?_, ?_, Nat.zero_le _, digitavel_nil,
      digitavel_salva h.log_digitavel h.digitavel, rfl, ?_⟩
    · exact List.length_eq_zero_iff.mp (by rw [length_linha, hp.vazia])
    · rw [hp.sem_nav]
      rfl
    · exact (List.append_assoc _ _ _).trans (congrArg₂ (· ++ ·) h.saidas hresposta)

/-- A key that changes the line and nothing else that is seen. -/
theorem Refina.troca {nav : Nat} (h : Refina s e) (sh' : Estado) (hg : Guarda sh' e.log)
    (hlinha : sh'.linha = linha) (hnav : sh'.hist_nav + 1 = nav) (hle : nav ≤ e.log.length)
    (hdig : Digitavel linha) : Refina { s with sh := sh' } { e with linha := linha, nav := nav } :=
  ⟨hg, hlinha, hnav, hle, hdig, h.log_digitavel, h.modo, h.saidas⟩

/-- What the key of an arrow does. -/
def move_seta (sh : Estado) : Arrow → Estado
  | .up => seta_cima sh
  | .down => seta_baixo sh

theorem Refina.seta (h : Refina s e) (a : Arrow) :
    Refina { s with sh := move_seta s.sh a } (e.seta a) := by
  unfold Editor.seta
  by_cases hfica : e.log = [] ∨ a = .down ∧ e.nav = 0
  · rw [if_pos hfica]
    have hnav := h.nav
    have hle := h.nav_le
    have hsh : move_seta s.sh a = s.sh := by
      rcases hfica with hlog | ⟨rfl, h0⟩
      · rw [hlog, List.length_nil] at hle
        cases a with
        | up => exact if_pos (by rw [h.total, hlog, List.length_nil])
        | down => exact (if_neg (by omega)).trans (if_neg (by omega))
      · exact (if_neg (by omega)).trans (if_neg (by omega))
    rw [hsh]
    exact h
  · rw [if_neg hfica]
    rw [not_or, not_and] at hfica
    have hn : Navega (move_seta s.sh a) e.log (move e.log.length e.nav a) := by
      cases a with
      | up => exact h.toGuarda.cima h.nav h.nav_le hfica.1
      | down => exact h.toGuarda.baixo h.nav h.nav_le (hfica.2 rfl)
    exact h.troca _ hn.toGuarda hn.mostra hn.nav hn.cabe (digitavel_mostrada h.log_digitavel _)

theorem Digitavel.dropLast (h : Digitavel linha) : Digitavel linha.dropLast :=
  ⟨fun c hc => h.1 c (List.mem_of_mem_dropLast hc),
    (linha.dropLast_sublist.length_le).trans_lt h.2⟩

theorem Digitavel.snoc {c : UInt8} (h : Digitavel linha) (hc : Normal c)
    (hlen : linha.length < MAX_INPUT - 1) : Digitavel (linha ++ [c]) := by
  refine ⟨fun d hd => ?_, ?_⟩
  · rcases List.mem_append.mp hd with hd | hd
    · exact h.1 d hd
    · exact List.mem_singleton.mp hd ▸ hc
  · rw [List.length_append, List.length_singleton]
    omega

/-- A key at the prompt, other than the enter key. -/
theorem Refina.edita (h : Refina s e) (hm : e.modo = .prompt) {c : UInt8} (h0 : c ≠ 0) (h10 : c ≠ 10) :
    ∃ sh', Shell.tecla s.sh c = some sh' ∧ Refina { s with sh := sh' } (e.tecla c) := by
  have hlen : s.sh.input_len = e.linha.length := by rw [← length_linha, h.linha]
  obtain ⟨linha, log, nav, modo, saidas⟩ := e
  obtain rfl : modo = .prompt := hm
  dsimp only at hlen
  unfold Editor.tecla
  rw [if_neg h0]
  dsimp only
  rw [if_neg h10]
  by_cases hcima : c = TECLA_SETA_CIMA
  · rw [hcima]
    exact ⟨_, rfl, h.seta .up⟩
  by_cases hbaixo : c = TECLA_SETA_BAIXO
  · rw [hbaixo]
    exact ⟨_, rfl, h.seta .down⟩
  unfold Shell.tecla
  rw [if_neg h0, if_neg h10, if_neg hcima, if_neg hcima, if_neg hbaixo, if_neg hbaixo]
  by_cases h8 : c = 8
  · have hapaga : (if s.sh.input_len > 0 then { s.sh with input_len := s.sh.input_len - 1 } else s.sh) =
        { s.sh with input_len := s.sh.input_len - 1 } := by
      split
      · rfl
      · rw [show s.sh.input_len - 1 = s.sh.input_len by omega]
    rw [if_pos h8, if_pos h8, hapaga]
    have hlinha := (linha_apaga s.sh).trans (congrArg List.dropLast h.linha)
    exact ⟨_, rfl, h.troca _ ⟨h.total, h.textos, h.curtos⟩ hlinha h.nav h.nav_le h.digitavel.dropLast⟩
  rw [if_neg h8, if_neg h8]
  by_cases hc : Normal c ∧ linha.length < MAX_INPUT - 1
  · rw [if_pos hc, if_pos (by rwa [hlen])]
    have hlinha := (linha_digita (by rw [hlen]; exact h.digitavel.2) c).trans
      (congrArg (· ++ [c]) h.linha)
    exact ⟨_, rfl, h.troca _ ⟨h.total, h.textos, h.curtos⟩ hlinha rfl (Nat.zero_le _)
      (h.digitavel.snoc hc.1 hc.2)⟩
  · rw [if_neg hc, if_neg (by rwa [hlen])]
    exact ⟨_, rfl, h⟩

/-- One key. -/
theorem Refina.tecla (h : Refina s e) (c : UInt8) (hlog : (e.tecla c).log.length < 2 ^ 31) :
    ∃ s', tecla_sessao s c = some s' ∧ Refina s' (e.tecla c) := by
  unfold tecla_sessao
  by_cases h0 : c = 0
  · rw [Editor.tecla, if_pos h0, if_pos h0]
    exact ⟨s, rfl, h⟩
  rw [if_neg h0, h.modo]
  cases hm : e.modo with
  | prompt =>
    dsimp only
    by_cases h10 : c = 10
    · have henter : e.tecla c = e.enter := by rw [Editor.tecla, if_neg h0, hm]; exact if_pos h10
      rw [henter] at hlog ⊢
      rw [if_pos h10]
      exact h.enter hlog
    · obtain ⟨sh', hsh, hr⟩ := h.edita hm h0 h10
      refine ⟨_, ?_, hr⟩
      rw [if_neg h10, hsh, Option.map_some, h.modo, hm]
  | tecla =>
    rw [Editor.tecla, if_neg h0, hm]
    exact ⟨_, rfl, h.toGuarda, h.linha, h.nav, h.nav_le, h.digitavel, h.log_digitavel, rfl,
      congrArg (· ++ [.char c]) h.saidas⟩
  | fim =>
    rw [Editor.tecla, if_neg h0, hm]
    exact ⟨s, rfl, h⟩

theorem length_log_tecla (e : Editor) (c : UInt8) : e.log.length ≤ (e.tecla c).log.length := by
  have henter : e.log.length ≤ e.enter.log.length := by
    unfold Editor.enter
    split
    · exact le_rfl
    · exact length_salva_le _ _
  have hseta : ∀ a, (e.seta a).log = e.log := by
    intro a
    unfold Editor.seta
    split <;> rfl
  unfold Editor.tecla
  split
  · exact le_rfl
  · split
    · split_ifs
      · exact henter
      · exact le_rfl
      · exact (congrArg List.length (hseta .up)).ge
      · exact (congrArg List.length (hseta .down)).ge
      · exact le_rfl
      · exact le_rfl
    · exact le_rfl
    · exact le_rfl

theorem length_log_teclas (e : Editor) (cs : List UInt8) :
    e.log.length ≤ (e.teclas cs).log.length := by
  induction cs generalizing e with
  | nil => exact le_rfl
  | cons c cs ih => exact (length_log_tecla e c).trans (ih (e.tecla c))

theorem Refina.teclas (h : Refina s e) (cs : List UInt8) (hlog : (e.teclas cs).log.length < 2 ^ 31) :
    ∃ s', sessao_teclas s cs = some s' ∧ Refina s' (e.teclas cs) := by
  induction cs generalizing s e with
  | nil => exact ⟨s, rfl, h⟩
  | cons c cs ih =>
    obtain ⟨s1, h1, hr⟩ := h.tecla c ((length_log_teclas (e.tecla c) cs).trans_lt hlog)
    obtain ⟨s2, h2, hr2⟩ := ih hr hlog
    refine ⟨s2, ?_, hr2⟩
    rw [sessao_teclas, List.foldlM_cons, h1]
    exact h2

/-- Whatever keys come, in whatever order, the shell calls the commands that the editor of lines calls,
with the same texts, and shows its line: no access leaves a buffer, as long as fewer than 2^31 commands
are saved. -/
theorem the_shell_is_an_editor_of_lines (args : Argumentos) (cs : List UInt8)
    (hlog : (Editor.inicio.teclas cs).log.length < 2 ^ 31) :
    ∃ s, sessao_teclas (.inicio args) cs = some s ∧
      s.saidas = (Editor.inicio.teclas cs).saidas ∧ s.sh.linha = (Editor.inicio.teclas cs).linha ∧
      s.modo = (Editor.inicio.teclas cs).modo ∧ Guarda s.sh (Editor.inicio.teclas cs).log := by
  obtain ⟨s, he, hr⟩ := (refina_inicio args).teclas cs hlog
  exact ⟨s, he, hr.saidas, hr.linha, hr.modo, hr.toGuarda⟩

/-- A command with a key too many, and once more from the history. -/
theorem a_command_is_called_again : ∃ s,
    sessao_teclas (.inicio ⟨fun _ => 65, fun _ => 200, 3⟩) (bytes "eco oi!" ++ [8, 10, 0x81, 10]) = some s ∧
      s.saidas = [.comando "eco" [bytes "eco", bytes "oi"], .comando "eco" [bytes "eco", bytes "oi"]] ∧
      s.sh.linha = [] := by
  obtain ⟨s, he, hsaidas, hlinha, -⟩ := the_shell_is_an_editor_of_lines ⟨fun _ => 65, fun _ => 200, 3⟩
    (bytes "eco oi!" ++ [8, 10, 0x81, 10]) (by decide +kernel)
  exact ⟨s, he, hsaidas.trans (by decide +kernel), hlinha.trans (by decide +kernel)⟩

end Sessao

end SpaceOS.Shell
