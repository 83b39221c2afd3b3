-- The laws of the history: the array holds the texts of the last commands that were saved, and the
-- line is the one that the arrows chose, counted around the array.
import SpaceOS.Lib.Recents
import SpaceOS.Shell

open Lib.Bytes Lib.Bytes.ByteStr Lib.CString Lib.Recents

namespace SpaceOS.Shell

variable {sh sh' : Estado} {log : List (List UInt8)}

/-! ## The loops over texts -/

theorem byte_eq_text {b : ByteStr MAX_INPUT} {i : Nat} (hb : (text b).length < MAX_INPUT)
    (hi : i ≤ (text b).length) : b.byte i = (text b).getD i 0 := byte_text (by omega) hi

theorem byte_eq_zero_iff {b : ByteStr MAX_INPUT} {i : Nat} (hb : (text b).length < MAX_INPUT)
    (hi : i ≤ (text b).length) : b.byte i = 0 ↔ i = (text b).length := by
  rw [byte_eq_text hb hi, getD_eq_zero_iff (zero_not_mem_text b)]
  omega

/-- What the copy leaves in the buffer: the text from place `i` on, and the bytes before it as they
were. -/
theorem copia_texto_spec {src : ByteStr MAX_INPUT} (hsrc : (text src).length < MAX_INPUT)
    (dst : ByteStr MAX_INPUT) {n i : Nat} (hi : i ≤ (text src).length)
    (hn : (text src).length ≤ i + n) :
    (copia_texto src n i dst).2 = (text src).length ∧
      (∀ j < i, (copia_texto src n i dst).1.byte j = dst.byte j) ∧
      ∀ j, i ≤ j → j ≤ (text src).length →
        (copia_texto src n i dst).1.byte j = (text src).getD j 0 := by
  induction n generalizing i dst with
  | zero =>
    obtain rfl : i = (text src).length := by omega
    refine ⟨rfl, fun j hj => byte_putByte_ne _ _ (by omega), fun j h1 h2 => ?_⟩
    obtain rfl : j = (text src).length := by omega
    rw [copia_texto, byte_putByte_self _ _ hsrc, List.getD_eq_default _ _ le_rfl]
  | succ n ih =>
    by_cases h0 : src.byte i = 0
    · obtain rfl := (byte_eq_zero_iff hsrc hi).mp h0
      simp only [copia_texto, h0, ne_eq, not_true_eq_false, if_false]
      refine ⟨trivial, fun j hj => byte_putByte_ne _ _ (by omega), fun j h1 h2 => ?_⟩
      obtain rfl : j = (text src).length := by omega
      rw [byte_putByte_self _ _ hsrc, List.getD_eq_default _ _ le_rfl]
    · have hlt : i ≠ (text src).length := fun h => h0 ((byte_eq_zero_iff hsrc hi).mpr h)
      simp only [copia_texto, h0, ne_eq, not_false_eq_true, if_true]
      obtain ⟨hlen, hbefore, hafter⟩ :=
        ih (dst.putByte i (src.byte i)) (i := i + 1) (by omega) (by omega)
      refine ⟨hlen, fun j hj => ?_, fun j h1 h2 => ?_⟩
      · rw [hbefore j (by omega), byte_putByte_ne _ _ (by omega)]
      · rcases Nat.lt_or_eq_of_le h1 with h | rfl
        · exact hafter j h h2
        · rw [hbefore i (by omega), byte_putByte_self _ _ (by omega), byte_eq_text hsrc hi]

theorem text_copia_texto {src : ByteStr MAX_INPUT} (hsrc : (text src).length < MAX_INPUT)
    (dst : ByteStr MAX_INPUT) :
    text (copia_texto src (MAX_INPUT - 1) 0 dst).1 = text src ∧
      (copia_texto src (MAX_INPUT - 1) 0 dst).2 = (text src).length := by
  obtain ⟨hlen, -, hbytes⟩ :=
    copia_texto_spec hsrc dst (n := MAX_INPUT - 1) (Nat.zero_le _) (by omega)
  exact ⟨text_eq hsrc (zero_not_mem_text src) fun j hj => hbytes j (Nat.zero_le _) hj, hlen⟩

/-- The comparison from place `i`, the texts being one before it. -/
theorem igual_iff {a b : ByteStr MAX_INPUT} (ha : (text a).length < MAX_INPUT)
    (hb : (text b).length < MAX_INPUT) {n i : Nat} (hn : i + n = MAX_INPUT)
    (hia : i ≤ (text a).length) (hib : i ≤ (text b).length)
    (heq : (text a).take i = (text b).take i) : igual a b n i = true ↔ text a = text b := by
  induction n generalizing i with
  | zero => omega
  | succ n ih =>
    have hza := byte_eq_zero_iff ha hia
    have hzb := byte_eq_zero_iff hb hib
    have hga := byte_eq_text ha hia
    have hgb := byte_eq_text hb hib
    unfold igual
    by_cases hz : a.byte i = 0 ∧ b.byte i = 0
    · rw [if_neg (by simp [hz])]
      rw [List.take_of_length_le (hza.mp hz.1).ge, List.take_of_length_le (hzb.mp hz.2).ge] at heq
      simp [heq]
    · rw [if_pos (by simpa [or_iff_not_imp_left] using hz)]
      by_cases hne : a.byte i = b.byte i
      · have hia' : i ≠ (text a).length := fun h =>
          hz ⟨hza.mpr h, hne ▸ hza.mpr h⟩
        have hib' : i ≠ (text b).length := fun h =>
          hz ⟨hne ▸ hzb.mpr h, hzb.mpr h⟩
        rw [if_neg (by simp [hne])]
        refine ih (by omega) (by omega) (by omega) ?_
        rw [hga, hgb, List.getD_eq_getElem _ _ (show i < (text a).length by omega),
          List.getD_eq_getElem _ _ (show i < (text b).length by omega)] at hne
        rw [List.take_add_one, List.take_add_one, heq,
          List.getElem?_eq_getElem (show i < (text a).length by omega),
          List.getElem?_eq_getElem (show i < (text b).length by omega), hne]
      · rw [if_pos hne]
        refine ⟨fun h => Bool.noConfusion h, fun h => absurd ?_ hne⟩
        rw [hga, hgb, h]

/-! ## The invariant -/

/-- The log with one more command: an empty one and the last one again are not saved. -/
def salva (log : List (List UInt8)) (cmd : List UInt8) : List (List UInt8) :=
  if cmd = [] then log else addNew log cmd

/-- The array holds the last texts of the log. -/
structure Guarda (sh : Estado) (log : List (List UInt8)) : Prop where
  total : sh.hist_total = log.length
  textos : Holds (fun s => text (sh.historico s)) log
  curtos : ∀ s, (text (sh.historico s)).length < MAX_INPUT

theorem text_zero : text (ByteStr.zero : ByteStr MAX_INPUT) = [] :=
  text_eq (Nat.succ_pos _) List.not_mem_nil fun j _ => byte_zero j

theorem guarda_inicio : Guarda Estado.inicio [] := by
  refine ⟨rfl, holds_nil _, fun s => ?_⟩
  rw [show Estado.inicio.historico s = ByteStr.zero from rfl, text_zero]
  decide

theorem noRepeat_salva (h : NoRepeat log) (cmd : List UInt8) : NoRepeat (salva log cmd) := by
  unfold salva
  split
  · exact h
  · exact noRepeat_addNew h cmd

theorem Guarda.ultimo (h : Guarda sh log) (h0 : 0 < sh.hist_total) :
    log.getLast? = some (text (sh.historico (casa (sh.hist_total - 1)))) := by
  have hlog := h.total
  rw [List.getLast?_eq_getElem?, ← hlog]
  exact h.textos (sh.hist_total - 1) _ rfl (show _ ≤ _ + 16 by omega) (by omega)

/-- The test of `historico_salvar` for the last command again. -/
theorem Guarda.repetido_iff (h : Guarda sh log) {cmd : ByteStr MAX_INPUT}
    (hcmd : (text cmd).length < MAX_INPUT) :
    (0 < sh.hist_total ∧ igual cmd (sh.historico (casa (sh.hist_total - 1))) MAX_INPUT 0 = true) ↔
      log.getLast? = some (text cmd) := by
  rcases Nat.eq_zero_or_pos sh.hist_total with h0 | h0
  · have hnil : log = [] := List.length_eq_zero_iff.mp (h.total ▸ h0)
    simp [h0, hnil]
  · rw [igual_iff hcmd (h.curtos _) (Nat.zero_add _) (Nat.zero_le _) (Nat.zero_le _) rfl,
      h.ultimo h0]
    simp only [h0, true_and, Option.some.injEq]
    exact eq_comm

/-- A text at the place of the next command. -/
theorem Guarda.empilha (h : Guarda sh log) {b : ByteStr MAX_INPUT}
    (hb : (text b).length < MAX_INPUT) :
    Guarda { sh with
      historico := Function.update sh.historico (casa sh.hist_total) b
      hist_total := sh.hist_total + 1 } (log ++ [text b]) := by
  have htextos : (fun s => text (Function.update sh.historico (casa sh.hist_total) b s)) =
      Function.update (fun s => text (sh.historico s)) (casa sh.hist_total) (text b) :=
    funext (Function.apply_update (fun _ => text) _ _ _)
  refine ⟨by simp [h.total], ?_, fun s => ?_⟩
  · refine htextos ▸ holds_push h.textos _ ?_
    rw [← h.total]
    rfl
  · refine lt_of_eq_of_lt (congrArg List.length (congrFun htextos s)) ?_
    by_cases hs : s = casa sh.hist_total
    · rwa [hs, Function.update_self]
    · rw [Function.update_of_ne hs]
      exact h.curtos s

/-- What a command does to the history, and when there is room for its number. -/
theorem Guarda.salvar (h : Guarda sh log) (cmd : ByteStr MAX_INPUT)
    (hcmd : (text cmd).length < MAX_INPUT) :
    (∀ sh', historico_salvar sh cmd = some sh' → Guarda sh' (salva log (text cmd))) ∧
      ((salva log (text cmd)).length < 2 ^ 31 → (historico_salvar sh cmd).isSome) := by
  have hvazio : cmd.byte 0 = 0 ↔ text cmd = [] := by
    rw [byte_eq_zero_iff hcmd (Nat.zero_le _), eq_comm, List.length_eq_zero_iff]
  unfold historico_salvar salva addNew
  simp only [hvazio, h.repetido_iff hcmd]
  split_ifs with h1 h2 h3
  · exact ⟨fun _ he => Option.some.inj he ▸ h, fun _ => rfl⟩
  · exact ⟨fun _ he => Option.some.inj he ▸ h, fun _ => rfl⟩
  · have htext : text (str_copia (sh.historico (casa sh.hist_total)) cmd MAX_INPUT) = text cmd :=
      (text_copia_texto hcmd _).1
    have hpush := h.empilha (htext.symm ▸ hcmd)
    rw [htext] at hpush
    exact ⟨fun _ he => Option.some.inj he ▸ hpush, fun _ => rfl⟩
  · refine ⟨fun _ he => by simp at he, fun hlt => absurd ?_ h3⟩
    rwa [List.length_append, List.length_singleton, ← h.total] at hlt

/-! ## The line -/

theorem linha_eq {b : ByteStr MAX_INPUT} {s : List UInt8}
    (hb : ∀ j < s.length, b.byte j = s.getD j 0) : (List.range s.length).map b.byte = s := by
  refine List.ext_getElem (by simp) fun j h1 h2 => ?_
  rw [List.getElem_map, List.getElem_range, hb j h2, List.getD_eq_getElem _ _ h2]

@[simp] theorem length_linha (sh : Estado) : sh.linha.length = sh.input_len := by simp [Estado.linha]

/-- The line as a text, with the zero that the enter key puts behind it. -/
theorem text_linha (hlen : sh.input_len < MAX_INPUT) (h0 : 0 ∉ sh.linha) :
    text (sh.input_buf.putByte sh.input_len 0) = sh.linha := by
  refine text_eq (by rwa [length_linha]) h0 fun j hj => ?_
  rw [length_linha] at hj
  rcases Nat.lt_or_eq_of_le hj with hlt | rfl
  · rw [byte_putByte_ne _ _ (by omega), List.getD_eq_getElem _ _ (by rwa [length_linha])]
    simp [Estado.linha]
  · rw [byte_putByte_self _ _ hlen, List.getD_eq_default _ _ (by rw [length_linha])]

theorem normal_ne {c d : UInt8} (h : Normal c) (hd : ¬ Normal d) : c ≠ d := fun he => hd (he ▸ h)

/-- A character at the end of the line. -/
theorem tecla_normal (sh : Estado) {c : UInt8} (hc : Normal c)
    (hlen : sh.input_len < MAX_INPUT - 1) : tecla sh c = some { sh with
      input_buf := sh.input_buf.putByte sh.input_len c
      input_len := sh.input_len + 1
      hist_nav := -1 } := by
  unfold tecla
  rw [if_neg (normal_ne hc (by decide)), if_neg (normal_ne hc (by decide)),
    if_neg (normal_ne hc (by decide)), if_neg (normal_ne hc (by decide)),
    if_neg (normal_ne hc (by decide)), if_pos ⟨hc, hlen⟩]

theorem teclas_cons (sh : Estado) (c : UInt8) (cs : List UInt8) :
    teclas sh (c :: cs) = (tecla sh c).bind fun sh => teclas sh cs := List.foldlM_cons

theorem teclas_append (sh : Estado) (cs ds : List UInt8) :
    teclas sh (cs ++ ds) = (teclas sh cs).bind fun sh => teclas sh ds := by
  simp only [teclas, List.foldlM_append]
  rfl

/-- Characters go to the end of the line, and to nothing else. -/
theorem teclas_digita (sh : Estado) {cs : List UInt8} (hcs : ∀ c ∈ cs, Normal c) (hnav : sh.hist_nav = -1)
    (hlen : sh.input_len + cs.length < MAX_INPUT) :
    ∃ sh', teclas sh cs = some sh' ∧ sh'.linha = sh.linha ++ cs ∧ sh'.historico = sh.historico ∧
      sh'.hist_total = sh.hist_total ∧ sh'.hist_nav = -1 := by
  induction cs generalizing sh with
  | nil => exact ⟨sh, rfl, (List.append_nil _).symm, rfl, rfl, hnav⟩
  | cons c cs ih =>
    rw [List.length_cons] at hlen
    have hstep := tecla_normal sh (hcs c List.mem_cons_self) (by omega)
    obtain ⟨sh', hrun, hlinha, h1, h2, h3⟩ :=
      ih { sh with
        input_buf := sh.input_buf.putByte sh.input_len c
        input_len := sh.input_len + 1
        hist_nav := -1 } (fun d hd => hcs d (List.mem_cons_of_mem _ hd)) rfl (by
          show sh.input_len + 1 + cs.length < _
          omega)
    refine ⟨sh', ?_, ?_, h1, h2, h3⟩
    · rw [teclas, List.foldlM_cons, hstep]
      exact hrun
    · rw [hlinha, List.append_cons]
      refine congrArg (· ++ cs) ?_
      simp only [Estado.linha, List.range_succ, List.map_append, List.map_singleton]
      rw [byte_putByte_self _ _ (by omega)]
      refine congrArg (· ++ [c]) (List.map_congr_left fun j hj => ?_)
      exact byte_putByte_ne _ _ (List.mem_range.mp hj).ne

/-! ## Commands -/

/-- A command as it is typed: characters, fewer than the line can hold. -/
structure Comando where
  cs : List UInt8
  normais : ∀ c ∈ cs, Normal c
  cabe : cs.length < MAX_INPUT

/-- The keys of a command. -/
def Comando.teclas (c : Comando) : List UInt8 := c.cs ++ [10]

/-- The log of the commands that are saved. -/
def salvos (log : List (List UInt8)) (cmds : List Comando) : List (List UInt8) :=
  cmds.foldl (fun log c => salva log c.cs) log

/-- An empty line behind a prompt. -/
structure Pronto (sh : Estado) (log : List (List UInt8)) : Prop extends Guarda sh log where
  vazia : sh.input_len = 0
  sem_nav : sh.hist_nav = -1

theorem pronto_inicio : Pronto Estado.inicio [] := ⟨guarda_inicio, rfl, rfl⟩

theorem length_salva_le (log : List (List UInt8)) (cmd : List UInt8) :
    log.length ≤ (salva log cmd).length := by
  unfold salva addNew
  split_ifs
  · exact le_rfl
  · exact le_rfl
  · simp

theorem length_salvos_le (log : List (List UInt8)) (cmds : List Comando) :
    log.length ≤ (salvos log cmds).length := by
  induction cmds generalizing log with
  | nil => exact le_rfl
  | cons c cmds ih => exact (length_salva_le log c.cs).trans (ih _)

theorem noRepeat_salvos (h : NoRepeat log) (cmds : List Comando) : NoRepeat (salvos log cmds) := by
  induction cmds generalizing log with
  | nil => exact h
  | cons c cmds ih => exact ih (noRepeat_salva h c.cs)

/-- The enter key. -/
theorem Guarda.enter (h : Guarda sh log) (hlen : sh.input_len < MAX_INPUT) (h0 : 0 ∉ sh.linha)
    (hnav : sh.hist_nav = -1) :
    (∀ sh', enter sh = some sh' → Pronto sh' (salva log sh.linha)) ∧
      ((salva log sh.linha).length < 2 ^ 31 → (Shell.enter sh).isSome) := by
  have htext := text_linha hlen h0
  unfold Shell.enter
  by_cases hpos : sh.input_len > 0
  · have hg : Guarda { sh with input_buf := sh.input_buf.putByte sh.input_len 0 } log :=
      ⟨h.total, h.textos, h.curtos⟩
    have hs := hg.salvar (sh.input_buf.putByte sh.input_len 0)
      (by rwa [htext, length_linha])
    rw [htext] at hs
    simp only [hpos, if_true, Option.map_map, Option.isSome_map]
    refine ⟨fun sh' he => ?_, hs.2⟩
    obtain ⟨sh1, h1, rfl⟩ := Option.map_eq_some_iff.mp he
    have hg1 := hs.1 sh1 h1
    exact ⟨⟨hg1.total, hg1.textos, hg1.curtos⟩, rfl, rfl⟩
  · have hnil : sh.linha = [] := List.length_eq_zero_iff.mp (by rw [length_linha]; omega)
    simp only [hpos, if_false, Option.map_some, Option.isSome_some, implies_true, and_true]
    intro sh' he
    obtain rfl := Option.some.inj he
    rw [hnil]
    exact ⟨⟨h.total, h.textos, h.curtos⟩, rfl, hnav⟩

/-- A command typed behind the prompt. -/
theorem Pronto.comando (h : Pronto sh log) (c : Comando) :
    (∀ sh', teclas sh c.teclas = some sh' → Pronto sh' (salva log c.cs)) ∧
      ((salva log c.cs).length < 2 ^ 31 → (teclas sh c.teclas).isSome) := by
  obtain ⟨sh1, hrun, hlinha, h1, h2, h3⟩ :=
    teclas_digita sh c.normais h.sem_nav (by rw [h.vazia, Nat.zero_add]; exact c.cabe)
  have hnil : sh.linha = [] := List.length_eq_zero_iff.mp (by rw [length_linha, h.vazia])
  rw [hnil, List.nil_append] at hlinha
  have hg : Guarda sh1 log := ⟨h2.trans h.total, h1 ▸ h.textos, h1 ▸ h.curtos⟩
  have henter := hg.enter (by rw [← length_linha, hlinha]; exact c.cabe)
    (by rw [hlinha]; exact fun hm => absurd (c.normais 0 hm) (by decide)) h3
  rw [hlinha] at henter
  have hteclas : teclas sh c.teclas = Shell.enter sh1 := by
    rw [Comando.teclas, teclas_append, hrun]
    exact (teclas_cons sh1 10 []).trans (Option.bind_fun_some _)
  rwa [hteclas]

/-- A run of commands. -/
theorem Pronto.comandos (h : Pronto sh log) (cmds : List Comando) :
    (∀ sh', teclas sh (cmds.flatMap Comando.teclas) = some sh' → Pronto sh' (salvos log cmds)) ∧
      ((salvos log cmds).length < 2 ^ 31 → (teclas sh (cmds.flatMap Comando.teclas)).isSome) := by
  induction cmds generalizing sh log with
  | nil => exact ⟨fun _ he => Option.some.inj he ▸ h, fun _ => rfl⟩
  | cons c cmds ih =>
    obtain ⟨hsome, hroom⟩ := h.comando c
    rw [List.flatMap_cons, teclas_append]
    constructor
    · intro sh' he
      obtain ⟨sh1, h1, h2⟩ := Option.bind_eq_some_iff.mp he
      exact (ih (hsome sh1 h1)).1 sh' h2
    · intro hlt
      have hle : (salva log c.cs).length ≤ (salvos log (c :: cmds)).length :=
        length_salvos_le (salva log c.cs) cmds
      obtain ⟨sh1, h1⟩ := Option.isSome_iff_exists.mp (hroom (hle.trans_lt hlt))
      rw [h1]
      exact (ih (hsome sh1 h1)).2 hlt

/-! ## Arrows -/

/-- The key of an arrow. -/
def seta : Arrow → UInt8
  | .up => TECLA_SETA_CIMA
  | .down => TECLA_SETA_BAIXO

/-- The line that the shell shows where `hist_nav + 1` is `p`: counted around the array. -/
def mostrada (log : List (List UInt8)) : Nat → List UInt8
  | 0 => []
  | p + 1 => (back log (p % HISTORICO_MAX)).getD []

/-- The arrows are `p` above the prompt. -/
structure Navega (sh : Estado) (log : List (List UInt8)) (p : Nat) : Prop
    extends Guarda sh log where
  nav : sh.hist_nav + 1 = p
  cabe : p ≤ log.length
  mostra : sh.linha = mostrada log p

theorem indice_eq {hist_total p : Nat} (hp : p < hist_total) :
    indice hist_total p = casa (hist_total - 1 - p) := by
  have hcast : (hist_total : Int) - 1 - p = ((hist_total - 1 - p : Nat) : Int) := by omega
  have hmod : ((hist_total - 1 - p : Nat) : Int).tmod HISTORICO_MAX =
      (((hist_total - 1 - p) % HISTORICO_MAX : Nat) : Int) := (Int.ofNat_tmod _ _).symm
  refine Fin.ext ?_
  simp only [indice, idx, casa, hcast, hmod]
  rw [if_neg (by omega), Int.toNat_natCast]

/-- The command `p` before the last one, counted around the array, on the line. -/
theorem Guarda.carregar (h : Guarda sh log) {p : Nat} (hp : p < log.length) :
    Navega (historico_carregar { sh with hist_nav := p } p) log (p + 1) := by
  have hslot := h.curtos (indice sh.hist_total p)
  have hback := holds_back h.textos hp (s := indice sh.hist_total p)
    (by rw [h.total, indice_eq hp]; rfl)
  obtain ⟨hlen, -, hbytes⟩ :=
    copia_texto_spec hslot sh.input_buf (n := MAX_INPUT - 1) (Nat.zero_le _) (by omega)
  have hlinha := linha_eq fun j hj => hbytes j (Nat.zero_le _) (Nat.le_of_lt hj)
  rw [← hlen] at hlinha
  have hne : sh.hist_total ≠ 0 := by
    rw [h.total]
    omega
  unfold historico_carregar
  rw [if_neg hne]
  refine ⟨⟨h.total, h.textos, h.curtos⟩, rfl, hp, ?_⟩
  rw [mostrada, hback]
  exact hlinha

theorem tecla_seta (sh : Estado) (a : Arrow) :
    tecla sh (seta a) = some (match a with | .up => seta_cima sh | .down => seta_baixo sh) := by
  cases a <;> rfl

/-- One step up, whatever the line was. At the top the command is loaded once more. -/
theorem Guarda.cima {p : Nat} (h : Guarda sh log) (hnav : sh.hist_nav + 1 = p) (hcabe : p ≤ log.length)
    (hlog : log ≠ []) : Navega (seta_cima sh) log (move log.length p .up) := by
  have hlen : 0 < log.length := List.length_pos_iff.mpr hlog
  have h0 : sh.hist_total ≠ 0 := by
    rw [h.total]
    omega
  simp only [seta_cima, move]
  have hup : (if sh.hist_nav < sh.hist_total - 1 then sh.hist_nav + 1 else sh.hist_nav) =
      ((min (p + 1) log.length - 1 : Nat) : Int) := by
    rw [h.total]
    split <;> omega
  rw [if_neg h0, hup, show min (p + 1) log.length = min (p + 1) log.length - 1 + 1 by omega]
  exact h.carregar (by omega)

/-- One step down, whatever the line was. From the newest command it leads to the empty line. -/
theorem Guarda.baixo {p : Nat} (h : Guarda sh log) (hnav : sh.hist_nav + 1 = p) (hcabe : p ≤ log.length)
    (hp : p ≠ 0) : Navega (seta_baixo sh) log (move log.length p .down) := by
  simp only [seta_baixo, move]
  obtain ⟨p, rfl⟩ := Nat.exists_eq_succ_of_ne_zero hp
  cases p with
  | zero =>
    rw [if_neg (by omega), if_pos (by omega)]
    exact ⟨⟨h.total, h.textos, h.curtos⟩, rfl, Nat.zero_le _, rfl⟩
  | succ p =>
    have hdown : sh.hist_nav - 1 = (p : Int) := by omega
    rw [if_pos (by omega), hdown]
    exact h.carregar (by omega)

theorem Navega.cima {p : Nat} (h : Navega sh log p) :
    Navega (seta_cima sh) log (move log.length p .up) := by
  have hcabe := h.cabe
  by_cases hlog : log = []
  · have h0 : sh.hist_total = 0 := by rw [h.total, hlog, List.length_nil]
    rw [hlog, List.length_nil] at hcabe
    simp only [seta_cima, move, hlog, List.length_nil]
    rw [if_pos h0, show min (p + 1) 0 = p by omega, ← hlog]
    exact h
  · exact h.toGuarda.cima h.nav hcabe hlog

theorem Navega.baixo {p : Nat} (h : Navega sh log p) :
    Navega (seta_baixo sh) log (move log.length p .down) := by
  have hnav := h.nav
  by_cases hp : p = 0
  · simp only [seta_baixo, move]
    rw [if_neg (by omega), if_neg (by omega), show p - 1 = p by omega]
    exact h
  · exact h.toGuarda.baixo hnav h.cabe hp

/-- One arrow. -/
theorem Navega.seta {p : Nat} (h : Navega sh log p) (a : Arrow) :
    ∃ sh', tecla sh (Shell.seta a) = some sh' ∧ Navega sh' log (move log.length p a) := by
  refine ⟨_, tecla_seta sh a, ?_⟩
  cases a with
  | up => exact h.cima
  | down => exact h.baixo

/-- A run of arrows behind the prompt. -/
theorem Pronto.setas (h : Pronto sh log) (setas : List Arrow) :
    ∃ sh', teclas sh (setas.map seta) = some sh' ∧ Navega sh' log (cursor log.length setas) := by
  induction setas using List.reverseRecOn with
  | nil =>
    refine ⟨sh, rfl, h.toGuarda, by rw [h.sem_nav]; rfl, Nat.zero_le _, ?_⟩
    exact List.length_eq_zero_iff.mp (by rw [length_linha, h.vazia])
  | append_singleton setas a ih =>
    obtain ⟨sh1, h1, hn⟩ := ih
    obtain ⟨sh2, h2, hn2⟩ := hn.seta a
    rw [List.map_append, teclas_append, h1, cursor_append]
    refine ⟨sh2, ?_, hn2⟩
    rw [Option.bind_some, List.map_singleton, teclas_cons, h2]
    rfl

/-! ## The session -/

/-- The shell after the commands and the arrows. -/
def sessao (cmds : List Comando) (setas : List Arrow) : Option Estado :=
  teclas Estado.inicio (cmds.flatMap Comando.teclas ++ setas.map seta)

/-- The line of a history that keeps the last commands. -/
def esperada (log : List (List UInt8)) (setas : List Arrow) : List UInt8 :=
  (under log (cursor (kept HISTORICO_MAX log) setas)).getD []

/-- The line is the one of a history that keeps the last commands. -/
def Cronologica (cmds : List Comando) (setas : List Arrow) : Prop :=
  ∃ sh, sessao cmds setas = some sh ∧ sh.linha = esperada (salvos [] cmds) setas

/-- The line that the arrows chose. -/
theorem linha_sessao {cmds : List Comando} {setas : List Arrow}
    (h : sessao cmds setas = some sh) :
    sh.linha = mostrada (salvos [] cmds) (cursor (salvos [] cmds).length setas) := by
  rw [sessao, teclas_append] at h
  obtain ⟨sh1, h1, h2⟩ := Option.bind_eq_some_iff.mp h
  obtain ⟨sh2, h3, hn⟩ := ((pronto_inicio.comandos cmds).1 sh1 h1).setas setas
  rw [h2] at h3
  exact Option.some.inj h3 ▸ hn.mostra

theorem sessao_isSome {cmds : List Comando} (hlt : (salvos [] cmds).length < 2 ^ 31)
    (setas : List Arrow) : (sessao cmds setas).isSome := by
  obtain ⟨sh1, h1⟩ := Option.isSome_iff_exists.mp ((pronto_inicio.comandos cmds).2 hlt)
  obtain ⟨sh2, h2, -⟩ := ((pronto_inicio.comandos cmds).1 sh1 h1).setas setas
  rw [sessao, teclas_append, h1, Option.bind_some, h2]
  rfl

/-- Around the array and along the log are one as far as the array goes. -/
theorem mostrada_eq_under {p : Nat} (hp : p ≤ HISTORICO_MAX) :
    mostrada log p = (under log p).getD [] := by
  cases p with
  | zero => rfl
  | succ p => rw [mostrada, Nat.mod_eq_of_lt hp, under]

/-- Arrows that stay among the last commands. -/
theorem cronologica_of_cursor_le {cmds : List Comando} {setas : List Arrow}
    (hlt : (salvos [] cmds).length < 2 ^ 31)
    (h : ∀ bs, bs <+: setas → cursor (salvos [] cmds).length bs ≤ HISTORICO_MAX) :
    Cronologica cmds setas := by
  obtain ⟨sh, hsh⟩ := Option.isSome_iff_exists.mp (sessao_isSome hlt setas)
  refine ⟨sh, hsh, ?_⟩
  have hkept : cursor (salvos [] cmds).length setas =
      cursor (kept HISTORICO_MAX (salvos [] cmds)) setas :=
    cursor_eq_of_le (Nat.min_le_left _ _) fun bs hb => Nat.le_min.mpr ⟨cursor_le _ _, h bs hb⟩
  rw [linha_sessao hsh, mostrada_eq_under (h setas (List.prefix_refl _)), hkept, esperada]

/-- All the way up and one more, then one down: the line is the oldest command that is kept, and
the one above it is expected. -/
theorem back_eq_of_cronologica {cmds : List Comando}
    (h : Cronologica cmds (List.replicate (HISTORICO_MAX + 1) .up ++ [.down]))
    (hlen : HISTORICO_MAX < (salvos [] cmds).length) :
    back (salvos [] cmds) 14 = back (salvos [] cmds) 15 := by
  obtain ⟨sh, hsh, hlinha⟩ := h
  have hmin : min (HISTORICO_MAX + 1) (salvos [] cmds).length = 17 := Nat.min_eq_left hlen
  have hkept : min (HISTORICO_MAX + 1) (kept HISTORICO_MAX (salvos [] cmds)) = 16 := by
    rw [kept, Nat.min_eq_right hlen.le]
    rfl
  rw [linha_sessao hsh, esperada, cursor_append, cursor_append, cursor_ups, cursor_ups, hmin,
    hkept] at hlinha
  simp only [move, Nat.add_one_sub_one, mostrada, under,
    Nat.mod_eq_of_lt (show 15 < HISTORICO_MAX by decide)] at hlinha
  rw [back_eq _ (show 14 < _ by omega), back_eq _ (show 15 < _ by omega),
    List.getElem?_eq_getElem (by omega), List.getElem?_eq_getElem (by omega)] at hlinha ⊢
  exact congrArg some hlinha.symm

/-- The arrows choose the right line, whatever they are, exactly where no command was lost. Among
more commands they do as long as they stay among the last ones. -/
theorem history_is_chronological_iff (cmds : List Comando) :
    ((∀ setas, Cronologica cmds setas) ↔ (salvos [] cmds).length ≤ HISTORICO_MAX) ∧
      ∀ setas, (salvos [] cmds).length < 2 ^ 31 →
        (∀ bs, bs <+: setas → cursor (salvos [] cmds).length bs ≤ HISTORICO_MAX) →
          ∀ bs, bs <+: setas → Cronologica cmds bs := by
  refine ⟨⟨fun h => ?_, fun hle setas => ?_⟩, fun setas hlt h bs hb => ?_⟩
  · by_contra hgt
    rw [Nat.not_le] at hgt
    have hnil : NoRepeat ([] : List (List UInt8)) := fun _ hp => absurd hp (Nat.not_lt_zero _)
    have hne := noRepeat_salvos hnil cmds 14 (lt_trans (by decide) hgt)
    exact hne (back_eq_of_cronologica (h _) hgt)
  · exact cronologica_of_cursor_le (lt_of_le_of_lt hle (by decide)) fun bs _ =>
      (cursor_le _ bs).trans hle
  · exact cronologica_of_cursor_le hlt fun cs hc => h cs (hc.trans hb)

/-- A command of one letter. -/
def letra (c : UInt8) (hc : Normal c) : Comando :=
  ⟨[c], fun _ hd => List.mem_singleton.mp hd ▸ hc, show 1 < 128 by decide⟩

/-- `A`, `B`, `A`, `B`, and so on, eighteen commands: the seventeenth step up shows the newest one
in place of the oldest one that is kept. -/
theorem seventeenth_step_shows_the_newest :
    ¬ Cronologica (List.replicate 9 [letra 65 (by decide), letra 66 (by decide)]).flatten
      (List.replicate 17 .up) := by
  rintro ⟨sh, hsh, hlinha⟩
  rw [linha_sessao hsh] at hlinha
  exact absurd hlinha (by decide +kernel)

end SpaceOS.Shell
