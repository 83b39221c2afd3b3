-- The keyboard (kernel/teclado.c): the handler of its interrupt, the one place for a character that it
-- shares with those who ask for the last one, and which keys these get.
import SpaceOS.Lib.Mailbox

open Lib.Mailbox

namespace SpaceOS.Teclado

/-! ## The file -/

/-- The character of each scancode, 0 for none. -/
def scancode_map : List UInt8 :=
  [
   0, 27, 49, 50, 51, 52, 53, 54, 55, 56, 57, 48, 45, 61, 8, 9,
   113, 119, 101, 114, 116, 121, 117, 105, 111, 112, 96, 91, 10, 0, 97, 115,
   100, 102, 103, 104, 106, 107, 108, 59, 39, 39, 0, 93, 122, 120, 99, 118,
   98, 110, 109, 44, 46, 47, 0, 42, 0, 32, 0, 0, 0, 0, 0, 0,
   0, 0, 0, 0, 0, 0, 0, 55, 56, 57, 45, 52, 53, 54, 43, 49,
   50, 51, 48, 46, 0, 0, 92, 0, 0, 0, 0, 0, 0, 0, 0, 0,
   0, 0, 0, 0, 0, 0, 0, 0, 0, 0, 0, 0, 0, 0, 0, 0,
   0, 0, 0, 47, 0, 0, 0, 0, 0, 0, 0, 0, 0, 0, 0, 0]

def TECLA_SETA_CIMA : UInt8 := 0x81

def TECLA_SETA_BAIXO : UInt8 := 0x82

def TECLA_SETA_ESQ : UInt8 := 0x83

def TECLA_SETA_DIR : UInt8 := 0x84

/-- The static variables, and how often `pic_ack(1)` has been called. -/
structure Estado where
  ultimo_char : UInt8
  prefixo_e0 : Bool
  acks : Nat

def pic_ack (t : Estado) : Estado := { t with acks := t.acks + 1 }

/-- The codes of the four arrows. -/
def seta (scancode : UInt8) : Option UInt8 :=
  if scancode = 0x48 then some TECLA_SETA_CIMA
  else if scancode = 0x50 then some TECLA_SETA_BAIXO
  else if scancode = 0x4B then some TECLA_SETA_ESQ
  else if scancode = 0x4D then some TECLA_SETA_DIR
  else none

/-- `scancode` is the byte that the port gives. -/
def teclado_handler (t : Estado) (scancode : UInt8) : Estado :=
  if scancode &&& 0x80 ≠ 0 then pic_ack { t with prefixo_e0 := false }
  else if scancode = 0xE0 then pic_ack { t with prefixo_e0 := true }
  else if t.prefixo_e0 then
    pic_ack { t with prefixo_e0 := false, ultimo_char := (seta scancode).getD (0x90 + scancode) }
  else
    match seta scancode with
    | some c => pic_ack { t with ultimo_char := c }
    | none =>
      if scancode < 128 ∧ scancode_map.getD scancode.toNat 0 ≠ 0 then
        pic_ack { t with ultimo_char := scancode_map.getD scancode.toNat 0 }
      else pic_ack t

/-- A call without an interrupt in between. -/
def teclado_ultimo_char (t : Estado) : UInt8 × Estado :=
  (t.ultimo_char, { t with ultimo_char := 0 })

/-! ## The handler beside the calls

The loop of the shell, and that of the command `tecla`, call `teclado_ultimo_char` again and again. An
interrupt may come in front of each of its two steps. -/

/-- The step that a call does next. -/
inductive Fase where
  | le
  | limpa
  deriving DecidableEq

/-- The characters that the calls have read, zeros left out. The last one may still be on its way. -/
structure Maquina where
  tec : Estado
  fase : Fase
  lidas : List UInt8

def Maquina.inicio : Maquina := ⟨⟨0, false, 0⟩, .le, []⟩

inductive Evento where
  | irq (scancode : UInt8)
  | avanca

def passo (m : Maquina) : Evento → Maquina
  | .irq scancode => { m with tec := teclado_handler m.tec scancode }
  | .avanca =>
    match m.fase with
    | .le =>
      { m with
        fase := .limpa
        lidas := if m.tec.ultimo_char = 0 then m.lidas else m.lidas ++ [m.tec.ultimo_char] }
    | .limpa => { m with fase := .le, tec := { m.tec with ultimo_char := 0 } }

def roda (m : Maquina) (es : List Evento) : Maquina := es.foldl passo m

/-- The two steps of a call are `teclado_ultimo_char`, if no interrupt comes between them. -/
theorem passo_passo (m : Maquina) (h : m.fase = .le) : roda m [.avanca, .avanca] =
    { m with
      tec := (teclado_ultimo_char m.tec).2
      lidas := if (teclado_ultimo_char m.tec).1 = 0 then m.lidas
        else m.lidas ++ [(teclado_ultimo_char m.tec).1] } := by
  obtain ⟨t, f, l⟩ := m
  obtain rfl : f = .le := h
  rfl

/-! ## The keys -/

/-- The character that an interrupt with this scancode leaves. -/
def caractere (scancode : UInt8) : Option UInt8 :=
  if scancode &&& 0x80 ≠ 0 then none
  else
    match seta scancode with
    | some c => some c
    | none =>
      if scancode_map.getD scancode.toNat 0 ≠ 0 then some (scancode_map.getD scancode.toNat 0) else none

/-- What the interrupts and the steps of the calls do to the place. -/
def marca : Fase → List Evento → List (Event UInt8)
  | _, [] => []
  | f, .irq scancode :: es => (caractere scancode).toList.map .put ++ marca f es
  | .le, .avanca :: es => .read :: marca .limpa es
  | .limpa, .avanca :: es => .clear :: marca .le es

def interrupcoes : List Evento → Nat
  | [] => 0
  | .irq _ :: es => interrupcoes es + 1
  | .avanca :: es => interrupcoes es

section Teclas

variable {t : Estado} {m : Maquina}

theorem caractere_ne_zero {scancode c : UInt8} (h : caractere scancode = some c) : c ≠ 0 := by
  unfold caractere at h
  split at h
  · cases h
  split at h
  · rename_i hs
    obtain rfl := Option.some.inj h
    unfold seta at hs
    split_ifs at hs <;> (obtain rfl := Option.some.inj hs; decide)
  · split at h
    · rename_i hne
      obtain rfl := Option.some.inj h
      exact hne
    · cases h

theorem lt_of_sem_bit_7 {scancode : UInt8} (h : scancode &&& 0x80 = 0) : scancode < 128 := by
  have hbits : ∀ b : BitVec 8, b &&& 0x80#8 = 0#8 → b < 128#8 := by decide
  rw [UInt8.lt_iff_toBitVec_lt]
  exact hbits _ (by simpa using congrArg UInt8.toBitVec h)

/-- No scancode without bit 7 is the prefix, so the prefix is never on. -/
theorem teclado_handler_eq (h : t.prefixo_e0 = false) (scancode : UInt8) :
    teclado_handler t scancode = ⟨(caractere scancode).getD t.ultimo_char, false, t.acks + 1⟩ := by
  obtain ⟨u, p, n⟩ := t
  obtain rfl : p = false := h
  unfold teclado_handler caractere pic_ack
  by_cases h7 : scancode &&& 0x80 ≠ 0
  · rw [if_pos h7, if_pos h7]
    rfl
  rw [if_neg h7, if_neg h7, if_neg, if_neg Bool.false_ne_true]
  · cases seta scancode with
    | some c => rfl
    | none =>
      have hlt := lt_of_sem_bit_7 (not_not.mp h7)
      by_cases hc : scancode_map.getD scancode.toNat 0 ≠ 0
      · rw [if_pos hc]
        exact if_pos ⟨hlt, hc⟩
      · rw [if_neg hc]
        exact if_neg fun hn => hc hn.2
  · rintro rfl
    exact h7 (by decide)

/-! ## Runs -/

/-- The place as a box for one character. -/
def caixa (m : Maquina) : Box UInt8 :=
  ⟨if m.tec.ultimo_char = 0 then none else some m.tec.ultimo_char, m.lidas⟩

/-- The run is one of the box. -/
theorem roda_spec (hp : m.tec.prefixo_e0 = false) (es : List Evento) :
    (roda m es).tec.prefixo_e0 = false ∧ (roda m es).tec.acks = m.tec.acks + interrupcoes es ∧
      caixa (roda m es) = run (caixa m) (marca m.fase es) := by
  induction es generalizing m with
  | nil => exact ⟨hp, rfl, rfl⟩
  | cons e es ih =>
    obtain ⟨⟨u, p, n⟩, f, l⟩ := m
    obtain rfl : p = false := hp
    cases e with
    | irq scancode =>
      have hh := teclado_handler_eq (t := ⟨u, false, n⟩) rfl scancode
      obtain ⟨h1, h2, h3⟩ := ih (m := passo ⟨⟨u, false, n⟩, f, l⟩ (.irq scancode))
        (congrArg Estado.prefixo_e0 hh)
      refine ⟨h1, h2.trans ?_, h3.trans ?_⟩
      · change (teclado_handler ⟨u, false, n⟩ scancode).acks + interrupcoes es = _
        rw [hh, interrupcoes]
        exact Nat.add_right_comm n 1 _
      · change run (caixa ⟨teclado_handler ⟨u, false, n⟩ scancode, f, l⟩) (marca f es) = _
        rw [hh, marca]
        cases hc : caractere scancode with
        | none => rfl
        | some c =>
          have hbox : caixa ⟨⟨c, false, n + 1⟩, f, l⟩ = step (caixa ⟨⟨u, false, n⟩, f, l⟩) (.put c) := by
            unfold caixa
            dsimp only
            rw [if_neg (caractere_ne_zero hc)]
            rfl
          exact congrArg (fun b => run b (marca f es)) hbox
    | avanca =>
      rw [interrupcoes]
      cases f with
      | le =>
        refine (ih (m := passo ⟨⟨u, false, n⟩, .le, l⟩ .avanca) rfl).imp_right (.imp_right ?_)
        intro h3
        refine h3.trans (congrArg (fun b => run b (marca .limpa es)) ?_)
        unfold caixa passo step
        dsimp only
        by_cases hu : u = 0
        · rw [if_pos hu, if_pos hu, Option.toList_none, List.append_nil]
        · rw [if_neg hu, if_neg hu]
          rfl
      | limpa => exact ih (m := passo ⟨⟨u, false, n⟩, .limpa, l⟩ .avanca) rfl

theorem turns_marca (f : Fase) (es : List Evento) : Turns (f = .limpa) (marca f es) := by
  induction es generalizing f with
  | nil => trivial
  | cons e es ih =>
    cases e with
    | irq scancode =>
      rw [marca]
      cases caractere scancode with
      | none => exact ih f
      | some c => exact ih f
    | avanca =>
      cases f with
      | le => exact ⟨rfl, ih .limpa⟩
      | limpa => exact ⟨rfl, ih .le⟩

/-! ## The law -/

/-- The characters of the keys that are pressed. -/
def digitadas : List Evento → List UInt8
  | [] => []
  | .irq scancode :: es => (caractere scancode).toList ++ digitadas es
  | .avanca :: es => digitadas es

theorem written_marca (f : Fase) (es : List Evento) : written (marca f es) = digitadas es := by
  induction es generalizing f with
  | nil => rfl
  | cons e es ih =>
    cases e with
    | irq scancode =>
      rw [marca, digitadas]
      cases caractere scancode with
      | none => exact ih f
      | some c => exact congrArg (c :: ·) (ih f)
    | avanca =>
      cases f with
      | le => exact ih .limpa
      | limpa => exact ih .le

/-- Whatever the order of the interrupts and of the steps of the calls: a character is read exactly if
a call reads before the next character comes and before a call clears, so each at most once and in
order. Every interrupt is acknowledged once, and the prefix 0xE0 is never seen. -/
theorem a_key_is_read_or_lost (es : List Evento) :
    (roda .inicio es).lidas = taken (marca .le es) ∧
      (roda .inicio es).lidas.Sublist (digitadas es) ∧
      (roda .inicio es).tec.acks = interrupcoes es ∧ (roda .inicio es).tec.prefixo_e0 = false := by
  obtain ⟨h1, h2, h3⟩ := roda_spec (m := .inicio) rfl es
  have hlidas : (roda .inicio es).lidas = taken (marca .le es) := by
    have hseen := congrArg Box.seen h3
    exact hseen.trans (seen_run (turns_marca .le es) _)
  refine ⟨hlidas, ?_, h2.trans (Nat.zero_add _), h1⟩
  rw [hlidas, ← written_marca .le es]
  exact taken_sublist _

/-- A key between the two steps of a call is lost. -/
example : (roda .inicio [.irq 0x1E, .avanca, .irq 0x30, .avanca, .avanca]).lidas = [97] := by decide

end Teclas

end SpaceOS.Teclado
