-- The input line of the shell and the history of its commands (kernel/shell/shell.c): what each key
-- that the loop of `shell_init` reads does to them.
import Mathlib.Logic.Function.Basic
import SpaceOS.Lib.CString

open Lib.Bytes Lib.CString

namespace SpaceOS.Shell

abbrev MAX_INPUT : Nat := 128

abbrev HISTORICO_MAX : Nat := 16

def TECLA_SETA_CIMA : UInt8 := 0x81

def TECLA_SETA_BAIXO : UInt8 := 0x82

/-- The static variables of the file that hold the line and the history. -/
structure Estado where
  input_buf : ByteStr MAX_INPUT
  input_len : Nat
  historico : Fin HISTORICO_MAX → ByteStr MAX_INPUT
  hist_total : Nat
  hist_nav : Int

/-- The values before the first key. -/
def Estado.inicio : Estado := ⟨ByteStr.zero, 0, fun _ => ByteStr.zero, 0, -1⟩

/-- The line that the user sees behind the prompt. -/
def Estado.linha (sh : Estado) : List UInt8 := (List.range sh.input_len).map sh.input_buf.byte

/-! ## The history -/

/-- The loop that copies a text: `n` bytes at most from place `i`, and a zero behind them. It gives
the buffer and the place of the zero. -/
def copia_texto (src : ByteStr MAX_INPUT) : Nat → Nat → ByteStr MAX_INPUT → ByteStr MAX_INPUT × Nat
  | 0, i, dst => (dst.putByte i 0, i)
  | n + 1, i, dst =>
    if src.byte i ≠ 0 then copia_texto src n (i + 1) (dst.putByte i (src.byte i))
    else (dst.putByte i 0, i)

def str_copia (dst src : ByteStr MAX_INPUT) (max : Nat) : ByteStr MAX_INPUT :=
  (copia_texto src (max - 1) 0 dst).1

/-- The loop that compares a command with the last one, `n` bytes at most from place `i`. -/
def igual (cmd ultimo : ByteStr MAX_INPUT) : Nat → Nat → Bool
  | 0, _ => true
  | n + 1, i =>
    if cmd.byte i ≠ 0 ∨ ultimo.byte i ≠ 0 then
      if cmd.byte i ≠ ultimo.byte i then false else igual cmd ultimo n (i + 1)
    else true

/-- `i % HISTORICO_MAX`. -/
def casa (i : Nat) : Fin HISTORICO_MAX := ⟨i % HISTORICO_MAX, Nat.mod_lt _ (by decide)⟩

/-- `none` where `hist_total++` leaves the range of `int`. -/
def historico_salvar (sh : Estado) (cmd : ByteStr MAX_INPUT) : Option Estado :=
  if cmd.byte 0 = 0 then some sh
  else if 0 < sh.hist_total ∧ igual cmd (sh.historico (casa (sh.hist_total - 1))) MAX_INPUT 0 then
    some sh
  else if sh.hist_total + 1 < 2 ^ 31 then
    let i := casa sh.hist_total
    some { sh with
      historico := Function.update sh.historico i (str_copia (sh.historico i) cmd MAX_INPUT)
      hist_total := sh.hist_total + 1 }
  else none

/-- `idx` of `historico_carregar`: the remainder has the sign of its left side. -/
def idx (hist_total : Nat) (pos : Int) : Int :=
  let i := ((hist_total : Int) - 1 - pos).tmod HISTORICO_MAX
  if i < 0 then i + HISTORICO_MAX else i

theorem idx_range (hist_total : Nat) (pos : Int) :
    0 ≤ idx hist_total pos ∧ idx hist_total pos < HISTORICO_MAX := by
  have hlt := Int.tmod_lt_of_pos ((hist_total : Int) - 1 - pos) (show (0 : Int) < 16 by decide)
  have hgt := Int.lt_tmod_of_pos ((hist_total : Int) - 1 - pos) (show (0 : Int) < 16 by decide)
  have hmax : (HISTORICO_MAX : Int) = 16 := rfl
  simp only [idx, hmax]
  split <;> omega

/-- The line of the array that `idx` is. -/
def indice (hist_total : Nat) (pos : Int) : Fin HISTORICO_MAX :=
  ⟨(idx hist_total pos).toNat, by have := idx_range hist_total pos; omega⟩

def historico_carregar (sh : Estado) (pos : Int) : Estado :=
  if sh.hist_total = 0 then sh
  else
    let cmd := sh.historico (indice sh.hist_total pos)
    let (input_buf, input_len) := copia_texto cmd (MAX_INPUT - 1) 0 sh.input_buf
    { sh with input_buf, input_len }

/-! ## The keys -/

/-- `c >= ' '`, `char` being signed. -/
def Normal (c : UInt8) : Prop := 32 ≤ c ∧ c < 128

instance (c : UInt8) : Decidable (Normal c) := inferInstanceAs (Decidable (_ ∧ _))

/-- The enter key: a line that is not empty goes to the history. What the command does is left out,
the variables are the file's own. -/
def enter (sh : Estado) : Option Estado :=
  let sh := { sh with input_buf := sh.input_buf.putByte sh.input_len 0 }
  let salvo :=
    if sh.input_len > 0 then
      (historico_salvar sh sh.input_buf).map fun sh => { sh with hist_nav := -1 }
    else some sh
  salvo.map fun sh => { sh with input_len := 0, input_buf := sh.input_buf.putByte 0 0 }

def seta_cima (sh : Estado) : Estado :=
  if sh.hist_total = 0 then sh
  else
    let hist_nav := if sh.hist_nav < sh.hist_total - 1 then sh.hist_nav + 1 else sh.hist_nav
    historico_carregar { sh with hist_nav } hist_nav

def seta_baixo (sh : Estado) : Estado :=
  if sh.hist_nav > 0 then
    historico_carregar { sh with hist_nav := sh.hist_nav - 1 } (sh.hist_nav - 1)
  else if sh.hist_nav = 0 then
    { sh with input_len := 0, input_buf := sh.input_buf.putByte 0 0, hist_nav := -1 }
  else sh

/-- One turn of the loop. -/
def tecla (sh : Estado) (c : UInt8) : Option Estado :=
  if c = 0 then some sh
  else if c = 10 then enter sh
  else if c = 8 then
    some (if sh.input_len > 0 then { sh with input_len := sh.input_len - 1 } else sh)
  else if c = TECLA_SETA_CIMA then some (seta_cima sh)
  else if c = TECLA_SETA_BAIXO then some (seta_baixo sh)
  else if Normal c ∧ sh.input_len < MAX_INPUT - 1 then
    some { sh with
      input_buf := sh.input_buf.putByte sh.input_len c
      input_len := sh.input_len + 1
      hist_nav := -1 }
  else some sh

def teclas (sh : Estado) (cs : List UInt8) : Option Estado := cs.foldlM tecla sh

end SpaceOS.Shell
