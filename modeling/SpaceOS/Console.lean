-- The two writers on the text screen: that of the boot (kernel/main.c) and that of the shell
-- (kernel/shell/shell.c), each with a cursor of its own.
import Mathlib.Logic.Function.Basic

namespace SpaceOS.Console

abbrev VGA_COLS : Nat := 80

abbrev VGA_ROWS : Nat := 25

/-- White on black. -/
def COLOR : UInt8 := 0x0F

/-- The cells from `VGA_BASE` on. -/
abbrev Vga := Nat → UInt16

/-- `c | (cor << 8)`. -/
def celula (c cor : UInt8) : UInt16 := c.toUInt16 ||| (cor.toUInt16 <<< 8)

def ESPACO : UInt8 := 32

/-- `none` where the cell is not on the screen. -/
def le (vga : Vga) (pos : Nat) : Option UInt16 :=
  if pos < VGA_ROWS * VGA_COLS then some (vga pos) else none

/-- `none` where the cell is not on the screen. -/
def poe (vga : Vga) (pos : Nat) (v : UInt16) : Option Vga :=
  if pos < VGA_ROWS * VGA_COLS then some (Function.update vga pos v) else none

/-! ## The boot -/

/-- The static variables of main.c. -/
structure Boot where
  vga : Vga
  col : Nat
  lin : Nat

def clean_screen (t : Boot) : Option Boot :=
  ((List.range (VGA_COLS * VGA_ROWS)).foldlM (fun vga i => poe vga i (celula ESPACO COLOR)) t.vga).map
    fun vga => ⟨vga, 0, 0⟩

def write_char (t : Boot) (c : UInt8) : Option Boot :=
  if c = 8 then
    let t :=
      if t.col > 0 then { t with col := t.col - 1 }
      else if t.lin > 0 then { t with lin := t.lin - 1, col := VGA_COLS - 1 }
      else t
    (poe t.vga (t.lin * VGA_COLS + t.col) (celula ESPACO COLOR)).map fun vga => { t with vga }
  else if c = 10 then some { t with col := 0, lin := t.lin + 1 }
  else
    (poe t.vga (t.lin * VGA_COLS + t.col) (celula c COLOR)).map fun vga =>
      if t.col + 1 ≥ VGA_COLS then ⟨vga, 0, t.lin + 1⟩ else ⟨vga, t.col + 1, t.lin⟩

def write (t : Boot) (s : List UInt8) : Option Boot := s.foldlM write_char t

/-- What the calls of `kernel_main` find. -/
structure Aparelhos where
  disco : Bool
  disco1 : Bool
  vfs : Bool
  dma : Bool
  ahci : Bool
  spfs : Bool
  pci : Bool
  acpi : Bool
  hda : Bool
  rtl8139 : Bool
  wifi : Bool
  usb : Bool

/-- The texts up to the scheduler. -/
def mensagens_nucleo : List String :=
  ["SpaceOS v0.1 - Bare Metal\n", "=================================\n",
    "Teclado: inicializando...\n", "GDT ok\n", "IDT ok\n", "PIC ok\n", "Teclado ok\n", "PMM ok\n",
    "Paging ok!", "Heap ok\n", "Slab ok\n", "Proc ok\n", "timer ok!\n", "Sched ok\n"]

/-- The texts from the disks on. -/
def mensagens_aparelhos (a : Aparelhos) : List String :=
  [if a.disco then "Disco ok\n" else "Sem disco\n"] ++
  (if a.disco1 then ["Disco1 ok\n"] else []) ++
  [if a.vfs then "VFS: FAT32 montado\n" else "VFS: sem filesystem\n"] ++
  (if a.dma then ["DMA ok\n"] else []) ++
  [if a.ahci then "AHCI ok\n" else "AHCI: sem dispositivo\n"] ++
  (if a.spfs then ["SpaceFS montado\n"] else []) ++
  ["PKG ok\n"] ++
  (if a.pci then ["PCI ok\n"] else []) ++
  [if a.acpi then "ACPI ok\n" else "ACPI: sem tabelas\n", "APIC ok\n",
    if a.hda then "HDA ok\n" else "HDA: sem dispositivo\n", "Netbuf ok\n",
    if a.rtl8139 then "RTL8139 ok\n" else "RTL8139: sem placa\n"] ++
  (if a.wifi then ["WiFi: chipset detectado\n"] else []) ++
  [if a.usb then "USB ok\n" else "USB: sem EHCI\n", "Syscall ok\n"]

def bytes (s : String) : List UInt8 := s.toList.map Char.toUInt8

/-- All that `kernel_main` writes. -/
def boot (a : Aparelhos) : List UInt8 :=
  (mensagens_nucleo ++ mensagens_aparelhos a).flatMap bytes

/-! ## The shell -/

/-- The static variables of shell.c that the output changes. -/
structure Tela where
  vga : Vga
  cur_col : Nat
  cur_lin : Nat
  cor_atual : UInt8

def shell_clear (s : Tela) : Option Tela :=
  ((List.range (VGA_COLS * VGA_ROWS)).foldlM (fun vga i => poe vga i (celula ESPACO s.cor_atual))
    s.vga).map fun vga => { s with vga, cur_col := 0, cur_lin := 0 }

/-- The rows move up, and the last one becomes blank. -/
def scroll (s : Tela) : Option Tela :=
  ((List.range ((VGA_ROWS - 1) * VGA_COLS)).foldlM
      (fun vga i => (le vga (i + VGA_COLS)).bind fun c => poe vga i c) s.vga).bind fun vga =>
    ((List.range' ((VGA_ROWS - 1) * VGA_COLS) VGA_COLS).foldlM
        (fun vga i => poe vga i (celula ESPACO s.cor_atual)) vga).map fun vga =>
      { s with vga, cur_lin := VGA_ROWS - 1 }

/-- `cur_lin++`, from the first column on. -/
def proxima_linha (s : Tela) : Option Tela :=
  let s := { s with cur_col := 0, cur_lin := s.cur_lin + 1 }
  if s.cur_lin ≥ VGA_ROWS then scroll s else some s

def shell_write_char (s : Tela) (c : UInt8) : Option Tela :=
  if c = 10 then proxima_linha s
  else if c = 8 then
    if s.cur_col > 0 then
      let s := { s with cur_col := s.cur_col - 1 }
      (poe s.vga (s.cur_lin * VGA_COLS + s.cur_col) (celula ESPACO s.cor_atual)).map fun vga =>
        { s with vga }
    else some s
  else
    (poe s.vga (s.cur_lin * VGA_COLS + s.cur_col) (celula c s.cor_atual)).bind fun vga =>
      let s := { s with vga, cur_col := s.cur_col + 1 }
      if s.cur_col ≥ VGA_COLS then proxima_linha s else some s

def shell_set_cor (s : Tela) (c : UInt8) : Tela := { s with cor_atual := c ||| 0x00 }

/-- A call that writes, or changes the colour of what is written. -/
inductive Chamada where
  | shell_write_char (c : UInt8)
  | shell_set_cor (c : UInt8)
  deriving DecidableEq

def chama (s : Tela) : Chamada → Option Tela
  | .shell_write_char c => shell_write_char s c
  | .shell_set_cor c => some (shell_set_cor s c)

def chamadas (s : Tela) (cs : List Chamada) : Option Tela := cs.foldlM chama s

end SpaceOS.Console
