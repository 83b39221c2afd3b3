-- What stands on the screen: the text of the shell, laid out on a page without end, is shown up to
-- its last row; that of the boot is, as long as the page needs no row that the screen does not have.
import Mathlib.Data.List.Induction
import SpaceOS.Console
import SpaceOS.Lib.Screen

open Lib.Screen

namespace SpaceOS.Console

/-! ## Cells -/

/-- The characters of the cells. -/
def texto (vga : Vga) (i : Nat) : UInt8 := (vga i).toUInt8

section Celulas

variable {vga : Vga} {i : Nat}

theorem toUInt8_celula (c cor : UInt8) : (celula c cor).toUInt8 = c := by
  refine UInt8.toNat_inj.mp ?_
  have hc := c.toNat_lt
  have hcor : (cor.toUInt16 <<< 8).toNat = cor.toNat * 256 := by
    have hlt := cor.toNat_lt
    rw [UInt16.toNat_shiftLeft, UInt8.toNat_toUInt16, Nat.shiftLeft_eq]
    change cor.toNat * 256 % 65536 = _
    omega
  unfold celula
  rw [UInt16.toNat_toUInt8, UInt16.toNat_or, UInt8.toNat_toUInt16, hcor,
    Nat.or_mod_two_pow (n := 8)]
  rw [show cor.toNat * 256 % 2 ^ 8 = 0 by omega, Nat.or_zero]
  omega

/-- A character that goes to a cell. -/
theorem texto_celula (vga : Vga) (i : Nat) (c cor : UInt8) :
    texto (Function.update vga i (celula c cor)) = Function.update (texto vga) i c := by
  have hcomp : texto (Function.update vga i (celula c cor)) =
      Function.update (texto vga) i (celula c cor).toUInt8 := Function.comp_update _ _ _ _
  rw [hcomp, toUInt8_celula]

theorem le_eq (h : i < VGA_ROWS * VGA_COLS) : le vga i = some (vga i) := if_pos h

theorem poe_eq (h : i < VGA_ROWS * VGA_COLS) (v : UInt16) :
    poe vga i v = some (Function.update vga i v) := if_pos h

/-- A loop that writes one cell behind the other, and reads none that it has written. -/
theorem laco_eq {g : Vga → Nat → Option Vga} {f : Vga → Nat → UInt16} {a k : Nat}
    (hg : ∀ vga i, a ≤ i → i < a + k → g vga i = some (Function.update vga i (f vga i)))
    (hf : ∀ vga vga' i, (∀ j, i ≤ j → vga' j = vga j) → f vga' i = f vga i) :
    (List.range' a k).foldlM g vga =
      some fun j => if a ≤ j ∧ j < a + k then f vga j else vga j := by
  induction k generalizing a vga with
  | zero =>
    refine congrArg some (funext fun j => (if_neg ?_).symm)
    omega
  | succ k ih =>
    rw [List.range'_succ, List.foldlM_cons, hg vga a (Nat.le_refl a) (by omega)]
    refine (ih (a := a + 1) fun vga i h1 h2 => hg vga i (by omega) (by omega)).trans ?_
    refine congrArg some (funext fun j => ?_)
    rcases Nat.lt_trichotomy j a with hj | rfl | hj
    · rw [if_neg (by omega), if_neg (by omega), Function.update_of_ne (Nat.ne_of_lt hj)]
    · rw [if_neg (by omega), if_pos (by omega), Function.update_self]
    · have hcell : f (Function.update vga a (f vga a)) j = f vga j :=
        hf _ _ _ fun i hi => Function.update_of_ne (by omega) _ _
      rw [hcell, Function.update_of_ne (by omega)]
      by_cases hk : j < a + (k + 1)
      · rw [if_pos (by omega), if_pos (by omega)]
      · rw [if_neg (by omega), if_neg (by omega)]

theorem apaga_eq (vga : Vga) (v : UInt16) {a k : Nat} (h : a + k ≤ VGA_ROWS * VGA_COLS) :
    (List.range' a k).foldlM (fun vga i => poe vga i v) vga =
      some fun j => if a ≤ j ∧ j < a + k then v else vga j :=
  laco_eq (f := fun _ _ => v) (fun _ _ _ hi => poe_eq (Nat.lt_of_lt_of_le hi h) v)
    fun _ _ _ _ => rfl

theorem sobe_eq (vga : Vga) :
    (List.range ((VGA_ROWS - 1) * VGA_COLS)).foldlM
        (fun vga i => (le vga (i + VGA_COLS)).bind fun c => poe vga i c) vga =
      some fun j => if j < (VGA_ROWS - 1) * VGA_COLS then vga (j + VGA_COLS) else vga j := by
  rw [List.range_eq_range']
  refine (laco_eq (f := fun vga i => vga (i + VGA_COLS)) (fun vga i _ hi => ?_)
    fun vga vga' i h => h _ (Nat.le_add_right i _)).trans ?_
  · have hmax : VGA_ROWS * VGA_COLS = (VGA_ROWS - 1) * VGA_COLS + VGA_COLS := rfl
    rw [Nat.zero_add] at hi
    rw [le_eq (by omega), Option.bind_some, poe_eq (by omega)]
  · simp

end Celulas

/-- A screen that was cleared, in any colour. -/
theorem limpa_eq (vga : Vga) (cor : UInt8) :
    ∃ vga', (List.range (VGA_COLS * VGA_ROWS)).foldlM
        (fun vga i => poe vga i (celula ESPACO cor)) vga = some vga' ∧
      Shows VGA_COLS VGA_ROWS ESPACO (.empty ESPACO) (texto vga') 0 0 0 := by
  rw [List.range_eq_range']
  refine ⟨_, apaga_eq vga _ (by decide), shows_empty (by decide) fun i hi => ?_⟩
  have hmax : VGA_ROWS * VGA_COLS = VGA_COLS * VGA_ROWS := rfl
  unfold texto
  dsimp only
  rw [if_pos (by omega), toUInt8_celula]

/-! ## The boot -/

/-- What a character of the boot does to the page. -/
def pagina_char (p : Page UInt8) (c : UInt8) : Page UInt8 :=
  if c = 8 then p.back ESPACO else if c = 10 then p.newline VGA_COLS else p.put c

/-- The text of the boot on a page. -/
def pagina (cs : List UInt8) : Page UInt8 := cs.foldl pagina_char (.empty ESPACO)

theorem pagina_snoc (cs : List UInt8) (c : UInt8) :
    pagina (cs ++ [c]) = pagina_char (pagina cs) c := by
  rw [pagina, List.foldl_append]
  rfl

section Inicializacao

variable {t : Boot} {p : Page UInt8} {cs : List UInt8}

/-- The page of a text from its start is the screen. -/
def Mostra (t : Boot) (p : Page UInt8) : Prop :=
  Shows VGA_COLS VGA_ROWS ESPACO p (texto t.vga) 0 t.lin t.col

/-- A blank goes to the cell in front of the cursor, across the rows. -/
theorem write_char_backspace (h : Mostra t p) (hl : t.lin < VGA_ROWS) :
    ∃ t', write_char t 8 = some t' ∧ Mostra t' (p.back ESPACO) := by
  obtain ⟨vga, col, lin⟩ := t
  unfold Mostra at h ⊢
  dsimp only at h hl
  rw [write_char, if_pos rfl]
  dsimp only
  cases col with
  | succ col =>
    rw [if_pos (Nat.succ_pos col)]
    dsimp only
    rw [Nat.add_sub_cancel, poe_eq (Shows.place_lt hl (Nat.lt_of_succ_lt h.col_lt)),
      Option.map_some]
    refine ⟨_, rfl, ?_⟩
    dsimp only
    rw [texto_celula]
    exact h.back hl
  | zero =>
    rw [if_neg (Nat.lt_irrefl 0)]
    cases lin with
    | succ lin =>
      rw [if_pos (Nat.succ_pos lin)]
      dsimp only
      rw [Nat.add_sub_cancel, poe_eq (Shows.place_lt (Nat.lt_of_succ_lt hl) (by decide)),
        Option.map_some]
      refine ⟨_, rfl, ?_⟩
      dsimp only
      rw [texto_celula]
      exact h.back_row (Nat.lt_of_succ_lt hl)
    | zero =>
      refine ⟨_, rfl, ?_⟩
      dsimp only
      rw [texto_celula]
      exact h.back_first (by decide)

/-- One character. -/
theorem write_char_spec (h : Mostra t p) (hl : t.lin < VGA_ROWS) (c : UInt8) :
    ∃ t', write_char t c = some t' ∧ Mostra t' (pagina_char p c) := by
  unfold pagina_char
  by_cases h8 : c = 8
  · rw [if_pos h8, h8]
    exact write_char_backspace h hl
  rw [if_neg h8]
  by_cases h10 : c = 10
  · rw [if_pos h10, write_char, if_neg h8, if_pos h10]
    exact ⟨_, rfl, h.newline⟩
  rw [if_neg h10, write_char, if_neg h8, if_neg h10, poe_eq (Shows.place_lt hl h.col_lt),
    Option.map_some]
  refine ⟨_, rfl, ?_⟩
  have hcol := h.col_lt
  by_cases hw : t.col + 1 ≥ VGA_COLS
  · rw [if_pos hw]
    unfold Mostra
    dsimp only
    rw [texto_celula]
    exact h.put_last hl (Nat.le_antisymm hcol hw) c
  · rw [if_neg hw]
    unfold Mostra
    dsimp only
    rw [texto_celula]
    exact h.put hl (Nat.lt_of_not_le hw) c

theorem Mostra.lin_lt_iff (h : Mostra t p) :
    t.lin < VGA_ROWS ↔ p.cursor < VGA_ROWS * VGA_COLS :=
  Shows.lin_lt_iff h

/-- The boot, from its cleared screen on. -/
def escreve (t : Boot) (cs : List UInt8) : Option Boot := (clean_screen t).bind fun t => write t cs

theorem escreve_snoc (t : Boot) (cs : List UInt8) (c : UInt8) :
    escreve t (cs ++ [c]) = (escreve t cs).bind fun t => write_char t c := by
  unfold escreve write
  rw [Option.bind_assoc]
  refine congrArg _ (funext fun t => ?_)
  rw [List.foldlM_append]
  exact congrArg _ (funext fun t => bind_pure (write_char t c))

theorem clean_screen_spec (t : Boot) :
    ∃ t', clean_screen t = some t' ∧ Mostra t' (.empty ESPACO) := by
  obtain ⟨vga', he, hs⟩ := limpa_eq t.vga COLOR
  refine ⟨⟨vga', 0, 0⟩, ?_, hs⟩
  rw [clean_screen, he, Option.map_some]

/-- A text of which no beginning but itself leaves the page that the screen has. -/
theorem escreve_spec (t : Boot) (cs : List UInt8)
    (h : ∀ q, q <+: cs → q ≠ cs → (pagina q).cursor < VGA_ROWS * VGA_COLS) :
    ∃ t', escreve t cs = some t' ∧ Mostra t' (pagina cs) := by
  induction cs using List.reverseRecOn with
  | nil =>
    obtain ⟨t', he, hm⟩ := clean_screen_spec t
    exact ⟨t', by rw [escreve, he]; rfl, hm⟩
  | append_singleton cs c ih =>
    have hne : ∀ q, q <+: cs → q ≠ cs ++ [c] := fun q hq he => by
      have hle := hq.length_le
      rw [he, List.length_append, List.length_singleton] at hle
      omega
    have hcabe : ∀ q, q <+: cs → (pagina q).cursor < VGA_ROWS * VGA_COLS := fun q hq =>
      h q (hq.trans (List.prefix_append cs [c])) (hne q hq)
    obtain ⟨t1, he, hm⟩ := ih fun q hq _ => hcabe q hq
    have hl := hm.lin_lt_iff.mpr (hcabe cs (List.prefix_refl cs))
    obtain ⟨t', hc, hm'⟩ := write_char_spec hm hl c
    refine ⟨t', ?_, ?_⟩
    · rw [escreve_snoc, he, Option.bind_some, hc]
    · rw [pagina_snoc]
      exact hm'

/-- All the time the text keeps to the screen, which shows the row of the cursor. -/
def NaTela (t : Boot) (cs : List UInt8) : Prop :=
  ∀ q, q <+: cs → ∃ t', escreve t q = some t' ∧
    Visible VGA_COLS VGA_ROWS ESPACO (pagina q) (texto t'.vga) t'.lin t'.col

theorem naTela_iff (t : Boot) (cs : List UInt8) :
    NaTela t cs ↔ ∀ q, q <+: cs → (pagina q).cursor < VGA_ROWS * VGA_COLS := by
  constructor
  · intro h
    induction cs using List.reverseRecOn with
    | nil =>
      intro q hq
      rw [List.prefix_nil.mp hq]
      decide
    | append_singleton cs c ih =>
      have hcs := ih fun q hq => h q (hq.trans (List.prefix_append cs [c]))
      intro q hq
      rcases List.prefix_concat_iff.mp hq with rfl | hq
      · obtain ⟨t1, he1, hm⟩ := escreve_spec t (cs ++ [c]) fun q hq hne =>
          hcs q ((List.prefix_concat_iff.mp hq).resolve_left hne)
        obtain ⟨t', he, hv⟩ := h _ (List.prefix_refl _)
        obtain rfl := Option.some.inj (he1.symm.trans he)
        exact hm.lin_lt_iff.mp hv.lin_lt
      · exact hcs q hq
  · intro h q hq
    obtain ⟨t', he, hm⟩ := escreve_spec t q fun q' hq' _ => h q' (hq'.trans hq)
    exact ⟨t', he, hm.visible (hm.lin_lt_iff.mpr (h q hq)) (.inl rfl)⟩

end Inicializacao

/-! ## The shell -/

/-- What a call of the shell does to the page. A backspace keeps to the row. -/
def pagina_chama (p : Page UInt8) : Chamada → Page UInt8
  | .shell_write_char c =>
    if c = 10 then p.newline VGA_COLS
    else if c = 8 then if p.cursor % VGA_COLS = 0 then p else p.back ESPACO
    else p.put c
  | .shell_set_cor _ => p

/-- The text of the shell on a page. -/
def pagina_shell (cs : List Chamada) : Page UInt8 := cs.foldl pagina_chama (.empty ESPACO)

section Shell

variable {s : Tela} {p : Page UInt8} {top : Nat}

/-- The screen of the shell shows the last rows of the page. -/
def Tela.Mostra (s : Tela) (p : Page UInt8) : Prop :=
  Visible VGA_COLS VGA_ROWS ESPACO p (texto s.vga) s.cur_lin s.cur_col

theorem scroll_spec (s : Tela) :
    ∃ vga', scroll s = some { s with vga := vga', cur_lin := VGA_ROWS - 1 } ∧
      (∀ i < (VGA_ROWS - 1) * VGA_COLS, texto vga' i = texto s.vga (i + VGA_COLS)) ∧
      ∀ i, (VGA_ROWS - 1) * VGA_COLS ≤ i → i < VGA_ROWS * VGA_COLS → texto vga' i = ESPACO := by
  have hmax : (VGA_ROWS - 1) * VGA_COLS + VGA_COLS = VGA_ROWS * VGA_COLS := rfl
  unfold scroll
  rw [sobe_eq, Option.bind_some, apaga_eq _ _ (Nat.le_of_eq hmax), Option.map_some]
  refine ⟨_, rfl, fun i hi => ?_, fun i h1 h2 => ?_⟩
  · unfold texto
    dsimp only
    rw [if_neg (by omega), if_pos hi]
  · unfold texto
    dsimp only
    rw [if_pos ⟨h1, hmax ▸ h2⟩, toUInt8_celula]

/-- The cursor goes to the next row, which is on the screen then. -/
theorem proxima_linha_spec
    (h : Shows VGA_COLS VGA_ROWS ESPACO p (texto s.vga) top (s.cur_lin + 1) 0)
    (hl : s.cur_lin < VGA_ROWS) (hlast : top = 0 ∨ s.cur_lin + 1 = VGA_ROWS) :
    ∃ s', proxima_linha s = some s' ∧ s'.Mostra p := by
  unfold proxima_linha
  dsimp only
  by_cases hrola : s.cur_lin + 1 ≥ VGA_ROWS
  · have hfim : s.cur_lin + 1 = VGA_ROWS := Nat.le_antisymm hl hrola
    rw [hfim] at h
    obtain ⟨vga', he, hup, hblank⟩ := scroll_spec { s with cur_col := 0, cur_lin := s.cur_lin + 1 }
    rw [if_pos hrola, he]
    exact ⟨_, rfl, (h.scroll (by decide) hup hblank).visible (by decide) (.inr (by decide))⟩
  · rw [if_neg hrola]
    exact ⟨_, rfl, h.visible (Nat.lt_of_not_le hrola)
      (.inl (hlast.resolve_right fun he => hrola (Nat.le_of_eq he.symm)))⟩

theorem shell_write_char_spec (h : s.Mostra p) (c : UInt8) :
    ∃ s', shell_write_char s c = some s' ∧ s'.Mostra (pagina_chama p (.shell_write_char c)) := by
  have hrows := h.rows
  have hl := h.lin_lt
  unfold shell_write_char pagina_chama
  dsimp only
  by_cases h10 : c = 10
  · rw [if_pos h10, if_pos h10]
    exact proxima_linha_spec hrows.newline hl h.last
  rw [if_neg h10, if_neg h10]
  by_cases h8 : c = 8
  · rw [if_pos h8, if_pos h8, hrows.column_eq]
    obtain ⟨vga, col, lin, cor⟩ := s
    dsimp only at hrows hl ⊢
    cases col with
    | zero =>
      rw [if_neg (Nat.lt_irrefl 0), if_pos rfl]
      exact ⟨_, rfl, h⟩
    | succ col =>
      rw [if_pos (Nat.succ_pos col), if_neg (Nat.succ_ne_zero col), Nat.add_sub_cancel,
        poe_eq (Shows.place_lt hl (Nat.lt_of_succ_lt hrows.col_lt)), Option.map_some]
      refine ⟨_, rfl, ?_⟩
      have hback := hrows.back hl
      rw [← texto_celula vga _ ESPACO cor] at hback
      exact hback.visible hl h.last
  · rw [if_neg h8, if_neg h8, poe_eq (Shows.place_lt hl hrows.col_lt), Option.bind_some]
    have hcol := hrows.col_lt
    by_cases hw : s.cur_col + 1 ≥ VGA_COLS
    · have hput := hrows.put_last hl (Nat.le_antisymm hcol hw) c
      rw [← texto_celula s.vga _ c s.cor_atual] at hput
      rw [if_pos hw]
      exact proxima_linha_spec hput hl h.last
    · have hput := hrows.put hl (Nat.lt_of_not_le hw) c
      rw [← texto_celula s.vga _ c s.cor_atual] at hput
      rw [if_neg hw]
      exact ⟨_, rfl, hput.visible hl h.last⟩

theorem chama_spec (h : s.Mostra p) (c : Chamada) :
    ∃ s', chama s c = some s' ∧ s'.Mostra (pagina_chama p c) := by
  cases c with
  | shell_write_char c => exact shell_write_char_spec h c
  | shell_set_cor c => exact ⟨_, rfl, h⟩

theorem chamadas_spec (h : s.Mostra p) (cs : List Chamada) :
    ∃ s', chamadas s cs = some s' ∧ s'.Mostra (cs.foldl pagina_chama p) := by
  induction cs generalizing s p with
  | nil => exact ⟨s, rfl, h⟩
  | cons c cs ih =>
    obtain ⟨s1, h1, hm1⟩ := chama_spec h c
    obtain ⟨s', h', hm'⟩ := ih hm1
    refine ⟨s', ?_, hm'⟩
    rw [chamadas, List.foldlM_cons, h1]
    exact h'

theorem shell_clear_spec (s : Tela) :
    ∃ s', shell_clear s = some s' ∧ s'.Mostra (.empty ESPACO) := by
  obtain ⟨vga', he, hs⟩ := limpa_eq s.vga s.cor_atual
  refine ⟨{ s with vga := vga', cur_col := 0, cur_lin := 0 }, ?_,
    hs.visible (by decide) (.inl rfl)⟩
  rw [shell_clear, he, Option.map_some]

/-- From a cleared screen on, all output stays on it, and the last rows of it are shown. -/
theorem shell_na_tela (s : Tela) (cs : List Chamada) :
    ∃ s', ((shell_clear s).bind fun s => chamadas s cs) = some s' ∧
      s'.Mostra (pagina_shell cs) := by
  obtain ⟨s1, h1, hm⟩ := shell_clear_spec s
  rw [h1, Option.bind_some]
  exact chamadas_spec hm cs

end Shell

/-! ## What the boot writes -/

section Mensagens

variable {p : Page UInt8} {l cs q : List UInt8}

theorem cursor_le_char (p : Page UInt8) {c : UInt8} (hc : c ≠ 8) :
    p.cursor ≤ (pagina_char p c).cursor := by
  unfold pagina_char
  rw [if_neg hc]
  split
  · have hlt := Nat.lt_div_mul_add (a := p.cursor) (b := VGA_COLS) (by decide)
    change p.cursor ≤ (p.cursor / VGA_COLS + 1) * VGA_COLS
    rw [Nat.succ_mul]
    exact Nat.le_of_lt hlt
  · exact Nat.le_succ _

/-- Without backspaces the cursor goes forward. -/
theorem cursor_le (p : Page UInt8) (h8 : 8 ∉ cs) :
    p.cursor ≤ (cs.foldl pagina_char p).cursor := by
  induction cs generalizing p with
  | nil => exact Nat.le_refl _
  | cons c cs ih =>
    obtain ⟨hc, hcs⟩ := List.ne_and_not_mem_of_not_mem_cons h8
    exact Nat.le_trans (cursor_le_char p hc.symm) (ih _ hcs)

theorem cursor_mono (h : q <+: cs) (h8 : 8 ∉ cs) :
    (pagina q).cursor ≤ (pagina cs).cursor := by
  obtain ⟨r, rfl⟩ := h
  unfold pagina
  rw [List.foldl_append]
  exact cursor_le _ fun hr => h8 (List.mem_append_right q hr)

/-- A text that fits into one row, and ends it. -/
structure Linha (s : String) : Prop where
  fim : bytes s = (bytes s).dropLast ++ [10]
  avanca : 8 ∉ (bytes s).dropLast
  uma : 10 ∉ (bytes s).dropLast
  curta : (bytes s).dropLast.length < VGA_COLS

instance (s : String) : Decidable (Linha s) :=
  decidable_of_iff (bytes s = (bytes s).dropLast ++ [10] ∧ 8 ∉ (bytes s).dropLast ∧
    10 ∉ (bytes s).dropLast ∧ (bytes s).dropLast.length < VGA_COLS)
    ⟨fun h => ⟨h.1, h.2.1, h.2.2.1, h.2.2.2⟩, fun h => ⟨h.fim, h.avanca, h.uma, h.curta⟩⟩

theorem cursor_letras (p : Page UInt8) (h8 : 8 ∉ l) (h10 : 10 ∉ l) :
    (l.foldl pagina_char p).cursor = p.cursor + l.length := by
  induction l generalizing p with
  | nil => rfl
  | cons c l ih =>
    obtain ⟨hc8, hl8⟩ := List.ne_and_not_mem_of_not_mem_cons h8
    obtain ⟨hc10, hl10⟩ := List.ne_and_not_mem_of_not_mem_cons h10
    have hput : pagina_char p c = p.put c := by
      unfold pagina_char
      rw [if_neg hc8.symm, if_neg hc10.symm]
    rw [List.foldl_cons, hput, ih _ hl8 hl10, List.length_cons]
    change p.cursor + 1 + l.length = _
    omega

theorem cursor_linha {s : String} (hs : Linha s) {k : Nat} (hp : p.cursor = k * VGA_COLS) :
    ((bytes s).foldl pagina_char p).cursor = (k + 1) * VGA_COLS := by
  obtain ⟨h, h8, h10, hlen⟩ := hs
  rw [h, List.foldl_append]
  generalize hr : (bytes s).dropLast.foldl pagina_char p = r
  have hcursor : r.cursor = k * VGA_COLS + (bytes s).dropLast.length := by
    rw [← hr, cursor_letras p h8 h10, hp]
  change (r.cursor / VGA_COLS + 1) * VGA_COLS = _
  rw [hcursor, Nat.mul_comm k, Nat.mul_add_div (by decide), Nat.div_eq_of_lt hlen, Nat.add_zero]

theorem cursor_linhas {ls : List String} (h : ∀ s ∈ ls, Linha s) {k : Nat}
    (hp : p.cursor = k * VGA_COLS) :
    ((ls.flatMap bytes).foldl pagina_char p).cursor = (k + ls.length) * VGA_COLS := by
  induction ls generalizing p k with
  | nil => exact hp
  | cons s ls ih =>
    obtain ⟨hs, hls⟩ := List.forall_mem_cons.mp h
    rw [List.flatMap_cons, List.foldl_append, ih hls (cursor_linha hs hp), List.length_cons]
    congr 1
    omega

theorem not_mem_linhas {ls : List String} (h : ∀ s ∈ ls, Linha s) : 8 ∉ ls.flatMap bytes := by
  intro h8
  obtain ⟨s, hs, hb⟩ := List.mem_flatMap.mp h8
  obtain ⟨heq, hno, -⟩ := h s hs
  rw [heq] at hb
  rcases List.mem_append.mp hb with hb | hb
  · exact hno hb
  · exact absurd (List.mem_singleton.mp hb) (by decide)

/-- "Paging ok!" and "Heap ok" share a row. -/
theorem cursor_nucleo : (pagina (mensagens_nucleo.flatMap bytes)).cursor = 13 * VGA_COLS ∧
    8 ∉ mensagens_nucleo.flatMap bytes := by
  decide +kernel

theorem linha_ite {b : Bool} {x y : String} (hx : Linha x) (hy : Linha y) :
    Linha (if b then x else y) := by
  cases b
  · exact hy
  · exact hx

theorem linhas_ite {b : Bool} {x : String} (hx : Linha x) :
    ∀ s ∈ (if b then [x] else []), Linha s := by
  cases b
  · exact List.forall_mem_nil _
  · exact List.forall_mem_singleton.mpr hx

theorem mensagens_linhas (a : Aparelhos) : ∀ s ∈ mensagens_aparelhos a, Linha s := by
  unfold mensagens_aparelhos
  simp only [List.forall_mem_append, List.forall_mem_cons]
  and_intros
  all_goals first
    | exact linha_ite (by decide +kernel) (by decide +kernel)
    | exact linhas_ite (by decide +kernel)
    | exact List.forall_mem_nil _
    | decide +kernel

theorem length_mensagens (a : Aparelhos) : (mensagens_aparelhos a).length =
    11 + a.disco1.toNat + a.dma.toNat + a.spfs.toNat + a.pci.toNat + a.wifi.toNat := by
  have hum : ∀ (b : Bool) (x : String), (if b then [x] else []).length = b.toNat := fun b x => by
    cases b <;> rfl
  unfold mensagens_aparelhos
  simp only [List.length_append, hum, List.length_cons, List.length_nil]
  omega

/-- The boot keeps to the screen if it finds no second disk, no DMA, no SpaceFS, no PCI and no WiFi:
these are the texts that it does not always write, and it has one row left for them. -/
theorem boot_naTela_iff (t : Boot) (a : Aparelhos) : NaTela t (boot a) ↔
    a.disco1 = false ∧ a.dma = false ∧ a.spfs = false ∧ a.pci = false ∧ a.wifi = false := by
  obtain ⟨hnucleo, hno⟩ := cursor_nucleo
  have hlinhas := mensagens_linhas a
  have h8 : 8 ∉ boot a := by
    rw [boot, List.flatMap_append]
    exact List.not_mem_append hno (not_mem_linhas hlinhas)
  have hcursor : (pagina (boot a)).cursor = (13 + (mensagens_aparelhos a).length) * VGA_COLS := by
    rw [boot, List.flatMap_append, pagina, List.foldl_append]
    exact cursor_linhas hlinhas hnucleo
  have hcabe : (pagina (boot a)).cursor < VGA_ROWS * VGA_COLS ↔
      a.disco1.toNat + a.dma.toNat + a.spfs.toNat + a.pci.toNat + a.wifi.toNat = 0 := by
    rw [hcursor, length_mensagens, Nat.mul_lt_mul_right (by decide)]
    have hrows : VGA_ROWS = 25 := rfl
    omega
  have hzero : ∀ b : Bool, b.toNat = 0 ↔ b = false := by decide
  rw [naTela_iff, ← hzero, ← hzero, ← hzero, ← hzero, ← hzero]
  constructor
  · intro h
    have := hcabe.mp (h _ (List.prefix_refl _))
    omega
  · intro h q hq
    exact Nat.lt_of_le_of_lt (cursor_mono hq h8) (hcabe.mpr (by omega))

end Mensagens

/-! ## The law -/

/-- The boot keeps to the screen exactly as long as its text, on a page of 80 columns, does not
leave the first 25 rows; the shell always does. -/
theorem output_stays_on_the_screen_iff (t : Boot) (cs : List UInt8) (s : Tela) (es : List Chamada) :
    (NaTela t cs ↔ ∀ q, q <+: cs → (pagina q).cursor < VGA_ROWS * VGA_COLS) ∧
      ∃ s', ((shell_clear s).bind fun s => chamadas s es) = some s' ∧ s'.Mostra (pagina_shell es) :=
  ⟨naTela_iff t cs, shell_na_tela s es⟩

/-- A machine with a disk on the first channel, PCI and DMA, and the boot screen of a start. -/
def pc : Aparelhos :=
  ⟨true, false, true, true, true, false, true, true, true, true, false, true⟩

theorem boot_of_a_pc_leaves_the_screen : ¬ ∀ (t : Boot) (cs : List UInt8), NaTela t cs := by
  intro h
  obtain ⟨t', he, -⟩ := h ⟨fun _ => 0, 0, 0⟩ (boot pc) (boot pc) (List.prefix_refl _)
  have hnone : escreve ⟨fun _ => 0, 0, 0⟩ (boot pc) = none := by decide +kernel
  rw [hnone] at he
  exact Option.some_ne_none t' he.symm

end SpaceOS.Console
