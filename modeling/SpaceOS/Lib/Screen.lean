-- A page without end, in rows of `w` cells, and a screen of `n` rows that shows a part of it: what
-- a character, a newline, a backspace and a scroll do to both.
import Mathlib.Algebra.Ring.Nat
import Mathlib.Logic.Function.Basic

namespace Lib.Screen

variable {α : Type}

/-- The cells, one row behind the other, and the place of the next character. -/
structure Page (α : Type) where
  cells : Nat → α
  cursor : Nat

namespace Page

def empty (blank : α) : Page α := ⟨fun _ => blank, 0⟩

def put (p : Page α) (c : α) : Page α := ⟨Function.update p.cells p.cursor c, p.cursor + 1⟩

/-- To the start of the next row. -/
def newline (w : Nat) (p : Page α) : Page α := { p with cursor := (p.cursor / w + 1) * w }

/-- One cell back, which becomes blank. The first cell of the page has none in front of it. -/
def back (blank : α) (p : Page α) : Page α :=
  ⟨Function.update p.cells (p.cursor - 1) blank, p.cursor - 1⟩

end Page

/-- The screen shows the rows from `top` on, the rows behind it are blank, and the cursor stands in
row `lin` and column `col` of the screen; row `n` is the one behind the last. -/
structure Shows (w n : Nat) (blank : α) (p : Page α) (screen : Nat → α) (top lin col : Nat) :
    Prop where
  cells : ∀ i < n * w, screen i = p.cells (top * w + i)
  rest : ∀ i, (top + n) * w ≤ i → p.cells i = blank
  cursor : p.cursor = (top + lin) * w + col
  col_lt : col < w

/-- The row of the cursor is on the screen, the last one of it if the page has more rows. -/
structure Visible (w n : Nat) (blank : α) (p : Page α) (screen : Nat → α) (lin col : Nat) :
    Prop where
  rows : Shows w n blank p screen (p.cursor / w + 1 - n) lin col
  lin_lt : lin < n

section Laws

variable {w n top lin col : Nat} {blank c : α} {p : Page α} {screen screen' : Nat → α}

theorem shows_empty (hw : 0 < w) (h : ∀ i < n * w, screen i = blank) :
    Shows w n blank (.empty blank) screen 0 0 0 :=
  ⟨h, fun _ _ => rfl, by rw [Nat.zero_add, Nat.zero_mul]; rfl, hw⟩

namespace Shows

/-- A place of the screen. -/
theorem place_lt (hl : lin < n) (hc : col < w) : lin * w + col < n * w := by
  have hle := Nat.mul_le_mul_right w (Nat.succ_le_of_lt hl)
  rw [Nat.succ_mul] at hle
  omega

theorem row_eq (h : Shows w n blank p screen top lin col) : p.cursor / w = top + lin := by
  rw [h.cursor, Nat.mul_comm, Nat.mul_add_div (Nat.zero_lt_of_lt h.col_lt),
    Nat.div_eq_of_lt h.col_lt, Nat.add_zero]

theorem column_eq (h : Shows w n blank p screen top lin col) : p.cursor % w = col := by
  rw [h.cursor, Nat.mul_comm, Nat.mul_add_mod, Nat.mod_eq_of_lt h.col_lt]

/-- A cell of the screen is written on both. -/
theorem write (h : Shows w n blank p screen top lin col) {i : Nat} (hi : i < n * w) (c : α)
    (cursor lin' col' : Nat) (hcursor : cursor = (top + lin') * w + col') (hcol : col' < w) :
    Shows w n blank ⟨Function.update p.cells (top * w + i) c, cursor⟩ (Function.update screen i c)
      top lin' col' := by
  refine ⟨fun j hj => ?_, fun j hj => ?_, hcursor, hcol⟩ <;> dsimp only
  · rcases eq_or_ne j i with rfl | hne
    · rw [Function.update_self, Function.update_self]
    · rw [Function.update_of_ne hne, Function.update_of_ne (by omega)]
      exact h.cells j hj
  · rw [Nat.add_mul] at hj
    rw [Function.update_of_ne (by omega)]
    exact h.rest j (by rw [Nat.add_mul]; exact hj)

theorem place_eq (h : Shows w n blank p screen top lin col) :
    p.cursor = top * w + (lin * w + col) := by
  rw [h.cursor, Nat.add_mul, Nat.add_assoc]

theorem put (h : Shows w n blank p screen top lin col) (hl : lin < n) (hc : col + 1 < w) (c : α) :
    Shows w n blank (p.put c) (Function.update screen (lin * w + col) c) top lin (col + 1) := by
  have hput := h.write (place_lt hl h.col_lt) c (p.cursor + 1) lin (col + 1)
    (by rw [h.cursor, Nat.add_assoc]) hc
  rwa [← h.place_eq] at hput

/-- In the last column. -/
theorem put_last (h : Shows w n blank p screen top lin col) (hl : lin < n) (hc : col + 1 = w)
    (c : α) :
    Shows w n blank (p.put c) (Function.update screen (lin * w + col) c) top (lin + 1) 0 := by
  have hput := h.write (place_lt hl h.col_lt) c (p.cursor + 1) (lin + 1) 0
    (by rw [h.cursor, ← Nat.add_assoc top, Nat.succ_mul]; omega) (Nat.zero_lt_of_lt h.col_lt)
  rwa [← h.place_eq] at hput

theorem newline (h : Shows w n blank p screen top lin col) :
    Shows w n blank (p.newline w) screen top (lin + 1) 0 := by
  refine ⟨h.cells, h.rest, ?_, Nat.zero_lt_of_lt h.col_lt⟩
  change (p.cursor / w + 1) * w = _
  rw [h.row_eq]
  rfl

theorem back (h : Shows w n blank p screen top lin (col + 1)) (hl : lin < n) :
    Shows w n blank (p.back blank) (Function.update screen (lin * w + col) blank) top lin col := by
  have hcursor : p.cursor - 1 = top * w + (lin * w + col) := by
    have := h.place_eq
    omega
  have hback := h.write (place_lt hl (Nat.lt_of_succ_lt h.col_lt)) blank (p.cursor - 1) lin col
    (by rw [hcursor, Nat.add_mul, Nat.add_assoc]) (Nat.lt_of_succ_lt h.col_lt)
  rwa [← hcursor] at hback

/-- From the first column to the last one of the row above. -/
theorem back_row (h : Shows w n blank p screen top (lin + 1) 0) (hl : lin < n) :
    Shows w n blank (p.back blank) (Function.update screen (lin * w + (w - 1)) blank) top lin
      (w - 1) := by
  have hw := h.col_lt
  have hcursor : p.cursor - 1 = top * w + (lin * w + (w - 1)) := by
    have := h.place_eq
    rw [Nat.succ_mul] at this
    omega
  have hback := h.write (place_lt hl (Nat.sub_one_lt_of_lt hw)) blank (p.cursor - 1) lin (w - 1)
    (by rw [hcursor, Nat.add_mul, Nat.add_assoc]) (Nat.sub_one_lt_of_lt hw)
  rwa [← hcursor] at hback

/-- At the first cell of the page. -/
theorem back_first (h : Shows w n blank p screen 0 0 0) (hn : 0 < n) :
    Shows w n blank (p.back blank) (Function.update screen 0 blank) 0 0 0 := by
  have hcursor : p.cursor - 1 = 0 * w + 0 := by
    have := h.place_eq
    omega
  have hback := h.write (Nat.mul_pos hn h.col_lt) blank (p.cursor - 1) 0 0
    (by rw [hcursor]) h.col_lt
  rwa [← hcursor] at hback

/-- The rows move up by one, and a blank one follows: the screen shows the rows from the next one
on. -/
theorem scroll (h : Shows w n blank p screen top n col) (hn : 0 < n)
    (hup : ∀ i < (n - 1) * w, screen' i = screen (i + w))
    (hlast : ∀ i, (n - 1) * w ≤ i → i < n * w → screen' i = blank) :
    Shows w n blank p screen' (top + 1) (n - 1) col := by
  obtain ⟨m, rfl⟩ : ∃ m, n = m + 1 := ⟨n - 1, by omega⟩
  rw [Nat.add_sub_cancel] at hup hlast ⊢
  refine ⟨fun i hi => ?_, fun i hi => ?_, ?_, h.col_lt⟩
  · by_cases hlt : i < m * w
    · rw [hup i hlt, h.cells _ (by rw [Nat.succ_mul]; omega), Nat.succ_mul]
      congr 1
      omega
    · rw [hlast i (Nat.le_of_not_lt hlt) hi]
      refine (h.rest _ ?_).symm
      rw [Nat.add_mul, Nat.succ_mul, Nat.succ_mul]
      omega
  · refine h.rest i (Nat.le_trans (Nat.mul_le_mul_right w ?_) hi)
    omega
  · rw [h.cursor]
    congr 2
    omega

theorem lin_lt_iff (h : Shows w n blank p screen 0 lin col) : lin < n ↔ p.cursor < n * w := by
  have hrow := h.row_eq
  rw [Nat.zero_add] at hrow
  rw [← hrow, Nat.div_lt_iff_lt_mul (Nat.zero_lt_of_lt h.col_lt)]

/-- The screen shows the last rows, or it shows them all. -/
theorem visible (h : Shows w n blank p screen top lin col) (hl : lin < n)
    (hlast : top = 0 ∨ lin + 1 = n) : Visible w n blank p screen lin col := by
  have htop : p.cursor / w + 1 - n = top := by
    rw [h.row_eq]
    omega
  exact ⟨htop.symm ▸ h, hl⟩

end Shows

theorem Visible.last (h : Visible w n blank p screen lin col) :
    p.cursor / w + 1 - n = 0 ∨ lin + 1 = n := by
  have hrow := h.rows.row_eq
  omega

end Laws

end Lib.Screen
