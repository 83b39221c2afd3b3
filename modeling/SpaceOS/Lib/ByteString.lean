-- Byte strings of a fixed length: sectors and the packed records inside them, with
-- words read and written at a place and windows read and copied.
import SpaceOS.Lib.Bytes

namespace Lib.Bytes

/-- A string of `n` bytes. -/
abbrev ByteStr (n : Nat) := Fin n → UInt8

namespace ByteStr

variable {n k : Nat}

/-- The string as a memory from address 0, zero past its end. -/
def mem (b : ByteStr n) : Memory := fun i => if h : i < n then b ⟨i, h⟩ else 0

/-- The first bytes of a memory. -/
def ofMem (m : Memory) : ByteStr n := fun i => m i

def zero : ByteStr n := fun _ => 0

def byte (b : ByteStr n) (i : Nat) : UInt8 := b.mem i

def half (b : ByteStr n) (i : Nat) : Nat := Lib.Bytes.half b.mem i

def word (b : ByteStr n) (i : Nat) : Nat := Lib.Bytes.word b.mem i

def putByte (b : ByteStr n) (i : Nat) (v : UInt8) : ByteStr n := ofMem (Lib.Bytes.putByte b.mem i v)

def putHalf (b : ByteStr n) (i v : Nat) : ByteStr n := ofMem (Lib.Bytes.putHalf b.mem i v)

def putWord (b : ByteStr n) (i v : Nat) : ByteStr n := ofMem (Lib.Bytes.putWord b.mem i v)

/-- The `k` bytes from place `i`. -/
def slice (b : ByteStr n) (i k : Nat) : ByteStr k := fun j => b.mem (i + j)

/-- The string with `c` copied to place `i`. -/
def splice (b : ByteStr n) (i : Nat) (c : ByteStr k) : ByteStr n := fun j =>
  if i ≤ j ∧ j < i + k then c.mem (j - i) else b j

/-! ## Bytes -/

theorem mem_ofMem (m : Memory) {i : Nat} (h : i < n) : (ofMem m : ByteStr n).mem i = m i := by
  simp [mem, ofMem, h]

theorem ext_mem {b c : ByteStr n} (h : ∀ i < n, b.mem i = c.mem i) : b = c := by
  funext i
  simpa [mem] using h i i.isLt

theorem mem_slice (b : ByteStr n) (i : Nat) {j k : Nat} (h : j < k) :
    (b.slice i k).mem j = b.mem (i + j) := by
  simp [mem, slice, h]

theorem mem_splice (b : ByteStr n) (i : Nat) (c : ByteStr k) {j : Nat} (h : j < n) :
    (b.splice i c).mem j = if i ≤ j ∧ j < i + k then c.mem (j - i) else b.mem j := by
  simp [mem, splice, h]

@[simp] theorem mem_zero (i : Nat) : (zero : ByteStr n).mem i = 0 := by
  simp [mem, zero]

/-! ## Words -/

theorem word_lt (b : ByteStr n) (i : Nat) : b.word i < 2 ^ 32 := Lib.Bytes.word_lt _ _

theorem word_congr {b : ByteStr n} {c : ByteStr k} {i j : Nat}
    (h : ∀ x < 4, b.mem (i + x) = c.mem (j + x)) : b.word i = c.word j := by
  have h0 := h 0 (by decide)
  simp only [Nat.add_zero] at h0
  simp only [word, Lib.Bytes.word, h0, h 1 (by decide), h 2 (by decide), h 3 (by decide)]

theorem word_ofMem (m : Memory) {i : Nat} (h : i + 4 ≤ n) :
    (ofMem m : ByteStr n).word i = Lib.Bytes.word m i :=
  Lib.Bytes.word_congr fun _ _ _ => mem_ofMem m (by omega)

@[simp] theorem word_zero (i : Nat) : (zero : ByteStr n).word i = 0 := by
  simp [word, Lib.Bytes.word]

theorem word_putWord_self (b : ByteStr n) {i : Nat} (v : Nat) (h : i + 4 ≤ n) :
    (b.putWord i v).word i = v % 2 ^ 32 := by
  rw [putWord, word_ofMem _ h, Lib.Bytes.word_putWord_self]

theorem word_putWord_ne (b : ByteStr n) {i j : Nat} (v : Nat) (h : j + 4 ≤ i ∨ i + 4 ≤ j)
    (hj : j + 4 ≤ n) : (b.putWord i v).word j = b.word j := by
  rw [putWord, word_ofMem _ hj, Lib.Bytes.word_putWord_ne _ _ h, word]

theorem word_putByte_ne (b : ByteStr n) {i j : Nat} (v : UInt8) (h : j + 4 ≤ i ∨ i < j)
    (hj : j + 4 ≤ n) : (b.putByte i v).word j = b.word j := by
  rw [putByte, word_ofMem _ hj, Lib.Bytes.word_putByte_ne _ _ h, word]

theorem word_putHalf_ne (b : ByteStr n) {i j : Nat} (v : Nat) (h : j + 4 ≤ i ∨ i + 2 ≤ j)
    (hj : j + 4 ≤ n) : (b.putHalf i v).word j = b.word j := by
  rw [putHalf, word_ofMem _ hj, Lib.Bytes.word_putHalf_ne _ _ h, word]

theorem byte_putByte_self (b : ByteStr n) {i : Nat} (v : UInt8) (h : i < n) :
    (b.putByte i v).byte i = v := by
  rw [putByte, byte, mem_ofMem _ h, Lib.Bytes.putByte_self]

theorem byte_putByte_ne (b : ByteStr n) {i j : Nat} (v : UInt8) (h : j ≠ i) :
    (b.putByte i v).byte j = b.byte j := by
  unfold byte putByte
  by_cases hj : j < n
  · rw [mem_ofMem _ hj, Lib.Bytes.putByte_ne _ _ h]
  · simp [mem, hj]

theorem byte_putWord_ne (b : ByteStr n) {i j : Nat} (v : Nat) (h : j < i ∨ i + 4 ≤ j) :
    (b.putWord i v).byte j = b.byte j := by
  unfold byte putWord
  by_cases hj : j < n
  · rw [mem_ofMem _ hj, Lib.Bytes.putWord_ne _ _ h]
  · simp [mem, hj]

theorem byte_putHalf_ne (b : ByteStr n) {i j : Nat} (v : Nat) (h : j < i ∨ i + 2 ≤ j) :
    (b.putHalf i v).byte j = b.byte j := by
  unfold byte putHalf
  by_cases hj : j < n
  · rw [mem_ofMem _ hj, Lib.Bytes.putHalf_ne _ _ h]
  · simp [mem, hj]

/-! ## Windows -/

theorem byte_slice (b : ByteStr n) (i : Nat) {j k : Nat} (h : j < k) :
    (b.slice i k).byte j = b.byte (i + j) := mem_slice b i h

theorem slice_splice_self (b : ByteStr n) {i : Nat} (c : ByteStr k) (h : i + k ≤ n) :
    (b.splice i c).slice i k = c := by
  refine ext_mem fun j hj => ?_
  rw [mem_slice _ _ hj, mem_splice _ _ _ (by omega), if_pos (by omega), Nat.add_sub_cancel_left]

theorem slice_splice_ne (b : ByteStr n) {i j l : Nat} (c : ByteStr k) (h : j + l ≤ i ∨ i + k ≤ j)
    (hj : j + l ≤ n) : (b.splice i c).slice j l = b.slice j l := by
  refine ext_mem fun x hx => ?_
  rw [mem_slice _ _ hx, mem_slice _ _ hx, mem_splice _ _ _ (by omega), if_neg (by omega)]

theorem word_splice_ne (b : ByteStr n) {i j : Nat} (c : ByteStr k) (h : j + 4 ≤ i ∨ i + k ≤ j)
    (hj : j + 4 ≤ n) : (b.splice i c).word j = b.word j :=
  word_congr fun x hx => by rw [mem_splice _ _ _ (by omega), if_neg (by omega)]

theorem word_splice_self (b : ByteStr n) {i j : Nat} (c : ByteStr k) (h : i ≤ j)
    (h' : j + 4 ≤ i + k) (hn : i + k ≤ n) : (b.splice i c).word j = c.word (j - i) :=
  word_congr fun x hx => by
    rw [mem_splice _ _ _ (by omega), if_pos (by omega)]
    congr 1
    omega

theorem byte_splice_ne (b : ByteStr n) {i j : Nat} (c : ByteStr k) (h : j < i ∨ i + k ≤ j) :
    (b.splice i c).byte j = b.byte j := by
  unfold byte
  by_cases hj : j < n
  · rw [mem_splice _ _ _ hj, if_neg (by omega)]
  · simp [mem, hj]

theorem byte_splice_self (b : ByteStr n) {i j : Nat} (c : ByteStr k) (h : i ≤ j) (h' : j < i + k)
    (hn : i + k ≤ n) : (b.splice i c).byte j = c.byte (j - i) := by
  unfold byte
  rw [mem_splice _ _ _ (by omega), if_pos ⟨h, h'⟩]

@[simp] theorem byte_zero (i : Nat) : (zero : ByteStr n).byte i = 0 := mem_zero i

end ByteStr

end Lib.Bytes
