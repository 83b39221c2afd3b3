-- ChaCha20 (kernel/net/tls.c): the block function and the encryption of a string. The machine is
-- little-endian, so a word copied from bytes has the first of them lowest.
import Mathlib.Data.List.Basic
import Mathlib.Logic.Function.Iterate

namespace SpaceOS.ChaCha20

/-! ## Blocks -/

/-- `uint32_t[16]`. -/
abbrev Bloco := Vector UInt32 16

def ROTL32 (v n : UInt32) : UInt32 := (v <<< n) ||| (v >>> (32 - n))

/-- `QR(x[a], x[b], x[c], x[d])`. -/
def QR (x : Bloco) (a b c d : Fin 16) : Bloco :=
  let x := x.set a (x[a] + x[b])
  let x := x.set d (x[d] ^^^ x[a])
  let x := x.set d (ROTL32 x[d] 16)
  let x := x.set c (x[c] + x[d])
  let x := x.set b (x[b] ^^^ x[c])
  let x := x.set b (ROTL32 x[b] 12)
  let x := x.set a (x[a] + x[b])
  let x := x.set d (x[d] ^^^ x[a])
  let x := x.set d (ROTL32 x[d] 8)
  let x := x.set c (x[c] + x[d])
  let x := x.set b (x[b] ^^^ x[c])
  x.set b (ROTL32 x[b] 7)

/-- One turn of the loop of `chacha20_block`. -/
def volta (x : Bloco) : Bloco :=
  let x := QR x 0 4 8 12
  let x := QR x 1 5 9 13
  let x := QR x 2 6 10 14
  let x := QR x 3 7 11 15
  let x := QR x 0 5 10 15
  let x := QR x 1 6 11 12
  let x := QR x 2 7 8 13
  QR x 3 4 9 14

def chacha20_block (inp : Bloco) : Bloco :=
  let x := volta^[10] inp
  Vector.ofFn fun i => x[i] + inp[i]

/-! ## Bytes -/

/-- The word that lies in the bytes from `4 * i` on. -/
def palavra (bs : List UInt8) (i : Nat) : UInt32 :=
  (bs.getD (4 * i) 0).toUInt32 ||| ((bs.getD (4 * i + 1) 0).toUInt32 <<< 8) |||
    ((bs.getD (4 * i + 2) 0).toUInt32 <<< 16) ||| ((bs.getD (4 * i + 3) 0).toUInt32 <<< 24)

/-- Byte `k` of a word in memory. -/
def byte (w : UInt32) (k : Nat) : UInt8 := (w >>> UInt32.ofNat (8 * k)).toUInt8

/-- `expand 32-byte k`. -/
def sigma : List UInt8 :=
  [101, 120, 112, 97, 110, 100, 32, 51, 50, 45, 98, 121, 116, 101, 32, 107]

/-- `state`, as `chacha20_encrypt` sets it up. -/
def estado (key nonce : List UInt8) (counter : UInt32) : Bloco :=
  #v[palavra sigma 0, palavra sigma 1, palavra sigma 2, palavra sigma 3,
    palavra key 0, palavra key 1, palavra key 2, palavra key 3,
    palavra key 4, palavra key 5, palavra key 6, palavra key 7,
    counter, palavra nonce 0, palavra nonce 1, palavra nonce 2]

/-- `(uint8_t *)keystream`. -/
def bytes (x : Bloco) : List UInt8 := List.ofFn fun n : Fin 64 => byte x[n.val / 4] (n.val % 4)

/-! ## Encryption -/

/-- The inner loop, from byte `j` of the keystream and byte `i` of `in` on: the bytes it writes and
the bytes it leaves. -/
def mistura : List UInt8 → List UInt8 → List UInt8 × List UInt8
  | k :: ks, b :: entrada => ((b ^^^ k) :: (mistura ks entrada).1, (mistura ks entrada).2)
  | _, entrada => ([], entrada)

theorem mistura_eq (ks entrada : List UInt8) :
    mistura ks entrada =
      (List.zipWith (· ^^^ ·) entrada ks, entrada.drop ks.length) := by
  fun_induction mistura ks entrada with
  | case1 k ks b entrada ih => simp [ih]
  | case2 ks entrada h =>
    cases ks with
    | nil => simp
    | cons k ks =>
      cases entrada with
      | nil => simp
      | cons b bs => exact (h k ks b bs rfl rfl).elim

@[simp] theorem bytes_length (x : Bloco) : (bytes x).length = 64 :=
  List.length_ofFn

theorem mistura_menor (x : Bloco) {entrada : List UInt8} (h : entrada ≠ []) :
    (mistura (bytes x) entrada).2.length < entrada.length := by
  have hl : 0 < entrada.length := List.length_pos_iff.mpr h
  rw [mistura_eq, List.length_drop, bytes_length]
  omega

/-- The outer loop, on the bytes of `in` that are left. -/
def laco (state : Bloco) (entrada : List UInt8) : List UInt8 :=
  if h : entrada = [] then []
  else
    let m := mistura (bytes (chacha20_block state)) entrada
    m.1 ++ laco (state.set 12 (state[12] + 1)) m.2
termination_by entrada.length
decreasing_by exact mistura_menor _ h

/-- `in` of `len` bytes; `key` of 32, `nonce` of 12. -/
def chacha20_encrypt (key nonce : List UInt8) (counter : UInt32) (entrada : List UInt8) :
    List UInt8 :=
  laco (estado key nonce counter) entrada

end SpaceOS.ChaCha20
