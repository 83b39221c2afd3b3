-- Poly1305 (kernel/net/tls.c): the accumulator in five limbs of 26 bits, each in a word of 32.
import Mathlib.Data.List.Basic

namespace SpaceOS.Poly1305

/-! ## The key -/

/-- `rb`: the first half of the key, clamped. -/
def rb (key : List UInt8) (i : Nat) : UInt8 :=
  let b := key.getD i 0
  if i = 3 ∨ i = 7 ∨ i = 11 ∨ i = 15 then b &&& 15
  else if i = 4 ∨ i = 8 ∨ i = 12 then b &&& 252
  else b

structure Chave where
  r0 : UInt32
  r1 : UInt32
  r2 : UInt32
  r3 : UInt32
  r4 : UInt32
  s0 : UInt32
  s1 : UInt32
  s2 : UInt32
  s3 : UInt32

def carrega (key : List UInt8) : Chave :=
  let b (i : Nat) : UInt32 := (rb key i).toUInt32
  let r0 := (b 0 ||| b 1 <<< 8 ||| b 2 <<< 16 ||| b 3 <<< 24) &&& 0x3FFFFFF
  let r1 := (b 3 >>> 2 ||| b 4 <<< 6 ||| b 5 <<< 14 ||| b 6 <<< 22 ||| b 7 <<< 30) &&& 0x3FFFFFF
  let r2 := (b 6 >>> 4 ||| b 7 <<< 4 ||| b 8 <<< 12 ||| b 9 <<< 20 ||| b 10 <<< 28) &&& 0x3FFFFFF
  let r3 := (b 9 >>> 6 ||| b 10 <<< 2 ||| b 11 <<< 10 ||| b 12 <<< 18 ||| b 13 <<< 26) &&& 0x3FFFFFF
  let r4 := (b 12 >>> 8 ||| b 13 <<< 0 ||| b 14 <<< 8 ||| b 15 <<< 16) &&& 0x3FFFFFF
  { r0 := r0, r1 := r1, r2 := r2, r3 := r3, r4 := r4
    s0 := r1 * 5, s1 := r2 * 5, s2 := r3 * 5, s3 := r4 * 5 }

/-! ## Blocks -/

/-- `h0` to `h4`. -/
structure Limbs where
  h0 : UInt32
  h1 : UInt32
  h2 : UInt32
  h3 : UInt32
  h4 : UInt32

/-- `d0` to `d4`. -/
structure Produto where
  d0 : UInt64
  d1 : UInt64
  d2 : UInt64
  d3 : UInt64
  d4 : UInt64

/-- What a block adds to each limb. `blk` ends with the pad bit; the bytes behind it are 0. -/
def partes (blk : List UInt8) : Limbs :=
  let b (i : Nat) : UInt32 := (blk.getD i 0).toUInt32
  let t0 := b 0 ||| b 1 <<< 8 ||| b 2 <<< 16 ||| b 3 <<< 24
  { h0 := t0 &&& 0x3FFFFFF
    h1 := (b 3 >>> 2 ||| b 4 <<< 6 ||| b 5 <<< 14 ||| b 6 <<< 22) &&& 0x3FFFFFF
    h2 := (b 6 >>> 4 ||| b 7 <<< 4 ||| b 8 <<< 12 ||| b 9 <<< 20) &&& 0x3FFFFFF
    h3 := (b 9 >>> 6 ||| b 10 <<< 2 ||| b 11 <<< 10 ||| b 12 <<< 18) &&& 0x3FFFFFF
    h4 := b 12 >>> 8 ||| b 13 ||| b 14 <<< 8 ||| b 15 <<< 16 ||| b 16 <<< 24 }

def soma (h t : Limbs) : Limbs :=
  { h0 := h.h0 + t.h0, h1 := h.h1 + t.h1, h2 := h.h2 + t.h2, h3 := h.h3 + t.h3
    h4 := h.h4 + t.h4 }

def produto (k : Chave) (h : Limbs) : Produto :=
  let m (x y : UInt32) : UInt64 := x.toUInt64 * y.toUInt64
  { d0 := m h.h0 k.r0 + m h.h1 k.s3 + m h.h2 k.s2 + m h.h3 k.s1 + m h.h4 k.s0
    d1 := m h.h0 k.r1 + m h.h1 k.r0 + m h.h2 k.s3 + m h.h3 k.s2 + m h.h4 k.s1
    d2 := m h.h0 k.r2 + m h.h1 k.r1 + m h.h2 k.r0 + m h.h3 k.s3 + m h.h4 k.s2
    d3 := m h.h0 k.r3 + m h.h1 k.r2 + m h.h2 k.r1 + m h.h3 k.r0 + m h.h4 k.s3
    d4 := m h.h0 k.r4 + m h.h1 k.r3 + m h.h2 k.r2 + m h.h3 k.r1 + m h.h4 k.r0 }

/-- `c` after `d`. -/
def vai (d : UInt64) : UInt32 := (d >>> 26).toUInt32

/-- `d1` to `d4`, each with the carry of the one before. -/
def propaga (d : Produto) : Produto :=
  let d1 := d.d1 + (vai d.d0).toUInt64
  let d2 := d.d2 + (vai d1).toUInt64
  let d3 := d.d3 + (vai d2).toUInt64
  let d4 := d.d4 + (vai d3).toUInt64
  { d0 := d.d0, d1 := d1, d2 := d2, d3 := d3, d4 := d4 }

def recolhe (d : Produto) : Limbs :=
  let h0 := (d.d0 >>> 0).toUInt32 &&& 0x3FFFFFF
  let h1 := (d.d1 >>> 0).toUInt32 &&& 0x3FFFFFF
  let h0 := h0 + vai d.d4 * 5
  let c := h0 >>> 26
  { h0 := h0 &&& 0x3FFFFFF
    h1 := h1 + c
    h2 := (d.d2 >>> 0).toUInt32 &&& 0x3FFFFFF
    h3 := (d.d3 >>> 0).toUInt32 &&& 0x3FFFFFF
    h4 := (d.d4 >>> 0).toUInt32 &&& 0x3FFFFFF }

/-- One turn of the loop; `pedaco` has 16 bytes, or fewer at the end. -/
def bloco (k : Chave) (h : Limbs) (pedaco : List UInt8) : Limbs :=
  recolhe (propaga (produto k (soma h (partes (pedaco ++ [1])))))

def laco (k : Chave) (h : Limbs) (msg : List UInt8) : Limbs :=
  if msg = [] then h else laco k (bloco k h (msg.take 16)) (msg.drop 16)
termination_by msg.length
decreasing_by
  have hl : 0 < msg.length := List.length_pos_iff.mpr ‹_›
  rw [List.length_drop]
  omega

/-! ## The tag -/

/-- The carries after the loop. -/
def normaliza (h : Limbs) : Limbs :=
  let c := h.h1 >>> 26
  let h1 := h.h1 &&& 0x3FFFFFF
  let h2 := h.h2 + c
  let c := h2 >>> 26
  let h2 := h2 &&& 0x3FFFFFF
  let h3 := h.h3 + c
  let c := h3 >>> 26
  let h3 := h3 &&& 0x3FFFFFF
  let h4 := h.h4 + c
  let c := h4 >>> 26
  let h4 := h4 &&& 0x3FFFFFF
  let h0 := h.h0 + c * 5
  let c := h0 >>> 26
  let h0 := h0 &&& 0x3FFFFFF
  { h0 := h0, h1 := h1 + c, h2 := h2, h3 := h3, h4 := h4 }

/-- `h - (2^130 - 5)`; `g4` has its top bit when that is negative. -/
def menos_p (h : Limbs) : Limbs :=
  let g0 := h.h0 + 5
  let c := g0 >>> 26
  let g1 := h.h1 + c
  let c := g1 >>> 26
  let g2 := h.h2 + c
  let c := g2 >>> 26
  let g3 := h.h3 + c
  let c := g3 >>> 26
  { h0 := g0 &&& 0x3FFFFFF, h1 := g1 &&& 0x3FFFFFF, h2 := g2 &&& 0x3FFFFFF
    h3 := g3 &&& 0x3FFFFFF, h4 := h.h4 + c - ((1 : UInt32) <<< 26) }

/-- `h` or `g`, by the sign of `g4`. -/
def escolhe (h g : Limbs) : Limbs :=
  let mask := (g.h4 >>> 31) - 1
  let e (x y : UInt32) : UInt32 := (x &&& ~~~mask) ||| (y &&& mask)
  { h0 := e h.h0 g.h0, h1 := e h.h1 g.h1, h2 := e h.h2 g.h2, h3 := e h.h3 g.h3
    h4 := e h.h4 g.h4 }

/-- The word of the second half of the key from byte `i` of it on. -/
def f (key : List UInt8) (i : Nat) : UInt32 :=
  let b (j : Nat) : UInt32 := (key.getD (16 + i + j) 0).toUInt32
  b 0 ||| b 1 <<< 8 ||| b 2 <<< 16 ||| b 3 <<< 24

/-- The bytes that `F` gives to `tag`. -/
def bytes (F : UInt64) : List UInt8 :=
  [F.toUInt8, (F >>> 8).toUInt8, (F >>> 16).toUInt8, (F >>> 24).toUInt8]

def saida (key : List UInt8) (h : Limbs) : List UInt8 :=
  let F0 := ((h.h0 ||| h.h1 <<< 26) &&& 0xFFFFFFFF).toUInt64 + (f key 0).toUInt64
  let F1 := F0 >>> 32 + (((h.h1 >>> 6 ||| h.h2 <<< 20) &&& 0xFFFFFFFF).toUInt64 +
    (f key 4).toUInt64)
  let F2 := F1 >>> 32 + (((h.h2 >>> 12 ||| h.h3 <<< 14) &&& 0xFFFFFFFF).toUInt64 +
    (f key 8).toUInt64)
  let F3 := F2 >>> 32 + (((h.h3 >>> 18 ||| h.h4 <<< 8) &&& 0xFFFFFFFF).toUInt64 +
    (f key 12).toUInt64)
  bytes F0 ++ bytes F1 ++ bytes F2 ++ bytes F3

/-- `key` of 32 bytes. -/
def poly1305_mac (key msg : List UInt8) : List UInt8 :=
  let h := normaliza (laco (carrega key) ⟨0, 0, 0, 0, 0⟩ msg)
  saida key (escolhe h (menos_p h))

end SpaceOS.Poly1305
