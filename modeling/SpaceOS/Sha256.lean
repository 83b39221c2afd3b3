-- The streaming interface of SHA-256 (kernel/net/tls.c): the context with its buffer of a block,
-- filled across calls.
import SpaceOS.Tls

namespace SpaceOS.Sha256

open Tls (Sha)

/-- `sha256_ctx_t`. -/
structure Ctx where
  state : Sha
  count : UInt64
  buf : Vector UInt8 64

def sha256_transform (ctx : Ctx) : Ctx :=
  { ctx with state := Tls.sha256_transform ctx.state ctx.buf.toList }

def sha256_init (ctx : Ctx) : Ctx :=
  { ctx with count := 0, state := Tls.sha256_init.state }

/-! ## Update -/

/-- `i`: where the next byte goes. -/
def indice (ctx : Ctx) : UInt32 := (ctx.count &&& 63).toUInt32

def escreve (ctx : Ctx) (i : UInt32) (b : UInt8) : Ctx :=
  { ctx with buf := ctx.buf.setIfInBounds i.toNat b }

/-- The loop of `sha256_update`, on the bytes that are left. -/
def laco : List UInt8 → UInt32 → Ctx → Ctx
  | [], _, ctx => ctx
  | b :: data, i, ctx =>
    let ctx := escreve ctx i b
    let i := i + 1
    if i = 64 then laco data 0 (sha256_transform ctx) else laco data i ctx

/-- `len` is the length of `data`. -/
def sha256_update (ctx : Ctx) (data : List UInt8) : Ctx :=
  let i := indice ctx
  laco data i { ctx with count := ctx.count + (UInt32.ofNat data.length).toUInt64 }

/-! ## Final -/

/-- `while (i < n) ctx->buf[i++] = 0`. -/
def zera (ctx : Ctx) (i : UInt32) (n : Nat) : Ctx :=
  (List.range (n - i.toNat)).foldl (fun ctx k => escreve ctx (i + UInt32.ofNat k) 0) ctx

/-- The first loop over the bit count, from the last byte to the first. -/
def conta_bits (ctx : Ctx) : Ctx :=
  ([7, 6, 5, 4, 3, 2, 1, 0].foldl
    (fun (s : Ctx × UInt64) k =>
      (escreve s.1 (UInt32.ofNat (56 + k)) (s.2 &&& 0xFF).toUInt8, s.2 >>> 8))
    (ctx, ctx.count * 8)).1

/-- The second one, big-endian. -/
def grava_bits (ctx : Ctx) : Ctx :=
  let bc := ctx.count * 8
  (List.range 8).foldl
    (fun ctx k => escreve ctx (UInt32.ofNat (56 + k)) (bc >>> UInt64.ofNat (56 - k * 8)).toUInt8) ctx

def sha256_final (ctx : Ctx) : List UInt8 :=
  let i := indice ctx
  let ctx := escreve ctx i 0x80
  let i := i + 1
  let (ctx, i) := if i > 56 then (sha256_transform (zera ctx i 64), 0) else (ctx, i)
  let ctx := zera ctx i 56
  let ctx := sha256_transform (grava_bits (conta_bits ctx))
  let s := ctx.state
  [s.a, s.b, s.c, s.d, s.e, s.f, s.g, s.h].flatMap fun w : UInt32 =>
    [(w >>> 24).toUInt8, (w >>> 16).toUInt8, (w >>> 8).toUInt8, w.toUInt8]

/-- The calls of `sha256_update`, in order, between `sha256_init` and `sha256_final`. -/
def sha256_pedacos (ctx : Ctx) (pedacos : List (List UInt8)) : List UInt8 :=
  sha256_final (pedacos.foldl sha256_update (sha256_init ctx))

end SpaceOS.Sha256
