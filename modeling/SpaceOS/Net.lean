-- What the layers of the network stack (kernel/net) share: byte order, the checksum loop, and
-- the static variables of the layers with the frames that went out and those to come.
import SpaceOS.Lib.Footprint
import SpaceOS.Lib.RingQueue
import SpaceOS.Lib.Words

open Lib.Bytes Lib.RingQueue

namespace SpaceOS.Net

/-! ## Byte order -/

def htons (v : UInt16) : UInt16 := (v >>> 8) ||| (v <<< 8)

def ntohs (v : UInt16) : UInt16 := htons v

def htonl (v : UInt32) : UInt32 :=
  ((v &&& 0xFF000000) >>> 24) ||| ((v &&& 0x00FF0000) >>> 8) |||
    ((v &&& 0x0000FF00) <<< 8) ||| ((v &&& 0x000000FF) <<< 24)

def ntohl (v : UInt32) : UInt32 := htonl v

theorem toNat_htons (v : UInt16) : (htons v).toNat = v.toNat / 256 + v.toNat % 256 * 256 := by
  have hv := v.toNat_lt
  have hr : (v >>> 8).toNat = v.toNat / 256 := by
    rw [UInt16.toNat_shiftRight]
    exact Nat.shiftRight_eq_div_pow _ 8
  have hl : (v <<< 8).toNat = v.toNat % 256 * 2 ^ 8 := by
    rw [UInt16.toNat_shiftLeft]
    change v.toNat <<< 8 % 65536 = _
    rw [Nat.shiftLeft_eq]
    omega
  unfold htons
  have ho := Lib.Words.or_mul_pow (n := 8) (v.toNat % 256) (a := v.toNat / 256) (by omega)
  rw [UInt16.toNat_or, hr, hl, ho]
  omega

/-- One byte of a number, left in its place. -/
theorem and_byte (n k : Nat) : n &&& 255 <<< k = n / 2 ^ k % 256 * 2 ^ k :=
  Lib.Words.and_mask_shiftLeft n 8 k

theorem toNat_htonl (v : UInt32) : (htonl v).toNat =
    v.toNat / 2 ^ 24 + v.toNat / 2 ^ 16 % 256 * 2 ^ 8 + v.toNat / 2 ^ 8 % 256 * 2 ^ 16 +
      v.toNat % 256 * 2 ^ 24 := by
  have hv := v.toNat_lt
  have h1 : ((v &&& 0xFF000000) >>> 24).toNat = v.toNat / 2 ^ 24 := by
    rw [Lib.Words.toNat_shr _ _ (by decide), UInt32.toNat_and]
    have h := and_byte v.toNat 24
    change (v.toNat &&& 255 <<< 24) / 2 ^ 24 = _
    omega
  have h2 : ((v &&& 0x00FF0000) >>> 8).toNat = v.toNat / 2 ^ 16 % 256 * 2 ^ 8 := by
    rw [Lib.Words.toNat_shr _ _ (by decide), UInt32.toNat_and]
    have h := and_byte v.toNat 16
    change (v.toNat &&& 255 <<< 16) / 2 ^ 8 = _
    omega
  have h3 : ((v &&& 0x0000FF00) <<< 8).toNat = v.toNat / 2 ^ 8 % 256 * 2 ^ 16 := by
    rw [Lib.Words.toNat_shl _ _ (by decide), UInt32.toNat_and]
    have h := and_byte v.toNat 8
    change (v.toNat &&& 255 <<< 8) * 2 ^ 8 % 2 ^ 32 = _
    omega
  have h4 : ((v &&& 0x000000FF) <<< 24).toNat = v.toNat % 256 * 2 ^ 24 := by
    rw [Lib.Words.toNat_shl _ _ (by decide), UInt32.toNat_and]
    have h := and_byte v.toNat 0
    change (v.toNat &&& 255 <<< 0) * 2 ^ 24 % 2 ^ 32 = _
    omega
  unfold htonl
  rw [UInt32.toNat_or, UInt32.toNat_or, UInt32.toNat_or, h1, h2, h3, h4,
    Lib.Words.or_mul_pow (n := 8) _ (by omega), Lib.Words.or_mul_pow (n := 16) _ (by omega),
    Lib.Words.or_mul_pow (n := 24) _ (by omega)]

@[simp] theorem ntohs_htons (v : UInt16) : ntohs (htons v) = v := by
  have hv := v.toNat_lt
  apply UInt16.toNat_inj.mp
  unfold ntohs
  rw [toNat_htons, toNat_htons]
  omega

/-- A 16-bit value as it lies in memory. -/
def bytes16 (v : UInt16) : List UInt8 := [v.toUInt8, (v >>> 8).toUInt8]

/-- A 32-bit value as it lies in memory. -/
def bytes32 (v : UInt32) : List UInt8 :=
  [v.toUInt8, (v >>> 8).toUInt8, (v >>> 16).toUInt8, (v >>> 24).toUInt8]

/-- The bytes `data` copied to address `a`. -/
def copia (m : Memory) (a : Nat) (data : List UInt8) : Memory := fun i =>
  if a ≤ i then data.getD (i - a) (m i) else m i

/-- The first `n` bytes of a buffer. -/
def trecho (m : Memory) (n : Nat) : List UInt8 := (List.range n).map m

/-! ## The checksum loop -/

/-- `sum` with the 16-bit words added, and the odd byte. -/
def soma (sum : UInt32) : List UInt8 → UInt32
  | [] => sum
  | [a] => sum + a.toUInt32
  | a :: b :: p => soma (sum + UInt32.ofNat (a.toNat + 256 * b.toNat)) p

theorem toNat_dobra (sum : UInt32) :
    ((sum &&& (0xFFFF : UInt32)) + (sum >>> 16)).toNat = sum.toNat % 65536 + sum.toNat / 65536 := by
  have hlt := sum.toNat_lt
  have hand : (sum &&& (0xFFFF : UInt32)).toNat = sum.toNat % 65536 := by
    rw [UInt32.toNat_and]
    exact Nat.and_two_pow_sub_one_eq_mod _ 16
  have hshift : (sum >>> 16).toNat = sum.toNat / 65536 := by
    rw [UInt32.toNat_shiftRight]
    exact Nat.shiftRight_eq_div_pow _ _
  rw [UInt32.toNat_add, hand, hshift]
  omega

/-- `while (sum >> 16) sum = (sum & 0xFFFF) + (sum >> 16)`, for `n` turns at most. -/
def dobra_laco : Nat → UInt32 → UInt32
  | 0, sum => sum
  | n + 1, sum =>
    if sum >>> 16 = 0 then sum else dobra_laco n ((sum &&& (0xFFFF : UInt32)) + (sum >>> 16))

/-- The loop ends after two turns. -/
def dobra (sum : UInt32) : UInt32 := dobra_laco 2 sum

theorem shift_eq_zero_iff (sum : UInt32) : sum >>> 16 = 0 ↔ sum.toNat < 65536 := by
  rw [← UInt32.toNat_inj, UInt32.toNat_shiftRight]
  change sum.toNat >>> 16 = 0 ↔ _
  rw [Nat.shiftRight_eq_div_pow]
  omega

theorem dobra_fim (sum : UInt32) : (dobra sum) >>> 16 = 0 := by
  have hlt := sum.toNat_lt
  have h1 := toNat_dobra sum
  have h2 := toNat_dobra ((sum &&& (0xFFFF : UInt32)) + (sum >>> 16))
  rw [h1] at h2
  unfold dobra dobra_laco
  split
  · assumption
  · unfold dobra_laco
    split
    · assumption
    · rw [shift_eq_zero_iff]
      unfold dobra_laco
      omega

def ip_checksum (data : List UInt8) : UInt16 := ~~~ (dobra (soma 0 data)).toUInt16

/-! ## Sockets, caches and tables -/

def NETBUF_SIZE : Nat := 1536

def TCP_MAX_SOCKETS : Nat := 4

instance : NeZero TCP_MAX_SOCKETS := ⟨by decide⟩

def TCP_RX_BUF_SIZE : Nat := 2048

def ARP_CACHE_SIZE : Nat := 16

def UDP_MAX_HANDLERS : Nat := 8

/-- A buffer of the pool. `data` is the memory from `buf->data` on, of which the first `len` bytes
are the frame, and `offset` is how far the layers below have read. -/
structure Netbuf where
  data : Memory
  len : UInt16
  offset : UInt16

/-- The field `state` of a socket. -/
inductive Estado
  | closed
  | syn_sent
  | established
  | fin_wait
  | close_wait
  deriving DecidableEq, Repr

/-- `tcp_socket_t`. `rx` is `rx_buf` with `rx_head` and `rx_tail`. -/
structure Socket where
  remote_ip : UInt32
  local_port : UInt16
  remote_port : UInt16
  seq_num : UInt32
  ack_num : UInt32
  state : Estado
  rx : Queue TCP_RX_BUF_SIZE UInt8

/-- A socket number. The calls return -1 at once for any other. -/
abbrev Indice := Fin TCP_MAX_SOCKETS

/-- `arp_entry_t`. -/
structure Entrada where
  ip : UInt32
  mac : List UInt8
  valid : Bool
  deriving DecidableEq

/-- `udp_binding_t`. A handler is named by its address, and 0 is the null pointer. -/
structure Ligacao where
  port : UInt16
  handler : Nat
  deriving DecidableEq

/-- A call of a handler, with the bytes that it is shown. -/
structure Datagrama where
  handler : Nat
  src_ip : UInt32
  src_port : UInt16
  data : List UInt8
  deriving DecidableEq

/-- One call of `eth_poll`: the frames that it hands to `eth_recv`, and `sched_ticks` after it. -/
structure Poll where
  quadros : List Netbuf
  ticks : UInt32

/-- The static variables of the stack. `enviados` holds the frames given to the driver and
`datagramas` the calls of UDP handlers, newest first; `polls` is what the calls of `eth_poll`
will bring, and `tok n` tells whether the card confirms the `n`-th frame that is sent. -/
structure Rede where
  sockets : Indice → Socket
  next_local_port : UInt16
  tcp_out : Memory
  net_our_ip : UInt32
  net_gateway_ip : UInt32
  net_netmask : UInt32
  ip_id_counter : UInt16
  ip_packet : Memory
  arp_cache : Fin ARP_CACHE_SIZE → Entrada
  bindings : Fin UDP_MAX_HANDLERS → Ligacao
  mac_addr : List UInt8
  enviados : List (List UInt8)
  datagramas : List Datagrama
  ticks : UInt32
  polls : List Poll
  tok : Nat → Bool

/-- A socket set to zeros by `k_memset`. -/
def Socket.zero : Socket := ⟨0, 0, 0, 0, 0, .closed, Queue.empty (by decide) 0⟩

/-- The stack at boot, with the card of a host. -/
def Rede.inicio (mac_addr : List UInt8) (polls : List Poll) (tok : Nat → Bool) : Rede where
  sockets _ := Socket.zero
  next_local_port := 49152
  tcp_out _ := 0
  net_our_ip := 0
  net_gateway_ip := 0
  net_netmask := 0
  ip_id_counter := 1
  ip_packet _ := 0
  arp_cache _ := ⟨0, List.replicate 6 0, false⟩
  bindings _ := ⟨0, 0⟩
  mac_addr := mac_addr
  enviados := []
  datagramas := []
  ticks := 0
  polls := polls
  tok := tok

/-- The sockets with socket `sock` changed by `f`. -/
def Rede.muda (t : Rede) (sock : Indice) (f : Socket → Socket) : Rede :=
  { t with sockets := Function.update t.sockets sock (f (t.sockets sock)) }

/-! ## Small laws -/

@[simp] theorem length_bytes16 (v : UInt16) : (bytes16 v).length = 2 := rfl

@[simp] theorem length_bytes32 (v : UInt32) : (bytes32 v).length = 4 := rfl

@[simp] theorem length_trecho (m : Memory) (n : Nat) : (trecho m n).length = n := by
  simp [trecho]

theorem copia_nil (m : Memory) (a : Nat) : copia m a [] = m := by
  funext i
  simp [copia]

theorem copia_fora {m : Memory} {a i : Nat} {l : List UInt8} (h : a + l.length ≤ i) :
    copia m a l i = m i := by
  unfold copia
  split
  · rw [List.getD_eq_getElem?_getD, List.getElem?_eq_none (by omega)]
    rfl
  · rfl

theorem copia_dentro {m : Memory} {a i : Nat} {l : List UInt8} (ha : a ≤ i)
    (hi : i - a < l.length) : copia m a l i = l[i - a] := by
  unfold copia
  rw [if_pos ha, List.getD_eq_getElem?_getD, List.getElem?_eq_getElem hi]
  rfl

theorem trecho_copia_take (m : Memory) {l : List UInt8} {n : Nat} (h : n ≤ l.length) :
    trecho (copia m 0 l) n = l.take n := by
  refine List.ext_getElem (by simp [h]) fun i h1 h2 => ?_
  have hi : i < l.length := by
    rw [List.length_take] at h2
    omega
  simp [trecho, copia, hi]

theorem trecho_copia (m : Memory) (l : List UInt8) : trecho (copia m 0 l) l.length = l := by
  rw [trecho_copia_take m (Nat.le_refl _), List.take_length]

section Muda

variable {t : Rede} {i j : Indice}

@[simp] theorem sockets_muda_self (f : Socket → Socket) :
    (t.muda i f).sockets i = f (t.sockets i) := Function.update_self _ _ _

theorem sockets_muda_ne (f : Socket → Socket) (h : i ≠ j) :
    (t.muda j f).sockets i = t.sockets i := Function.update_of_ne h _ _

end Muda

end SpaceOS.Net
