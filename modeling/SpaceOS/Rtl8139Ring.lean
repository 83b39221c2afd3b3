-- The receive ring with packets of any status and any length: where the card lays them, the room
-- that it looks for, and the loop of `rtl8139_poll` (kernel/net/rtl8139.c) with a record of the
-- headers that it reads and the bytes that it copies.
import SpaceOS.Rtl8139

open Lib.Bytes

namespace SpaceOS.Rtl8139.Anel

open SpaceOS.Net (bytes16 copia)

/-! ## The card -/

/-- A packet as the card writes it. `corpo` is what stands behind the header, the CRC at its end, and
its length is the length field of the header. -/
structure Pacote where
  status : UInt16
  corpo : List UInt8
  length_lt : corpo.length < 65536

def Pacote.bytes (p : Pacote) : List UInt8 :=
  bytes16 p.status ++ bytes16 (UInt16.ofNat p.corpo.length) ++ p.corpo

/-- The header and the length, aligned to 4 bytes. -/
def Pacote.tam (p : Pacote) : Nat := (4 + p.corpo.length + 3) / 4 * 4

/-- What the packets before packet `k` take in all. -/
def posicao (ps : List Pacote) (k : Nat) : Nat := ((ps.take k).map Pacote.tam).sum

/-- One header read by the driver: the number of the packet that is due, the pointer that the driver
has, where it reads and what it finds there, what comes between its two reads of CBR, and the bytes
that it copies. -/
structure Leitura where
  k : Nat
  rx_read_ptr : UInt16
  header : Nat
  rx_status : UInt16
  rx_len : UInt16
  entre : List Pacote
  copiados : Option (List UInt8)

/-- The driver and the card. `colocados` is what the card has put into the ring, oldest first, `k` the
number of the packet that is due, and `leituras` the headers read so far. -/
structure Estado where
  rx_buf : Memory
  rx_read_ptr : UInt16
  capr : UInt16
  colocados : List Pacote
  k : Nat
  leituras : List Leitura
  turno : Nat

/-- After `rtl8139_init`. -/
def Estado.inicio : Estado := ⟨fun _ => 0, 0, 0xFFF0, [], 0, [], 0⟩

/-- Where the card writes its next packet, and what the register CBR reads. -/
def Estado.cbr (s : Estado) : Nat := posicao s.colocados s.colocados.length % RX_RING

/-- Where the driver reads on, as the card knows from CAPR. -/
def Estado.lido (s : Estado) : Nat := (s.capr.toNat + 16) % RX_RING

/-- The bytes that wait in the ring, as the card knows. -/
def Estado.espera (s : Estado) : Nat := (s.cbr + RX_RING - s.lido) % RX_RING

/-- The card puts a packet into the ring, past its end where it must (`RCR_WRAP`), or drops it where
there is no room. -/
def Estado.coloca (s : Estado) (p : Pacote) : Estado :=
  if s.espera + p.tam < RX_RING then
    { s with rx_buf := copia s.rx_buf s.cbr p.bytes, colocados := s.colocados ++ [p] }
  else s

/-- What is not up to the driver in one turn of its loop: the packets that come before it reads CR,
whether CR already shows packets that wait, whether a buffer is free, what each poll of the callback
reads from ISR, and the packets that come between the two reads of CBR. -/
structure Escolha where
  chega : List Pacote
  avisa : Bool
  livre : Bool
  aninha : List UInt16
  entre : List Pacote

/-! ## The driver -/

/-- `CR_BUFE`. -/
def Estado.vazio (s : Estado) (e : Escolha) : Prop := ¬ e.avisa ∨ s.lido = s.cbr

instance (s : Estado) (e : Escolha) : Decidable (s.vazio e) := inferInstanceAs (Decidable (_ ∨ _))

/-- The header of a packet that the driver does not take. -/
def ruim (rx_status rx_len : UInt16) : Prop :=
  rx_status &&& 0x0001 = 0 ∨ rx_len = 0 ∨ rx_len > 1518

instance (rx_status rx_len : UInt16) : Decidable (ruim rx_status rx_len) :=
  inferInstanceAs (Decidable (_ ∨ _ ∨ _))

/-- The bytes of a packet, where it fits a buffer and one is free. -/
def Estado.copiado (s : Estado) (rx_len : UInt16) (livre : Bool) : Option (List UInt8) :=
  let pkt_len := rx_len - 4
  if pkt_len.toNat ≤ NETBUF_SIZE ∧ livre = true then
    some (copia_pacote s.rx_buf ((s.rx_read_ptr.toNat + 4) % (RX_BUF_SIZE - 1500)) pkt_len.toNat)
  else none

/-- The pointer set to CBR, which is read twice. -/
def Estado.reinicia (s : Estado) (entre : List Pacote) : Estado :=
  let s := entre.foldl Estado.coloca { s with capr := UInt16.ofNat s.cbr - 16 }
  { s with rx_read_ptr := UInt16.ofNat s.cbr, k := s.colocados.length }

/-- The pointer moved past a packet. -/
def Estado.avanca (s : Estado) (rx_len : UInt16) : Estado :=
  let rx_read_ptr := Rtl8139.avanca s.rx_read_ptr rx_len
  { s with rx_read_ptr := rx_read_ptr, capr := rx_read_ptr - 16, k := s.k + 1 }

/-- The callback, which polls again. -/
def recv_cb (poll : UInt16 → Estado → Nat × Estado) (s : Estado) (aninha : List UInt16) : Estado :=
  aninha.foldl (fun s isr => (poll isr s).2) s

/-- The loop of `rtl8139_poll`, for `n` turns at most. -/
def poll_laco (ambiente : Nat → Escolha) (poll : UInt16 → Estado → Nat × Estado) :
    Nat → Estado → Nat × Estado
  | 0, s => (0, s)
  | n + 1, s =>
    let e := ambiente s.turno
    let s := e.chega.foldl Estado.coloca { s with turno := s.turno + 1 }
    if s.vazio e then (0, s)
    else
      let header := s.rx_read_ptr.toNat % (RX_BUF_SIZE - 1500)
      let rx_status := UInt16.ofNat (half s.rx_buf header)
      let rx_len := UInt16.ofNat (half s.rx_buf (header + 2))
      let le := fun copiados => { s with
        leituras := s.leituras ++
          [⟨s.k, s.rx_read_ptr, header, rx_status, rx_len, e.entre, copiados⟩] }
      if ruim rx_status rx_len then (0, (le none).reinicia e.entre)
      else
        let copiados := s.copiado rx_len e.livre
        let s := if copiados.isSome then recv_cb poll (le copiados) e.aninha else le copiados
        let (frames, s) := poll_laco ambiente poll n (s.avanca rx_len)
        (frames + if copiados.isSome then 1 else 0, s)

/-- `rtl8139_poll` on a card whose ISR reads `isr`, with loops and nested calls of `n` turns at
most. -/
def rtl8139_poll (ambiente : Nat → Escolha) : Nat → UInt16 → Estado → Nat × Estado
  | 0, _, s => (0, s)
  | n + 1, isr, s =>
    if ¬ rx_isr isr then (0, s)
    else poll_laco ambiente (rtl8139_poll ambiente n) n s

/-- Polls one after another, each with what it reads from ISR. -/
def polls (ambiente : Nat → Escolha) (n : Nat) (isrs : List UInt16) (s : Estado) : Estado :=
  isrs.foldl (fun s isr => (rtl8139_poll ambiente n isr s).2) s

/-! ## What a reading should be -/

/-- The header is read where the packet that is due lies, and the bytes copied are its bytes without
the CRC. -/
def Leitura.Certa (l : Leitura) (ps : List Pacote) : Prop :=
  ∃ p, ps[l.k]? = some p ∧ l.header = posicao ps l.k % RX_RING ∧
    ∀ bytes, l.copiados = some bytes → bytes = p.corpo.take (p.corpo.length - 4)

/-- The pointer has not left the ring, the bytes copied end within the first 8208 bytes of the buffer,
and nothing comes while the pointer is set to CBR. -/
structure Leitura.Cumpre (l : Leitura) : Prop where
  no_anel : l.rx_read_ptr.toNat < RX_RING
  inteiro : l.copiados ≠ none →
    l.rx_read_ptr.toNat + l.rx_len.toNat ≤ RX_BUF_SIZE - 1500
  calmo : ruim l.rx_status l.rx_len → l.entre = []

/-- No poll inside a callback finds a packet announced in ISR. -/
def SemAninhar (ambiente : Nat → Escolha) : Prop := ∀ k, ∀ isr ∈ (ambiente k).aninha, ¬ rx_isr isr

end SpaceOS.Rtl8139.Anel
