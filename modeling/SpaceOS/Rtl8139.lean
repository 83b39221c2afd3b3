-- The receive side of the network card (kernel/net/rtl8139.c): the ring that the card writes and
-- `rtl8139_poll`, which empties it. The callback may poll again before it returns.
import SpaceOS.Net

open Lib.Bytes

namespace SpaceOS.Rtl8139

open SpaceOS.Net (bytes16 copia)

def RX_BUF_SIZE : Nat := 8192 + 16 + 1500

def NETBUF_SIZE : Nat := 1536

def ISR_ROK : UInt16 := 0x0001

def ISR_RER : UInt16 := 0x0002

def ISR_RXOVW : UInt16 := 0x0010

def ISR_FOVW : UInt16 := 0x0040

/-! ## The card

The card is set up with a ring of 8 KB (`RCR_RBLEN_8K`) and `RCR_WRAP`: it starts each packet in
the first 8192 bytes of the buffer, and lets it run on past them. -/

def RX_RING : Nat := 8192

/-- A packet that the card received without error: its status, its bytes and their CRC. -/
structure Quadro where
  status : UInt16
  data : List UInt8
  crc : List UInt8
  ok : status &&& 0x0001 ≠ 0
  data_le : data.length + 4 ≤ 1518
  crc_length : crc.length = 4

/-- A packet as it lies in the ring, after a header of 4 bytes. -/
def Quadro.bytes (f : Quadro) : List UInt8 :=
  bytes16 f.status ++ bytes16 (UInt16.ofNat (f.data.length + 4)) ++ f.data ++ f.crc

/-- The bytes from the start of a packet to the start of the next one, which is aligned to 4. -/
def Quadro.tam (f : Quadro) : Nat := (f.data.length + 8 + 3) / 4 * 4

/-- The bytes that packets take in the ring. -/
def ocupado (fs : List Quadro) : Nat := (fs.map Quadro.tam).sum

/-- The driver and the card. `colocados` is what the card has put into the ring, and `entregues`
what `recv_cb` was given, both oldest first; `perdidos` counts the frames for which there was no
buffer, and `turno` the turns of the loop. -/
structure Placa where
  rx_buf : Memory
  rx_read_ptr : UInt16
  capr : UInt16
  colocados : List Quadro
  entregues : List (List UInt8)
  perdidos : Nat
  turno : Nat

/-- After `rtl8139_init`. -/
def Placa.inicio : Placa := ⟨fun _ => 0, 0, 0xFFF0, [], [], 0, 0⟩

/-- Where the card writes its next packet, and what the register CBR reads. -/
def Placa.cbr (s : Placa) : Nat := ocupado s.colocados % RX_RING

/-- Where the driver reads on, as the card knows from CAPR. -/
def Placa.lido (s : Placa) : Nat := (s.capr.toNat + 16) % RX_RING

/-- The card puts a packet into the ring. -/
def Placa.coloca (s : Placa) (f : Quadro) : Placa :=
  { s with rx_buf := copia s.rx_buf s.cbr f.bytes, colocados := s.colocados ++ [f] }

/-- What is not up to the driver in one turn of its loop: the packets that come before it reads CR,
whether CR already shows packets that wait, whether a buffer is free, and what each poll that the
callback makes reads from ISR. -/
structure Escolha where
  chega : List Quadro
  avisa : Bool
  livre : Bool
  aninha : List UInt16

/-! ## The driver -/

/-- The bytes of a packet, copied in two parts where they wrap. -/
def copia_pacote (rx_buf : Memory) (off pkt_len : Nat) : List UInt8 :=
  if off + pkt_len ≤ RX_BUF_SIZE - 1500 then (List.range pkt_len).map fun i => rx_buf (off + i)
  else
    let part1 := RX_BUF_SIZE - 1500 - off
    ((List.range part1).map fun i => rx_buf (off + i)) ++ (List.range (pkt_len - part1)).map rx_buf

/-- `CR_BUFE`. -/
def Placa.vazio (s : Placa) (e : Escolha) : Prop := ¬ e.avisa ∨ s.lido = s.cbr

instance (s : Placa) (e : Escolha) : Decidable (s.vazio e) := inferInstanceAs (Decidable (_ ∨ _))

/-- What `rtl8139_poll` looks for in ISR. -/
def rx_isr (isr : UInt16) : Prop := isr &&& (ISR_ROK ||| ISR_RER ||| ISR_RXOVW ||| ISR_FOVW) ≠ 0

instance (isr : UInt16) : Decidable (rx_isr isr) := inferInstanceAs (Decidable (_ ≠ _))

/-- The pointer moved to a word boundary past a packet. -/
def avanca (rx_read_ptr rx_len : UInt16) : UInt16 := (rx_read_ptr + 4 + rx_len + 3) &&& ~~~ 3

/-- The callback, which takes the bytes and polls again. -/
def recv_cb (poll : UInt16 → Placa → Nat × Placa) (s : Placa) (data : List UInt8)
    (aninha : List UInt16) : Placa :=
  aninha.foldl (fun s isr => (poll isr s).2) { s with entregues := s.entregues ++ [data] }

/-- A packet passed on, where a buffer is free; with the number of frames. -/
def passa (poll : UInt16 → Placa → Nat × Placa) (s : Placa) (rx_len : UInt16) (e : Escolha) :
    Nat × Placa :=
  let pkt_len := rx_len - 4
  if pkt_len.toNat ≤ NETBUF_SIZE then
    if e.livre then
      let off := (s.rx_read_ptr.toNat + 4) % (RX_BUF_SIZE - 1500)
      (1, recv_cb poll s (copia_pacote s.rx_buf off pkt_len.toNat) e.aninha)
    else (0, { s with perdidos := s.perdidos + 1 })
  else (0, s)

/-- The loop of `rtl8139_poll`, for `n` turns at most. -/
def poll_laco (ambiente : Nat → Escolha) (poll : UInt16 → Placa → Nat × Placa) :
    Nat → Placa → Nat × Placa
  | 0, s => (0, s)
  | n + 1, s =>
    let e := ambiente s.turno
    let s := e.chega.foldl Placa.coloca { s with turno := s.turno + 1 }
    if s.vazio e then (0, s)
    else
      let header := s.rx_read_ptr.toNat % (RX_BUF_SIZE - 1500)
      let rx_status := UInt16.ofNat (half s.rx_buf header)
      let rx_len := UInt16.ofNat (half s.rx_buf (header + 2))
      if rx_status &&& 0x0001 = 0 ∨ rx_len = 0 ∨ rx_len > 1518 then
        (0, { s with capr := UInt16.ofNat s.cbr - 16, rx_read_ptr := UInt16.ofNat s.cbr })
      else
        let (frames, s) := passa poll s rx_len e
        let rx_read_ptr := avanca s.rx_read_ptr rx_len
        let (frames', s) := poll_laco ambiente poll n
          { s with rx_read_ptr := rx_read_ptr, capr := rx_read_ptr - 16 }
        (frames + frames', s)

/-- `rtl8139_poll` on a card whose ISR reads `isr`, with loops and nested calls of `n` turns at
most. -/
def rtl8139_poll (ambiente : Nat → Escolha) : Nat → UInt16 → Placa → Nat × Placa
  | 0, _, s => (0, s)
  | n + 1, isr, s =>
    if ¬ rx_isr isr then (0, s)
    else poll_laco ambiente (rtl8139_poll ambiente n) n s

/-- Polls one after another, each with what it reads from ISR. -/
def polls (ambiente : Nat → Escolha) (n : Nat) (isrs : List UInt16) (s : Placa) : Placa :=
  isrs.foldl (fun s isr => (rtl8139_poll ambiente n isr s).2) s

end SpaceOS.Rtl8139
