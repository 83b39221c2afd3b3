-- The induction over the wait for an address, made once. The loop of `arp_resolve` polls the card,
-- and each poll hands its frames to the receive path: what every such frame keeps, the wait keeps.
import SpaceOS.Stack

open Lib.Bytes

namespace SpaceOS.Net

section Espera

variable (P : Rede → Netbuf → Prop)

/-- Each of the frames is one of `P` in the state that it finds. -/
def Quadros (f : IpSend) : Rede → List Netbuf → Prop
  | _, [] => True
  | t, buf :: quadros => P t buf ∧ Quadros f (recebe f t buf) quadros

/-- So is each frame that the next poll brings. -/
def NoPoll : Nat → Rede → Prop
  | 0, _ => True
  | n + 1, t => ∀ p polls, t.polls = p :: polls →
    Quadros P (ip_send (eth_poll n)) { t with polls := polls, ticks := p.ticks } p.quadros

/-- So is each frame until the loop of `arp_resolve` ends. -/
def NaEspera (n : Nat) (ip start ticks_max : UInt32) : Nat → Rede → Prop
  | 0, _ => True
  | k + 1, t => t.ticks - start < ticks_max →
    NoPoll P n t ∧ (arp_cache_lookup (eth_poll n t).arp_cache ip = none →
      NaEspera n ip start ticks_max k (eth_poll n t))

/-- So is each frame that arrives while `ip_send` resolves the address. -/
def AoResolver (n : Nat) (t : Rede) (dst_ip : UInt32) : Prop :=
  ¬ (dst_ip = 0xFFFFFFFF ∨ dst_ip = 0) → arp_cache_lookup t.arp_cache (nexthop t dst_ip) = none →
    NaEspera P n (nexthop t dst_ip) t.ticks 300 t.polls.length
      (arp_send_request t (nexthop t dst_ip))

end Espera

/-- A property of the stack that a frame of `P`, the clock and the request keep. -/
structure Invariante (P : Rede → Netbuf → Prop) (I : Rede → Prop) : Prop where
  recebe {f : IpSend} {t : Rede} {buf : Netbuf} : P t buf → I t → I (recebe f t buf)
  relogio {t : Rede} {polls : List Poll} {ticks : UInt32} : I t →
    I { t with polls := polls, ticks := ticks }
  pedido {t : Rede} {dst_mac payload : List UInt8} {proto : UInt16} : I t →
    I (eth_send t dst_mac proto payload).2

namespace Invariante

variable {P : Rede → Netbuf → Prop} {I : Rede → Prop} {n : Nat} {t : Rede}

theorem quadros (hI : Invariante P I) {f : IpSend} {quadros : List Netbuf}
    (h : Quadros P f t quadros) (ht : I t) : I (quadros.foldl (Net.recebe f) t) := by
  induction quadros generalizing t with
  | nil => exact ht
  | cons buf quadros ih => exact ih h.2 (hI.recebe h.1 ht)

theorem eth_poll (hI : Invariante P I) (h : NoPoll P n t) (ht : I t) : I (eth_poll n t) := by
  cases n with
  | zero => exact ht
  | succ n =>
    unfold Net.eth_poll
    split
    · exact ht
    · rename_i p polls hp
      exact hI.quadros (h p polls hp) (hI.relogio ht)

theorem arp_espera (hI : Invariante P I) {k : Nat} {ip start ticks_max : UInt32}
    (h : NaEspera P n ip start ticks_max k t) (ht : I t) :
    I (arp_espera (Net.eth_poll n) ip start ticks_max k t).2 := by
  induction k generalizing t with
  | zero => exact ht
  | succ k ih =>
    unfold Net.arp_espera
    split
    · rename_i hticks
      obtain ⟨hpoll, hrest⟩ := h hticks
      dsimp only
      split
      · exact hI.eth_poll hpoll ht
      · rename_i hnone
        exact ih (hrest hnone) (hI.eth_poll hpoll ht)
    · exact ht

/-- The address is resolved, with the polls of the wait. -/
theorem ip_destino (hI : Invariante P I) {dst_ip : UInt32} (h : AoResolver P n t dst_ip)
    (ht : I t) : I (ip_destino (Net.eth_poll n) t dst_ip).2 := by
  unfold Net.ip_destino
  split
  · exact ht
  · rename_i hb
    unfold arp_resolve
    split
    · exact ht
    · rename_i hnone
      have hpolls : (arp_send_request t (nexthop t dst_ip)).polls = t.polls := by
        unfold arp_send_request eth_send
        split <;> rfl
      have hticks : (arp_send_request t (nexthop t dst_ip)).ticks = t.ticks := by
        unfold arp_send_request eth_send
        split <;> rfl
      dsimp only
      rw [hpolls, hticks]
      exact hI.arp_espera (h hb hnone) (hI.pedido ht)

end Invariante

end SpaceOS.Net
