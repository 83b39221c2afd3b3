-- The negotiation of `dhcp_init` with any number of servers: which messages each address comes from.
import Mathlib.Data.List.OfFn
import SpaceOS.Lib.LastWrite
import SpaceOS.Dhcp

open Lib.Bytes Lib.LastWrite

namespace SpaceOS.Dhcp

open SpaceOS.Net

/-! ## What a message says -/

/-- The options from address `opt` on, each with the address of its value. -/
def opcoes_de (data : Memory) : Nat → Nat → List (UInt8 × Nat)
  | 0, _ => []
  | n + 1, opt =>
    if opt < SIZEOF_PKT ∧ data opt ≠ OPT_END then
      if data opt = 0 then opcoes_de data n (opt + 1)
      else (data opt, opt + 2) :: opcoes_de data n (opt + 2 + (data (opt + 1)).toNat)
    else []

/-- The options of a message. -/
def opcoes (m : Mensagem) : List (UInt8 × Nat) := opcoes_de m.data 313 OPTIONS

/-- The address in option `code` of a message that the client reads, the last one of them. -/
def valor (code : UInt8) (m : Mensagem) : Option UInt32 :=
  if nossa m then
    last (fun o => if o.1 = code then some (endereco_em m.data o.2) else none) (opcoes m)
  else none

/-- The type of a message, 0 where it has none. -/
def tipo (m : Mensagem) : UInt8 :=
  (last (fun o => if o.1 = OPT_MSG_TYPE then some (m.data o.2) else none) (opcoes m)).getD 0

def oferta (m : Mensagem) : Bool := nossa m ∧ tipo m = DHCP_OFFER

def confirma (m : Mensagem) : Bool := nossa m ∧ tipo m = DHCP_ACK

/-- The message carries address `ip` in option `code`. -/
def carrega (m : Mensagem) (code : UInt8) (ip : UInt32) : Prop :=
  nossa m ∧ ∃ o ∈ opcoes m, o.1 = code ∧ endereco_em m.data o.2 = ip

/-! ## One message -/

section Handler

variable {data : Memory} {s : Negociacao} {m : Mensagem}

theorem opcoes_laco_eq (n opt : Nat) (r : Negociacao × UInt8) :
    opcoes_laco data n opt r =
      (opcoes_de data n opt).foldl (fun r o => opcao data o.1 o.2 r) r := by
  induction n generalizing opt r with
  | zero => rfl
  | succ n ih =>
    unfold opcoes_laco opcoes_de
    split
    · dsimp only
      split
      · exact ih _ _
      · rw [List.foldl_cons]
        exact ih _ _
    · rfl

/-- More turns change nothing: those that the loop has are enough. -/
theorem opcoes_laco_voltas {n opt : Nat} (h : SIZEOF_PKT < opt + n) (r : Negociacao × UInt8) :
    opcoes_laco data (n + 1) opt r = opcoes_laco data n opt r := by
  induction n generalizing opt r with
  | zero => exact if_neg fun hc => absurd hc.1 (by omega)
  | succ n ih =>
    rw [opcoes_laco, opcoes_laco.eq_2]
    split
    · dsimp only
      split
      · exact ih (by omega) r
      · exact ih (by omega) _
    · rfl

/-- The value that an option with code `code` gives. -/
def dado (data : Memory) (code : UInt8) (o : UInt8 × Nat) : Option UInt32 :=
  if o.1 = code then some (endereco_em data o.2) else none

/-- An option writes the one variable of its code. -/
theorem opcao_spec (data : Memory) (o : UInt8 × Nat) (r : Negociacao × UInt8) :
    opcao data o.1 o.2 r =
      ({ r.1 with
          server_id := (dado data OPT_SERVER_ID o).getD r.1.server_id
          offered_gw := (dado data OPT_ROUTER o).getD r.1.offered_gw
          offered_mask := (dado data OPT_SUBNET_MASK o).getD r.1.offered_mask
          offered_dns := (dado data OPT_DNS o).getD r.1.offered_dns },
        (if o.1 = OPT_MSG_TYPE then some (data o.2) else none).getD r.2) := by
  obtain ⟨code, opt⟩ := o
  unfold opcao dado
  dsimp only
  by_cases h1 : code = OPT_MSG_TYPE
  · subst h1
    rfl
  by_cases h2 : code = OPT_SUBNET_MASK
  · subst h2
    rfl
  by_cases h3 : code = OPT_ROUTER
  · subst h3
    rfl
  by_cases h4 : code = OPT_DNS
  · subst h4
    rfl
  by_cases h5 : code = OPT_SERVER_ID
  · subst h5
    rfl
  simp only [if_neg h1, if_neg h2, if_neg h3, if_neg h4, if_neg h5]
  rfl

/-- The loop leaves the flags and the offered address, and each other variable with the last value
that an option gives it. -/
theorem foldl_opcao (data : Memory) (l : List (UInt8 × Nat)) (s : Negociacao) (t : UInt8) :
    l.foldl (fun r o => opcao data o.1 o.2 r) (s, t) =
      ({ s with
          server_id := (last (dado data OPT_SERVER_ID) l).getD s.server_id
          offered_gw := (last (dado data OPT_ROUTER) l).getD s.offered_gw
          offered_mask := (last (dado data OPT_SUBNET_MASK) l).getD s.offered_mask
          offered_dns := (last (dado data OPT_DNS) l).getD s.offered_dns },
        (last (fun o => if o.1 = OPT_MSG_TYPE then some (data o.2) else none) l).getD t) := by
  induction l generalizing s t with
  | nil => rfl
  | cons o l ih =>
    have hor : ∀ (α : Type) (a b : Option α) (d : α), (a.or b).getD d = a.getD (b.getD d) :=
      fun α a b d => by cases a <;> rfl
    rw [List.foldl_cons, opcao_spec, ih]
    simp only [last_cons, hor]

theorem valor_eq (code : UInt8) (m : Mensagem) :
    valor code m = if nossa m then last (dado m.data code) (opcoes m) else none := rfl

/-- What one message does to the variables. -/
theorem dhcp_handler_spec (s : Negociacao) (m : Mensagem) :
    dhcp_handler s m =
      { dhcp_got_offer := s.dhcp_got_offer || oferta m
        dhcp_got_ack := s.dhcp_got_ack || (confirma m && s.dhcp_got_offer)
        offered_ip := if oferta m && !s.dhcp_got_offer then endereco_em m.data 16 else s.offered_ip
        server_id := (valor OPT_SERVER_ID m).getD s.server_id
        offered_gw := (valor OPT_ROUTER m).getD s.offered_gw
        offered_mask := (valor OPT_SUBNET_MASK m).getD s.offered_mask
        offered_dns := (valor OPT_DNS m).getD s.offered_dns } := by
  unfold dhcp_handler
  by_cases hn : nossa m
  · rw [if_neg (not_not_intro hn), opcoes_laco_eq, foldl_opcao]
    simp only [valor_eq, if_pos hn]
    have ho : oferta m = decide (tipo m = DHCP_OFFER) := by simp [oferta, hn]
    have hc : confirma m = decide (tipo m = DHCP_ACK) := by simp [confirma, hn]
    rw [ho, hc]
    change (if tipo m = DHCP_OFFER ∧ _ then _ else if tipo m = DHCP_ACK ∧ _ then _ else _) = _
    by_cases h1 : tipo m = DHCP_OFFER
    · have h2 : DHCP_OFFER ≠ DHCP_ACK := by decide
      cases hg : s.dhcp_got_offer with
      | true => simp [h1, h2, opcoes]
      | false => simp [h1, opcoes]
    · cases hg : s.dhcp_got_offer with
      | true =>
        by_cases h2 : tipo m = DHCP_ACK
        · have h3 : DHCP_ACK ≠ DHCP_OFFER := by decide
          simp [h2, h3, opcoes]
        · simp [h1, h2, opcoes]
      | false => simp [h1, opcoes]
  · have ho : oferta m = false := by simp [oferta, hn]
    have hc : confirma m = false := by simp [confirma, hn]
    rw [if_pos hn]
    simp [valor_eq, hn, ho, hc]

end Handler

/-! ## The messages of a negotiation -/

/-- The messages up to the end of the first poll that brings one of which `pronto` holds. -/
def ate (pronto : Mensagem → Bool) : List (List Mensagem) → List Mensagem
  | [] => []
  | p :: polls => p ++ if p.any pronto then [] else ate pronto polls

/-- The messages that the handler gets before the REQUEST. -/
def antes (polls : List (List Mensagem)) : List Mensagem := ate oferta polls

/-- An ACK is among the messages before the REQUEST, after an OFFER. -/
def confirmada (polls : List (List Mensagem)) : Bool :=
  ((antes polls).dropWhile fun m => !oferta m).any confirma

/-- The messages that the handler gets after the REQUEST. -/
def depois (polls polls' : List (List Mensagem)) : List Mensagem :=
  if confirmada polls then [] else ate confirma polls'

/-- All the messages that the handler gets. -/
def entregues (polls polls' : List (List Mensagem)) : List Mensagem :=
  antes polls ++ depois polls polls'

section Espera

variable {s : Negociacao} {pronto : Negociacao → Bool} {p : Mensagem → Bool}
  {I : Negociacao → Prop}

theorem espera_pronto (h : pronto s = true) (polls : List (List Mensagem)) :
    espera pronto polls s = s := by
  cases polls with
  | nil => rfl
  | cons p polls => exact if_pos h

/-- A wait gives the handler the messages up to the poll that ends it. -/
theorem espera_eq (hi : ∀ s m, I s → I (dhcp_handler s m))
    (hs : ∀ s m, I s → pronto (dhcp_handler s m) = (pronto s || p m))
    (polls : List (List Mensagem)) (h : I s) (h0 : pronto s = false) :
    espera pronto polls s = (ate p polls).foldl dhcp_handler s := by
  induction polls generalizing s with
  | nil => rfl
  | cons q polls ih =>
    have hq := foldl_flag hi hs q h
    rw [h0, Bool.false_or] at hq
    rw [espera, if_neg (by simp [h0]), ate, List.foldl_append]
    cases hany : q.any p with
    | true => exact espera_pronto (hq.trans hany) polls
    | false => exact ih (foldl_inv hi q h) (hq.trans hany)

theorem got_offer_handler (s : Negociacao) (m : Mensagem) :
    (dhcp_handler s m).dhcp_got_offer = (s.dhcp_got_offer || oferta m) := by
  rw [dhcp_handler_spec]

theorem got_ack_handler (s : Negociacao) (m : Mensagem) (h : s.dhcp_got_offer = true) :
    (dhcp_handler s m).dhcp_got_ack = (s.dhcp_got_ack || confirma m) := by
  rw [dhcp_handler_spec, h, Bool.and_true]

theorem got_offer_stays (s : Negociacao) (m : Mensagem) (h : s.dhcp_got_offer = true) :
    (dhcp_handler s m).dhcp_got_offer = true := by
  rw [got_offer_handler, h, Bool.true_or]

theorem oferta_nao_confirma {m : Mensagem} (h : oferta m = true) : confirma m = false := by
  have ht : tipo m = DHCP_OFFER := (of_decide_eq_true h).2
  have hne : DHCP_OFFER ≠ DHCP_ACK := by decide
  simp [confirma, ht, hne]

/-- An ACK counts after an OFFER. -/
theorem got_ack_foldl (l : List Mensagem) (ho : s.dhcp_got_offer = false)
    (ha : s.dhcp_got_ack = false) :
    (l.foldl dhcp_handler s).dhcp_got_ack = (l.dropWhile fun m => !oferta m).any confirma := by
  induction l generalizing s with
  | nil => exact ha
  | cons m l ih =>
    have hack : (dhcp_handler s m).dhcp_got_ack = false := by
      rw [dhcp_handler_spec, ho, ha, Bool.and_false]
      rfl
    rw [List.foldl_cons]
    cases hm : oferta m with
    | true =>
      rw [List.dropWhile_cons_of_neg (by simp [hm]), List.any_cons, oferta_nao_confirma hm,
        Bool.false_or, foldl_flag got_offer_stays got_ack_handler l
        (by rw [got_offer_handler, hm, Bool.or_true]), hack, Bool.false_or]
    | false =>
      rw [List.dropWhile_cons_of_pos (by simp [hm])]
      exact ih (by rw [got_offer_handler, ho, hm]; rfl) hack

end Espera

/-! ## dhcp_init -/

section Init

variable (mac : Mac) (s : Negociacao) (e : Enderecos) (polls polls' : List (List Mensagem))

/-- The variables as `dhcp_init` resets them: the gateway, the mask and the DNS server stay. -/
def zerada : Negociacao :=
  { s with dhcp_got_offer := false, dhcp_got_ack := false, offered_ip := 0, server_id := 0 }

/-- The variables when the REQUEST goes out, and at the end. -/
def no_pedido : Negociacao := (antes polls).foldl dhcp_handler (zerada s)

def no_fim : Negociacao := (entregues polls polls').foldl dhcp_handler (zerada s)

theorem got_offer_no_pedido :
    (no_pedido s polls).dhcp_got_offer = (antes polls).any oferta := by
  unfold no_pedido
  rw [foldl_flag (I := fun _ => True) (fun _ _ _ => trivial)
    (fun s m _ => got_offer_handler s m) _ trivial]
  rfl

theorem espera_oferta :
    espera Negociacao.dhcp_got_offer polls (zerada s) = no_pedido s polls :=
  espera_eq (I := fun _ => True) (fun _ _ _ => trivial) (fun s m _ => got_offer_handler s m) polls
    trivial rfl

theorem got_ack_no_pedido : (no_pedido s polls).dhcp_got_ack = confirmada polls :=
  got_ack_foldl (s := zerada s) _ rfl rfl

theorem espera_ack (h : (antes polls).any oferta = true) :
    espera Negociacao.dhcp_got_ack polls' (no_pedido s polls) = no_fim s polls polls' := by
  unfold no_fim entregues depois
  rw [List.foldl_append]
  change _ = List.foldl dhcp_handler (no_pedido s polls) _
  cases hc : confirmada polls with
  | true => exact espera_pronto ((got_ack_no_pedido s polls).trans hc) polls'
  | false =>
    exact espera_eq got_offer_stays got_ack_handler polls' ((got_offer_no_pedido s polls).trans h)
      ((got_ack_no_pedido s polls).trans hc)

theorem got_ack_no_fim (h : (antes polls).any oferta = true) :
    (no_fim s polls polls').dhcp_got_ack =
      (confirmada polls || (depois polls polls').any confirma) := by
  unfold no_fim entregues
  rw [List.foldl_append]
  change (List.foldl dhcp_handler (no_pedido s polls) _).dhcp_got_ack = _
  rw [foldl_flag got_offer_stays got_ack_handler _ ((got_offer_no_pedido s polls).trans h),
    got_ack_no_pedido]

/-- The lease is confirmed: an OFFER comes in the first wait, and an ACK after it. -/
def concedida : Prop :=
  (antes polls).any oferta = true ∧
    (confirmada polls || (depois polls polls').any confirma) = true

/-- `dhcp_init` returns 0 just where the lease is confirmed. -/
theorem dhcp_init_cases :
    (¬ concedida polls polls' ∧ (dhcp_init mac s e polls polls').retorno = -1) ∨
      (concedida polls polls' ∧ dhcp_init mac s e polls polls' =
        ⟨0, [build_discover mac, build_request mac (no_pedido s polls)], no_fim s polls polls',
          ⟨(no_fim s polls polls').offered_ip, (no_fim s polls polls').offered_gw,
            (no_fim s polls polls').offered_mask, (no_fim s polls polls').offered_dns⟩⟩) := by
  have hespera := espera_oferta s polls
  have hoffer := got_offer_no_pedido s polls
  unfold zerada at hespera
  unfold dhcp_init
  dsimp only
  rw [hespera]
  cases ho : (antes polls).any oferta with
  | false =>
    rw [if_pos (by rw [hoffer, ho]; decide)]
    refine Or.inl ⟨fun hc => ?_, rfl⟩
    rw [hc.1] at ho
    exact absurd ho (by decide)
  | true =>
    have hack := got_ack_no_fim s polls polls' ho
    rw [if_neg (by rw [hoffer, ho]; decide), espera_ack s polls polls' ho]
    cases hc : (confirmada polls || (depois polls polls').any confirma) with
    | false =>
      rw [if_pos (by rw [hack, hc]; decide)]
      refine Or.inl ⟨fun h => ?_, rfl⟩
      rw [h.2] at hc
      exact absurd hc (by decide)
    | true =>
      rw [if_neg (by rw [hack, hc]; decide)]
      exact Or.inr ⟨⟨ho, hc⟩, rfl⟩

end Init

/-! ## The variables after the messages -/

section Valores

variable (s : Negociacao) (polls polls' : List (List Mensagem))

theorem server_id_no_pedido :
    (no_pedido s polls).server_id = (last (valor OPT_SERVER_ID) (antes polls)).getD 0 :=
  foldl_last (fun s m => by rw [dhcp_handler_spec]) _ _

theorem offered_gw_no_fim : (no_fim s polls polls').offered_gw =
    (last (valor OPT_ROUTER) (entregues polls polls')).getD s.offered_gw :=
  foldl_last (fun s m => by rw [dhcp_handler_spec]) _ _

theorem offered_mask_no_fim : (no_fim s polls polls').offered_mask =
    (last (valor OPT_SUBNET_MASK) (entregues polls polls')).getD s.offered_mask :=
  foldl_last (fun s m => by rw [dhcp_handler_spec]) _ _

theorem offered_dns_no_fim : (no_fim s polls polls').offered_dns =
    (last (valor OPT_DNS) (entregues polls polls')).getD s.offered_dns :=
  foldl_last (fun s m => by rw [dhcp_handler_spec]) _ _

/-- The address is the one of the first OFFER. -/
theorem offered_ip_no_fim {o : Mensagem} (ho : (antes polls).find? oferta = some o) :
    (no_fim s polls polls').offered_ip = endereco_em o.data 16 := by
  have hv : ∀ s m, s.dhcp_got_offer = true → (dhcp_handler s m).offered_ip = s.offered_ip := by
    intro s m h
    rw [dhcp_handler_spec, h]
    simp
  have hw : ∀ s m, s.dhcp_got_offer = false → oferta m = true →
      (dhcp_handler s m).offered_ip = endereco_em m.data 16 := by
    intro s m h hm
    rw [dhcp_handler_spec, h, hm]
    simp
  have hfind : (entregues polls polls').find? oferta = some o := by
    unfold entregues
    rw [List.find?_append, ho]
    rfl
  have hzero : (zerada s).dhcp_got_offer = false := rfl
  exact foldl_first got_offer_handler hv hw (entregues polls polls') hzero hfind

end Valores

/-- A packet names a server in its option 54, where `build_request` puts it. -/
def nomeia (pkt : List UInt8) (servidor : UInt32) : Prop :=
  (pkt.drop (OPTIONS + 9)).take 6 = [OPT_SERVER_ID, 4] ++ octetos servidor

theorem octetos_inj {a b : UInt32} (h : octetos a = octetos b) : a = b := by
  unfold octetos at h
  injection h with h1 h
  injection h with h2 h
  injection h with h3 h
  injection h with h4 _
  replace h1 := congrArg UInt8.toNat h1
  replace h2 := congrArg UInt8.toNat h2
  replace h3 := congrArg UInt8.toNat h3
  replace h4 := congrArg UInt8.toNat h4
  simp only [UInt32.toNat_toUInt8, UInt32.toNat_shiftRight, Nat.shiftRight_eq_div_pow,
    UInt32.reduceToNat, Nat.reduceMod, Nat.reducePow] at h1 h2 h3 h4
  have ha := a.toNat_lt
  have hb := b.toNat_lt
  exact UInt32.toNat_inj.mp (by omega)

theorem nomeia_build_request (mac : Mac) (s : Negociacao) (servidor : UInt32) :
    nomeia (build_request mac s) servidor ↔ s.server_id = servidor := by
  have hlen : (cabecalho mac).length = OPTIONS := by
    simp only [cabecalho, List.length_append, length_bytes32, length_bytes16, List.length_replicate,
      List.length_ofFn]
    rfl
  unfold nomeia build_request pacote
  rw [List.append_assoc, ← hlen, ← List.drop_drop, List.drop_left]
  change [OPT_SERVER_ID, 4] ++ octetos s.server_id = _ ↔ _
  rw [List.append_cancel_left_eq]
  exact ⟨octetos_inj, fun h => by rw [h]⟩

/-! ## The law -/

section Lei

variable (mac : Mac) (s : Negociacao) (e : Enderecos) (polls polls' : List (List Mensagem))

/-- A server of which a message says that option `code` is `ip`. -/
def DeUmaMensagem (servidor : UInt32) (code : UInt8) (ip : UInt32) : Prop :=
  ∃ m ∈ entregues polls polls', m.servidor = servidor ∧ carrega m code ip

/-- The REQUEST names the server of the OFFER `o`, our address is the one that it offers, and the
other addresses come from messages of that server. -/
structure DoServidor (o : Mensagem) : Prop where
  pedido : ∃ pkt, (dhcp_init mac s e polls polls').enviados[1]? = some pkt ∧ nomeia pkt o.servidor
  our_ip : (dhcp_init mac s e polls polls').enderecos.net_our_ip = endereco_em o.data 16
  gateway : DeUmaMensagem polls polls' o.servidor OPT_ROUTER
    (dhcp_init mac s e polls polls').enderecos.net_gateway_ip
  netmask : DeUmaMensagem polls polls' o.servidor OPT_SUBNET_MASK
    (dhcp_init mac s e polls polls').enderecos.net_netmask
  dns : DeUmaMensagem polls polls' o.servidor OPT_DNS
    (dhcp_init mac s e polls polls').enderecos.net_dns_ip

/-- Where `dhcp_init` returns 0, all is from the server of the first OFFER. -/
def Coerente : Prop :=
  (dhcp_init mac s e polls polls').retorno = 0 →
    ∃ o, (antes polls).find? oferta = some o ∧ DoServidor mac s e polls polls' o

/-- The last address in option `code` of the messages, or where none has the option the one left by
an earlier negotiation, is also in a message of the server of `o`. -/
def Repete (o : Mensagem) (code : UInt8) (velho : UInt32) : Prop :=
  DeUmaMensagem polls polls' o.servidor code ((last (valor code) (entregues polls polls')).getD velho)

/-- The lease is not confirmed; or the last server identifier before the REQUEST is the one of the
server of the first OFFER, and no other server has the last word on the other addresses. -/
def SemMistura : Prop :=
  concedida polls polls' → ∀ o, (antes polls).find? oferta = some o →
    (last (valor OPT_SERVER_ID) (antes polls)).getD 0 = o.servidor ∧
      Repete polls polls' o OPT_ROUTER s.offered_gw ∧
      Repete polls polls' o OPT_SUBNET_MASK s.offered_mask ∧ Repete polls polls' o OPT_DNS s.offered_dns

theorem primeira_oferta (h : concedida polls polls') : ∃ o, (antes polls).find? oferta = some o := by
  obtain ⟨m, hm, ho⟩ := List.any_eq_true.mp h.1
  exact Option.isSome_iff_exists.mp (List.find?_isSome.mpr ⟨m, hm, ho⟩)

theorem doServidor_iff (h : concedida polls polls') {o : Mensagem}
    (ho : (antes polls).find? oferta = some o) :
    DoServidor mac s e polls polls' o ↔
      (last (valor OPT_SERVER_ID) (antes polls)).getD 0 = o.servidor ∧
        Repete polls polls' o OPT_ROUTER s.offered_gw ∧
        Repete polls polls' o OPT_SUBNET_MASK s.offered_mask ∧
        Repete polls polls' o OPT_DNS s.offered_dns := by
  obtain ⟨hn, _⟩ | ⟨_, hinit⟩ := dhcp_init_cases mac s e polls polls'
  · exact absurd h hn
  unfold Repete
  rw [← server_id_no_pedido s polls, ← offered_gw_no_fim, ← offered_mask_no_fim,
    ← offered_dns_no_fim]
  constructor
  · rintro ⟨⟨pkt, hpkt, hnome⟩, _, hgw, hmask, hdns⟩
    rw [hinit] at hpkt hgw hmask hdns
    obtain rfl := Option.some.inj hpkt
    exact ⟨(nomeia_build_request _ _ _).mp hnome, hgw, hmask, hdns⟩
  · rintro ⟨hid, hgw, hmask, hdns⟩
    refine ⟨⟨build_request mac (no_pedido s polls), by rw [hinit]; rfl,
      (nomeia_build_request _ _ _).mpr hid⟩, ?_, ?_, ?_, ?_⟩
    · rw [hinit]
      exact offered_ip_no_fim s polls polls' ho
    · rw [hinit]
      exact hgw
    · rw [hinit]
      exact hmask
    · rw [hinit]
      exact hdns

theorem Coerente.semMistura (h : Coerente mac s e polls polls') : SemMistura s polls polls' := by
  intro hc o ho
  obtain ⟨hn, _⟩ | ⟨_, hinit⟩ := dhcp_init_cases mac s e polls polls'
  · exact absurd hc hn
  · obtain ⟨o', ho', hd⟩ := h (by rw [hinit])
    obtain rfl := Option.some.inj (ho'.symm.trans ho)
    exact (doServidor_iff mac s e polls polls' hc ho).mp hd

theorem SemMistura.coerente (h : SemMistura s polls polls') : Coerente mac s e polls polls' := by
  intro hret
  obtain ⟨_, hr⟩ | ⟨hc, _⟩ := dhcp_init_cases mac s e polls polls'
  · rw [hr] at hret
    exact absurd hret (by decide)
  · obtain ⟨o, ho⟩ := primeira_oferta polls polls' hc
    exact ⟨o, ho, (doServidor_iff mac s e polls polls' hc ho).mpr (h hc o ho)⟩

/-- However the messages of the servers mix: the lease that `dhcp_init` returns comes from one server
just where no message of another server has the last word. -/
theorem a_lease_comes_from_one_server_iff :
    Coerente mac s e polls polls' ↔ SemMistura s polls polls' :=
  ⟨Coerente.semMistura mac s e polls polls', SemMistura.coerente mac s e polls polls'⟩

/-- A message of a server, with an address for us and options. -/
def mensagem (servidor ip : UInt32) (options : List UInt8) : Mensagem :=
  ⟨copia (fun i => (pacote (fun _ => 0) options).getD i 0) 16 (octetos ip), 552, servidor⟩

/-- A message of a server that names itself. -/
def de_servidor (servidor ip : UInt32) (msg_type : UInt8) : Mensagem :=
  mensagem servidor ip ([OPT_MSG_TYPE, 1, msg_type, OPT_SERVER_ID, 4] ++ octetos servidor ++ [OPT_END])

/-- Two servers answer within one poll: the address is of the first one, and the REQUEST names the
second. -/
theorem a_request_names_the_other_server :
    ¬ ∀ mac s e polls polls', Coerente mac s e polls polls' := by
  intro hall
  have h := Coerente.semMistura _ _ _ _ _
    (hall (fun _ => 0) ⟨false, false, 0, 0, 0, 0, 0⟩ ⟨0, 0, 0, 0⟩
      [[de_servidor 0x0A000001 0x0A000005 2, de_servidor 0x0A000002 0x0A000006 2]]
      [[de_servidor 0x0A000001 0x0A000005 5]])
  have hc : concedida [[de_servidor 0x0A000001 0x0A000005 2, de_servidor 0x0A000002 0x0A000006 2]]
      [[de_servidor 0x0A000001 0x0A000005 5]] := by
    unfold concedida
    decide +kernel
  have ho : (antes [[de_servidor 0x0A000001 0x0A000005 2,
      de_servidor 0x0A000002 0x0A000006 2]]).find? oferta =
        some (de_servidor 0x0A000001 0x0A000005 2) :=
    List.find?_cons_of_pos (by decide +kernel)
  have hid := (h hc _ ho).1
  revert hid
  decide +kernel

end Lei

end SpaceOS.Dhcp
