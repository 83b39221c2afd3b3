-- The sound driver (kernel/drivers/hda.c): when its start reports a failure, and its verbs, two rings
-- that it shares with the controller, one for commands and one for answers, and which answer a call
-- takes for its own.
import Mathlib.Data.List.GetD
import SpaceOS.Lib.Polling
import SpaceOS.Pci

open Lib.Polling

namespace SpaceOS.Hda

/-! ## hda_init -/

def HDA_GCTL : UInt32 := 0x08

def HDA_CORBLBASE : UInt32 := 0x40

def HDA_CORBUBASE : UInt32 := 0x44

def HDA_CORBWP : UInt32 := 0x48

def HDA_CORBRP : UInt32 := 0x4A

def HDA_CORBCTL : UInt32 := 0x4C

def HDA_CORBSIZE : UInt32 := 0x4E

def HDA_RIRBLBASE : UInt32 := 0x50

def HDA_RIRBUBASE : UInt32 := 0x54

def HDA_RIRBWP : UInt32 := 0x58

def HDA_RINTCNT : UInt32 := 0x5A

def HDA_RIRBCTL : UInt32 := 0x5C

def HDA_RIRBSIZE : UInt32 := 0x5E

/-- The function of the controller: by its numbers, or else by its class. -/
def acha (t : Pci.Tabela) : Option Pci.pci_device_t :=
  (t.lista.find? fun d => d.vendor_id = 0x8086 ∧ d.device_id = 0x2668).or
    (t.lista.find? fun d => d.class_code = 0x04 ∧ d.subclass = 0x03)

/-- The wait for the end of the reset, from look `i` at GCTL on: what is left in `timeout`. -/
def espera_reset (gctl : Nat → UInt32) : Nat → Nat → UInt32
  | 0, i => if gctl i &&& 1 = 0 then 0 - 1 else 0
  | t + 1, i => if gctl i &&& 1 = 0 then espera_reset gctl t (i + 1) else UInt32.ofNat (t + 1)

/-- The writes to the registers in front of the wait. -/
def reset : List (UInt32 × UInt32) := [(HDA_GCTL, 0), (HDA_GCTL, 1)]

/-- The writes behind it. -/
def aneis (corb_phys rirb_phys : UInt32) : List (UInt32 × UInt32) :=
  [(HDA_CORBCTL, 0), (HDA_CORBSIZE, 0x02), (HDA_CORBLBASE, corb_phys), (HDA_CORBUBASE, 0),
    (HDA_CORBRP, 0x8000), (HDA_CORBRP, 0), (HDA_CORBWP, 0), (HDA_CORBCTL, 0x02),
    (HDA_RIRBCTL, 0), (HDA_RIRBSIZE, 0x02), (HDA_RIRBLBASE, rirb_phys), (HDA_RIRBUBASE, 0),
    (HDA_RIRBWP, 0x8000), (HDA_RINTCNT, 1), (HDA_RIRBCTL, 0x02)]

/-- The value, and the writes to the registers of the controller. -/
def hda_init (t : Pci.Tabela) (gctl : Nat → UInt32) (corb_phys rirb_phys : UInt32) :
    Int × List (UInt32 × UInt32) :=
  match acha t with
  | none => (-1, [])
  | some pci =>
    if pci.bar.getD 0 0 &&& ~~~(0xF : UInt32) = 0 then (-1, [])
    else if espera_reset gctl 50 0 = 0 then (-1, reset)
    else (0, reset ++ aneis corb_phys rirb_phys)

/-- Look `k` finds the controller out of its reset. -/
def Saiu (gctl : Nat → UInt32) (k : Nat) : Prop := gctl k &&& 1 ≠ 0

theorem polls_reset (gctl : Nat → UInt32) : Polls (espera_reset gctl) (Saiu gctl)
    (fun t _ => UInt32.ofNat (t + 1)) fun i => if gctl i &&& 1 = 0 then 0 - 1 else 0 where
  zero _ := rfl
  stop _ _ h := if_neg h
  next _ _ h := if_pos (not_not.mp h)

/-- The wait counts as a failure exactly if the controller is there at the look behind the last turn,
and not before. -/
theorem espera_reset_eq_zero_iff (gctl : Nat → UInt32) :
    espera_reset gctl 50 0 = 0 ↔ First (Saiu gctl) 50 := by
  rcases first_or_none (Saiu gctl) 50 with ⟨k, hk, hfirst⟩ | hnone
  · rw [(polls_reset gctl).of_first hk hfirst]
    constructor
    · intro h
      have hn : ∀ n < 50, UInt32.ofNat (50 - 1 - n + 1) ≠ 0 := by decide
      exact absurd h (hn k hk)
    · exact fun h => absurd hfirst.1 (h.2 k hk)
  · rw [(polls_reset gctl).of_none hnone]
    by_cases h : gctl 50 &&& 1 = 0
    · rw [if_pos h]
      exact ⟨fun he => absurd he (by decide), fun hf => absurd h hf.1⟩
    · rw [if_neg h]
      exact ⟨fun _ => ⟨h, hnone⟩, fun _ => rfl⟩

/-- The start fails for a controller that is there at the look behind the last turn, and not before, but
not for one that never leaves its reset: that one gets its rings as well. -/
theorem a_dead_controller_is_started (t : Pci.Tabela) (gctl : Nat → UInt32) (corb_phys rirb_phys : UInt32) :
    ((hda_init t gctl corb_phys rirb_phys).1 = 0 ↔
      (∃ pci, acha t = some pci ∧ pci.bar.getD 0 0 &&& ~~~(0xF : UInt32) ≠ 0) ∧
        ¬ First (Saiu gctl) 50) ∧
      ((hda_init t gctl corb_phys rirb_phys).1 = 0 ↔
        (hda_init t gctl corb_phys rirb_phys).2 = reset ++ aneis corb_phys rirb_phys) := by
  have hne : (-1 : Int) ≠ 0 := by decide
  unfold hda_init
  cases acha t with
  | none =>
    refine ⟨⟨fun h => absurd h hne, fun h => ?_⟩, by simp [reset]⟩
    obtain ⟨pci, he, -⟩ := h.1
    exact nomatch he
  | some pci =>
    dsimp only
    rw [← espera_reset_eq_zero_iff]
    by_cases hbar : pci.bar.getD 0 0 &&& ~~~(0xF : UInt32) = 0
    · rw [if_pos hbar]
      refine ⟨⟨fun h => absurd h hne, fun h => ?_⟩, by simp [reset]⟩
      obtain ⟨pci', he, hbar'⟩ := h.1
      exact absurd (Option.some.inj he ▸ hbar) hbar'
    · rw [if_neg hbar]
      by_cases hz : espera_reset gctl 50 0 = 0
      · rw [if_pos hz]
        exact ⟨⟨fun h => absurd h hne, fun h => absurd hz h.2⟩, by simp [aneis]⟩
      · rw [if_neg hz]
        exact ⟨⟨fun _ => ⟨⟨pci, rfl, hbar⟩, hz⟩, fun _ => rfl⟩, by simp⟩

/-! ## The rings -/

abbrev CORB_ENTRIES : Nat := 256

abbrev RIRB_ENTRIES : Nat := 256

/-- The variables of the file, the three pointers that the controller keeps, and how many verbs it has
answered. -/
structure Estado where
  corb : Nat → UInt32
  rirb : Nat → UInt64
  hda_initialized : Bool
  corb_wp : Nat
  reg_corbwp : Nat
  reg_corbrp : Nat
  reg_rirbwp : Nat
  respondidos : Nat

/-- After `hda_init`, which leaves the rings as they were. -/
def Estado.inicio (corb : Nat → UInt32) (rirb : Nat → UInt64) : Estado := ⟨corb, rirb, true, 0, 0, 0, 0, 0⟩

/-! ## The controller

It takes the verbs in the order of the ring and answers them in that order. What the codecs say to verb
number `k` is `resposta k`, and when they do so is up to them. -/

section Controlador

variable (resposta : Nat → UInt32 → UInt64)

/-- The next answer, if there is a verb. -/
def responde (s : Estado) : Estado :=
  if s.reg_corbrp = s.reg_corbwp then s
  else
    let rp := (s.reg_corbrp + 1) % CORB_ENTRIES
    let wp := (s.reg_rirbwp + 1) % RIRB_ENTRIES
    { s with
      rirb := Function.update s.rirb wp (resposta s.respondidos (s.corb rp))
      reg_corbrp := rp
      reg_rirbwp := wp
      respondidos := s.respondidos + 1 }

/-- Up to `k` answers. -/
def responde_ate : Nat → Estado → Estado
  | 0, s => s
  | k + 1, s => responde_ate k (responde resposta s)

/-! ## hda_send_verb -/

/-- The command of a verb. -/
def monta (codec node : UInt8) (verb : UInt16) (payload : UInt8) : UInt32 :=
  (codec.toUInt32 <<< 28) ||| (node.toUInt32 <<< 20) ||| (verb.toUInt32 <<< 8) ||| payload.toUInt32

/-- The loop, `timeout` turns from look `i` at the register on; `d i` answers come in front of look
`i`. -/
def espera (d : Nat → Nat) (rirb_wp_prev : Nat) : Nat → Nat → Estado → UInt32 × Estado
  | 0, _, s => (0xFFFFFFFF, s)
  | timeout + 1, i, s =>
    let s := responde_ate resposta (d i) s
    if s.reg_rirbwp ≠ rirb_wp_prev then ((s.rirb (s.reg_rirbwp % 256)).toUInt32, s)
    else espera d rirb_wp_prev timeout (i + 1) s

/-- The first look is the one in front of the loop. -/
def hda_send_verb (s : Estado) (cmd : UInt32) (d : Nat → Nat) : UInt32 × Estado :=
  if ¬ s.hda_initialized then (0xFFFFFFFF, s)
  else
    let corb_wp := (s.corb_wp + 1) % 256
    let s := { s with corb := Function.update s.corb corb_wp cmd, corb_wp := corb_wp, reg_corbwp := corb_wp }
    let s := responde_ate resposta (d 0) s
    espera resposta d s.reg_rirbwp 10000 1 s

/-- A call, and when answers come in it. -/
structure Chamada where
  codec : UInt8
  node : UInt8
  verb : UInt16
  payload : UInt8
  d : Nat → Nat

def Chamada.cmd (c : Chamada) : UInt32 := monta c.codec c.node c.verb c.payload

/-- What the calls return. -/
def chamadas : Estado → List Chamada → List UInt32 × Estado
  | s, [] => ([], s)
  | s, c :: cs =>
    let (r, s) := hda_send_verb resposta s c.cmd c.d
    let (rs, s) := chamadas s cs
    (r :: rs, s)

/-! ## The queue -/

/-- All verbs so far, and how many of them have been answered. -/
structure Fila where
  verbos : List UInt32
  respondidos : Nat

def Fila.pendentes (f : Fila) : Nat := f.verbos.length - f.respondidos

/-- Up to `k` answers. -/
def Fila.tira (f : Fila) (k : Nat) : Fila :=
  { f with respondidos := min (f.respondidos + k) f.verbos.length }

/-- The answer to verb number `k`. -/
def Fila.diz (f : Fila) (k : Nat) : UInt32 := (resposta k (f.verbos.getD k 0)).toUInt32

def Fila.espera (d : Nat → Nat) : Nat → Nat → Fila → UInt32 × Fila
  | 0, _, f => (0xFFFFFFFF, f)
  | timeout + 1, i, f =>
    if (f.tira (d i)).respondidos ≠ f.respondidos then
      ((f.tira (d i)).diz resposta ((f.tira (d i)).respondidos - 1), f.tira (d i))
    else espera d timeout (i + 1) f

/-- A call takes the last one of the answers that come together after its first look. -/
def Fila.chama (f : Fila) (cmd : UInt32) (d : Nat → Nat) : UInt32 × Fila :=
  Fila.espera resposta d 10000 1 (Fila.tira { f with verbos := f.verbos ++ [cmd] } (d 0))

def Fila.chamadas : Fila → List Chamada → List UInt32 × Fila
  | f, [] => ([], f)
  | f, c :: cs =>
    let (r, f) := f.chama resposta c.cmd c.d
    let (rs, f) := Fila.chamadas f cs
    (r :: rs, f)

/-- Every call of the run finds a place in the ring. -/
def Fila.Cabe : Fila → List Chamada → Prop
  | _, [] => True
  | f, c :: cs => f.pendentes < 255 ∧ Fila.Cabe (f.chama resposta c.cmd c.d).2 cs

end Controlador

/-! ## The rings hold the queue -/

section Aneis

variable {resposta : Nat → UInt32 → UInt64} {s : Estado} {f : Fila} {d : Nat → Nat}

/-- Every pointer counts its verbs or answers, modulo the length of its ring. -/
structure Segue (resposta : Nat → UInt32 → UInt64) (s : Estado) (f : Fila) : Prop where
  pronto : s.hda_initialized = true
  corb_wp : s.corb_wp = f.verbos.length % 256
  reg_corbwp : s.reg_corbwp = f.verbos.length % 256
  reg_corbrp : s.reg_corbrp = f.respondidos % 256
  reg_rirbwp : s.reg_rirbwp = f.respondidos % 256
  respondidos : s.respondidos = f.respondidos
  respondidos_le : f.respondidos ≤ f.verbos.length
  cabe : f.pendentes < 256
  corb : ∀ j, f.respondidos ≤ j → j < f.verbos.length → s.corb ((j + 1) % 256) = f.verbos.getD j 0
  rirb : 0 < f.respondidos →
    (s.rirb (f.respondidos % 256)).toUInt32 = f.diz resposta (f.respondidos - 1)

theorem segue_inicio (corb : Nat → UInt32) (rirb : Nat → UInt64) :
    Segue resposta (.inicio corb rirb) ⟨[], 0⟩ where
  pronto := rfl
  corb_wp := rfl
  reg_corbwp := rfl
  reg_corbrp := rfl
  reg_rirbwp := rfl
  respondidos := rfl
  respondidos_le := Nat.le_refl 0
  cabe := by decide
  corb j _ h := absurd h (Nat.not_lt_zero j)
  rirb h := absurd h (Nat.lt_irrefl 0)

theorem pendentes_tira (f : Fila) (k : Nat) : (f.tira k).pendentes ≤ f.pendentes := by
  unfold Fila.tira Fila.pendentes
  dsimp only
  omega

theorem Segue.responde (h : Segue resposta s f) : Segue resposta (responde resposta s) (f.tira 1) := by
  have hle := h.respondidos_le
  have hcabe := h.cabe
  unfold Fila.pendentes at hcabe
  unfold Hda.responde
  by_cases hfim : f.respondidos = f.verbos.length
  · have htira : f.tira 1 = f := by
      unfold Fila.tira
      rw [Nat.min_eq_right (by omega), ← hfim]
    rw [if_pos (by rw [h.reg_corbrp, h.reg_corbwp, hfim]), htira]
    exact h
  · have hne : s.reg_corbrp ≠ s.reg_corbwp := by
      rw [h.reg_corbrp, h.reg_corbwp]
      omega
    have htira : f.tira 1 = { f with respondidos := f.respondidos + 1 } := by
      unfold Fila.tira
      rw [Nat.min_eq_left (by omega)]
    have hrp : (s.reg_corbrp + 1) % CORB_ENTRIES = (f.respondidos + 1) % 256 := by
      rw [h.reg_corbrp]
      exact Nat.mod_add_mod _ _ _
    have hwp : (s.reg_rirbwp + 1) % RIRB_ENTRIES = (f.respondidos + 1) % 256 := by
      rw [h.reg_rirbwp]
      exact Nat.mod_add_mod _ _ _
    rw [if_neg hne, htira, hrp, hwp, h.respondidos]
    refine ⟨h.pronto, h.corb_wp, h.reg_corbwp, rfl, rfl, rfl, by dsimp only; omega, ?_,
      fun j hj hl => h.corb j (by dsimp only at hj; omega) hl, fun _ => ?_⟩
    · unfold Fila.pendentes
      dsimp only
      omega
    · dsimp only
      rw [Function.update_self, h.corb f.respondidos (Nat.le_refl _) (by omega)]
      rfl

theorem Segue.responde_ate (h : Segue resposta s f) (k : Nat) :
    Segue resposta (responde_ate resposta k s) (f.tira k) := by
  induction k generalizing s f with
  | zero =>
    have htira : f.tira 0 = f := by
      unfold Fila.tira
      rw [Nat.add_zero, Nat.min_eq_left h.respondidos_le]
    rw [htira]
    exact h
  | succ k ih =>
    have htira : f.tira (k + 1) = (f.tira 1).tira k := by
      unfold Fila.tira
      dsimp only
      congr 1
      omega
    rw [htira]
    exact ih h.responde

/-- A verb more. -/
theorem Segue.poe (h : Segue resposta s f) (hf : f.pendentes < 255) (cmd : UInt32) :
    Segue resposta
      { s with
        corb := Function.update s.corb ((s.corb_wp + 1) % 256) cmd
        corb_wp := (s.corb_wp + 1) % 256
        reg_corbwp := (s.corb_wp + 1) % 256 }
      { f with verbos := f.verbos ++ [cmd] } := by
  have hle := h.respondidos_le
  have hwp : (s.corb_wp + 1) % 256 = (f.verbos.length + 1) % 256 := by
    rw [h.corb_wp]
    exact Nat.mod_add_mod _ _ _
  unfold Fila.pendentes at hf
  rw [hwp]
  refine ⟨h.pronto, ?_, ?_, h.reg_corbrp, h.reg_rirbwp, h.respondidos, ?_, ?_, fun j hj hl => ?_,
    fun h0 => ?_⟩
  · rw [List.length_append, List.length_singleton]
  · rw [List.length_append, List.length_singleton]
  · rw [List.length_append, List.length_singleton]
    dsimp only
    omega
  · unfold Fila.pendentes
    rw [List.length_append, List.length_singleton]
    dsimp only
    omega
  · dsimp only at hj hl ⊢
    rw [List.length_append, List.length_singleton] at hl
    rcases Nat.lt_or_eq_of_le (Nat.le_of_lt_succ hl) with hlt | rfl
    · rw [Function.update_of_ne (by omega), List.getD_append _ _ _ _ hlt]
      exact h.corb j hj hlt
    · rw [Function.update_self, List.getD_append_right _ _ _ _ (Nat.le_refl _), Nat.sub_self]
      rfl
  · dsimp only at h0 ⊢
    rw [h.rirb h0]
    unfold Fila.diz
    rw [List.getD_append _ _ _ _ (by omega)]

/-- The wait of the driver is that of the queue. -/
theorem Segue.espera (h : Segue resposta s f) (d : Nat → Nat) (t i : Nat) :
    (espera resposta d s.reg_rirbwp t i s).1 = (f.espera resposta d t i).1 ∧
      Segue resposta (espera resposta d s.reg_rirbwp t i s).2 (f.espera resposta d t i).2 := by
  induction t generalizing s f i with
  | zero => exact ⟨rfl, h⟩
  | succ t ih =>
    have hd := h.responde_ate (d i)
    have hle := h.respondidos_le
    have hcabe := h.cabe
    have hge : f.respondidos ≤ (f.tira (d i)).respondidos := by
      unfold Fila.tira
      dsimp only
      omega
    have hmax : (f.tira (d i)).respondidos ≤ f.verbos.length := Nat.min_le_right _ _
    have hwp : (Hda.responde_ate resposta (d i) s).reg_rirbwp ≠ s.reg_rirbwp ↔
        (f.tira (d i)).respondidos ≠ f.respondidos := by
      unfold Fila.pendentes at hcabe
      rw [hd.reg_rirbwp, h.reg_rirbwp]
      omega
    unfold Hda.espera Fila.espera
    dsimp only
    by_cases hn : (f.tira (d i)).respondidos ≠ f.respondidos
    · rw [if_pos (hwp.mpr hn), if_pos hn]
      refine ⟨?_, hd⟩
      rw [hd.reg_rirbwp, Nat.mod_mod]
      exact hd.rirb (by omega)
    · have hsame : f.tira (d i) = f := by
        exact congrArg (Fila.mk f.verbos) (not_not.mp hn)
      have hprev : (Hda.responde_ate resposta (d i) s).reg_rirbwp = s.reg_rirbwp :=
        not_not.mp (mt hwp.mp hn)
      rw [if_neg (not_not.mpr hprev), if_neg hn]
      rw [hsame] at hd
      have hi := ih hd (i + 1)
      rwa [hprev] at hi

theorem Segue.chama (h : Segue resposta s f) (hf : f.pendentes < 255) (cmd : UInt32) (d : Nat → Nat) :
    (hda_send_verb resposta s cmd d).1 = (f.chama resposta cmd d).1 ∧
      Segue resposta (hda_send_verb resposta s cmd d).2 (f.chama resposta cmd d).2 := by
  unfold hda_send_verb
  rw [if_neg (not_not.mpr h.pronto)]
  exact ((h.poe hf cmd).responde_ate (d 0)).espera d 10000 1

theorem Segue.chamadas {cs : List Chamada} (h : Segue resposta s f) (hc : f.Cabe resposta cs) :
    (chamadas resposta s cs).1 = (f.chamadas resposta cs).1 ∧
      Segue resposta (chamadas resposta s cs).2 (f.chamadas resposta cs).2 := by
  induction cs generalizing s f with
  | nil => exact ⟨rfl, h⟩
  | cons c cs ih =>
    obtain ⟨hr, hs⟩ := h.chama hc.1 c.cmd c.d
    obtain ⟨hrs, hs'⟩ := ih hs hc.2
    exact ⟨congrArg₂ List.cons hr hrs, hs'⟩

end Aneis

/-! ## One answer in each call -/

section Pontuais

variable {resposta : Nat → UInt32 → UInt64} {f : Fila} {d : Nat → Nat} {cs : List Chamada}

/-- One answer comes, after the first look and before the last one. -/
def Pontual (d : Nat → Nat) : Prop :=
  ∃ n, 1 ≤ n ∧ n ≤ 10000 ∧ d n = 1 ∧ ∀ j < n, d j = 0

theorem espera_pontual {n t i : Nat} (hf : f.respondidos < f.verbos.length) (hn : d n = 1)
    (hj : ∀ j < n, d j = 0) (hi : i ≤ n) (ht : n < i + t) :
    f.espera resposta d t i =
      (f.diz resposta f.respondidos, { f with respondidos := f.respondidos + 1 }) := by
  induction t generalizing i with
  | zero => omega
  | succ t ih =>
    unfold Fila.espera
    rcases Nat.lt_or_eq_of_le hi with hlt | rfl
    · have htira : f.tira (d i) = f := by
        unfold Fila.tira
        rw [hj i hlt, Nat.add_zero, Nat.min_eq_left (Nat.le_of_lt hf)]
      rw [htira, if_neg (not_not.mpr rfl)]
      exact ih hlt (by omega)
    · have htira : f.tira (d i) = { f with respondidos := f.respondidos + 1 } := by
        unfold Fila.tira
        rw [hn, Nat.min_eq_left hf]
      rw [htira]
      exact if_pos (Nat.succ_ne_self _)

/-- The call gets the answer to the oldest verb that has none. -/
theorem chama_pontual (hf : f.respondidos ≤ f.verbos.length) (cmd : UInt32) (hd : Pontual d) :
    f.chama resposta cmd d =
      (Fila.diz resposta ⟨f.verbos ++ [cmd], 0⟩ f.respondidos,
        ⟨f.verbos ++ [cmd], f.respondidos + 1⟩) := by
  obtain ⟨n, h1, hmax, hn, hj⟩ := hd
  have hlen : f.respondidos < (f.verbos ++ [cmd]).length := by
    rw [List.length_append, List.length_singleton]
    omega
  have htira : Fila.tira { f with verbos := f.verbos ++ [cmd] } (d 0) =
      ⟨f.verbos ++ [cmd], f.respondidos⟩ := by
    unfold Fila.tira
    rw [hj 0 (by omega), Nat.add_zero, Nat.min_eq_left (Nat.le_of_lt hlen)]
  unfold Fila.chama
  rw [htira]
  exact espera_pontual hlen hn hj h1 (by omega)

theorem chamadas_pontuais (hf : f.respondidos ≤ f.verbos.length) (hcs : ∀ c ∈ cs, Pontual c.d) :
    f.chamadas resposta cs =
      ((List.range cs.length).map fun i =>
          Fila.diz resposta ⟨f.verbos ++ cs.map Chamada.cmd, 0⟩ (f.respondidos + i),
        ⟨f.verbos ++ cs.map Chamada.cmd, f.respondidos + cs.length⟩) := by
  induction cs generalizing f with
  | nil => simp [Fila.chamadas]
  | cons c cs ih =>
    have hc : f.chama resposta c.cmd c.d =
        (Fila.diz resposta ⟨f.verbos ++ [c.cmd], 0⟩ f.respondidos,
          ⟨f.verbos ++ [c.cmd], f.respondidos + 1⟩) :=
      chama_pontual hf c.cmd (hcs c List.mem_cons_self)
    have hlen : f.respondidos < (f.verbos ++ [c.cmd]).length := by
      rw [List.length_append, List.length_singleton]
      omega
    have hrest := ih (f := ⟨f.verbos ++ [c.cmd], f.respondidos + 1⟩) hlen
      fun c' h => hcs c' (List.mem_cons_of_mem _ h)
    unfold Fila.chamadas
    rw [hc]
    dsimp only
    rw [hrest, List.length_cons, List.range_succ_eq_map, List.map_cons, List.map_map]
    dsimp only
    rw [List.append_assoc, List.map_cons, List.singleton_append]
    refine Prod.ext (congrArg₂ List.cons ?_ (List.map_congr_left fun i _ => ?_)) ?_
    · have happ : f.verbos ++ c.cmd :: cs.map Chamada.cmd = f.verbos ++ [c.cmd] ++ cs.map Chamada.cmd :=
        List.append_cons _ _ _
      unfold Fila.diz
      rw [Nat.add_zero, happ, List.getD_append _ _ _ _ hlen]
    · exact congrArg (Fila.diz resposta _) (Nat.add_right_comm f.respondidos 1 i)
    · exact congrArg (Fila.mk _) (Nat.add_right_comm f.respondidos 1 cs.length)

/-- A run of such calls leaves as many verbs without an answer as it finds, so the ring is never full. -/
theorem cabe_pontuais (hf : f.respondidos ≤ f.verbos.length) (hp : f.pendentes < 255)
    (hcs : ∀ c ∈ cs, Pontual c.d) : f.Cabe resposta cs := by
  induction cs generalizing f with
  | nil => trivial
  | cons c cs ih =>
    refine ⟨hp, ?_⟩
    rw [chama_pontual hf c.cmd (hcs c List.mem_cons_self)]
    refine ih ?_ ?_ fun c' h => hcs c' (List.mem_cons_of_mem _ h)
    · rw [List.length_append, List.length_singleton]
      exact Nat.succ_le_succ hf
    · unfold Fila.pendentes at hp ⊢
      rw [List.length_append, List.length_singleton]
      dsimp only
      omega

theorem verbos_espera (f : Fila) (d : Nat → Nat) (t i : Nat) :
    (f.espera resposta d t i).2.verbos = f.verbos := by
  induction t generalizing i with
  | zero => rfl
  | succ t ih =>
    unfold Fila.espera
    split
    · rfl
    · exact ih (i + 1)

theorem verbos_chamadas (f : Fila) (cs : List Chamada) :
    (f.chamadas resposta cs).2.verbos = f.verbos ++ cs.map Chamada.cmd := by
  induction cs generalizing f with
  | nil => exact (List.append_nil _).symm
  | cons c cs ih =>
    refine (ih (f.chama resposta c.cmd c.d).2).trans ?_
    rw [Fila.chama, verbos_espera]
    exact (List.append_cons _ _ _).symm

/-- A call that no answer comes to. -/
theorem chama_muda (hf : f.respondidos ≤ f.verbos.length) (cmd : UInt32) :
    f.chama resposta cmd (fun _ => 0) = (0xFFFFFFFF, { f with verbos := f.verbos ++ [cmd] }) := by
  have htira : ∀ g : Fila, g.respondidos ≤ g.verbos.length → g.tira 0 = g := by
    intro g hg
    unfold Fila.tira
    rw [Nat.add_zero, Nat.min_eq_left hg]
  have hespera : ∀ (g : Fila) (t i : Nat), g.respondidos ≤ g.verbos.length →
      g.espera resposta (fun _ => 0) t i = (0xFFFFFFFF, g) := by
    intro g t
    induction t with
    | zero => exact fun _ _ => rfl
    | succ t ih =>
      intro i hg
      unfold Fila.espera
      rw [htira g hg, if_neg (not_not.mpr rfl)]
      exact ih (i + 1) hg
  have hlen : f.respondidos ≤ (f.verbos ++ [cmd]).length := by
    rw [List.length_append]
    omega
  unfold Fila.chama
  rw [htira { f with verbos := f.verbos ++ [cmd] } hlen]
  exact hespera _ _ _ hlen

/-- Whenever the answers come, the rings are a queue, as long as fewer than 255 verbs have none. If from
then on one answer comes in the wait of each call, every call gets the answer to the verb that was sent
as many calls before it as there were verbs without an answer: its own one exactly if there was none. -/
theorem answers_come_late_by_the_ones_that_are_missing (corb : Nat → UInt32) (rirb : Nat → UInt64)
    (resposta : Nat → UInt32 → UInt64) {as bs : List Chamada} (ha : Fila.Cabe resposta ⟨[], 0⟩ as)
    (hb : ∀ c ∈ bs, Pontual c.d) (hm : (Fila.chamadas resposta ⟨[], 0⟩ as).2.pendentes < 255) :
    (chamadas resposta (.inicio corb rirb) as).1 = (Fila.chamadas resposta ⟨[], 0⟩ as).1 ∧
      (chamadas resposta (chamadas resposta (.inicio corb rirb) as).2 bs).1 =
        (List.range bs.length).map fun i =>
          Fila.diz resposta ⟨(as ++ bs).map Chamada.cmd, 0⟩
            (as.length + i - (Fila.chamadas resposta ⟨[], 0⟩ as).2.pendentes) := by
  obtain ⟨hr, hs⟩ := (segue_inicio corb rirb).chamadas ha
  refine ⟨hr, ?_⟩
  have hverbos : (Fila.chamadas resposta ⟨[], 0⟩ as).2.verbos = [] ++ as.map Chamada.cmd :=
    verbos_chamadas ⟨[], 0⟩ as
  rw [(hs.chamadas (cabe_pontuais hs.respondidos_le hm hb)).1, chamadas_pontuais hs.respondidos_le hb,
    hverbos, List.nil_append, List.map_append]
  refine List.map_congr_left fun i _ => congrArg (Fila.diz resposta _) ?_
  have hle := hs.respondidos_le
  have hlen := congrArg List.length hverbos
  rw [List.nil_append, List.length_map] at hlen
  unfold Fila.pendentes
  rw [hlen] at hle ⊢
  omega

/-- A call that no answer comes to. -/
def perdida : Chamada := ⟨0, 0, 0xF00, 4, fun _ => 0⟩

/-- The answer comes in front of look `n`. -/
def em (n : Nat) (node : UInt8) : Chamada := ⟨0, node, 0xF00, 4, fun i => if i = n then 1 else 0⟩

theorem pontual_em {n : Nat} (h1 : 1 ≤ n) (hn : n ≤ 10000) (node : UInt8) : Pontual (em n node).d :=
  ⟨n, h1, hn, if_pos rfl, fun _ hj => if_neg (Nat.ne_of_lt hj)⟩

/-- After a lost call, two more get the answers to the first two verbs. -/
theorem a_lost_call_shifts_the_answers :
    (chamadas (fun k _ => UInt64.ofNat k) (chamadas (fun k _ => UInt64.ofNat k)
      (.inicio (fun _ => 0) fun _ => 0) [perdida]).2 [em 3 1, em 1 2]).1 = [0, 1] := by
  have hmuda : Fila.chamadas (fun k _ => UInt64.ofNat k) ⟨[], 0⟩ [perdida] =
      ([0xFFFFFFFF], ⟨[perdida.cmd], 0⟩) := by
    unfold Fila.chamadas
    rw [perdida, chama_muda (Nat.le_refl 0)]
    rfl
  have hcabe : Fila.Cabe (fun k _ => UInt64.ofNat k) ⟨[], 0⟩ [perdida] := ⟨by decide, trivial⟩
  have hpontuais : ∀ c ∈ [em 3 1, em 1 2], Pontual c.d := by
    intro c hc
    rcases List.mem_cons.mp hc with rfl | hc
    · exact pontual_em (by decide) (by decide) 1
    · exact List.mem_singleton.mp hc ▸ pontual_em (by decide) (by decide) 2
  have h := (answers_come_late_by_the_ones_that_are_missing (fun _ => 0) (fun _ => 0) _ hcabe hpontuais
    (by rw [hmuda]; decide)).2
  rw [hmuda] at h
  exact h.trans (by decide)

end Pontuais

end SpaceOS.Hda
