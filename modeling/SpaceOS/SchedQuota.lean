-- The quotas of the processes over runs of the scheduler: for how many ticks each of them is the
-- current process between two calls of `recalcular_creditos`.
import SpaceOS.ProcLaws

open Lib.LinkedList

namespace SpaceOS.Proc

/-! ## The end of a turn -/

/-- The next process to look at: after the end of the list its start again. -/
def volta (procs : Nat → Processo) (fila candidato : Nat) : Nat :=
  let candidato := if candidato ≠ 0 then (procs candidato).proximo else candidato
  if candidato = 0 then fila else candidato

/-- The processes that the first loop looks at. -/
def olhados (procs : Nat → Processo) (fila : Nat) : Nat → Nat → List Nat
  | 0, _ => []
  | n + 1, candidato => candidato :: olhados procs fila n (volta procs fila candidato)

section Sistema

variable (s : Sistema)

/-- The ticks that a process may take. -/
def quota (p : Nat) : Nat := (creditos_de (s.procs p).prioridade).toNat

/-- The processes that come after the current one, as many as the first loop looks at. -/
def seguintes : List Nat :=
  olhados s.procs s.fila_pronto MAX_PROCESSOS
    (if (s.procs s.proc_atual_ptr).proximo = 0 then s.fila_pronto
    else (s.procs s.proc_atual_ptr).proximo)

/-- Another process that is ready and has credits. -/
def Elegivel (p : Nat) : Prop :=
  p ≠ 0 ∧ p ≠ s.proc_atual_ptr ∧ (s.procs p).estado = .PROC_READY ∧ (s.procs p).creditos > 0

instance (p : Nat) : Decidable (Elegivel s p) := inferInstanceAs (Decidable (_ ∧ _))

/-- The tick that comes ends the turn of the current process. -/
def FimDeTurno : Prop := s.proc_atual_ptr ≠ 0 ∧ s.creditos_atuais ≤ 1

/-- The tick that comes calls `recalcular_creditos`. -/
def Recalcula : Prop := FimDeTurno s ∧ ∀ p ∈ seguintes s, ¬ Elegivel s p

instance : Decidable (FimDeTurno s) := inferInstanceAs (Decidable (_ ∧ _))

instance : Decidable (Recalcula s) := inferInstanceAs (Decidable (_ ∧ _))

end Sistema

/-! ## What the functions do to credits and priorities -/

section Creditos

variable {procs procs' : Nat → Processo} {fila atual a : Nat} {l : List Nat} {n : Nat}

theorem tentativas_eq (candidato : Nat) : tentativas procs fila atual n candidato =
    (olhados procs fila n candidato).find? fun p =>
      p ≠ 0 ∧ p ≠ atual ∧ (procs p).estado = .PROC_READY ∧ (procs p).creditos > 0 := by
  induction n generalizing candidato with
  | zero => rfl
  | succ n ih =>
    rw [tentativas, olhados, List.find?_cons]
    by_cases hc : candidato ≠ 0 ∧ candidato ≠ atual ∧ (procs candidato).estado = .PROC_READY ∧
        (procs candidato).creditos > 0
    · rw [if_pos hc, decide_eq_true hc]
    · rw [if_neg hc, decide_eq_false hc]
      exact ih _

theorem tentativas_seguintes (s : Sistema) :
    tentativas s.procs s.fila_pronto s.proc_atual_ptr MAX_PROCESSOS
      (if (s.procs s.proc_atual_ptr).proximo = 0 then s.fila_pronto
      else (s.procs s.proc_atual_ptr).proximo) = (seguintes s).find? fun p => Elegivel s p :=
  tentativas_eq _

/-- A ready process of the list has its quota after that. -/
theorem recalculados_pronto {s : Sistema} {c : Nat} (hc : c ∈ l)
    (hr : (recalculados s.procs l c).estado = .PROC_READY) :
    (recalculados s.procs l c).creditos.toNat = quota s c := by
  rw [(recalculados_campos s.procs l c).2.1] at hr
  unfold recalculados
  rw [if_pos ⟨hc, Or.inl hr⟩]
  rfl

theorem por_estado (procs : Nat → Processo) (p q : Nat) (x : EstadoProc) :
    (por procs p { procs p with estado := x } q).creditos = (procs q).creditos ∧
      (por procs p { procs p with estado := x } q).prioridade = (procs q).prioridade := by
  unfold por
  rcases eq_or_ne q p with rfl | hq
  · rw [Function.update_self]
    exact ⟨rfl, rfl⟩
  · rw [Function.update_of_ne hq]
    exact ⟨rfl, rfl⟩

/-- A switch: the new turn has the credits of its process. -/
theorem troca_turno (s : Sistema) (atual c : Nat) :
    (troca s atual c).2.proc_atual_ptr = c ∧
      (troca s atual c).2.creditos_atuais = (s.procs c).creditos.toNat ∧
      ∀ p, quota (troca s atual c).2 p = quota s p := by
  have hum : ∀ p, ((if (s.procs atual).estado = .PROC_RUNNING then
      por s.procs atual { s.procs atual with estado := .PROC_READY } else s.procs) p).creditos =
        (s.procs p).creditos ∧
      ((if (s.procs atual).estado = .PROC_RUNNING then
        por s.procs atual { s.procs atual with estado := .PROC_READY } else s.procs) p).prioridade =
        (s.procs p).prioridade := by
    intro p
    split
    · exact por_estado s.procs atual p _
    · exact ⟨rfl, rfl⟩
  unfold troca quota
  generalize (if (s.procs atual).estado = .PROC_RUNNING then
    por s.procs atual { s.procs atual with estado := .PROC_READY } else s.procs) = procs1 at hum
  have hdois := fun p => por_estado procs1 c p .PROC_RUNNING
  refine ⟨rfl, ?_, fun p => ?_⟩
  · dsimp only
    rw [(hdois c).1, (hum c).1]
  · dsimp only
    rw [(hdois p).2, (hum p).2]

end Creditos

/-! ## A tick -/

/-- What a tick does to the turn: it goes on, or the first of the next processes that can have one
has it, or the credits are recalculated. -/
inductive Turno (s s' : Sistema) : Prop
  | segue (hf : ¬ FimDeTurno s) (ha : s'.proc_atual_ptr = s.proc_atual_ptr)
    (hc : s'.creditos_atuais = s.creditos_atuais - 1)
  | passa {l₁ l₂ : List Nat} {c : Nat} (hf : FimDeTurno s) (hl : seguintes s = l₁ ++ c :: l₂)
    (he : Elegivel s c) (hn : ∀ q ∈ l₁, ¬ Elegivel s q) (ha : s'.proc_atual_ptr = c)
    (hc : s'.creditos_atuais = (s.procs c).creditos.toNat)
  | recalcula (hr : Recalcula s) (hc : s'.creditos_atuais = quota s s'.proc_atual_ptr ∨
      s'.creditos_atuais = 0)

section Tick

variable {s s' : Sistema} {l : List Nat}

theorem olhados_congr {procs procs' : Nat → Processo} (h : ∀ p, (procs' p).proximo = (procs p).proximo)
    (fila n candidato : Nat) : olhados procs' fila n candidato = olhados procs fila n candidato := by
  induction n generalizing candidato with
  | zero => rfl
  | succ n ih =>
    have hvolta : volta procs' fila candidato = volta procs fila candidato := by
      unfold volta
      rw [h]
    rw [olhados, olhados, hvolta, ih]

/-- `escolher_proximo`, in a state with the links and the credits of `s`. -/
theorem escolher_proximo_turno (h : Linked 0 (elo s.procs) s.fila_pronto l) (hn : l.length < VOLTAS) :
    (∃ l₁ c l₂, seguintes s = l₁ ++ c :: l₂ ∧ Elegivel s c ∧ (∀ q ∈ l₁, ¬ Elegivel s q) ∧
      escolher_proximo s s.proc_atual_ptr = some (c, s)) ∨
    ((∀ p ∈ seguintes s, ¬ Elegivel s p) ∧ ∃ c, (c ≠ 0 → c ∈ l ∧
      (recalculados s.procs l c).estado = .PROC_READY) ∧
      escolher_proximo s s.proc_atual_ptr =
        some (c, { s with procs := recalculados s.procs l })) := by
  have ht := tentativas_seguintes s
  unfold escolher_proximo
  dsimp only
  cases hfind : (seguintes s).find? fun p => Elegivel s p with
  | some c =>
    obtain ⟨he, l₁, l₂, hl, hno⟩ := List.find?_eq_some_iff_append.mp hfind
    refine Or.inl ⟨l₁, c, l₂, hl, by simpa using he, fun q hq => by simpa using hno q hq, ?_⟩
    rw [ht, hfind]
  | none =>
    have hno := List.find?_eq_none.mp hfind
    refine Or.inr ⟨fun p hp => by simpa using hno p hp, ?_⟩
    have hlink : Linked 0 (elo (recalculados s.procs l)) s.fila_pronto l :=
      h.congr fun q _ => (recalculados_campos s.procs l q).1
    have hbusca := hlink.search_eq (f := fun q => decide
      ((recalculados s.procs l q).estado = .PROC_READY ∧ (recalculados s.procs l q).creditos > 0)) hn
    unfold elo at hbusca
    rw [ht, hfind, recalcular_creditos_eq h hn]
    dsimp only
    rw [Option.bind_some, hbusca]
    refine ⟨_, fun hc => ?_, rfl⟩
    cases hf : l.find? fun q => decide ((recalculados s.procs l q).estado = .PROC_READY ∧
        (recalculados s.procs l q).creditos > 0) with
    | none =>
      rw [hf] at hc
      exact absurd rfl hc
    | some c =>
      have hok := List.find?_some hf
      exact ⟨List.mem_of_find?_eq_some hf, (of_decide_eq_true hok).1⟩

/-- The state in which a tick looks for the next process. -/
def salva (s : Sistema) (esp : Nat) : Sistema :=
  { s with
    ticks := s.ticks + 1
    procs := por s.procs s.proc_atual_ptr { s.procs s.proc_atual_ptr with esp := esp }
    creditos_atuais := s.creditos_atuais - 1 }

theorem salva_campos (s : Sistema) (esp p : Nat) :
    ((salva s esp).procs p).proximo = (s.procs p).proximo ∧
      ((salva s esp).procs p).estado = (s.procs p).estado ∧
      ((salva s esp).procs p).creditos = (s.procs p).creditos ∧
      ((salva s esp).procs p).prioridade = (s.procs p).prioridade := by
  change (por s.procs s.proc_atual_ptr { s.procs s.proc_atual_ptr with esp := esp } p).proximo = _ ∧
    (por s.procs s.proc_atual_ptr { s.procs s.proc_atual_ptr with esp := esp } p).estado = _ ∧
    (por s.procs s.proc_atual_ptr { s.procs s.proc_atual_ptr with esp := esp } p).creditos = _ ∧
    (por s.procs s.proc_atual_ptr { s.procs s.proc_atual_ptr with esp := esp } p).prioridade = _
  unfold por
  rcases eq_or_ne p s.proc_atual_ptr with rfl | hp
  · rw [Function.update_self]
    exact ⟨rfl, rfl, rfl, rfl⟩
  · rw [Function.update_of_ne hp]
    exact ⟨rfl, rfl, rfl, rfl⟩

theorem seguintes_salva (s : Sistema) (esp : Nat) : seguintes (salva s esp) = seguintes s := by
  have hatual := (salva_campos s esp s.proc_atual_ptr).1
  unfold seguintes
  rw [olhados_congr fun p => (salva_campos s esp p).1]
  change olhados s.procs s.fila_pronto MAX_PROCESSOS
    (if ((salva s esp).procs s.proc_atual_ptr).proximo = 0 then s.fila_pronto
    else ((salva s esp).procs s.proc_atual_ptr).proximo) = _
  rw [hatual]

theorem elegivel_salva (s : Sistema) (esp p : Nat) : Elegivel (salva s esp) p ↔ Elegivel s p := by
  obtain ⟨-, he, hc, -⟩ := salva_campos s esp p
  unfold Elegivel
  rw [he, hc]
  rfl

theorem quota_salva (s : Sistema) (esp p : Nat) : quota (salva s esp) p = quota s p := by
  unfold quota
  rw [(salva_campos s esp p).2.2.2]

theorem quota_recalculados (s : Sistema) (l : List Nat) (p : Nat) :
    quota { s with procs := recalculados s.procs l } p = quota s p :=
  congrArg (fun x => (creditos_de x).toNat) (recalculados_campos s.procs l p).2.2

theorem sched_tick_segue (h0 : s.proc_atual_ptr ≠ 0) (hc : s.creditos_atuais - 1 > 0) (esp : Nat) :
    sched_tick s esp = some (esp, salva s esp) :=
  (if_neg h0).trans (if_pos hc)

theorem sched_tick_escolhe (h0 : s.proc_atual_ptr ≠ 0) (hc : ¬ s.creditos_atuais - 1 > 0)
    {esp c : Nat} {s1 : Sistema}
    (he : escolher_proximo (salva s esp) s.proc_atual_ptr = some (c, s1)) :
    sched_tick s esp =
      some (if c = 0 then (esp, s1) else troca s1 s.proc_atual_ptr c) := by
  unfold sched_tick
  dsimp only
  unfold salva at he
  rw [if_neg h0, if_neg hc, he]
  rfl

/-- Each tick is one of the three, and leaves the quotas. -/
theorem sched_tick_turno (h : Linked 0 (elo s.procs) s.fila_pronto l) (hn : l.length < VOLTAS)
    (h0 : s.proc_atual_ptr ≠ 0) {esp r : Nat} (ht : sched_tick s esp = some (r, s')) :
    Turno s s' ∧ ∀ p, quota s' p = quota s p := by
  by_cases hca : s.creditos_atuais - 1 > 0
  · rw [sched_tick_segue h0 hca] at ht
    obtain ⟨-, rfl⟩ := Prod.mk.inj (Option.some.inj ht)
    exact ⟨.segue (fun hf => by unfold FimDeTurno at hf; omega) rfl rfl, quota_salva s esp⟩
  have hfim : FimDeTurno s := ⟨h0, by omega⟩
  have hlink : Linked 0 (elo (salva s esp).procs) (salva s esp).fila_pronto l :=
    h.congr fun q _ => (salva_campos s esp q).1
  rcases escolher_proximo_turno hlink hn with ⟨l₁, c, l₂, hl, hc, hno, he⟩ | ⟨hno, c, hc, he⟩
  · rw [sched_tick_escolhe h0 hca he, if_neg hc.1] at ht
    obtain rfl : (troca (salva s esp) s.proc_atual_ptr c).2 = s' :=
      congrArg Prod.snd (Option.some.inj ht)
    obtain ⟨h1, h2, h3⟩ := troca_turno (salva s esp) s.proc_atual_ptr c
    rw [seguintes_salva] at hl
    rw [elegivel_salva] at hc
    refine ⟨.passa hfim hl hc (fun q hq hqe => hno q hq ((elegivel_salva s esp q).mpr hqe)) h1 ?_,
      fun p => (h3 p).trans (quota_salva s esp p)⟩
    rw [h2, (salva_campos s esp c).2.2.1]
  · rw [seguintes_salva] at hno
    have hrec : Recalcula s := ⟨hfim, fun p hp hpe => hno p hp ((elegivel_salva s esp p).mpr hpe)⟩
    have hq := fun p => (quota_recalculados (salva s esp) l p).trans (quota_salva s esp p)
    rw [sched_tick_escolhe h0 hca he] at ht
    by_cases hc0 : c = 0
    · rw [if_pos hc0] at ht
      obtain ⟨-, rfl⟩ := Prod.mk.inj (Option.some.inj ht)
      refine ⟨.recalcula hrec (Or.inr ?_), hq⟩
      change s.creditos_atuais - 1 = 0
      omega
    · obtain ⟨hcl, hready⟩ := hc hc0
      rw [if_neg hc0] at ht
      obtain ⟨h1, h2, h3⟩ := troca_turno { salva s esp with
        procs := recalculados (salva s esp).procs l } s.proc_atual_ptr c
      obtain rfl : (troca { salva s esp with procs := recalculados (salva s esp).procs l }
          s.proc_atual_ptr c).2 = s' := congrArg Prod.snd (Option.some.inj ht)
      refine ⟨.recalcula hrec (Or.inl ?_), fun p => (h3 p).trans (hq p)⟩
      rw [h2, h1, ← quota_salva s esp]
      exact recalculados_pronto hcl hready

end Tick

/-! ## A new process -/

section Criar

variable {s s' : Sistema} {p : Nat}

theorem quota_proximo (s : Sistema) (r x q : Nat) :
    quota { s with procs := por s.procs r { s.procs r with proximo := x } } q = quota s q := by
  unfold quota por
  dsimp only
  rcases eq_or_ne q r with rfl | hq
  · rw [Function.update_self]
  · rw [Function.update_of_ne hq]

/-- The list does not change a turn. -/
theorem fila_adicionar_turno (h : fila_adicionar s p = some s') :
    s'.proc_atual_ptr = s.proc_atual_ptr ∧ s'.creditos_atuais = s.creditos_atuais ∧
      ∀ q, quota s' q = quota s q := by
  have hum := quota_proximo s p 0
  unfold fila_adicionar at h
  dsimp only at h
  split at h
  · obtain rfl := Option.some.inj h
    exact ⟨rfl, rfl, hum⟩
  · obtain ⟨z, -, rfl⟩ := Option.map_eq_some_iff.mp h
    exact ⟨rfl, rfl, fun q => (quota_proximo { s with
      procs := por s.procs p { s.procs p with proximo := 0 } } z p q).trans (hum q)⟩

/-- Nor does a new process. -/
theorem proc_criar_turno {lixo : Processo} {entrada : Nat} {prioridade : UInt8}
    (h : proc_criar s lixo entrada prioridade = some (p, s')) :
    s'.proc_atual_ptr = s.proc_atual_ptr ∧ s'.creditos_atuais = s.creditos_atuais ∧
      ∀ q, q ≠ p → quota s' q = quota s q := by
  unfold proc_criar at h
  obtain ⟨⟨proc, heap⟩, -, h⟩ := Option.bind_eq_some_iff.mp h
  dsimp only at h
  split at h
  · obtain ⟨-, rfl⟩ := Prod.mk.inj (Option.some.inj h)
    exact ⟨rfl, rfl, fun _ _ => rfl⟩
  obtain ⟨⟨stack, heap2⟩, -, h⟩ := Option.bind_eq_some_iff.mp h
  dsimp only at h
  split at h
  · obtain ⟨heap3, -, h⟩ := Option.map_eq_some_iff.mp h
    obtain ⟨-, rfl⟩ := Prod.mk.inj h
    exact ⟨rfl, rfl, fun _ _ => rfl⟩
  · obtain ⟨s1, hadd, h⟩ := Option.map_eq_some_iff.mp h
    obtain ⟨rfl, rfl⟩ := Prod.mk.inj h
    obtain ⟨h1, h2, h3⟩ := fila_adicionar_turno hadd
    refine ⟨h1, h2, fun q hq => (h3 q).trans ?_⟩
    unfold quota por
    dsimp only
    rw [Function.update_of_ne hq]

theorem proc_encerrar_turno (s : Sistema) :
    (proc_encerrar s).proc_atual_ptr = s.proc_atual_ptr ∧
      (proc_encerrar s).creditos_atuais = s.creditos_atuais ∧
      ∀ q, quota (proc_encerrar s) q = quota s q := by
  unfold proc_encerrar
  split
  · exact ⟨rfl, rfl, fun _ => rfl⟩
  · refine ⟨rfl, rfl, fun q => ?_⟩
    exact congrArg (fun x => (creditos_de x).toNat) (por_estado s.procs s.proc_atual_ptr q _).2

theorem quota_pos (s : Sistema) (p : Nat) : 0 < quota s p := by
  unfold quota creditos_de
  split
  · decide
  · split <;> decide

end Criar

/-! ## Runs -/

/-- The kernel, and for how many ticks each process has been the current one since the last call of
`recalcular_creditos`. -/
structure Conta where
  maq : Maquina
  usados : Nat → Nat

/-- The account after a tick. -/
def Conta.depois (e : Conta) (esp : Nat) (s' : Sistema) : Conta where
  maq := { e.maq with sis := s', ultimo := Function.update e.maq.ultimo e.maq.atual (some esp) }
  usados :=
    if Recalcula e.maq.sis then fun _ => 0
    else Function.update e.usados e.maq.atual (e.usados e.maq.atual + 1)

def Conta.sched_tick (e : Conta) (esp : Nat) : Option Conta :=
  (Proc.sched_tick e.maq.sis esp).map fun r => e.depois esp r.2

/-- The states before `sched_init`: any processes, with any memory. -/
inductive Criacao : Maquina → Prop
  | proc_init {heap : Kheap.Heap} {vivos : List Nat} {procs : Nat → Processo} {lixo : Processo}
      {s : Sistema} :
      Kheap.Alcanca ⟨heap, vivos⟩ → Proc.proc_init ⟨heap, procs, 0, 0, 1, 0, 0⟩ lixo = some s →
      Criacao ⟨s, if s.fila_pronto = 0 then vivos else s.fila_pronto :: vivos,
        if s.fila_pronto = 0 then [] else [s.fila_pronto], fun _ => 0, fun _ => none⟩
  | proc_criar {e : Maquina} {lixo : Processo} {entrada : Nat} {prioridade : UInt8} {p : Nat}
      {s' : Sistema} : Criacao e →
      Proc.proc_criar e.sis lixo entrada prioridade = some (p, s') → Criacao (e.nasce p s')
  | heap {e : Maquina} {h' : Kheap.Estado} : Criacao e →
      Kheap.Passo ⟨e.sis.heap, e.vivos⟩ h' → (∀ p ∈ e.criados, p ∈ h'.vivos) →
      Criacao { e with sis := { e.sis with heap := h'.heap }, vivos := h'.vivos }

/-- The runs from `sched_init` on in which every tick comes in a state with `C`. -/
inductive Contada (C : Conta → Prop) : Conta → Prop
  | sched_init {e : Maquina} {s' : Sistema} : Criacao e → Proc.sched_init e.sis = some s' →
      Contada C ⟨{ e with sis := s' }, fun _ => 0⟩
  | sched_tick {e e' : Conta} {esp : Nat} : Contada C e → C e → e.sched_tick esp = some e' →
      Contada C e'
  | proc_criar {e : Conta} {lixo : Processo} {entrada : Nat} {prioridade : UInt8} {p : Nat}
      {s' : Sistema} : Contada C e →
      Proc.proc_criar e.maq.sis lixo entrada prioridade = some (p, s') →
      Contada C { e with maq := e.maq.nasce p s' }
  | proc_encerrar {e : Conta} : Contada C e →
      Contada C { e with maq := { e.maq with sis := Proc.proc_encerrar e.maq.sis } }
  | heap {e : Conta} {h' : Kheap.Estado} : Contada C e →
      Kheap.Passo ⟨e.maq.sis.heap, e.maq.vivos⟩ h' → (∀ p ∈ e.maq.criados, p ∈ h'.vivos) →
      Contada C { e with
        maq := { e.maq with sis := { e.maq.sis with heap := h'.heap }, vivos := h'.vivos } }

section Contas

variable {C : Conta → Prop} {e : Conta}

theorem Criacao.ordem {e : Maquina} (h : Criacao e) : Ordem e := by
  induction h with
  | proc_init hheap hproc =>
    obtain ⟨s1, hp, ho⟩ := ordem_proc_init hheap _ _
    obtain rfl := Option.some.inj (hp.symm.trans hproc)
    exact ho
  | proc_criar _ hc ih => exact (ih.passo (.proc_criar hc)).1
  | heap _ hp hv ih => exact (ih.passo (.heap hp hv)).1

theorem Contada.ordem (h : Contada C e) : Ordem e.maq := by
  induction h with
  | sched_init hc hs =>
    obtain ⟨s1, hs1, ho⟩ := hc.ordem.sched_init
    obtain rfl := Option.some.inj (hs1.symm.trans hs)
    exact ho
  | sched_tick _ _ ht ih =>
    obtain ⟨⟨r, s1⟩, hs, rfl⟩ := Option.map_eq_some_iff.mp ht
    exact (ih.passo (.sched_tick hs)).1
  | proc_criar _ hc ih => exact (ih.passo (.proc_criar hc)).1
  | proc_encerrar _ ih => exact (ih.passo .proc_encerrar).1
  | heap _ hp hv ih => exact (ih.passo (.heap hp hv)).1

/-! ## The law -/

/-- Where a turn ends, the credits are what is left of the quotas: for the process that comes next,
and, where there is none, for those that are ready without credits. And the loop looks at them all. -/
structure EmDia (e : Conta) : Prop where
  passa : FimDeTurno e.maq.sis → ∀ l₁ c l₂, seguintes e.maq.sis = l₁ ++ c :: l₂ →
    Elegivel e.maq.sis c → (∀ q ∈ l₁, ¬ Elegivel e.maq.sis q) →
      e.usados c + (e.maq.sis.procs c).creditos.toNat ≤ quota e.maq.sis c
  recalcula : Recalcula e.maq.sis → ∀ p ∈ e.maq.criados, e.maq.estado p = .PROC_READY →
    p ∈ seguintes e.maq.sis ∧
      ((e.maq.sis.procs p).creditos = 0 → quota e.maq.sis p ≤ e.usados p)

/-- The tick that comes is in the quota of the current process, and if it calls
`recalcular_creditos` no ready process has quota left. -/
structure NaQuota (e : Conta) : Prop where
  tick : e.maq.atual ≠ 0 → e.usados e.maq.atual + 1 ≤ quota e.maq.sis e.maq.atual
  recalculo : Recalcula e.maq.sis → ∀ p ∈ e.maq.criados, e.maq.estado p = .PROC_READY →
    quota e.maq.sis p ≤ e.usados p

/-- What is left of the turn is left of the quota. -/
def NoTurno (e : Conta) : Prop :=
  e.maq.atual ≠ 0 → e.usados e.maq.atual + 1 ≤ quota e.maq.sis e.maq.atual ∧
    e.usados e.maq.atual + e.maq.sis.creditos_atuais ≤ quota e.maq.sis e.maq.atual

/-- A call that changes no turn. -/
theorem NoTurno.congr (h : NoTurno e) {m : Maquina} (ha : m.atual = e.maq.atual)
    (hc : m.sis.creditos_atuais = e.maq.sis.creditos_atuais)
    (hq : e.maq.atual ≠ 0 → quota m.sis e.maq.atual = quota e.maq.sis e.maq.atual) :
    NoTurno { e with maq := m } := by
  intro h0
  have h0' : e.maq.atual ≠ 0 := fun he => h0 (ha.trans he)
  dsimp only at h0 ⊢
  rw [ha, hc, hq h0']
  exact h h0'

theorem NoTurno.tick (h : NoTurno e) (ho : Ordem e.maq) (hc : EmDia e) {esp r : Nat} {s' : Sistema}
    (ht : Proc.sched_tick e.maq.sis esp = some (r, s')) : NoTurno (e.depois esp s') := by
  by_cases h0 : e.maq.sis.proc_atual_ptr = 0
  · obtain ⟨-, rfl⟩ := Prod.mk.inj (Option.some.inj ((if_pos h0).symm.trans ht))
    exact fun hne => absurd h0 hne
  obtain ⟨hturno, hq⟩ := sched_tick_turno ho.fila ho.length_lt h0 ht
  obtain ⟨h1, h2⟩ := h h0
  intro _
  change (e.depois esp s').usados s'.proc_atual_ptr + 1 ≤ quota s' s'.proc_atual_ptr ∧
    (e.depois esp s').usados s'.proc_atual_ptr + s'.creditos_atuais ≤ quota s' s'.proc_atual_ptr
  rw [hq]
  unfold Conta.depois
  dsimp only
  cases hturno with
  | segue hf ha hcr =>
    have hca : ¬ e.maq.sis.creditos_atuais ≤ 1 := fun hle => hf ⟨h0, hle⟩
    rw [if_neg fun hr : Recalcula e.maq.sis => hf hr.1, ha, hcr]
    have hself : Function.update e.usados e.maq.atual (e.usados e.maq.atual + 1)
        e.maq.sis.proc_atual_ptr = e.usados e.maq.atual + 1 := Function.update_self _ _ _
    rw [hself]
    unfold Maquina.atual at *
    omega
  | @passa l₁ l₂ c hf hl he hn ha hcr =>
    have hmem : c ∈ seguintes e.maq.sis := by
      rw [hl]
      exact List.mem_append_right _ List.mem_cons_self
    have hpos : 0 < (e.maq.sis.procs c).creditos.toNat := UInt8.lt_iff_toNat_lt.mp he.2.2.2
    have hle := hc.passa hf l₁ c l₂ hl he hn
    have hother : Function.update e.usados e.maq.atual (e.usados e.maq.atual + 1) c = e.usados c :=
      Function.update_of_ne he.2.1 _ _
    rw [if_neg fun hr : Recalcula e.maq.sis => hr.2 c hmem he, ha, hcr, hother]
    omega
  | recalcula hr hcr =>
    have hpos := quota_pos e.maq.sis s'.proc_atual_ptr
    rw [if_pos hr]
    omega

theorem Contada.noTurno (h : Contada EmDia e) : NoTurno e := by
  induction h with
  | @sched_init e s' hc hs =>
    obtain ⟨procs', hrec, rfl⟩ := Option.map_eq_some_iff.mp hs
    intro h0
    change e.sis.proc_atual_ptr ≠ 0 at h0
    have hq := quota_pos { e.sis with procs := procs' } e.sis.proc_atual_ptr
    unfold quota at hq
    change 0 + 1 ≤ (creditos_de (procs' e.sis.proc_atual_ptr).prioridade).toNat ∧
      0 + (if e.sis.proc_atual_ptr = 0 then e.sis.creditos_atuais
        else (creditos_de (procs' e.sis.proc_atual_ptr).prioridade).toNat) ≤
      (creditos_de (procs' e.sis.proc_atual_ptr).prioridade).toNat
    rw [if_neg h0]
    exact ⟨hq, (Nat.zero_add _).le⟩
  | sched_tick h hc ht ih =>
    obtain ⟨⟨r, s1⟩, hs, rfl⟩ := Option.map_eq_some_iff.mp ht
    exact ih.tick h.ordem hc hs
  | @proc_criar e lixo entrada prioridade p s' h hc ih =>
    obtain ⟨h1, h2, h3⟩ := proc_criar_turno hc
    have ho := (h.ordem.passo (.proc_criar hc)).1
    by_cases hp : p = 0
    · unfold Maquina.nasce
      rw [if_pos hp]
      exact ih.congr h1 h2 fun h0 => h3 _ fun he => h0 (he.trans hp)
    · unfold Maquina.nasce at ho ⊢
      rw [if_neg hp] at ho ⊢
      refine ih.congr h1 h2 fun h0 => h3 _ fun he => ?_
      -- The new process is not in the list yet, and the current one is.
      have hnodup := List.nodup_append.mp ho.fila.nodup
      exact hnodup.2.2 _ (h.ordem.atual h0).1 p (List.mem_singleton.mpr rfl) he
  | @proc_encerrar e h ih =>
    obtain ⟨h1, h2, h3⟩ := proc_encerrar_turno e.maq.sis
    exact ih.congr h1 h2 fun _ => h3 _
  | heap h hp hv ih => exact ih.congr rfl rfl fun _ => rfl

/-- The kernel and one process of the same priority, at the first tick. -/
def conta_zero : Option Conta :=
  (proc_init sistema_zero processo_zero).bind fun s =>
    (proc_criar s processo_zero 0x1000 1).bind fun r =>
      (sched_init r.2).map fun s' =>
        ⟨{ Maquina.nasce ⟨s, if s.fila_pronto = 0 then [] else [s.fila_pronto],
          if s.fila_pronto = 0 then [] else [s.fila_pronto], fun _ => 0, fun _ => none⟩ r.1 r.2 with
            sis := s' }, fun _ => 0⟩

theorem nasce_sis (e : Maquina) (p : Nat) (s' : Sistema) : (e.nasce p s').sis = s' := by
  unfold Maquina.nasce
  split <;> rfl

theorem contada_zero (h : conta_zero = some e) : Contada C e := by
  obtain ⟨s, hs, h⟩ := Option.bind_eq_some_iff.mp h
  obtain ⟨⟨p, s1⟩, hc, h⟩ := Option.bind_eq_some_iff.mp h
  obtain ⟨s', hi, rfl⟩ := Option.map_eq_some_iff.mp h
  refine .sched_init ((Criacao.proc_init (.kheap_init _) hs).proc_criar hc) ?_
  rw [nasce_sis]
  exact hi

/-- Ticks, whatever the state. -/
theorem Contada.ticks (h : Contada (fun _ => True) e) {esps : List Nat} {e' : Conta}
    (ht : esps.foldlM Conta.sched_tick e = some e') : Contada (fun _ => True) e' := by
  induction esps generalizing e with
  | nil => exact Option.some.inj ht ▸ h
  | cons esp esps ih =>
    rw [List.foldlM_cons] at ht
    obtain ⟨e1, h1, ht⟩ := Option.bind_eq_some_iff.mp ht
    exact ih (h.sched_tick trivial h1) ht

end Contas

end SpaceOS.Proc
