-- What becomes of the frame that `proc_exec` builds: in every run, the ESP with which the process
-- comes back is the one that it was interrupted with.
import SpaceOS.ProcLaws

open Lib.Bytes Lib.LinkedList

namespace SpaceOS.Proc

/-! ## The new process of `proc_fork` -/

section Fork

variable {s : Sistema} {vivos l : List Nat} {bs : List Lib.BlockList.Block}

theorem copia_stack_ne (m : Memory) (stack stack_filho : Nat) {x : Nat}
    (hx : x < stack_filho ∨ stack_filho + STACK_SIZE ≤ x) :
    copia_stack m stack stack_filho x = m x := by
  suffices hl : ∀ is : List Nat, (∀ i ∈ is, i < STACK_SIZE) → ∀ m : Memory,
      is.foldl (fun m i => putByte m (stack_filho + i) (m (stack + i))) m x = m x from
    hl _ (fun i hi => List.mem_range.mp hi) m
  intro is
  induction is with
  | nil => exact fun _ _ => rfl
  | cons i is ih =>
    intro hi m
    have hlt := hi i List.mem_cons_self
    rw [List.foldl_cons, ih (fun j hj => hi j (List.mem_cons_of_mem _ hj)), putByte_ne _ _ (by omega)]

/-- The new stack pointer lies in the new stack as the old one in the old. -/
theorem esp_do_filho (stack_filho : Nat) {esp stack : Nat} (h1 : stack ≤ esp)
    (h2 : esp + 32 ≤ stack + STACK_SIZE) (h3 : stack_filho + STACK_SIZE ≤ Kheap.HEAP_FIM) :
    (UInt32.ofNat stack_filho + (UInt32.ofNat esp - UInt32.ofNat stack)).toNat =
      stack_filho + (esp - stack) := by
  have hfim : Kheap.HEAP_FIM = 0x340000 := by decide
  have hk : STACK_SIZE = 16384 := rfl
  rw [UInt32.toNat_add, UInt32.toNat_sub, UInt32.toNat_ofNat', UInt32.toNat_ofNat',
    UInt32.toNat_ofNat']
  omega

/-- `proc_fork` adds a process that is ready, or none. -/
theorem proc_fork_cases (hi : Kheap.Inteiro ⟨s.heap, vivos⟩ bs)
    (h : Linked 0 (elo s.procs) s.fila_pronto l) (hl : ∀ p ∈ l, p ∈ vivos)
    (hs : (s.procs s.proc_atual_ptr).stack ≠ 0 →
      (s.procs s.proc_atual_ptr).stack ≤ (s.procs s.proc_atual_ptr).esp ∧
        (s.procs s.proc_atual_ptr).esp + 32 ≤ (s.procs s.proc_atual_ptr).stack + STACK_SIZE) :
    ∃ n s', proc_fork s = some (n, s') ∧ s'.proc_atual_ptr = s.proc_atual_ptr ∧
      ((s'.procs = s.procs ∧ s'.fila_pronto = s.fila_pronto ∧
          ∃ bs', Kheap.Inteiro ⟨s'.heap, vivos⟩ bs') ∨
        ∃ p, p ≠ 0 ∧ p ∉ vivos ∧ Linked 0 (elo s'.procs) s'.fila_pronto (l ++ [p]) ∧
          (s'.procs p).estado = .PROC_READY ∧
          (∀ q, q ≠ p → (s'.procs q).estado = (s.procs q).estado ∧
            (s'.procs q).esp = (s.procs q).esp) ∧
          ∃ bs', Kheap.Inteiro ⟨s'.heap, (s'.procs p).stack :: p :: vivos⟩ bs') := by
  unfold proc_fork
  dsimp only
  by_cases h0 : s.proc_atual_ptr = 0
  · rw [if_pos h0]
    exact ⟨_, _, rfl, rfl, Or.inl ⟨rfl, rfl, bs, hi⟩⟩
  by_cases hz : (s.procs s.proc_atual_ptr).stack = 0
  · rw [if_neg h0, if_pos hz]
    exact ⟨_, _, rfl, rfl, Or.inl ⟨rfl, rfl, bs, hi⟩⟩
  rw [if_neg h0, if_neg hz]
  obtain ⟨p, heap1, hk1, ⟨rfl, bs1, hi1⟩ | ⟨hp, hvivos, stack, heap2, hk2, hstack⟩⟩ := memoria_nova hi
  · rw [hk1, Option.bind_some]
    dsimp only
    rw [if_pos rfl]
    exact ⟨_, _, rfl, rfl, Or.inl ⟨rfl, rfl, bs1, hi1⟩⟩
  rw [hk1, Option.bind_some]
  dsimp only
  rw [if_neg hp, hk2, Option.bind_some]
  dsimp only
  rcases hstack with ⟨rfl, heap3, bs3, hf, hi3⟩ | ⟨hst, bs2, hi2, hcabe⟩
  · rw [if_pos rfl, hf]
    exact ⟨_, _, rfl, rfl, Or.inl ⟨rfl, rfl, bs3, hi3⟩⟩
  rw [if_neg hst]
  have hnew : p ∉ l := fun hmem => hvivos (hl p hmem)
  have hfim := (Lib.BlockList.used_bounds Kheap.CABECALHO (hi2.carga List.mem_cons_self)).2
  rw [hi2.ladrilha.ate_o_fim] at hfim
  dsimp only at hfim
  obtain ⟨h1, h2⟩ := hs hz
  rw [esp_do_filho stack h1 h2 (by omega)]
  generalize hesp : stack + ((s.procs s.proc_atual_ptr).esp - (s.procs s.proc_atual_ptr).stack) = esp
  -- The copy and the return value are in the new stack.
  have hfora : ∀ x, x < stack ∨ stack + Kheap.carga heap2 stack ≤ x →
      putWord (copia_stack heap2.mem (s.procs s.proc_atual_ptr).stack stack) (esp + 4 * 7) 0 x =
        heap2.mem x := fun x hx => by
    rw [putWord_ne _ _ (by omega), copia_stack_ne _ _ _ (by omega)]
  have hi3 := hi2.grava List.mem_cons_self hfora
  obtain ⟨fila, procs', hadd, hlink, h4, -, h6, hout⟩ := fila_nova ⟨⟨putWord
    (copia_stack heap2.mem (s.procs s.proc_atual_ptr).stack stack) (esp + 4 * 7) 0,
      heap2.heap_inicio, heap2.inicializado⟩, por s.procs p { s.procs s.proc_atual_ptr with
        pid := s.prox_pid, estado := .PROC_READY, stack := stack, proximo := 0, esp := esp,
        id := identidade_gerar s.prox_pid s.ticks (UInt32.ofNat stack) }, s.proc_atual_ptr,
    s.fila_pronto, s.prox_pid + 1, s.ticks, s.creditos_atuais⟩
    h hp hnew (length_lt_voltas hi hl h.nodup) rfl rfl rfl
  rw [hadd]
  refine ⟨_, _, rfl, rfl, Or.inr ⟨p, hp, hvivos, hlink, h4, hout, bs2, ?_⟩⟩
  dsimp only
  rw [h6]
  exact hi3

end Fork

/-! ## The frame of `proc_exec` -/

section Exec

variable {s : Sistema}

/-- Where `proc_exec` puts its frame. -/
def quadro_novo (s : Sistema) : Nat := (s.procs s.proc_atual_ptr).stack + STACK_SIZE - QUADRO

/-- The words of a stack from its top on. -/
theorem word_empilha (m : Memory) (topo : Nat) (vs : List Nat) (h : 4 * vs.length ≤ topo) {i v : Nat}
    (hi : vs[i]? = some v) : word (empilha m topo vs).1 (topo - 4 * (i + 1)) = v % 2 ^ 32 := by
  induction vs generalizing m topo i with
  | nil => exact absurd hi (by simp)
  | cons w vs ih =>
    rw [List.length_cons] at h
    rw [empilha]
    cases i with
    | zero =>
      obtain rfl : w = v := Option.some.inj hi
      have hfora := (empilha_spec (putWord m (topo - 4) w) (topo - 4) vs (by omega)).2
      rw [word_congr fun x hx _ => hfora x (by omega)]
      exact word_putWord_self m (topo - 4) w
    | succ i =>
      have hword := ih (putWord m (topo - 4) w) (topo - 4) (by omega) hi
      rw [← hword]
      congr 1
      omega

theorem por_igual (procs : Nat → Processo) (p : Nat) (v : Processo)
    (h1 : v.estado = (procs p).estado) (h2 : v.proximo = (procs p).proximo) (q : Nat) :
    (por procs p v q).estado = (procs q).estado ∧ (por procs p v q).proximo = (procs q).proximo := by
  unfold por
  rcases eq_or_ne q p with rfl | hq
  · rw [Function.update_self]
    exact ⟨h1, h2⟩
  · rw [Function.update_of_ne hq]
    exact ⟨rfl, rfl⟩

theorem proc_exec_eq (h0 : s.proc_atual_ptr ≠ 0) (entrada : Nat) : ∃ m topo,
    proc_exec s entrada = (0, { s with
      heap := { s.heap with mem := m }
      procs := por s.procs s.proc_atual_ptr
        { s.procs s.proc_atual_ptr with esp := topo, eip := entrada } }) ∧
    topo = quadro_novo s ∧ word m (quadro_novo s + 4 * 8) = entrada % 2 ^ 32 ∧
    ∀ x, x < quadro_novo s ∨ (s.procs s.proc_atual_ptr).stack + STACK_SIZE ≤ x →
      m x = s.heap.mem x := by
  have hk : STACK_SIZE = 16384 := rfl
  have hlen : 4 * (quadro entrada).length ≤ (s.procs s.proc_atual_ptr).stack + STACK_SIZE := by
    rw [show (quadro entrada).length = 11 from rfl]
    omega
  have hword := word_empilha s.heap.mem _ _ hlen (show (quadro entrada)[2]? = some entrada from rfl)
  have hfora := empilha_spec s.heap.mem _ _ hlen
  unfold proc_exec
  dsimp only
  rw [if_neg h0]
  generalize hr : empilha s.heap.mem ((s.procs s.proc_atual_ptr).stack + STACK_SIZE)
    (quadro entrada) = r at hword hfora
  refine ⟨r.1, r.2, rfl, hfora.1, ?_, hfora.2⟩
  rw [← hword]
  unfold quadro_novo QUADRO
  congr 1

end Exec

/-! ## Runs with `proc_fork` and `proc_exec` -/

/-- The stack of the current process. -/
def Maquina.stack (e : Maquina) : Nat := (e.sis.procs e.atual).stack

/-- The current process has a stack of its own. -/
def Maquina.ComPilha (e : Maquina) : Prop :=
  e.stack ∈ e.vivos ∧ STACK_SIZE ≤ Kheap.carga e.sis.heap e.stack

/-- Its saved ESP lies in its stack. -/
def Maquina.NaPilha (e : Maquina) : Prop :=
  e.stack ≤ (e.sis.procs e.atual).esp ∧ (e.sis.procs e.atual).esp + 32 ≤ e.stack + STACK_SIZE

/-- The history after a fork that leaves the list `l`. -/
def Maquina.bifurca (e : Maquina) (l : List Nat) (s' : Sistema) : Maquina :=
  match l.drop e.criados.length with
  | [] => { e with sis := s' }
  | p :: _ =>
    { e with
      sis := s'
      vivos := (s'.procs p).stack :: p :: e.vivos
      criados := e.criados ++ [p]
      inicial := Function.update e.inicial p (s'.procs p).esp }

/-- The states of every run of the processes. A process forks or executes on its own stack, or, as
the kernel, without one. -/
inductive Alcance : Maquina → Prop
  | corrida {e : Maquina} : Corrida e → Alcance e
  | passo {e e' : Maquina} : Alcance e → Passo e e' → Alcance e'
  | proc_fork {e : Maquina} {n : Int} {s' : Sistema} {l : List Nat} : Alcance e →
      (e.stack ≠ 0 → e.NaPilha) → Proc.proc_fork e.sis = some (n, s') →
      Linked 0 (elo s'.procs) s'.fila_pronto l → Alcance (e.bifurca l s')
  | proc_exec {e : Maquina} {entrada : Nat} : Alcance e → (e.stack ≠ 0 → e.ComPilha) →
      Alcance { e with sis := (Proc.proc_exec e.sis entrada).2 }

section Corridas

variable {e : Maquina}

theorem Ordem.fork (h : Ordem e) (hs : e.stack ≠ 0 → e.NaPilha) {n : Int} {s' : Sistema}
    {l : List Nat} (hf : proc_fork e.sis = some (n, s'))
    (hl : Linked 0 (elo s'.procs) s'.fila_pronto l) : Ordem (e.bifurca l s') := by
  obtain ⟨bs, hi⟩ := h.heap
  obtain ⟨n1, s1, hf1, hatual, hcases⟩ := proc_fork_cases hi h.fila h.vivos hs
  obtain ⟨rfl, rfl⟩ := Prod.mk.inj (Option.some.inj (hf1.symm.trans hf))
  unfold Maquina.bifurca
  rcases hcases with ⟨hprocs, hfila, hheap⟩ | ⟨p, hp, hnew, hlink, hready, hout, hheap⟩
  · have hlink : Linked 0 (elo s1.procs) s1.fila_pronto e.criados := by
      rw [hprocs, hfila]
      exact h.fila
    rw [hl.unique hlink, List.drop_length]
    refine ⟨hheap, h.vivos, hlink, fun h0 => ?_, fun q hq hne => ?_, fun q hq hne => ?_, h.novos⟩
    · unfold Maquina.atual Maquina.estado at *
      dsimp only at *
      rw [hatual, hprocs] at *
      exact h.atual h0
    · unfold Maquina.estado
      dsimp only
      rw [hprocs]
      exact h.outros q hq fun he => hne (he.trans hatual.symm)
    · dsimp only
      rw [hprocs]
      exact h.esp q hq fun he => hne (he.trans hatual.symm)
  · rw [hl.unique hlink, List.drop_left]
    exact h.entra hp (fun hmem => hnew (h.vivos p hmem)) hatual hlink hready rfl hout hheap
      (fun q hq => List.mem_cons_of_mem _ (List.mem_cons_of_mem _ hq))
      (List.mem_cons_of_mem _ List.mem_cons_self)

/-- The frame of `proc_exec` comes to lie in the stack, or, for the kernel, below the heap. -/
theorem quadro_na_pilha {bs : List Lib.BlockList.Block} {m : Memory}
    (hi : Kheap.Inteiro ⟨e.sis.heap, e.vivos⟩ bs) (hs : e.stack ≠ 0 → e.ComPilha)
    (hfora : ∀ x, x < quadro_novo e.sis ∨ e.stack + STACK_SIZE ≤ x → m x = e.sis.heap.mem x) :
    Kheap.Inteiro ⟨{ e.sis.heap with mem := m }, e.vivos⟩ bs := by
  have hk : STACK_SIZE = 16384 := rfl
  by_cases hz : e.stack = 0
  · refine ⟨hi.inicio, hi.ligado, ⟨hi.ladrilha.segue.congr fun y hy z hz1 _ => hfora z ?_,
      hi.ladrilha.ate_o_fim⟩, hi.juntos, hi.vivos_nodup, hi.vivos_iff⟩
    have hge := (Lib.BlockList.headers_bounds Kheap.CABECALHO hy).1
    have hinicio : Kheap.HEAP_INICIO = 0x300000 := rfl
    omega
  · obtain ⟨hv, hc⟩ := hs hz
    refine hi.grava hv fun x hx => hfora x ?_
    unfold quadro_novo QUADRO
    unfold Maquina.stack Maquina.atual at *
    dsimp only at hx
    omega

/-- Only the current process and its stack change. -/
theorem Ordem.exec (h : Ordem e) (hs : e.stack ≠ 0 → e.ComPilha) (entrada : Nat) :
    Ordem { e with sis := (proc_exec e.sis entrada).2 } := by
  by_cases h0 : e.sis.proc_atual_ptr = 0
  · have hn : proc_exec e.sis entrada = (-1, e.sis) := if_pos h0
    rw [hn]
    exact h
  obtain ⟨m, topo, hexec, -, -, hfora⟩ := proc_exec_eq h0 entrada
  have hum := por_igual e.sis.procs e.atual
    { e.sis.procs e.atual with esp := topo, eip := entrada } rfl rfl
  have hheap : ∃ bs, Kheap.Inteiro ⟨{ e.sis.heap with mem := m }, e.vivos⟩ bs :=
    h.heap.imp fun _ hi => quadro_na_pilha hi hs hfora
  rw [hexec]
  refine ⟨hheap, h.vivos, h.fila.congr fun q _ => (hum q).2, fun hne => ?_, fun q hq hqa => ?_,
    fun q hq hqa => ?_, h.novos⟩
  · have he := (hum e.atual).1
    exact ⟨(h.atual hne).1, (h.atual hne).2.imp he.trans he.trans⟩
  · have he := (hum q).1
    exact (h.outros q hq hqa).imp he.trans he.trans
  · have hq' : por e.sis.procs e.atual { e.sis.procs e.atual with esp := topo, eip := entrada } q =
        e.sis.procs q := Function.update_of_ne hqa _ _
    exact (congrArg Processo.esp hq').trans (h.esp q hq hqa)

theorem Alcance.ordem (h : Alcance e) : Ordem e := by
  induction h with
  | corrida h => exact h.ordem
  | passo _ hp ih => exact (ih.passo hp).1
  | proc_fork _ hs hf hl ih => exact ih.fork hs hf hl
  | proc_exec _ hs ih => exact ih.exec hs _

end Corridas

/-! ## From the call to the return -/

/-- The first tick that switches to `p`: the ESP that it returns, and the state after it. -/
def retomada (p : Nat) : List Nat → Sistema → Option (Nat × Sistema)
  | [], _ => none
  | esp :: esps, s =>
    (sched_tick s esp).bind fun r =>
      if s.proc_atual_ptr ≠ p ∧ r.2.proc_atual_ptr = p then some r else retomada p esps r.2

/-- The ESP that was given to the first tick that switches away from `p`. -/
def saida (p : Nat) : List Nat → Sistema → Option Nat
  | [], _ => none
  | esp :: esps, s =>
    (sched_tick s esp).bind fun r =>
      if s.proc_atual_ptr = p ∧ r.2.proc_atual_ptr ≠ p then some esp else saida p esps r.2

/-- There is a current process, in the list and not ready. -/
structure Escalonavel (s : Sistema) (l : List Nat) : Prop where
  fila : Linked 0 (elo s.procs) s.fila_pronto l
  length_lt : l.length < VOLTAS
  atual : s.proc_atual_ptr ∈ l
  nao_pronto : (s.procs s.proc_atual_ptr).estado ≠ .PROC_READY

section Ticks

variable {e : Maquina} {s s' : Sistema} {l esps : List Nat} {p r : Nat}

theorem Ordem.escalonavel (h : Ordem e) (h0 : e.atual ≠ 0) : Escalonavel e.sis e.criados :=
  ⟨h.fila, h.length_lt, (h.atual h0).1, h.nao_pronto h0⟩

/-- A tick keeps the process, or returns the saved ESP of another one. -/
theorem Escalonavel.tick (h : Escalonavel s l) (esp : Nat) :
    ∃ r s', sched_tick s esp = some (r, s') ∧ Escalonavel s' l ∧ s'.heap = s.heap ∧
      (∀ p, (s'.procs p).esp = if p = s.proc_atual_ptr then esp else (s.procs p).esp) ∧
      (s'.proc_atual_ptr ≠ s.proc_atual_ptr → r = (s.procs s'.proc_atual_ptr).esp) := by
  obtain ⟨r, s', ht, hheap, hfila, hprox, hesp, hcases⟩ :=
    sched_tick_cases h.fila h.length_lt h.atual h.nao_pronto esp
  have hlink : Linked 0 (elo s'.procs) s'.fila_pronto l := by
    rw [hfila]
    exact h.fila.congr fun q _ => hprox q
  refine ⟨r, s', ht, ?_, hheap, hesp, ?_⟩
  · rcases hcases with ⟨hmesmo, -, hest⟩ | ⟨hc, -, -, -, hest⟩
    · refine ⟨hlink, h.length_lt, hmesmo ▸ h.atual, ?_⟩
      rw [hmesmo, hest]
      exact h.nao_pronto
    · refine ⟨hlink, h.length_lt, hc, ?_⟩
      rw [hest, estado_depois_atual]
      decide
  · intro hne
    rcases hcases with ⟨hmesmo, -, -⟩ | ⟨-, -, -, hr, -⟩
    · exact absurd hmesmo hne
    · exact hr

/-- A process that is switched out comes back with its saved ESP. -/
theorem Escalonavel.retomada_fora (h : Escalonavel s l) (hp : s.proc_atual_ptr ≠ p)
    (hr : retomada p esps s = some (r, s')) : r = (s.procs p).esp ∧ s'.heap = s.heap := by
  induction esps generalizing s with
  | nil => exact absurd hr (by simp [retomada])
  | cons esp esps ih =>
    obtain ⟨r1, s1, ht, h1, hheap, hesp, hret⟩ := h.tick esp
    rw [retomada, ht, Option.bind_some] at hr
    dsimp only at hr
    by_cases hc : s1.proc_atual_ptr = p
    · rw [if_pos ⟨hp, hc⟩] at hr
      obtain ⟨rfl, rfl⟩ := Prod.mk.inj (Option.some.inj hr)
      rw [hc] at hret
      exact ⟨hret hp.symm, hheap⟩
    · rw [if_neg fun hn => hc hn.2] at hr
      obtain ⟨g1, g2⟩ := ih h1 hc hr
      refine ⟨g1.trans ((hesp p).trans (if_neg hp.symm)), g2.trans hheap⟩

/-- And that is the one of the tick at which it was switched out. -/
theorem Escalonavel.retomada_saida (h : Escalonavel s l) (hp : s.proc_atual_ptr = p)
    (hr : retomada p esps s = some (r, s')) : saida p esps s = some r ∧ s'.heap = s.heap := by
  induction esps generalizing s with
  | nil => exact absurd hr (by simp [retomada])
  | cons esp esps ih =>
    obtain ⟨r1, s1, ht, h1, hheap, hesp, -⟩ := h.tick esp
    rw [retomada, ht, Option.bind_some] at hr
    rw [saida, ht, Option.bind_some]
    dsimp only at hr ⊢
    rw [if_neg fun hn => hn.1 hp] at hr
    by_cases hc : s1.proc_atual_ptr = p
    · rw [if_neg fun hn => hn.2 hc]
      obtain ⟨g1, g2⟩ := ih h1 hc hr
      exact ⟨g1, g2.trans hheap⟩
    · rw [if_pos ⟨hp, hc⟩]
      obtain ⟨g1, g2⟩ := h1.retomada_fora hc hr
      have hsalvo := (hesp p).trans (if_pos hp.symm)
      exact ⟨congrArg some (g1.trans hsalvo).symm, g2.trans hheap⟩

/-! ## The law -/

/-- With a stack of its own the current process comes back at the new frame, which holds the address
of the function. Without one the call fails and leaves the memory. -/
structure TomaEfeito (s : Sistema) (entrada : UInt32) (esps : List Nat) : Prop where
  retoma : (s.procs s.proc_atual_ptr).stack ≠ 0 → ∀ r s',
    retomada s.proc_atual_ptr esps (proc_exec s entrada.toNat).2 = some (r, s') →
      r = quadro_novo s ∧ word s'.heap.mem (r + 4 * 8) = entrada.toNat
  falha : (s.procs s.proc_atual_ptr).stack = 0 → (proc_exec s entrada.toNat).1 = -1 ∧
    (proc_exec s entrada.toNat).2.heap.mem = s.heap.mem

/-- In every state of a run, `proc_exec` takes effect exactly on a stack of its own, if the tick that
takes the processor from the process finds it at the new frame already. -/
theorem an_exec_takes_effect_iff (h : Alcance e) (h0 : e.atual ≠ 0) (entrada : UInt32)
    (esps : List Nat) : TomaEfeito e.sis entrada esps ↔ e.stack ≠ 0 ∧
      ((retomada e.atual esps (proc_exec e.sis entrada.toNat).2).isSome →
        saida e.atual esps (proc_exec e.sis entrada.toNat).2 = some (quadro_novo e.sis)) := by
  obtain ⟨m, topo, hexec, htopo, hword, -⟩ := proc_exec_eq h0 entrada.toNat
  have hs := h.ordem.escalonavel h0
  have hum := por_igual e.sis.procs e.atual
    { e.sis.procs e.atual with esp := topo, eip := entrada.toNat } rfl rfl
  have hdepois : Escalonavel (proc_exec e.sis entrada.toNat).2 e.criados := by
    rw [hexec]
    exact ⟨hs.fila.congr fun q _ => (hum q).2, hs.length_lt, hs.atual,
      fun he => hs.nao_pronto ((hum e.atual).1.symm.trans he)⟩
  have hatual : (proc_exec e.sis entrada.toNat).2.proc_atual_ptr = e.atual := by
    rw [hexec]
    rfl
  have hmem : (proc_exec e.sis entrada.toNat).2.heap.mem = m := by rw [hexec]
  constructor
  · intro ht
    have hpilha : e.stack ≠ 0 := fun hz => by
      have hf := (ht.falha hz).1
      rw [hexec] at hf
      exact absurd (show (0 : Int) = -1 from hf) (by decide)
    refine ⟨hpilha, fun hsome => ?_⟩
    obtain ⟨⟨r, s'⟩, hr⟩ := Option.isSome_iff_exists.mp hsome
    rw [(hdepois.retomada_saida hatual hr).1, (ht.retoma hpilha r s' hr).1]
  · rintro ⟨hpilha, hsaida⟩
    refine ⟨fun _ r s' hr => ?_, fun hz => absurd hz hpilha⟩
    obtain ⟨g1, g2⟩ := hdepois.retomada_saida hatual hr
    have hsome : (retomada e.atual esps (proc_exec e.sis entrada.toNat).2).isSome :=
      Option.isSome_iff_exists.mpr ⟨_, hr⟩
    obtain rfl : r = quadro_novo e.sis := Option.some.inj (g1.symm.trans (hsaida hsome))
    refine ⟨rfl, ?_⟩
    rw [g2, hmem, hword]
    exact Nat.mod_eq_of_lt entrada.toNat_lt

/-- A process on its own stack: the second one, after the first turn of the kernel. -/
def segundo : Option Sistema :=
  (proc_init sistema_zero processo_zero).bind fun s =>
    (sched_init s).bind fun s =>
      (proc_criar s processo_zero 0x1000 1).bind fun r =>
        (sched_tick r.2 5).bind fun r => (sched_tick r.2 5).map Prod.snd

theorem alcance_segundo (h : segundo = some s) : ∃ e, Alcance e ∧ e.sis = s := by
  obtain ⟨s1, h1, h⟩ := Option.bind_eq_some_iff.mp h
  obtain ⟨s2, h2, h⟩ := Option.bind_eq_some_iff.mp h
  obtain ⟨⟨p, s3⟩, h3, h⟩ := Option.bind_eq_some_iff.mp h
  obtain ⟨⟨r4, s4⟩, h4, h⟩ := Option.bind_eq_some_iff.mp h
  obtain ⟨⟨r5, s5⟩, h5, rfl⟩ := Option.map_eq_some_iff.mp h
  have hc := (Corrida.inicio (.kheap_init _) h1 h2).mais (.proc_criar h3)
  have hsis : (Maquina.nasce ⟨s2, if s1.fila_pronto = 0 then [] else s1.fila_pronto :: [],
      if s1.fila_pronto = 0 then [] else [s1.fila_pronto], fun _ => 0, fun _ => none⟩ p s3).sis =
        s3 := by
    unfold Maquina.nasce
    split <;> rfl
  rw [← hsis] at h4
  exact ⟨_, .corrida ((hc.mais (.sched_tick h4)).mais (.sched_tick h5)), rfl⟩

/-- It takes effect for a process that is interrupted at the top of its stack. -/
theorem an_exec_at_the_top_of_the_stack_takes_effect :
    ∃ e : Maquina, e.stack = 0x3000F3 ∧ TomaEfeito e.sis 0x2000 [0x3040C7, 0x3040C7, 5, 5] := by
  have hsaida : segundo.map (fun s => decide (s.proc_atual_ptr ≠ 0 ∧
      (s.procs s.proc_atual_ptr).stack = 0x3000F3 ∧
      saida s.proc_atual_ptr [0x3040C7, 0x3040C7, 5, 5] (proc_exec s 0x2000).2 =
        some (quadro_novo s))) = some true := by
    decide +kernel
  obtain ⟨s, hs, hsaida⟩ := Option.map_eq_some_iff.mp hsaida
  obtain ⟨h0, hstack, hsaida⟩ := of_decide_eq_true hsaida
  obtain ⟨e, he, rfl⟩ := alcance_segundo hs
  have hne : e.stack ≠ 0 := by
    rw [show e.stack = 0x3000F3 from hstack]
    decide
  exact ⟨e, hstack, (an_exec_takes_effect_iff he h0 0x2000 _).mpr ⟨hne, fun _ => hsaida⟩⟩

/-- A process that is interrupted anywhere else goes on there. -/
theorem an_exec_is_undone_by_the_next_tick : ¬ ∀ e entrada esps, Alcance e → e.atual ≠ 0 →
    TomaEfeito e.sis entrada esps := by
  intro h
  have hvolta : segundo.map (fun s => decide (s.proc_atual_ptr ≠ 0 ∧
      (s.procs s.proc_atual_ptr).stack ≠ 0 ∧ quadro_novo s ≠ 0x304000 ∧
      (retomada s.proc_atual_ptr [0x304000, 0x304000, 5, 5] (proc_exec s 0x2000).2).map Prod.fst =
        some 0x304000)) = some true := by
    decide +kernel
  obtain ⟨s, hs, hvolta⟩ := Option.map_eq_some_iff.mp hvolta
  obtain ⟨h0, hstack, hne, hvolta⟩ := of_decide_eq_true hvolta
  obtain ⟨e, he, rfl⟩ := alcance_segundo hs
  obtain ⟨⟨r, s'⟩, hr, rfl⟩ := Option.map_eq_some_iff.mp hvolta
  exact hne ((h e 0x2000 _ he h0).retoma hstack _ s' hr).1.symm

end Ticks

end SpaceOS.Proc
