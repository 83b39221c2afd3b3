-- The table of the processes over whole runs: how many of them there can be, the numbers by which they
-- are told apart, and the stacks that they have to themselves.
import SpaceOS.KheapRequests
import SpaceOS.Lib.Rounds
import SpaceOS.ProcExec
import SpaceOS.SchedQuota

open Lib.Bytes Lib.LinkedList Lib.BlockList Lib.Rounds

namespace SpaceOS.Proc

def identidade_verificar (id : Identidade) (pid : UInt32) : Bool := id.pid == pid && id.hash != 0

/-! ## What the calls leave of a control block -/

/-- A control block without its link. -/
def sem_elo (v : Processo) : Processo := { v with proximo := 0 }

/-- A field that is not the link. -/
theorem de_sem_elo {α : Type} {f : Processo → α} (hf : ∀ v, f (sem_elo v) = f v) {v w : Processo}
    (h : sem_elo v = sem_elo w) : f v = f w :=
  (hf v).symm.trans ((congrArg f h).trans (hf w))

section Campos

variable {α : Type} {f : Processo → α} {s s' : Sistema} {procs procs' : Nat → Processo} {p q : Nat}

theorem campo_por {v : Processo} (hv : f v = f (procs p)) (q : Nat) :
    f (por procs p v q) = f (procs q) := by
  unfold por
  rcases eq_or_ne q p with rfl | hq
  · rw [Function.update_self]
    exact hv
  · rw [Function.update_of_ne hq]

/-- The list takes a process in by links alone. -/
theorem fila_adicionar_campos (h : fila_adicionar s p = some s') :
    s'.heap = s.heap ∧ s'.prox_pid = s.prox_pid ∧ s'.proc_atual_ptr = s.proc_atual_ptr ∧
      s'.creditos_atuais = s.creditos_atuais ∧
      ∀ q, sem_elo (s'.procs q) = sem_elo (s.procs q) := by
  have hum : ∀ (procs : Nat → Processo) (r x q : Nat),
      sem_elo (por procs r { procs r with proximo := x } q) = sem_elo (procs q) := by
    intro procs r x q
    have hv : sem_elo { procs r with proximo := x } = sem_elo (procs r) := rfl
    exact campo_por hv q
  unfold fila_adicionar at h
  dsimp only at h
  split at h
  · obtain rfl := Option.some.inj h
    exact ⟨rfl, rfl, rfl, rfl, hum s.procs p 0⟩
  · obtain ⟨z, -, rfl⟩ := Option.map_eq_some_iff.mp h
    exact ⟨rfl, rfl, rfl, rfl, fun q => (hum _ z p q).trans (hum s.procs p 0 q)⟩

theorem recalcular_campo (hc : ∀ v x, f { v with creditos := x } = f v) {n : Nat}
    (h : recalcular_creditos n procs p = some procs') (q : Nat) : f (procs' q) = f (procs q) := by
  induction n generalizing procs p with
  | zero => exact absurd h (by simp [recalcular_creditos])
  | succ n ih =>
    rw [recalcular_creditos] at h
    split at h
    · rw [Option.some.inj h]
    · refine (ih h).trans ?_
      dsimp only
      split
      · exact campo_por (hc _ _) q
      · rfl

/-- A tick writes the stack pointer, the state and the credits, and nothing else. -/
theorem sched_tick_campo (he : ∀ v x, f { v with esp := x } = f v)
    (hs : ∀ v x, f { v with estado := x } = f v) (hc : ∀ v x, f { v with creditos := x } = f v)
    {esp r : Nat} (h : sched_tick s esp = some (r, s')) :
    s'.heap = s.heap ∧ s'.prox_pid = s.prox_pid ∧ s'.fila_pronto = s.fila_pronto ∧
      ∀ q, f (s'.procs q) = f (s.procs q) := by
  have hsalva : ∀ q, f (por s.procs s.proc_atual_ptr
      { s.procs s.proc_atual_ptr with esp := esp } q) = f (s.procs q) := campo_por (he _ _)
  unfold sched_tick at h
  dsimp only at h
  generalize por s.procs s.proc_atual_ptr
    { s.procs s.proc_atual_ptr with esp := esp } = procs1 at h hsalva
  split at h
  · obtain ⟨-, rfl⟩ := Prod.mk.inj (Option.some.inj h)
    exact ⟨rfl, rfl, rfl, fun _ => rfl⟩
  split at h
  · obtain ⟨-, rfl⟩ := Prod.mk.inj (Option.some.inj h)
    exact ⟨rfl, rfl, rfl, hsalva⟩
  obtain ⟨⟨c, s1⟩, hesc, h⟩ := Option.map_eq_some_iff.mp h
  have hs1 : s1.heap = s.heap ∧ s1.prox_pid = s.prox_pid ∧ s1.fila_pronto = s.fila_pronto ∧
      ∀ q, f (s1.procs q) = f (s.procs q) := by
    unfold escolher_proximo at hesc
    dsimp only at hesc
    split at hesc
    · obtain ⟨-, rfl⟩ := Prod.mk.inj (Option.some.inj hesc)
      exact ⟨rfl, rfl, rfl, hsalva⟩
    · obtain ⟨procs2, hrec, hesc⟩ := Option.bind_eq_some_iff.mp hesc
      obtain ⟨c', -, hesc⟩ := Option.map_eq_some_iff.mp hesc
      obtain ⟨-, rfl⟩ := Prod.mk.inj hesc
      exact ⟨rfl, rfl, rfl, fun q => (recalcular_campo hc hrec q).trans (hsalva q)⟩
  dsimp only at h
  split at h
  · obtain ⟨-, rfl⟩ := Prod.mk.inj h
    exact hs1
  · unfold troca at h
    obtain ⟨-, rfl⟩ := Prod.mk.inj h
    refine ⟨hs1.1, hs1.2.1, hs1.2.2.1, fun q => (campo_por (hs _ _) q).trans ?_⟩
    refine Eq.trans ?_ (hs1.2.2.2 q)
    split
    · exact campo_por (hs _ _) q
    · rfl

theorem proc_encerrar_campo (hs : ∀ v x, f { v with estado := x } = f v) (s : Sistema) (q : Nat) :
    f ((proc_encerrar s).procs q) = f (s.procs q) := by
  unfold proc_encerrar
  split
  · rfl
  · exact campo_por (hs _ _) q

end Campos

/-! ## A birth -/

/-- What no call changes of a process that there is: its number, its identity and its stack. -/
def ficha (v : Processo) : UInt32 × Identidade × Nat := (v.pid, v.id, v.stack)

theorem ficha_campos {v w : Processo} (h : ficha v = ficha w) :
    v.pid = w.pid ∧ v.id = w.id ∧ v.stack = w.stack := by
  obtain ⟨h1, h2⟩ := Prod.mk.inj h
  obtain ⟨h2, h3⟩ := Prod.mk.inj h2
  exact ⟨h1, h2, h3⟩

/-- The blocks in use stay in use, on a heap with the pointers `vivos`. -/
structure Guarda (bs : List Block) (heap : Kheap.Heap) (vivos : List Nat) (cs : List Block) : Prop where
  inteiro : Kheap.Inteiro ⟨heap, vivos⟩ cs
  usados : ∀ x ∈ used Kheap.CABECALHO Kheap.HEAP_INICIO bs,
    x ∈ used Kheap.CABECALHO Kheap.HEAP_INICIO cs

/-- What a call may make: nothing, or process `p` at the end of the list `l`, with the next number and
a stack of its own. -/
inductive Nasceu (vivos l : List Nat) (bs : List Block) (s s' : Sistema) : Nat → Prop
  | nenhum {cs : List Block} (hpid : s'.prox_pid = s.prox_pid) (hprocs : s'.procs = s.procs)
      (hfila : s'.fila_pronto = s.fila_pronto) (hheap : Guarda bs s'.heap vivos cs) : Nasceu vivos l bs s s' 0
  | um {p n : Nat} {cs : List Block} (hp : p ≠ 0) (hnew : p ∉ vivos)
      (hpid : s'.prox_pid = s.prox_pid + 1)
      (hlink : Linked 0 (elo s'.procs) s'.fila_pronto (l ++ [p]))
      (hout : ∀ q, q ≠ p → sem_elo (s'.procs q) = sem_elo (s.procs q))
      (hproc : (s'.procs p).pid = s.prox_pid ∧ (s'.procs p).id.pid = s.prox_pid)
      (hheap : Guarda bs s'.heap ((s'.procs p).stack :: p :: vivos) cs) (hn : STACK_SIZE ≤ n)
      (hstack : ((s'.procs p).stack, n) ∈ used Kheap.CABECALHO Kheap.HEAP_INICIO cs) :
      Nasceu vivos l bs s s' p

section Nasce

variable {s s' : Sistema} {heap h' : Kheap.Heap} {vivos l : List Nat} {bs cs : List Block} {p n : Nat}

theorem Guarda.kmalloc (h : Guarda bs heap vivos cs) (hk : Kheap.kmalloc heap n = some (p, h')) :
    ∃ ds, Guarda bs h' (if p = 0 then vivos else p :: vivos) ds ∧
      (p ≠ 0 → p ∉ vivos ∧ Kheap.alinhar n ≤ Kheap.carga h' p ∧
        (p, Kheap.carga h' p) ∈ used Kheap.CABECALHO Kheap.HEAP_INICIO ds) := by
  obtain ⟨p1, h1, ds, hk1, hi, hnew, hus⟩ := h.inteiro.kmalloc_usados n
  obtain ⟨rfl, rfl⟩ := Prod.mk.inj (Option.some.inj (hk1.symm.trans hk))
  refine ⟨ds, ⟨hi, fun x hx => (hus x (h.usados x hx)).1⟩, fun hp => ⟨(hnew hp).1, (hnew hp).2, ?_⟩⟩
  refine hi.carga ?_
  rw [if_neg hp]
  exact List.mem_cons_self

/-- A pointer that was not in use goes back. -/
theorem Guarda.kfree (h : Guarda bs heap (p :: vivos) cs)
    (hp : ∀ x ∈ used Kheap.CABECALHO Kheap.HEAP_INICIO bs, x.1 ≠ p)
    (hk : Kheap.kfree heap p = some h') : ∃ ds, Guarda bs h' vivos ds := by
  obtain ⟨h1, ds, hk1, hi, hus⟩ := h.inteiro.kfree_usados List.mem_cons_self
  obtain rfl := Option.some.inj (hk1.symm.trans hk)
  dsimp only at hi
  rw [List.erase_cons_head] at hi
  exact ⟨ds, hi, fun x hx => (hus x (h.usados x hx) (hp x hx)).1⟩

/-- The memory of a new process, and what the callers write into its stack. -/
theorem Guarda.processo (h : Guarda bs heap vivos cs)
    (hv : ∀ x ∈ used Kheap.CABECALHO Kheap.HEAP_INICIO bs, x.1 ∈ vivos) {h1 h2 : Kheap.Heap}
    {stack : Nat} (hk1 : Kheap.kmalloc heap SIZEOF_PROCESSO = some (p, h1)) (hp : p ≠ 0)
    (hk2 : Kheap.kmalloc h1 STACK_SIZE = some (stack, h2)) :
    (stack = 0 → ∀ h3, Kheap.kfree h2 p = some h3 → ∃ ds, Guarda bs h3 vivos ds) ∧
      (stack ≠ 0 → p ∉ vivos ∧ stack + STACK_SIZE ≤ Kheap.HEAP_FIM ∧ ∀ m : Memory,
        (∀ x, x < stack ∨ stack + STACK_SIZE ≤ x → m x = h2.mem x) →
        ∃ ds size, Guarda bs { h2 with mem := m } (stack :: p :: vivos) ds ∧ STACK_SIZE ≤ size ∧
          (stack, size) ∈ used Kheap.CABECALHO Kheap.HEAP_INICIO ds) := by
  obtain ⟨ds1, g1, hnew1⟩ := h.kmalloc hk1
  rw [if_neg hp] at g1
  obtain ⟨ds2, g2, hnew2⟩ := g1.kmalloc hk2
  have hpv := (hnew1 hp).1
  refine ⟨fun hz h3 hf => ?_, fun hz => ⟨hpv, ?_⟩⟩
  · rw [if_pos hz] at g2
    exact g2.kfree (fun x hx he => hpv (he ▸ hv x hx)) hf
  · rw [if_neg hz] at g2
    obtain ⟨-, hsize, hmem⟩ := hnew2 hz
    rw [show Kheap.alinhar STACK_SIZE = STACK_SIZE from by decide] at hsize
    have hfim := (used_bounds Kheap.CABECALHO hmem).2
    rw [g2.inteiro.ladrilha.ate_o_fim] at hfim
    dsimp only at hfim
    refine ⟨by omega, fun m hm => ⟨ds2, _, ⟨?_, g2.usados⟩, hsize, hmem⟩⟩
    refine g2.inteiro.grava List.mem_cons_self fun x hx => hm x ?_
    dsimp only at hx
    omega

/-- A control block that a call has filled in comes to the list. -/
theorem fila_nova_ficha {s0 : Sistema} (hadd : fila_adicionar s0 p = some s')
    (h : Linked 0 (elo s.procs) s.fila_pronto l) (hp : p ≠ 0) (hnew : p ∉ l) (hn : l.length < VOLTAS)
    {v : Processo} (hv : v.estado = .PROC_READY) (hprocs : s0.procs = por s.procs p v)
    (hfila : s0.fila_pronto = s.fila_pronto) :
    s'.heap = s0.heap ∧ s'.prox_pid = s0.prox_pid ∧
      Linked 0 (elo s'.procs) s'.fila_pronto (l ++ [p]) ∧ ficha (s'.procs p) = ficha v ∧
      ∀ q, q ≠ p → sem_elo (s'.procs q) = sem_elo (s.procs q) := by
  obtain ⟨fila, procs', hadd', hlink, -⟩ := fila_nova s0 h hp hnew hn hv hprocs hfila
  obtain ⟨h1, h2, -, -, h3⟩ := fila_adicionar_campos hadd
  obtain rfl := Option.some.inj (hadd'.symm.trans hadd)
  rw [hprocs] at h3
  refine ⟨h1, h2, hlink, (de_sem_elo (f := ficha) (fun _ => rfl) (h3 p)).trans ?_, fun q hq => (h3 q).trans ?_⟩
  · exact congrArg ficha (Function.update_self _ _ _)
  · exact congrArg sem_elo (Function.update_of_ne hq _ _)

theorem proc_criar_nasceu (hi : Kheap.Inteiro ⟨s.heap, vivos⟩ bs)
    (hl : Linked 0 (elo s.procs) s.fila_pronto l) (hlv : ∀ q ∈ l, q ∈ vivos) {lixo : Processo}
    {entrada : Nat} {prioridade : UInt8} (h : proc_criar s lixo entrada prioridade = some (p, s')) :
    Nasceu vivos l bs s s' p := by
  have hg : Guarda bs s.heap vivos bs := ⟨hi, fun _ hx => hx⟩
  have hv : ∀ x ∈ used Kheap.CABECALHO Kheap.HEAP_INICIO bs, x.1 ∈ vivos :=
    fun x hx => (hi.vivos_iff x.1).mpr ⟨x.2, hx⟩
  unfold proc_criar at h
  obtain ⟨⟨proc, heap1⟩, hk1, h⟩ := Option.bind_eq_some_iff.mp h
  dsimp only at h
  by_cases hp : proc = 0
  · rw [if_pos hp] at h
    obtain ⟨rfl, rfl⟩ := Prod.mk.inj (Option.some.inj h)
    obtain ⟨ds, g, -⟩ := hg.kmalloc hk1
    rw [if_pos hp] at g
    exact .nenhum rfl rfl rfl g
  rw [if_neg hp] at h
  obtain ⟨⟨stack, heap2⟩, hk2, h⟩ := Option.bind_eq_some_iff.mp h
  obtain ⟨hfalha, hnova⟩ := hg.processo hv hk1 hp hk2
  dsimp only at h
  by_cases hs : stack = 0
  · rw [if_pos hs] at h
    obtain ⟨heap3, hf, h⟩ := Option.map_eq_some_iff.mp h
    obtain ⟨rfl, rfl⟩ := Prod.mk.inj h
    obtain ⟨ds, g⟩ := hfalha hs heap3 hf
    exact .nenhum rfl rfl rfl g
  rw [if_neg hs] at h
  obtain ⟨hnew, -, hpilha⟩ := hnova hs
  obtain ⟨s1, hadd, h⟩ := Option.map_eq_some_iff.mp h
  obtain ⟨rfl, rfl⟩ := Prod.mk.inj h
  have hlen : (quadro entrada).length = 11 := rfl
  have hk : STACK_SIZE = 16384 := rfl
  have hmem := (empilha_spec heap2.mem (stack + STACK_SIZE) (quadro entrada) (by omega)).2
  generalize empilha heap2.mem (stack + STACK_SIZE) (quadro entrada) = r at hmem hadd
  obtain ⟨m, topo⟩ := r
  dsimp only at hmem hadd
  obtain ⟨ds, size, g, hsize, hused⟩ := hpilha m fun x hx => hmem x (by omega)
  obtain ⟨h1, h2, hlink, hself, hout⟩ := fila_nova_ficha hadd hl hp (fun hm => hnew (hlv _ hm))
    (length_lt_voltas hi hlv hl.nodup) rfl rfl rfl
  obtain ⟨e1, e2, e3⟩ := ficha_campos hself
  refine @Nasceu.um _ _ _ _ _ _ size ds hp hnew h2 hlink hout ⟨e1, ?_⟩ ?_ hsize ?_
  · rw [e2]
    rfl
  · rw [e3, h1]
    exact g
  · rw [e3]
    exact hused

/-- The state in which `proc_fork` puts the new process into the list. -/
def copiado (s : Sistema) (heap : Kheap.Heap) (filho stack : Nat) : Sistema :=
  let pai := s.procs s.proc_atual_ptr
  let esp := (UInt32.ofNat stack + (UInt32.ofNat pai.esp - UInt32.ofNat pai.stack)).toNat
  { s with
    heap := { heap with mem := putWord (copia_stack heap.mem pai.stack stack) (esp + 4 * 7) 0 }
    prox_pid := s.prox_pid + 1
    procs := por s.procs filho { pai with
      pid := s.prox_pid, estado := .PROC_READY, stack := stack, proximo := 0, esp := esp,
      id := identidade_gerar s.prox_pid s.ticks (UInt32.ofNat stack) } }

/-- The ways through `proc_fork`. -/
inductive Bifurca (s : Sistema) : Int → Sistema → Prop
  | recusa (h : s.proc_atual_ptr = 0 ∨ (s.procs s.proc_atual_ptr).stack = 0) : Bifurca s (-1) s
  | sem_controle {heap : Kheap.Heap} (hk : Kheap.kmalloc s.heap SIZEOF_PROCESSO = some (0, heap)) :
      Bifurca s (-1) { s with heap := heap }
  | sem_pilha {filho : Nat} {heap1 heap2 heap3 : Kheap.Heap}
      (hk1 : Kheap.kmalloc s.heap SIZEOF_PROCESSO = some (filho, heap1)) (hp : filho ≠ 0)
      (hk2 : Kheap.kmalloc heap1 STACK_SIZE = some (0, heap2))
      (hf : Kheap.kfree heap2 filho = some heap3) : Bifurca s (-1) { s with heap := heap3 }
  | filho {filho stack : Nat} {heap1 heap2 : Kheap.Heap} {s' : Sistema}
      (hz : (s.procs s.proc_atual_ptr).stack ≠ 0)
      (hk1 : Kheap.kmalloc s.heap SIZEOF_PROCESSO = some (filho, heap1)) (hp : filho ≠ 0)
      (hk2 : Kheap.kmalloc heap1 STACK_SIZE = some (stack, heap2)) (hs : stack ≠ 0)
      (hadd : fila_adicionar (copiado s heap2 filho stack) filho = some s') :
      Bifurca s (s'.procs filho).pid.toInt32.toInt s'

theorem proc_fork_inv {r : Int} (h : proc_fork s = some (r, s')) : Bifurca s r s' := by
  unfold proc_fork at h
  dsimp only at h
  split at h
  · rename_i h0
    obtain ⟨rfl, rfl⟩ := Prod.mk.inj (Option.some.inj h)
    exact .recusa (Or.inl h0)
  split at h
  · rename_i hz
    obtain ⟨rfl, rfl⟩ := Prod.mk.inj (Option.some.inj h)
    exact .recusa (Or.inr hz)
  rename_i hz
  obtain ⟨⟨filho, heap1⟩, hk1, h⟩ := Option.bind_eq_some_iff.mp h
  dsimp only at h
  split at h
  · rename_i hp
    obtain ⟨rfl, rfl⟩ := Prod.mk.inj (Option.some.inj h)
    exact .sem_controle (hp ▸ hk1)
  rename_i hp
  obtain ⟨⟨stack, heap2⟩, hk2, h⟩ := Option.bind_eq_some_iff.mp h
  dsimp only at h
  split at h
  · rename_i hst
    obtain ⟨heap3, hf, h⟩ := Option.map_eq_some_iff.mp h
    obtain ⟨rfl, rfl⟩ := Prod.mk.inj h
    exact .sem_pilha hk1 hp (hst ▸ hk2) hf
  · rename_i hst
    obtain ⟨s1, hadd, h⟩ := Option.map_eq_some_iff.mp h
    obtain ⟨rfl, rfl⟩ := Prod.mk.inj h
    exact .filho hz hk1 hp hk2 hst hadd

theorem proc_fork_nasceu {r : Int} (hi : Kheap.Inteiro ⟨s.heap, vivos⟩ bs)
    (hl : Linked 0 (elo s.procs) s.fila_pronto l) (hlv : ∀ q ∈ l, q ∈ vivos)
    (hs : (s.procs s.proc_atual_ptr).stack ≠ 0 →
      (s.procs s.proc_atual_ptr).stack ≤ (s.procs s.proc_atual_ptr).esp ∧
        (s.procs s.proc_atual_ptr).esp + 32 ≤ (s.procs s.proc_atual_ptr).stack + STACK_SIZE)
    (h : proc_fork s = some (r, s')) : ∃ p, Nasceu vivos l bs s s' p := by
  have hg : Guarda bs s.heap vivos bs := ⟨hi, fun _ hx => hx⟩
  have hv : ∀ x ∈ used Kheap.CABECALHO Kheap.HEAP_INICIO bs, x.1 ∈ vivos :=
    fun x hx => (hi.vivos_iff x.1).mpr ⟨x.2, hx⟩
  cases proc_fork_inv h with
  | recusa => exact ⟨0, .nenhum rfl rfl rfl hg⟩
  | sem_controle hk =>
    obtain ⟨ds, g, -⟩ := hg.kmalloc hk
    exact ⟨0, .nenhum rfl rfl rfl g⟩
  | sem_pilha hk1 hp hk2 hf =>
    obtain ⟨ds, g⟩ := (hg.processo hv hk1 hp hk2).1 rfl _ hf
    exact ⟨0, .nenhum rfl rfl rfl g⟩
  | @filho filho stack heap1 heap2 _ hz hk1 hp hk2 hst hadd =>
    obtain ⟨hnew, hfim, hpilha⟩ := (hg.processo hv hk1 hp hk2).2 hst
    obtain ⟨h1, h2⟩ := hs hz
    unfold copiado at hadd
    dsimp only at hadd
    rw [esp_do_filho stack h1 h2 hfim] at hadd
    generalize hesp : stack + ((s.procs s.proc_atual_ptr).esp -
      (s.procs s.proc_atual_ptr).stack) = esp at hadd
    -- The copy and the return value are in the new stack.
    obtain ⟨ds, size, g, hsize, hused⟩ := hpilha (putWord
      (copia_stack heap2.mem (s.procs s.proc_atual_ptr).stack stack) (esp + 4 * 7) 0) fun x hx => by
        rw [putWord_ne _ _ (by omega), copia_stack_ne _ _ _ hx]
    obtain ⟨g1, g2, hlink, hself, hout⟩ := fila_nova_ficha hadd hl hp (fun hm => hnew (hlv _ hm))
      (length_lt_voltas hi hlv hl.nodup) rfl rfl rfl
    obtain ⟨e1, e2, e3⟩ := ficha_campos hself
    refine ⟨filho, @Nasceu.um _ _ _ _ _ _ size ds hp hnew g2 hlink hout ⟨e1, ?_⟩ ?_ hsize ?_⟩
    · rw [e2]
      rfl
    · rw [e3, g1]
      exact g
    · rw [e3]
      exact hused

/-- The processes of the list keep all but their links. -/
theorem Nasceu.sem_elo (h : Nasceu vivos l bs s s' p) (hlv : ∀ q ∈ l, q ∈ vivos) {q : Nat}
    (hq : q ∈ l) : Proc.sem_elo (s'.procs q) = Proc.sem_elo (s.procs q) := by
  cases h with
  | nenhum hpid hprocs hfila hheap => rw [hprocs]
  | um hp hnew hpid hlink hout => exact hout q fun he => hnew (he ▸ hlv q hq)

end Nasce

/-! ## Runs -/

/-- The stacks of the processes are among the live pointers. The kernel has none. -/
def Maquina.ComPilhas (e e' : Maquina) : Prop :=
  ∀ p ∈ e.criados.tail, (e.sis.procs p).stack ∈ e'.vivos

/-- One step of the processes or of the rest of the kernel, which frees no stack. -/
inductive Avanca : Maquina → Maquina → Prop
  | passo {e e' : Maquina} : Passo e e' → e.ComPilhas e' → Avanca e e'
  | proc_fork {e : Maquina} {r : Int} {s' : Sistema} {l : List Nat} : (e.stack ≠ 0 → e.NaPilha) →
      Proc.proc_fork e.sis = some (r, s') → Linked 0 (elo s'.procs) s'.fila_pronto l →
      Avanca e (e.bifurca l s')
  | proc_exec {e : Maquina} {entrada : Nat} :
      Avanca e { e with sis := (Proc.proc_exec e.sis entrada).2 }

/-- The states of every run from `proc_init` on in which the kernel has got its control block. -/
inductive Vida : Maquina → Prop
  | inicio {heap : Kheap.Heap} {vivos : List Nat} {procs : Nat → Processo} {lixo : Processo}
      {s s' : Sistema} :
      Kheap.Alcanca ⟨heap, vivos⟩ → proc_init ⟨heap, procs, 0, 0, 1, 0, 0⟩ lixo = some s →
      s.fila_pronto ≠ 0 → sched_init s = some s' →
      Vida ⟨s', s.fila_pronto :: vivos, [s.fila_pronto], fun _ => 0, fun _ => none⟩
  | avanca {e e' : Maquina} : Vida e → Avanca e e' → Vida e'

/-- Each of the processes has a stack of the full size among the blocks in use. -/
def Maquina.Pilhas (e : Maquina) (l : List Nat) (bs : List Block) : Prop :=
  ∀ p ∈ l, ∃ n, STACK_SIZE ≤ n ∧
    ((e.sis.procs p).stack, n) ∈ used Kheap.CABECALHO Kheap.HEAP_INICIO bs

/-- The kernel and, after it, the processes with a stack each, all numbered in their order. -/
structure Tabela (e : Maquina) : Prop where
  ordem : Ordem e
  atual : e.atual ≠ 0
  kernel : ∃ k l, e.criados = k :: l ∧ (e.sis.procs k).stack = 0
  pilhas : ∃ bs, Kheap.Inteiro ⟨e.sis.heap, e.vivos⟩ bs ∧ e.Pilhas e.criados.tail bs
  uma_cada : (e.criados.tail.map fun p => (e.sis.procs p).stack).Nodup
  pids : e.criados.map (fun p => (e.sis.procs p).pid) =
    (List.range e.criados.length).map UInt32.ofNat
  ids : ∀ p ∈ e.criados, (e.sis.procs p).id.pid = (e.sis.procs p).pid
  prox_pid : e.sis.prox_pid = UInt32.ofNat e.criados.length

section Vidas

variable {e e' : Maquina} {bs cs : List Block} {p q : Nat}

/-- The table after a step that makes no process. -/
theorem Tabela.mantem (h : Tabela e) (ho : Ordem e') (ha : e'.atual ≠ 0) (hcriados : e'.criados = e.criados)
    (hpid : e'.sis.prox_pid = e.sis.prox_pid)
    (hficha : ∀ q, ficha (e'.sis.procs q) = ficha (e.sis.procs q))
    (hpilhas : ∃ cs, Kheap.Inteiro ⟨e'.sis.heap, e'.vivos⟩ cs ∧ e.Pilhas e.criados.tail cs) :
    Tabela e' := by
  have hp := fun q => (ficha_campos (hficha q)).1
  have hid := fun q => (ficha_campos (hficha q)).2.1
  have hst := fun q => (ficha_campos (hficha q)).2.2
  obtain ⟨k, l, hk, hk0⟩ := h.kernel
  obtain ⟨cs, hi, hcs⟩ := hpilhas
  refine ⟨ho, ha, ⟨k, l, hcriados.trans hk, (hst k).trans hk0⟩, ⟨cs, hi, fun p hpm => ?_⟩, ?_, ?_,
    fun p hpm => ?_, ?_⟩
  · rw [hst]
    rw [hcriados] at hpm
    exact hcs p hpm
  · rw [hcriados]
    simp only [hst]
    exact h.uma_cada
  · rw [hcriados]
    simp only [hp]
    exact h.pids
  · rw [hid, hp]
    exact h.ids p (hcriados ▸ hpm)
  · rw [hpid, hcriados]
    exact h.prox_pid

/-- The table after a birth. -/
theorem Tabela.nasce (h : Tabela e) (ho : Ordem e') (ha : e'.atual ≠ 0) (hi : Kheap.Inteiro ⟨e.sis.heap, e.vivos⟩ bs)
    (hbs : e.Pilhas e.criados.tail bs) (hn : Nasceu e.vivos e.criados bs e.sis e'.sis p)
    (hnada : p = 0 → e'.criados = e.criados ∧ e'.vivos = e.vivos)
    (huma : p ≠ 0 → e'.criados = e.criados ++ [p] ∧
      e'.vivos = (e'.sis.procs p).stack :: p :: e.vivos) : Tabela e' := by
  cases hn with
  | nenhum hpid hprocs hfila hheap =>
    obtain ⟨hc, hv⟩ := hnada rfl
    refine h.mantem ho ha hc hpid (fun q => by rw [hprocs]) ⟨_, hv ▸ hheap.inteiro, fun q hq => ?_⟩
    obtain ⟨n, hn, hmem⟩ := hbs q hq
    exact ⟨n, hn, hheap.usados _ hmem⟩
  | @um _ n cs hp hnew hpid hlink hout hproc hheap hn hstack =>
    obtain ⟨hc, hv⟩ := huma hp
    obtain ⟨k, l, hk, hk0⟩ := h.kernel
    have hne : ∀ q ∈ e.criados, q ≠ p := fun q hq he => hnew (he ▸ h.ordem.vivos q hq)
    have hold := fun q hq => ficha_campos (de_sem_elo (fun _ => rfl) (hout q (hne q hq)))
    have htail : e'.criados.tail = e.criados.tail ++ [p] := by
      rw [hc, hk]
      rfl
    have hantigas : (e.criados.tail.map fun q => (e'.sis.procs q).stack) =
        e.criados.tail.map fun q => (e.sis.procs q).stack :=
      List.map_congr_left fun q hq => (hold q (List.mem_of_mem_tail hq)).2.2
    have hpids : (e.criados.map fun q => (e'.sis.procs q).pid) =
        e.criados.map fun q => (e.sis.procs q).pid := List.map_congr_left fun q hq => (hold q hq).1
    refine ⟨ho, ha, ⟨k, l ++ [p], ?_, ?_⟩, ⟨cs, hv ▸ hheap.inteiro, fun q hq => ?_⟩, ?_, ?_,
      fun q hq => ?_, ?_⟩
    · rw [hc, hk]
      rfl
    · rw [(hold k (hk ▸ List.mem_cons_self)).2.2]
      exact hk0
    · rw [htail] at hq
      rcases List.mem_append.mp hq with hq | hq
      · obtain ⟨m, hm, hmem⟩ := hbs q hq
        rw [(hold q (List.mem_of_mem_tail hq)).2.2]
        exact ⟨m, hm, hheap.usados _ hmem⟩
      · rw [List.mem_singleton.mp hq]
        exact ⟨n, hn, hstack⟩
    · rw [htail, List.map_append, hantigas]
      refine List.nodup_append.mpr ⟨h.uma_cada, List.nodup_singleton _, fun x hx y hy hxy => ?_⟩
      obtain ⟨q, hq, rfl⟩ := List.mem_map.mp hx
      obtain ⟨m, -, hmem⟩ := hbs q hq
      have hvivo := (hi.vivos_iff _).mpr ⟨m, hmem⟩
      have hnodup := (List.nodup_cons.mp hheap.inteiro.vivos_nodup).1
      rw [hxy, List.mem_singleton.mp hy] at hvivo
      exact hnodup (List.mem_cons_of_mem _ hvivo)
    · rw [hc, List.map_append, hpids, h.pids, List.length_append, List.length_singleton,
        List.range_succ, List.map_append, List.map_singleton, List.map_singleton, hproc.1,
        h.prox_pid]
    · rw [hc] at hq
      rcases List.mem_append.mp hq with hq | hq
      · rw [(hold q hq).1, (hold q hq).2.1]
        exact h.ids q hq
      · rw [List.mem_singleton.mp hq, hproc.1, hproc.2]
    · rw [hpid, h.prox_pid, hc, List.length_append, List.length_singleton, UInt32.ofNat_add]
      rfl

/-- The kernel after `proc_init` and `sched_init`. -/
theorem tabela_inicio {heap : Kheap.Heap} {vivos : List Nat} {procs : Nat → Processo} {lixo : Processo}
    {s s' : Sistema} (hheap : Kheap.Alcanca ⟨heap, vivos⟩)
    (hinit : proc_init ⟨heap, procs, 0, 0, 1, 0, 0⟩ lixo = some s) (h0 : s.fila_pronto ≠ 0)
    (hsched : sched_init s = some s') :
    Tabela ⟨s', s.fila_pronto :: vivos, [s.fila_pronto], fun _ => 0, fun _ => none⟩ := by
  obtain ⟨s1, hp, ho⟩ := ordem_proc_init hheap procs lixo
  obtain rfl := Option.some.inj (hp.symm.trans hinit)
  rw [if_neg h0, if_neg h0] at ho
  obtain ⟨s2, hs, ho⟩ := ho.sched_init
  obtain rfl := Option.some.inj (hs.symm.trans hsched)
  obtain ⟨procs', hrec, rfl⟩ := Option.map_eq_some_iff.mp hsched
  have hficha := fun q => ficha_campos (recalcular_campo (f := ficha) (fun _ _ => rfl) hrec q)
  obtain ⟨⟨k, heap1⟩, -, hk⟩ := Option.map_eq_some_iff.mp hinit
  dsimp only at hk
  by_cases hk0 : k = 0
  · rw [if_pos hk0] at hk
    obtain rfl := hk
    exact absurd rfl h0
  rw [if_neg hk0] at hk
  obtain rfl := hk
  dsimp only at hficha ho ⊢
  obtain ⟨h1, h2, h3⟩ := hficha k
  unfold por at h1 h2 h3
  rw [Function.update_self] at h1 h2 h3
  obtain ⟨bs, hi⟩ := ho.heap
  refine ⟨ho, hk0, ⟨k, [], rfl, h3⟩, ⟨bs, hi, fun p hp => absurd hp List.not_mem_nil⟩, List.nodup_nil,
    ?_, fun p hp => ?_, rfl⟩
  · exact congrArg (fun x => [x]) h1
  · obtain rfl := List.mem_singleton.mp hp
    exact (congrArg Identidade.pid h2).trans h1.symm

theorem Tabela.pilhas_vivas (h : Tabela e) : ∀ p ∈ e.criados.tail, (e.sis.procs p).stack ∈ e.vivos := by
  obtain ⟨bs, hi, hbs⟩ := h.pilhas
  intro p hp
  obtain ⟨n, -, hmem⟩ := hbs p hp
  exact (hi.vivos_iff _).mpr ⟨n, hmem⟩

/-- The current process has its stack among the blocks in use. -/
theorem Tabela.comPilha (h : Tabela e) (hs : e.stack ≠ 0) : e.ComPilha := by
  obtain ⟨k, l, hk, hk0⟩ := h.kernel
  obtain ⟨bs, hi, hbs⟩ := h.pilhas
  have hmem := (h.ordem.atual h.atual).1
  rw [hk] at hmem hbs
  rcases List.mem_cons.mp hmem with he | hmem
  · refine absurd ?_ hs
    unfold Maquina.stack
    rw [he]
    exact hk0
  · obtain ⟨n, hn, hu⟩ := hbs _ hmem
    refine ⟨(hi.vivos_iff _).mpr ⟨n, hu⟩, ?_⟩
    unfold Maquina.stack
    rw [hi.carga_eq hu]
    exact hn

/-- A tick finds a process to go on with. -/
theorem Ordem.tick_atual (h : Ordem e) (h0 : e.atual ≠ 0) {esp r : Nat} {s' : Sistema}
    (ht : sched_tick e.sis esp = some (r, s')) : s'.proc_atual_ptr ≠ 0 := by
  obtain ⟨r1, s1, ht1, -, -, -, -, hcases⟩ :=
    sched_tick_cases h.fila h.length_lt (h.atual h0).1 (h.nao_pronto h0) esp
  obtain ⟨rfl, rfl⟩ := Prod.mk.inj (Option.some.inj (ht1.symm.trans ht))
  rcases hcases with ⟨ha, -⟩ | ⟨ha, -⟩
  · exact ha.trans_ne h0
  · exact h.fila.ne_null _ ha

theorem Tabela.passo (h : Tabela e) (hp : Passo e e') (hc : e.ComPilhas e') : Tabela e' := by
  have ho := (h.ordem.passo hp).1
  obtain ⟨bs, hi, hbs⟩ := h.pilhas
  cases hp with
  | @proc_criar lixo entrada prioridade p s' hcriar =>
    have hn := proc_criar_nasceu hi h.ordem.fila h.ordem.vivos hcriar
    rw [← nasce_sis e p s'] at hn
    have ha : (e.nasce p s').sis.proc_atual_ptr ≠ 0 := by
      rw [nasce_sis, (proc_criar_turno hcriar).1]
      exact h.atual
    refine h.nasce ho ha hi hbs hn (fun hp => ?_) fun hp => ?_
    · unfold Maquina.nasce
      rw [if_pos hp]
      exact ⟨rfl, rfl⟩
    · unfold Maquina.nasce
      rw [if_neg hp]
      exact ⟨rfl, rfl⟩
  | proc_encerrar =>
    have hsis : (proc_encerrar e.sis).heap = e.sis.heap ∧
        (proc_encerrar e.sis).prox_pid = e.sis.prox_pid := by
      unfold proc_encerrar
      split <;> exact ⟨rfl, rfl⟩
    have ha := (proc_encerrar_turno e.sis).1.trans_ne h.atual
    refine h.mantem ho ha rfl hsis.2 (proc_encerrar_campo (fun _ _ => rfl) e.sis) ⟨bs, ?_, hbs⟩
    dsimp only
    rw [hsis.1]
    exact hi
  | @sched_tick esp r s' ht =>
    obtain ⟨hheap, hpid, -, hficha⟩ := sched_tick_campo (f := ficha) (fun _ _ => rfl)
      (fun _ _ => rfl) (fun _ _ => rfl) ht
    have ha : s'.proc_atual_ptr ≠ 0 := h.ordem.tick_atual h.atual ht
    exact h.mantem ho ha rfl hpid hficha ⟨bs, hheap ▸ hi, hbs⟩
  | heap hpasso hvivos =>
    obtain ⟨cs, hi', hus⟩ := hi.passo_usados hpasso
    refine h.mantem ho h.atual rfl rfl (fun _ => rfl) ⟨cs, hi', fun p hp => ?_⟩
    obtain ⟨n, hn, hmem⟩ := hbs p hp
    exact ⟨n, hn, hus _ hmem (hc p hp)⟩

theorem Tabela.fork (h : Tabela e) (hs : e.stack ≠ 0 → e.NaPilha) {r : Int} {s' : Sistema}
    {l : List Nat} (hf : proc_fork e.sis = some (r, s'))
    (hl : Linked 0 (elo s'.procs) s'.fila_pronto l) : Tabela (e.bifurca l s') := by
  have ho := h.ordem.fork hs hf hl
  obtain ⟨bs, hi, hbs⟩ := h.pilhas
  obtain ⟨p, hn⟩ := proc_fork_nasceu hi h.ordem.fila h.ordem.vivos hs hf
  have hsis : (e.bifurca l s').sis = s' := by
    unfold Maquina.bifurca
    split <;> rfl
  have hdrop : l.drop e.criados.length = if p = 0 then [] else [p] := by
    cases hn with
    | nenhum hpid hprocs hfila hheap =>
      rw [hprocs, hfila] at hl
      rw [hl.unique h.ordem.fila, List.drop_length]
      rfl
    | um hp hnew hpid hlink =>
      rw [hl.unique hlink, List.drop_left, if_neg hp]
  have ha : s'.proc_atual_ptr ≠ 0 := by
    obtain ⟨r1, s1, hf1, hatual, -⟩ := proc_fork_cases hi h.ordem.fila h.ordem.vivos hs
    obtain ⟨-, rfl⟩ := Prod.mk.inj (Option.some.inj (hf1.symm.trans hf))
    exact hatual.trans_ne h.atual
  rw [← hsis] at hn ha
  refine h.nasce ho ha hi hbs hn (fun hp => ?_) fun hp => ?_
  · rw [if_pos hp] at hdrop
    unfold Maquina.bifurca
    rw [hdrop]
    exact ⟨rfl, rfl⟩
  · rw [if_neg hp] at hdrop
    unfold Maquina.bifurca
    rw [hdrop]
    exact ⟨rfl, rfl⟩

theorem Tabela.exec (h : Tabela e) (entrada : Nat) :
    Tabela { e with sis := (proc_exec e.sis entrada).2 } := by
  have ho := h.ordem.exec h.comPilha entrada
  obtain ⟨m, topo, hexec, -, -, hfora⟩ := proc_exec_eq h.atual entrada
  have hficha : ∀ q, ficha ((proc_exec e.sis entrada).2.procs q) = ficha (e.sis.procs q) := by
    rw [hexec]
    intro q
    have hv : ficha { e.sis.procs e.sis.proc_atual_ptr with esp := topo, eip := entrada } =
      ficha (e.sis.procs e.sis.proc_atual_ptr) := rfl
    exact campo_por hv q
  obtain ⟨bs, hi, hbs⟩ := h.pilhas
  have hheap := quadro_na_pilha hi h.comPilha hfora
  rw [hexec] at hficha ho ⊢
  exact h.mantem ho h.atual rfl rfl hficha ⟨bs, hheap, hbs⟩

theorem Tabela.avanca (h : Tabela e) (ha : Avanca e e') : Tabela e' := by
  cases ha with
  | passo hp hc => exact h.passo hp hc
  | proc_fork hs hf hl => exact h.fork hs hf hl
  | proc_exec => exact h.exec _

theorem Vida.tabela (h : Vida e) : Tabela e := by
  induction h with
  | inicio hheap hinit h0 hsched => exact tabela_inicio hheap hinit h0 hsched
  | avanca _ ha ih => exact ih.avanca ha

/-! ## The law -/

theorem volta_eq (procs : Nat → Processo) (fila : Nat) :
    volta procs fila = around 0 (elo procs) fila := by
  funext p
  unfold volta around elo
  by_cases hp : p = 0
  · rw [if_neg (not_not.mpr hp), if_pos (Or.inl hp), if_pos hp]
  · simp only [ne_eq, hp, not_false_eq_true, if_true, false_or]

theorem olhados_eq (procs : Nat → Processo) (fila n p : Nat) :
    olhados procs fila n p = List.iterate (around 0 (elo procs) fila) p n := by
  induction n generalizing p with
  | zero => rfl
  | succ n ih => rw [olhados, List.iterate, ih, volta_eq]

/-- The loop of `escolher_proximo` looks at all processes, from the one after the current one on. -/
theorem seguintes_ronda {s : Sistema} {u v : List Nat} (h0 : s.proc_atual_ptr ≠ 0)
    (h : Ring (around 0 (elo s.procs) s.fila_pronto) (u ++ s.proc_atual_ptr :: v))
    (hn : (u ++ s.proc_atual_ptr :: v).length ≤ MAX_PROCESSOS) :
    v ++ (u ++ [s.proc_atual_ptr]) <+: seguintes s := by
  have hc : (if (s.procs s.proc_atual_ptr).proximo = 0 then s.fila_pronto
      else (s.procs s.proc_atual_ptr).proximo) =
      around 0 (elo s.procs) s.fila_pronto s.proc_atual_ptr := by
    unfold around elo
    simp only [h0, false_or]
  unfold seguintes
  rw [hc, olhados_eq]
  exact h.walk hn

/-- There is room for the kernel and fifteen stacks. -/
theorem Tabela.cabem (h : Tabela e) : e.criados.length ≤ MAX_PROCESSOS := by
  obtain ⟨k, l, hk, -⟩ := h.kernel
  obtain ⟨bs, hi, hbs⟩ := h.pilhas
  have hpilhas : ∀ x ∈ (e.criados.tail.map fun p => (e.sis.procs p).stack), ∃ size,
      STACK_SIZE ≤ size ∧ (x, size) ∈ used Kheap.CABECALHO Kheap.HEAP_INICIO bs := fun x hx => by
    obtain ⟨p, hp, rfl⟩ := List.mem_map.mp hx
    exact hbs p hp
  have hmul := length_mul_le Kheap.CABECALHO h.uma_cada hpilhas
  have hfim := hi.ladrilha.ate_o_fim
  have h1 : Kheap.CABECALHO + STACK_SIZE = 16393 := rfl
  rw [List.length_map, hk, List.tail_cons, h1] at hmul
  rw [hk, List.length_cons]
  have h2 : Kheap.HEAP_FIM = 0x340000 := by decide
  have h3 : Kheap.HEAP_INICIO = 0x300000 := rfl
  have h4 : MAX_PROCESSOS = 16 := rfl
  omega

theorem Tabela.visto (h : Tabela e) (hp : p ∈ e.criados) : p ∈ seguintes e.sis := by
  obtain ⟨u, v, hl⟩ := List.append_of_mem (h.ordem.atual h.atual).1
  have hring := ring_around h.ordem.fila
  have hcabem := h.cabem
  rw [hl] at hring hcabem hp
  refine (seguintes_ronda h.atual hring hcabem).subset ?_
  rw [List.mem_append, List.mem_append, List.mem_singleton]
  rw [List.mem_append, List.mem_cons] at hp
  tauto

/-- What tells the processes apart. -/
structure Distintos (e : Maquina) : Prop where
  cabem : e.criados.length ≤ MAX_PROCESSOS
  pid : ∀ i p, e.criados[i]? = some p → (e.sis.procs p).pid.toNat = i
  identidade : ∀ p ∈ e.criados, ∀ q ∈ e.criados,
    identidade_verificar (e.sis.procs p).id (e.sis.procs q).pid → p = q
  pilhas : ∀ p ∈ e.criados, (e.sis.procs p).pid ≠ 0 → Kheap.HEAP_INICIO ≤ (e.sis.procs p).stack ∧
    (e.sis.procs p).stack + STACK_SIZE ≤ Kheap.HEAP_FIM ∧ ∀ q ∈ e.criados, (e.sis.procs q).pid ≠ 0 →
      p ≠ q → (e.sis.procs p).stack + STACK_SIZE ≤ (e.sis.procs q).stack ∨
        (e.sis.procs q).stack + STACK_SIZE ≤ (e.sis.procs p).stack
  vistos : ∀ p ∈ e.criados, p ∈ seguintes e.sis

theorem Tabela.pid (h : Tabela e) (i p : Nat) (hp : e.criados[i]? = some p) :
    (e.sis.procs p).pid.toNat = i := by
  have hlen := h.cabem
  have hi : i < e.criados.length := (List.getElem?_eq_some_iff.mp hp).1
  have hpids := congrArg (fun l => l[i]?) h.pids
  rw [List.getElem?_map, List.getElem?_map, hp, List.getElem?_range hi] at hpids
  have hpid : (e.sis.procs p).pid = UInt32.ofNat i := Option.some.inj hpids
  rw [hpid, UInt32.toNat_ofNat']
  have h4 : MAX_PROCESSOS = 16 := rfl
  omega

theorem Tabela.mesmo_pid (h : Tabela e) (hp : p ∈ e.criados) (hq : q ∈ e.criados)
    (he : (e.sis.procs p).pid = (e.sis.procs q).pid) : p = q := by
  obtain ⟨i, hi⟩ := List.mem_iff_getElem?.mp hp
  obtain ⟨j, hj⟩ := List.mem_iff_getElem?.mp hq
  have hij : i = j := by rw [← h.pid i p hi, ← h.pid j q hj, he]
  rw [hij, hj] at hi
  exact (Option.some.inj hi).symm

/-- A process that is not the kernel is one of those with a stack. -/
theorem Tabela.mem_tail (h : Tabela e) (hp : p ∈ e.criados) (h0 : (e.sis.procs p).pid ≠ 0) :
    p ∈ e.criados.tail := by
  obtain ⟨k, l, hk, -⟩ := h.kernel
  have hkernel := h.pid 0 k (by rw [hk]; rfl)
  rw [hk] at hp ⊢
  refine (List.mem_cons.mp hp).resolve_left fun he => h0 ?_
  rw [he]
  exact UInt32.toNat_inj.mp hkernel

/-- A kernel with one process, on an all-zero memory. -/
theorem vida_primeiro : ∃ e, Vida e ∧ e.criados = [0x300009, 0x30007E] := by
  have hfila : (proc_init sistema_zero processo_zero).map Sistema.fila_pronto = some 0x300009 := by
    decide +kernel
  have hcriar : ((proc_init sistema_zero processo_zero).bind sched_init).bind (fun s =>
      (proc_criar s processo_zero 0x1000 1).map Prod.fst) = some 0x30007E := by decide +kernel
  obtain ⟨s2, hs2, hcriar⟩ := Option.bind_eq_some_iff.mp hcriar
  obtain ⟨s1, hs1, hs2⟩ := Option.bind_eq_some_iff.mp hs2
  obtain ⟨⟨p, s3⟩, hs3, hp⟩ := Option.map_eq_some_iff.mp hcriar
  rw [hs1] at hfila
  have hf : s1.fila_pronto = 0x300009 := Option.some.inj hfila
  obtain rfl : p = 0x30007E := hp
  have h := Vida.inicio (.kheap_init _) hs1 (by rw [hf]; decide) hs2
  refine ⟨_, h.avanca (.passo (.proc_criar hs3) fun q hq => absurd hq List.not_mem_nil), ?_⟩
  unfold Maquina.nasce
  rw [if_neg (by decide), hf]
  rfl

end Vidas

end SpaceOS.Proc
