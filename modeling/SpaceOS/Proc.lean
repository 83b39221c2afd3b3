-- The processes and their scheduler (kernel/proc/processo.c, sched.c, identidade.c): control blocks
-- on the heap, linked in the order of their creation, and the switch at a tick of the timer.
import SpaceOS.Kheap
import SpaceOS.Lib.LinkedList

open Lib.Bytes Lib.LinkedList

namespace SpaceOS.Proc

/-- The field `estado`. -/
inductive EstadoProc where
  | PROC_RUNNING
  | PROC_READY
  | PROC_BLOCKED
  | PROC_MORTO
  deriving DecidableEq

def MAX_PROCESSOS : Nat := 16

def STACK_SIZE : Nat := 16 * 1024

/-- `sizeof(processo_t)`. -/
def SIZEOF_PROCESSO : Nat := 108

/-- The turns that a loop over the processes may take before it counts as endless. There are no more
pointers than that. -/
def VOLTAS : Nat := 2 ^ 32

structure Identidade where
  hash : UInt32
  pid : UInt32
  tick_nascimento : UInt32

/-- `processo_t`, without its name, its page directory and the registers that nothing writes. -/
structure Processo where
  pid : UInt32
  estado : EstadoProc
  prioridade : UInt8
  creditos : UInt8
  id : Identidade
  eip : Nat
  esp : Nat
  stack : Nat
  stack_size : Nat
  proximo : Nat

/-- The heap, the control block at each address, and the static variables of the two files. The lock
of the scheduler is free whenever a tick comes. -/
structure Sistema where
  heap : Kheap.Heap
  procs : Nat → Processo
  proc_atual_ptr : Nat
  fila_pronto : Nat
  prox_pid : UInt32
  ticks : UInt32
  creditos_atuais : Nat

/-- The control blocks with another one at address `p`. -/
def por (procs : Nat → Processo) (p : Nat) (v : Processo) : Nat → Processo :=
  Function.update procs p v

/-! ## identidade.c -/

/-- One byte of FNV-1a. -/
def fnv_byte (x h : UInt32) (i : Nat) : UInt32 :=
  (h ^^^ ((x >>> UInt32.ofNat (i * 8)) &&& 0xFF)) * 16777619

def hash_fnv (a b c : UInt32) : UInt32 :=
  let h := (List.range 4).foldl (fnv_byte a) 2166136261
  let h := (List.range 4).foldl (fnv_byte b) h
  (List.range 4).foldl (fnv_byte c) h

def identidade_gerar (pid tick stack_addr : UInt32) : Identidade :=
  ⟨hash_fnv pid tick stack_addr, pid, tick⟩

/-! ## processo.c

`none`: a loop does not end. `lixo` is what the memory of a new control block holds. -/

/-- The process at the end of the list. -/
def fila_adicionar (s : Sistema) (p : Nat) : Option Sistema :=
  let s := { s with procs := por s.procs p { s.procs p with proximo := 0 } }
  if s.fila_pronto = 0 then some { s with fila_pronto := p }
  else
    (search 0 (fun q => (s.procs q).proximo) (fun q => (s.procs q).proximo = 0) VOLTAS
      s.fila_pronto).map fun ultimo =>
        { s with procs := por s.procs ultimo { s.procs ultimo with proximo := p } }

def proc_init (s : Sistema) (lixo : Processo) : Option Sistema :=
  (Kheap.kmalloc s.heap SIZEOF_PROCESSO).map fun (kproc, heap) =>
    let s := { s with heap := heap }
    if kproc = 0 then s
    else
      { s with
        procs := por s.procs kproc { lixo with
          pid := 0, estado := .PROC_RUNNING, prioridade := 1, stack := 0, stack_size := 0,
          proximo := 0, id := identidade_gerar 0 s.ticks (UInt32.ofNat kproc) }
        proc_atual_ptr := kproc
        fila_pronto := kproc }

/-- `*--topo = v` for each of the values. -/
def empilha (m : Memory) (topo : Nat) : List Nat → Memory × Nat
  | [] => (m, topo)
  | v :: vs => empilha (putWord m (topo - 4) v) (topo - 4) vs

/-- EFLAGS, CS, EIP and the eight registers of the first frame. -/
def quadro (entrada : Nat) : List Nat := [0x00000202, 0x08, entrada, 0, 0, 0, 0, 0, 0, 0, 0]

/-- The process is 0 where there is no memory for it. -/
def proc_criar (s : Sistema) (lixo : Processo) (entrada : Nat) (prioridade : UInt8) :
    Option (Nat × Sistema) :=
  (Kheap.kmalloc s.heap SIZEOF_PROCESSO).bind fun (proc, heap) =>
    let s := { s with heap := heap }
    if proc = 0 then some (0, s)
    else
      (Kheap.kmalloc s.heap STACK_SIZE).bind fun (stack, heap) =>
        let s := { s with heap := heap }
        if stack = 0 then
          (Kheap.kfree s.heap proc).map fun heap => (0, { s with heap := heap })
        else
          let (m, topo) := empilha s.heap.mem (stack + STACK_SIZE) (quadro entrada)
          let s := { s with
            heap := { s.heap with mem := m }
            prox_pid := s.prox_pid + 1
            procs := por s.procs proc { lixo with
              pid := s.prox_pid, estado := .PROC_READY, prioridade := prioridade, stack := stack,
              stack_size := STACK_SIZE, proximo := 0, esp := topo, eip := entrada,
              id := identidade_gerar s.prox_pid s.ticks (UInt32.ofNat stack) } }
          (fila_adicionar s proc).map fun s => (proc, s)

/-- The process is dead, and from then on in an endless loop until a tick takes it away. -/
def proc_encerrar (s : Sistema) : Sistema :=
  if s.proc_atual_ptr = 0 then s
  else
    { s with
      procs := por s.procs s.proc_atual_ptr
        { s.procs s.proc_atual_ptr with estado := .PROC_MORTO } }

/-- The loop of `proc_fork` over the stack. -/
def copia_stack (m : Memory) (stack stack_filho : Nat) : Memory :=
  (List.range STACK_SIZE).foldl (fun m i => putByte m (stack_filho + i) (m (stack + i))) m

/-- The identifier of the new process, or -1. `stack_ptr[7]` is the EAX of its frame. -/
def proc_fork (s : Sistema) : Option (Int × Sistema) :=
  let pai := s.proc_atual_ptr
  if pai = 0 then some (-1, s)
  else if (s.procs pai).stack = 0 then some (-1, s)
  else
    (Kheap.kmalloc s.heap SIZEOF_PROCESSO).bind fun (filho, heap) =>
      let s := { s with heap := heap }
      if filho = 0 then some (-1, s)
      else
        (Kheap.kmalloc s.heap STACK_SIZE).bind fun (stack_filho, heap) =>
          let s := { s with heap := heap }
          if stack_filho = 0 then
            (Kheap.kfree s.heap filho).map fun heap => (-1, { s with heap := heap })
          else
            let m := copia_stack s.heap.mem (s.procs pai).stack stack_filho
            let offset := UInt32.ofNat (s.procs pai).esp - UInt32.ofNat (s.procs pai).stack
            let esp := (UInt32.ofNat stack_filho + offset).toNat
            let s := { s with
              heap := { s.heap with mem := putWord m (esp + 4 * 7) 0 }
              prox_pid := s.prox_pid + 1
              procs := por s.procs filho { s.procs pai with
                pid := s.prox_pid, estado := .PROC_READY, stack := stack_filho, proximo := 0,
                esp := esp, id := identidade_gerar s.prox_pid s.ticks (UInt32.ofNat stack_filho) } }
            (fila_adicionar s filho).map fun s => ((s.procs filho).pid.toInt32.toInt, s)

/-- The current process begins anew with `entrada`. -/
def proc_exec (s : Sistema) (entrada : Nat) : Int × Sistema :=
  let proc := s.proc_atual_ptr
  if proc = 0 then (-1, s)
  else
    let (m, topo) := empilha s.heap.mem ((s.procs proc).stack + STACK_SIZE) (quadro entrada)
    (0, { s with
      heap := { s.heap with mem := m }
      procs := por s.procs proc { s.procs proc with esp := topo, eip := entrada } })

/-! ## sched.c -/

def creditos_de (prioridade : UInt8) : UInt8 :=
  if prioridade = 2 then 3 else if prioridade = 1 then 2 else 1

/-- The loop from process `p` on. -/
def recalcular_creditos : Nat → (Nat → Processo) → Nat → Option (Nat → Processo)
  | 0, _, _ => none
  | n + 1, procs, p =>
    if p = 0 then some procs
    else
      let procs :=
        if (procs p).estado = .PROC_READY ∨ (procs p).estado = .PROC_RUNNING then
          por procs p { procs p with creditos := creditos_de (procs p).prioridade }
        else procs
      recalcular_creditos n procs (procs p).proximo

/-- The turns of the first loop: a ready process with credits, from `candidato` on and at the end of
the list from its start again. -/
def tentativas (procs : Nat → Processo) (fila atual : Nat) : Nat → Nat → Option Nat
  | 0, _ => none
  | n + 1, candidato =>
    if candidato ≠ 0 ∧ candidato ≠ atual ∧ (procs candidato).estado = .PROC_READY ∧
        (procs candidato).creditos > 0 then
      some candidato
    else
      let candidato := if candidato ≠ 0 then (procs candidato).proximo else candidato
      tentativas procs fila atual n (if candidato = 0 then fila else candidato)

/-- 0 where there is only the current process. -/
def escolher_proximo (s : Sistema) (atual : Nat) : Option (Nat × Sistema) :=
  let candidato := (s.procs atual).proximo
  let candidato := if candidato = 0 then s.fila_pronto else candidato
  match tentativas s.procs s.fila_pronto atual MAX_PROCESSOS candidato with
  | some candidato => some (candidato, s)
  | none =>
    (recalcular_creditos VOLTAS s.procs s.fila_pronto).bind fun procs =>
      (search 0 (fun q => (procs q).proximo)
        (fun q => (procs q).estado = .PROC_READY ∧ (procs q).creditos > 0) VOLTAS
        s.fila_pronto).map fun candidato => (candidato, { s with procs := procs })

/-- The end of `sched_tick`. -/
def troca (s : Sistema) (atual proximo : Nat) : Nat × Sistema :=
  let procs :=
    if (s.procs atual).estado = .PROC_RUNNING then
      por s.procs atual { s.procs atual with estado := .PROC_READY }
    else s.procs
  let procs := por procs proximo { procs proximo with estado := .PROC_RUNNING }
  ((procs proximo).esp,
    { s with
      procs := procs
      creditos_atuais := (procs proximo).creditos.toNat
      proc_atual_ptr := proximo })

/-- The ESP that the interrupt returns with. -/
def sched_tick (s : Sistema) (esp_atual : Nat) : Option (Nat × Sistema) :=
  let s := { s with ticks := s.ticks + 1 }
  let atual := s.proc_atual_ptr
  if atual = 0 then some (esp_atual, s)
  else
    let s := { s with
      procs := por s.procs atual { s.procs atual with esp := esp_atual }
      creditos_atuais := s.creditos_atuais - 1 }
    if s.creditos_atuais > 0 then some (esp_atual, s)
    else
      (escolher_proximo s atual).map fun (proximo, s) =>
        if proximo = 0 then (esp_atual, s) else troca s atual proximo

def sched_init (s : Sistema) : Option Sistema :=
  (recalcular_creditos VOLTAS s.procs s.fila_pronto).map fun procs =>
    { s with
      procs := procs
      creditos_atuais :=
        if s.proc_atual_ptr = 0 then s.creditos_atuais
        else (creditos_de (procs s.proc_atual_ptr).prioridade).toNat }

end SpaceOS.Proc
