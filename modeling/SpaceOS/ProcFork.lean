-- The new process of `proc_fork`: where it comes to life, and on what stack.
import SpaceOS.SchedTurns

open Lib.Bytes Lib.LinkedList Lib.BlockList

namespace SpaceOS.Proc

/-! ## The copy -/

section Copia

variable {m : Memory} {stack stack_filho : Nat}

/-- The loop copies each byte, where the stacks do not overlap. -/
theorem copia_stack_eq (m : Memory) (h : stack + STACK_SIZE ≤ stack_filho ∨
    stack_filho + STACK_SIZE ≤ stack) {i : Nat} (hi : i < STACK_SIZE) :
    copia_stack m stack stack_filho (stack_filho + i) = m (stack + i) := by
  suffices hl : ∀ n, n ≤ STACK_SIZE → ∀ x, (List.range n).foldl
      (fun m i => putByte m (stack_filho + i) (m (stack + i))) m x =
        if stack_filho ≤ x ∧ x < stack_filho + n then m (stack + (x - stack_filho)) else m x by
    unfold copia_stack
    rw [hl STACK_SIZE le_rfl, if_pos ⟨Nat.le_add_right _ _, by omega⟩, Nat.add_sub_cancel_left]
  intro n
  induction n with
  | zero =>
    intro _ x
    exact (if_neg fun hx => by omega).symm
  | succ n ih =>
    intro hn x
    have ih := ih (by omega)
    rw [List.range_succ, List.foldl_append, List.foldl_cons, List.foldl_nil]
    rcases eq_or_ne x (stack_filho + n) with rfl | hx
    · rw [putByte_self, ih, if_neg (by omega), if_pos ⟨by omega, by omega⟩,
        Nat.add_sub_cancel_left]
    · rw [putByte_ne _ _ hx, ih]
      by_cases hc : stack_filho ≤ x ∧ x < stack_filho + n
      · rw [if_pos hc, if_pos ⟨hc.1, by omega⟩]
      · rw [if_neg hc, if_neg (by omega)]

end Copia

/-! ## The two blocks of the new process -/

section Blocos

variable {heap h1 h2 : Kheap.Heap} {vivos : List Nat} {bs : List Block} {p stack : Nat}

/-- The new stack lies apart from every block in use, and these keep their bytes. -/
theorem pilha_separada (hi : Kheap.Inteiro ⟨heap, vivos⟩ bs)
    (hk1 : Kheap.kmalloc heap SIZEOF_PROCESSO = some (p, h1)) (hp : p ≠ 0)
    (hk2 : Kheap.kmalloc h1 STACK_SIZE = some (stack, h2)) (hs : stack ≠ 0) :
    stack ∉ p :: vivos ∧ stack + STACK_SIZE ≤ Kheap.HEAP_FIM ∧
      ∀ y ∈ used Kheap.CABECALHO Kheap.HEAP_INICIO bs,
        (y.1 + y.2 ≤ stack ∨ stack + STACK_SIZE ≤ y.1) ∧
        ∀ x, y.1 ≤ x → x < y.1 + y.2 → h2.mem x = heap.mem x := by
  obtain ⟨p1, g1, bs1, hk1', hi1, -, hus1⟩ := hi.kmalloc_usados SIZEOF_PROCESSO
  obtain ⟨rfl, rfl⟩ := Prod.mk.inj (Option.some.inj (hk1'.symm.trans hk1))
  rw [if_neg hp] at hi1
  obtain ⟨p2, g2, bs2, hk2', hi2, hnew, hus2⟩ := hi1.kmalloc_usados STACK_SIZE
  obtain ⟨rfl, rfl⟩ := Prod.mk.inj (Option.some.inj (hk2'.symm.trans hk2))
  rw [if_neg hs] at hi2
  obtain ⟨hnovo, hcabe⟩ := hnew hs
  rw [show Kheap.alinhar STACK_SIZE = STACK_SIZE from by decide] at hcabe
  have hu := hi2.carga List.mem_cons_self
  have hfim := (used_bounds Kheap.CABECALHO hu).2
  rw [hi2.ladrilha.ate_o_fim] at hfim
  dsimp only at hfim hu
  refine ⟨hnovo, by omega, fun y hy => ?_⟩
  obtain ⟨hy1, hb1⟩ := hus1 y hy
  obtain ⟨hy2, hb2⟩ := hus2 y hy1
  have hne : y.1 ≠ p2 := fun he => hnovo (he ▸ (hi1.vivos_iff y.1).mpr ⟨y.2, hy1⟩)
  have hd := used_disjoint Kheap.CABECALHO hy2 hu hne
  dsimp only at hd
  exact ⟨by omega, fun x g1 g2 => (hb2 x g1 g2).trans (hb1 x g1 g2)⟩

end Blocos

/-! ## The law -/

/-- Process `p` is the twin of the current process of `e`, in the state after the fork: it comes back
where that one was at its last tick, on a copy of its stack of now that says that the call gave 0. -/
structure Gemeo (e : Maquina) (s' : Sistema) (p : Nat) : Prop where
  novo : p ∉ e.criados ∧ (s'.procs p).stack ∉ e.vivos
  pid : (s'.procs p).pid = e.sis.prox_pid
  igual : (s'.procs p).prioridade = (e.sis.procs e.atual).prioridade ∧
    (s'.procs p).creditos = (e.sis.procs e.atual).creditos
  copia : ∀ i < STACK_SIZE, (e.stack + i < (e.sis.procs e.atual).esp + 28 ∨
    (e.sis.procs e.atual).esp + 32 ≤ e.stack + i) →
      s'.heap.mem ((s'.procs p).stack + i) = e.sis.heap.mem (e.stack + i)
  retorno : word s'.heap.mem ((s'.procs p).stack + ((e.sis.procs e.atual).esp - e.stack) + 28) = 0
  pai : ∀ i < STACK_SIZE, s'.heap.mem (e.stack + i) = e.sis.heap.mem (e.stack + i)
  volta : ∀ esps r s'', retomada p esps s' = some (r, s'') →
    r = (s'.procs p).stack + ((e.sis.procs e.atual).esp - e.stack) ∧ s''.heap = s'.heap

section Fork

variable {e : Maquina} {n : Int} {s' : Sistema}

theorem toInt_of_le {x : UInt32} (h : x.toNat ≤ MAX_PROCESSOS) : x.toInt32.toInt = x.toNat := by
  have h16 : MAX_PROCESSOS = 16 := rfl
  have hlt : 2 * x.toBitVec.toNat < 2 ^ 32 := by
    change 2 * x.toNat < 2 ^ 32
    omega
  exact BitVec.toInt_eq_toNat_of_lt hlt

theorem Tabela.pilha_do_atual (h : Tabela e) (hs : e.stack ≠ 0) {bs : List Block}
    (hbs : e.Pilhas e.criados.tail bs) : ∃ size, STACK_SIZE ≤ size ∧
      (e.stack, size) ∈ used Kheap.CABECALHO Kheap.HEAP_INICIO bs := by
  obtain ⟨k, l, hk, hk0⟩ := h.kernel
  have hmem := (h.ordem.atual h.atual).1
  refine hbs e.atual ?_
  rw [hk] at hmem ⊢
  refine (List.mem_cons.mp hmem).resolve_left fun he => hs ?_
  unfold Maquina.stack
  rw [he]
  exact hk0

/-- The twin, out of the state in which it comes into the list. -/
theorem gemeo_of_copiado (h : Tabela e) (hs : e.stack ≠ 0) (hn : e.NaPilha) {filho stack : Nat}
    {heap1 heap2 : Kheap.Heap} (hk1 : Kheap.kmalloc e.sis.heap SIZEOF_PROCESSO = some (filho, heap1))
    (hp : filho ≠ 0) (hk2 : Kheap.kmalloc heap1 STACK_SIZE = some (stack, heap2)) (hst : stack ≠ 0)
    (hadd : fila_adicionar (copiado e.sis heap2 filho stack) filho = some s')
    (hnovo : filho ∉ e.vivos) (hvolta : Escalonavel s' (e.criados ++ [filho])) : Gemeo e s' filho := by
  obtain ⟨bs, hi, hbs⟩ := h.pilhas
  obtain ⟨size, hsize, hu⟩ := h.pilha_do_atual hs hbs
  obtain ⟨g1, g2⟩ := hn
  obtain ⟨hfora, hfim, hfica⟩ := pilha_separada hi hk1 hp hk2 hst
  obtain ⟨hd, hbytes⟩ := hfica _ hu
  obtain ⟨hheap, -, hatual, -, hcampos⟩ := fila_adicionar_campos hadd
  unfold Maquina.stack Maquina.atual at g1 g2 hd hbytes
  have hself := hcampos filho
  unfold copiado at hself hheap hatual
  dsimp only at hself hheap hatual hd hbytes
  rw [esp_do_filho stack g1 g2 hfim] at hself hheap
  generalize hesp : stack + ((e.sis.procs e.sis.proc_atual_ptr).esp -
    (e.sis.procs e.sis.proc_atual_ptr).stack) = esp at hself hheap
  unfold por at hself
  rw [Function.update_self] at hself
  have epid := de_sem_elo (f := Processo.pid) (fun _ => rfl) hself
  have estk := de_sem_elo (f := Processo.stack) (fun _ => rfl) hself
  have eesp := de_sem_elo (f := Processo.esp) (fun _ => rfl) hself
  have epri := de_sem_elo (f := Processo.prioridade) (fun _ => rfl) hself
  have ecre := de_sem_elo (f := Processo.creditos) (fun _ => rfl) hself
  dsimp only at epid estk eesp epri ecre
  have hk : STACK_SIZE = 16384 := rfl
  refine ⟨⟨fun hm => hnovo (h.ordem.vivos _ hm), ?_⟩, epid, ⟨epri, ecre⟩, fun i hlt hx => ?_, ?_,
    fun i hlt => ?_, fun esps r s'' hr => ?_⟩
  · rw [estk]
    exact fun hm => hfora (List.mem_cons_of_mem _ hm)
  · unfold Maquina.stack Maquina.atual at hx ⊢
    rw [estk, hheap]
    dsimp only
    rw [putWord_ne _ _ (by omega), copia_stack_eq _ (by omega) hlt]
    exact hbytes _ (by omega) (by omega)
  · unfold Maquina.stack Maquina.atual
    rw [estk, hesp, hheap]
    exact word_putWord_self _ _ _
  · unfold Maquina.stack Maquina.atual
    rw [hheap]
    dsimp only
    rw [putWord_ne _ _ (by omega), copia_stack_ne _ _ _ (by omega)]
    exact hbytes _ (by omega) (by omega)
  · unfold Maquina.stack Maquina.atual
    have hne : s'.proc_atual_ptr ≠ filho := by
      rw [hatual]
      exact fun he => hnovo (he ▸ h.ordem.vivos _ (h.ordem.atual h.atual).1)
    obtain ⟨hr1, hr2⟩ := hvolta.retomada_fora hne hr
    rw [estk, hesp]
    exact ⟨hr1.trans eesp, hr2⟩

end Fork

end SpaceOS.Proc
