-- The turns of the scheduler over whole runs: after how many ticks a ready process becomes the current
-- one, and when it never does.
import SpaceOS.ProcTable

open Lib.LinkedList Lib.Rounds

namespace SpaceOS.Proc

/-! ## What a tick leaves of the credits and the states -/

section Tick

variable {s s' : Sistema} {l : List Nat} {esp r : Nat}

/-- Without a recalculation no credits change. -/
theorem sched_tick_creditos (h : Linked 0 (elo s.procs) s.fila_pronto l) (hn : l.length < VOLTAS)
    (h0 : s.proc_atual_ptr ≠ 0) (hr : ¬ Recalcula s) (ht : sched_tick s esp = some (r, s')) (q : Nat) :
    (s'.procs q).creditos = (s.procs q).creditos := by
  have hsalva := (salva_campos s esp q).2.2.1
  by_cases hca : s.creditos_atuais - 1 > 0
  · rw [sched_tick_segue h0 hca] at ht
    obtain ⟨-, rfl⟩ := Prod.mk.inj (Option.some.inj ht)
    exact hsalva
  have hlink : Linked 0 (elo (salva s esp).procs) (salva s esp).fila_pronto l :=
    h.congr fun q _ => (salva_campos s esp q).1
  rcases escolher_proximo_turno hlink hn with ⟨l₁, c, l₂, -, hc, -, he⟩ | ⟨hno, -⟩
  · rw [sched_tick_escolhe h0 hca he, if_neg hc.1] at ht
    obtain rfl : (troca (salva s esp) s.proc_atual_ptr c).2 = s' :=
      congrArg Prod.snd (Option.some.inj ht)
    unfold troca
    dsimp only
    rw [(por_estado _ c q _).1]
    split
    · exact (por_estado _ _ q _).1.trans hsalva
    · exact hsalva
  · rw [seguintes_salva] at hno
    exact absurd ⟨⟨h0, by omega⟩, fun p hp hpe => hno p hp ((elegivel_salva s esp p).mpr hpe)⟩ hr

end Tick

/-! ## The wait of a process -/

/-- The processes that the loop looks at before `p`. -/
def antes (s : Sistema) (p : Nat) : List Nat := (seguintes s).takeWhile (· ≠ p)

/-- The credits of those among them that can have a turn. -/
def creditos_de_quem (s : Sistema) (l : List Nat) : Nat :=
  ((l.filter fun q => Elegivel s q).map fun q => (s.procs q).creditos.toNat).sum

/-- The ticks up to the one that makes `p` the current process: the rest of the turn that there is, and
the turns of those before `p`. -/
def espera (s : Sistema) (p : Nat) : Nat :=
  max 1 s.creditos_atuais + creditos_de_quem s (antes s p)

section Espera

variable {s s' : Sistema} {p q c : Nat} {l l' u v : List Nat}

theorem takeWhile_of_prefix (hp : p ∉ u) (h : u ++ p :: v <+: l) : l.takeWhile (· ≠ p) = u := by
  obtain ⟨w, rfl⟩ := h
  rw [List.append_assoc, List.takeWhile_append_of_pos]
  · simp
  · intro q hq
    exact decide_eq_true fun he => hp (he ▸ hq)

theorem creditos_de_quem_congr (he : ∀ q ∈ l, Elegivel s' q ↔ Elegivel s q)
    (hc : ∀ q ∈ l, (s'.procs q).creditos = (s.procs q).creditos) :
    creditos_de_quem s' l = creditos_de_quem s l := by
  unfold creditos_de_quem
  have hfilter : (l.filter fun q => Elegivel s' q) = l.filter fun q => Elegivel s q :=
    List.filter_congr fun q hq => decide_eq_decide.mpr (he q hq)
  rw [hfilter]
  refine congrArg List.sum (List.map_congr_left fun q hq => ?_)
  rw [hc q (List.mem_of_mem_filter hq)]

theorem creditos_de_quem_append (s : Sistema) (u v : List Nat) :
    creditos_de_quem s (u ++ v) = creditos_de_quem s u + creditos_de_quem s v := by
  unfold creditos_de_quem
  rw [List.filter_append, List.map_append, List.sum_append]

theorem creditos_de_ninguem (h : ∀ q ∈ u, ¬ Elegivel s q) : creditos_de_quem s u = 0 := by
  unfold creditos_de_quem
  rw [List.filter_eq_nil_iff.mpr fun q hq => by simpa using h q hq]
  rfl

theorem creditos_de_um (h : Elegivel s c) : creditos_de_quem s [c] = (s.procs c).creditos.toNat := by
  unfold creditos_de_quem
  rw [List.filter_cons_of_pos (by simpa using h)]
  simp

/-- The part of a list before `p`, cut at a key that comes first. -/
theorem split_before {a b l₁ l₂ : List Nat} (h : a ++ p :: b = l₁ ++ c :: l₂) (hc : c ≠ p)
    (hp : p ∉ l₁) : ∃ d, a = l₁ ++ c :: d := by
  rcases List.append_eq_append_iff.mp h with ⟨as, rfl, hr⟩ | ⟨bs, rfl, hr⟩
  · cases as with
    | nil => exact absurd (List.cons.inj hr).1.symm hc
    | cons x as => exact absurd (List.mem_append_right _ ((List.cons.inj hr).1 ▸ List.mem_cons_self)) hp
  · cases bs with
    | nil => exact absurd (List.cons.inj hr).1 hc
    | cons x bs => exact ⟨bs, by rw [(List.cons.inj hr).1]⟩

end Espera

section Turnos

variable {e e' : Maquina} {p : Nat}

/-- The ring from the process after the current one on, around another process `p`. -/
theorem Tabela.ronda (h : Tabela e) (hp : p ∈ e.criados) (hpa : p ≠ e.atual) : ∃ a b,
    Ring (around 0 (elo e.sis.procs) e.sis.fila_pronto) (a ++ p :: b) ∧ (a ++ p :: b).Nodup ∧
      (a ++ p :: b).length ≤ MAX_PROCESSOS ∧ e.atual ∈ b ∧ a ++ p :: b <+: seguintes e.sis := by
  obtain ⟨u, v, hl⟩ := List.append_of_mem (h.ordem.atual h.atual).1
  have hring := ring_around h.ordem.fila
  have hcabem := h.cabem
  have hnodup := h.ordem.fila.nodup
  rw [hl] at hring hcabem hnodup hp
  have hseg := seguintes_ronda h.atual hring hcabem
  rw [List.append_cons] at hring hcabem hnodup hp
  have hperm : (v ++ (u ++ [e.atual])).Perm (u ++ [e.atual] ++ v) := List.perm_append_comm
  have hrot := hring.rotate
  rw [← hperm.length_eq] at hcabem
  rw [← hperm.nodup_iff] at hnodup
  have hvu : p ∈ v ++ u := by
    simp only [List.mem_append, List.mem_singleton] at hp ⊢
    tauto
  obtain ⟨a, b, hab⟩ := List.append_of_mem hvu
  have hcut : v ++ (u ++ [e.atual]) = a ++ p :: (b ++ [e.atual]) := by
    rw [← List.append_assoc, hab, List.append_assoc, List.cons_append]
  unfold Maquina.atual at hcut hrot hcabem hnodup
  rw [hcut] at hrot hcabem hnodup hseg
  exact ⟨a, b ++ [e.atual], hrot, hnodup, hcabem,
    List.mem_append_right _ (List.mem_singleton.mpr rfl), hseg⟩

/-- One tick brings a process that can have a turn nearer to it, or gives it to it. -/
theorem Tabela.espera_tick (h : Tabela e) (hp : p ∈ e.criados) (he : Elegivel e.sis p) {esp r : Nat}
    {s' : Sistema} (ht : sched_tick e.sis esp = some (r, s')) :
    (espera e.sis p = 1 → s'.proc_atual_ptr = p) ∧
      (1 < espera e.sis p → Elegivel s' p ∧ espera s' p + 1 = espera e.sis p) := by
  have hlen := h.ordem.length_lt
  have hfila := h.ordem.fila
  obtain ⟨a, b, hring, hnodup, hcabem, hmem, hseg⟩ := h.ronda hp he.2.1
  have hpa : p ∉ a := fun hm => (List.disjoint_of_nodup_append hnodup) hm List.mem_cons_self
  have hantes : antes e.sis p = a := takeWhile_of_prefix hpa hseg
  have hcred := sched_tick_creditos hfila hlen h.atual
    (fun hr => hr.2 p (h.visto hp) he) ht
  obtain ⟨r1, s1, ht1, -, hf1, hprox, -, hcases⟩ := sched_tick_cases hfila hlen (h.ordem.atual h.atual).1
    (h.ordem.nao_pronto h.atual) esp
  obtain ⟨rfl, rfl⟩ := Prod.mk.inj (Option.some.inj (ht1.symm.trans ht))
  obtain ⟨hturno, -⟩ := sched_tick_turno hfila hlen h.atual ht
  cases hturno with
  | segue hf ha hc =>
    have hmais : ¬ e.sis.creditos_atuais ≤ 1 := fun hle => hf ⟨h.atual, hle⟩
    have hest : ∀ q, (s1.procs q).estado = (e.sis.procs q).estado := by
      rcases hcases with ⟨-, -, hest⟩ | ⟨-, hne, -⟩
      · exact hest
      · exact absurd ha hne
    have hel : ∀ q, Elegivel s1 q ↔ Elegivel e.sis q := fun q => by
      unfold Elegivel
      rw [ha, hest, hcred]
    have hseguintes : seguintes s1 = seguintes e.sis := by
      unfold seguintes
      rw [olhados_congr hprox, hf1, ha, hprox]
    have hantes' : antes s1 p = antes e.sis p := by
      unfold antes
      rw [hseguintes]
    unfold espera
    rw [hantes', creditos_de_quem_congr (fun q _ => hel q) fun q _ => hcred q, hc]
    refine ⟨fun h1 => by omega, fun _ => ⟨(hel p).mpr he, by omega⟩⟩
  | @passa l₁ l₂ c hf hl hec hno ha hc =>
    have hpl : p ∉ l₁ := fun hm => hno p hm he
    have h1 : max 1 e.sis.creditos_atuais = 1 := by
      have := hf.2
      omega
    rcases eq_or_ne c p with rfl | hcp
    · have hum : antes e.sis c = l₁ := takeWhile_of_prefix hpl ⟨[], (List.append_nil _).trans hl.symm⟩
      have hespera : espera e.sis c = 1 := by
        unfold espera
        rw [hum, h1, creditos_de_ninguem hno]
      exact ⟨fun _ => ha, fun hn => by omega⟩
    obtain ⟨w, hw⟩ := hseg
    rw [List.append_assoc, List.cons_append, hl] at hw
    obtain ⟨d, rfl⟩ := split_before hw hcp hpl
    rw [List.append_assoc, List.cons_append] at hring hnodup hcabem
    -- The ring from the new current process on.
    have hring' : Ring (around 0 (elo s1.procs) s1.fila_pronto)
        (l₁ ++ s1.proc_atual_ptr :: (d ++ p :: b)) := by
      rw [ha, hf1, show elo s1.procs = elo e.sis.procs from funext hprox]
      exact hring
    have hseg' := seguintes_ronda (ha.trans_ne hec.1) hring' (by rw [ha]; exact hcabem)
    have hnodup' := (List.nodup_append.mp hnodup).2.1
    have hpd : p ∉ d := fun hm => hpa (List.mem_append_right _ (List.mem_cons_of_mem _ hm))
    have hantes' : antes s1 p = d := by
      refine takeWhile_of_prefix (v := b ++ (l₁ ++ [s1.proc_atual_ptr])) hpd ?_
      rw [List.append_assoc, List.cons_append] at hseg'
      exact hseg'
    -- Those that are neither the old nor the new current process stay as they are.
    have hest : ∀ q, q ≠ e.atual → q ≠ c → (s1.procs q).estado = (e.sis.procs q).estado := by
      rcases hcases with ⟨hm, -⟩ | ⟨-, -, -, -, hest⟩
      · exact absurd (ha.symm.trans hm) hec.2.1
      · intro q hqa hqc
        rw [hest]
        exact estado_depois_outro _ hqa (ha.symm ▸ hqc)
    have hel : ∀ q, q ≠ e.atual → q ≠ c → (Elegivel s1 q ↔ Elegivel e.sis q) := fun q hqa hqc => by
      unfold Elegivel
      rw [ha, hest q hqa hqc, hcred]
      exact ⟨fun ⟨x, _, y⟩ => ⟨x, hqa, y⟩, fun ⟨x, _, y⟩ => ⟨x, hqc, y⟩⟩
    have hd : creditos_de_quem s1 d = creditos_de_quem e.sis d := by
      refine creditos_de_quem_congr (fun q hq => hel q (fun hqa => ?_) fun hqc => ?_) fun q _ => hcred q
      · have hdis := List.disjoint_of_nodup_append (List.nodup_cons.mp hnodup').2
        exact hdis hq (List.mem_cons_of_mem _ (hqa ▸ hmem))
      · exact (List.nodup_cons.mp hnodup').1 (List.mem_append_left _ (hqc ▸ hq))
    have hpos : 0 < (e.sis.procs c).creditos.toNat := UInt8.lt_iff_toNat_lt.mp hec.2.2.2
    have hantes_c : creditos_de_quem e.sis (l₁ ++ c :: d) =
        (e.sis.procs c).creditos.toNat + creditos_de_quem e.sis d := by
      rw [List.append_cons, creditos_de_quem_append, creditos_de_quem_append, creditos_de_ninguem hno,
        creditos_de_um hec, Nat.zero_add]
    have hespera : espera e.sis p = 1 + ((e.sis.procs c).creditos.toNat + creditos_de_quem e.sis d) := by
      unfold espera
      rw [hantes, h1, hantes_c]
    have hespera' : espera s1 p = (e.sis.procs c).creditos.toNat + creditos_de_quem e.sis d := by
      unfold espera
      rw [hantes', hd, hc]
      omega
    exact ⟨fun hn => by omega, fun _ => ⟨(hel p he.2.1 hcp.symm).mpr he, by omega⟩⟩
  | recalcula hr => exact absurd he (hr.2 p (h.visto hp))

/-- The runs without a new process, with the number of their ticks. -/
inductive Ticks (e : Maquina) : Nat → Maquina → Prop
  | nenhum : Ticks e 0 e
  | sched_tick {n : Nat} {e' : Maquina} {esp r : Nat} {s' : Sistema} : Ticks e n e' →
      Proc.sched_tick e'.sis esp = some (r, s') →
      Ticks e (n + 1) { e' with sis := s', ultimo := Function.update e'.ultimo e'.atual (some esp) }
  | proc_encerrar {n : Nat} {e' : Maquina} : Ticks e n e' →
      Ticks e n { e' with sis := Proc.proc_encerrar e'.sis }
  | proc_exec {n : Nat} {e' : Maquina} {entrada : Nat} : Ticks e n e' →
      Ticks e n { e' with sis := (Proc.proc_exec e'.sis entrada).2 }
  | heap {n : Nat} {e' : Maquina} {h' : Kheap.Estado} : Ticks e n e' →
      Kheap.Passo ⟨e'.sis.heap, e'.vivos⟩ h' → (∀ p ∈ e'.criados, p ∈ h'.vivos) →
      (∀ p ∈ e'.criados.tail, (e'.sis.procs p).stack ∈ h'.vivos) →
      Ticks e n { e' with sis := { e'.sis with heap := h'.heap }, vivos := h'.vivos }

/-- A call that changes no link, no credits and, but for the current process, no state. -/
structure Quieto (s s' : Sistema) : Prop where
  atual : s'.proc_atual_ptr = s.proc_atual_ptr
  fila : s'.fila_pronto = s.fila_pronto
  turno : s'.creditos_atuais = s.creditos_atuais
  proximo : ∀ q, (s'.procs q).proximo = (s.procs q).proximo
  creditos : ∀ q, (s'.procs q).creditos = (s.procs q).creditos
  estado : ∀ q, q ≠ s.proc_atual_ptr → (s'.procs q).estado = (s.procs q).estado

variable {s s' : Sistema}

theorem quieto_encerrar (s : Sistema) : Quieto s (proc_encerrar s) := by
  obtain ⟨h1, h2, -⟩ := proc_encerrar_turno s
  refine ⟨h1, ?_, h2, proc_encerrar_campo (fun _ _ => rfl) s, proc_encerrar_campo (fun _ _ => rfl) s,
    fun q hq => ?_⟩
  · unfold proc_encerrar
    split <;> rfl
  · unfold proc_encerrar
    split
    · rfl
    · exact congrArg Processo.estado (Function.update_of_ne hq _ _)

theorem quieto_exec (s : Sistema) (entrada : Nat) : Quieto s (proc_exec s entrada).2 := by
  by_cases h0 : s.proc_atual_ptr = 0
  · have hn : proc_exec s entrada = (-1, s) := if_pos h0
    rw [hn]
    exact ⟨rfl, rfl, rfl, fun _ => rfl, fun _ => rfl, fun _ _ => rfl⟩
  obtain ⟨m, topo, hexec, -⟩ := proc_exec_eq h0 entrada
  rw [hexec]
  refine ⟨rfl, rfl, rfl, fun q => ?_, fun q => ?_, fun q _ => ?_⟩
  · exact campo_por (f := Processo.proximo) (by rfl) q
  · exact campo_por (f := Processo.creditos) (by rfl) q
  · exact campo_por (f := Processo.estado) (by rfl) q

theorem Quieto.elegivel (h : Quieto s s') (q : Nat) : Elegivel s' q ↔ Elegivel s q := by
  unfold Elegivel
  rw [h.atual, h.creditos]
  constructor
  · rintro ⟨h1, h2, h3, h4⟩
    exact ⟨h1, h2, (h.estado q h2).symm.trans h3, h4⟩
  · rintro ⟨h1, h2, h3, h4⟩
    exact ⟨h1, h2, (h.estado q h2).trans h3, h4⟩

theorem Quieto.espera (h : Quieto s s') (p : Nat) : espera s' p = espera s p := by
  have hseguintes : seguintes s' = seguintes s := by
    unfold seguintes
    rw [olhados_congr h.proximo, h.fila, h.atual, h.proximo]
  unfold Proc.espera antes
  rw [hseguintes, h.turno, creditos_de_quem_congr (fun q _ => h.elegivel q) fun q _ => h.creditos q]

/-- A run without a new process is one of the runs. -/
theorem Ticks.vida {n : Nat} (h : Vida e) (ht : Ticks e n e') :
    Vida e' ∧ e'.criados = e.criados := by
  induction ht with
  | nenhum => exact ⟨h, rfl⟩
  | sched_tick _ ht ih =>
    exact ⟨ih.1.avanca (.passo (.sched_tick ht) ih.1.tabela.pilhas_vivas), ih.2⟩
  | proc_encerrar _ ih =>
    exact ⟨ih.1.avanca (.passo .proc_encerrar ih.1.tabela.pilhas_vivas), ih.2⟩
  | proc_exec _ ih => exact ⟨ih.1.avanca .proc_exec, ih.2⟩
  | heap _ hp hv hs ih => exact ⟨ih.1.avanca (.passo (.heap hp hv) hs), ih.2⟩

/-- The wait, tick by tick. -/
theorem Ticks.espera {n : Nat} {p : Nat} (h : Vida e) (hp : p ∈ e.criados) (he : Elegivel e.sis p)
    (ht : Ticks e n e') (hn : n < espera e.sis p) :
    Elegivel e'.sis p ∧ Proc.espera e'.sis p + n = Proc.espera e.sis p := by
  induction ht with
  | nenhum => exact ⟨he, rfl⟩
  | sched_tick hticks ht ih =>
    obtain ⟨hel, hesp⟩ := ih (by omega)
    obtain ⟨hv, hc⟩ := hticks.vida h
    obtain ⟨g1, g2⟩ := (hv.tabela.espera_tick (hc.symm ▸ hp) hel ht).2 (by omega)
    exact ⟨g1, by dsimp only; omega⟩
  | @proc_encerrar n e' _ ih =>
    obtain ⟨hel, hesp⟩ := ih hn
    have hq := quieto_encerrar e'.sis
    exact ⟨(hq.elegivel p).mpr hel, (congrArg (· + n) (hq.espera p)).trans hesp⟩
  | @proc_exec n e' entrada _ ih =>
    obtain ⟨hel, hesp⟩ := ih hn
    have hq := quieto_exec e'.sis entrada
    exact ⟨(hq.elegivel p).mpr hel, (congrArg (· + n) (hq.espera p)).trans hesp⟩
  | heap _ _ _ _ ih => exact ih hn

/-! ## The laws -/

/-- In every run, a ready process with credits becomes the current one with exactly the tick that
`espera` tells, as long as no process is made: not before, and then at once, whatever the processes
do and whichever of them end. -/
theorem a_ready_process_waits_its_turn (h : Vida e) {p : Nat} (hp : p ∈ e.criados)
    (hready : e.estado p = .PROC_READY) (hc : (e.sis.procs p).creditos > 0) {n : Nat}
    (ht : Ticks e n e') : (n < espera e.sis p → e'.atual ≠ p) ∧
      (n + 1 = espera e.sis p → ∀ esp, ∃ s', sched_tick e'.sis esp = some ((e'.sis.procs p).esp, s') ∧
        s'.proc_atual_ptr = p) := by
  have htab := h.tabela
  have he : Elegivel e.sis p := by
    refine ⟨htab.ordem.fila.ne_null p hp, ?_, hready, hc⟩
    rintro rfl
    exact htab.ordem.nao_pronto htab.atual hready
  refine ⟨fun hn hpa => (ht.espera h hp he hn).1.2.1 hpa.symm, fun hn esp => ?_⟩
  obtain ⟨hel, hesp⟩ := ht.espera h hp he (by omega)
  obtain ⟨hv, hcriados⟩ := ht.vida h
  have htab' := hv.tabela
  obtain ⟨r, s', htick, -, -, -, -, hcases⟩ := sched_tick_cases htab'.ordem.fila htab'.ordem.length_lt
    (htab'.ordem.atual htab'.atual).1 (htab'.ordem.nao_pronto htab'.atual) esp
  have hfim := (htab'.espera_tick (hcriados.symm ▸ hp) hel htick).1 (by omega)
  rcases hcases with ⟨hm, -⟩ | ⟨-, -, -, hr, -⟩
  · exact absurd (hfim.symm.trans hm) hel.2.1
  · rw [hfim] at hr
    exact ⟨s', hr ▸ htick, hfim⟩

/-! ## Starvation -/

/-- Two processes that live and have credits, and a ready one that has none. -/
structure Faminto (a b x : Nat) (e : Maquina) : Prop where
  criados : a ∈ e.criados ∧ b ∈ e.criados ∧ x ∈ e.criados
  vivos : e.estado a ≠ .PROC_MORTO ∧ e.estado b ≠ .PROC_MORTO
  creditos : (e.sis.procs a).creditos > 0 ∧ (e.sis.procs b).creditos > 0
  pronto : e.estado x = .PROC_READY
  sem_creditos : (e.sis.procs x).creditos = 0

/-- One step in which the two do not end. -/
def AvancaVivos (a b : Nat) (e e' : Maquina) : Prop :=
  Avanca e e' ∧ e'.estado a ≠ .PROC_MORTO ∧ e'.estado b ≠ .PROC_MORTO

section Fome

variable {e e' : Maquina} {a b x : Nat}

/-- One of the two can have the next turn. -/
theorem Faminto.nao_recalcula (h : Faminto a b x e) (ht : Tabela e) (hab : a ≠ b) :
    ¬ Recalcula e.sis := by
  have hel : ∀ q ∈ e.criados, q ≠ e.atual → e.estado q ≠ .PROC_MORTO →
      (e.sis.procs q).creditos > 0 → Elegivel e.sis q := fun q hq hqa hv hc =>
    ⟨ht.ordem.fila.ne_null q hq, hqa, (ht.ordem.outros q hq hqa).resolve_right hv, hc⟩
  intro hr
  obtain ⟨ha, hb, -⟩ := h.criados
  by_cases hca : a = e.atual
  · exact hr.2 b (ht.visto hb)
      (hel b hb (fun he => hab (hca.trans he.symm)) h.vivos.2 h.creditos.2)
  · exact hr.2 a (ht.visto ha) (hel a ha hca h.vivos.1 h.creditos.1)

theorem Faminto.nao_atual (h : Faminto a b x e) (ht : Tabela e) : x ≠ e.atual := by
  rintro rfl
  exact ht.ordem.nao_pronto ht.atual h.pronto

/-- The three keep what they have in a step that leaves their credits, and the state of the third. -/
theorem Faminto.mantem (h : Faminto a b x e) (hcriados : ∀ q ∈ e.criados, q ∈ e'.criados)
    (hvivos : e'.estado a ≠ .PROC_MORTO ∧ e'.estado b ≠ .PROC_MORTO)
    (hc : ∀ q ∈ e.criados, (e'.sis.procs q).creditos = (e.sis.procs q).creditos)
    (hx : e'.estado x = e.estado x) : Faminto a b x e' := by
  obtain ⟨ha, hb, hxm⟩ := h.criados
  refine ⟨⟨hcriados a ha, hcriados b hb, hcriados x hxm⟩, hvivos, ?_, hx.trans h.pronto,
    (hc x hxm).trans h.sem_creditos⟩
  rw [hc a ha, hc b hb]
  exact h.creditos

theorem Faminto.avanca (h : Faminto a b x e) (ht : Tabela e) (hab : a ≠ b)
    (ha : AvancaVivos a b e e') : Faminto a b x e' := by
  obtain ⟨ha, hvivos⟩ := ha
  have hx := h.nao_atual ht
  have hxm := h.criados.2.2
  have hfila := ht.ordem.fila
  obtain ⟨bs, hi, -⟩ := ht.pilhas
  have hnasceu : ∀ s' p, Nasceu e.vivos e.criados bs e.sis s' p → ∀ q ∈ e.criados,
      (s'.procs q).creditos = (e.sis.procs q).creditos ∧ (s'.procs q).estado = e.estado q := by
    intro s' p hn q hq
    have hsem := hn.sem_elo ht.ordem.vivos hq
    exact ⟨de_sem_elo (fun _ => rfl) hsem, de_sem_elo (f := Processo.estado) (fun _ => rfl) hsem⟩
  cases ha with
  | passo hp _ =>
    have hsub := (ht.ordem.passo hp).2.1
    cases hp with
    | @proc_criar lixo entrada prioridade p s' hcriar =>
      have hn := hnasceu s' p (proc_criar_nasceu hi hfila ht.ordem.vivos hcriar)
      rw [← nasce_sis e p s'] at hn
      exact h.mantem hsub hvivos (fun q hq => (hn q hq).1) (hn x hxm).2
    | proc_encerrar =>
      have hq := quieto_encerrar e.sis
      exact h.mantem hsub hvivos (fun q _ => hq.creditos q) (hq.estado x hx)
    | @sched_tick esp r s' htick =>
      have hcred := sched_tick_creditos hfila ht.ordem.length_lt ht.atual (h.nao_recalcula ht hab) htick
      refine h.mantem hsub hvivos (fun q _ => hcred q) ?_
      obtain ⟨r1, s1, ht1, -, -, -, -, hcases⟩ := sched_tick_cases hfila ht.ordem.length_lt
        (ht.ordem.atual ht.atual).1 (ht.ordem.nao_pronto ht.atual) esp
      obtain ⟨rfl, rfl⟩ := Prod.mk.inj (Option.some.inj (ht1.symm.trans htick))
      obtain ⟨hturno, -⟩ := sched_tick_turno hfila ht.ordem.length_lt ht.atual htick
      rcases hcases with ⟨-, -, hest⟩ | ⟨-, hne, -, -, hest⟩
      · exact hest x
      · refine (hest x).trans (estado_depois_outro _ hx fun hxc => ?_)
        -- The next process has credits.
        cases hturno with
        | segue hf ha hc => exact hne ha
        | passa hf hl he hn ha hc =>
          have hpos := he.2.2.2
          rw [← ha, ← hxc, h.sem_creditos] at hpos
          exact absurd hpos (by decide)
        | recalcula hr => exact h.nao_recalcula ht hab hr
    | heap _ _ => exact h.mantem hsub hvivos (fun _ _ => rfl) rfl
  | @proc_fork r s' l hs hf hl =>
    obtain ⟨p, hn⟩ := proc_fork_nasceu hi hfila ht.ordem.vivos hs hf
    have hn := hnasceu s' p hn
    have hsub : (e.bifurca l s').sis = s' ∧ ∀ q ∈ e.criados, q ∈ (e.bifurca l s').criados := by
      unfold Maquina.bifurca
      split
      · exact ⟨rfl, fun _ hq => hq⟩
      · exact ⟨rfl, fun _ hq => List.mem_append_left _ hq⟩
    rw [← hsub.1] at hn
    exact h.mantem hsub.2 hvivos (fun q hq => (hn q hq).1) (hn x hxm).2
  | @proc_exec entrada =>
    have hq := quieto_exec e.sis entrada
    exact h.mantem (fun _ hq => hq) hvivos (fun q _ => hq.creditos q) (hq.estado x hx)

/-- As long as two processes with credits live, a ready process without credits never becomes the
current one, however many ticks come. -/
theorem a_process_without_credits_starves (h : Vida e) (hf : Faminto a b x e) (hab : a ≠ b)
    (hr : Relation.ReflTransGen (AvancaVivos a b) e e') : e'.atual ≠ x := by
  suffices hall : Vida e' ∧ Faminto a b x e' from (hall.2.nao_atual hall.1.tabela).symm
  induction hr with
  | refl => exact ⟨h, hf⟩
  | tail _ hp ih => exact ⟨ih.1.avanca hp.1, ih.2.avanca ih.1.tabela hab hp⟩

/-- The kernel, a process that has had credits since the end of the first turn, and a new one, on an
all-zero memory. -/
def tres : Option (List Nat × Sistema) :=
  (proc_init sistema_zero processo_zero).bind fun s0 =>
    (sched_init s0).bind fun s =>
      (proc_criar s processo_zero 0x1000 1).bind fun r1 =>
        (sched_tick r1.2 5).bind fun t1 =>
          (sched_tick t1.2 5).bind fun t2 =>
            (proc_criar t2.2 processo_zero 0x2000 1).map fun r2 =>
              ([s0.fila_pronto, r1.1, r2.1], r2.2)

theorem nasce_criados {e : Maquina} {p : Nat} (hp : p ≠ 0) (s' : Sistema) :
    (e.nasce p s').criados = e.criados ++ [p] := by
  unfold Maquina.nasce
  rw [if_neg hp]

theorem vida_tres {l : List Nat} {s : Sistema} (h : tres = some (l, s)) (hl : ∀ p ∈ l, p ≠ 0) :
    ∃ e, Vida e ∧ e.criados = l ∧ e.sis = s := by
  obtain ⟨s0, h0, h⟩ := Option.bind_eq_some_iff.mp h
  obtain ⟨s1, h1, h⟩ := Option.bind_eq_some_iff.mp h
  obtain ⟨⟨p, s2⟩, h2, h⟩ := Option.bind_eq_some_iff.mp h
  obtain ⟨⟨r3, s3⟩, h3, h⟩ := Option.bind_eq_some_iff.mp h
  obtain ⟨⟨r4, s4⟩, h4, h⟩ := Option.bind_eq_some_iff.mp h
  obtain ⟨⟨q, s5⟩, h5, h⟩ := Option.map_eq_some_iff.mp h
  obtain ⟨rfl, rfl⟩ := Prod.mk.inj h
  obtain ⟨hk, hp, hq⟩ : s0.fila_pronto ≠ 0 ∧ p ≠ 0 ∧ q ≠ 0 := by simpa using hl
  have hum := (Vida.inicio (.kheap_init _) h0 hk h1).avanca
    (.passo (.proc_criar h2) fun _ hm => absurd hm List.not_mem_nil)
  rw [← nasce_sis _ p s2] at h3
  have hdois := hum.avanca (.passo (.sched_tick h3) hum.tabela.pilhas_vivas)
  have htres := hdois.avanca (.passo (.sched_tick h4) hdois.tabela.pilhas_vivas)
  refine ⟨_, htres.avanca (.passo (.proc_criar h5) fun x hx => ?_), ?_, nasce_sis _ q s5⟩
  · have hmem := htres.tabela.pilhas_vivas x hx
    unfold Maquina.nasce
    rw [if_neg hq]
    exact List.mem_cons_of_mem _ (List.mem_cons_of_mem _ hmem)
  · rw [nasce_criados hq]
    dsimp only
    rw [nasce_criados hp]
    rfl

/-- The kernel comes back after the two ticks of the process. -/
theorem the_kernel_waits_two_ticks : ∃ e p, Vida e ∧ espera e.sis p = 2 ∧ e.atual ≠ p ∧
    ∀ n e', Ticks e n e' → n + 1 = 2 → ∀ esp, ∃ r s', sched_tick e'.sis esp = some (r, s') ∧
      s'.proc_atual_ptr = p := by
  have hdados : (tres.map fun x => decide (x.1 = [0x300009, 0x30007E, 0x3040FC] ∧
      (x.2.procs 0x300009).estado = .PROC_READY ∧ (x.2.procs 0x300009).creditos > 0 ∧
      espera x.2 0x300009 = 2)) = some true := by
    decide +kernel
  obtain ⟨⟨l, s⟩, hs, hdados⟩ := Option.map_eq_some_iff.mp hdados
  obtain ⟨rfl, hready, hc, hespera⟩ := of_decide_eq_true hdados
  obtain ⟨e, he, hcriados, rfl⟩ := vida_tres hs (by decide)
  have hmem : 0x300009 ∈ e.criados := by
    rw [hcriados]
    exact List.mem_cons_self
  refine ⟨e, 0x300009, he, hespera,
    (a_ready_process_waits_its_turn he hmem hready hc .nenhum).1 (by rw [hespera]; decide),
    fun n e' ht hn esp => ?_⟩
  obtain ⟨s', hs', hp⟩ := (a_ready_process_waits_its_turn he hmem hready hc ht).2 (hn.trans hespera.symm) esp
  exact ⟨_, s', hs', hp⟩

/-- A process that is made after the first turn never has one, if the memory was zero. -/
theorem a_new_process_starves : ∃ e x, Vida e ∧ x ∈ e.criados ∧ e.estado x = .PROC_READY ∧
    ∀ e', Relation.ReflTransGen (AvancaVivos 0x300009 0x30007E) e e' → e'.atual ≠ x := by
  have hdados : (tres.map fun x => decide (x.1 = [0x300009, 0x30007E, 0x3040FC] ∧
      (x.2.procs 0x300009).estado ≠ .PROC_MORTO ∧ (x.2.procs 0x30007E).estado ≠ .PROC_MORTO ∧
      (x.2.procs 0x300009).creditos > 0 ∧ (x.2.procs 0x30007E).creditos > 0 ∧
      (x.2.procs 0x3040FC).estado = .PROC_READY ∧ (x.2.procs 0x3040FC).creditos = 0)) =
        some true := by
    decide +kernel
  obtain ⟨⟨l, s⟩, hs, hdados⟩ := Option.map_eq_some_iff.mp hdados
  obtain ⟨rfl, ha, hb, hca, hcb, hx, hcx⟩ := of_decide_eq_true hdados
  obtain ⟨e, he, hcriados, rfl⟩ := vida_tres hs (by decide)
  have hf : Faminto 0x300009 0x30007E 0x3040FC e := by
    refine ⟨?_, ⟨ha, hb⟩, ⟨hca, hcb⟩, hx, hcx⟩
    rw [hcriados]
    decide
  exact ⟨e, 0x3040FC, he, hf.criados.2.2, hx, fun e' hr =>
    a_process_without_credits_starves he hf (by decide) hr⟩

end Fome

end Turnos

end SpaceOS.Proc
