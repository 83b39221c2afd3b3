-- The scheduler over runs of `proc_criar`, `proc_encerrar` and ticks of the timer: the list of the
-- processes, their states, and the ESP that a switch returns with.
import Mathlib.Data.List.Perm.Subperm
import Mathlib.Logic.Relation
import SpaceOS.KheapLaws
import SpaceOS.Proc

open Lib.Bytes Lib.LinkedList

namespace SpaceOS.Proc

/-! ## The list of the processes -/

section Fila

variable {procs procs' : Nat → Processo} {fila atual a p : Nat} {l : List Nat} {n : Nat}

/-- The link out of each control block. -/
def elo (procs : Nat → Processo) (p : Nat) : Nat := (procs p).proximo

/-- All but the credits is as before. -/
structure SoCreditos (procs procs' : Nat → Processo) : Prop where
  proximo : ∀ p, (procs' p).proximo = (procs p).proximo
  estado : ∀ p, (procs' p).estado = (procs p).estado
  esp : ∀ p, (procs' p).esp = (procs p).esp

theorem SoCreditos.refl (procs : Nat → Processo) : SoCreditos procs procs :=
  ⟨fun _ => rfl, fun _ => rfl, fun _ => rfl⟩

/-- The credits of all processes of the list that are ready or running. -/
def recalculados (procs : Nat → Processo) (l : List Nat) (p : Nat) : Processo :=
  if p ∈ l ∧ ((procs p).estado = .PROC_READY ∨ (procs p).estado = .PROC_RUNNING) then
    { procs p with creditos := creditos_de (procs p).prioridade }
  else procs p

theorem recalculados_campos (procs : Nat → Processo) (l : List Nat) (p : Nat) :
    (recalculados procs l p).proximo = (procs p).proximo ∧
      (recalculados procs l p).estado = (procs p).estado ∧
      (recalculados procs l p).prioridade = (procs p).prioridade := by
  unfold recalculados
  split <;> exact ⟨rfl, rfl, rfl⟩

/-- What one turn of the loop does. -/
theorem recalculados_um (procs : Nat → Processo) (a : Nat) :
    (if (procs a).estado = .PROC_READY ∨ (procs a).estado = .PROC_RUNNING then
      por procs a { procs a with creditos := creditos_de (procs a).prioridade } else procs) =
      recalculados procs [a] := by
  funext q
  unfold recalculados
  by_cases hc : (procs a).estado = .PROC_READY ∨ (procs a).estado = .PROC_RUNNING
  · rw [if_pos hc]
    rcases eq_or_ne q a with rfl | hq
    · rw [if_pos ⟨List.mem_singleton.mpr rfl, hc⟩]
      exact Function.update_self _ _ _
    · rw [if_neg fun hm => hq (List.mem_singleton.mp hm.1)]
      exact Function.update_of_ne hq _ _
  · rw [if_neg hc]
    refine (if_neg fun hm => hc ?_).symm
    rw [← List.mem_singleton.mp hm.1]
    exact hm.2

theorem recalculados_cons (procs : Nat → Processo) (h : a ∉ l) :
    recalculados (recalculados procs [a]) l = recalculados procs (a :: l) := by
  funext q
  rcases eq_or_ne q a with rfl | hq
  · unfold recalculados
    simp [h]
  · have hself : recalculados procs [a] q = procs q :=
      if_neg fun h => hq (List.mem_singleton.mp h.1)
    generalize recalculados procs [a] = procs1 at hself ⊢
    unfold recalculados
    rw [hself]
    simp only [List.mem_cons, hq, false_or]

theorem recalcular_creditos_eq (h : Linked 0 (elo procs) a l) (hn : l.length < n) :
    recalcular_creditos n procs a = some (recalculados procs l) := by
  induction l generalizing procs a n with
  | nil =>
    obtain ⟨n, rfl⟩ : ∃ m, n = m + 1 := ⟨n - 1, by omega⟩
    refine (if_pos h).trans (congrArg some (funext fun p => ?_))
    exact (if_neg fun hp => List.not_mem_nil hp.1).symm
  | cons p l ih =>
    rw [List.length_cons] at hn
    obtain ⟨n, rfl⟩ : ∃ m, n = m + 1 := ⟨n - 1, by omega⟩
    have hpl : p ∉ l := (List.nodup_cons.mp h.nodup).1
    obtain ⟨rfl, hp, h⟩ := h
    have hlink : Linked 0 (elo (recalculados procs [a])) (procs a).proximo l :=
      h.congr fun q _ => (recalculados_campos procs [a] q).1
    rw [recalcular_creditos, if_neg hp]
    dsimp only
    rw [recalculados_um, (recalculados_campos procs [a] a).1, ih hlink (by omega),
      recalculados_cons procs hpl]

/-- The loop ends, and writes credits only. -/
theorem recalcular_creditos_spec (h : Linked 0 (elo procs) a l) (hn : l.length < n) :
    ∃ procs', recalcular_creditos n procs a = some procs' ∧ SoCreditos procs procs' := by
  refine ⟨_, recalcular_creditos_eq h hn, ?_⟩
  constructor <;>
    · intro p
      unfold recalculados
      split <;> rfl

/-- What the first loop finds is ready and another process. -/
theorem tentativas_some (h : Linked 0 (elo procs) fila l) {c candidato : Nat}
    (hc : candidato = 0 ∨ candidato ∈ l)
    (ht : tentativas procs fila atual n candidato = some c) :
    c ∈ l ∧ c ≠ atual ∧ (procs c).estado = .PROC_READY := by
  induction n generalizing candidato with
  | zero => exact absurd ht (by simp [tentativas])
  | succ n ih =>
    rw [tentativas] at ht
    split at ht
    · rename_i hok
      obtain rfl := Option.some.inj ht
      exact ⟨hc.resolve_left hok.1, hok.2.1, hok.2.2.1⟩
    · have hfila : fila = 0 ∨ fila ∈ l := by
        rw [h.eq_first]
        cases l with
        | nil => exact Or.inl rfl
        | cons q l => exact Or.inr List.mem_cons_self
      have hprox : (if candidato ≠ 0 then (procs candidato).proximo else candidato) = 0 ∨
          (if candidato ≠ 0 then (procs candidato).proximo else candidato) ∈ l := by
        split
        · rename_i hne
          exact h.next_mem (hc.resolve_left hne)
        · exact hc
      dsimp only at ht
      generalize (if candidato ≠ 0 then (procs candidato).proximo else candidato) = q at hprox ht
      refine ih ?_ ht
      split
      · exact hfila
      · exact hprox

/-- `fila_adicionar` puts a new process at the end. -/
theorem fila_adicionar_spec {s : Sistema} (h : Linked 0 (elo s.procs) s.fila_pronto l) (hp : p ≠ 0)
    (hnew : p ∉ l) (hn : l.length < VOLTAS) :
    ∃ fila procs', fila_adicionar s p = some { s with fila_pronto := fila, procs := procs' } ∧
      Linked 0 (elo procs') fila (l ++ [p]) ∧
      ∀ q, (procs' q).estado = (s.procs q).estado ∧ (procs' q).esp = (s.procs q).esp ∧
        (procs' q).stack = (s.procs q).stack := by
  have hself : elo (por s.procs p { s.procs p with proximo := 0 }) p = 0 := by simp [elo, por]
  have hother : ∀ q, q ≠ p → elo (por s.procs p { s.procs p with proximo := 0 }) q = elo s.procs q :=
    fun q hq => by simp [elo, por, hq]
  have hlink := h.congr fun q hq => hother q fun he => hnew (he ▸ hq)
  have hcampos : ∀ (procs : Nat → Processo) (r x q : Nat),
      ((por procs r { procs r with proximo := x }) q).estado = (procs q).estado ∧
        ((por procs r { procs r with proximo := x }) q).esp = (procs q).esp ∧
        ((por procs r { procs r with proximo := x }) q).stack = (procs q).stack := by
    intro procs r x q
    unfold por
    rcases eq_or_ne q r with rfl | hq
    · rw [Function.update_self]
      exact ⟨rfl, rfl, rfl⟩
    · rw [Function.update_of_ne hq]
      exact ⟨rfl, rfl, rfl⟩
  have hum := hcampos s.procs p 0
  unfold fila_adicionar
  dsimp only
  generalize por s.procs p { s.procs p with proximo := 0 } = procs1 at *
  rcases List.eq_nil_or_concat l with rfl | ⟨l, z, rfl⟩
  · rw [if_pos (show s.fila_pronto = 0 from h)]
    exact ⟨p, procs1, rfl, ⟨rfl, hp, hself⟩, hum⟩
  · rw [List.concat_eq_append] at *
    have h0 : s.fila_pronto ≠ 0 := by
      rw [h.eq_first]
      refine h.ne_null _ ?_
      cases l <;> exact List.mem_cons_self
    have hsearch := hlink.search_last (n := VOLTAS) (by simp at hn; omega)
    unfold elo at hsearch
    rw [if_neg h0, hsearch]
    refine ⟨s.fila_pronto, _, rfl, ?_, fun q => ?_⟩
    · rw [List.append_assoc]
      have hzp : z ≠ p := fun he => hnew (by simp [he])
      have hnodup := hlink.nodup
      refine hlink.snoc hp (by simp [elo, por]) ?_ fun q hq => ?_
      · rw [← hself]
        simp [elo, por, hzp.symm]
      · have hqz : q ≠ z := fun he =>
          (List.disjoint_of_nodup_append hnodup) (he ▸ hq) List.mem_cons_self
        simp [elo, por, hqz]
    · obtain ⟨h1, h2, h3⟩ := hcampos procs1 z p q
      obtain ⟨g1, g2, g3⟩ := hum q
      exact ⟨h1.trans g1, h2.trans g2, h3.trans g3⟩

end Fila

/-! ## One tick -/

section Tick

variable {s s' : Sistema} {atual c esp : Nat} {l : List Nat}

/-- `escolher_proximo` returns another process that is ready, or 0. -/
theorem escolher_proximo_cases (h : Linked 0 (elo s.procs) s.fila_pronto l) (hn : l.length < VOLTAS)
    (ha : atual ∈ l) (hr : (s.procs atual).estado ≠ .PROC_READY) :
    ∃ c procs', escolher_proximo s atual = some (c, { s with procs := procs' }) ∧
      SoCreditos s.procs procs' ∧
      (c = 0 ∨ c ∈ l ∧ c ≠ atual ∧ (s.procs c).estado = .PROC_READY) := by
  have hfila : s.fila_pronto ∈ l := by
    rw [h.eq_first]
    cases l with
    | nil => exact absurd ha List.not_mem_nil
    | cons q l => exact List.mem_cons_self
  have hcand : (if (s.procs atual).proximo = 0 then s.fila_pronto else (s.procs atual).proximo) ∈ l := by
    split
    · exact hfila
    · rename_i hne
      exact (h.next_mem ha).resolve_left hne
  unfold escolher_proximo
  dsimp only
  cases ht : tentativas s.procs s.fila_pronto atual MAX_PROCESSOS
      (if (s.procs atual).proximo = 0 then s.fila_pronto else (s.procs atual).proximo) with
  | some c => exact ⟨c, s.procs, rfl, .refl _, Or.inr (tentativas_some h (Or.inr hcand) ht)⟩
  | none =>
    obtain ⟨procs', hrec, hso⟩ := recalcular_creditos_spec h hn
    have hlink : Linked 0 (elo procs') s.fila_pronto l := h.congr fun q _ => hso.proximo q
    have hbusca := hlink.search_eq (f := fun q => decide
      ((procs' q).estado = .PROC_READY ∧ (procs' q).creditos > 0)) hn
    unfold elo at hbusca
    rw [hrec, Option.bind_some, hbusca]
    refine ⟨_, procs', rfl, hso, ?_⟩
    cases hfind : l.find? fun q => decide
        ((procs' q).estado = .PROC_READY ∧ (procs' q).creditos > 0) with
    | none => exact Or.inl rfl
    | some c =>
      have hok : (procs' c).estado = .PROC_READY ∧ (procs' c).creditos > 0 := by
        simpa using List.find?_some hfind
      have hready := (hso.estado c).symm.trans hok.1
      exact Or.inr ⟨List.mem_of_find?_eq_some hfind, fun he => hr (he ▸ hready), hready⟩

/-- The state of a process after a switch from `atual` to `proximo`. -/
def estado_depois (procs : Nat → Processo) (atual proximo p : Nat) : EstadoProc :=
  if p = proximo then .PROC_RUNNING
  else if p = atual ∧ (procs atual).estado = .PROC_RUNNING then .PROC_READY
  else (procs p).estado

theorem estado_depois_atual (procs : Nat → Processo) (atual p : Nat) :
    estado_depois procs atual p p = .PROC_RUNNING :=
  if_pos rfl

theorem estado_depois_outro (procs : Nat → Processo) {atual proximo p : Nat} (ha : p ≠ atual)
    (hp : p ≠ proximo) : estado_depois procs atual proximo p = (procs p).estado := by
  unfold estado_depois
  rw [if_neg hp, if_neg fun hn => ha hn.1]

/-- The process that is switched out is ready then, if it is not dead. -/
theorem estado_depois_antigo {procs : Nat → Processo} {atual proximo : Nat}
    (hp : atual ≠ proximo) (h : (procs atual).estado = .PROC_RUNNING ∨
      (procs atual).estado = .PROC_MORTO) :
    estado_depois procs atual proximo atual = .PROC_READY ∨
      estado_depois procs atual proximo atual = .PROC_MORTO := by
  unfold estado_depois
  rw [if_neg hp]
  rcases h with hr | hm
  · exact Or.inl (if_pos ⟨rfl, hr⟩)
  · exact Or.inr ((if_neg fun hn => by rw [hm] at hn; exact absurd hn.2 (by decide)).trans hm)

theorem troca_spec (s : Sistema) (hne : c ≠ atual) :
    ∃ procs' n, troca s atual c =
        ((s.procs c).esp, { s with procs := procs', creditos_atuais := n, proc_atual_ptr := c }) ∧
      ∀ p, (procs' p).proximo = (s.procs p).proximo ∧ (procs' p).esp = (s.procs p).esp ∧
        (procs' p).estado = estado_depois s.procs atual c p := by
  have hum : ∀ p, ((if (s.procs atual).estado = .PROC_RUNNING then
      por s.procs atual { s.procs atual with estado := .PROC_READY } else s.procs) p) =
      { s.procs p with estado := if p = atual ∧ (s.procs atual).estado = .PROC_RUNNING then
        .PROC_READY else (s.procs p).estado } := by
    intro p
    unfold por
    by_cases hr : (s.procs atual).estado = .PROC_RUNNING
    · rcases eq_or_ne p atual with rfl | hp
      · simp [hr]
      · simp [hr, hp]
    · simp [hr]
  unfold troca
  generalize (if (s.procs atual).estado = .PROC_RUNNING then
    por s.procs atual { s.procs atual with estado := .PROC_READY } else s.procs) = procs1 at hum
  dsimp only
  have hc : (por procs1 c { procs1 c with estado := .PROC_RUNNING }) c =
      { s.procs c with estado := .PROC_RUNNING } := by
    simp [por, hum]
  refine ⟨_, _, by rw [hc], fun p => ?_⟩
  unfold estado_depois
  rcases eq_or_ne p c with rfl | hp
  · rw [hc, if_pos rfl]
    exact ⟨rfl, rfl, rfl⟩
  · rw [if_neg hp]
    simp only [por, Function.update_of_ne hp, hum, true_and]

/-- A tick returns, and goes on with the current process or switches to another one that was
ready. -/
theorem sched_tick_cases (h : Linked 0 (elo s.procs) s.fila_pronto l) (hn : l.length < VOLTAS)
    (ha : s.proc_atual_ptr ∈ l) (hr : (s.procs s.proc_atual_ptr).estado ≠ .PROC_READY) (esp : Nat) :
    ∃ r s', sched_tick s esp = some (r, s') ∧ s'.heap = s.heap ∧ s'.fila_pronto = s.fila_pronto ∧
      (∀ p, (s'.procs p).proximo = (s.procs p).proximo) ∧
      (∀ p, (s'.procs p).esp = if p = s.proc_atual_ptr then esp else (s.procs p).esp) ∧
      ((s'.proc_atual_ptr = s.proc_atual_ptr ∧ r = esp ∧
          ∀ p, (s'.procs p).estado = (s.procs p).estado) ∨
        (s'.proc_atual_ptr ∈ l ∧ s'.proc_atual_ptr ≠ s.proc_atual_ptr ∧
          (s.procs s'.proc_atual_ptr).estado = .PROC_READY ∧ r = (s.procs s'.proc_atual_ptr).esp ∧
          ∀ p, (s'.procs p).estado =
            estado_depois s.procs s.proc_atual_ptr s'.proc_atual_ptr p)) := by
  have h0 := h.ne_null _ ha
  have hsalva : ∀ p,
      (por s.procs s.proc_atual_ptr { s.procs s.proc_atual_ptr with esp := esp } p).proximo =
        (s.procs p).proximo ∧
      (por s.procs s.proc_atual_ptr { s.procs s.proc_atual_ptr with esp := esp } p).esp =
        (if p = s.proc_atual_ptr then esp else (s.procs p).esp) ∧
      (por s.procs s.proc_atual_ptr { s.procs s.proc_atual_ptr with esp := esp } p).estado =
        (s.procs p).estado := by
    intro p
    unfold por
    rcases eq_or_ne p s.proc_atual_ptr with rfl | hp
    · simp
    · simp [hp]
  unfold sched_tick
  dsimp only
  rw [if_neg h0]
  generalize por s.procs s.proc_atual_ptr
    { s.procs s.proc_atual_ptr with esp := esp } = procs1 at hsalva ⊢
  have hprox := fun p => (hsalva p).1
  have hesp := fun p => (hsalva p).2.1
  have hestado := fun p => (hsalva p).2.2
  split
  · exact ⟨_, _, rfl, rfl, rfl, hprox, hesp, Or.inl ⟨rfl, rfl, hestado⟩⟩
  · obtain ⟨c, procs2, hesc, hso, hc⟩ := escolher_proximo_cases (s := ⟨s.heap, procs1,
      s.proc_atual_ptr, s.fila_pronto, s.prox_pid, s.ticks + 1, s.creditos_atuais - 1⟩)
      (h.congr fun q _ => hprox q) hn ha (fun he => hr ((hestado _).symm.trans he))
    rw [hesc, Option.map_some]
    dsimp only
    rcases hc with rfl | ⟨hcl, hne, hready⟩
    · rw [if_pos rfl]
      exact ⟨_, _, rfl, rfl, rfl, fun p => (hso.proximo p).trans (hprox p),
        fun p => (hso.esp p).trans (hesp p),
        Or.inl ⟨rfl, rfl, fun p => (hso.estado p).trans (hestado p)⟩⟩
    · rw [if_neg (h.ne_null c hcl)]
      obtain ⟨procs3, n, htroca, hp⟩ := troca_spec (s := ⟨s.heap, procs2, s.proc_atual_ptr,
        s.fila_pronto, s.prox_pid, s.ticks + 1, s.creditos_atuais - 1⟩) hne
      rw [htroca]
      refine ⟨_, _, rfl, rfl, rfl, fun p => ?_, fun p => ?_,
        Or.inr ⟨hcl, hne, (hestado c).symm.trans hready, ?_, fun p => ?_⟩⟩
      · exact (hp p).1.trans ((hso.proximo p).trans (hprox p))
      · exact (hp p).2.1.trans ((hso.esp p).trans (hesp p))
      · refine (hso.esp c).trans ((hesp c).trans ?_)
        exact if_neg hne
      · refine (hp p).2.2.trans ?_
        unfold estado_depois
        dsimp only
        rw [hso.estado p, hso.estado s.proc_atual_ptr, hestado p, hestado s.proc_atual_ptr]

end Tick

/-! ## One new process -/

section Criar

variable {s : Sistema} {vivos l : List Nat} {bs : List Lib.BlockList.Block}

theorem empilha_spec (m : Memory) (topo : Nat) (vs : List Nat) (h : 4 * vs.length ≤ topo) :
    (empilha m topo vs).2 = topo - 4 * vs.length ∧
      ∀ x, x < topo - 4 * vs.length ∨ topo ≤ x → (empilha m topo vs).1 x = m x := by
  induction vs generalizing m topo with
  | nil => exact ⟨rfl, fun _ _ => rfl⟩
  | cons v vs ih =>
    rw [List.length_cons] at h ⊢
    obtain ⟨h1, h2⟩ := ih (putWord m (topo - 4) v) (topo - 4) (by omega)
    rw [empilha]
    refine ⟨by omega, fun x hx => ?_⟩
    rw [h2 x (by omega), putWord_ne _ _ (by omega)]

theorem length_lt_voltas (hi : Kheap.Inteiro ⟨s.heap, vivos⟩ bs) (hl : ∀ p ∈ l, p ∈ vivos)
    (hn : l.Nodup) : l.length < VOLTAS := by
  have hsub : l ⊆ List.range (Kheap.HEAP_FIM + 1) := fun p hp => by
    have hb := (Lib.BlockList.used_bounds Kheap.CABECALHO (hi.carga (hl p hp))).2
    rw [hi.ladrilha.ate_o_fim] at hb
    rw [List.mem_range]
    exact Nat.lt_succ_of_le (Nat.le_trans (Nat.le_add_right _ _) hb)
  have := (hn.subperm hsub).length_le
  rw [List.length_range] at this
  exact Nat.lt_of_le_of_lt this (by decide)

/-- A control block that is new and ready comes to the end of the list. -/
theorem fila_nova (s0 : Sistema) (h : Linked 0 (elo s.procs) s.fila_pronto l) {p : Nat} (hp : p ≠ 0)
    (hnew : p ∉ l) (hn : l.length < VOLTAS) {v : Processo} (hv : v.estado = .PROC_READY)
    (hprocs : s0.procs = por s.procs p v) (hfila : s0.fila_pronto = s.fila_pronto) :
    ∃ fila procs', fila_adicionar s0 p = some { s0 with fila_pronto := fila, procs := procs' } ∧
      Linked 0 (elo procs') fila (l ++ [p]) ∧ (procs' p).estado = .PROC_READY ∧
      (procs' p).esp = v.esp ∧ (procs' p).stack = v.stack ∧
      ∀ q, q ≠ p → (procs' q).estado = (s.procs q).estado ∧ (procs' q).esp = (s.procs q).esp := by
  have hself : s0.procs p = v := by
    rw [hprocs]
    exact Function.update_self _ _ _
  have hpor : ∀ q, q ≠ p → s0.procs q = s.procs q := fun q hq => by
    rw [hprocs]
    exact Function.update_of_ne hq _ _
  have hlink : Linked 0 (elo s0.procs) s0.fila_pronto l := by
    rw [hfila]
    exact h.congr fun q hq => congrArg Processo.proximo (hpor q fun he => hnew (he ▸ hq))
  obtain ⟨fila, procs', hadd, hlink', hcampos⟩ := fila_adicionar_spec hlink hp hnew hn
  obtain ⟨h1, h2, h3⟩ := hcampos p
  rw [hself] at h1 h2 h3
  refine ⟨fila, procs', hadd, hlink', h1.trans hv, h2, h3, fun q hq => ?_⟩
  obtain ⟨g1, g2, -⟩ := hcampos q
  rw [hpor q hq] at g1 g2
  exact ⟨g1, g2⟩

/-- The size of a first frame: eleven words. -/
def QUADRO : Nat := 44

/-- The memory of a new process: a control block and a stack, or what there was. -/
theorem memoria_nova {heap : Kheap.Heap} (hi : Kheap.Inteiro ⟨heap, vivos⟩ bs) :
    ∃ p heap1, Kheap.kmalloc heap SIZEOF_PROCESSO = some (p, heap1) ∧
      (p = 0 ∧ (∃ bs', Kheap.Inteiro ⟨heap1, vivos⟩ bs') ∨
        p ≠ 0 ∧ p ∉ vivos ∧ ∃ stack heap2, Kheap.kmalloc heap1 STACK_SIZE = some (stack, heap2) ∧
          (stack = 0 ∧ (∃ heap3 bs', Kheap.kfree heap2 p = some heap3 ∧
              Kheap.Inteiro ⟨heap3, vivos⟩ bs') ∨
            stack ≠ 0 ∧ ∃ bs', Kheap.Inteiro ⟨heap2, stack :: p :: vivos⟩ bs' ∧
              STACK_SIZE ≤ Kheap.carga heap2 stack)) := by
  obtain ⟨p, heap1, bs1, hk1, hi1, hnew1⟩ := hi.kmalloc SIZEOF_PROCESSO
  refine ⟨p, heap1, hk1, ?_⟩
  by_cases hp : p = 0
  · rw [if_pos hp] at hi1
    exact Or.inl ⟨hp, bs1, hi1⟩
  rw [if_neg hp] at hi1
  obtain ⟨stack, heap2, bs2, hk2, hi2, hnew2⟩ := hi1.kmalloc STACK_SIZE
  refine Or.inr ⟨hp, (hnew1 hp).1, stack, heap2, hk2, ?_⟩
  by_cases hs : stack = 0
  · rw [if_pos hs] at hi2
    obtain ⟨heap3, bs3, hf, hi3⟩ := hi2.kfree List.mem_cons_self
    rw [List.erase_cons_head] at hi3
    exact Or.inl ⟨hs, heap3, bs3, hf, hi3⟩
  · rw [if_neg hs] at hi2
    have hsize : Kheap.alinhar STACK_SIZE = STACK_SIZE := by decide
    exact Or.inr ⟨hs, bs2, hi2, hsize ▸ (hnew2 hs).2⟩

/-- A new process is the last one of the list, ready, with the ESP of its first frame. Without memory
for it nothing changes. -/
theorem proc_criar_cases (hi : Kheap.Inteiro ⟨s.heap, vivos⟩ bs)
    (h : Linked 0 (elo s.procs) s.fila_pronto l) (hl : ∀ p ∈ l, p ∈ vivos) (lixo : Processo)
    (entrada : Nat) (prioridade : UInt8) :
    ∃ p s', proc_criar s lixo entrada prioridade = some (p, s') ∧
      s'.proc_atual_ptr = s.proc_atual_ptr ∧
      ((p = 0 ∧ s'.procs = s.procs ∧ s'.fila_pronto = s.fila_pronto ∧
          ∃ bs', Kheap.Inteiro ⟨s'.heap, vivos⟩ bs') ∨
        (p ≠ 0 ∧ p ∉ vivos ∧ Linked 0 (elo s'.procs) s'.fila_pronto (l ++ [p]) ∧
          (s'.procs p).estado = .PROC_READY ∧
          (s'.procs p).esp = (s'.procs p).stack + STACK_SIZE - QUADRO ∧
          (∀ q, q ≠ p → (s'.procs q).estado = (s.procs q).estado ∧
            (s'.procs q).esp = (s.procs q).esp) ∧
          ∃ bs', Kheap.Inteiro ⟨s'.heap, (s'.procs p).stack :: p :: vivos⟩ bs')) := by
  unfold proc_criar
  obtain ⟨p, heap1, hk1, ⟨rfl, bs1, hi1⟩ | ⟨hp, hvivos, stack, heap2, hk2, hstack⟩⟩ := memoria_nova hi
  · rw [hk1, Option.bind_some]
    dsimp only
    rw [if_pos rfl]
    exact ⟨0, _, rfl, rfl, Or.inl ⟨rfl, rfl, rfl, bs1, hi1⟩⟩
  rw [hk1, Option.bind_some]
  dsimp only
  rw [if_neg hp, hk2, Option.bind_some]
  dsimp only
  rcases hstack with ⟨rfl, heap3, bs3, hf, hi3⟩ | ⟨hs, bs2, hi2, hcabe⟩
  · rw [if_pos rfl, hf]
    exact ⟨0, _, rfl, rfl, Or.inl ⟨rfl, rfl, rfl, bs3, hi3⟩⟩
  rw [if_neg hs]
  have hnew : p ∉ l := fun hmem => hvivos (hl p hmem)
  have hlen : (quadro entrada).length = 11 := rfl
  obtain ⟨htopo, hmem⟩ := empilha_spec heap2.mem (stack + STACK_SIZE)
    (quadro entrada) (by rw [hlen, STACK_SIZE]; omega)
  generalize hemp : empilha heap2.mem (stack + STACK_SIZE) (quadro entrada) = r at htopo hmem ⊢
  obtain ⟨m, topo⟩ := r
  dsimp only at htopo hmem ⊢
  have hi3 := hi2.grava List.mem_cons_self fun x hx => hmem x (by
    have hk : STACK_SIZE = 16384 := rfl
    rw [hlen]
    dsimp only at hx
    omega)
  obtain ⟨fila, procs', hadd, hlink, h1, h2, h3, hout⟩ := fila_nova ⟨⟨m, heap2.heap_inicio,
    heap2.inicializado⟩, por s.procs p { lixo with
      pid := s.prox_pid, estado := .PROC_READY, prioridade := prioridade, stack := stack,
      stack_size := STACK_SIZE, proximo := 0, esp := topo, eip := entrada,
      id := identidade_gerar s.prox_pid s.ticks (UInt32.ofNat stack) }, s.proc_atual_ptr,
    s.fila_pronto, s.prox_pid + 1, s.ticks, s.creditos_atuais⟩
    h hp hnew (length_lt_voltas hi hl h.nodup) rfl rfl rfl
  rw [hadd]
  refine ⟨p, _, rfl, rfl, Or.inr ⟨hp, hvivos, hlink, h1, ?_, hout, bs2, ?_⟩⟩
  · dsimp only
    rw [h2, h3, htopo, hlen, QUADRO]
  · dsimp only
    rw [h3]
    exact hi3

/-- The kernel becomes the first process, unless there is no memory for it. -/
theorem proc_init_cases (hi : Kheap.Inteiro ⟨s.heap, vivos⟩ bs) (lixo : Processo) :
    (∃ heap' bs', proc_init s lixo = some { s with heap := heap' } ∧
        Kheap.Inteiro ⟨heap', vivos⟩ bs') ∨
      ∃ heap' bs' p v, proc_init s lixo = some { s with
          heap := heap', procs := por s.procs p v, proc_atual_ptr := p, fila_pronto := p } ∧
        Kheap.Inteiro ⟨heap', p :: vivos⟩ bs' ∧ p ≠ 0 ∧ v.estado = .PROC_RUNNING ∧ v.proximo = 0 := by
  obtain ⟨p, heap', bs', hk, hi', _⟩ := hi.kmalloc SIZEOF_PROCESSO
  unfold proc_init
  rw [hk, Option.map_some]
  dsimp only
  by_cases hp : p = 0
  · rw [if_pos hp] at hi' ⊢
    exact Or.inl ⟨heap', bs', rfl, hi'⟩
  · rw [if_neg hp] at hi' ⊢
    exact Or.inr ⟨heap', bs', p, _, rfl, hi', hp, rfl, rfl⟩

theorem sched_init_spec (h : Linked 0 (elo s.procs) s.fila_pronto l) (hn : l.length < VOLTAS) :
    ∃ procs' n, sched_init s = some { s with procs := procs', creditos_atuais := n } ∧
      SoCreditos s.procs procs' := by
  obtain ⟨procs', hrec, hso⟩ := recalcular_creditos_spec h hn
  unfold sched_init
  rw [hrec]
  exact ⟨procs', _, rfl, hso⟩

end Criar

/-! ## Runs -/

/-- The kernel with the live pointers of the heap and the history of the processes: the order of
their creation, the address of the first frame of each one that has one, and the ESP of the last
tick at which each was the current process. -/
structure Maquina where
  sis : Sistema
  vivos : List Nat
  criados : List Nat
  inicial : Nat → Nat
  ultimo : Nat → Option Nat

def Maquina.atual (e : Maquina) : Nat := e.sis.proc_atual_ptr

def Maquina.estado (e : Maquina) (p : Nat) : EstadoProc := (e.sis.procs p).estado

/-- The history with one more process. -/
def Maquina.nasce (e : Maquina) (p : Nat) (s' : Sistema) : Maquina :=
  if p = 0 then { e with sis := s' }
  else
    { e with
      sis := s'
      vivos := (s'.procs p).stack :: p :: e.vivos
      criados := e.criados ++ [p]
      inicial := Function.update e.inicial p
        ((s'.procs p).stack + STACK_SIZE - QUADRO) }

/-- One call, one tick, or one step of the rest of the kernel on the heap, which leaves the control
blocks alone. -/
inductive Passo : Maquina → Maquina → Prop
  | proc_criar {e : Maquina} {lixo : Processo} {entrada : Nat} {prioridade : UInt8} {p : Nat}
      {s' : Sistema} :
      Proc.proc_criar e.sis lixo entrada prioridade = some (p, s') → Passo e (e.nasce p s')
  | proc_encerrar {e : Maquina} : Passo e { e with sis := Proc.proc_encerrar e.sis }
  | sched_tick {e : Maquina} {esp r : Nat} {s' : Sistema} :
      Proc.sched_tick e.sis esp = some (r, s') →
      Passo e { e with sis := s', ultimo := Function.update e.ultimo e.atual (some esp) }
  | heap {e : Maquina} {h' : Kheap.Estado} :
      Kheap.Passo ⟨e.sis.heap, e.vivos⟩ h' → (∀ p ∈ e.criados, p ∈ h'.vivos) →
      Passo e { e with sis := { e.sis with heap := h'.heap }, vivos := h'.vivos }

/-- The states after `proc_init` and `sched_init` on a heap in use, with any memory. -/
inductive Corrida : Maquina → Prop
  | inicio {heap : Kheap.Heap} {vivos : List Nat} {procs : Nat → Processo} {lixo : Processo}
      {s s' : Sistema} :
      Kheap.Alcanca ⟨heap, vivos⟩ → proc_init ⟨heap, procs, 0, 0, 1, 0, 0⟩ lixo = some s →
      sched_init s = some s' →
      Corrida ⟨s', if s.fila_pronto = 0 then vivos else s.fila_pronto :: vivos,
        if s.fila_pronto = 0 then [] else [s.fila_pronto], fun _ => 0, fun _ => none⟩
  | mais {e e' : Maquina} : Corrida e → Passo e e' → Corrida e'

/-- What holds after every step. -/
structure Ordem (e : Maquina) : Prop where
  heap : ∃ bs, Kheap.Inteiro ⟨e.sis.heap, e.vivos⟩ bs
  vivos : ∀ p ∈ e.criados, p ∈ e.vivos
  fila : Linked 0 (elo e.sis.procs) e.sis.fila_pronto e.criados
  atual : e.atual ≠ 0 → e.atual ∈ e.criados ∧
    (e.estado e.atual = .PROC_RUNNING ∨ e.estado e.atual = .PROC_MORTO)
  outros : ∀ p ∈ e.criados, p ≠ e.atual → e.estado p = .PROC_READY ∨ e.estado p = .PROC_MORTO
  esp : ∀ p ∈ e.criados, p ≠ e.atual → (e.sis.procs p).esp = (e.ultimo p).getD (e.inicial p)
  novos : ∀ p, p ≠ 0 → p ∉ e.criados → e.ultimo p = none

section Passos

variable {e e' : Maquina}

theorem Ordem.length_lt (h : Ordem e) : e.criados.length < VOLTAS := by
  obtain ⟨bs, hi⟩ := h.heap
  exact length_lt_voltas hi h.vivos h.fila.nodup

theorem Ordem.nao_pronto (h : Ordem e) (h0 : e.atual ≠ 0) : e.estado e.atual ≠ .PROC_READY := by
  rcases (h.atual h0).2 with he | he
  · rw [he]
    decide
  · rw [he]
    decide

/-- A tick without a current process counts the time, and nobody hears of its ESP. -/
theorem Ordem.sem_atual (h : Ordem e) (h0 : e.atual = 0) (esp : Nat) (n : UInt32) :
    Ordem { e with
      sis := { e.sis with ticks := n }
      ultimo := Function.update e.ultimo e.atual (some esp) } := by
  refine ⟨h.heap, h.vivos, h.fila, h.atual, h.outros, fun p hp hne => ?_, fun p hp0 hp => ?_⟩
  · have hu := Function.update_of_ne (show p ≠ e.atual from hne) (some esp) e.ultimo
    exact (h.esp p hp hne).trans (congrArg (fun o => o.getD (e.inicial p)) hu.symm)
  · exact (Function.update_of_ne (h0 ▸ hp0) _ _).trans (h.novos p hp0 hp)

/-- A tick that takes the ESP of the current process, and leaves the list in its order. -/
theorem Ordem.anota (h : Ordem e) (ha : e.atual ∈ e.criados) {s' : Sistema} {esp : Nat}
    (hheap : s'.heap = e.sis.heap) (hfila : s'.fila_pronto = e.sis.fila_pronto)
    (hprox : ∀ p, (s'.procs p).proximo = (e.sis.procs p).proximo)
    (hesp : ∀ p, (s'.procs p).esp = if p = e.atual then esp else (e.sis.procs p).esp)
    (hatual : s'.proc_atual_ptr ∈ e.criados)
    (hestado : (s'.procs s'.proc_atual_ptr).estado = .PROC_RUNNING ∨
      (s'.procs s'.proc_atual_ptr).estado = .PROC_MORTO)
    (houtros : ∀ p ∈ e.criados, p ≠ s'.proc_atual_ptr →
      (s'.procs p).estado = .PROC_READY ∨ (s'.procs p).estado = .PROC_MORTO) :
    Ordem { e with sis := s', ultimo := Function.update e.ultimo e.atual (some esp) } := by
  refine ⟨?_, h.vivos, ?_, fun _ => ⟨hatual, hestado⟩, houtros, fun p hp _ => ?_,
    fun p hp0 hp => ?_⟩
  · rw [hheap]
    exact h.heap
  · rw [hfila]
    exact h.fila.congr fun q _ => hprox q
  · -- The current process has the ESP of this tick, and every other one that of its history.
    dsimp only
    rw [hesp p]
    rcases eq_or_ne p e.atual with rfl | hne
    · rw [Function.update_self]
      exact if_pos rfl
    · rw [Function.update_of_ne hne]
      exact (if_neg hne).trans (h.esp p hp hne)
  · dsimp only
    rw [Function.update_of_ne fun he : p = e.atual => hp (he ▸ ha)]
    exact h.novos p hp0 hp

/-- What a tick does to a process that is not the current one. -/
theorem Ordem.tick (h : Ordem e) (esp : Nat) :
    ∃ r s', sched_tick e.sis esp = some (r, s') ∧
      Ordem { e with sis := s', ultimo := Function.update e.ultimo e.atual (some esp) } ∧
      (∀ p ∈ e.criados, p ≠ e.atual → e.estado p = .PROC_MORTO →
        p ≠ s'.proc_atual_ptr ∧ (s'.procs p).estado = .PROC_MORTO) ∧
      (s'.proc_atual_ptr ≠ e.atual → s'.proc_atual_ptr ∈ e.criados ∧
        r = (e.ultimo s'.proc_atual_ptr).getD (e.inicial s'.proc_atual_ptr)) := by
  by_cases h0 : e.atual = 0
  · exact ⟨esp, { e.sis with ticks := e.sis.ticks + 1 }, if_pos h0, h.sem_atual h0 esp _,
      fun p _ hp hm => ⟨hp, hm⟩, fun hne => absurd rfl hne⟩
  obtain ⟨ha, hestado⟩ := h.atual h0
  obtain ⟨r, s', htick, hheap, hfila, hprox, hesp, hcases⟩ :=
    sched_tick_cases h.fila h.length_lt ha (h.nao_pronto h0) esp
  rcases hcases with ⟨hmesmo, _, hest⟩ | ⟨hc, hne, hready, hr, hest⟩
  · refine ⟨r, s', htick, h.anota ha hheap hfila hprox hesp (hmesmo ▸ ha) ?_ ?_, ?_,
      fun hne => absurd hmesmo hne⟩
    · rw [hest, hmesmo]
      exact hestado
    · intro p hp hne
      rw [hest]
      exact h.outros p hp fun he => hne (he.trans hmesmo.symm)
    · intro p hp hne hm
      rw [hmesmo, hest]
      exact ⟨hne, hm⟩
  · refine ⟨r, s', htick, h.anota ha hheap hfila hprox hesp hc ?_ ?_, ?_,
      fun _ => ⟨hc, hr.trans (h.esp _ hc hne)⟩⟩
    · rw [hest]
      exact Or.inl (estado_depois_atual _ _ _)
    · intro p hp hpc
      rw [hest]
      rcases eq_or_ne p e.atual with rfl | hpa
      · exact estado_depois_antigo hpc hestado
      · have he := estado_depois_outro e.sis.procs hpa hpc
        exact (h.outros p hp hpa).imp he.trans he.trans
    · intro p hp hpa hm
      have hpc : p ≠ s'.proc_atual_ptr := by
        rintro rfl
        rw [Maquina.estado, hready] at hm
        exact absurd hm (by decide)
      refine ⟨hpc, ?_⟩
      rw [hest]
      exact (estado_depois_outro _ hpa hpc).trans hm

/-- One more process comes to the history, ready, with a first ESP. -/
theorem Ordem.entra (h : Ordem e) {p x : Nat} {s' : Sistema} {vivos' : List Nat} (hp : p ≠ 0)
    (hnew : p ∉ e.criados) (hatual : s'.proc_atual_ptr = e.atual)
    (hlink : Linked 0 (elo s'.procs) s'.fila_pronto (e.criados ++ [p]))
    (hready : (s'.procs p).estado = .PROC_READY) (hesp : (s'.procs p).esp = x)
    (hout : ∀ q, q ≠ p → (s'.procs q).estado = (e.sis.procs q).estado ∧
      (s'.procs q).esp = (e.sis.procs q).esp)
    (hheap : ∃ bs, Kheap.Inteiro ⟨s'.heap, vivos'⟩ bs) (hvivos : ∀ q ∈ e.vivos, q ∈ vivos')
    (hpv : p ∈ vivos') :
    Ordem ⟨s', vivos', e.criados ++ [p], Function.update e.inicial p x, e.ultimo⟩ := by
  have hne : ∀ q ∈ e.criados, q ≠ p := fun q hq he => hnew (he ▸ hq)
  refine ⟨hheap, fun q hq => ?_, hlink, fun h0 => ?_, fun q hq hqa => ?_, fun q hq hqa => ?_,
    fun q hq0 hq => ?_⟩
  · rcases List.mem_append.mp hq with hq | hq
    · exact hvivos q (h.vivos q hq)
    · rw [List.mem_singleton.mp hq]
      exact hpv
  · have h0' : e.atual ≠ 0 := fun he => h0 (hatual.trans he)
    obtain ⟨ha, hest⟩ := h.atual h0'
    have hs' := (hout e.atual (hne _ ha)).1
    unfold Maquina.atual Maquina.estado at *
    dsimp only
    rw [hatual, hs']
    exact ⟨List.mem_append_left _ ha, hest⟩
  · rcases List.mem_append.mp hq with hq | hq
    · have := h.outros q hq fun he => hqa (he.trans hatual.symm)
      unfold Maquina.estado at *
      dsimp only
      rw [(hout q (hne q hq)).1]
      exact this
    · rw [List.mem_singleton.mp hq]
      exact Or.inl hready
  · rcases List.mem_append.mp hq with hq | hq
    · refine ((hout q (hne q hq)).2.trans (h.esp q hq fun he => hqa (he.trans hatual.symm))).trans ?_
      dsimp only
      rw [Function.update_of_ne (hne q hq)]
    · rw [List.mem_singleton.mp hq]
      dsimp only
      rw [hesp, h.novos p hp hnew, Function.update_self]
      rfl
  · exact h.novos q hq0 fun hmem => hq (List.mem_append_left _ hmem)

theorem Ordem.criar (h : Ordem e) (lixo : Processo) (entrada : Nat) (prioridade : UInt8) :
    ∃ p s', proc_criar e.sis lixo entrada prioridade = some (p, s') ∧ Ordem (e.nasce p s') ∧
      ∀ q ∈ e.criados, q ≠ e.atual → e.estado q = .PROC_MORTO →
        q ≠ s'.proc_atual_ptr ∧ (s'.procs q).estado = .PROC_MORTO := by
  obtain ⟨bs, hi⟩ := h.heap
  obtain ⟨p, s', hcriar, hatual, hcases⟩ := proc_criar_cases hi h.fila h.vivos lixo entrada prioridade
  refine ⟨p, s', hcriar, ?_⟩
  rcases hcases with ⟨rfl, hprocs, hfila, hheap⟩ | ⟨hp, hnew, hlink, hready, hesp, hout, hheap⟩
  · unfold Maquina.nasce
    rw [if_pos rfl]
    refine ⟨⟨hheap, h.vivos, ?_, fun h0 => ?_, fun q hq hne => ?_, fun q hq hne => ?_, h.novos⟩, ?_⟩
    · dsimp only
      rw [hprocs, hfila]
      exact h.fila
    · unfold Maquina.atual Maquina.estado at *
      dsimp only at *
      rw [hatual, hprocs] at *
      exact h.atual h0
    · unfold Maquina.estado
      dsimp only
      rw [hprocs]
      exact h.outros q hq fun he => hne (he.trans hatual.symm)
    · dsimp only
      rw [hprocs]
      exact h.esp q hq fun he => hne (he.trans hatual.symm)
    · intro q hq hne hm
      rw [hatual, hprocs]
      exact ⟨hne, hm⟩
  · have hmem : p ∉ e.criados := fun hmem => hnew (h.vivos p hmem)
    unfold Maquina.nasce
    rw [if_neg hp]
    refine ⟨h.entra hp hmem hatual hlink hready hesp hout hheap
      (fun q hq => List.mem_cons_of_mem _ (List.mem_cons_of_mem _ hq))
      (List.mem_cons_of_mem _ List.mem_cons_self), fun q hq hqa hm => ?_⟩
    rw [hatual, (hout q fun he => hmem (he ▸ hq)).1]
    exact ⟨hqa, hm⟩

theorem Ordem.encerrar (h : Ordem e) :
    Ordem { e with sis := proc_encerrar e.sis } ∧
      ∀ q, q ≠ e.atual → (proc_encerrar e.sis).proc_atual_ptr = e.atual ∧
        ((proc_encerrar e.sis).procs q).estado = e.estado q := by
  unfold proc_encerrar
  split
  · exact ⟨h, fun q _ => ⟨rfl, rfl⟩⟩
  · rename_i h0
    have ha := (h.atual h0).1
    have hself : ∀ v : Processo, por e.sis.procs e.atual v e.atual = v := fun v =>
      Function.update_self _ _ _
    have hother : ∀ v : Processo, ∀ q, q ≠ e.atual → por e.sis.procs e.atual v q = e.sis.procs q :=
      fun v q hq => Function.update_of_ne hq _ _
    refine ⟨⟨h.heap, h.vivos, h.fila.congr fun q _ => ?_, fun _ => ⟨ha, Or.inr ?_⟩,
      fun q hq hqa => ?_, fun q hq hqa => ?_, h.novos⟩, fun q hq => ⟨rfl, ?_⟩⟩
    · rcases eq_or_ne q e.atual with rfl | hq
      · exact (congrArg Processo.proximo (hself _)).trans rfl
      · exact congrArg Processo.proximo (hother _ q hq)
    · exact congrArg Processo.estado (hself _)
    · have := h.outros q hq hqa
      unfold Maquina.estado at *
      exact (congrArg Processo.estado (hother _ q hqa)) ▸ this
    · exact (congrArg Processo.esp (hother _ q hqa)).trans (h.esp q hq hqa)
    · exact congrArg Processo.estado (hother _ q hq)

theorem Ordem.passo (h : Ordem e) (hp : Passo e e') :
    Ordem e' ∧ (∀ q ∈ e.criados, q ∈ e'.criados) ∧
      ∀ q ∈ e.criados, q ≠ e.atual → e.estado q = .PROC_MORTO →
        q ≠ e'.atual ∧ e'.estado q = .PROC_MORTO := by
  cases hp with
  | @proc_criar lixo entrada prioridade p s' hc =>
    obtain ⟨p1, s1, hc1, ho, hm⟩ := h.criar lixo entrada prioridade
    obtain ⟨rfl, rfl⟩ := Prod.mk.inj (Option.some.inj (hc1.symm.trans hc))
    refine ⟨ho, fun q hq => ?_, fun q hq hqa hqm => ?_⟩
    · unfold Maquina.nasce
      split
      · exact hq
      · exact List.mem_append_left _ hq
    · unfold Maquina.nasce Maquina.atual Maquina.estado
      split <;> exact hm q hq hqa hqm
  | proc_encerrar =>
    obtain ⟨ho, hm⟩ := h.encerrar
    exact ⟨ho, fun _ hq => hq, fun q _ hqa hqm =>
      ⟨fun he => hqa (he.trans (hm q hqa).1), (hm q hqa).2.trans hqm⟩⟩
  | @sched_tick esp r s' ht =>
    obtain ⟨r1, s1, ht1, ho, hm, _⟩ := h.tick esp
    obtain ⟨rfl, rfl⟩ := Prod.mk.inj (Option.some.inj (ht1.symm.trans ht))
    exact ⟨ho, fun _ hq => hq, hm⟩
  | heap hpasso hvivos =>
    obtain ⟨bs, hi⟩ := h.heap
    exact ⟨⟨hi.passo hpasso, hvivos, h.fila, h.atual, h.outros, h.esp, h.novos⟩, fun _ hq => hq,
      fun _ _ hqa hqm => ⟨hqa, hqm⟩⟩

/-- The list of the processes after `proc_init`: the kernel alone, or no process. -/
theorem ordem_proc_init {heap : Kheap.Heap} {vivos : List Nat} (hheap : Kheap.Alcanca ⟨heap, vivos⟩)
    (procs : Nat → Processo) (lixo : Processo) :
    ∃ s, proc_init ⟨heap, procs, 0, 0, 1, 0, 0⟩ lixo = some s ∧
      Ordem ⟨s, if s.fila_pronto = 0 then vivos else s.fila_pronto :: vivos,
        if s.fila_pronto = 0 then [] else [s.fila_pronto], fun _ => 0, fun _ => none⟩ := by
  obtain ⟨bs, hi⟩ := Kheap.inteiro_of_alcanca hheap
  rcases proc_init_cases (s := ⟨heap, procs, 0, 0, 1, 0, 0⟩) hi lixo with
    ⟨heap', bs', hproc, hi'⟩ | ⟨heap', bs', p, v, hproc, hi', hp, hrun, hprox⟩
  · exact ⟨_, hproc, ⟨⟨bs', hi'⟩, fun q hq => absurd hq List.not_mem_nil, rfl,
      fun h0 => absurd rfl h0, fun q hq => absurd hq List.not_mem_nil,
      fun q hq => absurd hq List.not_mem_nil, fun _ _ _ => rfl⟩⟩
  · have hself : por procs p v p = v := Function.update_self _ _ _
    refine ⟨_, hproc, ?_⟩
    dsimp only
    rw [if_neg hp, if_neg hp]
    refine ⟨⟨bs', hi'⟩, fun q hq => ?_, ⟨rfl, hp, (congrArg Processo.proximo hself).trans hprox⟩,
      fun _ => ⟨List.mem_singleton.mpr rfl, Or.inl ((congrArg Processo.estado hself).trans hrun)⟩,
      fun q hq hqa => ?_, fun q hq hqa => ?_, fun _ _ _ => rfl⟩
    · rw [List.mem_singleton.mp hq]
      exact List.mem_cons_self
    · exact absurd (List.mem_singleton.mp hq) hqa
    · exact absurd (List.mem_singleton.mp hq) hqa

/-- `sched_init` writes credits only. -/
theorem Ordem.sched_init (h : Ordem e) :
    ∃ s', Proc.sched_init e.sis = some s' ∧ Ordem { e with sis := s' } := by
  obtain ⟨procs', n, hsched, hso⟩ := sched_init_spec h.fila h.length_lt
  refine ⟨_, hsched, ⟨h.heap, h.vivos, h.fila.congr fun q _ => hso.proximo q, fun h0 => ?_,
    fun q hq hqa => ?_, fun q hq hqa => ?_, h.novos⟩⟩
  · unfold Maquina.estado
    dsimp only
    rw [hso.estado]
    exact h.atual h0
  · unfold Maquina.estado
    dsimp only
    rw [hso.estado]
    exact h.outros q hq hqa
  · exact (hso.esp q).trans (h.esp q hq hqa)

theorem Corrida.ordem (h : Corrida e) : Ordem e := by
  induction h with
  | @inicio heap vivos procs lixo s s' hheap hproc hsched =>
    obtain ⟨s1, hp, h1⟩ := ordem_proc_init hheap procs lixo
    obtain rfl := Option.some.inj (hp.symm.trans hproc)
    obtain ⟨s2, hs, h2⟩ := h1.sched_init
    obtain rfl := Option.some.inj (hs.symm.trans hsched)
    exact h2
  | mais _ hp ih => exact (ih.passo hp).1

/-- Whatever happens, a dead process that is not the current one stays so. -/
theorem Ordem.morto (h : Ordem e) (hr : Relation.ReflTransGen Passo e e') {q : Nat}
    (hq : q ∈ e.criados) (hqa : q ≠ e.atual) (hm : e.estado q = .PROC_MORTO) :
    q ≠ e'.atual ∧ e'.estado q = .PROC_MORTO := by
  induction hr using Relation.ReflTransGen.head_induction_on with
  | refl => exact ⟨hqa, hm⟩
  | head hpasso _ ih =>
    obtain ⟨ho, hsub, hmorto⟩ := h.passo hpasso
    obtain ⟨hqa', hm'⟩ := hmorto q hq hqa hm
    exact ih ho (hsub q hq) hqa' hm'

/-! ## The law -/

/-- What the processes are after a step of a run, and what the next tick does. -/
structure Contas (e : Maquina) : Prop where
  fila : Linked 0 (elo e.sis.procs) e.sis.fila_pronto e.criados
  uma_vez : e.criados.Nodup
  atual : e.atual ≠ 0 → e.atual ∈ e.criados
  outros : ∀ p ∈ e.criados, p ≠ e.atual → e.estado p = .PROC_READY ∨ e.estado p = .PROC_MORTO
  morto : ∀ p ∈ e.criados, p ≠ e.atual → e.estado p = .PROC_MORTO →
    ∀ e', Relation.ReflTransGen Passo e e' → p ≠ e'.atual
  troca : ∀ esp : Nat, ∃ r s', sched_tick e.sis esp = some (r, s') ∧
    (s'.proc_atual_ptr ≠ e.atual → s'.proc_atual_ptr ∈ e.criados ∧
      r = (e.ultimo s'.proc_atual_ptr).getD (e.inicial s'.proc_atual_ptr))
  retorna : ∀ lixo entrada prioridade, (proc_criar e.sis lixo entrada prioridade).isSome

/-- After every step of a run the list holds each process once, the processes that are not the
current one are ready or dead, the dead ones for good, and a switch returns with the ESP of the last
tick of the process it switches to, or with its first frame. -/
theorem a_switch_returns_to_the_saved_stack (h : Corrida e) : Contas e where
  fila := h.ordem.fila
  uma_vez := h.ordem.fila.nodup
  atual h0 := (h.ordem.atual h0).1
  outros := h.ordem.outros
  morto p hp hpa hm e' hr := (h.ordem.morto hr hp hpa hm).1
  troca esp := by
    obtain ⟨r, s', ht, _, _, hr⟩ := h.ordem.tick esp
    exact ⟨r, s', ht, hr⟩
  retorna lixo entrada prioridade := by
    obtain ⟨p, s', hc, _⟩ := h.ordem.criar lixo entrada prioridade
    rw [hc]
    rfl

def processo_zero : Processo := ⟨0, .PROC_RUNNING, 0, 0, ⟨0, 0, 0⟩, 0, 0, 0, 0, 0⟩

/-- The kernel before `proc_init`, on an all-zero memory. -/
def sistema_zero : Sistema :=
  ⟨Kheap.kheap_init ⟨fun _ => 0, 0, false⟩, fun _ => processo_zero, 0, 0, 1, 0, 0⟩

/-- From there on, with one more process: it is the second one of the list. -/
theorem a_switch_returns_to_the_first_frame :
    ∃ e, e.criados = [0x300009, 0x30007E] ∧ Contas e := by
  have hfila : (proc_init sistema_zero processo_zero).map Sistema.fila_pronto = some 0x300009 := by
    decide +kernel
  have hcriar : ((proc_init sistema_zero processo_zero).bind sched_init).bind (fun s =>
      (proc_criar s processo_zero 0x1000 1).map Prod.fst) = some 0x30007E := by decide +kernel
  obtain ⟨s2, hs2, hcriar⟩ := Option.bind_eq_some_iff.mp hcriar
  obtain ⟨s1, hs1, hs2⟩ := Option.bind_eq_some_iff.mp hs2
  obtain ⟨⟨p, s3⟩, hs3, hp⟩ := Option.map_eq_some_iff.mp hcriar
  rw [hs1] at hfila
  have hf : s1.fila_pronto = 0x300009 := Option.some.inj hfila
  obtain rfl : p = 0x30007E := hp
  have h := (Corrida.inicio (.kheap_init _) hs1 hs2).mais (.proc_criar hs3)
  refine ⟨_, ?_, a_switch_returns_to_the_saved_stack h⟩
  unfold Maquina.nasce
  rw [if_neg (by decide), hf]
  rfl

end Passos

end SpaceOS.Proc
