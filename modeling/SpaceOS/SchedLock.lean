-- `sched_tick` on several processors (kernel/proc/sched.c, kernel/cpu/spinlock.h): what stands between
-- `spin_lock` and `spin_unlock`, cut into its accesses, and that the lock makes one tick of it again.
import SpaceOS.Lib.SpinLock
import SpaceOS.SchedTurns

open Lib.SpinLock

namespace SpaceOS.Proc

/-! ## The section

The time is counted in front of the lock, and the ESP of the next process is read behind it: both are
left out. -/

/-- What is left of the section. -/
inductive Ponto where
  | proc_atual (esp_atual : Nat)
  | salva_esp (esp_atual atual : Nat)
  | consome (atual : Nat)
  | testa (atual : Nat)
  | escolhe (atual : Nat)
  | pronto (atual proximo : Nat)
  | roda (proximo : Nat)
  | carrega (proximo : Nat)
  | set_atual (proximo : Nat)

/-- One access. `escolher_proximo` counts as one: it ends, or it does not. -/
def secao : Ponto → Sistema → Option (Option Ponto × Sistema)
  | .proc_atual esp_atual, s =>
    some (if s.proc_atual_ptr = 0 then (none, s)
      else (some (.salva_esp esp_atual s.proc_atual_ptr), s))
  | .salva_esp esp_atual atual, s =>
    some (some (.consome atual), { s with procs := por s.procs atual { s.procs atual with esp := esp_atual } })
  | .consome atual, s =>
    some (some (.testa atual),
      if s.creditos_atuais > 0 then { s with creditos_atuais := s.creditos_atuais - 1 } else s)
  | .testa atual, s => some (if s.creditos_atuais > 0 then (none, s) else (some (.escolhe atual), s))
  | .escolhe atual, s =>
    (escolher_proximo s atual).map fun (proximo, s) =>
      if proximo = 0 then (none, s) else (some (.pronto atual proximo), s)
  | .pronto atual proximo, s =>
    some (some (.roda proximo),
      if (s.procs atual).estado = .PROC_RUNNING then
        { s with procs := por s.procs atual { s.procs atual with estado := .PROC_READY } }
      else s)
  | .roda proximo, s =>
    some (some (.carrega proximo),
      { s with procs := por s.procs proximo { s.procs proximo with estado := .PROC_RUNNING } })
  | .carrega proximo, s =>
    some (some (.set_atual proximo), { s with creditos_atuais := (s.procs proximo).creditos.toNat })
  | .set_atual proximo, s => some (none, { s with proc_atual_ptr := proximo })

/-- The processors, each outside of `sched_tick` or somewhere in it. -/
abbrev Processadores (ι : Type) : Type := Sys ι Nat Ponto Sistema

/-! ## The section is a tick -/

section Tick

variable {s s' : Sistema} {esp atual proximo : Nat}

/-- The same at another time. -/
def Sistema.no_tempo (s : Sistema) (n : UInt32) : Sistema := { s with ticks := n }

theorem escolher_proximo_no_tempo (s : Sistema) (n : UInt32) (atual : Nat) :
    escolher_proximo (s.no_tempo n) atual = (escolher_proximo s atual).map fun (c, t) => (c, t.no_tempo n) := by
  unfold escolher_proximo Sistema.no_tempo
  dsimp only
  split
  · rfl
  · cases recalcular_creditos VOLTAS s.procs s.fila_pronto with
    | none => rfl
    | some procs =>
      rw [Option.bind_some, Option.bind_some, Option.map_map]
      rfl

/-- The end of the section is the end of the tick. -/
theorem secao_troca (s : Sistema) (atual proximo : Nat) :
    Section secao (.pronto atual proximo) s s' ↔ s' = (troca s atual proximo).2 := by
  rw [section_next rfl, section_next rfl, section_next rfl, section_last rfl]
  unfold troca
  split <;> rfl

/-- The section in front of the choice. -/
theorem secao_testa (h0 : s.proc_atual_ptr ≠ 0) (esp : Nat) : Section secao (.proc_atual esp) s s' ↔
    Section secao (.testa s.proc_atual_ptr) ((salva s esp).no_tempo s.ticks) s' := by
  have hnext : secao (.proc_atual esp) s = some (some (.salva_esp esp s.proc_atual_ptr), s) :=
    congrArg some (if_neg h0)
  have hconsome : secao (.consome s.proc_atual_ptr)
      { s with procs := por s.procs s.proc_atual_ptr { s.procs s.proc_atual_ptr with esp := esp } } =
        some (some (.testa s.proc_atual_ptr), ((salva s esp).no_tempo s.ticks)) := by
    refine congrArg (fun t => some (some (Ponto.testa s.proc_atual_ptr), t)) ?_
    unfold salva
    dsimp only
    split
    · rfl
    · rw [show s.creditos_atuais - 1 = s.creditos_atuais by omega]
      rfl
  rw [section_next hnext, section_next rfl, section_next hconsome]

theorem sched_tick_eq (h0 : s.proc_atual_ptr ≠ 0) (hc : ¬ s.creditos_atuais - 1 > 0) :
    sched_tick s esp = (escolher_proximo (salva s esp) s.proc_atual_ptr).map fun (proximo, s1) =>
      if proximo = 0 then (esp, s1) else troca s1 s.proc_atual_ptr proximo :=
  (if_neg h0).trans (if_neg hc)

theorem tick_unico {r : Nat} {t : Sistema} (h : sched_tick s esp = some (r, t)) :
    (∃ r t, sched_tick s esp = some (r, t) ∧ s' = t.no_tempo s.ticks) ↔
      s' = t.no_tempo s.ticks := by
  refine ⟨fun ⟨r', t', he, ht⟩ => ?_, fun ht => ⟨r, t, h, ht⟩⟩
  obtain ⟨-, rfl⟩ := Prod.mk.inj (Option.some.inj (h.symm.trans he))
  exact ht

/-- A section that nobody disturbs does what a tick does to the table. -/
theorem secao_sched_tick (s s' : Sistema) (esp : Nat) : Section secao (.proc_atual esp) s s' ↔
    ∃ r t, sched_tick s esp = some (r, t) ∧ s' = t.no_tempo s.ticks := by
  by_cases h0 : s.proc_atual_ptr = 0
  · have hlast : secao (.proc_atual esp) s = some (none, s) := congrArg some (if_pos h0)
    have htick : sched_tick s esp = some (esp, { s with ticks := s.ticks + 1 }) := if_pos h0
    rw [section_last hlast, tick_unico htick]
    exact Iff.rfl
  rw [secao_testa h0]
  by_cases hc : s.creditos_atuais - 1 > 0
  · have hlast : secao (.testa s.proc_atual_ptr) ((salva s esp).no_tempo s.ticks) =
        some (none, ((salva s esp).no_tempo s.ticks)) := congrArg some (if_pos hc)
    rw [section_last hlast, tick_unico (sched_tick_segue h0 hc esp)]
  have hnext : secao (.testa s.proc_atual_ptr) ((salva s esp).no_tempo s.ticks) =
      some (some (.escolhe s.proc_atual_ptr), ((salva s esp).no_tempo s.ticks)) :=
    congrArg some (if_neg hc)
  have hescolhe := escolher_proximo_no_tempo (salva s esp) s.ticks s.proc_atual_ptr
  rw [section_next hnext]
  cases he : escolher_proximo (salva s esp) s.proc_atual_ptr with
  | none =>
    have hstuck : secao (.escolhe s.proc_atual_ptr) ((salva s esp).no_tempo s.ticks) = none := by
      rw [secao, hescolhe, he]
      rfl
    have hnone : sched_tick s esp = none := by
      rw [sched_tick_eq h0 hc, he]
      rfl
    rw [hnone]
    exact ⟨fun h => absurd h (section_stuck hstuck), fun ⟨_, _, h, _⟩ => nomatch h⟩
  | some c =>
    obtain ⟨c, s1⟩ := c
    have htick := sched_tick_escolhe h0 hc he
    have hsec : secao (.escolhe s.proc_atual_ptr) ((salva s esp).no_tempo s.ticks) =
        some (if c = 0 then (none, s1.no_tempo s.ticks)
          else (some (.pronto s.proc_atual_ptr c), s1.no_tempo s.ticks)) := by
      rw [secao, hescolhe, he]
      rfl
    by_cases hc0 : c = 0
    · rw [if_pos hc0] at hsec htick
      rw [section_last hsec, tick_unico htick]
    · rw [if_neg hc0] at hsec htick
      rw [section_next hsec, secao_troca, tick_unico htick]
      exact Iff.rfl

/-- A tick does not look at the time. -/
theorem sched_tick_no_tempo (s : Sistema) (n : UInt32) (esp : Nat) :
    sched_tick (s.no_tempo n) esp = (sched_tick s esp).map fun (r, t) => (r, t.no_tempo (n + 1)) := by
  by_cases h0 : s.proc_atual_ptr = 0
  · have htick : sched_tick s esp = some (esp, s.no_tempo (s.ticks + 1)) := if_pos h0
    rw [htick]
    exact if_pos h0
  by_cases hc : s.creditos_atuais - 1 > 0
  · rw [sched_tick_segue h0 hc]
    exact sched_tick_segue (s := s.no_tempo n) h0 hc esp
  have hescolhe := escolher_proximo_no_tempo (salva s esp) (n + 1) s.proc_atual_ptr
  rw [sched_tick_eq h0 hc]
  refine (sched_tick_eq (s := s.no_tempo n) h0 hc).trans ?_
  refine (congrArg _ hescolhe).trans ?_
  rw [Option.map_map, Option.map_map]
  refine congrArg (fun f => Option.map f _) (funext fun x => ?_)
  dsimp only [Function.comp]
  split <;> rfl

end Tick

/-! ## The law -/

section Lei

variable {e e' : Maquina} {ι : Type} [DecidableEq ι] {u : Processadores ι} {s : Sistema} {esps : List Nat}

/-- Ticks, one after the other. -/
inductive Batidas (e : Maquina) : List Nat → Maquina → Prop
  | nil : Batidas e [] e
  | snoc {esps : List Nat} {esp r : Nat} {e' : Maquina} {s' : Sistema} : Batidas e esps e' →
      sched_tick e'.sis esp = some (r, s') →
      Batidas e (esps ++ [esp])
        { e' with sis := s', ultimo := Function.update e'.ultimo e'.atual (some esp) }

/-- Sections in a row are ticks in a row. -/
theorem Vida.batidas (h : Vida e) (hs : Serial secao .proc_atual e.sis esps s) :
    ∃ e', Batidas e esps e' ∧ Vida e' ∧ s = e'.sis.no_tempo e.sis.ticks := by
  induction hs with
  | nil => exact ⟨e, .nil, h, rfl⟩
  | @snoc esps esp t u _ hsec ih =>
    obtain ⟨e', hb, hv, rfl⟩ := ih
    obtain ⟨r, t, ht, rfl⟩ := (secao_sched_tick _ _ esp).mp hsec
    rw [sched_tick_no_tempo] at ht
    obtain ⟨⟨r, s'⟩, htick, he⟩ := Option.map_eq_some_iff.mp ht
    obtain ⟨rfl, rfl⟩ := Prod.mk.inj he
    exact ⟨_, hb.snoc htick, hv.avanca (.passo (.sched_tick htick) hv.tabela.pilhas_vivas), rfl⟩

/-- On any number of processors, whatever the order of their accesses: one at most has the lock, as
long as none is in the section the table is that of as many ticks, in the order in which the processors
got the lock, and none gets stuck in the section. -/
theorem the_lock_keeps_the_ticks_apart (h : Vida e) (hr : Run secao .proc_atual e.sis u) :
    (∀ i j, (u.place i).Holds → (u.place j).Holds → i = j) ∧
      (u.locked = true ↔ ∃ i, (u.place i).Holds) ∧
      ((∀ i a, u.place i ≠ .inside a) →
        ∃ e', Batidas e u.taken e' ∧ Vida e' ∧ u.shared = e'.sis.no_tempo e.sis.ticks) ∧
      ∀ i a, u.place i = .inside a → ∃ r, secao a u.shared = some r := by
  have hinv := hr.inv
  refine ⟨hinv.alone, hinv.word, fun hq => h.batidas (hinv.quiet hq), fun i a hi => ?_⟩
  obtain ⟨ks, esp, t, -, hserial, hbegun⟩ := hinv.inside i a hi
  obtain ⟨e', -, hv, rfl⟩ := h.batidas hserial
  obtain ⟨r, s', htick, -⟩ := hv.tabela.ordem.tick esp
  have htick' : sched_tick (e'.sis.no_tempo e.sis.ticks) esp = some (r, s'.no_tempo (e.sis.ticks + 1)) := by
    rw [sched_tick_no_tempo, htick]
    rfl
  exact hbegun.can_step ((secao_sched_tick _ _ esp).mpr ⟨r, _, htick', rfl⟩)

/-- Two processors ask for the lock: one is at the start of the section, and the other one waits. -/
theorem the_second_processor_waits : ∃ e, Vida e ∧ ∃ u : Processadores Bool,
    u.place true = .inside (.proc_atual 5) ∧ u.place false = .spin 7 ∧ u.locked = true ∧
      ∃ r, secao (.proc_atual 5) u.shared = some r := by
  obtain ⟨e, he, -⟩ := vida_primeiro
  have h0 : Run secao .proc_atual e.sis (.start e.sis : Processadores Bool) := .start
  have h1 := h0.step (.call true 5 rfl)
  have h2 := h1.step (.call false 7 rfl)
  have h3 := h2.step (.take (i := true) (k := 5) rfl rfl)
  have h4 := h3.step (.fail (i := false) (k := 7) rfl rfl)
  exact ⟨e, he, _, rfl, rfl, rfl, (the_lock_keeps_the_ticks_apart he h4).2.2.2 true _ rfl⟩

end Lei

end SpaceOS.Proc
