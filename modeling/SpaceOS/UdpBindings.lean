-- The binding table of udp.c over any sequence of `udp_bind` and `udp_unbind`. Read by port it is a map
-- in any run; a port gets a second slot where it is bound again behind a slot that was set free.
import Mathlib.Data.List.Induction
import SpaceOS.Lib.SlotTable
import SpaceOS.Stack

open Lib.SlotTable

namespace SpaceOS.Net

/-- The first number is what the call returns. -/
def udp_bind (t : Rede) (port : UInt16) (handler : Nat) : Int × Rede :=
  match (List.finRange UDP_MAX_HANDLERS).find? fun i =>
    (t.bindings i).handler = 0 ∨ (t.bindings i).port = port with
  | some i => (0, { t with bindings := Function.update t.bindings i ⟨port, handler⟩ })
  | none => (-1, t)

def udp_unbind (t : Rede) (port : UInt16) : Rede :=
  { t with bindings := fun i => if (t.bindings i).port = port then ⟨0, 0⟩ else t.bindings i }

/-! ## Runs -/

inductive Operacao where
  | bind (port : UInt16) (handler : Nat)
  | unbind (port : UInt16)
  deriving DecidableEq

/-- The stack, and for each port the handler that was bound to it last and not unbound since. -/
structure Historia where
  rede : Rede
  ligado : UInt16 → Option Nat

def Historia.passo (s : Historia) : Operacao → Historia
  | .bind port handler =>
    let (ret, t) := udp_bind s.rede port handler
    ⟨t, if ret = 0 then Function.update s.ligado port (some handler) else s.ligado⟩
  | .unbind port => ⟨udp_unbind s.rede port, Function.update s.ligado port none⟩

/-- The history of the calls `ops`, the first one first, from the stack `t` without bindings on. -/
def historia (t : Rede) (ops : List Operacao) : Historia := ops.foldl Historia.passo ⟨t, fun _ => none⟩

/-- No slot of the table is taken. -/
def SemLigacoes (t : Rede) : Prop := ∀ i, t.bindings i = ⟨0, 0⟩

/-- The handlers are not null. -/
def Validas (ops : List Operacao) : Prop := ∀ port handler, .bind port handler ∈ ops → handler ≠ 0

/-- The table is a map of up to eight ports. -/
structure Historia.Mapa (s : Historia) : Prop where
  unica : ∀ i j, (s.rede.bindings i).handler ≠ 0 → (s.rede.bindings j).handler ≠ 0 →
    (s.rede.bindings i).port = (s.rede.bindings j).port → i = j
  entrega : ∀ p : Pacote, trata_pacote s.rede p =
    match s.ligado p.dst_port with
    | none => s.rede
    | some handler => { s.rede with
        datagramas := ⟨handler, 0, p.src_port, p.payload⟩ :: s.rede.datagramas }
  cheia : ∀ port handler, s.ligado port = none → (udp_bind s.rede port handler).1 = -1 →
    ∃ ps : List UInt16, ps.Nodup ∧ ps.length = UDP_MAX_HANDLERS ∧ ∀ p ∈ ps, s.ligado p ≠ none

/-- The port is bound in a slot behind a free one. -/
def Escondida (t : Rede) (port : UInt16) : Prop :=
  ∃ i j, i < j ∧ (t.bindings i).handler = 0 ∧ (t.bindings j).handler ≠ 0 ∧
    (t.bindings j).port = port

/-! ## The table of slots -/

/-- What a slot holds. -/
def slot_de (l : Ligacao) : Option (UInt16 × Nat) :=
  if l.handler = 0 then none else some (l.port, l.handler)

section Tabela

variable (t : Rede) (port : UInt16) (handler : Nat)

def ligacoes : Table UDP_MAX_HANDLERS UInt16 Nat := fun i => slot_de (t.bindings i)

theorem ligacoes_eq_none (i : Fin UDP_MAX_HANDLERS) :
    ligacoes t i = none ↔ (t.bindings i).handler = 0 := by
  unfold ligacoes slot_de
  split <;> simp [*]

theorem hit_ligacoes (i : Fin UDP_MAX_HANDLERS) :
    hit (ligacoes t) port i =
      if (t.bindings i).handler ≠ 0 ∧ (t.bindings i).port = port then
        some (t.bindings i).handler else none := by
  unfold hit ligacoes slot_de
  by_cases h : (t.bindings i).handler = 0 <;> simp [h]

theorem isSome_hit_ligacoes (i : Fin UDP_MAX_HANDLERS) :
    (hit (ligacoes t) port i).isSome ↔
      (t.bindings i).handler ≠ 0 ∧ (t.bindings i).port = port := by
  rw [hit_ligacoes]
  split <;> simp [*]

theorem escondida_iff : Escondida t port ↔ Behind (ligacoes t) port := by
  unfold Escondida Behind
  simp only [ligacoes_eq_none, isSome_hit_ligacoes]

theorem place_ligacoes :
    place (ligacoes t) port = (List.finRange UDP_MAX_HANDLERS).find? fun i =>
      (t.bindings i).handler = 0 ∨ (t.bindings i).port = port := by
  unfold place
  rw [Fin.find?_eq_find?_finRange]
  congr 1
  funext i
  rw [Bool.eq_iff_iff, Bool.or_eq_true, isSome_hit_ligacoes, Option.isNone_iff_eq_none,
    ligacoes_eq_none, decide_eq_true_iff]
  tauto

/-- A bind returns 0 and puts the entry in its slot, or the table is full of other ports. -/
theorem udp_bind_cases (hh : handler ≠ 0) :
    (udp_bind t port handler).1 = 0 ∧
        put (ligacoes t) port handler = some (ligacoes (udp_bind t port handler).2) ∨
      udp_bind t port handler = (-1, t) ∧ put (ligacoes t) port handler = none := by
  unfold udp_bind put
  rw [place_ligacoes]
  cases (List.finRange UDP_MAX_HANDLERS).find? fun i =>
      (t.bindings i).handler = 0 ∨ (t.bindings i).port = port with
  | none => exact Or.inr ⟨rfl, rfl⟩
  | some i =>
    refine Or.inl ⟨rfl, congrArg some (funext fun j => ?_)⟩
    change Function.update (ligacoes t) i _ j =
      slot_de (Function.update t.bindings i ⟨port, handler⟩ j)
    by_cases hj : j = i
    · rw [hj, Function.update_self, Function.update_self]
      exact (if_neg hh).symm
    · rw [Function.update_of_ne hj, Function.update_of_ne hj]
      rfl

theorem ret_udp_bind (h : (udp_bind t port handler).1 = -1) : put (ligacoes t) port 1 = none := by
  unfold udp_bind at h
  unfold put
  rw [place_ligacoes]
  split at h
  · exact absurd h (show (0 : Int) ≠ -1 by decide)
  · next hnone => rw [hnone]; rfl

theorem ligacoes_udp_unbind : ligacoes (udp_unbind t port) = drop (ligacoes t) port := by
  funext i
  unfold drop
  by_cases hp : (t.bindings i).port = port
  · have hnone : ligacoes (udp_unbind t port) i = none := by
      rw [ligacoes_eq_none]
      unfold udp_unbind
      dsimp only
      rw [if_pos hp]
    rw [hnone]
    by_cases hh : (t.bindings i).handler = 0
    · rw [(ligacoes_eq_none t i).mpr hh, ite_self]
    · rw [if_pos ((isSome_hit_ligacoes t port i).mpr ⟨hh, hp⟩)]
  · rw [if_neg fun h => hp ((isSome_hit_ligacoes t port i).mp h).2]
    change slot_de (if _ then _ else _) = slot_de _
    rw [if_neg hp]

/-- The handler of a port is what the table gives for it. -/
theorem handler_de_eq : handler_de t port = lookup (ligacoes t) port := by
  have hsome : (fun i => (hit (ligacoes t) port i).isSome) =
      fun i => decide ((t.bindings i).handler ≠ 0 ∧ (t.bindings i).port = port) := by
    funext i
    rw [Bool.eq_iff_iff, isSome_hit_ligacoes, decide_eq_true_iff]
  unfold handler_de lookup
  rw [← Fin.bind_find?_isSome, hsome, Fin.find?_eq_find?_finRange]
  cases h : (List.finRange UDP_MAX_HANDLERS).find? fun i =>
      (t.bindings i).handler ≠ 0 ∧ (t.bindings i).port = port with
  | none => rfl
  | some i =>
    have hi : (t.bindings i).handler ≠ 0 ∧ (t.bindings i).port = port := by
      simpa using List.find?_some h
    rw [Option.map_some, Option.bind_some, hit_ligacoes, if_pos hi]

end Tabela

/-! ## One call -/

section Passo

variable {s : Historia} {port : UInt16} {handler : Nat}

/-- In the table, each port has the handler that was bound to it last. -/
def Historia.Fiel (s : Historia) : Prop := lookup (ligacoes s.rede) = s.ligado

theorem Historia.Fiel.bind (h : s.Fiel) (hh : handler ≠ 0) : (s.passo (.bind port handler)).Fiel := by
  unfold Historia.Fiel Historia.passo
  dsimp only
  rcases udp_bind_cases s.rede port handler hh with ⟨hret, hput⟩ | ⟨he, -⟩
  · rw [hret, if_pos rfl, lookup_put hput, h]
  · rw [he, if_neg (show (-1 : Int) ≠ 0 by decide)]
    exact h

theorem Historia.Fiel.unbind (h : s.Fiel) : (s.passo (.unbind port)).Fiel := by
  unfold Historia.Fiel Historia.passo
  dsimp only
  rw [ligacoes_udp_unbind, lookup_drop, h]

/-- A bind keeps each port to one slot exactly where the port is not behind a free slot. -/
theorem unique_bind (hu : Unique (ligacoes s.rede)) (hh : handler ≠ 0) :
    Unique (ligacoes (s.passo (.bind port handler)).rede) ↔ ¬ Escondida s.rede port := by
  rw [escondida_iff]
  change Unique (ligacoes (udp_bind s.rede port handler).2) ↔ _
  rcases udp_bind_cases s.rede port handler hh with ⟨-, hput⟩ | ⟨he, hput⟩
  · exact unique_put hu hput
  · rw [he]
    refine iff_of_true hu ?_
    rintro ⟨i, j, -, hfree, -⟩
    exact (put_eq_none.mp hput).1 i hfree

theorem unique_unbind (hu : Unique (ligacoes s.rede)) :
    Unique (ligacoes (s.passo (.unbind port)).rede) := by
  change Unique (ligacoes (udp_unbind s.rede port))
  rw [ligacoes_udp_unbind]
  exact unique_drop hu

theorem Historia.Mapa.unique (h : s.Mapa) : Unique (ligacoes s.rede) := by
  intro port i j hi hj
  obtain ⟨hi, hpi⟩ := (isSome_hit_ligacoes s.rede port i).mp hi
  obtain ⟨hj, hpj⟩ := (isSome_hit_ligacoes s.rede port j).mp hj
  exact h.unica i j hi hj (hpi.trans hpj.symm)

theorem Historia.Fiel.mapa (h : s.Fiel) (hu : Unique (ligacoes s.rede)) : s.Mapa where
  unica i j hi hj hp :=
    hu (s.rede.bindings i).port i j ((isSome_hit_ligacoes _ _ i).mpr ⟨hi, rfl⟩)
      ((isSome_hit_ligacoes _ _ j).mpr ⟨hj, hp.symm⟩)
  entrega p := by
    unfold trata_pacote
    rewrite [handler_de_eq, h]
    rfl
  cheia port handler _ hret := by
    have hfull := (put_eq_none.mp (ret_udp_bind s.rede port handler hret)).1
    rw [← h]
    exact keys_of_full hu hfull

end Passo

/-! ## Any sequence of calls -/

section Sequencia

variable {t : Rede} {ops : List Operacao}

theorem historia_concat (t : Rede) (ops : List Operacao) (op : Operacao) :
    historia t (ops ++ [op]) = (historia t ops).passo op := by
  unfold historia
  rw [List.foldl_append]
  rfl

theorem ligacoes_vazia (h0 : SemLigacoes t) (i : Fin UDP_MAX_HANDLERS) : ligacoes t i = none := by
  rw [ligacoes_eq_none, h0 i]

/-- Whatever is bound and unbound, datagrams go to the handlers that were bound last. -/
theorem fiel_historia (h0 : SemLigacoes t) (hv : Validas ops) : (historia t ops).Fiel := by
  induction ops using List.reverseRecOn with
  | nil => exact funext fun port => lookup_eq_none.mpr fun i => hit_of_free (ligacoes_vazia h0 i)
  | append_singleton ops op ih =>
    have ih := ih fun port handler h => hv port handler (List.mem_append_left _ h)
    rw [historia_concat]
    cases op with
    | bind port handler =>
      exact ih.bind (hv port handler (List.mem_append_right _ (List.mem_singleton_self _)))
    | unbind port => exact ih.unbind

theorem unique_historia (h0 : SemLigacoes t) (hv : Validas ops)
    (hc : ∀ antes port handler depois, ops = antes ++ .bind port handler :: depois →
      ¬ Escondida (historia t antes).rede port) : Unique (ligacoes (historia t ops).rede) := by
  induction ops using List.reverseRecOn with
  | nil =>
    intro port i j hi
    rw [hit_of_free (show ligacoes (historia t []).rede i = none from ligacoes_vazia h0 i)] at hi
    exact absurd hi Bool.false_ne_true
  | append_singleton ops op ih =>
    have ih := ih (fun port handler h => hv port handler (List.mem_append_left _ h))
      fun antes port handler depois he =>
        hc antes port handler (depois ++ [op]) (by rw [he, List.append_assoc, List.cons_append])
    rw [historia_concat]
    cases op with
    | bind port handler =>
      have hh := hv port handler (List.mem_append_right _ (List.mem_singleton_self _))
      exact (unique_bind ih hh).mpr (hc ops port handler [] rfl)
    | unbind port => exact unique_unbind ih

/-- In a run the table stays a map of up to eight ports exactly where no port is bound again that
lies behind a free slot. -/
theorem the_bindings_stay_a_map_iff (h0 : SemLigacoes t) (hv : Validas ops) :
    (∀ antes depois, ops = antes ++ depois → (historia t antes).Mapa) ↔
      ∀ antes port handler depois, ops = antes ++ .bind port handler :: depois →
        ¬ Escondida (historia t antes).rede port := by
  constructor
  · rintro h antes port handler depois rfl
    have hh := hv port handler (List.mem_append_right _ List.mem_cons_self)
    have hu := (h antes (.bind port handler :: depois) rfl).unique
    have hu' := (h (antes ++ [.bind port handler]) depois (by simp)).unique
    rw [historia_concat] at hu'
    exact (unique_bind hu hh).mp hu'
  · rintro hc antes depois rfl
    have hva : Validas antes := fun port handler h => hv port handler (List.mem_append_left _ h)
    refine (fiel_historia h0 hva).mapa (unique_historia h0 hva ?_)
    rintro antes' port handler depois' rfl
    exact hc antes' port handler (depois' ++ depois) (by simp)

end Sequencia

/-- A host with nothing bound. -/
def rede_vazia : Rede := Rede.inicio (List.replicate 6 2) [] fun _ => true

theorem sem_ligacoes_vazia : SemLigacoes rede_vazia := fun _ => rfl

/-- Two ports are bound, the first is unbound, and the second is bound again. -/
def religa : List Operacao := [.bind 53 1, .bind 68 2, .unbind 53, .bind 68 2]

theorem validas_religa : Validas religa := by
  intro port handler h
  unfold religa at h
  simp only [List.mem_cons, Operacao.bind.injEq, reduceCtorEq, List.not_mem_nil, or_false,
    false_or] at h
  omega

theorem the_bindings_stay_a_map_until_the_port_is_bound_again :
    (∀ antes depois, religa.take 3 = antes ++ depois → (historia rede_vazia antes).Mapa) ↔
      ∀ antes port handler depois, religa.take 3 = antes ++ .bind port handler :: depois →
        ¬ Escondida (historia rede_vazia antes).rede port :=
  the_bindings_stay_a_map_iff sem_ligacoes_vazia fun port handler h =>
    validas_religa port handler (List.mem_of_mem_take h)

theorem a_port_bound_again_gets_two_slots : ¬ ∀ (t : Rede) (ops : List Operacao), SemLigacoes t →
    Validas ops → (historia t ops).Mapa := by
  intro h
  have hu := (h rede_vazia religa sem_ligacoes_vazia validas_religa).unica ⟨0, by decide⟩
    ⟨1, by decide⟩ (by decide) (by decide) (by decide)
  exact absurd hu (by decide)

end SpaceOS.Net
