-- The laws of the audit log: what one call appends, the file as the drawing of a chain of hashes, and
-- exactly which restarts leave a file that can be verified from its text.
import Mathlib.Algebra.Group.Nat.Defs
import Mathlib.Data.Nat.ModEq
import SpaceOS.Audit
import SpaceOS.Lib.HashChain
import SpaceOS.Lib.Words

namespace SpaceOS.Audit

open Lib.HashChain Lib.Words

/-! ## Digits -/

theorem digito_hx : ∀ n < 16, digito (hx.getD n 0) = n := by decide

theorem hx_mem : ∀ n < 16, hx.getD n 0 ∈ hx := by decide

theorem nl_not_mem_hx : (10 : UInt8) ∉ hx := by decide

theorem length_hexa (n : Nat) (v : UInt32) (out : List UInt8) :
    (hexa n v out).length = n + out.length := by
  induction n generalizing v out with
  | zero => exact (Nat.zero_add _).symm
  | succ n ih =>
    rw [hexa, ih, List.length_cons]
    omega

@[simp] theorem length_u32_to_hex (v : UInt32) : (u32_to_hex v).length = 8 := length_hexa 8 v []

theorem toNat_nibble (v : UInt32) : (v &&& 0xF).toNat = v.toNat % 16 :=
  toNat_and_low (n := 4) v 0xF rfl

theorem mem_hexa {n : Nat} {v : UInt32} {out : List UInt8} {c : UInt8} (h : c ∈ hexa n v out) :
    c ∈ hx ∨ c ∈ out := by
  induction n generalizing v out with
  | zero => exact Or.inr h
  | succ n ih =>
    rcases ih h with h | h
    · exact Or.inl h
    rcases List.mem_cons.mp h with rfl | h
    · refine Or.inl (hx_mem _ ?_)
      rw [toNat_nibble]
      omega
    · exact Or.inr h

theorem nl_not_mem_u32_to_hex (v : UInt32) : (10 : UInt8) ∉ u32_to_hex v := fun h => by
  rcases mem_hexa h with h | h
  · exact nl_not_mem_hx h
  · simp at h

/-- Reading goes on behind the digits as if the number had been read with them. -/
theorem le_hexa (n : Nat) (v : UInt32) (out : List UInt8) (a : Nat) :
    (hexa n v out).foldl (fun v c => v * 16 + digito c) a =
      out.foldl (fun v c => v * 16 + digito c) (a * 16 ^ n + v.toNat % 16 ^ n) := by
  induction n generalizing v out with
  | zero => simp [hexa, Nat.mod_one]
  | succ n ih =>
    have hs : (v >>> 4).toNat = v.toNat / 16 := toNat_shr v 4 (by decide)
    have hm : v.toNat % (16 * 16 ^ n) = v.toNat % 16 + 16 * (v.toNat / 16 % 16 ^ n) := Nat.mod_mul
    have hd : digito (hx.getD (v &&& 0xF).toNat 0) = v.toNat % 16 := by
      rw [toNat_nibble, digito_hx _ (Nat.mod_lt _ (by decide))]
    rw [hexa, ih, List.foldl_cons, hd, hs, Nat.pow_succ, Nat.mul_comm (16 ^ n) 16, hm]
    congr 1
    rw [Nat.add_mul, Nat.mul_assoc, Nat.mul_comm (16 ^ n) 16]
    omega

/-- The digits of a word read back. -/
theorem le_u32_to_hex (v : UInt32) : UInt32.ofNat (le_hex (u32_to_hex v)) = v := by
  have h := le_hexa 8 v [] 0
  have hv : v.toNat < 16 ^ 8 := v.toNat_lt
  rw [Nat.zero_mul, Nat.zero_add, List.foldl_nil, Nat.mod_eq_of_lt hv] at h
  rw [le_hex, u32_to_hex, h, UInt32.ofNat_toNat]

/-! ## The hash -/

theorem mul_33_inj {g h : Nat} (hg : g < 2 ^ 32) (hh : h < 2 ^ 32)
    (e : g * 33 % 2 ^ 32 = h * 33 % 2 ^ 32) : g = h := by
  have hc : Nat.gcd (2 ^ 32) 33 = 1 := by decide
  have hm : g ≡ h [MOD 2 ^ 32] := Nat.ModEq.cancel_right_of_coprime hc e
  exact hm.eq_of_lt_of_lt hg hh

theorem toNat_33 (x : UInt32) : ((x <<< 5) + x).toNat = x.toNat * 33 % 2 ^ 32 := by
  have h5 : (5 : UInt32).toNat = 5 := rfl
  rw [UInt32.toNat_add, toNat_shl x 5 (by decide), h5]
  omega

/-- One turn of `djb2` loses nothing of the hash it starts from: 33 is odd. -/
theorem volta_injective (b : UInt8) :
    Function.Injective fun h : UInt32 => ((h <<< 5) + h) + b.toUInt32 := by
  intro g h e
  simp only [UInt32.add_left_inj] at e
  have hn := congrArg UInt32.toNat e
  rw [toNat_33, toNat_33] at hn
  exact UInt32.toNat_inj.mp (mul_33_inj g.toNat_lt h.toNat_lt hn)

theorem djb2_injective (data : List UInt8) : Function.Injective (djb2 data) := by
  intro g h e
  induction data generalizing g h with
  | nil => exact e
  | cons b data ih => exact volta_injective b (ih e)

/-! ## What a call appends -/

/-- At most 64 printable characters. -/
def Imprimivel (s : List UInt8) : Prop := s.length ≤ 64 ∧ ∀ c ∈ s, 32 ≤ c ∧ c ≤ 126

instance (s : List UInt8) : Decidable (Imprimivel s) :=
  letI : Decidable (∀ c ∈ s, 32 ≤ c ∧ c ≤ 126) := List.decidableBAll _ s
  inferInstanceAs (Decidable (_ ∧ _))

theorem Imprimivel.nl {s : List UInt8} (h : Imprimivel s) : (10 : UInt8) ∉ s := fun hm =>
  absurd (h.2 10 hm).1 (by decide)

theorem append_str_eq {buf s : List UInt8} {max : Nat} (h : buf.length + s.length ≤ max - 1) :
    append_str buf s max = buf ++ s := by
  induction s generalizing buf with
  | nil => simp [append_str]
  | cons c s ih =>
    rw [List.length_cons] at h
    rw [append_str, if_pos (by omega), ih (by rw [List.length_append, List.length_singleton]; omega),
      List.append_assoc, List.singleton_append]

/-- No part of an entry is cut. -/
theorem texto_eq (ticks : UInt32) {event details : List UInt8} (he : Imprimivel event)
    (hd : Imprimivel details) :
    texto ticks event details = [84, 61] ++ u32_to_hex ticks ++ [32, 69, 61] ++ event ++
      [32, 68, 61] ++ details ++ [32, 72, 61] := by
  have h1 := he.1
  have h2 := hd.1
  have e1 : append_str [] [84, 61] 256 = [84, 61] := rfl
  have e2 : append_str [84, 61] (u32_to_hex ticks) 256 = [84, 61] ++ u32_to_hex ticks :=
    append_str_eq (by simp)
  have e3 : append_str ([84, 61] ++ u32_to_hex ticks) [32, 69, 61] 256 =
      [84, 61] ++ u32_to_hex ticks ++ [32, 69, 61] := append_str_eq (by simp)
  have e4 : append_str ([84, 61] ++ u32_to_hex ticks ++ [32, 69, 61]) event 256 =
      [84, 61] ++ u32_to_hex ticks ++ [32, 69, 61] ++ event :=
    append_str_eq (by simp; omega)
  have e5 : append_str ([84, 61] ++ u32_to_hex ticks ++ [32, 69, 61] ++ event) [32, 68, 61] 256 =
      [84, 61] ++ u32_to_hex ticks ++ [32, 69, 61] ++ event ++ [32, 68, 61] :=
    append_str_eq (by simp; omega)
  rw [texto, List.take_of_length_le h2, e1, e2, e3, e4, e5, append_str_eq (by simp; omega)]

/-- A text whose line can be told from the others. -/
def Texto (t : List UInt8) : Prop := (10 : UInt8) ∉ t ∧ [32, 72, 61] <:+ t

theorem texto_texto (ticks : UInt32) {event details : List UInt8} (he : Imprimivel event)
    (hd : Imprimivel details) : Texto (texto ticks event details) := by
  rw [texto_eq ticks he hd]
  refine ⟨?_, List.suffix_append _ _⟩
  simp [nl_not_mem_u32_to_hex, he.nl, hd.nl]

theorem length_texto (ticks : UInt32) {event details : List UInt8} (he : Imprimivel event)
    (hd : Imprimivel details) : (texto ticks event details).length ≤ 147 := by
  have h1 := he.1
  have h2 := hd.1
  rw [texto_eq ticks he hd]
  simp
  omega

/-! ## The file and the chain -/

/-- The hash of a line, keyed with the one before it. -/
abbrev hash : List UInt8 → UInt32 → UInt32 := djb2

abbrev Linha := List UInt8 × UInt32

/-- A line without its newline. -/
def desenha (l : Linha) : List UInt8 := l.1 ++ u32_to_hex l.2

/-- The bytes of the file that has these lines. -/
def arquivo_de (ls : List Linha) : List UInt8 := ls.flatMap fun l => desenha l ++ [10]

@[simp] theorem corpo_desenha (l : Linha) : corpo (desenha l) = l.1 := by
  simp [corpo, desenha]

@[simp] theorem impresso_desenha (l : Linha) : impresso (desenha l) = l.2 := by
  rw [impresso, desenha, List.length_append, length_u32_to_hex, Nat.add_sub_cancel,
    List.drop_left, le_u32_to_hex]

theorem linhas_append {xs : List UInt8} (h : (10 : UInt8) ∉ xs) (linha rest : List UInt8) :
    linhas linha (xs ++ [10] ++ rest) = (linha ++ xs) :: linhas [] rest := by
  induction xs generalizing linha with
  | nil => simp [linhas]
  | cons c xs ih =>
    rw [List.mem_cons, not_or] at h
    rw [List.cons_append, List.cons_append, linhas, if_neg (Ne.symm h.1), ih h.2, List.append_assoc,
      List.singleton_append]

theorem nl_not_mem_desenha {l : Linha} (h : Texto l.1) : (10 : UInt8) ∉ desenha l := by
  rw [desenha, List.mem_append, not_or]
  exact ⟨h.1, nl_not_mem_u32_to_hex _⟩

/-- The lines of the file are the lines that were written. -/
theorem linhas_arquivo_de {ls : List Linha} (h : ∀ l ∈ ls, Texto l.1) :
    linhas [] (arquivo_de ls) = ls.map desenha := by
  induction ls with
  | nil => rfl
  | cons l ls ih =>
    have hl := nl_not_mem_desenha (h l List.mem_cons_self)
    rw [arquivo_de, List.flatMap_cons, linhas_append hl, List.nil_append, List.map_cons]
    exact congrArg _ (ih fun l' hm => h l' (List.mem_cons_of_mem _ hm))

/-- The verification of the text is that of the chain. -/
theorem confere_desenha {ls : List Linha} (h : ∀ l ∈ ls, Texto l.1) (seed : UInt32) :
    confere seed (ls.map desenha) = true ↔ Linked hash seed ls := by
  induction ls generalizing seed with
  | nil => simp [confere, Linked]
  | cons l ls ih =>
    obtain ⟨t, d⟩ := l
    have hs : [32, 72, 61].isSuffixOf t = true :=
      List.isSuffixOf_iff_suffix.mpr (h (t, d) List.mem_cons_self).2
    have hd : desenha (t, d) = t ++ u32_to_hex (djb2 t seed) ↔ d = djb2 t seed := by
      constructor
      · intro e
        have := congrArg impresso e
        rw [impresso_desenha] at this
        exact this.trans (impresso_desenha (t, djb2 t seed))
      · rintro rfl
        rfl
    rw [List.map_cons, confere, corpo_desenha, impresso_desenha, hs, Linked,
      ← ih (fun l' hm => h l' (List.mem_cons_of_mem _ hm)) d, ← hd]
    simp

theorem ultimo_hash_arquivo_de {ls : List Linha} (h : ∀ l ∈ ls, Texto l.1) :
    ultimo_hash (arquivo_de ls) = tip 5381 ls := by
  rw [ultimo_hash, linhas_arquivo_de h, List.getLast?_map, Option.map_map, tip]
  congr 2
  funext l
  exact impresso_desenha l

/-! ## The kernel against the writer -/

/-- `vfs_append` appends exactly the bytes it is given. -/
def Acrescenta (vfs_append : List UInt8 → List UInt8 → List UInt8) : Prop :=
  ∀ arquivo dados, vfs_append arquivo dados = arquivo ++ dados

/-- What the caller gives is within the format. -/
def Evento.Admite : Evento → Prop
  | .audit_log _ event details => Imprimivel event ∧ Imprimivel details
  | .reinicio _ _ => True

/-- The event logs a line. -/
def Evento.escreve : Evento → Bool
  | .audit_log _ _ _ => true
  | .reinicio montado _ => montado

theorem imprimivel_boot : Imprimivel evento_boot ∧ Imprimivel detalhes_boot := by decide

/-- The static variable is the writer's memory, and the file the drawing of its lines. -/
structure Mostra (s : Estado) (w : Lib.HashChain.Writer (List UInt8) UInt32) : Prop where
  last_hash : s.last_hash = w.mem
  arquivo : s.arquivo = arquivo_de w.lines
  textos : ∀ l ∈ w.lines, Texto l.1

/-- What an event does to the writer. -/
def Evento.atos : Evento → List (Act (List UInt8))
  | .audit_log ticks event details => [.log (texto ticks event details)]
  | .reinicio montado ticks =>
    .restart :: if montado then [.log (texto ticks evento_boot detalhes_boot)] else []

section Conjunto

variable {vfs_append : List UInt8 → List UInt8 → List UInt8} {s : Estado}
  {w : Lib.HashChain.Writer (List UInt8) UInt32}

theorem audit_log_mostra (hv : Acrescenta vfs_append) (h : Mostra s w) (ticks : UInt32)
    {event details : List UInt8} (he : Imprimivel event) (hd : Imprimivel details) :
    Mostra (audit_log vfs_append s ticks event details)
      (w.step hash 5381 (.log (texto ticks event details))) := by
  have hl := length_texto ticks he hd
  have ht := texto_texto ticks he hd
  have hx : ∀ v, append_str (texto ticks event details) (u32_to_hex v) 256 =
      desenha (texto ticks event details, v) := fun v =>
    append_str_eq (by rw [length_u32_to_hex]; omega)
  have hn : ∀ v, (desenha (texto ticks event details, v)).length < 255 := fun v => by
    simp only [desenha, List.length_append, length_u32_to_hex]
    omega
  refine ⟨?_, ?_, ?_⟩
  · simp only [audit_log, Writer.step, h.last_hash]
  · simp only [audit_log, Writer.step, hx, hn, if_true, hv _ _, h.arquivo, h.last_hash, arquivo_de,
      List.flatMap_append, List.flatMap_singleton]
  · intro l hm
    rcases List.mem_append.mp hm with hm | hm
    · exact h.textos l hm
    · rw [List.mem_singleton.mp hm]
      exact ht

theorem restart_mostra (h : Mostra s w) :
    Mostra { s with last_hash := 5381 } (w.step hash 5381 .restart) :=
  ⟨rfl, h.arquivo, h.textos⟩

theorem passo_mostra (hv : Acrescenta vfs_append) (h : Mostra s w) {e : Evento} (he : e.Admite) :
    Mostra (passo vfs_append s e) (w.run hash 5381 e.atos) := by
  cases e with
  | audit_log ticks event details => exact audit_log_mostra hv h ticks he.1 he.2
  | reinicio montado ticks =>
    have hr := restart_mostra h
    cases montado with
    | false => exact hr
    | true => exact audit_log_mostra hv hr ticks imprimivel_boot.1 imprimivel_boot.2

theorem roda_mostra (hv : Acrescenta vfs_append) (h : Mostra s w) {es : List Evento}
    (he : ∀ e ∈ es, e.Admite) :
    Mostra (roda vfs_append s es) (w.run hash 5381 (es.flatMap Evento.atos)) := by
  induction es generalizing s w with
  | nil => exact h
  | cons e es ih =>
    have h1 := passo_mostra hv h (he e List.mem_cons_self)
    have hr := ih h1 fun e' hm => he e' (List.mem_cons_of_mem _ hm)
    rwa [List.flatMap_cons, Writer.run, List.foldl_append]

/-! ## Restarts -/

/-- The file is verified from its text alone. -/
def Verificavel (s : Estado) : Prop := confere 5381 (linhas [] s.arquivo) = true

theorem verificavel_iff (h : Mostra s w) : Verificavel s ↔ Linked hash 5381 w.lines := by
  rw [Verificavel, h.arquivo, linhas_arquivo_de h.textos]
  exact confere_desenha h.textos 5381

/-- The restarts of the machine that some later line follows, the one of the start itself included,
find no line in the file, or one that prints 5381 at its end. -/
def SemCorte (vfs_append : List UInt8 → List UInt8 → List UInt8) (s : Estado) :
    List Evento → Prop
  | [] => True
  | .audit_log ticks event details :: es =>
    SemCorte vfs_append (passo vfs_append s (.audit_log ticks event details)) es
  | .reinicio montado ticks :: es =>
    ((montado = true ∨ ∃ e ∈ es, e.escreve = true) → ultimo_hash s.arquivo = 5381) ∧
      SemCorte vfs_append (passo vfs_append s (.reinicio montado ticks)) es

theorem writes_atos (es : List Evento) :
    Writes (es.flatMap Evento.atos) ↔ ∃ e ∈ es, e.escreve = true := by
  have he : ∀ e : Evento, (∃ t, Act.log t ∈ e.atos) ↔ e.escreve = true := by
    intro e
    cases e with
    | audit_log ticks event details => simp [Evento.atos, Evento.escreve]
    | reinicio montado ticks => cases montado <;> simp [Evento.atos, Evento.escreve]
  simp only [Writes, List.mem_flatMap, ← he]
  constructor
  · rintro ⟨t, e, hm, ht⟩
    exact ⟨e, hm, t, ht⟩
  · rintro ⟨e, hm, t, ht⟩
    exact ⟨t, e, hm, ht⟩

theorem semCorte_iff (hv : Acrescenta vfs_append) (h : Mostra s w) {es : List Evento}
    (he : ∀ e ∈ es, e.Admite) :
    SemCorte vfs_append s es ↔ Calm hash 5381 w (es.flatMap Evento.atos) := by
  induction es generalizing s w with
  | nil => exact Iff.rfl
  | cons e es ih =>
    have hr := ih (passo_mostra hv h (he e List.mem_cons_self))
      fun e' hm => he e' (List.mem_cons_of_mem _ hm)
    cases e with
    | audit_log ticks event details => exact hr
    | reinicio montado ticks =>
      have hu : ultimo_hash s.arquivo = tip 5381 w.lines := by
        rw [h.arquivo, ultimo_hash_arquivo_de h.textos]
      rw [SemCorte, hr, hu, ← writes_atos]
      cases montado with
      | false => simp [Evento.atos, Calm, Writer.run]
      | true => simp [Evento.atos, Calm, Writer.run]

theorem mostra_inicio : Mostra .inicio ⟨5381, []⟩ :=
  ⟨rfl, rfl, fun _ hm => absurd hm List.not_mem_nil⟩

end Conjunto

/-- Exactly the runs without a restart between two lines, but for one at the hash 5381, leave a file
that can be verified. -/
theorem verificavel_iff_semCorte (vfs_append : List UInt8 → List UInt8 → List UInt8)
    (hv : Acrescenta vfs_append) (es : List Evento) (he : ∀ e ∈ es, e.Admite) :
    Verificavel (roda vfs_append .inicio es) ↔ SemCorte vfs_append .inicio es := by
  rw [verificavel_iff (roda_mostra hv mostra_inicio he), semCorte_iff hv mostra_inicio he]
  exact linked_run_iff (w := ⟨5381, []⟩) djb2_injective trivial rfl _

/-- A start, a call and a second start. -/
theorem verificavel_iff_semCorte_tres :
    Acrescenta (· ++ ·) ∧
      (Verificavel (roda (· ++ ·) .inicio
          [.reinicio true 1, .audit_log 2 [76] [111], .reinicio true 3]) ↔
        SemCorte (· ++ ·) .inicio
          [.reinicio true 1, .audit_log 2 [76] [111], .reinicio true 3]) :=
  ⟨fun _ _ => rfl, verificavel_iff_semCorte _ (fun _ _ => rfl) _ (by
    intro e hm
    simp only [List.mem_cons, List.not_mem_nil, or_false] at hm
    rcases hm with rfl | rfl | rfl
    · trivial
    · exact ⟨by decide, by decide⟩
    · trivial)⟩

/-- Two starts of the kernel are enough: the second line is keyed with 5381 again. -/
theorem reinicio_quebra_cadeia :
    ¬ ∀ vfs_append, Acrescenta vfs_append → ∀ es : List Evento, (∀ e ∈ es, e.Admite) →
      Verificavel (roda vfs_append .inicio es) := by
  intro h
  have hb := h (· ++ ·) (fun _ _ => rfl) [.reinicio true 0, .reinicio true 0] (by
    intro e hm
    simp only [List.mem_cons, List.not_mem_nil, or_false, or_self] at hm
    rw [hm]
    trivial)
  revert hb
  unfold Verificavel
  decide +kernel

end SpaceOS.Audit
