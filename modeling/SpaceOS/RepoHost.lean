-- Which hosts of the repository are taken as an IP literal, and which go to the DNS.
import SpaceOS.Lib.Pieces
import SpaceOS.PkgRemote

open Lib.Pieces

namespace SpaceOS.Pkg

/-! ## Literals -/

/-- The number that a run of digits is. -/
def valor (digitos : List UInt8) : Nat := digitos.foldl (fun n c => n * 10 + (c.toNat - 48)) 0

/-- A decimal number of 0 to 255. -/
def Numero (p : List UInt8) : Prop := p ≠ [] ∧ (∀ c ∈ p, Digito c) ∧ valor p ≤ 255

instance (p : List UInt8) : Decidable (Numero p) := inferInstanceAs (Decidable (_ ∧ _ ∧ _))

/-- The address that a literal gives: four numbers between single dots, and nothing else. -/
def literal (host : List UInt8) : Option UInt32 :=
  match host.splitOn 46 with
  | [a, b, c, d] =>
    if Numero a ∧ Numero b ∧ Numero c ∧ Numero d then
      some (UInt32.ofNat (((valor a * 256 + valor b) * 256 + valor c) * 256 + valor d))
    else none
  | _ => none

example : literal Repositorio.padrao.repo_host = some 0x0A000202 := by decide +kernel

/-- A literal gives its address without a query, any other host what the query gives. -/
def Exato (host : List UInt8) : Prop :=
  ∀ (σ : Type) (dns_resolve : List UInt8 → σ → Option UInt32 × σ) (s : σ),
    resolve_host dns_resolve host s =
      match literal host with
      | some ip => (ip, s)
      | none => ((dns_resolve host s).1.getD 0, (dns_resolve host s).2)

/-- The host has digits and dots alone. -/
def SoNumeros (host : List UInt8) : Prop := ∀ c ∈ host, Digito c ∨ c = 46

instance (host : List UInt8) : Decidable (SoNumeros host) :=
  inferInstanceAs (Decidable (∀ c ∈ host, _))

/-- The host is a literal, or it has digits and dots alone, and fewer than four pieces between the
dots, of which an empty last one does not count. -/
def Distinguivel (host : List UInt8) : Prop :=
  literal host ≠ none ∨ SoNumeros host ∧ (pieces 46 host).length < 4

instance (host : List UInt8) : Decidable (Distinguivel host) :=
  inferInstanceAs (Decidable (_ ∨ _ ∧ _))

/-- A host that is set fits its buffer with its zero, and ends before a port. -/
theorem repo_host_de_set_repo (r : Repositorio) (host_port : List UInt8) :
    (pkg_remote_set_repo r host_port).repo_host.length ≤ 31 ∧
      58 ∉ (pkg_remote_set_repo r host_port).repo_host := by
  unfold pkg_remote_set_repo
  refine ⟨(List.takeWhile_prefix _).length_le.trans (List.length_take_le 31 host_port), fun h => ?_⟩
  simpa using List.mem_takeWhile_imp h

/-! ## The loop -/

section Laco

variable {p r : List UInt8} {n : Nat} {ip : UInt32}

theorem takeWhile_digitos (h : ∀ c ∈ p, Digito c) : (p.takeWhile fun c => Digito c) = p :=
  List.takeWhile_eq_self_iff.mpr fun c hc => by simpa using h c hc

theorem takeWhile_digitos_ponto (h : ∀ c ∈ p, Digito c) (r : List UInt8) :
    ((p ++ 46 :: r).takeWhile fun c => Digito c) = p := by
  rw [List.takeWhile_append_of_pos (by simpa using h), List.takeWhile_cons_of_neg (by decide),
    List.append_nil]

/-- One turn on a number before a dot. -/
theorem le_octetos_ponto (h : ∀ c ∈ p, Digito c) :
    le_octetos (n + 1) ip (p ++ 46 :: r) = le_octetos n ((ip <<< 8) ||| (octeto p &&& 0xFF)) r := by
  rw [le_octetos, if_neg (by simp), takeWhile_digitos_ponto h]
  dsimp only
  rw [List.drop_left, List.head?_cons, if_pos rfl, List.tail_cons]

/-- One turn on a number at the end. -/
theorem le_octetos_fim (h : ∀ c ∈ p, Digito c) (hne : p ≠ []) :
    le_octetos (n + 1) ip p = le_octetos n ((ip <<< 8) ||| (octeto p &&& 0xFF)) [] := by
  rw [le_octetos, if_neg hne, takeWhile_digitos h]
  dsimp only
  rw [List.drop_length, List.head?_nil, if_neg nofun]

/-- On digits and dots the loop ends early where there are too few pieces. -/
theorem le_octetos_none (h : SoNumeros p) :
    le_octetos n ip p = none ↔ (pieces 46 p).length < n := by
  induction n generalizing p ip with
  | zero => exact iff_of_false (Option.some_ne_none ip) (Nat.not_lt_zero _)
  | succ n ih =>
    by_cases hne : p = []
    · subst hne
      exact iff_of_true rfl (Nat.succ_pos n)
    obtain ⟨q, -, hq, rfl | ⟨r, rfl⟩⟩ := scan (46 : UInt8) p
    · have hd : ∀ c ∈ p, Digito c := fun c hc =>
        (h c hc).resolve_right fun he => hq (he ▸ hc)
      have hnil : SoNumeros [] := fun c hc => absurd hc List.not_mem_nil
      rw [le_octetos_fim hd hne, ih hnil, pieces_of_not_mem hq hne, pieces_nil]
      simp
    · have hd : ∀ c ∈ q, Digito c := fun c hc =>
        (h c (List.mem_append_left _ hc)).resolve_right fun he => hq (he ▸ hc)
      have hr : SoNumeros r := fun c hc => h c (List.mem_append_right _ (List.mem_cons_of_mem _ hc))
      rw [le_octetos_ponto hd, ih hr, pieces_append hq, List.length_cons, Nat.add_lt_add_iff_right]

/-- The loop does not get past any other character, and counts four octets there. -/
theorem le_octetos_some (h : ¬ SoNumeros p) : le_octetos n ip p ≠ none := by
  induction n generalizing p ip with
  | zero => exact Option.some_ne_none ip
  | succ n ih =>
    have hne : p ≠ [] := by
      rintro rfl
      exact h nofun
    rw [le_octetos, if_neg hne]
    refine ih fun hs => h fun c hc => ?_
    have hsplit : (p.takeWhile fun c => Digito c) ++
        p.drop (p.takeWhile fun c => Digito c).length = p :=
      List.prefix_iff_eq_append.mp (List.takeWhile_prefix _)
    rw [← hsplit] at hc
    rcases List.mem_append.mp hc with hc | hc
    · exact Or.inl (by simpa using List.mem_takeWhile_imp hc)
    · split at hs
      · next hdot =>
        obtain ⟨t, ht⟩ := List.head?_eq_some_iff.mp hdot
        rw [ht] at hc hs
        rcases List.mem_cons.mp hc with hc | hc
        · exact Or.inr hc
        · exact hs c hc
      · exact hs c hc

end Laco

/-! ## The address -/

section Endereco

variable {p : List UInt8} {n : Nat} {ip : UInt32}

theorem toNat_digito {c : UInt8} (h : Digito c) : (c - 48).toUInt32.toNat = c.toNat - 48 := by
  rw [UInt8.toNat_toUInt32, UInt8.toNat_sub_of_le _ _ h.1]
  rfl

theorem toNat_foldl_octeto (h : ∀ c ∈ p, Digito c) {oct : UInt32} (hn : oct.toNat = n % 2 ^ 32) :
    (p.foldl (fun oct c => oct * 10 + (c - 48).toUInt32) oct).toNat =
      p.foldl (fun n c => n * 10 + (c.toNat - 48)) n % 2 ^ 32 := by
  induction p generalizing oct n with
  | nil => exact hn
  | cons c p ih =>
    have hc := toNat_digito (h c List.mem_cons_self)
    refine ih (fun d hd => h d (List.mem_cons_of_mem c hd)) ?_
    change _ = (n * 10 + (c.toNat - 48)) % 2 ^ 32
    rw [UInt32.toNat_add, UInt32.toNat_mul, hn, hc, show (10 : UInt32).toNat = 10 from rfl]
    omega

theorem Numero.toNat_octeto (h : Numero p) : (octeto p).toNat = valor p := by
  have hmod : (octeto p).toNat = valor p % 2 ^ 32 := toNat_foldl_octeto h.2.1 rfl
  rw [hmod]
  have h255 := h.2.2
  omega

/-- A number behind the octets that are there. -/
theorem Numero.toNat_junta (h : Numero p) (hip : ip.toNat < 2 ^ 24) :
    ((ip <<< 8) ||| (octeto p &&& 0xFF)).toNat = ip.toNat * 256 + valor p := by
  have h255 := h.2.2
  have hlow : (octeto p &&& 0xFF).toNat = valor p := by
    rw [Lib.Words.toNat_and_low (n := 8) _ _ rfl, h.toNat_octeto]
    omega
  have h8 : (8 : UInt32).toNat = 8 := rfl
  rw [UInt32.or_comm, Lib.Words.toNat_or_shl _ _ _ (by decide) (by rw [hlow, h8]; omega), hlow, h8]
  omega

/-- On a literal the loop gives its address. -/
theorem le_octetos_literal {host : List UInt8} (h : literal host = some ip) :
    le_octetos 4 0 host = some ip := by
  unfold literal at h
  split at h
  · next a b c d hsplit =>
    split at h
    · next hn =>
      obtain ⟨ha, hb, hc, hd⟩ := hn
      have hjoin : [46].intercalate (host.splitOn 46) = host := List.intercalate_splitOn 46
      have hhost : host = a ++ 46 :: (b ++ 46 :: (c ++ 46 :: d)) := by
        rw [← hjoin, hsplit]
        simp [List.intercalate, List.intersperse]
      rw [hhost, le_octetos_ponto ha.2.1, le_octetos_ponto hb.2.1, le_octetos_ponto hc.2.1,
        le_octetos_fim hd.2.1 hd.1, ← h]
      have h0 : (0 : UInt32).toNat = 0 := rfl
      have ha255 := ha.2.2
      have hb255 := hb.2.2
      have hc255 := hc.2.2
      have hd255 := hd.2.2
      have h1 : (((0 : UInt32) <<< 8) ||| (octeto a &&& 0xFF)).toNat = _ :=
        ha.toNat_junta (by decide)
      have h2 := hb.toNat_junta (by rw [h1]; omega)
      have h3 := hc.toNat_junta (by rw [h2, h1]; omega)
      have h4 := hd.toNat_junta (by rw [h3, h2, h1]; omega)
      refine congrArg some (UInt32.toNat_inj.mp ?_)
      rw [h4, h3, h2, h1, UInt32.toNat_ofNat']
      omega
    · exact absurd h (Option.some_ne_none ip).symm
  · exact absurd h (Option.some_ne_none ip).symm

end Endereco

theorem resolve_host_eq {σ : Type} (dns_resolve : List UInt8 → σ → Option UInt32 × σ)
    (host : List UInt8) (s : σ) : resolve_host dns_resolve host s =
      match le_octetos 4 0 host with
      | some ip => (ip, s)
      | none => ((dns_resolve host s).1.getD 0, (dns_resolve host s).2) := by
  unfold resolve_host
  cases le_octetos 4 0 host <;> rfl

/-- A host is taken as a literal exactly where it is one, or it goes to the DNS, exactly where it is a
literal or has digits and dots alone and too few of them for four octets. The loop counts an octet
where it has read no digit, and looks at nothing behind the fourth. -/
theorem the_host_is_told_apart_iff (host : List UInt8) : Exato host ↔ Distinguivel host := by
  constructor
  · intro h
    by_cases hlit : literal host = none
    · -- a query that counts itself tells the two apart
      have hcount := h Nat (fun _ n => (none, n + 1)) 0
      rw [resolve_host_eq, hlit] at hcount
      refine Or.inr ?_
      cases hle : le_octetos 4 0 host with
      | some ip =>
        rw [hle] at hcount
        exact absurd (congrArg Prod.snd hcount) (show (0 : Nat) ≠ 1 by decide)
      | none =>
        have hs : SoNumeros host := Decidable.byContradiction fun hs => le_octetos_some hs hle
        exact ⟨hs, (le_octetos_none hs).mp hle⟩
    · exact Or.inl hlit
  · intro h σ dns_resolve s
    rw [resolve_host_eq]
    cases hlit : literal host with
    | some ip => rw [le_octetos_literal hlit]
    | none =>
      obtain ⟨hs, hlt⟩ := h.resolve_left (not_not_intro hlit)
      rw [(le_octetos_none hs).mpr hlt]

/-- The host `repo.local`. -/
def host_com_letras : List UInt8 := [114, 101, 112, 111, 46, 108, 111, 99, 97, 108]

theorem a_name_is_taken_as_a_literal : ¬ ∀ host : List UInt8, host.length ≤ 31 → Exato host := by
  intro h
  have hcount := h host_com_letras (by decide) Nat (fun _ n => (none, n + 1)) 0
  exact absurd (congrArg Prod.snd hcount) (by decide)

end SpaceOS.Pkg
