-- The laws of the name in a query. The name is taken apart at its dots, as the loop does it, and the
-- query tells the hostnames apart.
import SpaceOS.DnsLaws
import SpaceOS.Lib.Pieces

open Lib.Pieces SpaceOS.Net

namespace SpaceOS.Dns

/-! ## The labels of a hostname -/

/-- The hostname without a dot at its end. -/
def sem_ponto (hostname : List UInt8) : List UInt8 := trim 46 hostname

/-- The labels of a hostname. -/
def rotulos_de (hostname : List UInt8) : List (List UInt8) := pieces 46 hostname

/-- The labels joined with dots. -/
def junta (ls : List (List UInt8)) : List UInt8 := [46].intercalate ls

/-- The name in the query is the hostname in labels of 1 to 63 bytes and the root, of 255 bytes at
most, where there is one. -/
def Fiel (hostname : List UInt8) : Prop :=
  ∀ bs, dns_encode_name hostname = some bs → ∃ ls : List (List UInt8),
    (∀ l ∈ ls, 1 ≤ l.length ∧ l.length ≤ 63) ∧ bs = bytes_rotulos ls ++ [0] ∧ bs.length ≤ 255 ∧
      (hostname = junta ls ∨ hostname = junta ls ++ [46])

/-- The hostname is refused for a long label, or its labels are not empty and its name fits. -/
def Codificavel (hostname : List UInt8) : Prop :=
  (∃ l ∈ rotulos_de hostname, 63 < l.length) ∨
    (∀ l ∈ rotulos_de hostname, l ≠ []) ∧ (sem_ponto hostname).length ≤ 253

instance (hostname : List UInt8) : Decidable (Codificavel hostname) :=
  inferInstanceAs (Decidable (_ ∨ _ ∧ _))

section Rotulos

variable {l r host : List UInt8} {ls ks : List (List UInt8)}

theorem junta_rotulos (host : List UInt8) : junta (rotulos_de host) = sem_ponto host :=
  intercalate_pieces 46 host

theorem length_bytes_rotulos (hne : ls ≠ []) :
    (bytes_rotulos ls).length = (junta ls).length + 1 := by
  unfold junta
  induction ls with
  | nil => exact absurd rfl hne
  | cons l ls ih =>
    rw [bytes_rotulos_cons]
    cases ls with
    | nil => simp [bytes_rotulos]
    | cons k ks =>
      rw [List.intercalate_cons_cons]
      have ih := ih (List.cons_ne_nil k ks)
      simp only [List.length_append, List.length_singleton] at ih ⊢
      omega

/-- The labels can be read back from their bytes. -/
theorem bytes_rotulos_inj (hl : ∀ l ∈ ls, l.length ≤ 63) (hk : ∀ l ∈ ks, l.length ≤ 63)
    (h : bytes_rotulos ls = bytes_rotulos ks) : ls = ks := by
  induction ls generalizing ks with
  | nil =>
    cases ks with
    | nil => rfl
    | cons k ks => exact absurd h (by rw [bytes_rotulos_cons]; exact nofun)
  | cons l ls ih =>
    cases ks with
    | nil => exact absurd h (by rw [bytes_rotulos_cons]; exact nofun)
    | cons k ks =>
      rw [bytes_rotulos_cons, bytes_rotulos_cons] at h
      have h1 := hl l List.mem_cons_self
      have h2 := hk k List.mem_cons_self
      obtain ⟨hb, hrest⟩ := List.append_inj h rfl
      have hlen : l.length = k.length := by
        have hn := congrArg UInt8.toNat (List.singleton_inj.mp hb)
        rw [UInt8.toNat_ofNat', UInt8.toNat_ofNat'] at hn
        omega
      obtain ⟨rfl, hks⟩ := List.append_inj hrest hlen
      rw [ih (fun x hx => hl x (List.mem_cons_of_mem _ hx))
        (fun x hx => hk x (List.mem_cons_of_mem _ hx)) hks]

/-! ## The loop -/

/-- With turns for all of the bytes, the loop writes the labels, or refuses a long one. -/
theorem codifica_rotulos_eq {n : Nat} (hn : host.length ≤ n) :
    codifica_rotulos n host =
      if ∃ l ∈ rotulos_de host, 63 < l.length then none
      else some (bytes_rotulos (rotulos_de host) ++ [0]) := by
  induction n generalizing host with
  | zero =>
    rw [List.length_eq_zero_iff.mp (Nat.le_zero.mp hn)]
    rfl
  | succ n ih =>
    unfold codifica_rotulos
    by_cases hne : host = []
    · rw [if_pos hne, hne]
      rfl
    · rw [if_neg hne]
      obtain ⟨l, hl, hnot, rfl | ⟨r, rfl⟩⟩ := scan (46 : UInt8) host
      · rw [hl, rotulos_de, pieces_of_not_mem hnot hne]
        simp only [List.mem_singleton, exists_eq_left]
        split
        · rfl
        · have hfim : codifica_rotulos n [] = some [0] := ih (Nat.zero_le n)
          rw [List.drop_length, List.head?_nil, if_neg nofun, hfim]
          simp [bytes_rotulos]
      · rw [List.length_append, List.length_cons] at hn
        rw [hl, rotulos_de, pieces_append hnot]
        dsimp only
        rw [List.drop_left, List.head?_cons, if_pos rfl, List.tail_cons, ih (by omega), rotulos_de]
        simp only [List.mem_cons, exists_eq_or_imp]
        by_cases h63 : 63 < l.length
        · rw [if_pos h63, if_pos (Or.inl h63)]
        · rw [if_neg h63]
          by_cases hr : ∃ x ∈ pieces 46 r, 63 < x.length
          · rw [if_pos hr, if_pos (Or.inr hr)]
            rfl
          · rw [if_neg hr, if_neg (not_or.mpr ⟨h63, hr⟩), bytes_rotulos_cons]
            simp

theorem dns_encode_name_eq (host : List UInt8) :
    dns_encode_name host =
      if ∃ l ∈ rotulos_de host, 63 < l.length then none
      else some (bytes_rotulos (rotulos_de host) ++ [0]) :=
  codifica_rotulos_eq (Nat.le_refl _)

theorem dns_encode_name_some {bs : List UInt8} (h : dns_encode_name host = some bs) :
    (∀ l ∈ rotulos_de host, l.length ≤ 63) ∧ bs = bytes_rotulos (rotulos_de host) ++ [0] := by
  rw [dns_encode_name_eq] at h
  split at h
  · exact absurd h nofun
  · next hno =>
    refine ⟨fun l hl => ?_, (Option.some.inj h).symm⟩
    exact Nat.le_of_not_lt fun h63 => hno ⟨l, hl, h63⟩

/-- The bytes of a name, with the root. -/
theorem length_nome_de (host : List UInt8) :
    (bytes_rotulos (rotulos_de host) ++ [0]).length ≤ (sem_ponto host).length + 2 ∧
      (host ≠ [] → (bytes_rotulos (rotulos_de host) ++ [0]).length =
        (sem_ponto host).length + 2) := by
  rw [List.length_append, List.length_singleton, ← junta_rotulos]
  by_cases hne : host = []
  · subst hne
    exact ⟨by decide, fun h => absurd rfl h⟩
  · have hls : rotulos_de host ≠ [] := pieces_ne_nil hne
    rw [length_bytes_rotulos hls]
    exact ⟨Nat.le_refl _, fun _ => rfl⟩

end Rotulos

/-! ## The query -/

section Consulta

variable {host host' : List UInt8}

theorem fiel_iff : Fiel host ↔ Codificavel host := by
  constructor
  · intro h
    by_cases hlong : ∃ l ∈ rotulos_de host, 63 < l.length
    · exact Or.inl hlong
    · have he := dns_encode_name_eq host
      rw [if_neg hlong] at he
      obtain ⟨ls, hls, hbs, h255, -⟩ := h _ he
      have hle : ∀ l ∈ rotulos_de host, l.length ≤ 63 := fun l hl =>
        Nat.le_of_not_lt fun h63 => hlong ⟨l, hl, h63⟩
      have hsame : rotulos_de host = ls :=
        bytes_rotulos_inj hle (fun l hl => (hls l hl).2) (List.append_cancel_right hbs)
      refine Or.inr ⟨fun l hl h0 => ?_, ?_⟩
      · have h1 := (hls l (hsame ▸ hl)).1
        rw [h0] at h1
        exact absurd h1 (by decide)
      · by_cases hne : host = []
        · subst hne
          exact Nat.zero_le _
        · have hlen := (length_nome_de host).2 hne
          omega
  · rintro (⟨l, hl, h63⟩ | ⟨hne, hlen⟩) bs hbs
    · exact absurd ((dns_encode_name_some hbs).1 l hl) (Nat.not_le.mpr h63)
    · obtain ⟨hle, rfl⟩ := dns_encode_name_some hbs
      have hlen' := (length_nome_de host).1
      refine ⟨rotulos_de host, fun l hl => ?_, rfl, by omega, ?_⟩
      · exact ⟨List.length_pos_iff.mpr (hne l hl), hle l hl⟩
      · rw [junta_rotulos]
        exact eq_trim_or 46 host

/-- Two names of the same bytes are those of one hostname, up to a dot at the end. -/
theorem sem_ponto_of_dns_encode_name {bs : List UInt8} (h : dns_encode_name host = some bs)
    (h' : dns_encode_name host' = some bs) : sem_ponto host = sem_ponto host' := by
  obtain ⟨hle, hbs⟩ := dns_encode_name_some h
  obtain ⟨hle', hbs'⟩ := dns_encode_name_some h'
  have hsame := bytes_rotulos_inj hle hle' (List.append_cancel_right (hbs.symm.trans hbs'))
  rw [← junta_rotulos, ← junta_rotulos, hsame]

theorem sem_ponto_of_monta_consulta {id id' : UInt16} {bs : List UInt8}
    (h : monta_consulta id host = some bs) (h' : monta_consulta id' host' = some bs) :
    sem_ponto host = sem_ponto host' := by
  unfold monta_consulta at h h'
  obtain ⟨nome, hn, hbs⟩ := Option.bind_eq_some_iff.mp h
  obtain ⟨nome', hn', hbs'⟩ := Option.bind_eq_some_iff.mp h'
  have hq := (Option.some.inj hbs).trans (Option.some.inj hbs').symm
  obtain ⟨-, rfl⟩ := List.append_inj (List.append_cancel_right hq) rfl
  exact sem_ponto_of_dns_encode_name hn hn'

/-- The name in a query is faithful to the hostname exactly where a label is refused for its length,
or none is empty and the name has 255 bytes at most. No query is the one of two hostnames, but for a
dot at the end. -/
theorem the_name_in_a_query_is_faithful_iff (host : List UInt8) :
    (Fiel host ↔ Codificavel host) ∧
      ∀ id id' host' bs, monta_consulta id host = some bs → monta_consulta id' host' = some bs →
        sem_ponto host = sem_ponto host' :=
  ⟨fiel_iff, fun _ _ _ _ h h' => sem_ponto_of_monta_consulta h h'⟩

end Consulta

/-- The hostname `a..b`. -/
def host_com_rotulo_vazio : List UInt8 := [97, 46, 46, 98]

theorem an_empty_label_ends_the_name_early : ¬ ∀ host : List UInt8, host.length ≤ 255 → Fiel host := by
  intro h
  obtain ⟨ls, hls, hbs, -, -⟩ := h host_com_rotulo_vazio (by decide) [1, 97, 0, 1, 98, 0] rfl
  have hsame : [[97], [], [98]] = ls :=
    bytes_rotulos_inj (by decide) (fun l hl => (hls l hl).2) (List.append_cancel_right hbs)
  exact absurd (hls [] (hsame ▸ by decide)).1 (by decide)

end SpaceOS.Dns
