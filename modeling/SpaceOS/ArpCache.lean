-- The ARP cache over any sequence of entries: a table of slots whose free ones come last, and what it
-- still knows of each address.
import Mathlib.Data.List.Induction
import SpaceOS.Ipv4
import SpaceOS.Lib.LastWrite
import SpaceOS.Lib.SlotTable

open Lib.LastWrite Lib.SlotTable

namespace SpaceOS.Net

/-- The cache before the first entry. -/
def cache_vazio : Fin ARP_CACHE_SIZE → Entrada := fun _ => ⟨0, List.replicate 6 0, false⟩

/-- The cache after the entries `adds`, the first one first. -/
def cache_apos (adds : List (UInt32 × List UInt8)) : Fin ARP_CACHE_SIZE → Entrada :=
  adds.foldl (fun c a => arp_cache_add c a.1 a.2) cache_vazio

/-- The address of the card that the last entry for `ip` gives. -/
def ultimo_mac (adds : List (UInt32 × List UInt8)) (ip : UInt32) : Option (List UInt8) :=
  last (fun a => if a.1 = ip then some a.2 else none) adds

def Cheio (c : Fin ARP_CACHE_SIZE → Entrada) : Prop := ∀ i, (c i).valid

/-- An entry for another address has taken the slot of `ip` in a full cache, and none for `ip` came
after it. -/
def Sobrescrito (adds : List (UInt32 × List UInt8)) (ip : UInt32) : Prop :=
  ∃ antes a depois, adds = antes ++ a :: depois ∧ Cheio (cache_apos antes) ∧ a.1 ≠ ip ∧
    arp_cache_lookup (cache_apos antes) ip ≠ none ∧
    arp_cache_lookup (cache_apos (antes ++ [a])) ip = none ∧ ∀ b ∈ depois, b.1 ≠ ip

/-- After the entries `adds` the cache is a map of bounded size. -/
structure MapaLimitado (adds : List (UInt32 × List UInt8)) : Prop where
  unico : ∀ i j, (cache_apos adds i).valid → (cache_apos adds j).valid →
    (cache_apos adds i).ip = (cache_apos adds j).ip → i = j
  recente : ∀ ip mac, arp_cache_lookup (cache_apos adds) ip = some mac →
    ultimo_mac adds ip = some mac
  perdido : ∀ ip, arp_cache_lookup (cache_apos adds) ip = none →
    (∀ a ∈ adds, a.1 ≠ ip) ∨ Sobrescrito adds ip
  preserva : ∀ ip mac, ¬ Cheio (cache_apos adds) → ∀ ip', ip' ≠ ip →
    arp_cache_lookup (arp_cache_add (cache_apos adds) ip mac) ip' =
      arp_cache_lookup (cache_apos adds) ip'

/-! ## The cache as a table of slots -/

section Tabela

variable (c : Fin ARP_CACHE_SIZE → Entrada) (ip : UInt32) (mac : List UInt8)

def slots : Table ARP_CACHE_SIZE UInt32 (List UInt8) := fun i =>
  if (c i).valid then some ((c i).ip, (c i).mac) else none

theorem slots_update (i : Fin ARP_CACHE_SIZE) :
    slots (Function.update c i ⟨ip, mac, true⟩) =
      Function.update (slots c) i (some (ip, mac)) := by
  funext j
  unfold slots
  by_cases hj : j = i
  · rw [hj, Function.update_self, Function.update_self]
    rfl
  · rw [Function.update_of_ne hj, Function.update_of_ne hj]

theorem hit_slots (i : Fin ARP_CACHE_SIZE) :
    hit (slots c) ip i = if (c i).valid ∧ (c i).ip = ip then some (c i).mac else none := by
  unfold hit slots
  cases (c i).valid <;> simp

/-- An entry goes to its slot, or to the first one of a full cache. -/
theorem slots_arp_cache_add :
    slots (arp_cache_add c ip mac) =
      (put (slots c) ip mac).getD (Function.update (slots c) ⟨0, by decide⟩ (some (ip, mac))) := by
  have hplace : place (slots c) ip = (List.finRange ARP_CACHE_SIZE).find? fun i =>
      !(c i).valid || (c i).ip == ip := by
    unfold place
    rw [Fin.find?_eq_find?_finRange]
    congr 1
    funext i
    rw [hit_slots]
    unfold slots
    cases hv : (c i).valid with
    | false => rfl
    | true => by_cases hip : (c i).ip = ip <;> simp [hip]
  unfold arp_cache_add put
  rw [hplace]
  cases (List.finRange ARP_CACHE_SIZE).find? fun i => !(c i).valid || (c i).ip == ip with
  | none => exact slots_update c ip mac _
  | some i => exact slots_update c ip mac i

theorem arp_cache_lookup_eq : arp_cache_lookup c ip = lookup (slots c) ip := by
  have hsome : (fun i => (hit (slots c) ip i).isSome) =
      fun i => (c i).valid && (c i).ip == ip := by
    funext i
    rw [hit_slots]
    by_cases hv : (c i).valid <;> by_cases hip : (c i).ip = ip <;> simp [hv, hip]
  unfold arp_cache_lookup lookup
  rw [← Fin.bind_find?_isSome, hsome, Fin.find?_eq_find?_finRange]
  cases h : (List.finRange ARP_CACHE_SIZE).find? fun i => (c i).valid && (c i).ip == ip with
  | none => rfl
  | some i =>
    have hi : (c i).valid ∧ (c i).ip = ip := by simpa using List.find?_some h
    rw [Option.map_some, Option.bind_some, hit_slots, if_pos hi]

theorem cheio_iff : Cheio c ↔ Full (slots c) := by
  unfold Cheio Full slots
  refine forall_congr' fun i => ?_
  cases (c i).valid <;> simp

end Tabela

/-! ## One entry -/

/-- No address has two slots, and the free slots come last. -/
structure Arrumado (c : Fin ARP_CACHE_SIZE → Entrada) : Prop where
  unico : Unique (slots c)
  fim : Packed (slots c)

section Entrada

variable {c : Fin ARP_CACHE_SIZE → Entrada} {ip ip' : UInt32} {mac mac' : List UInt8}

/-- What one entry does: it is put in its slot, or in place of the first one of a full cache. -/
theorem add_cases (c : Fin ARP_CACHE_SIZE → Entrada) (ip : UInt32) (mac : List UInt8) :
    put (slots c) ip mac = some (slots (arp_cache_add c ip mac)) ∨
      (Full (slots c) ∧ lookup (slots c) ip = none) ∧ slots (arp_cache_add c ip mac) =
        Function.update (slots c) ⟨0, by decide⟩ (some (ip, mac)) := by
  have h := slots_arp_cache_add c ip mac
  cases hput : put (slots c) ip mac with
  | none =>
    rw [hput] at h
    exact Or.inr ⟨put_eq_none.mp hput, h⟩
  | some t =>
    rw [hput] at h
    exact Or.inl (congrArg some h.symm)

theorem Arrumado.add (h : Arrumado c) (ip : UInt32) (mac : List UInt8) :
    Arrumado (arp_cache_add c ip mac) := by
  rcases add_cases c ip mac with hput | ⟨⟨hfull, hnone⟩, he⟩
  · exact ⟨(unique_put h.unico hput).mpr h.fim.not_behind, packed_put h.fim hput⟩
  · constructor
    · rw [he]
      refine unique_update h.unico fun j hj => ?_
      rw [lookup_eq_none.mp hnone j] at hj
      exact absurd hj Bool.false_ne_true
    · rw [he]
      exact (full_update hfull).packed

/-- The address is known after its entry. -/
theorem lookup_add_self (h : Arrumado c) (ip : UInt32) (mac : List UInt8) :
    arp_cache_lookup (arp_cache_add c ip mac) ip = some mac := by
  rw [arp_cache_lookup_eq]
  rcases add_cases c ip mac with hput | ⟨-, he⟩
  · rw [lookup_put hput, Function.update_self]
  · refine (lookup_eq_some (h.add ip mac).unico).mpr ⟨⟨0, by decide⟩, ?_⟩
    rw [he, hit_update, if_pos rfl, if_pos rfl]

/-- Another address is known as before, where the cache has a slot for the entry. -/
theorem lookup_add_of_ne (hput : put (slots c) ip mac = some (slots (arp_cache_add c ip mac)))
    (hne : ip' ≠ ip) :
    arp_cache_lookup (arp_cache_add c ip mac) ip' = arp_cache_lookup c ip' := by
  rw [arp_cache_lookup_eq, arp_cache_lookup_eq, lookup_put hput, Function.update_of_ne hne]

/-- What is known of another address was known before. -/
theorem lookup_of_add (h : Arrumado c) (hne : ip' ≠ ip)
    (hl : arp_cache_lookup (arp_cache_add c ip mac) ip' = some mac') :
    arp_cache_lookup c ip' = some mac' := by
  rcases add_cases c ip mac with hput | ⟨-, he⟩
  · rwa [lookup_add_of_ne hput hne] at hl
  · rw [arp_cache_lookup_eq] at hl ⊢
    obtain ⟨i, hi⟩ := (lookup_eq_some (h.add ip mac).unico).mp hl
    rw [he, hit_update] at hi
    split at hi
    · rw [if_neg (Ne.symm hne)] at hi
      exact absurd hi (Option.some_ne_none _).symm
    · exact (lookup_eq_some h.unico).mpr ⟨i, hi⟩

end Entrada

/-! ## Any sequence of entries -/

section Sequencia

variable (adds : List (UInt32 × List UInt8))

theorem cache_apos_concat (a : UInt32 × List UInt8) :
    cache_apos (adds ++ [a]) = arp_cache_add (cache_apos adds) a.1 a.2 := by
  unfold cache_apos
  rw [List.foldl_append]
  rfl

theorem ultimo_mac_concat (a : UInt32 × List UInt8) (ip : UInt32) :
    ultimo_mac (adds ++ [a]) ip = if a.1 = ip then some a.2 else ultimo_mac adds ip := by
  unfold ultimo_mac
  rw [last_append, last_cons]
  split <;> rfl

theorem arrumado_apos : Arrumado (cache_apos adds) := by
  induction adds using List.reverseRecOn with
  | nil =>
    refine ⟨fun k i j hi => ?_, fun i j _ _ => rfl⟩
    rw [hit_of_free (show slots (cache_apos []) i = none from rfl)] at hi
    exact absurd hi Bool.false_ne_true
  | append_singleton adds a ih =>
    rw [cache_apos_concat]
    exact ih.add a.1 a.2

theorem lookup_apos {ip : UInt32} {mac : List UInt8}
    (h : arp_cache_lookup (cache_apos adds) ip = some mac) : ultimo_mac adds ip = some mac := by
  induction adds using List.reverseRecOn with
  | nil =>
    have hnone : lookup (slots (cache_apos [])) ip = none :=
      lookup_eq_none.mpr fun i => hit_of_free rfl
    rw [arp_cache_lookup_eq, hnone] at h
    exact absurd h (Option.some_ne_none _).symm
  | append_singleton adds a ih =>
    have hc := arrumado_apos adds
    rw [cache_apos_concat] at h
    rw [ultimo_mac_concat]
    by_cases hip : a.1 = ip
    · subst hip
      rw [if_pos rfl, ← lookup_add_self hc a.1 a.2, h]
    · rw [if_neg hip]
      exact ih (lookup_of_add hc (Ne.symm hip) h)

theorem lookup_apos_none {ip : UInt32} (h : arp_cache_lookup (cache_apos adds) ip = none) :
    (∀ a ∈ adds, a.1 ≠ ip) ∨ Sobrescrito adds ip := by
  induction adds using List.reverseRecOn with
  | nil => exact Or.inl nofun
  | append_singleton adds a ih =>
    have hc := arrumado_apos adds
    have hadd := h
    rw [cache_apos_concat] at hadd
    have hip : a.1 ≠ ip := by
      rintro rfl
      rw [lookup_add_self hc] at hadd
      exact absurd hadd (Option.some_ne_none _)
    by_cases hold : arp_cache_lookup (cache_apos adds) ip = none
    · rcases ih hold with hnever | ⟨antes, x, depois, rfl, hfull, hx, h1, h2, h3⟩
      · refine Or.inl fun b hb => ?_
        rcases List.mem_append.mp hb with hb | hb
        · exact hnever b hb
        · rwa [List.mem_singleton.mp hb]
      · refine Or.inr ⟨antes, x, depois ++ [a], by simp, hfull, hx, h1, h2, fun b hb => ?_⟩
        rcases List.mem_append.mp hb with hb | hb
        · exact h3 b hb
        · rwa [List.mem_singleton.mp hb]
    · refine Or.inr ⟨adds, a, [], rfl, ?_, hip, hold, h, nofun⟩
      rcases add_cases (cache_apos adds) a.1 a.2 with hput | ⟨⟨hfull, -⟩, -⟩
      · rw [lookup_add_of_ne hput (Ne.symm hip)] at hadd
        exact absurd hadd hold
      · exact (cheio_iff _).mpr hfull

/-- After any entries, the cache has no address twice, gives the last entry for an address, has lost
one only to an entry in a full cache, and loses none while it is not full. -/
theorem the_cache_is_a_bounded_map : MapaLimitado adds where
  unico i j hi hj hip := by
    refine (arrumado_apos adds).unico (cache_apos adds i).ip i j ?_ ?_
    · rw [hit_slots, if_pos ⟨hi, rfl⟩]
      rfl
    · rw [hit_slots, if_pos ⟨hj, hip.symm⟩]
      rfl
  recente _ _ h := lookup_apos adds h
  perdido _ h := lookup_apos_none adds h
  preserva ip mac hfull ip' hne := by
    rcases add_cases (cache_apos adds) ip mac with hput | ⟨⟨h, -⟩, -⟩
    · exact lookup_add_of_ne hput hne
    · exact absurd ((cheio_iff _).mpr h) hfull

end Sequencia

end SpaceOS.Net
