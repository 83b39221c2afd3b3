-- The rights of the pages that `paging_mapear` maps: what the two levels of the tables allow to
-- ring 3, in every run in which the tables are written in their place.
import SpaceOS.PagingFrame

open Lib.Bytes Lib.Bitmap

namespace SpaceOS.Paging

open SpaceOS.Pmm ( PAGE_SIZE pmm_alloc)

/-! ## The calls and the rights -/

/-- The functions that map a page. -/
inductive Mapeamento where
  | paging_mapear (flags : UInt32)
  | paging_mapear_usuario
  | paging_mapear_kernel
  deriving DecidableEq

/-- The flags that go to `paging_mapear`. -/
def Mapeamento.flags : Mapeamento → UInt32
  | .paging_mapear flags => flags
  | .paging_mapear_usuario => PAGE_PRESENTE ||| PAGE_ESCRITA ||| PAGE_USUARIO
  | .paging_mapear_kernel => PAGE_PRESENTE ||| PAGE_ESCRITA

section Direitos

variable (g : Imagem) (s : Nucleo)

def paging_mapear_usuario (virt fis : UInt32) : Option Nucleo :=
  paging_mapear g s virt fis (PAGE_PRESENTE ||| PAGE_ESCRITA ||| PAGE_USUARIO)

def paging_mapear_kernel (virt fis : UInt32) : Option Nucleo :=
  paging_mapear g s virt fis (PAGE_PRESENTE ||| PAGE_ESCRITA)

def Mapeamento.chama (virt fis : UInt32) : Mapeamento → Option Nucleo
  | .paging_mapear flags => Paging.paging_mapear g s virt fis flags
  | .paging_mapear_usuario => Paging.paging_mapear_usuario g s virt fis
  | .paging_mapear_kernel => Paging.paging_mapear_kernel g s virt fis

/-- Both levels of the tables have the bits. -/
def Permite (bits : UInt32) (virt : Nat) : Prop :=
  s.page_directory (virt / (1024 * PAGE_SIZE)) &&& bits = bits ∧ le g s (endereco s virt) &&& bits = bits

/-- Ring 3 may read at `virt`. -/
def Le3 (virt : Nat) : Prop := Permite g s (PAGE_PRESENTE ||| PAGE_USUARIO) virt

/-- Ring 3 may write at `virt`. -/
def Escreve3 (virt : Nat) : Prop :=
  Permite g s (PAGE_PRESENTE ||| PAGE_USUARIO ||| PAGE_ESCRITA) virt

/-- What a call for `virt` and `fis` is to leave: the page with its frame, and the rights of the
function that was called. -/
structure Mapeada (m : Mapeamento) (virt fis : UInt32) : Prop where
  traducao : traduz g s virt.toNat =
    some (fis.toNat / PAGE_SIZE * PAGE_SIZE + virt.toNat % PAGE_SIZE)
  usuario : m = .paging_mapear_usuario → Le3 g s virt.toNat ∧ Escreve3 g s virt.toNat
  kernel : m = .paging_mapear_kernel → ¬ Le3 g s virt.toNat ∧ ¬ Escreve3 g s virt.toNat

end Direitos

/-! ## The directory -/

section Usuario

variable {g : Imagem} {s t : Nucleo} {i : Nat}

/-- No entry of the directory has the user bit. -/
def SemUsuario (s : Nucleo) : Prop := ∀ i, s.page_directory i &&& PAGE_USUARIO = 0

theorem and_usuario (e : UInt32) : (e &&& PAGE_USUARIO).toNat = e.toNat / 4 % 2 * 4 := by
  rw [UInt32.toNat_and]
  exact Lib.Words.and_mask_shiftLeft e.toNat 1 2

/-- An entry of the kernel for an aligned address. -/
theorem entrada_sem_usuario {fis : Nat} (ha : fis % 4096 = 0) :
    (UInt32.ofNat fis ||| PAGE_PRESENTE ||| PAGE_ESCRITA) &&& PAGE_USUARIO = 0 := by
  refine UInt32.toNat_inj.mp ?_
  have hfis : (UInt32.ofNat fis).toNat % 2 ^ 2 = 0 := by
    rw [UInt32.toNat_ofNat']
    omega
  have hor := Lib.Words.or_eq_add 2 hfis (show 3 < 2 ^ 2 by decide)
  rw [and_usuario, UInt32.or_assoc, UInt32.toNat_or,
    show (PAGE_PRESENTE ||| PAGE_ESCRITA).toNat = 3 from rfl, hor, UInt32.toNat_ofNat']
  have hzero : (0 : UInt32).toNat = 0 := rfl
  omega

theorem Boot.semUsuario {mem : Memory} {mboot : Nat} (h : Boot g mem mboot s) : SemUsuario s := by
  obtain ⟨pmm, m, -, rfl⟩ := h
  have ht := g.tabelas_alinhadas
  unfold PAGE_SIZE at ht
  intro i
  change (if i = PD_KERNEL then _ else if i < PT_COUNT then _ else _) &&& PAGE_USUARIO = 0
  split
  · exact entrada_sem_usuario ht
  · split
    · exact entrada_sem_usuario (by unfold PAGE_SIZE; omega)
    · rfl

/-- A new table comes into the directory with the entry of the kernel. -/
theorem Apartadas.garante_semUsuario (h : Apartadas g s) (hu : SemUsuario s)
    (hnovo : ¬ Presente s i → (pmm_alloc s.pmm).1 ≠ 0 → Identidade g s (pmm_alloc s.pmm).1)
    {ha_tabela : Bool} (he : garante_tabela g s i = some (ha_tabela, t)) : SemUsuario t := by
  by_cases hp : Presente s i
  · rw [garante_presente hp] at he
    obtain ⟨-, rfl⟩ := Prod.mk.inj (Option.some.inj he)
    exact hu
  by_cases h0 : (pmm_alloc s.pmm).1 = 0
  · rw [garante_sem_pagina hp h0] at he
    obtain ⟨-, rfl⟩ := Prod.mk.inj (Option.some.inj he)
    exact hu
  have hid := hnovo hp h0
  rcases Pmm.pmm_alloc_cases s.pmm with hn | ⟨p, hlt, hb, hs⟩
  · rw [hn] at h0
    exact absurd rfl h0
  have ha : (pmm_alloc s.pmm).1 = p * PAGE_SIZE := by rw [hs]
  rw [ha] at h0 hid
  have hnova := h.pagina_nova hlt hb hid
  obtain ⟨u, hz, hso, -⟩ := PaginaNova.zera (s := { s with pmm := (pmm_alloc s.pmm).2 })
    ⟨hnova.alinhada, hnova.fora, hnova.sem_tabela, hnova.identidade⟩
  rw [garante_nova hp ha h0, hz] at he
  obtain ⟨-, rfl⟩ := Prod.mk.inj (Option.some.inj he)
  intro j
  by_cases hji : j = i
  · rw [hji, liga_self]
    exact entrada_sem_usuario (Nat.mul_mod_left _ _)
  · rw [liga_ne hji, hso.page_directory]
    exact hu j

/-- A word of a table, written. -/
theorem le_poe {a : Nat} (v : UInt32) (h : ¬ NoDiretorio g a) : le g (poe g s a v) a = v := by
  by_cases ht : NasTabelas g a
  · unfold poe le
    rw [if_neg h, if_pos ht, if_neg h, if_pos ht]
    exact Function.update_self _ _ _
  · exact le_poe_self v h ht

/-- What the translation finds in an entry of the table. -/
theorem traduz_of_aponta {virt fis : Nat} (hp : Presente s (virt / (1024 * PAGE_SIZE)))
    (he : Aponta (le g s (endereco s virt)) fis) :
    traduz g s virt = some (fis + virt % PAGE_SIZE) := by
  have h1 := he.1
  have h2 := he.2
  unfold endereco at h1 h2
  unfold Presente at hp
  unfold traduz
  dsimp only
  rw [if_neg hp, if_neg h1, h2]

/-- `paging_mapear` with a table: the page has its frame, and the directory no user bit. -/
theorem Apartadas.mapear_virt (h : Apartadas g s) (hu : SemUsuario s) {virt fis flags : UInt32}
    (hc : NoLugar g s (.paging_mapear virt fis flags)) (ha : ¬ SemTabela s virt) :
    ∃ t, paging_mapear g s virt fis flags = some t ∧ SemUsuario t ∧
      traduz g t virt.toNat =
        some (fis.toNat / PAGE_SIZE * PAGE_SIZE + virt.toNat % PAGE_SIZE) := by
  obtain ⟨h22, -, h10⟩ := toNat_indices virt
  obtain ⟨hid, hnovo⟩ := hc.identidades
  rcases h.garante hid hnovo with ⟨hno, h0, -⟩ | ⟨s1, he, h1, hp1, hid1, -⟩
  · exact absurd ⟨not_not.mp hno, h0⟩ ha
  have hu1 := h.garante_semUsuario hu hnovo he
  rw [h22] at hp1 hid1
  have hx : virt.toNat / PAGE_SIZE % 1024 < 1024 := Nat.mod_lt _ (by decide)
  have hd : ¬ NoDiretorio g (endereco s1 virt.toNat) := h1.nao_no_diretorio hp1 hx
  have hself : traduz g s1 (endereco s1 virt.toNat) = some (endereco s1 virt.toNat) :=
    hid1 _ (by unfold PAGE_SIZE; omega)
  have hpd := poe_page_directory (s := s1)
    (v := (fis &&& ~~~0xFFF) ||| (flags &&& 0xFFF) ||| PAGE_PRESENTE) hd
  refine ⟨poe g s1 (endereco s1 virt.toNat)
    ((fis &&& ~~~0xFFF) ||| (flags &&& 0xFFF) ||| PAGE_PRESENTE), ?_, fun i => ?_, ?_⟩
  · unfold paging_mapear
    dsimp only
    rw [he, Option.bind_some]
    dsimp only
    rw [if_pos rfl, h22, h10, Paging.escreve]
    unfold endereco at hself
    rw [hself]
    rfl
  · rw [hpd]
    exact hu1 i
  · have hend : endereco (poe g s1 (endereco s1 virt.toNat)
        ((fis &&& ~~~0xFFF) ||| (flags &&& 0xFFF) ||| PAGE_PRESENTE)) virt.toNat =
          endereco s1 virt.toNat :=
      congrArg (fun f => (f (virt.toNat / (1024 * PAGE_SIZE)) &&& ~~~0xFFF).toNat +
        4 * (virt.toNat / PAGE_SIZE % 1024)) hpd
    refine traduz_of_aponta ?_ ?_
    · unfold Presente
      rw [hpd]
      exact hp1
    · rw [hend, le_poe _ hd]
      exact aponta_mapeada fis flags

/-- Without a table the directory stays. -/
theorem mapear_sem_tabela {virt fis flags : UInt32} (h : SemTabela s virt) :
    paging_mapear g s virt fis flags = some { s with pmm := (pmm_alloc s.pmm).2 } := by
  have he := garante_sem_pagina (g := g) (s := s) (not_not.mpr h.1) h.2
  unfold paging_mapear
  dsimp only
  rw [he]
  rfl

/-- A call of a run leaves the directory without a user bit. -/
theorem Corrida.semUsuario {mem : Memory} {mboot : Nat} (h : Corrida (NoLugar g) g mem mboot s) :
    SemUsuario s := by
  induction h with
  | inicio h => exact h.semUsuario
  | @passo s s' c h hc hp ih =>
    cases hp with
    | slab_criar => exact hc.elim
    | slab_alloc => exact hc.elim
    | @paging_mapear virt fis flags s' hm =>
      by_cases ha : SemTabela s virt
      · rw [mapear_sem_tabela ha] at hm
        exact Option.some.inj hm ▸ ih
      · obtain ⟨t, ht, hut, -⟩ := h.apartadas.mapear_virt ih hc ha
        rw [hm] at ht
        exact Option.some.inj ht ▸ hut
    | pmm_alloc => exact ih
    | escrita => exact hc.elim

/-- Ring 3 has no right where the directory has no user bit. -/
theorem SemUsuario.nega {bits : UInt32} (h : SemUsuario s) (hb : bits &&& PAGE_USUARIO ≠ 0)
    (virt : Nat) : ¬ Permite g s bits virt := by
  intro hp
  have hu := h (virt / (1024 * PAGE_SIZE))
  have hbits := hp.1
  refine hb ?_
  rw [← hbits, UInt32.and_assoc, UInt32.and_comm bits, ← UInt32.and_assoc, hu, UInt32.zero_and]

theorem SemUsuario.nao_le3 (h : SemUsuario s) (virt : Nat) : ¬ Le3 g s virt :=
  h.nega (by decide) virt

theorem SemUsuario.nao_escreve3 (h : SemUsuario s) (virt : Nat) : ¬ Escreve3 g s virt :=
  h.nega (by decide) virt

theorem Mapeamento.chama_eq (m : Mapeamento) (virt fis : UInt32) :
    m.chama g s virt fis = Paging.paging_mapear g s virt fis m.flags := by
  cases m <;> rfl

/-- After each call of a run that writes its tables in their place, the page has its frame; and it
has the rights that were asked for unless they were those of ring 3. -/
theorem a_page_has_its_rights_iff {mem : Memory} {mboot : Nat}
    (h : Corrida (NoLugar g) g mem mboot s) (m : Mapeamento) (virt fis : UInt32)
    (hc : NoLugar g s (.paging_mapear virt fis m.flags)) (ha : ¬ SemTabela s virt) :
    ∃ t, m.chama g s virt fis = some t ∧
      (Mapeada g t m virt fis ↔ m ≠ .paging_mapear_usuario) := by
  obtain ⟨t, ht, hu, htr⟩ := h.apartadas.mapear_virt h.semUsuario hc ha
  refine ⟨t, (m.chama_eq virt fis).trans ht, fun hm he => ?_, fun hne => ?_⟩
  · exact hu.nao_le3 virt.toNat (hm.usuario he).1
  · exact ⟨htr, fun he => absurd he hne, fun _ =>
      ⟨hu.nao_le3 virt.toNat, hu.nao_escreve3 virt.toNat⟩⟩

/-- A first call after the boot. -/
theorem a_first_kernel_page_has_its_rights : ∃ s, Boot imagem_2mb Pmm.boot_128mb 0x10000 s ∧
    ∃ t, Mapeamento.paging_mapear_kernel.chama imagem_2mb s 0x5000 0x700000 = some t ∧
      (Mapeada imagem_2mb t .paging_mapear_kernel 0x5000 0x700000 ↔
        Mapeamento.paging_mapear_kernel ≠ .paging_mapear_usuario) := by
  obtain ⟨s, hs, -⟩ := boot_128mb
  have hi := hs.intacto
  have hv : ((0x5000 : UInt32) >>> 22).toNat < PT_COUNT := by decide
  exact ⟨s, hs, a_page_has_its_rights_iff (.inicio hs) .paging_mapear_kernel 0x5000 0x700000
    (hi.noLugar (by decide) hv) fun ha => (hi.baixas _ hv).1 ha.1⟩

/-- A page below 64 MB that is mapped for ring 3 after the boot cannot be read there. -/
theorem a_user_page_is_denied : ¬ ∀ g mem mboot s virt fis t,
    Corrida (fun _ c => ∃ v f b, c = .paging_mapear v f b) g mem mboot s → ¬ SemTabela s virt →
      paging_mapear_usuario g s virt fis = some t →
      Le3 g t virt.toNat ∧ Escreve3 g t virt.toNat := by
  intro h
  obtain ⟨s, hs, -⟩ := boot_128mb
  have hi := hs.intacto
  have hv : ((0x5000 : UInt32) >>> 22).toNat < PT_COUNT := by decide
  have ha : ¬ SemTabela s 0x5000 := fun ha => (hi.baixas _ hv).1 ha.1
  have hc : NoLugar imagem_2mb s
      (.paging_mapear 0x5000 0x700000 Mapeamento.paging_mapear_usuario.flags) :=
    hi.noLugar (by decide) hv
  obtain ⟨t, ht, hu, -⟩ := hs.apartadas.mapear_virt hs.semUsuario hc ha
  exact hu.nao_le3 _ (h _ _ _ s _ _ t (.inicio hs) ha ht).1

end Usuario

end SpaceOS.Paging
