-- Who owns the data sectors of a volume: what the allocation, the growth of a directory, a
-- write and an unlink do to the blocks of the inodes and to the block bitmap.
import SpaceOS.Lib.Ownership
import SpaceOS.SpaceFsRefine

open Lib.Bytes Lib.Ownership SpaceOS.Ata
open Function (update update_self update_of_ne)

namespace SpaceOS.SpaceFs

/-! ## Blocks, owners and marks -/

/-- Sector `s` is at place `b` of the inode. -/
def Tem (x : Inode) (b s : Nat) : Prop := b < 10 ∧ inode_block x b = s ∧ s ≠ 0

/-- Sector `s` is at place `b` of inode `i`, which is in use. -/
def tem (imap : Nat → Bool) (ino : Nat → Inode) : Holds Nat Nat Nat :=
  fun i b s => (i < SFS_INODE_MAX ∧ imap i = true) ∧ Tem (ino i) b s

/-- The bitmap has a bit for sector `s`, and it is set. -/
def marcado (bmap : Nat → Bool) (s : Nat) : Prop :=
  DeDados s ∧ bmap (s - SFS_DATA_START) = true

/-- No sector is at two places of the inodes in use, and the bits set are those of the sectors
at such a place and of the sectors in hand. -/
def Posse (imap : Nat → Bool) (ino : Nat → Inode) (bmap : Nat → Bool) (mao : Nat → Prop) : Prop :=
  Owned (tem imap ino) mao (marcado bmap)

/-- No sector is in hand. -/
def nada : Nat → Prop := fun _ => False

section Posse

variable {imap : Nat → Bool} {ino : Nat → Inode} {bmap : Nat → Bool} {mao : Nat → Prop}

theorem Posse.bons (h : Posse imap ino bmap mao) {i : Nat} (hi : i < SFS_INODE_MAX)
    (hu : imap i = true) : Bons (ino i) := fun b hb hne =>
  (h.mark_of_holds (i := i) (b := b) ⟨⟨hi, hu⟩, hb, rfl, hne⟩).1

theorem Posse.congr_mao {mao' : Nat → Prop} (h : Posse imap ino bmap mao)
    (hm : ∀ s, mao' s ↔ mao s) : Posse imap ino bmap mao' :=
  Owned.congr h (fun _ _ _ => Iff.rfl) hm fun _ => Iff.rfl

/-- A free sector is taken. -/
theorem Posse.toma (h : Posse imap ino bmap mao) {n : Nat} (hn : n < BMAP_BITS)
    (hl : bmap n = false) :
    Posse imap ino (update bmap n true) fun s => mao s ∨ s = SFS_DATA_START + n := by
  have hm : ¬ marcado bmap (SFS_DATA_START + n) := fun hm => by
    rw [marcado, Nat.add_sub_cancel_left, hl] at hm
    exact absurd hm.2 (by decide)
  refine Owned.congr (Owned.take h hm) (fun _ _ _ => Iff.rfl) (fun _ => Iff.rfl) fun s => ?_
  unfold marcado
  by_cases hs : s - SFS_DATA_START = n
  · rw [hs, update_self]
    constructor
    · rintro ⟨hd, _⟩
      exact Or.inr (by unfold DeDados at hd; omega)
    · rintro (⟨hd, _⟩ | rfl)
      · exact ⟨hd, rfl⟩
      · exact ⟨⟨Nat.le_add_right _ _, Nat.add_lt_add_left hn _⟩, rfl⟩
  · rw [update_of_ne hs]
    constructor
    · exact Or.inl
    · rintro (hd | rfl)
      · exact hd
      · omega

/-- A sector in hand is given back. -/
theorem Posse.devolve (h : Posse imap ino bmap mao) {s : Nat} (hs : mao s) :
    Posse imap ino (update bmap (s - SFS_DATA_START) false) fun t => mao t ∧ t ≠ s := by
  have hd := (h.mark_of_hand hs).1
  refine Owned.congr (Owned.give h hs) (fun _ _ _ => Iff.rfl) (fun _ => Iff.rfl) fun t => ?_
  unfold marcado
  by_cases ht : t - SFS_DATA_START = s - SFS_DATA_START
  · rw [ht, update_self]
    constructor
    · rintro ⟨_, h0⟩
      exact absurd h0 (by decide)
    · rintro ⟨⟨ht', _⟩, hne⟩
      exact absurd (by unfold DeDados at hd ht'; omega : t = s) hne
  · rw [update_of_ne ht]
    constructor
    · rintro h'
      exact ⟨h', by rintro rfl; exact ht rfl⟩
    · exact fun h' => h'.1

theorem tem_update_false (imap : Nat → Bool) (ino : Nat → Inode) (i j b s : Nat) :
    tem (update imap i false) ino j b s ↔ without (tem imap ino) i j b s := by
  unfold tem without
  by_cases hj : j = i
  · rw [hj, update_self]
    simp
  · rw [update_of_ne hj]
    simp [hj]

/-- An inode goes out of use: its sectors come into the hand. -/
theorem Posse.solta (h : Posse imap ino bmap mao) (i : Nat) :
    Posse (update imap i false) ino bmap fun s => mao s ∨ ∃ b, tem imap ino i b s :=
  Owned.congr (Owned.drop h i) (fun j b s => tem_update_false imap ino i j b s)
    (fun _ => Iff.rfl) fun _ => Iff.rfl

/-- An inode out of use is written with sectors that are all in hand, and put into use. -/
theorem Posse.adota (h : Posse imap ino bmap mao) {i : Nat} (hi : i < SFS_INODE_MAX)
    (hu : imap i = false) {x : Inode} (hx : ∀ b s, Tem x b s → mao s)
    (hinj : ∀ {b c s}, Tem x b s → Tem x c s → b = c) :
    Posse (update imap i true) (update ino i x) bmap fun s => mao s ∧ ∀ b, ¬ Tem x b s := by
  have hn : ∀ b s, ¬ tem imap ino i b s := fun b s ht => by
    rw [tem, hu] at ht
    exact absurd ht.1.2 (by decide)
  refine Owned.congr (Owned.adopt h hn hx hinj) (fun j b s => ?_) (fun _ => Iff.rfl) fun _ => Iff.rfl
  unfold adding tem
  by_cases hj : j = i
  · subst hj
    rw [update_self, update_self, hu]
    simp [hi]
  · rw [update_of_ne hj, update_of_ne hj]
    simp [hj]

/-- An inode out of use is written. -/
theorem Posse.fora (h : Posse imap ino bmap mao) {i : Nat} (hu : imap i = false) (x : Inode) :
    Posse imap (update ino i x) bmap mao := by
  refine Owned.congr h (fun j b s => ?_) (fun _ => Iff.rfl) fun _ => Iff.rfl
  unfold tem
  by_cases hj : j = i
  · rw [hj, hu]
    simp
  · rw [update_of_ne hj]

end Posse

/-! ## Giving back and filling the blocks of one inode -/

section Blocos

variable {imap : Nat → Bool} {v : Volume} {mao : Nat → Prop}

theorem free_blocks_of_rest (in_ : Inode) (l : List Nat) (v : Volume) :
    (Volume.free_blocks_of in_ l v).imap = v.imap ∧ (Volume.free_blocks_of in_ l v).ino = v.ino ∧
      (Volume.free_blocks_of in_ l v).dado = v.dado := by
  induction l generalizing v with
  | nil => exact ⟨rfl, rfl, rfl⟩
  | cons b l ih =>
    obtain ⟨h1, h2, h3⟩ := ih (if inode_block in_ b ≠ 0 then v.free_block (inode_block in_ b) else v)
    rw [Volume.free_blocks_of, h1, h2, h3]
    refine ⟨?_, ?_, ?_⟩ <;> split <;> rfl

/-- `free_blocks_of` gives back the sectors of the inode, when they are all in hand. -/
theorem posse_free_blocks {ino : Nat → Inode} {x : Inode} {l : List Nat} (hl : ∀ b ∈ l, b < 10)
    (hnd : l.Nodup) (hinj : ∀ {b c s}, Tem x b s → Tem x c s → b = c)
    (h : Posse imap ino v.bmap mao) (hx : ∀ b ∈ l, ∀ s, Tem x b s → mao s) :
    Posse imap ino (Volume.free_blocks_of x l v).bmap fun s => mao s ∧ ∀ b ∈ l, ¬ Tem x b s := by
  induction l generalizing v mao with
  | nil => exact h.congr_mao fun s => by simp
  | cons b l ih =>
    obtain ⟨hbl, hnd'⟩ := List.nodup_cons.mp hnd
    have hl' : ∀ c ∈ l, c < 10 := fun c hc => hl c (List.mem_cons_of_mem _ hc)
    rw [Volume.free_blocks_of]
    by_cases h0 : inode_block x b ≠ 0
    · rw [if_pos h0]
      have hb : Tem x b (inode_block x b) := ⟨hl b List.mem_cons_self, rfl, h0⟩
      have h' := h.devolve (hx b List.mem_cons_self _ hb)
      refine (ih (v := v.free_block (inode_block x b)) hl' hnd' h' fun c hc s hs => ?_).congr_mao
        fun s => ?_
      · refine ⟨hx c (List.mem_cons_of_mem _ hc) s hs, ?_⟩
        rintro rfl
        exact hbl (hinj hb hs ▸ hc)
      · simp only [List.forall_mem_cons]
        constructor
        · rintro ⟨hs, hnb, hnl⟩
          exact ⟨⟨hs, fun he => hnb (he ▸ hb)⟩, hnl⟩
        · rintro ⟨⟨hs, hne⟩, hnl⟩
          exact ⟨hs, fun ht => hne (ht.2.1 ▸ rfl), hnl⟩
    · rw [if_neg h0]
      refine (ih hl' hnd' h fun c hc => hx c (List.mem_cons_of_mem _ hc)).congr_mao fun s => ?_
      simp only [List.forall_mem_cons]
      constructor
      · rintro ⟨hs, _, hnl⟩
        exact ⟨hs, hnl⟩
      · rintro ⟨hs, hnl⟩
        exact ⟨hs, fun ht => ht.2.2 (by rw [← ht.2.1]; exact not_not.mp h0), hnl⟩

/-- The places of an inode after one that was free is taken. -/
theorem tem_por_block {x : Inode} {b s : Nat} (hb : b < 10) (h0 : inode_block x b = 0)
    (hs : DeDados s) (c t : Nat) :
    Tem (inode_por_block x b s) c t ↔ Tem x c t ∨ (c = b ∧ t = s) := by
  have hs' := hs
  simp only [DeDados, SFS_DATA_START, BMAP_BITS_eq] at hs'
  have hmod : s % 2 ^ 32 = s := Nat.mod_eq_of_lt (by omega)
  unfold Tem
  by_cases hc : c = b
  · subst hc
    rw [block_por_block_self _ _ hb, hmod, h0]
    constructor
    · rintro ⟨_, rfl, _⟩
      exact Or.inr ⟨rfl, rfl⟩
    · rintro (⟨_, rfl, hne⟩ | ⟨_, rfl⟩)
      · exact absurd rfl hne
      · exact ⟨hb, rfl, by omega⟩
  · by_cases hc10 : c < 10
    · rw [block_por_block_ne _ _ hc10 hc]
      simp [hc]
    · simp [hc10, hc]

/-- No two places of the inode hold one sector. -/
def Distintos (x : Inode) : Prop := ∀ {b c s}, Tem x b s → Tem x c s → b = c

theorem Distintos.por_block {x : Inode} (h : Distintos x) {b s : Nat} (hb : b < 10)
    (h0 : inode_block x b = 0) (hs : DeDados s) (hnew : ∀ c, ¬ Tem x c s) :
    Distintos (inode_por_block x b s) := by
  intro c d t h1 h2
  rw [tem_por_block hb h0 hs] at h1 h2
  rcases h1 with h1 | ⟨rfl, rfl⟩ <;> rcases h2 with h2 | ⟨rfl, h2⟩
  · exact h h1 h2
  · exact absurd (h2 ▸ h1) (hnew c)
  · exact absurd h2 (hnew d)
  · rfl

/-- What the loop of `spfs_write` leaves alone, run over the places `l`: all but the bitmap, the
blocks of the inode in core at those places, and sectors that were not marked. -/
structure Escrito (l : List Nat) (x : Inode) (v : Volume) (x' : Inode) (v' : Volume) : Prop where
  imap_eq : v'.imap = v.imap
  ino_eq : v'.ino = v.ino
  type_eq : inode_type x' = inode_type x
  size_eq : inode_size x' = inode_size x
  block_eq : ∀ c < 10, c ∉ l → inode_block x' c = inode_block x c
  dado_eq : ∀ s, marcado v.bmap s → v'.dado s = v.dado s

/-- The volume with a free sector taken and written. -/
def Volume.tomou (v : Volume) (n : Nat) (b : Setor) : Volume :=
  Volume.por_dado { v with
    bmap := update v.bmap n true
    free_blocks := (v.free_blocks + 2 ^ 32 - 1) % 2 ^ 32 } (SFS_DATA_START + n) b

theorem not_marcado {bmap : Nat → Bool} {n : Nat} (h : bmap n = false) :
    ¬ marcado bmap (SFS_DATA_START + n) := fun hm => by
  rw [marcado, Nat.add_sub_cancel_left, h] at hm
  exact absurd hm.2 (by decide)

theorem marcado_tomou {n s : Nat} {b : Setor} (h : marcado v.bmap s) :
    marcado (v.tomou n b).bmap s := by
  refine ⟨h.1, ?_⟩
  change update v.bmap n true (s - SFS_DATA_START) = true
  by_cases hs : s - SFS_DATA_START = n
  · rw [hs, update_self]
  · rw [update_of_ne hs]
    exact h.2

theorem marcado_tomou_self {n : Nat} (hn : n < BMAP_BITS) (b : Setor) :
    marcado (v.tomou n b).bmap (SFS_DATA_START + n) := by
  refine ⟨⟨Nat.le_add_right _ _, Nat.add_lt_add_left hn _⟩, ?_⟩
  change update v.bmap n true (SFS_DATA_START + n - SFS_DATA_START) = true
  rw [Nat.add_sub_cancel_left, update_self]

/-- The two ways through one turn of the loop of `spfs_write`. -/
theorem write_laco_cons (buf : List UInt8) (b : Nat) (l : List Nat) (x : Inode) (done : Nat)
    (v : Volume) :
    (Volume.write_laco buf (b :: l) x done v = ((x, done), v) ∧
      (buf.length ≤ done ∨ ∀ n < BMAP_BITS, v.bmap n = true)) ∨
    done < buf.length ∧ ∃ n < BMAP_BITS, v.bmap n = false ∧
      Volume.write_laco buf (b :: l) x done v =
        Volume.write_laco buf l (inode_por_block x b (SFS_DATA_START + n))
          (done + min (buf.length - done) SETOR_SIZE)
          (v.tomou n (bloco_de ((buf.drop done).take (min (buf.length - done) SETOR_SIZE)))) := by
  rw [Volume.write_laco]
  split
  · rename_i h
    exact Or.inl ⟨rfl, Or.inl h⟩
  · rename_i h
    rcases v.alloc_block_cases with ⟨hall, he⟩ | ⟨n, hn, hfree, _, he⟩
    · rw [he]
      exact Or.inl ⟨rfl, Or.inr hall⟩
    · rw [he]
      exact Or.inr ⟨by omega, n, hn, hfree, rfl⟩

theorem escrito_write_laco (buf : List UInt8) {l : List Nat} (hl : ∀ b ∈ l, b < 10) (x : Inode)
    (done : Nat) (v : Volume) : Escrito l x v (Volume.write_laco buf l x done v).1.1
      (Volume.write_laco buf l x done v).2 := by
  induction l generalizing x v done with
  | nil => exact ⟨rfl, rfl, rfl, rfl, fun _ _ _ => rfl, fun _ _ => rfl⟩
  | cons b l ih =>
    have hb := hl b List.mem_cons_self
    rcases write_laco_cons buf b l x done v with ⟨he, _⟩ | ⟨_, n, hn, hfree, he⟩
    · rw [he]
      exact ⟨rfl, rfl, rfl, rfl, fun _ _ _ => rfl, fun _ _ => rfl⟩
    · rw [he]
      obtain ⟨g1, g2, g3, g4, g5, g6⟩ := ih (fun c hc => hl c (List.mem_cons_of_mem _ hc))
        (inode_por_block x b (SFS_DATA_START + n)) (done + min (buf.length - done) SETOR_SIZE)
        (v.tomou n (bloco_de ((buf.drop done).take (min (buf.length - done) SETOR_SIZE))))
      refine ⟨g1, g2, by rw [g3, type_por_block], by rw [g4, size_por_block _ _ hb],
        fun c hc hnot => ?_, fun s hm => ?_⟩
      · obtain ⟨hne, hnl⟩ := not_or.mp (List.mem_cons.not.mp hnot)
        rw [g5 c hc hnl, block_por_block_ne _ _ hc hne]
      · rw [g6 s (marcado_tomou hm)]
        refine update_of_ne ?_ _ _
        rintro rfl
        exact not_marcado hfree hm

/-- The loop of `spfs_write` keeps the marks right: the sectors taken are those of the inode in
core, each at one place of it. -/
theorem posse_write_laco {ino : Nat → Inode} (buf : List UInt8) {l : List Nat}
    (hl : ∀ b ∈ l, b < 10) (hnd : l.Nodup) {x : Inode} (hz : ∀ b ∈ l, inode_block x b = 0)
    (hinj : Distintos x) (h : Posse imap ino v.bmap fun s => ∃ b, Tem x b s) (done : Nat) :
    (Posse imap ino (Volume.write_laco buf l x done v).2.bmap
      fun s => ∃ b, Tem (Volume.write_laco buf l x done v).1.1 b s) ∧
    Distintos (Volume.write_laco buf l x done v).1.1 := by
  induction l generalizing x v done with
  | nil => exact ⟨h, hinj⟩
  | cons b l ih =>
    obtain ⟨hbl, hnd'⟩ := List.nodup_cons.mp hnd
    have hb := hl b List.mem_cons_self
    have hb0 := hz b List.mem_cons_self
    rcases write_laco_cons buf b l x done v with ⟨he, _⟩ | ⟨_, n, hn, hfree, he⟩
    · rw [he]
      exact ⟨h, hinj⟩
    · rw [he]
      have hs : DeDados (SFS_DATA_START + n) :=
        ⟨Nat.le_add_right _ _, Nat.add_lt_add_left hn _⟩
      have hnew : ∀ c, ¬ Tem x c (SFS_DATA_START + n) := fun c hc =>
        not_marcado hfree (h.mark_of_hand ⟨c, hc⟩)
      have hmao : ∀ t, (∃ c, Tem (inode_por_block x b (SFS_DATA_START + n)) c t) ↔
          (∃ c, Tem x c t) ∨ t = SFS_DATA_START + n := fun t => by
        simp only [tem_por_block hb hb0 hs]
        constructor
        · rintro ⟨c, hc | ⟨_, ht⟩⟩
          · exact Or.inl ⟨c, hc⟩
          · exact Or.inr ht
        · rintro (⟨c, hc⟩ | ht)
          · exact ⟨c, Or.inl hc⟩
          · exact ⟨b, Or.inr ⟨rfl, ht⟩⟩
      refine ih (fun c hc => hl c (List.mem_cons_of_mem _ hc)) hnd' (fun c hc => ?_)
        (hinj.por_block hb hb0 hs hnew) ((h.toma hn hfree).congr_mao hmao) _
      have hcb : c ≠ b := fun he => hbl (he ▸ hc)
      rw [block_por_block_ne _ _ (hl c (List.mem_cons_of_mem _ hc)) hcb]
      exact hz c (List.mem_cons_of_mem _ hc)

/-! ## Adding an entry to a directory -/

theorem vaga_zero : Volume.vaga ByteStr.zero = some 0 := by decide

/-- A block of the directory that is there and has no free entry. -/
def Cheio (v : Volume) (dir : Inode) (b : Nat) : Prop :=
  inode_block dir b ≠ 0 ∧ Volume.vaga (v.dado (inode_block dir b)) = none

/-- `dir_add_entry` fails and leaves the volume as it was, or it puts the entry into the first
block that is not full. -/
theorem dir_add_laco_cases (p child : Nat) (name : List UInt8) (l : List Nat) (dir : Inode)
    (v : Volume) :
    (Volume.dir_add_laco p child name l dir v = (false, v) ∧
      ((∀ b ∈ l, Cheio v dir b) ∨ ∃ pre b post, l = pre ++ b :: post ∧ (∀ c ∈ pre, Cheio v dir c) ∧
        inode_block dir b = 0 ∧ ∀ n < BMAP_BITS, v.bmap n = true)) ∨
    ∃ pre b post s dir' dblk v' e, l = pre ++ b :: post ∧ (∀ c ∈ pre, Cheio v dir c) ∧
      v.abre_bloco dir b = (some (s, dir', dblk), v') ∧ Volume.vaga dblk = some e ∧
      Volume.dir_add_laco p child name l dir v =
        (true, (v'.por_dado s (dirent_por dblk e child name)).por_ino p
          (inode_por_size dir' (inode_size dir' + 32))) := by
  induction l with
  | nil => exact Or.inl ⟨rfl, Or.inl (by simp)⟩
  | cons b l ih =>
    rw [Volume.dir_add_laco]
    by_cases h0 : inode_block dir b = 0
    · rcases v.alloc_block_cases with ⟨hall, he⟩ | ⟨n, hn, hfree, _, he⟩
      · have ha : v.abre_bloco dir b = (none, v) := by rw [Volume.abre_bloco, if_pos h0, he]
        rw [ha]
        exact Or.inl ⟨rfl, Or.inr ⟨[], b, l, rfl, by simp, h0, hall⟩⟩
      · have ha := by
          have := Volume.abre_bloco.eq_1 v dir b
          rw [if_pos h0, he] at this
          exact this
        refine Or.inr ⟨[], b, l, _, _, _, _, 0, rfl, by simp, ha, vaga_zero, ?_⟩
        rw [ha]
        dsimp only
        rw [vaga_zero]
    · have ha : v.abre_bloco dir b =
          (some (inode_block dir b, dir, v.dado (inode_block dir b)), v) := by
        rw [Volume.abre_bloco, if_neg h0]
      rw [ha]
      dsimp only
      cases hv : Volume.vaga (v.dado (inode_block dir b)) with
      | some e => exact Or.inr ⟨[], b, l, _, _, _, _, e, rfl, by simp, ha, hv, rfl⟩
      | none =>
        have hc : Cheio v dir b := ⟨h0, hv⟩
        rcases ih with ⟨he, hf⟩ | ⟨pre, c, post, s, dir', dblk, v', e, h1, h2, h3, h4, h5⟩
        · refine Or.inl ⟨he, hf.imp (fun h => ?_) fun h => ?_⟩
          · exact List.forall_mem_cons.mpr ⟨hc, h⟩
          · obtain ⟨pre, c, post, hl, hpre, h⟩ := h
            exact ⟨b :: pre, c, post, by rw [hl]; rfl, List.forall_mem_cons.mpr ⟨hc, hpre⟩, h⟩
        · exact Or.inr ⟨b :: pre, c, post, s, dir', dblk, v', e, by rw [h1]; rfl,
            List.forall_mem_cons.mpr ⟨hc, h2⟩, h3, h4, h5⟩

end Blocos

end SpaceOS.SpaceFs
