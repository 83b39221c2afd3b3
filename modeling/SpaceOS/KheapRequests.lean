-- What a request for `n` bytes of the kernel heap gets: a block that is large enough if there is
-- one, except where rounding `n` up wraps.
import SpaceOS.KheapLaws
import SpaceOS.Lib.Trail

open Lib.Bytes Lib.BlockList Lib.Trail

namespace SpaceOS.Kheap

/-! ## The blocks of the list -/

/-- The header at `a` is one of the list from `heap_inicio`. -/
def NaLista (h : Heap) (a : Nat) : Prop := Visits (proximo h.mem) (· = 0) h.heap_inicio a

/-- The list has a free block of at least `k` bytes. -/
def TemLivre (h : Heap) (k : Nat) : Prop :=
  ∃ a, NaLista h a ∧ livre h.mem a ≠ 0 ∧ k ≤ tamanho h.mem a

/-- `n` rounded up to a multiple of 4. -/
def acima (n : Nat) : Nat := (n + 3) / 4 * 4

/-- A call for `n` bytes gives null if no free block is large enough, and otherwise the payload of a
block that is. -/
def Atende (h : Heap) (n : Nat) : Prop :=
  ∃ p h', kmalloc h n = some (p, h') ∧ (p = 0 ↔ ¬ TemLivre h (acima n)) ∧
    (p ≠ 0 → NaLista h' (p - CABECALHO) ∧ n ≤ carga h' p)

theorem alinhar_eq {n : Nat} (h : n ≤ 2 ^ 32 - 4) : alinhar n = acima n := by
  simp only [alinhar, acima]
  omega

theorem alinhar_wraps {n : Nat} (h : 2 ^ 32 - 4 < n) (hn : n < 2 ^ 32) :
    alinhar n = 0 ∧ acima n = 2 ^ 32 := by
  simp only [alinhar, acima]
  omega

/-- The walk over the pointers visits the headers of the blocks. -/
theorem Ladrilha.visits_iff {m : Memory} {a x : Nat} {bs : List Block} (h : Ladrilha m a bs)
    (ha : a ≠ 0) : Visits (proximo m) (· = 0) (elo a) x ↔ x ∈ headers CABECALHO a bs := by
  induction bs generalizing a with
  | nil =>
    rw [h.elo_nil]
    exact ⟨fun hv => absurd rfl hv.from_not_stop, fun hx => absurd hx List.not_mem_nil⟩
  | cons b bs ih =>
    obtain ⟨_, _, hp, _⟩ := h.segue
    have hrest := ih h.tail (by omega)
    rw [← hp] at hrest
    rw [h.elo_head, headers, List.mem_cons, ← hrest]
    constructor
    · exact fun hv => hv.cases_head
    · rintro (rfl | hv)
      · exact .start ha
      · exact hv.head ha

theorem Segue.of_mem {m : Memory} {a x : Nat} {bs : List Block} (h : Segue m a bs)
    (hx : x ∈ headers CABECALHO a bs) :
    ∃ b ∈ bs, tamanho m x = b.size ∧ livre m x = if b.free then 1 else 0 := by
  induction bs generalizing a with
  | nil => exact absurd hx List.not_mem_nil
  | cons b bs ih =>
    obtain ⟨h1, h2, _, h4⟩ := h
    rcases List.mem_cons.mp hx with rfl | hx
    · exact ⟨b, List.mem_cons_self, h1, h2⟩
    · obtain ⟨c, hc, hs⟩ := ih h4 hx
      exact ⟨c, List.mem_cons_of_mem _ hc, hs⟩

theorem Segue.exists_header {m : Memory} {a : Nat} {b : Block} {bs : List Block} (h : Segue m a bs)
    (hb : b ∈ bs) : ∃ x ∈ headers CABECALHO a bs,
      tamanho m x = b.size ∧ livre m x = if b.free then 1 else 0 := by
  induction bs generalizing a with
  | nil => exact absurd hb List.not_mem_nil
  | cons c bs ih =>
    obtain ⟨h1, h2, _, h4⟩ := h
    rcases List.mem_cons.mp hb with rfl | hb
    · exact ⟨a, List.mem_cons_self, h1, h2⟩
    · obtain ⟨x, hx, hs⟩ := ih h4 hb
      exact ⟨x, List.mem_cons_of_mem _ hx, hs⟩

section Inteiro

variable {s : Estado} {bs : List Block}

theorem Inteiro.naLista_iff (hi : Inteiro s bs) (x : Nat) :
    NaLista s.heap x ↔ x ∈ headers CABECALHO HEAP_INICIO bs := by
  rw [NaLista, ← hi.elo_inicio, hi.inicio]
  exact hi.ladrilha.visits_iff heap_inicio_ne

theorem Inteiro.temLivre_iff (hi : Inteiro s bs) (k : Nat) :
    TemLivre s.heap k ↔ ∃ b ∈ bs, b.free = true ∧ k ≤ b.size := by
  constructor
  · rintro ⟨a, ha, hl, hk⟩
    obtain ⟨b, hb, hsize, hfree⟩ := hi.ladrilha.segue.of_mem ((hi.naLista_iff a).mp ha)
    rw [hfree] at hl
    refine ⟨b, hb, ?_, hsize ▸ hk⟩
    by_contra hf
    exact hl (if_neg hf)
  · rintro ⟨b, hb, hf, hk⟩
    obtain ⟨x, hx, hsize, hfree⟩ := hi.ladrilha.segue.exists_header hb
    refine ⟨x, (hi.naLista_iff x).mpr hx, ?_, hsize ▸ hk⟩
    rw [hfree, if_pos hf]
    decide

/-- The header of a live pointer is one of the list. -/
theorem Inteiro.vivo_na_lista (hi : Inteiro s bs) {p : Nat} (hp : p ∈ s.vivos) :
    NaLista s.heap (p - CABECALHO) := by
  obtain ⟨size, hu⟩ := (hi.vivos_iff p).mp hp
  obtain ⟨pre, post, hbs, hpre, _⟩ := release_split CABECALHO (by decide) hu
  have e : p - CABECALHO = HEAP_INICIO + span CABECALHO pre := by omega
  rw [hi.naLista_iff, hbs, e, headers_append]
  exact List.mem_append_right _ List.mem_cons_self

/-- Null is what a call gives where no free block holds the rounded size. -/
theorem Inteiro.kmalloc_zero_iff (hi : Inteiro s bs) {n p : Nat} {h' : Heap} (hn : n ≠ 0)
    (hk : Kheap.kmalloc s.heap n = some (p, h')) : p = 0 ↔ ¬ TemLivre s.heap (alinhar n) := by
  have hl := hi.ladrilha
  have h0 : ¬ (s.heap.inicializado = false ∨ n = 0) := by
    rw [hi.ligado]
    exact not_or.mpr ⟨by decide, hn⟩
  rw [Kheap.kmalloc, if_neg h0, hi.inicio] at hk
  rw [hi.temLivre_iff]
  have helo : elo HEAP_INICIO = HEAP_INICIO := by decide
  cases halloc : alloc CABECALHO 8 (alinhar n) HEAP_INICIO bs with
  | none =>
    have hb := kmalloc_busca_none hl heap_inicio_ne hl.length_lt halloc
    rw [helo] at hb
    rw [hb] at hk
    cases hk
    refine ⟨fun _ hex => ?_, fun _ => rfl⟩
    obtain ⟨b, hmem, hf, hsize⟩ := hex
    exact alloc_none CABECALHO 8 halloc b hmem ⟨hf, hsize⟩
  | some r =>
    obtain ⟨q, cs⟩ := r
    obtain ⟨m', hm', _⟩ := kmalloc_busca_some hl heap_inicio_ne hl.length_lt halloc
    rw [helo] at hm'
    rw [hm'] at hk
    cases hk
    obtain ⟨pre, b, post, hbs, hf, hsize, hp, _⟩ := alloc_split CABECALHO 8 halloc
    refine ⟨fun hz => ?_, fun hno => absurd ⟨b, ?_, hf, hsize⟩ hno⟩
    · rw [hp] at hz
      simp only [CABECALHO] at hz
      omega
    · rw [hbs]
      exact List.mem_append_right _ List.mem_cons_self

/-- What a call gets, by the rounded size: null where no free block holds it, else a block that does. -/
theorem Inteiro.pedido (hi : Inteiro s bs) {n : Nat} (hn : n ≠ 0) :
    ∃ p h', Kheap.kmalloc s.heap n = some (p, h') ∧ (p = 0 ↔ ¬ TemLivre s.heap (alinhar n)) ∧
      (p ≠ 0 → NaLista h' (p - CABECALHO) ∧ alinhar n ≤ Kheap.carga h' p) := by
  obtain ⟨p, h', cs, hk, hc, hp⟩ := hi.kmalloc n
  refine ⟨p, h', hk, hi.kmalloc_zero_iff hn hk, fun h0 => ⟨?_, (hp h0).2⟩⟩
  refine hc.vivo_na_lista ?_
  rw [if_neg h0]
  exact List.mem_cons_self

end Inteiro

theorem TemLivre.mono {h : Heap} {j k : Nat} (hjk : j ≤ k) (ht : TemLivre h k) : TemLivre h j := by
  obtain ⟨a, ha, hl, hk⟩ := ht
  exact ⟨a, ha, hl, Nat.le_trans hjk hk⟩

theorem not_temLivre_2_32 (h : Heap) : ¬ TemLivre h (2 ^ 32) := fun ⟨a, _, _, hk⟩ =>
  Nat.not_le.mpr (word_lt h.mem a) hk

/-- In every state of a run, a call for `n` bytes gets what was asked for exactly if rounding `n` up does
not wrap at 32 bits or no block of the list is free. -/
theorem kmalloc_gives_what_was_asked_iff {s : Estado} (h : Alcanca s) {n : Nat} (hn : 0 < n)
    (hn' : n < 2 ^ 32) : Atende s.heap n ↔ n ≤ 2 ^ 32 - 4 ∨ ¬ TemLivre s.heap 0 := by
  obtain ⟨bs, hi⟩ := inteiro_of_alcanca h
  obtain ⟨p, h', hk, hz, hp⟩ := hi.pedido hn.ne'
  by_cases hle : n ≤ 2 ^ 32 - 4
  · refine ⟨fun _ => Or.inl hle, fun _ => ⟨p, h', hk, ?_, fun h0 => ⟨(hp h0).1, ?_⟩⟩⟩
    · rw [hz, alinhar_eq hle]
    · have h4 := (hp h0).2
      rw [alinhar_eq hle] at h4
      simp only [acima] at h4
      omega
  -- from here on the rounded size is 0, and any free block is taken for it
  obtain ⟨ha, ha'⟩ := alinhar_wraps (Nat.not_le.mp hle) hn'
  rw [ha] at hz
  have hbig : ¬ TemLivre s.heap (acima n) := ha' ▸ not_temLivre_2_32 s.heap
  constructor
  · rintro ⟨q, h1, hk', hz', _⟩
    rw [hk] at hk'
    cases hk'
    exact Or.inr (hz.mp (hz'.mpr hbig))
  · rintro (hle' | hno)
    · exact absurd hle' hle
    · have h0 : p = 0 := hz.mpr hno
      exact ⟨p, h', hk, ⟨fun _ => hbig, fun _ => h0⟩, fun hne => absurd h0 hne⟩

theorem a_request_at_boot_gets_what_was_asked :
    Atende (kheap_init ⟨fun _ => 0, 0, false⟩) 100 :=
  (kmalloc_gives_what_was_asked_iff (.kheap_init ⟨fun _ => 0, 0, false⟩) (by decide)
    (by decide)).mpr (Or.inl (by decide))

/-- Right after `kheap_init`, a call for all 32 bits of bytes gets a block. -/
theorem a_request_of_all_bytes_gets_a_block :
    ¬ ∀ s, Alcanca s → ∀ n, 0 < n → n < 2 ^ 32 → Atende s.heap n := by
  intro hall
  have hi := inteiro_kheap_init ⟨fun _ => 0, 0, false⟩
  obtain ⟨p, h', hk, hz, _⟩ :=
    hall _ (.kheap_init ⟨fun _ => 0, 0, false⟩) (2 ^ 32 - 1) (by decide) (by decide)
  have hp := hi.kmalloc_zero_iff (by decide) hk
  have hfree : TemLivre (kheap_init ⟨fun _ => 0, 0, false⟩) (alinhar (2 ^ 32 - 1)) :=
    (hi.temLivre_iff _).mpr ⟨_, List.mem_cons_self, rfl, by decide⟩
  refine hp.mp (hz.mpr ?_) hfree
  exact not_temLivre_2_32 _

end SpaceOS.Kheap
