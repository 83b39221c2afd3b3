-- The laws of the DNS client: the handler against the grammar of the messages, RFC 1035.
import SpaceOS.Dns
import SpaceOS.Lib.Layout

open Lib.Bytes Lib.Footprint Lib.Layout SpaceOS.Net

namespace SpaceOS.Dns

/-! ## The grammar -/

/-- A name: labels, and then the root or a pointer to the rest of it. -/
structure Nome where
  rotulos : List (List UInt8)
  ponteiro : Option (UInt8 × UInt8)
  rotulo : ∀ l ∈ rotulos, l ≠ [] ∧ l.length ≤ 63
  marca : ∀ q ∈ ponteiro, q.1 &&& 0xC0 = 0xC0

def bytes_rotulos (ls : List (List UInt8)) : List UInt8 :=
  ls.flatMap fun l => UInt8.ofNat l.length :: l

/-- What ends a name. -/
def bytes_fim : Option (UInt8 × UInt8) → List UInt8
  | none => [0]
  | some (a, b) => [a, b]

def Nome.bytes (nome : Nome) : List UInt8 := bytes_rotulos nome.rotulos ++ bytes_fim nome.ponteiro

/-- The name is labels up to the root, or a pointer alone. -/
def Nome.Simples (nome : Nome) : Prop := nome.rotulos = [] ∨ nome.ponteiro = none

instance (nome : Nome) : Decidable nome.Simples := inferInstanceAs (Decidable (_ ∨ _))

/-- A record. The data of one of type A and class IN is an address. -/
structure Registro where
  nome : Nome
  rtype : UInt16
  rclass : UInt16
  ttl : UInt32
  rdata : List UInt8
  rdlen : rdata.length < 65536
  ipv4 : rtype = 1 → rclass = 1 → rdata.length = 4

def Registro.bytes (g : Registro) : List UInt8 :=
  g.nome.bytes ++ bytes16 (htons g.rtype) ++ bytes16 (htons g.rclass) ++ bytes32 (htonl g.ttl) ++
    bytes16 (htons (UInt16.ofNat g.rdata.length)) ++ g.rdata

/-- The record is of type A and class IN. -/
def Registro.EhA (g : Registro) : Prop := g.rtype = 1 ∧ g.rclass = 1

instance (g : Registro) : Decidable g.EhA := inferInstanceAs (Decidable (_ ∧ _))

/-- The number that four bytes are, the first of them highest. -/
def endereco (bs : List UInt8) : UInt32 := UInt32.ofNat (bs.foldl (fun n b => 256 * n + b.toNat) 0)

/-- A response with one question. `resto` is what comes after the answers. -/
structure Resposta where
  id : UInt16
  flags : UInt16
  nscount : UInt16
  arcount : UInt16
  pergunta : Nome
  qtype : UInt16
  qclass : UInt16
  registros : List Registro
  resto : List UInt8
  resposta : flags &&& 0x8000 ≠ 0
  inteira : pergunta.ponteiro = none
  contados : registros.length < 65536

def Resposta.cabecalho (m : Resposta) : List UInt8 :=
  bytes16 (htons m.id) ++ bytes16 (htons m.flags) ++ bytes16 (htons 1) ++
    bytes16 (htons (UInt16.ofNat m.registros.length)) ++ bytes16 (htons m.nscount) ++
    bytes16 (htons m.arcount)

def Resposta.bytes (m : Resposta) : List UInt8 :=
  m.cabecalho ++ (m.pergunta.bytes ++ bytes16 (htons m.qtype) ++ bytes16 (htons m.qclass)) ++
    m.registros.flatMap Registro.bytes ++ m.resto

/-- The first record of type A and class IN. -/
def primeiro_a (gs : List Registro) : Option Registro := gs.find? fun g => g.EhA

/-- Before the first record of type A and class IN, each name is simple. -/
def Legivel : List Registro → Prop
  | [] => True
  | g :: gs => g.EhA ∨ g.nome.Simples ∧ Legivel gs

/-! ## Fields -/

section Campos

variable {data : Memory} {p fim : Nat}

theorem toNat_ntohs_half16 (data : Memory) (p : Nat) : (ntohs ((Reader.half16 p).val data)).toNat =
    256 * (data p).toNat + (data (p + 1)).toNat := by
  have h0 := (data p).toNat_lt
  have h1 := (data (p + 1)).toNat_lt
  unfold ntohs
  rw [toNat_htons, Reader.val_half16, UInt16.toNat_ofNat']
  unfold half
  omega

/-- A 16-bit field. -/
theorem val_half16 {v : UInt16} (h : Lies data p (bytes16 (htons v))) :
    ntohs ((Reader.half16 p).val data) = v := by
  have h0 : data (p + 0) = (htons v).toUInt8 := h 0 (by simp)
  have h1 : data (p + 1) = ((htons v) >>> 8).toUInt8 := h 1 (by simp)
  have hv := (htons v).toNat_lt
  have h8 : ((htons v) >>> 8).toNat = (htons v).toNat / 256 := by
    rw [UInt16.toNat_shiftRight]
    exact Nat.shiftRight_eq_div_pow _ 8
  have he : UInt16.ofNat (half data p) = htons v := by
    apply UInt16.toNat_inj.mp
    unfold half
    rw [Nat.add_zero] at h0
    rw [h0, h1, UInt16.toNat_ofNat', UInt16.toNat_toUInt8, UInt16.toNat_toUInt8, h8]
    omega
  rw [Reader.val_half16, he, ntohs_htons]

/-- An address. -/
theorem val_word32 {bs : List UInt8} (h : Lies data p bs) (hl : bs.length = 4) :
    ntohl ((Reader.word32 p).val data) = endereco bs := by
  match bs, hl with
  | [a, b, c, d], _ =>
    have h0 : data (p + 0) = a := h 0 (by simp)
    have h1 : data (p + 1) = b := h 1 (by simp)
    have h2 : data (p + 2) = c := h 2 (by simp)
    have h3 : data (p + 3) = d := h 3 (by simp)
    have ha := a.toNat_lt
    have hb := b.toNat_lt
    have hc := c.toNat_lt
    have hd := d.toNat_lt
    apply UInt32.toNat_inj.mp
    rw [Nat.add_zero] at h0
    unfold endereco ntohl
    rw [Reader.val_word32, toNat_htonl]
    unfold word
    simp only [h0, h1, h2, h3, List.foldl_cons, List.foldl_nil, UInt32.toNat_ofNat']
    have hw : ∀ {w : Nat}, w = a.toNat + 256 * b.toNat + 65536 * c.toNat + 16777216 * d.toNat →
        w % 2 ^ 32 = w ∧ w / 2 ^ 24 = d.toNat ∧ w / 2 ^ 16 % 256 = c.toNat ∧
          w / 2 ^ 8 % 256 = b.toNat ∧ w % 256 = a.toNat := by
      intro w hw
      omega
    obtain ⟨h32, hd', hc', hb', ha'⟩ := hw rfl
    rw [h32, hd', hc', hb', ha']
    omega

/-! ## Names -/

theorem marca_ne_zero : ∀ b : UInt8, b &&& 0xC0 = 0xC0 → b ≠ 0 := by
  rintro b h rfl
  exact absurd h (by decide)

/-- The length of a label is no pointer. -/
theorem rotulo_sem_marca {l : List UInt8} (h : l ≠ [] ∧ l.length ≤ 63) :
    UInt8.ofNat l.length ≠ 0 ∧ UInt8.ofNat l.length &&& 0xC0 ≠ 0xC0 ∧
      (UInt8.ofNat l.length).toNat = l.length := by
  have hpos := List.length_pos_iff.mpr h.1
  have hall : ∀ n < 64, 0 < n → UInt8.ofNat n ≠ 0 ∧ UInt8.ofNat n &&& 0xC0 ≠ 0xC0 ∧
      (UInt8.ofNat n).toNat = n := by
    decide
  exact hall _ (by omega) hpos

theorem bytes_rotulos_cons (l : List UInt8) (ls : List (List UInt8)) :
    bytes_rotulos (l :: ls) = [UInt8.ofNat l.length] ++ (l ++ bytes_rotulos ls) := rfl

/-- The loop over the labels stops at the root, or behind a pointer. -/
theorem val_pula_rotulos {ls : List (List UInt8)} {q : Option (UInt8 × UInt8)} {n : Nat}
    (hls : ∀ l ∈ ls, l ≠ [] ∧ l.length ≤ 63) (hq : ∀ x ∈ q, x.1 &&& 0xC0 = 0xC0)
    (h : Lies data p (bytes_rotulos ls ++ bytes_fim q))
    (hfim : p + (bytes_rotulos ls ++ bytes_fim q).length ≤ fim) (hn : ls.length < n) :
    (pula_rotulos fim n p).val data =
      p + (bytes_rotulos ls).length + (if q.isSome then 2 else 0) := by
  induction ls generalizing p n with
  | nil =>
    obtain ⟨n, rfl⟩ : ∃ k, n = k + 1 := ⟨n - 1, by omega⟩
    unfold pula_rotulos
    rw [show bytes_rotulos [] = [] from rfl, List.nil_append] at h hfim
    cases q with
    | none =>
      have h0 : data (p + 0) = 0 := h 0 (by decide)
      rw [Nat.add_zero] at h0
      rw [show (bytes_fim none).length = 1 from rfl] at hfim
      rw [if_pos (by omega), Reader.val_bind, Reader.val_byte, h0]
      rfl
    | some x =>
      obtain ⟨a, b⟩ := x
      have ha : a &&& 0xC0 = 0xC0 := hq (a, b) rfl
      have h0 : data (p + 0) = a := h 0 (Nat.succ_pos 1)
      rw [Nat.add_zero] at h0
      rw [show (bytes_fim (some (a, b))).length = 2 from rfl] at hfim
      rw [if_pos (by omega), Reader.val_bind, Reader.val_byte, h0, if_neg (marca_ne_zero a ha),
        if_pos ha]
      rfl
  | cons l ls ih =>
    obtain ⟨n, rfl⟩ : ∃ k, n = k + 1 := ⟨n - 1, by omega⟩
    obtain ⟨hz, hm, hlen⟩ := rotulo_sem_marca (hls l List.mem_cons_self)
    rw [bytes_rotulos_cons] at h hfim ⊢
    have hb : data (p + 0) = UInt8.ofNat l.length := h 0 (by simp)
    rw [Nat.add_zero] at hb
    have hrest : Lies data (p + l.length + 1) (bytes_rotulos ls ++ bytes_fim q) := by
      rw [List.append_assoc, List.append_assoc] at h
      have h2 := (lies_append.mp (lies_append.mp h).2).2
      rwa [List.length_singleton, Nat.add_right_comm] at h2
    simp only [List.length_append, List.length_nil, List.length_cons] at hfim hn ⊢
    unfold pula_rotulos
    rw [if_pos (by omega), Reader.val_bind, Reader.val_byte, hb, if_neg hz, if_neg hm, hlen,
      ih (fun x hx => hls x (List.mem_cons_of_mem l hx)) hrest
        (by rw [List.length_append]; omega) (by omega)]
    omega

theorem rotulos_le (ls : List (List UInt8)) : ls.length ≤ (bytes_rotulos ls).length := by
  induction ls with
  | nil => exact Nat.le_refl 0
  | cons l ls ih =>
    rw [bytes_rotulos_cons]
    simp only [List.length_append, List.length_nil, List.length_cons]
    omega

theorem length_nome (nome : Nome) :
    nome.bytes.length = (bytes_rotulos nome.rotulos).length + (bytes_fim nome.ponteiro).length :=
  List.length_append

/-- The name of a record is skipped, and one byte more where labels end in a pointer. -/
theorem val_pula_nome {nome : Nome} (h : Lies data p nome.bytes)
    (hfim : p + nome.bytes.length ≤ fim) :
    (pula_nome fim p).val data = p + nome.bytes.length + (if nome.Simples then 0 else 1) := by
  obtain ⟨ls, q, hls, hq⟩ := nome
  rw [length_nome] at hfim ⊢
  have hle := rotulos_le ls
  have hpos : 0 < (bytes_fim q).length := by
    cases q <;> exact Nat.succ_pos _
  have hrot : (pula_rotulos fim fim p).val data =
      p + (bytes_rotulos ls).length + (if q.isSome then 2 else 0) :=
    val_pula_rotulos hls hq h (by rw [List.length_append]; exact hfim)
      (by dsimp only at hfim; omega)
  unfold pula_nome
  rw [Reader.val_bind, Reader.val_byte]
  cases ls with
  | nil =>
    cases q with
    | none =>
      have h0 : data (p + 0) = 0 := h 0 (Nat.succ_pos 0)
      rw [Nat.add_zero] at h0
      rw [h0, if_neg (by decide), Reader.val_bind, hrot]
      rfl
    | some x =>
      obtain ⟨a, b⟩ := x
      have h0 : data (p + 0) = a := h 0 (Nat.succ_pos 1)
      rw [Nat.add_zero] at h0
      rw [h0, if_pos (hq (a, b) rfl)]
      rfl
  | cons l ls =>
    have h0 : data (p + 0) = UInt8.ofNat l.length := h 0 (Nat.succ_pos _)
    rw [Nat.add_zero] at h0
    rw [h0, if_neg (rotulo_sem_marca (hls l List.mem_cons_self)).2.1, Reader.val_bind, hrot]
    cases q with
    | none =>
      have hs : Nome.Simples ⟨l :: ls, none, hls, hq⟩ := Or.inr rfl
      rw [if_pos hs]
      rfl
    | some x =>
      have hs : ¬ Nome.Simples ⟨l :: ls, some x, hls, hq⟩ := by
        rintro (h | h) <;> exact absurd h (by simp)
      rw [if_neg hs]
      rfl

/-- The question is skipped where its name ends in the root. -/
theorem val_pula_pergunta {nome : Nome} (hq : nome.ponteiro = none) (h : Lies data p nome.bytes)
    (hfim : p + nome.bytes.length ≤ fim) :
    (pula_pergunta fim p).val data = p + nome.bytes.length + 4 := by
  have hle := rotulos_le nome.rotulos
  have hlen := length_nome nome
  have h1 : (bytes_fim nome.ponteiro).length = 1 := by rw [hq]; rfl
  have h0 : data (p + (bytes_rotulos nome.rotulos).length + 0) = 0 := by
    have hend := (lies_append.mp h).2
    rw [hq] at hend
    exact hend 0 (Nat.succ_pos 0)
  unfold pula_pergunta
  rw [Reader.val_bind, val_pula_rotulos nome.rotulo nome.marca h
    (by rw [List.length_append]; omega) (by omega), hq]
  simp only [Option.isSome_none, Bool.false_eq_true, if_false]
  rw [if_pos (by omega), Reader.val_bind, Reader.val_byte, h0, if_pos rfl, hlen, h1]
  rfl

/-! ## Records -/

theorem length_registro (g : Registro) :
    g.bytes.length = g.nome.bytes.length + 10 + g.rdata.length := by
  unfold Registro.bytes
  simp only [List.length_append, length_bytes16, length_bytes32]

theorem lies_nome {g : Registro} (h : Lies data p g.bytes) : Lies data p g.nome.bytes := by
  unfold Registro.bytes at h
  simp only [lies_append] at h
  exact h.1.1.1.1.1

/-- The fields of a record behind its name. -/
theorem val_campos {g : Registro} (h : Lies data p g.bytes) :
    ntohs ((Reader.half16 (p + g.nome.bytes.length)).val data) = g.rtype ∧
      ntohs ((Reader.half16 (p + g.nome.bytes.length + 2)).val data) = g.rclass ∧
      ntohs ((Reader.half16 (p + g.nome.bytes.length + 8)).val data) =
        UInt16.ofNat g.rdata.length ∧
      Lies data (p + g.nome.bytes.length + 10) g.rdata := by
  unfold Registro.bytes at h
  simp only [lies_append, List.length_append, length_bytes16, length_bytes32] at h
  obtain ⟨⟨⟨⟨⟨-, ht⟩, hc⟩, -⟩, hl⟩, hd⟩ := h
  exact ⟨val_half16 ht, val_half16 hc, val_half16 hl, hd⟩

/-- One turn of the loop on a record with a simple name. -/
theorem val_resposta_simples {g : Registro} {n : Nat} (h : Lies data p g.bytes)
    (hfim : p + g.bytes.length ≤ fim) (hs : g.nome.Simples) :
    (respostas fim (n + 1) p).val data =
      if g.EhA then some (endereco g.rdata)
      else (respostas fim n (p + g.bytes.length)).val data := by
  rw [length_registro] at hfim ⊢
  obtain ⟨ht, hc, hlen, hd⟩ := val_campos h
  have hto : (UInt16.ofNat g.rdata.length).toNat = g.rdata.length := by
    rw [UInt16.toNat_ofNat']
    exact Nat.mod_eq_of_lt g.rdlen
  rw [respostas, if_pos (by omega), Reader.val_bind, val_pula_nome (lies_nome h) (by omega),
    if_pos hs, if_neg (by omega), Reader.val_bind, Reader.val_bind, Reader.val_bind, Nat.add_zero,
    ht, hc, hlen, Reader.val_ite]
  by_cases hA : g.EhA
  · have h4 := g.ipv4 hA.1 hA.2
    rw [if_pos ⟨hA.1, hA.2, by rw [h4]; rfl⟩, if_pos hA, Reader.val_bind, val_word32 hd h4]
    rfl
  · rw [if_neg fun hx => hA ⟨hx.1, hx.2.1⟩, if_neg hA, hto, Nat.add_assoc, Nat.add_assoc,
      Nat.add_assoc]

theorem val_respostas_fim {n : Nat} (h : fim ≤ p) : (respostas fim n p).val data = none := by
  cases n with
  | zero => rfl
  | succ n =>
    rw [respostas, if_neg (by omega)]
    rfl

/-- An address record with labels before a pointer is read one byte late, as a record of another
type with 1024 bytes of data or more. -/
theorem val_resposta_deslocada {g : Registro} {n : Nat} (h : Lies data p g.bytes)
    (hfim : p + g.bytes.length ≤ fim) (hlim : fim ≤ p + g.bytes.length + 1021)
    (hs : ¬ g.nome.Simples) (hA : g.EhA) : (respostas fim (n + 1) p).val data = none := by
  have h4 := g.ipv4 hA.1 hA.2
  rw [length_registro, h4] at hfim hlim
  have h' := h
  unfold Registro.bytes at h'
  rw [hA.1, hA.2, h4] at h'
  simp only [lies_append, List.length_append, length_bytes16, length_bytes32] at h'
  obtain ⟨⟨⟨⟨⟨-, ht⟩, hc⟩, -⟩, hl⟩, -⟩ := h'
  have ht1 : data (p + g.nome.bytes.length + 1) = 1 := ht 1 (by decide)
  have hl1 : data (p + g.nome.bytes.length + 8 + 1) = 4 := hl 1 (by decide)
  have hc0 : data (p + g.nome.bytes.length + 2 + 0) = 0 := hc 0 (by decide)
  have htipo := toNat_ntohs_half16 data (p + g.nome.bytes.length + 1)
  have htam := toNat_ntohs_half16 data (p + g.nome.bytes.length + 1 + 8)
  rw [ht1] at htipo
  rw [Nat.add_right_comm _ 1 8, hl1] at htam
  have hne : ntohs ((Reader.half16 (p + g.nome.bytes.length + 1)).val data) ≠ 1 := by
    intro he
    rw [he] at htipo
    exact absurd htipo (by simp; omega)
  rw [respostas, if_pos (by omega), Reader.val_bind, val_pula_nome (lies_nome h) (by omega),
    if_neg hs, if_neg (by omega), Reader.val_bind, Reader.val_bind, Reader.val_bind,
    Reader.val_ite, if_neg fun hx => hne hx.1]
  rw [Nat.add_right_comm _ 1 8]
  refine val_respostas_fim ?_
  rw [htam, show (4 : UInt8).toNat = 4 from rfl]
  omega

/-- The loop over the records where the first of type A and class IN comes behind simple names. -/
theorem val_respostas {gs : List Registro} {g : Registro} {n : Nat}
    (h : Lies data p (gs.flatMap Registro.bytes))
    (hfim : p + (gs.flatMap Registro.bytes).length ≤ fim) (hn : gs.length ≤ n)
    (ha : primeiro_a gs = some g) (hl : Legivel gs) :
    (g.nome.Simples → (respostas fim n p).val data = some (endereco g.rdata)) ∧
      (¬ g.nome.Simples → fim ≤ p + 1021 → (respostas fim n p).val data = none) := by
  induction gs generalizing p n with
  | nil => exact absurd ha (by simp [primeiro_a])
  | cons r gs ih =>
    obtain ⟨n, rfl⟩ : ∃ k, n = k + 1 := ⟨n - 1, by simp at hn; omega⟩
    rw [List.flatMap_cons] at h hfim
    rw [List.length_append] at hfim
    obtain ⟨hr, hgs⟩ := lies_append.mp h
    unfold primeiro_a at ha
    by_cases hA : r.EhA
    · rw [List.find?_cons_of_pos (by simpa using hA)] at ha
      obtain rfl := Option.some.inj ha
      refine ⟨fun hs => ?_, fun hs hlim => ?_⟩
      · rw [val_resposta_simples hr (by omega) hs, if_pos hA]
      · exact val_resposta_deslocada hr (by omega) (by omega) hs hA
    · rw [List.find?_cons_of_neg (by simpa using hA)] at ha
      obtain ⟨hsimples, hresto⟩ := hl.resolve_left hA
      rw [val_resposta_simples hr (by omega) hsimples, if_neg hA]
      have ih := ih hgs (by omega) (Nat.le_of_succ_le_succ hn) ha hresto
      exact ⟨ih.1, fun hs hlim => ih.2 hs (by omega)⟩

end Campos

/-! ## The handler -/

section Resposta

variable {data : Memory} {m : Resposta}

theorem length_cabecalho : m.cabecalho.length = SIZEOF_HDR := by
  unfold Resposta.cabecalho
  simp only [List.length_append, length_bytes16]
  rfl

theorem length_resposta : m.bytes.length =
    SIZEOF_HDR + (m.pergunta.bytes.length + 4) + (m.registros.flatMap Registro.bytes).length +
      m.resto.length := by
  unfold Resposta.bytes
  simp only [List.length_append, length_cabecalho, length_bytes16]

/-- The fields of the header. -/
theorem val_cabecalho (h : Lies data 0 m.bytes) :
    ntohs ((Reader.half16 0).val data) = m.id ∧ ntohs ((Reader.half16 2).val data) = m.flags ∧
      ntohs ((Reader.half16 6).val data) = UInt16.ofNat m.registros.length := by
  unfold Resposta.bytes Resposta.cabecalho at h
  simp only [lies_append, List.length_append, length_bytes16] at h
  obtain ⟨⟨⟨⟨⟨⟨⟨⟨hi, hf⟩, -⟩, ha⟩, -⟩, -⟩, -⟩, -⟩, -⟩ := h
  exact ⟨val_half16 hi, val_half16 hf, val_half16 ha⟩

/-- Where the sections lie. -/
theorem lies_secoes (h : Lies data 0 m.bytes) :
    Lies data SIZEOF_HDR m.pergunta.bytes ∧
      Lies data (SIZEOF_HDR + m.pergunta.bytes.length + 4)
        (m.registros.flatMap Registro.bytes) := by
  unfold Resposta.bytes at h
  simp only [lies_append, List.length_append, length_bytes16, length_cabecalho, Nat.zero_add] at h
  exact ⟨h.1.1.2.1.1, h.1.2⟩

/-- The handler on a response to the query is the loop over its records. -/
theorem val_dns_handler {s : Consulta} {len : UInt16} (h : Lies data 0 m.bytes)
    (hlen : len.toNat = m.bytes.length) (hid : m.id = s.dns_query_id)
    (hne : m.registros ≠ []) :
    (dns_handler s len).val data =
      match (respostas len.toNat m.registros.length
        (SIZEOF_HDR + m.pergunta.bytes.length + 4)).val data with
      | none => s
      | some ip => { s with dns_result_ip := ip, dns_got_reply := 1 } := by
  obtain ⟨hi, hf, ha⟩ := val_cabecalho h
  have htam := length_resposta (m := m)
  have hto : (UInt16.ofNat m.registros.length).toNat = m.registros.length := by
    rw [UInt16.toNat_ofNat']
    exact Nat.mod_eq_of_lt m.contados
  have hpos := List.length_pos_iff.mpr hne
  have hcont : UInt16.ofNat m.registros.length ≠ 0 := by
    intro he
    rw [he] at hto
    exact absurd hto (by simp; omega)
  unfold dns_handler
  rw [if_neg (by omega), Reader.val_bind, hi, if_neg (by simpa using hid), Reader.val_bind, hf,
    if_neg m.resposta, Reader.val_bind, ha, if_neg hcont, Reader.val_bind,
    val_pula_pergunta m.inteira (lies_secoes h).1 (by omega), Reader.val_bind, hto]
  cases (respostas len.toNat m.registros.length
    (SIZEOF_HDR + m.pergunta.bytes.length + 4)).val data <;> rfl

/-- What the handler has to do with a response to the query: the address of the first record of type
A and class IN is taken. -/
def Consulta.respondida (s : Consulta) (g : Registro) : Consulta :=
  { s with dns_result_ip := endereco g.rdata, dns_got_reply := 1 }

/-- Behind records with simple names, the address of the first record of type A and class IN is
taken where the name of this record is simple, and in a message of at most 512 bytes, the limit for
UDP, only there. The skip of a name is right for the simple ones only. -/
theorem the_first_address_is_taken_behind_simple_names {s : Consulta} {len : UInt16} {g : Registro}
    (h : Lies data 0 m.bytes) (hlen : len.toNat = m.bytes.length) (hid : m.id = s.dns_query_id)
    (ha : primeiro_a m.registros = some g) (hl : Legivel m.registros) :
    (g.nome.Simples → (dns_handler s len).val data = s.respondida g) ∧
      (s.dns_got_reply = 0 → len.toNat ≤ 512 →
        ((dns_handler s len).val data = s.respondida g ↔ g.nome.Simples)) ∧
      ∀ (p : Nat) (nome : Nome), Lies data p nome.bytes → p + nome.bytes.length ≤ len.toNat →
        ((pula_nome len.toNat p).val data = p + nome.bytes.length ↔ nome.Simples) := by
  have hne : m.registros ≠ [] := by
    intro he
    rw [he] at ha
    exact absurd ha (by simp [primeiro_a])
  have htam := length_resposta (m := m)
  have hv := val_dns_handler h hlen hid hne
  obtain ⟨hsim, hnao⟩ := val_respostas (lies_secoes h).2 (show _ ≤ len.toNat by omega)
    (Nat.le_refl _) ha hl
  have hcerto : g.nome.Simples → (dns_handler s len).val data = s.respondida g := by
    intro hs
    rw [hv, hsim hs]
    rfl
  refine ⟨hcerto, fun h0 h512 => ⟨fun he => ?_, hcerto⟩, fun p nome hp hfim => ?_⟩
  · by_contra hs
    rw [hv, hnao hs (by omega)] at he
    have h1 := congrArg Consulta.dns_got_reply he
    rw [h0] at h1
    exact absurd h1 (show (0 : UInt8) ≠ 1 by decide)
  · rw [val_pula_nome hp hfim]
    by_cases hs : nome.Simples <;> simp [hs]

end Resposta

/-! ## Two responses -/

/-- The name `a`. -/
def nome_a : Nome := ⟨[[97]], none, by decide, by simp⟩

/-- The name of the question, as a pointer. -/
def nome_ponteiro : Nome := ⟨[], some (0xC0, 12), by simp, by simp⟩

/-- The label `b` before the name of the question. -/
def nome_b_ponteiro : Nome := ⟨[[98]], some (0xC0, 12), by decide, by simp⟩

/-- An address for a name. -/
def registro_a (nome : Nome) : Registro :=
  ⟨nome, 1, 1, 60, [93, 184, 216, 34], by decide, fun _ _ => rfl⟩

/-- A canonical name for the name of the question. -/
def registro_cname : Registro :=
  ⟨nome_ponteiro, 5, 1, 60, nome_b_ponteiro.bytes, by decide, fun h => absurd h (by decide)⟩

/-- The response to the query 1 for the address of `a`. -/
def resposta_a (gs : List Registro) (h : gs.length < 65536) : Resposta :=
  ⟨1, 0x8180, 0, 0, nome_a, 1, 1, gs, [], by decide, rfl, h⟩

theorem the_first_address_is_taken_behind_a_canonical_name :
    let m := resposta_a [registro_cname, registro_a nome_a] (by decide)
    (dns_handler ⟨0, 0, 1⟩ 52).val (fun i => m.bytes.getD i 0) = ⟨0x5DB8D822, 1, 1⟩ := by
  intro m
  have hl : Legivel m.registros := Or.inr ⟨Or.inl rfl, Or.inl ⟨rfl, rfl⟩⟩
  exact (the_first_address_is_taken_behind_simple_names (lies_getD m.bytes) (by decide) rfl rfl
    hl).1 (Or.inr rfl)

theorem an_address_for_a_label_before_a_pointer_is_not_taken :
    ¬ ∀ (data : Memory) (m : Resposta) (s : Consulta) (len : UInt16) (g : Registro),
      Lies data 0 m.bytes → len.toNat = m.bytes.length → m.id = s.dns_query_id →
      primeiro_a m.registros = some g → (dns_handler s len).val data = s.respondida g := by
  intro h
  have he := h _ (resposta_a [registro_a nome_b_ponteiro] (by decide)) ⟨0, 0, 1⟩ 37
    (registro_a nome_b_ponteiro) (lies_getD _) (by decide) rfl rfl
  exact absurd (congrArg Consulta.dns_got_reply he) (by decide)

end SpaceOS.Dns
