-- Appending to a file (vfs_append) over reads and writes that are exact: its buffer of 16 KB, the sums
-- of 32 bits, and when what was in the file stays there.
import Mathlib.Algebra.Group.Nat.Defs
import Mathlib.Data.List.Basic

namespace SpaceOS.Vfs

def VFS_APPEND_MAX : Nat := 16384

/-- What `vfs_open` finds under a path. -/
inductive Alvo
  | nada
  | pasta
  | arquivo (conteudo : List UInt8)

/-- The bytes of the file. -/
def Alvo.bytes : Alvo → List UInt8
  | .arquivo conteudo => conteudo
  | _ => []

@[simp] theorem bytes_arquivo (conteudo : List UInt8) : (Alvo.arquivo conteudo).bytes = conteudo :=
  rfl

/-- `n` bytes of `src` to place `i` of `vfs_append_buf`, none where one of the two ends before. -/
def copia_para (buf : List UInt8) (i : Nat) (src : List UInt8) (n : Nat) : Option (List UInt8) :=
  if i + n ≤ VFS_APPEND_MAX ∧ n ≤ src.length then
    some (buf.take i ++ src.take n ++ buf.drop (i + n))
  else none

/-- `vfs_read` of the file into the buffer. -/
def le_arquivo (conteudo buf : List UInt8) (max_size : Nat) : Option (List UInt8) :=
  copia_para buf 0 conteudo (min conteudo.length max_size)

/-- `vfs_write` of the first bytes of the buffer: the file has these bytes then. -/
def escreve_arquivo (buf : List UInt8) (size : Nat) : Option (Int × Alvo) :=
  if size ≤ VFS_APPEND_MAX then some (size, .arquivo (buf.take size)) else none

/-- A difference of `uint32_t`. -/
def sub32 (a b : Nat) : Nat := (a + 2 ^ 32 - b) % 2 ^ 32

/-- The result and the file; `buf` is what the buffer holds from an earlier call. `none` is an access
outside of the buffer or of the data. -/
def vfs_append (montado : Bool) (buf : List UInt8) (alvo : Alvo) (data : List UInt8) :
    Option (Int × Alvo) :=
  let size := data.length
  if ¬ montado ∨ size = 0 then some (-1, alvo)
  else
    let existing :=
      match alvo with
      | .arquivo conteudo =>
        if conteudo.length > sub32 VFS_APPEND_MAX size then sub32 VFS_APPEND_MAX size
        else conteudo.length
      | _ => 0
    (if existing > 0 then le_arquivo alvo.bytes buf existing else some buf).bind fun buf =>
      let size :=
        if (existing + size) % 2 ^ 32 > VFS_APPEND_MAX then sub32 VFS_APPEND_MAX existing else size
      (copia_para buf existing data size).bind fun buf =>
        escreve_arquivo buf ((existing + size) % 2 ^ 32)

section Acrescimo

variable {buf conteudo data : List UInt8} {alvo : Alvo}

/-- What is in the file is its beginning after the call, and the data follows as far as the 16 KB
allow; or the call returns -1 and the file is as it was. -/
def AcrescentaAoFim (montado : Bool) (buf : List UInt8) (alvo : Alvo) (data : List UInt8) : Prop :=
  ∃ r alvo', vfs_append montado buf alvo data = some (r, alvo') ∧
    (0 ≤ r → alvo' = .arquivo
      (alvo.bytes ++ data.take (VFS_APPEND_MAX - alvo.bytes.length))) ∧
    (r < 0 → r = -1 ∧ alvo' = alvo)

theorem copia_para_eq {i n : Nat} (hi : i + n ≤ VFS_APPEND_MAX) (hn : n ≤ data.length) :
    copia_para buf i data n = some (buf.take i ++ data.take n ++ buf.drop (i + n)) :=
  if_pos ⟨hi, hn⟩

/-- What the call reads and how many bytes it keeps of the old ones. -/
def mantidos (alvo : Alvo) (size : Nat) : Nat := min alvo.bytes.length (sub32 VFS_APPEND_MAX size)

theorem existing_eq (alvo : Alvo) (size : Nat) :
    (match alvo with
      | .arquivo conteudo =>
        if conteudo.length > sub32 VFS_APPEND_MAX size then sub32 VFS_APPEND_MAX size
        else conteudo.length
      | _ => 0) = mantidos alvo size := by
  unfold mantidos
  cases alvo with
  | nada => exact (Nat.zero_min _).symm
  | pasta => exact (Nat.zero_min _).symm
  | arquivo conteudo =>
    dsimp only [Alvo.bytes]
    split
    · omega
    · omega

/-- More than the buffer holds is read past its end. -/
theorem append_longe (hd : data ≠ []) (h : VFS_APPEND_MAX < mantidos alvo data.length) :
    vfs_append true buf alvo data = none := by
  have hlen : data.length ≠ 0 := fun h0 => hd (List.length_eq_zero_iff.mp h0)
  have hle : mantidos alvo data.length ≤ alvo.bytes.length := Nat.min_le_left _ _
  unfold vfs_append
  dsimp only
  rw [if_neg (by simp [hlen]), existing_eq, if_pos (by omega)]
  unfold le_arquivo copia_para
  rw [Nat.min_eq_right hle, if_neg (by omega)]
  rfl

/-- The buffer after the read begins with the kept bytes. -/
theorem le_mantidos {k : Nat} (hb : buf.length = VFS_APPEND_MAX) (hk : k ≤ VFS_APPEND_MAX)
    (hle : k ≤ conteudo.length) :
    ∃ buf', (if k > 0 then le_arquivo conteudo buf k else some buf) = some buf' ∧
      buf'.take k = conteudo.take k ∧ buf'.length = VFS_APPEND_MAX := by
  by_cases h0 : k > 0
  · rw [if_pos h0]
    unfold le_arquivo
    rw [Nat.min_eq_right hle, copia_para_eq (by omega) hle]
    refine ⟨_, rfl, ?_, ?_⟩
    · rw [List.take_zero, List.nil_append, List.take_left' (by rw [List.length_take]; omega)]
    · rw [List.take_zero, List.nil_append, List.length_append, List.length_take,
        List.length_drop]
      omega
  · rw [if_neg h0]
    obtain rfl : k = 0 := by omega
    exact ⟨buf, rfl, rfl, hb⟩

/-- The kept bytes fit the buffer: what is copied behind them, and what is written. -/
theorem append_eq (hb : buf.length = VFS_APPEND_MAX) (hd : data ≠ [])
    (h : mantidos alvo data.length ≤ VFS_APPEND_MAX) (hs : data.length < 2 ^ 32) {size : Nat}
    (hsize : size = if (mantidos alvo data.length + data.length) % 2 ^ 32 > VFS_APPEND_MAX then
      VFS_APPEND_MAX - mantidos alvo data.length else data.length) :
    vfs_append true buf alvo data =
      if mantidos alvo data.length + size ≤ VFS_APPEND_MAX then
        some (((mantidos alvo data.length + size : Nat) : Int),
          .arquivo (alvo.bytes.take (mantidos alvo data.length) ++ data.take size))
      else none := by
  have hlen : data.length ≠ 0 := fun h0 => hd (List.length_eq_zero_iff.mp h0)
  have hle : mantidos alvo data.length ≤ alvo.bytes.length := Nat.min_le_left _ _
  unfold vfs_append
  dsimp only
  rw [if_neg (by simp [hlen]), existing_eq]
  generalize mantidos alvo data.length = k at *
  have hmax : VFS_APPEND_MAX = 16384 := rfl
  obtain ⟨buf', hread, hpre, hlen'⟩ := le_mantidos hb h hle
  have hsub : sub32 VFS_APPEND_MAX k = VFS_APPEND_MAX - k := by
    unfold sub32
    omega
  rw [hread, Option.bind_some, hsub, ← hsize]
  have hsl : size ≤ data.length := by
    rw [hsize]
    split
    · omega
    · exact Nat.le_refl _
  by_cases hfit : k + size ≤ VFS_APPEND_MAX
  · have htk : (buf'.take k).length = k := by
      rw [List.length_take]
      omega
    have hts : (data.take size).length = size := by
      rw [List.length_take]
      omega
    rw [if_pos hfit, copia_para_eq hfit hsl, Option.bind_some, Nat.mod_eq_of_lt (by omega)]
    unfold escreve_arquivo
    rw [if_pos hfit, List.take_left' (by rw [List.length_append, htk, hts]), hpre]
  · rw [if_neg hfit]
    unfold copia_para
    rw [if_neg fun h => hfit h.1]
    rfl

/-- The data fits a part of the buffer: it is written whole, behind as much of the old bytes as there
is room for. -/
theorem append_curto (alvo : Alvo) (hb : buf.length = VFS_APPEND_MAX) (hd : data ≠ [])
    (hn : data.length ≤ VFS_APPEND_MAX) :
    ∃ r : Nat, vfs_append true buf alvo data =
      some ((r : Int), .arquivo (alvo.bytes.take (VFS_APPEND_MAX - data.length) ++ data)) := by
  have hmax : VFS_APPEND_MAX = 16384 := rfl
  have hk : mantidos alvo data.length =
      min alvo.bytes.length (VFS_APPEND_MAX - data.length) := by
    unfold mantidos sub32
    omega
  have hsize : data.length = if (mantidos alvo data.length + data.length) % 2 ^ 32 >
      VFS_APPEND_MAX then VFS_APPEND_MAX - mantidos alvo data.length else data.length := by
    rw [if_neg (by omega)]
  have he := append_eq hb hd (by omega) (by omega) hsize
  rw [if_pos (by omega), List.take_of_length_le (Nat.le_refl data.length), hk] at he
  have htake : alvo.bytes.take (min alvo.bytes.length (VFS_APPEND_MAX - data.length)) =
      alvo.bytes.take (VFS_APPEND_MAX - data.length) := by
    rw [Nat.min_comm, ← List.take_take, List.take_of_length_le (Nat.le_refl _)]
  rw [htake] at he
  exact ⟨_, he⟩

/-- Where an append keeps what was there: the old bytes fit the buffer, the two sizes add up to less
than 2^32, and data that would fit the buffer alone fits it behind the old bytes as well, unless it
happens to say what is lost. -/
def Cabem (conteudo data : List UInt8) : Prop :=
  conteudo.length ≤ VFS_APPEND_MAX ∧ conteudo.length + data.length < 2 ^ 32 ∧
    (data.length ≤ VFS_APPEND_MAX → conteudo.length + data.length ≤ VFS_APPEND_MAX ∨
      data = conteudo.drop (VFS_APPEND_MAX - data.length) ++
        data.take (VFS_APPEND_MAX - conteudo.length))

theorem curto_iff (hn : data.length ≤ VFS_APPEND_MAX) :
    conteudo.take (VFS_APPEND_MAX - data.length) ++ data =
        conteudo ++ data.take (VFS_APPEND_MAX - conteudo.length) ↔ Cabem conteudo data := by
  have hmax : VFS_APPEND_MAX = 16384 := rfl
  have hsplit := List.take_append_drop (VFS_APPEND_MAX - data.length) conteudo
  have hcancel : conteudo.take (VFS_APPEND_MAX - data.length) ++ data =
      conteudo ++ data.take (VFS_APPEND_MAX - conteudo.length) ↔
        data = conteudo.drop (VFS_APPEND_MAX - data.length) ++
          data.take (VFS_APPEND_MAX - conteudo.length) := by
    constructor
    · intro h
      have h' := h
      rw [← hsplit, List.append_assoc] at h'
      rw [hsplit] at h'
      exact List.append_cancel_left h'
    · intro h
      calc conteudo.take (VFS_APPEND_MAX - data.length) ++ data
          = conteudo.take (VFS_APPEND_MAX - data.length) ++
              (conteudo.drop (VFS_APPEND_MAX - data.length) ++
                data.take (VFS_APPEND_MAX - conteudo.length)) := congrArg (_ ++ ·) h
        _ = conteudo ++ data.take (VFS_APPEND_MAX - conteudo.length) := by
          rw [← List.append_assoc, hsplit]
  rw [hcancel]
  constructor
  · intro h
    have hle := congrArg List.length h
    rw [List.length_append, List.length_drop, List.length_take] at hle
    refine ⟨by omega, by omega, fun _ => Or.inr h⟩
  · rintro ⟨_, _, h⟩
    rcases h hn with hfit | h
    · rw [List.drop_eq_nil_of_le (by omega), List.nil_append, List.take_of_length_le (by omega)]
    · exact h

theorem append_nada {montado : Bool} (h : ¬ montado ∨ data = []) :
    vfs_append montado buf alvo data = some (-1, alvo) := by
  unfold vfs_append
  dsimp only
  rw [if_pos (h.imp_right fun h => List.length_eq_zero_iff.mpr h)]

theorem acrescenta_iff_novo {montado : Bool} {r : Nat} {novo : List UInt8}
    (he : vfs_append montado buf alvo data = some ((r : Int), .arquivo novo)) :
    AcrescentaAoFim montado buf alvo data ↔
      novo = alvo.bytes ++ data.take (VFS_APPEND_MAX - alvo.bytes.length) := by
  constructor
  · rintro ⟨r', alvo', he', hpos, _⟩
    rw [he] at he'
    obtain ⟨rfl, rfl⟩ := Prod.mk.inj (Option.some.inj he')
    exact Alvo.arquivo.inj (hpos (Int.natCast_nonneg r))
  · rintro rfl
    exact ⟨r, _, he, fun _ => rfl, fun hneg => absurd hneg (by omega)⟩

theorem nao_acrescenta {montado : Bool} (he : vfs_append montado buf alvo data = none) :
    ¬ AcrescentaAoFim montado buf alvo data := by
  rintro ⟨r, alvo', he', _⟩
  rw [he] at he'
  cases he'

/-- Appending keeps what was in the file exactly where the two fit, or there is nothing to append. -/
theorem an_append_keeps_what_was_there_iff (montado : Bool) (buf : List UInt8) (alvo : Alvo)
    (data : List UInt8) (hb : buf.length = VFS_APPEND_MAX) (hs : data.length < 2 ^ 32) :
    AcrescentaAoFim montado buf alvo data ↔
      (montado = true → data ≠ [] → Cabem alvo.bytes data) := by
  have hmax : VFS_APPEND_MAX = 16384 := rfl
  by_cases hnada : ¬ montado ∨ data = []
  · refine iff_of_true ⟨-1, alvo, append_nada hnada, fun h => absurd h (by decide),
      fun _ => ⟨rfl, rfl⟩⟩ ?_
    intro hm hd
    exact absurd hnada (not_or.mpr ⟨not_not.mpr hm, hd⟩)
  obtain ⟨hm, hd⟩ := not_or.mp hnada
  obtain rfl : montado = true := not_not.mp hm
  have hcond : (true = true → data ≠ [] → Cabem alvo.bytes data) ↔ Cabem alvo.bytes data :=
    ⟨fun h => h rfl hd, fun h _ _ => h⟩
  rw [hcond]
  by_cases hn : data.length ≤ VFS_APPEND_MAX
  · obtain ⟨r, he⟩ := append_curto alvo hb hd hn
    rw [acrescenta_iff_novo he, curto_iff hn]
  -- the difference wraps: all of the old bytes are read
  have hbig : VFS_APPEND_MAX < sub32 VFS_APPEND_MAX data.length := by
    unfold sub32
    omega
  by_cases hc : alvo.bytes.length ≤ VFS_APPEND_MAX
  · have hk : mantidos alvo data.length = alvo.bytes.length := Nat.min_eq_left (by omega)
    by_cases hsum : alvo.bytes.length + data.length < 2 ^ 32
    · have hsize : VFS_APPEND_MAX - mantidos alvo data.length =
          if (mantidos alvo data.length + data.length) % 2 ^ 32 > VFS_APPEND_MAX then
            VFS_APPEND_MAX - mantidos alvo data.length else data.length := by
        rw [if_pos (by omega)]
      have he := append_eq hb hd (by omega) hs hsize
      rw [hk, if_pos (by omega), List.take_of_length_le (Nat.le_refl _)] at he
      rw [acrescenta_iff_novo he]
      exact iff_of_true rfl ⟨hc, hsum, fun h => absurd h hn⟩
    · -- the sum wraps as well, and all of the data is copied
      have hsize : data.length = if (mantidos alvo data.length + data.length) % 2 ^ 32 >
          VFS_APPEND_MAX then VFS_APPEND_MAX - mantidos alvo data.length else data.length := by
        rw [if_neg (by omega)]
      have he := append_eq hb hd (by omega) hs hsize
      rw [if_neg (by omega)] at he
      exact iff_of_false (nao_acrescenta he) fun h => hsum h.2.1
  · refine iff_of_false (nao_acrescenta (append_longe hd ?_)) fun h => hc h.1
    unfold mantidos
    omega

/-- A byte goes behind another. -/
theorem an_append_of_one_byte : AcrescentaAoFim true (List.replicate VFS_APPEND_MAX 0)
    (.arquivo [1]) [2] :=
  (an_append_keeps_what_was_there_iff true _ (.arquivo [1]) [2] List.length_replicate
    (by decide)).mpr fun _ _ => ⟨by decide, by decide, fun _ => Or.inl (by decide)⟩

/-- A file of 16 KB loses its last byte to the one that is appended. -/
theorem a_full_file_loses_its_end :
    ¬ AcrescentaAoFim true (List.replicate VFS_APPEND_MAX 0)
      (.arquivo (List.replicate VFS_APPEND_MAX 0)) [1] := by
  obtain ⟨k, hk⟩ := append_curto (.arquivo (List.replicate VFS_APPEND_MAX 0))
    (List.length_replicate : (List.replicate VFS_APPEND_MAX (0 : UInt8)).length = _)
    (List.cons_ne_nil (1 : UInt8) []) (by decide)
  rw [acrescenta_iff_novo hk, bytes_arquivo, List.length_replicate, Nat.sub_self, List.take_zero,
    List.append_nil]
  intro hnovo
  have hmem : (1 : UInt8) ∈ List.replicate VFS_APPEND_MAX 0 :=
    hnovo ▸ List.mem_append_right _ (List.mem_singleton.mpr rfl)
  exact absurd (List.eq_of_mem_replicate hmem) (by decide)

end Acrescimo

end SpaceOS.Vfs
