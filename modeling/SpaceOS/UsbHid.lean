-- The USB keyboard (kernel/drivers/usbhid.c): what `usbhid_poll` returns for the reports of the
-- boot protocol, and the keys that appear in them.
import SpaceOS.Lib.ByteString

open Lib.Bytes

namespace SpaceOS.UsbHid

/-! ## The tables -/

/-- `a` to `z`, the digits, and the keys from Enter to `/`. -/
def hid_to_ascii : List UInt8 :=
  [0, 0, 0, 0,
    97, 98, 99, 100, 101, 102, 103, 104, 105, 106, 107, 108, 109,
    110, 111, 112, 113, 114, 115, 116, 117, 118, 119, 120, 121, 122,
    49, 50, 51, 52, 53, 54, 55, 56, 57, 48,
    10, 27, 8, 9, 32, 45, 61, 91, 93, 92, 0, 59, 39, 96, 44, 46, 47]

/-- `A` to `Z`, the signs on the digits, and the keys from Enter to `?`. -/
def hid_to_ascii_shift : List UInt8 :=
  [0, 0, 0, 0,
    65, 66, 67, 68, 69, 70, 71, 72, 73, 74, 75, 76, 77,
    78, 79, 80, 81, 82, 83, 84, 85, 86, 87, 88, 89, 90,
    33, 64, 35, 36, 37, 94, 38, 42, 40, 41,
    10, 27, 8, 9, 32, 95, 43, 123, 125, 124, 0, 58, 34, 126, 60, 62, 63]

/-- A report of the boot protocol: the modifiers, a reserved byte and six keycodes. -/
abbrev Report := ByteStr 8

/-- The keycodes of a report, as they are kept until the next one. -/
abbrev Teclas := ByteStr 6

/-- `report + 2`. -/
def Report.teclas (report : Report) : Teclas := report.slice 2 6

/-- The entry of the active table. The rest of the 128 entries is zero. -/
def caractere (report : Report) (kc : UInt8) : UInt8 :=
  let shifted := report.byte 0 &&& 0x22 ≠ 0
  (if shifted then hid_to_ascii_shift else hid_to_ascii).getD kc.toNat 0

/-! ## usbhid_poll -/

/-- The static variables of the file that a poll uses. -/
structure Estado where
  hid_ok : Bool
  prev_keys : Teclas

/-- `is_new`. -/
def nova (prev_keys : Teclas) (kc : UInt8) : Bool := (List.ofFn prev_keys).all fun k => k ≠ kc

/-- The loop over the keycodes of the report. -/
def varre (prev_keys : Teclas) (report : Report) : List UInt8 → Option UInt8
  | [] => none
  | kc :: kcs =>
    if kc = 0 then varre prev_keys report kcs
    else if nova prev_keys kc ∧ kc < 128 then
      let c := caractere report kc
      if c ≠ 0 then some c else varre prev_keys report kcs
    else varre prev_keys report kcs

/-- `*key_out` where it returns 1, `none` where it returns 0. The report is what `usb_hid_poll`
delivers. -/
def usbhid_poll (s : Estado) (report : Option Report) : Option UInt8 × Estado :=
  if s.hid_ok = false then (none, s)
  else
    match report with
    | none => (none, s)
    | some report =>
      (varre s.prev_keys report (List.ofFn report.teclas), { s with prev_keys := report.teclas })

/-- What the polls return, one for each report. -/
def devolvidas (s : Estado) : List Report → List UInt8
  | [] => []
  | r :: rs =>
    (usbhid_poll s (some r)).1.toList ++ devolvidas (usbhid_poll s (some r)).2 rs

/-! ## The keys that appear -/

/-- The keycodes of the report that were not in the one before it and have a character, each once,
in order. -/
def aparecem (antes : Teclas) (report : Report) : List UInt8 :=
  ((List.ofFn report.teclas).filter fun kc =>
    nova antes kc && kc < 128 && caractere report kc ≠ 0).eraseDups

/-- The characters of the keys that appear, report by report. -/
def esperadas (antes : Teclas) : List Report → List UInt8
  | [] => []
  | r :: rs => (aparecem antes r).map (caractere r) ++ esperadas r.teclas rs

/-- Every key that appears is returned once, in order, with the last report as often as needed. -/
def SemPerda (antes : Teclas) (rs : List Report) (fim : Report) : Prop :=
  ∃ m, devolvidas ⟨true, antes⟩ (rs ++ List.replicate (m + 1) fim) = esperadas antes (rs ++ [fim])

/-- No two keys appear in one report. -/
def UmaPorVez (antes : Teclas) : List Report → Prop
  | [] => True
  | r :: rs => (aparecem antes r).length ≤ 1 ∧ UmaPorVez r.teclas rs

/-! ## One poll -/

theorem caractere_zero (report : Report) : caractere report 0 = 0 := by
  simp only [caractere]
  split <;> rfl

theorem head?_eraseDups (l : List UInt8) : l.eraseDups.head? = l.head? := by
  cases l with
  | nil => rfl
  | cons a l => rw [List.eraseDups_cons, List.head?_cons, List.head?_cons]

/-- The loop stops at the first key that appears. -/
theorem varre_eq (antes : Teclas) (report : Report) (kcs : List UInt8) :
    varre antes report kcs = ((kcs.filter fun kc =>
      nova antes kc && kc < 128 && caractere report kc ≠ 0).head?).map (caractere report) := by
  induction kcs with
  | nil => rfl
  | cons kc kcs ih =>
    unfold varre
    rw [ih]
    by_cases h0 : kc = 0
    · subst h0
      simp [caractere_zero]
    · by_cases hn : nova antes kc = true ∧ kc < 128
      · by_cases hc : caractere report kc = 0
        · simp [h0, hc]
        · simp [h0, hn, hc]
      · rw [if_neg h0, if_neg hn, List.filter_cons_of_neg]
        simp only [Bool.and_eq_true, decide_eq_true_eq]
        exact fun h => hn h.1

theorem usbhid_poll_eq (antes : Teclas) (report : Report) :
    usbhid_poll ⟨true, antes⟩ (some report) =
      ((aparecem antes report).head?.map (caractere report), ⟨true, report.teclas⟩) := by
  rw [aparecem, head?_eraseDups, ← varre_eq]
  rfl

/-- A report again: no key appears. -/
theorem aparecem_self (report : Report) : aparecem report.teclas report = [] := by
  have hnil : (List.ofFn report.teclas).filter (fun kc =>
      nova report.teclas kc && kc < 128 && caractere report kc ≠ 0) = [] := by
    refine List.filter_eq_nil_iff.mpr fun kc hkc h => ?_
    simp only [Bool.and_eq_true] at h
    have hnova := List.all_eq_true.mp h.1.1 kc hkc
    simp at hnova
  rw [aparecem, hnil]
  rfl

/-! ## Runs -/

theorem devolvidas_cons (antes : Teclas) (r : Report) (rs : List Report) :
    devolvidas ⟨true, antes⟩ (r :: rs) =
      ((aparecem antes r).head?.map (caractere r)).toList ++ devolvidas ⟨true, r.teclas⟩ rs := by
  rw [devolvidas, usbhid_poll_eq]

theorem devolvidas_replicate (fim : Report) (m : Nat) :
    devolvidas ⟨true, fim.teclas⟩ (List.replicate m fim) = [] := by
  induction m with
  | zero => rfl
  | succ m ih =>
    rw [List.replicate_succ, devolvidas_cons, aparecem_self, ih]
    rfl

/-- The last report again returns nothing. -/
theorem devolvidas_repete (antes : Teclas) (rs : List Report) (fim : Report) (m : Nat) :
    devolvidas ⟨true, antes⟩ (rs ++ List.replicate (m + 1) fim) =
      devolvidas ⟨true, antes⟩ (rs ++ [fim]) := by
  induction rs generalizing antes with
  | nil =>
    rw [List.nil_append, List.nil_append, List.replicate_succ, devolvidas_cons, devolvidas_cons,
      devolvidas_replicate]
    rfl
  | cons r rs ih => rw [List.cons_append, List.cons_append, devolvidas_cons, devolvidas_cons, ih]

theorem length_toList_head?_map (f : UInt8 → UInt8) (l : List UInt8) :
    ((l.head?.map f).toList).length = min l.length 1 := by
  cases l <;> simp

theorem length_devolvidas_le (antes : Teclas) (rs : List Report) :
    (devolvidas ⟨true, antes⟩ rs).length ≤ (esperadas antes rs).length := by
  induction rs generalizing antes with
  | nil => exact Nat.zero_le _
  | cons r rs ih =>
    have hrest := ih r.teclas
    rw [devolvidas_cons, esperadas, List.length_append, List.length_append,
      length_toList_head?_map, List.length_map]
    omega

/-- One key for each report. -/
theorem devolvidas_eq_iff (antes : Teclas) (rs : List Report) :
    devolvidas ⟨true, antes⟩ rs = esperadas antes rs ↔ UmaPorVez antes rs := by
  induction rs generalizing antes with
  | nil => exact iff_of_true rfl trivial
  | cons r rs ih =>
    have hrest := length_devolvidas_le r.teclas rs
    rw [devolvidas_cons, esperadas, UmaPorVez, ← ih r.teclas]
    constructor
    · intro h
      have hlen := congrArg List.length h
      rw [List.length_append, List.length_append, length_toList_head?_map, List.length_map] at hlen
      have hone : (aparecem antes r).length ≤ 1 := by omega
      refine ⟨hone, (List.append_inj h ?_).2⟩
      rw [length_toList_head?_map, List.length_map]
      omega
    · rintro ⟨hone, h⟩
      rw [h]
      match hap : aparecem antes r, hone with
      | [], _ => rfl
      | [kc], _ => rfl

/-- No key press is lost exactly where no two keys appear in one report. -/
theorem every_key_is_returned_iff (antes : Teclas) (rs : List Report) (fim : Report) :
    SemPerda antes rs fim ↔ UmaPorVez antes (rs ++ [fim]) := by
  unfold SemPerda
  simp only [devolvidas_repete]
  rw [exists_const, devolvidas_eq_iff]

/-- `a` and `b` go down between two polls: `b` is never returned. -/
theorem second_key_of_a_report_is_lost :
    ¬ SemPerda ByteStr.zero [] (((ByteStr.zero : Report).putByte 2 4).putByte 3 5) := by
  rintro ⟨m, h⟩
  rw [devolvidas_repete] at h
  exact absurd h (by decide +kernel)

end SpaceOS.UsbHid
