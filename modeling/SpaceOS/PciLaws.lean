-- The laws of the PCI scan: the addresses reach the words that they name, the table holds every
-- function that is present once, and what the search for a class finds in it.
import Mathlib.Data.List.Basic
import Mathlib.Data.List.Find
import Mathlib.Data.List.Nodup
import SpaceOS.Lib.Words
import SpaceOS.Pci

open Lib.Words

namespace SpaceOS.Pci

variable {cfg : Config} {t : Tabela} {b d f : UInt8}

/-! ## Addresses -/

theorem toNat_endereco (hd : d.toNat < 32) (hf : f.toNat < 8) (o : UInt8) :
    (endereco b d f o).toNat =
      2 ^ 31 + b.toNat * 2 ^ 16 + d.toNat * 2 ^ 11 + f.toNat * 2 ^ 8 + (o &&& 0xFC).toNat := by
  have hb := b.toNat_lt
  have ho := (o &&& 0xFC).toNat_lt
  have shift (x : UInt8) (k : UInt32) (n : Nat) (hk : k.toNat % 32 = n)
      (hx : x.toNat * 2 ^ n < 2 ^ 32) : (x.toUInt32 <<< k).toNat = x.toNat * 2 ^ n := by
    rw [UInt32.toNat_shiftLeft, hk, UInt8.toNat_toUInt32, Nat.shiftLeft_eq, Nat.mod_eq_of_lt hx]
  unfold endereco
  rw [UInt32.toNat_or, UInt32.toNat_or, UInt32.toNat_or, UInt32.toNat_or,
    shift b 16 16 rfl (by omega), shift d 11 11 rfl (by omega), shift f 8 8 rfl (by omega),
    UInt8.toNat_toUInt32, show ((1 : UInt32) <<< 31).toNat = 2 ^ 31 from rfl,
    or_eq_add (p := b.toNat * 2 ^ 16) 31 (by omega) (by omega),
    or_eq_add (p := d.toNat * 2 ^ 11) 16 (by omega) (by omega),
    or_eq_add (p := f.toNat * 2 ^ 8) 11 (by omega) (by omega),
    or_eq_add 8 (by omega) (by omega)]

theorem ofNat_eq {x : UInt8} {n : Nat} (h : n = x.toNat) : UInt8.ofNat n = x := by
  rw [h, UInt8.ofNat_toNat]

/-- The word that `pci_read` names. -/
theorem pci_read_eq (hd : d.toNat < 32) (hf : f.toNat < 8) (o : UInt8) :
    pci_read cfg b d f o = cfg b d f (o &&& 0xFC) := by
  have hb := b.toNat_lt
  have ho := (o &&& 0xFC).toNat_lt
  unfold pci_read Config.responde
  rw [toNat_endereco hd hf, ofNat_eq (x := b) (by omega), ofNat_eq (x := d) (by omega),
    ofNat_eq (x := f) (by omega), ofNat_eq (x := o &&& 0xFC) (by omega)]

/-! ## The functions of the machine -/

/-- A place of the configuration space: bus, device and function. -/
abbrev Lugar := UInt8 × UInt8 × UInt8

def Config.palavra (cfg : Config) (x : Lugar) (o : UInt8) : UInt32 := cfg x.1 x.2.1 x.2.2 o

/-- The function is there: its vendor is not 0xFFFF. -/
def Presente (cfg : Config) (x : Lugar) : Prop := cfg.palavra x 0 &&& 0xFFFF ≠ 0xFFFF

instance (cfg : Config) (x : Lugar) : Decidable (Presente cfg x) :=
  inferInstanceAs (Decidable (_ ≠ _))

def Config.dispositivo (cfg : Config) (x : Lugar) : UInt16 := (cfg.palavra x 0 >>> 16).toUInt16

def Config.classe (cfg : Config) (x : Lugar) : UInt8 := (cfg.palavra x 8 >>> 24).toUInt8

def Config.subclasse (cfg : Config) (x : Lugar) : UInt8 := (cfg.palavra x 8 >>> 16).toUInt8

def Config.cabecalho (cfg : Config) (x : Lugar) : UInt8 := (cfg.palavra x 12 >>> 16).toUInt8

/-- The places of buses 0 to 7. -/
def lugares : List Lugar := ate 8 ×ˢ ate 32 ×ˢ ate 8

/-- The functions that are present, in the order of the scan. -/
def presentes (cfg : Config) : List Lugar := lugares.filter fun x => Presente cfg x

/-- Function 0 is present for every device, further functions only on multifunction devices, and all
fit the table. -/
structure BemFormado (cfg : Config) : Prop where
  funcao_zero : ∀ x ∈ lugares, Presente cfg x → Presente cfg (x.1, x.2.1, 0)
  multifuncao : ∀ x ∈ lugares, Presente cfg x → x.2.2 ≠ 0 →
    cfg.cabecalho (x.1, x.2.1, 0) &&& 0x80 ≠ 0
  cabem : (presentes cfg).length ≤ PCI_MAX_DEVICES

/-! ## Entries -/

def pci_device_t.lugar (e : pci_device_t) : Lugar := (e.bus, e.device, e.function)

/-- The identifiers and the class fields of an entry are those of its function. -/
structure Confere (cfg : Config) (e : pci_device_t) : Prop where
  vendor_id : e.vendor_id = (cfg.palavra e.lugar 0).toUInt16
  device_id : e.device_id = cfg.dispositivo e.lugar
  class_code : e.class_code = cfg.classe e.lugar
  subclass : e.subclass = cfg.subclasse e.lugar
  prog_if : e.prog_if = (cfg.palavra e.lugar 8 >>> 8).toUInt8
  revision : e.revision = (cfg.palavra e.lugar 8).toUInt8
  header_type : e.header_type = cfg.cabecalho e.lugar

/-- The test of the vendor, as a half word and as a word. -/
theorem toUInt16_eq_iff (x : UInt32) :
    (x &&& 0xFFFF).toUInt16 = 0xFFFF ↔ x &&& 0xFFFF = 0xFFFF := by
  have hmod : (x &&& 0xFFFF).toNat = x.toNat % 2 ^ 16 := toNat_and_low x 0xFFFF rfl
  rw [← UInt16.toNat_inj, ← UInt32.toNat_inj, UInt32.toNat_toUInt16, hmod, Nat.mod_mod]
  rfl

theorem preenche_spec (hd : d.toNat < 32) (hf : f.toNat < 8) (e : pci_device_t) :
    (preenche cfg b d f e).lugar = (b, d, f) ∧ Confere cfg (preenche cfg b d f e) := by
  have hid : pci_read cfg b d f PCI_VENDOR_ID = cfg b d f 0 := pci_read_eq hd hf _
  have hclass : pci_read cfg b d f PCI_CLASS_CODE = cfg b d f 8 := pci_read_eq hd hf _
  have hhdr : pci_read cfg b d f PCI_HEADER_TYPE = cfg b d f 12 := pci_read_eq hd hf _
  simp only [preenche, hid, hclass, hhdr]
  split
  all_goals
    refine ⟨rfl, ⟨?_, rfl, ?_, ?_, ?_, ?_, ?_⟩⟩
    · exact toUInt16_and _
    all_goals exact toUInt8_and _

/-! ## The scan -/

theorem toNat_ofNat {i n : Nat} (hi : i < n) (hn : n ≤ 256) : (UInt8.ofNat i).toNat = i :=
  UInt8.toNat_ofNat_of_lt' (show i < 256 by omega)

theorem mem_ate {n : Nat} (hn : n ≤ 256) (x : UInt8) : x ∈ ate n ↔ x.toNat < n := by
  rw [ate, List.mem_map]
  constructor
  · rintro ⟨i, hi, rfl⟩
    have hi := List.mem_range.mp hi
    rwa [toNat_ofNat hi hn]
  · exact fun h => ⟨x.toNat, List.mem_range.mpr h, UInt8.ofNat_toNat⟩

theorem mem_lugares (x : Lugar) :
    x ∈ lugares ↔ x.1.toNat < 8 ∧ x.2.1.toNat < 32 ∧ x.2.2.toNat < 8 := by
  obtain ⟨b, d, f⟩ := x
  rw [lugares, List.mem_product, List.mem_product, mem_ate (by decide), mem_ate (by decide),
    mem_ate (by decide)]

theorem mem_lugares_of {b d f : UInt8} (hb : b ∈ ate 8) (hd : d ∈ ate 32) (hf : f ∈ ate 8) :
    (b, d, f) ∈ lugares := by
  rw [lugares, List.mem_product, List.mem_product]
  exact ⟨hb, hd, hf⟩

theorem nodup_ate {n : Nat} (hn : n ≤ 256) : (ate n).Nodup := by
  refine List.Nodup.map_on (fun i hi j hj h => ?_) List.nodup_range
  have hi := List.mem_range.mp hi
  have hj := List.mem_range.mp hj
  have h := congrArg UInt8.toNat h
  rwa [toNat_ofNat hi hn, toNat_ofNat hj hn] at h

theorem nodup_lugares : lugares.Nodup :=
  List.Nodup.product (nodup_ate (by decide))
    (List.Nodup.product (nodup_ate (by decide)) (nodup_ate (by decide)))

@[simp] theorem length_lista (t : Tabela) : t.lista.length = t.pci_count := by simp [Tabela.lista]

theorem lista_push (t : Tabela) (e : pci_device_t) :
    Tabela.lista ⟨Function.update t.pci_devices t.pci_count e, t.pci_count + 1⟩ =
      t.lista ++ [e] := by
  simp only [Tabela.lista]
  rw [List.range_succ, List.map_append, List.map_singleton, Function.update_self]
  refine congrArg (· ++ [e]) (List.map_congr_left fun i hi => ?_)
  exact Function.update_of_ne (Nat.ne_of_lt (List.mem_range.mp hi)) _ _

/-- One visit of the scan. -/
def visita (cfg : Config) (t : Tabela) (x : Lugar) : Tabela :=
  pci_scan_function cfg x.1 x.2.1 t x.2.2

theorem vendor_iff (cfg : Config) (hx : (b, d, f) ∈ lugares) :
    pci_read cfg b d f PCI_VENDOR_ID &&& 0xFFFF = 0xFFFF ↔ ¬ Presente cfg (b, d, f) := by
  obtain ⟨-, hd, hf⟩ := (mem_lugares _).mp hx
  have hid : pci_read cfg b d f PCI_VENDOR_ID = cfg b d f 0 := pci_read_eq hd hf _
  rw [hid, Presente, not_ne_iff]
  rfl

theorem visita_ausente {x : Lugar} (hx : x ∈ lugares) (h : ¬ Presente cfg x) :
    visita cfg t x = t := by
  unfold visita pci_scan_function
  rw [if_pos ((toUInt16_eq_iff _).mpr ((vendor_iff cfg hx).mpr h))]

theorem visita_presente {x : Lugar} (hx : x ∈ lugares) (h : Presente cfg x)
    (hcabe : t.pci_count < PCI_MAX_DEVICES) :
    ∃ e, (visita cfg t x).lista = t.lista ++ [e] ∧ e.lugar = x ∧ Confere cfg e := by
  obtain ⟨-, hd, hf⟩ := (mem_lugares x).mp hx
  have hvendor : ¬ (pci_read cfg x.1 x.2.1 x.2.2 PCI_VENDOR_ID &&& 0xFFFF).toUInt16 = 0xFFFF :=
    fun he => (vendor_iff cfg hx).mp ((toUInt16_eq_iff _).mp he) h
  unfold visita pci_scan_function
  simp only [hvendor, if_false]
  rw [if_neg (by omega)]
  exact ⟨_, lista_push t _, preenche_spec hd hf _⟩

/-- The visits of a list of places. -/
theorem visitas {xs : List Lugar} (hxs : ∀ x ∈ xs, x ∈ lugares)
    (hcabem : t.pci_count + (xs.filter fun x => Presente cfg x).length ≤ PCI_MAX_DEVICES)
    (hconf : ∀ e ∈ t.lista, Confere cfg e) :
    (xs.foldl (visita cfg) t).lista.map pci_device_t.lugar =
        t.lista.map pci_device_t.lugar ++ xs.filter (fun x => Presente cfg x) ∧
      ∀ e ∈ (xs.foldl (visita cfg) t).lista, Confere cfg e := by
  induction xs generalizing t with
  | nil => exact ⟨(List.append_nil _).symm, hconf⟩
  | cons x xs ih =>
    have hx := hxs x List.mem_cons_self
    have hrest := fun y hy => hxs y (List.mem_cons_of_mem x hy)
    rw [List.foldl_cons]
    by_cases hp : Presente cfg x
    · rw [List.filter_cons_of_pos (by simpa using hp), List.length_cons] at hcabem
      obtain ⟨e, hlista, hlugar, he⟩ := visita_presente (t := t) hx hp (by omega)
      have hcount : (visita cfg t x).pci_count = t.pci_count + 1 := by
        rw [← length_lista, hlista, List.length_append, length_lista, List.length_singleton]
      obtain ⟨h1, h2⟩ := ih (t := visita cfg t x) hrest (by omega) fun y hy => by
        rw [hlista] at hy
        rcases List.mem_append.mp hy with h | h
        · exact hconf y h
        · exact List.mem_singleton.mp h ▸ he
      refine ⟨?_, h2⟩
      rw [h1, hlista, List.filter_cons_of_pos (by simpa using hp), List.map_append,
        List.map_singleton, hlugar, List.append_assoc, List.singleton_append]
    · rw [List.filter_cons_of_neg (by simpa using hp)] at hcabem ⊢
      rw [visita_ausente hx hp]
      exact ih hrest hcabem hconf

/-- The visits of one device. -/
def funcoes (cfg : Config) (b d : UInt8) (t : Tabela) (fs : List UInt8) : Tabela :=
  fs.foldl (fun t f => visita cfg t (b, d, f)) t

theorem funcoes_ausentes {fs : List UInt8} (h : ∀ f ∈ fs, (b, d, f) ∈ lugares)
    (hp : ∀ f ∈ fs, ¬ Presente cfg (b, d, f)) (t : Tabela) : funcoes cfg b d t fs = t := by
  induction fs generalizing t with
  | nil => rfl
  | cons f fs ih =>
    have hvisita := visita_ausente (t := t) (h f List.mem_cons_self) (hp f List.mem_cons_self)
    rw [funcoes, List.foldl_cons, hvisita]
    exact ih (fun g hg => h g (List.mem_cons_of_mem _ hg))
      (fun g hg => hp g (List.mem_cons_of_mem _ hg)) t

theorem ate_oito : ate 8 = 0 :: [1, 2, 3, 4, 5, 6, 7] := rfl

theorem mem_tail_ate {f : UInt8} (hf : f ∈ (ate 8).tail) : f ∈ ate 8 ∧ f ≠ 0 := by
  refine ⟨List.mem_of_mem_tail hf, ?_⟩
  rintro rfl
  rw [ate_oito] at hf
  simp at hf

/-- Function 0 and the others. -/
theorem funcoes_ate (t : Tabela) :
    funcoes cfg b d t (ate 8) = funcoes cfg b d (pci_scan_function cfg b d t 0) (ate 8).tail := by
  rw [ate_oito]
  rfl

/-- The loop over the functions of a multifunction device tests the vendor once more. -/
theorem foldl_funcoes {fs : List UInt8} (h : ∀ f ∈ fs, (b, d, f) ∈ lugares) (t : Tabela) :
    fs.foldl (fun t func =>
      if pci_read cfg b d func PCI_VENDOR_ID &&& 0xFFFF ≠ 0xFFFF then
        pci_scan_function cfg b d t func
      else t) t = funcoes cfg b d t fs := by
  unfold funcoes
  refine List.foldl_ext _ _ _ fun t f hf => ?_
  have hvendor := vendor_iff cfg (h f hf)
  by_cases hpf : Presente cfg (b, d, f)
  · exact if_pos fun he => hvendor.mp he hpf
  · rw [visita_ausente (h f hf) hpf]
    exact if_neg (not_ne_iff.mpr (hvendor.mpr hpf))

/-- A device is scanned as all of its functions would be. -/
theorem pci_scan_device_eq (h : BemFormado cfg) (hb : b ∈ ate 8) (hd : d ∈ ate 32) :
    pci_scan_device cfg b t d = funcoes cfg b d t (ate 8) := by
  have hmem (f : UInt8) (hf : f ∈ ate 8) : (b, d, f) ∈ lugares :=
    mem_lugares_of hb hd hf
  have htail (f : UInt8) (hf : f ∈ (ate 8).tail) : (b, d, f) ∈ lugares :=
    hmem f (mem_tail_ate hf).1
  have h0 : (b, d, 0) ∈ lugares := hmem 0 (ate_oito ▸ List.mem_cons_self)
  have hvendor : pci_read cfg b d 0 PCI_VENDOR_ID &&& 0xFFFF = 0xFFFF ↔
      ¬ Presente cfg (b, d, 0) := vendor_iff cfg h0
  have hhdr : ((pci_read cfg b d 0 PCI_HEADER_TYPE >>> 16) &&& 0xFF).toUInt8 =
      cfg.cabecalho (b, d, 0) := by
    have hdev : d.toNat < 32 := ((mem_lugares _).mp h0).2.1
    have hread : pci_read cfg b d 0 PCI_HEADER_TYPE = cfg b d 0 12 :=
      pci_read_eq hdev ((mem_lugares _).mp h0).2.2 _
    rw [toUInt8_and, hread]
    rfl
  by_cases hp : Presente cfg (b, d, 0)
  · have hne : ¬ pci_read cfg b d 0 PCI_VENDOR_ID &&& 0xFFFF = 0xFFFF := fun he => hvendor.mp he hp
    simp only [pci_scan_device, hne, if_false, hhdr]
    rw [funcoes_ate]
    by_cases hmulti : cfg.cabecalho (b, d, 0) &&& 0x80 ≠ 0
    · rw [if_pos hmulti, foldl_funcoes htail]
    · rw [if_neg hmulti, funcoes_ausentes htail fun f hf hpf =>
        hmulti (h.multifuncao (b, d, f) (htail f hf) hpf (mem_tail_ate hf).2)]
  · rw [pci_scan_device, if_pos (hvendor.mpr hp), funcoes_ausentes hmem fun f hf hpf =>
      hp (h.funcao_zero (b, d, f) (hmem f hf) hpf)]

theorem pci_init_eq (h : BemFormado cfg) (t : Tabela) :
    pci_init cfg t = lugares.foldl (visita cfg) { t with pci_count := 0 } := by
  unfold pci_init lugares
  simp only [SProd.sprod, List.product]
  rw [List.foldl_flatMap]
  refine List.foldl_ext _ _ _ fun t b hb => ?_
  rw [List.foldl_map, List.foldl_flatMap]
  refine List.foldl_ext _ _ _ fun t d hd => ?_
  rw [List.foldl_map, pci_scan_device_eq h hb hd]
  rfl

/-- The table holds every function that is present exactly once, with its identifiers and class
fields. -/
structure Registrou (cfg : Config) (t : Tabela) : Prop where
  uma_vez : (t.lista.map pci_device_t.lugar).Nodup
  presentes : ∀ x, x ∈ t.lista.map pci_device_t.lugar ↔ x ∈ lugares ∧ Presente cfg x
  confere : ∀ e ∈ t.lista, Confere cfg e

/-- What the scan leaves in the table. -/
theorem pci_init_spec (h : BemFormado cfg) (t : Tabela) :
    (pci_init cfg t).lista.map pci_device_t.lugar = presentes cfg ∧
      ∀ e ∈ (pci_init cfg t).lista, Confere cfg e := by
  rw [pci_init_eq h]
  have hcabem := h.cabem
  exact visitas (t := { t with pci_count := 0 }) (fun _ hx => hx) (by rwa [Nat.zero_add])
    fun e he => absurd he List.not_mem_nil

theorem registrou (h : BemFormado cfg) (t : Tabela) : Registrou cfg (pci_init cfg t) := by
  obtain ⟨h1, h2⟩ := pci_init_spec h t
  refine ⟨h1 ▸ nodup_lugares.filter _, fun x => ?_, h2⟩
  rw [h1, presentes, List.mem_filter, decide_eq_true_eq]

/-! ## The search -/

/-- The result of the search is a recorded function of the class, or none where there is none. -/
def Exata (t : Tabela) (class_code subclass : UInt8) : Prop :=
  match pci_find_class t class_code subclass with
  | some e => e ∈ t.lista ∧ e.class_code = class_code ∧ e.subclass = subclass
  | none => ∀ e ∈ t.lista, ¬ (e.class_code = class_code ∧ e.subclass = subclass)

/-- The first function of the class whose device identifier is the number of the subclass. -/
def primeira (cfg : Config) (class_code subclass : UInt8) : Option Lugar :=
  (presentes cfg).find? fun x =>
    cfg.classe x = class_code ∧ cfg.dispositivo x = subclass.toUInt16

/-- Where some function of the class has that subclass, or that device identifier, the first one of
the class with that device identifier has that subclass as well. -/
def Coincide (cfg : Config) (class_code subclass : UInt8) : Prop :=
  (∃ x ∈ presentes cfg, cfg.classe x = class_code ∧
    (cfg.subclasse x = subclass ∨ cfg.dispositivo x = subclass.toUInt16)) →
    ∃ x, primeira cfg class_code subclass = some x ∧ cfg.subclasse x = subclass

/-- The search among the entries is the one among the functions. -/
theorem primeira_eq (h : BemFormado cfg) (t : Tabela) (c s : UInt8) :
    primeira cfg c s = (pci_find_class (pci_init cfg t) c s).map pci_device_t.lugar := by
  obtain ⟨h1, h2⟩ := pci_init_spec h t
  rw [primeira, ← h1, List.find?_map, pci_find_class]
  refine congrArg (Option.map _) (List.find?_congr fun e he => ?_)
  have hconf := h2 e he
  rw [Function.comp_apply, hconf.class_code, hconf.device_id]

theorem mem_presentes_iff (h : BemFormado cfg) (t : Tabela) (P : Lugar → Prop) :
    (∃ x ∈ presentes cfg, P x) ↔ ∃ e ∈ (pci_init cfg t).lista, P e.lugar := by
  rw [← (pci_init_spec h t).1]
  simp only [List.mem_map, exists_exists_and_eq_and]

theorem exata_iff (h : BemFormado cfg) (t : Tabela) (c s : UInt8) :
    Exata (pci_init cfg t) c s ↔ Coincide cfg c s := by
  have hconf := (pci_init_spec h t).2
  unfold Exata Coincide
  rw [primeira_eq h t, mem_presentes_iff h t]
  cases hfind : pci_find_class (pci_init cfg t) c s with
  | none =>
    have hnone := List.find?_eq_none.mp hfind
    simp only [Option.map_none, reduceCtorEq, false_and, exists_false, imp_false, not_exists,
      not_and]
    refine forall₂_congr fun e he => ?_
    have hno := hnone e he
    rw [decide_eq_true_eq, not_and] at hno
    rw [← (hconf e he).class_code, ← (hconf e he).subclass, ← (hconf e he).device_id]
    exact ⟨fun h hc ho => ho.elim (h hc) (hno hc), fun h hc hs => h hc (.inl hs)⟩
  | some e =>
    have he := List.mem_of_find?_eq_some hfind
    have hsome := List.find?_some hfind
    rw [decide_eq_true_eq] at hsome
    have hc := (hconf e he).class_code
    have hd := (hconf e he).device_id
    have hs := (hconf e he).subclass
    constructor
    · exact fun h _ => ⟨e.lugar, rfl, hs ▸ h.2.2⟩
    · intro h
      obtain ⟨x, hx, hsub⟩ := h ⟨e, he, hc ▸ hsome.1, .inr (hd ▸ hsome.2)⟩
      obtain rfl := Option.some.inj hx
      exact ⟨he, hsome.1, hs.trans hsub⟩

/-- A machine with one function, an IDE controller: class 1, subclass 1. -/
def umDisco : Config := fun b d f o =>
  if b = 0 ∧ d = 1 ∧ f = 0 then
    if o = 0 then 0x70108086 else if o = 8 then 0x01018000 else 0
  else 0xFFFFFFFF

theorem presentes_umDisco : presentes umDisco = [(0, 1, 0)] := by decide +kernel

theorem bemFormado_umDisco : BemFormado umDisco := by
  have hum (x : Lugar) (hx : x ∈ lugares) (hp : Presente umDisco x) : x = (0, 1, 0) := by
    have hmem : x ∈ presentes umDisco := List.mem_filter.mpr ⟨hx, decide_eq_true hp⟩
    rw [presentes_umDisco] at hmem
    exact List.mem_singleton.mp hmem
  refine ⟨fun x hx hp => ?_, fun x hx hp hne => absurd (hum x hx hp ▸ rfl) hne, ?_⟩
  · obtain rfl := hum x hx hp
    exact hp
  · rw [presentes_umDisco]
    decide

/-- The table before the first scan. -/
def Tabela.vazia : Tabela := ⟨fun _ => ⟨0, 0, 0, 0, 0, 0, 0, 0, 0, 0, [0, 0, 0, 0, 0, 0], 0, 0⟩, 0⟩

/-- The controller is in the table, and the search for its class finds nothing. -/
theorem ide_controller_is_not_found : ¬ Exata (pci_init umDisco Tabela.vazia) 1 1 := by
  rw [exata_iff bemFormado_umDisco]
  unfold Coincide primeira
  rw [presentes_umDisco]
  decide

/-- The scan records every function once, for every contents of the configuration space, and the
search for a class is exact where the subclass and the device identifier lead to one function. -/
theorem class_search_is_exact_iff (cfg : Config) (h : BemFormado cfg) (t : Tabela) :
    Registrou cfg (pci_init cfg t) ∧
      ∀ class_code subclass, Exata (pci_init cfg t) class_code subclass ↔
        Coincide cfg class_code subclass :=
  ⟨registrou h t, exata_iff h t⟩

theorem class_search_of_one_disk :
    BemFormado umDisco ∧ Registrou umDisco (pci_init umDisco Tabela.vazia) ∧
      (Exata (pci_init umDisco Tabela.vazia) 2 0 ↔ Coincide umDisco 2 0) :=
  have h := class_search_is_exact_iff umDisco bemFormado_umDisco Tabela.vazia
  ⟨bemFormado_umDisco, h.1, h.2 2 0⟩

end SpaceOS.Pci
