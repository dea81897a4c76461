/-
Where the ELF parser reads. Every read stays inside the file except in two places where an offset
wraps before it is compared: the end of the first program header in 64 bits, and the end of a symbol
entry in 32. The theorem says exactly when neither happens.
-/
import Quanta.Lib.Fallible
import Quanta.Loader.Image

namespace Quanta.Elf

open Fallible

namespace File

variable {f : File} {p : BitVec 64} {t : PhTable} {i : Nat}

/-! ## Reads -/

theorem byte_avoids (h : p.toNat < f.bytes.length) : Avoids .outOfBounds (f.byte p) := by
  unfold byte
  rw [List.getElem?_eq_getElem h]
  exact .ok _

theorem byte_outOfBounds (h : f.bytes.length ≤ p.toNat) : f.byte p = .error .outOfBounds := by
  unfold byte
  rw [List.getElem?_eq_none h]

theorem toNat_succ (h : p.toNat < f.bytes.length) : (p + 1).toNat = p.toNat + 1 := by
  have hlen := f.short
  rw [BitVec.toNat_add, show (1 : BitVec 64).toNat = 1 from rfl]
  omega

theorem rd_avoids {w n : Nat} (h : p.toNat + n ≤ f.bytes.length) :
    Avoids .outOfBounds (f.rd w p n) := by
  induction n generalizing p with
  | zero => exact .ok _
  | succ n ih =>
    have hp : p.toNat < f.bytes.length := by omega
    refine (byte_avoids hp).bind fun b _ => Avoids.bind (ih ?_) fun rest _ => .ok _
    rw [toNat_succ hp]
    omega

theorem rd_outOfBounds {w n : Nat} (h : f.bytes.length < p.toNat + n) (hn : 0 < n) :
    f.rd w p n = .error .outOfBounds := by
  induction n generalizing p with
  | zero => cases hn
  | succ n ih =>
    unfold rd
    by_cases hp : p.toNat < f.bytes.length
    · have hrest : f.rd w (p + 1) n = .error .outOfBounds := ih (by rw [toNat_succ hp]; omega) (by omega)
      unfold byte
      rw [List.getElem?_eq_getElem hp, hrest]
      rfl
    · rw [byte_outOfBounds (by omega)]
      rfl

theorem rdWord_avoids {is64 : Bool} (h : p.toNat + 8 ≤ f.bytes.length) :
    Avoids .outOfBounds (f.rdWord is64 p) := by
  unfold rdWord
  split
  · exact rd_avoids h
  · exact rd_avoids (by omega)

/-! ## The header -/

theorem le_of_not_ult {n : BitVec 64} (h : ¬f.len.ult n = true) : n.toNat ≤ f.bytes.length := by
  rw [BitVec.ult_eq_decide, decide_eq_true_eq, toNat_len] at h
  omega

theorem checkHeader_avoids (f : File) : Avoids .outOfBounds f.checkHeader := by
  unfold checkHeader
  refine .ite (fun _ => .error (by decide)) fun hlen => ?_
  have h52 : 52 ≤ f.bytes.length := le_of_not_ult hlen
  refine (byte_avoids ?_).bind fun b0 _ => (byte_avoids ?_).bind fun b1 _ => (byte_avoids ?_).bind fun b2 _ =>
    (byte_avoids ?_).bind fun b3 _ => .ite (fun _ => .error (by decide)) fun _ => ?_
  iterate 4 exact Nat.lt_of_lt_of_le (by decide) h52
  refine (byte_avoids (Nat.lt_of_lt_of_le (by decide) h52)).bind fun cls _ =>
    .ite (fun _ => .error (by decide)) fun _ => .ite (fun _ => .error (by decide)) fun _ => ?_
  refine (byte_avoids (Nat.lt_of_lt_of_le (by decide) h52)).bind fun data _ =>
    .ite (fun _ => .error (by decide)) fun _ => ?_
  refine (rd_avoids (Nat.le_trans (by decide) h52)).bind fun type _ =>
    .ite (fun _ => .error (by decide)) fun _ => ?_
  exact (rd_avoids (Nat.le_trans (by decide) h52)).bind fun machine _ =>
    .ite (fun _ => .error (by decide)) fun _ => .ok _

/-- A header that passes leaves room for the fields of its class. -/
theorem length_of_checkHeader {is64 : Bool} (h : f.checkHeader = .ok is64) :
    52 ≤ f.bytes.length ∧ (is64 = true → 64 ≤ f.bytes.length) := by
  unfold checkHeader at h
  split at h
  · cases h
  next hlen =>
  refine ⟨le_of_not_ult hlen, fun h64 => ?_⟩
  obtain ⟨b0, _, h⟩ := bind_eq_ok.mp h
  obtain ⟨b1, _, h⟩ := bind_eq_ok.mp h
  obtain ⟨b2, _, h⟩ := bind_eq_ok.mp h
  obtain ⟨b3, _, h⟩ := bind_eq_ok.mp h
  split at h
  · cases h
  obtain ⟨cls, _, h⟩ := bind_eq_ok.mp h
  split at h
  · cases h
  split at h
  · cases h
  next hcls =>
  obtain ⟨data, _, h⟩ := bind_eq_ok.mp h
  split at h
  · cases h
  obtain ⟨type, _, h⟩ := bind_eq_ok.mp h
  split at h
  · cases h
  obtain ⟨machine, _, h⟩ := bind_eq_ok.mp h
  split at h
  · cases h
  cases h
  have hcls64 : cls = ELFCLASS64 := by simpa using h64
  exact le_of_not_ult fun hult => hcls ⟨hcls64, hult⟩

theorem phTable_avoids (f : File) : Avoids .outOfBounds f.phTable := by
  refine f.checkHeader_avoids.bind fun is64 hh => ?_
  obtain ⟨h52, h64⟩ := length_of_checkHeader hh
  have htable : Avoids .outOfBounds (f.readPhTable is64) := by
    cases is64 with
    | false =>
      exact (rdWord_avoids (Nat.le_trans (by decide) h52)).bind fun _ _ =>
        (rd_avoids (Nat.le_trans (by decide) h52)).bind fun _ _ =>
          (rd_avoids (Nat.le_trans (by decide) h52)).bind fun _ _ => .ok _
    | true =>
      exact (rdWord_avoids (Nat.le_trans (by decide) h52)).bind fun _ _ =>
        (rd_avoids (Nat.le_trans (by decide) (h64 rfl))).bind fun _ _ =>
          (rd_avoids (Nat.le_trans (by decide) (h64 rfl))).bind fun _ _ => .ok _
  exact htable.bind fun t _ => .ite (fun _ => .error nofun) fun _ => .ok _

theorem length_of_phTable (h : f.phTable = .ok t) : t.phsizeMin.toNat ≤ f.bytes.length ∧ 52 ≤ f.bytes.length := by
  obtain ⟨is64, hh, h⟩ := bind_eq_ok.mp h
  obtain ⟨h52, h64⟩ := length_of_checkHeader hh
  obtain ⟨t', ht, h⟩ := bind_eq_ok.mp h
  obtain ⟨phoff, _, ht⟩ := bind_eq_ok.mp ht
  obtain ⟨phentsize, _, ht⟩ := bind_eq_ok.mp ht
  obtain ⟨phnum, _, ht⟩ := bind_eq_ok.mp ht
  cases ht
  split at h
  · cases h
  cases h
  refine ⟨?_, h52⟩
  cases is64 with
  | false => exact Nat.le_trans (show ELF_PHSIZE.toNat ≤ 52 by decide) h52
  | true => exact Nat.le_trans (show ELF64_PHSIZE.toNat ≤ 64 by decide) (h64 rfl)

/-! ## Program headers -/

theorem phsizeMin_le (t : PhTable) : 32 ≤ t.phsizeMin.toNat ∧ t.phsizeMin.toNat ≤ 56 := by
  unfold PhTable.phsizeMin
  split <;> decide

theorem rdWord_avoids_at {is64 : Bool} {p k : BitVec 64} (h : p.toNat + k.toNat + 8 ≤ f.bytes.length) :
    Avoids .outOfBounds (f.rdWord is64 (p + k)) := by
  have hlen := f.short
  refine rdWord_avoids ?_
  rw [BitVec.toNat_add]
  omega

theorem segmentAt_avoids (h : (t.entry i).toNat + t.phsizeMin.toNat ≤ f.bytes.length) :
    Avoids .outOfBounds (f.segmentAt t i) := by
  have hmin := phsizeMin_le t
  refine (rd_avoids (by omega)).bind fun type _ => .ite (fun _ => .ok _) fun _ => ?_
  have hfield : ∀ k : BitVec 64, k.toNat + 8 ≤ t.phsizeMin.toNat →
      Avoids .outOfBounds (f.rdWord t.is64 (t.entry i + k)) := fun k hk => rdWord_avoids_at (by omega)
  have hphdr : Avoids .outOfBounds (f.readPhdr (t.entry i) t.is64) := by
    refine (hfield _ ?_).bind fun _ _ => (hfield _ ?_).bind fun _ _ => (hfield _ ?_).bind fun _ _ =>
      (hfield _ ?_).bind fun _ _ => .ok _
    all_goals
      unfold PhTable.phsizeMin
      cases t.is64 <;> decide
  exact hphdr.bind fun s _ => .ok _

/-- The table starts low enough for the end of its first header not to wrap. -/
def TableFits (f : File) : Prop :=
  ∀ t, f.phTable = .ok t → t.phnum ≠ 0 → t.phoff.toNat + t.phsizeMin.toNat < 0x10000000000000000

theorem measureOne_avoids {acc : Span}
    (h : (t.entry i).toNat + t.phsizeMin.toNat < 0x10000000000000000) :
    Avoids .outOfBounds (f.measureOne t acc i) := by
  refine .ite (fun _ => .error (by decide)) fun hend => ?_
  have hle := le_of_not_ult hend
  rw [BitVec.toNat_add, Nat.mod_eq_of_lt h] at hle
  refine (segmentAt_avoids hle).bind fun o _ => ?_
  cases o with
  | none => exact .ok _
  | some s => exact .ite (fun _ => .error (by decide)) fun _ => .ite (fun _ => .error (by decide)) fun _ => .ok _

theorem entry_zero (t : PhTable) : t.entry 0 = t.phoff := by
  unfold PhTable.entry
  simp

/-- Once the table starts inside the file, none of its offsets comes near a wrap. -/
theorem entry_lt (h : t.phoff.toNat ≤ f.bytes.length) (hi : i < 0x10000) :
    (t.entry i).toNat + t.phsizeMin.toNat < 0x10000000000000000 := by
  have hlen := f.short
  have hmin := phsizeMin_le t
  have hsize := t.phentsize.isLt
  have hmul : i * t.phentsize.toNat ≤ 0xffff * 0xffff := Nat.mul_le_mul (by omega) (by omega)
  unfold PhTable.entry
  rw [BitVec.toNat_add, BitVec.toNat_mul, BitVec.toNat_ofNat, BitVec.toNat_setWidth,
    Nat.mod_eq_of_lt (show i < _ by omega), Nat.mod_eq_of_lt (show t.phentsize.toNat < _ by omega)]
  omega

theorem measure_avoids (h : t.phnum ≠ 0 → t.phoff.toNat + t.phsizeMin.toNat < 0x10000000000000000) :
    Avoids .outOfBounds (f.measure t) := by
  have hlen := f.short
  unfold measure
  cases hn : t.phnum.toNat with
  | zero => exact .ok _
  | succ n =>
    have hne : t.phnum ≠ 0 := by
      intro h0
      rw [h0] at hn
      cases hn
    have h0 : (t.entry 0).toNat + t.phsizeMin.toNat < 0x10000000000000000 := by
      rw [entry_zero]
      exact h hne
    rw [List.range_succ_eq_map, List.foldlM_cons]
    refine (measureOne_avoids h0).bind fun acc hacc => .foldlM fun acc' i hi => measureOne_avoids (entry_lt (f := f) ?_ ?_)
    · -- the first round has compared the end of the first header with the length
      have hle := (measureOne_ok hacc).1
      rw [BitVec.toNat_add, Nat.mod_eq_of_lt h0, entry_zero] at hle
      omega
    · obtain ⟨j, hj, rfl⟩ := List.mem_map.mp hi
      rw [List.mem_range] at hj
      have := t.phnum.isLt
      omega

/-- The second pass reads what the first one has read. -/
theorem copy_avoids {acc : Span} (h : f.measure t = .ok acc) (mem : Memory) :
    Avoids .outOfBounds (f.copy t mem) := by
  refine .foldlM fun mem i hi => ?_
  obtain ⟨acc1, acc2, hone⟩ := exists_of_foldlM h i hi
  unfold copyOne
  rcases (measureOne_ok hone).2 with ⟨hs, _⟩ | ⟨s, hs, hacc, _⟩
  · rw [hs]
    exact .ok _
  · rw [hs]
    refine Avoids.ite (fun _ => .ok _) fun _ => ?_
    have hslice : Avoids .outOfBounds (f.slice s.offset s.filesz) := by
      unfold slice
      rw [if_pos hacc.inFile]
      exact .ok _
    refine hslice.bind fun src _ => ?_
    cases memLoad mem s.vaddr src with
    | mk fits mem1 =>
      cases fits with
      | false => exact .error (by decide)
      | true => exact .ok _

theorem elfLoad_avoids (h : f.TableFits) (calloc : BitVec 64 → Bool) (minSize : BitVec 32) :
    Avoids .outOfBounds (f.elfLoad calloc minSize) := by
  refine f.phTable_avoids.bind fun t ht => (measure_avoids (h t ht)).bind fun acc hacc => ?_
  refine .ite (fun _ => .error (by decide)) fun _ => .ite (fun _ => .error (by decide)) fun _ => ?_
  refine .ite (fun _ => .error nofun) fun _ => .ite (fun _ => .error (by decide)) fun _ => ?_
  refine .ite (fun _ => .error nofun) fun _ => (copy_avoids hacc _).bind fun mem _ => ?_
  refine (rdWord_avoids ?_).bind fun entry _ => .ite (fun _ => .error nofun) fun _ => .ok _
  exact Nat.le_trans (by decide) (length_of_phTable ht).2

/-- A first header whose end wraps passes the check and is read outside the file. -/
theorem elfLoad_outOfBounds (ht : f.phTable = .ok t) (hn : t.phnum ≠ 0)
    (hwrap : ¬t.phoff.toNat + t.phsizeMin.toNat < 0x10000000000000000) (calloc : BitVec 64 → Bool)
    (minSize : BitVec 32) : f.elfLoad calloc minSize = .error .outOfBounds := by
  have hlen := f.short
  have hmin := phsizeMin_le t
  have hle := (length_of_phTable ht).1
  have hoff := t.phoff.isLt
  have hround : ∀ acc, f.measureOne t acc 0 = .error .outOfBounds := by
    intro acc
    unfold measureOne
    rw [if_neg]
    · unfold segmentAt rdU32
      rw [entry_zero, rd_outOfBounds (by omega) (by decide)]
      rfl
    · rw [BitVec.ult_eq_decide, decide_eq_true_eq, toNat_len, entry_zero, BitVec.toNat_add]
      omega
  have hmeasure : f.measure t = .error .outOfBounds := by
    unfold measure
    cases hk : t.phnum.toNat with
    | zero => exact absurd (BitVec.eq_of_toNat_eq hk) hn
    | succ n =>
      rw [List.range_succ_eq_map, List.foldlM_cons, hround]
      rfl
  unfold elfLoad
  rw [ht]
  show (f.measure t >>= _) = _
  rw [hmeasure]
  rfl

/-! ## Sections -/

theorem rdU32_avoids_at {p k : BitVec 64} (h : p.toNat + k.toNat + 4 ≤ f.bytes.length) :
    Avoids .outOfBounds (f.rdU32 (p + k)) := by
  have hlen := f.short
  refine rd_avoids ?_
  rw [BitVec.toNat_add]
  omega

/-- A section header's offset stays far below a wrap. -/
theorem shEntry_lt (t : ShTable) (hi : i < 0x10000) : (t.entry i).toNat < 0x1000000000 := by
  have hoff := t.shoff.isLt
  have hsize := t.shentsize.isLt
  have hmul : i * t.shentsize.toNat ≤ 0xffff * 0xffff := Nat.mul_le_mul (by omega) (by omega)
  unfold ShTable.entry
  rw [BitVec.toNat_add, BitVec.toNat_mul, BitVec.toNat_ofNat, BitVec.toNat_setWidth, BitVec.toNat_setWidth,
    Nat.mod_eq_of_lt (show i < _ by omega), Nat.mod_eq_of_lt (show t.shentsize.toNat < _ by omega)]
  omega

/-- A section header that passes the check lies inside the file. -/
theorem shEntry_inside {t : ShTable} (hi : i < 0x10000) (h : ¬f.len.ult (t.entry i + ELF_SHSIZE) = true) :
    (t.entry i).toNat + 40 ≤ f.bytes.length := by
  have hlt := shEntry_lt t hi
  have hle := le_of_not_ult h
  rw [BitVec.toNat_add, show ELF_SHSIZE.toNat = 40 from rfl] at hle
  omega

theorem add_inside {a b : BitVec 32} (h : ¬f.len.ult (a.setWidth 64 + b.setWidth 64) = true) :
    a.toNat + b.toNat ≤ f.bytes.length := by
  have ha := a.isLt
  have hb := b.isLt
  have hle := le_of_not_ult h
  rw [BitVec.toNat_add, BitVec.toNat_setWidth, BitVec.toNat_setWidth] at hle
  omega

theorem link_lt {t : ShTable} {link : BitVec 32} {c : Prop} (h : ¬(c ∨ (!link.ult (t.shnum.setWidth 32)) = true)) :
    link.toNat < 0x10000 := by
  have hnum := t.shnum.isLt
  simp only [not_or, Bool.not_eq_true', Bool.not_eq_false, BitVec.ult_eq_decide, decide_eq_true_eq,
    BitVec.toNat_setWidth] at h
  omega

theorem sectionAt_avoids (t : ShTable) (hi : i < 0x10000) : Avoids .outOfBounds (f.sectionAt t i) := by
  refine .ite (fun _ => .ok _) fun hsh => ?_
  have hin := shEntry_inside hi hsh
  have hfield : ∀ k : BitVec 64, k.toNat + 4 ≤ 40 → Avoids .outOfBounds (f.rdU32 (t.entry i + k)) :=
    fun k hk => rdU32_avoids_at (by omega)
  refine (hfield 4 (by decide)).bind fun type _ => .ite (fun _ => .ok _) fun _ => ?_
  refine (hfield 16 (by decide)).bind fun symOff _ => (hfield 20 (by decide)).bind fun symSize _ =>
    (hfield 24 (by decide)).bind fun link _ => (hfield 36 (by decide)).bind fun entsize _ => ?_
  refine .ite (fun _ => .ok _) fun hlink => .ite (fun _ => .ok _) fun _ => .ite (fun _ => .ok _) fun hlsh => ?_
  have hin' := shEntry_inside (link_lt hlink) hlsh
  have hfield' : ∀ k : BitVec 64, k.toNat + 4 ≤ 40 → Avoids .outOfBounds (f.rdU32 (t.entry link.toNat + k)) :=
    fun k hk => rdU32_avoids_at (by omega)
  exact (hfield' 16 (by decide)).bind fun strOff _ => (hfield' 20 (by decide)).bind fun strSize _ =>
    .ite (fun _ => .ok _) fun _ => .ok _

/-- Both tables of a symbol section lie inside the file. -/
structure TablesInside (f : File) (t : SymTab) : Prop where
  symbols : t.symOff.toNat + t.symSize.toNat ≤ f.bytes.length
  strings : t.strOff.toNat + t.strSize.toNat ≤ f.bytes.length

theorem tablesInside_of_sectionAt {t : ShTable} {tab : SymTab} (h : f.sectionAt t i = .ok (.table tab)) :
    f.TablesInside tab := by
  unfold sectionAt at h
  dsimp only at h
  split at h
  · cases h
  obtain ⟨type, _, h⟩ := bind_eq_ok.mp h
  split at h
  · cases h
  obtain ⟨symOff, _, h⟩ := bind_eq_ok.mp h
  obtain ⟨symSize, _, h⟩ := bind_eq_ok.mp h
  obtain ⟨link, _, h⟩ := bind_eq_ok.mp h
  obtain ⟨entsize, _, h⟩ := bind_eq_ok.mp h
  split at h
  · cases h
  split at h
  · cases h
  next hsym =>
  split at h
  · cases h
  obtain ⟨strOff, _, h⟩ := bind_eq_ok.mp h
  obtain ⟨strSize, _, h⟩ := bind_eq_ok.mp h
  split at h
  · cases h
  next hstr =>
  cases h
  exact ⟨add_inside hsym, add_inside hstr⟩

/-! ## Symbol entries -/

theorem cstr_avoids {avail : Nat} (h : p.toNat + avail ≤ f.bytes.length) :
    Avoids .outOfBounds (f.cstr p avail) := by
  induction avail generalizing p with
  | zero => exact .ok _
  | succ n ih =>
    have hp : p.toNat < f.bytes.length := by omega
    refine (byte_avoids hp).bind fun b _ => .ite (fun _ => .ok _) fun _ => ?_
    refine Avoids.bind (ih ?_) fun rest _ => .ok _
    rw [toNat_succ hp]
    omega

theorem toNat_add_setWidth (a b : BitVec 32) : (a.setWidth 64 + b.setWidth 64).toNat = a.toNat + b.toNat := by
  have ha := a.isLt
  have hb := b.isLt
  rw [BitVec.toNat_add, BitVec.toNat_setWidth, BitVec.toNat_setWidth]
  omega

/-- What the lookup reads of the entry at `off` is inside the file: the name's offset, and the value
if the name matches. -/
structure EntryInside (f : File) (t : SymTab) (name : List Byte) (off : BitVec 32) : Prop where
  stName : t.symOff.toNat + off.toNat + 4 ≤ f.bytes.length
  stValue : f.nameMatches t name off = .ok true → t.symOff.toNat + off.toNat + 8 ≤ f.bytes.length

variable {t : SymTab} {name : List Byte} {off : BitVec 32}

theorem nameMatches_avoids (ht : f.TablesInside t) (h : t.symOff.toNat + off.toNat + 4 ≤ f.bytes.length) :
    Avoids .outOfBounds (f.nameMatches t name off) := by
  have hname : Avoids .outOfBounds (f.rdU32 (t.symOff.setWidth 64 + off.setWidth 64)) :=
    rd_avoids (by rw [toNat_add_setWidth]; exact h)
  refine hname.bind fun stName _ => .ite (fun _ => .ok _) fun hst => ?_
  rw [Bool.not_eq_true', Bool.not_eq_false, BitVec.ult_eq_decide, decide_eq_true_eq] at hst
  have hstr := ht.strings
  have hcstr : Avoids .outOfBounds (f.cstr (t.strOff.setWidth 64 + stName.setWidth 64) (t.strSize - stName).toNat) := by
    refine cstr_avoids ?_
    have hsize := t.strSize.isLt
    rw [toNat_add_setWidth, BitVec.toNat_sub]
    omega
  refine hcstr.bind fun sym _ => ?_
  cases sym with
  | none => exact .ok _
  | some sym => exact .ok _

theorem symbolAt_avoids (ht : f.TablesInside t) (h : f.EntryInside t name off) :
    Avoids .outOfBounds (f.symbolAt t name off) := by
  refine (nameMatches_avoids ht h.stName).bind fun found hfound => .ite (fun hf => ?_) fun _ => .ok _
  subst hf
  have hvalue := h.stValue hfound
  have hsum := toNat_add_setWidth t.symOff off
  refine (rdU32_avoids_at ?_).bind fun value _ => .ok _
  rw [hsum]
  exact hvalue

theorem symbolAt_outOfBounds (h : ¬f.EntryInside t name off) : f.symbolAt t name off = .error .outOfBounds := by
  have hsum := toNat_add_setWidth t.symOff off
  have hlen := f.short
  by_cases h4 : t.symOff.toNat + off.toNat + 4 ≤ f.bytes.length
  · have hvalue : f.nameMatches t name off = .ok true ∧ ¬t.symOff.toNat + off.toNat + 8 ≤ f.bytes.length := by
      by_contra hno
      exact h ⟨h4, fun hm => by_contra fun h8 => hno ⟨hm, h8⟩⟩
    have hrd : f.rdU32 (t.symOff.setWidth 64 + off.setWidth 64 + 4) = .error .outOfBounds := by
      refine rd_outOfBounds ?_ (by decide)
      rw [BitVec.toNat_add, hsum, show (4 : BitVec 64).toNat = 4 from rfl]
      omega
    unfold symbolAt
    rw [hvalue.1]
    show (f.rdU32 (t.symOff.setWidth 64 + off.setWidth 64 + 4) >>= _) = _
    rw [hrd]
    rfl
  · have hrd : f.rdU32 (t.symOff.setWidth 64 + off.setWidth 64) = .error .outOfBounds :=
      rd_outOfBounds (by rw [hsum]; omega) (by decide)
    unfold symbolAt nameMatches
    rw [hrd]
    rfl

end File

/-! ## The scan of one table -/

namespace SymTab

variable (t : SymTab)

/-- The `n`th offset of the scan; it wraps at 32 bits. -/
def offset (n : Nat) : BitVec 32 := BitVec.ofNat 32 n * t.entsize

/-- The loop goes on at offset `off`; the sum wraps at 32 bits. -/
def Continues (off : BitVec 32) : Prop := (off + ELF_SYMSIZE).ule t.symSize = true

theorem offset_zero : t.offset 0 = 0 := by
  unfold offset
  simp

theorem offset_succ (n : Nat) : t.offset (n + 1) = t.offset n + t.entsize := by
  unfold offset
  rw [BitVec.ofNat_add, BitVec.add_mul]
  simp

end SymTab

namespace File

variable {f : File} {t : SymTab} {name : List Byte}

/-- The scan passes the first `n` entries without finding the name. -/
def Scanned (f : File) (t : SymTab) (name : List Byte) (n : Nat) : Prop :=
  ∀ j < n, t.Continues (t.offset j) ∧ f.symbolAt t name (t.offset j) = .ok none

theorem Scanned.succ {n : Nat} (h : f.Scanned t name n) (hc : t.Continues (t.offset n))
    (hs : f.symbolAt t name (t.offset n) = .ok none) : f.Scanned t name (n + 1) := by
  intro j hj
  rcases Nat.lt_succ_iff_lt_or_eq.mp hj with hj | rfl
  · exact h j hj
  · exact ⟨hc, hs⟩

theorem scanSymbols_succ (fuel n : Nat) (hc : t.Continues (t.offset n)) :
    f.scanSymbols t name (fuel + 1) (t.offset n) =
      (f.symbolAt t name (t.offset n) >>= fun found =>
        match found with
        | some value => return some value
        | none => f.scanSymbols t name fuel (t.offset (n + 1))) := by
  rw [t.offset_succ]
  unfold SymTab.Continues at hc
  rw [scanSymbols, hc]
  rfl

theorem scanSymbols_ends (fuel n : Nat) (hc : ¬t.Continues (t.offset n)) :
    f.scanSymbols t name (fuel + 1) (t.offset n) = .ok none := by
  unfold SymTab.Continues at hc
  rw [scanSymbols, Bool.eq_false_iff.mpr hc]
  rfl

/-- A scan that has got past `n` entries is as good as one that starts there. -/
theorem scanSymbols_of_scanned {n : Nat} (h : f.Scanned t name n) (fuel : Nat) :
    f.scanSymbols t name (fuel + n) 0 = f.scanSymbols t name fuel (t.offset n) := by
  induction n generalizing fuel with
  | zero => rw [t.offset_zero]; rfl
  | succ n ih =>
    obtain ⟨hc, hs⟩ := h n (by omega)
    rw [show fuel + (n + 1) = fuel + 1 + n by omega, ih (fun j hj => h j (by omega)), scanSymbols_succ fuel n hc, hs]
    rfl

/-- Every entry the scan reaches is inside the file. -/
def ReachedInside (f : File) (t : SymTab) (name : List Byte) : Prop :=
  ∀ n, f.Scanned t name n → t.Continues (t.offset n) → f.EntryInside t name (t.offset n)

theorem scanSymbols_avoids (ht : f.TablesInside t) (h : f.ReachedInside t name) (fuel : Nat) {n : Nat}
    (hn : f.Scanned t name n) : Avoids .outOfBounds (f.scanSymbols t name fuel (t.offset n)) := by
  induction fuel generalizing n with
  | zero => exact .error (by decide)
  | succ fuel ih =>
    by_cases hc : t.Continues (t.offset n)
    · rw [scanSymbols_succ fuel n hc]
      refine (symbolAt_avoids ht (h n hn hc)).bind fun found hfound => ?_
      cases found with
      | some value => exact .ok _
      | none => exact ih (hn.succ hc hfound)
    · rw [scanSymbols_ends fuel n hc]
      exact .ok _

/-- A scan that ends without the name has passed entries up to one where the loop stops. -/
theorem exists_of_scanSymbols {fuel n : Nat} (hn : f.Scanned t name n)
    (h : f.scanSymbols t name fuel (t.offset n) = .ok none) :
    ∃ k, f.Scanned t name k ∧ ¬t.Continues (t.offset k) := by
  induction fuel generalizing n with
  | zero => cases h
  | succ fuel ih =>
    by_cases hc : t.Continues (t.offset n)
    · rw [scanSymbols_succ fuel n hc] at h
      obtain ⟨found, hfound, h⟩ := bind_eq_ok.mp h
      cases found with
      | some value => cases h
      | none => exact ih (hn.succ hc hfound) h
    · exact ⟨n, hn, hc⟩

/-- Without a wrap an entry the loop goes on at lies in its table. -/
theorem entryInside_of_continues {off : BitVec 32} (ht : f.TablesInside t) (hc : t.Continues off)
    (hwrap : off.toNat + 16 < 0x100000000) : f.EntryInside t name off := by
  have hsym := ht.symbols
  unfold SymTab.Continues at hc
  rw [BitVec.ule_eq_decide, decide_eq_true_eq, BitVec.toNat_add, show ELF_SYMSIZE.toNat = 16 from rfl] at hc
  exact ⟨by omega, fun _ => by omega⟩

/-! ## The scan of the sections -/

variable {sh : ShTable}

/-- The lookup passes section `i`: it is no symbol table, or one without the name. -/
def Passed (f : File) (sh : ShTable) (name : List Byte) (i : Nat) : Prop :=
  f.sectionAt sh i = .ok .other ∨
  ∃ t n, f.sectionAt sh i = .ok (.table t) ∧ f.Scanned t name n ∧ ¬t.Continues (t.offset n)

/-- In every symbol table the lookup comes to, no offset it reaches is within 16 of 2 ^ 32, unless the
file is so long that the entry is inside it all the same. -/
def OffsetsFit (f : File) (sh : ShTable) (name : List Byte) : Prop :=
  ∀ i < sh.shnum.toNat, (∀ j < i, f.Passed sh name j) → ∀ t, f.sectionAt sh i = .ok (.table t) →
    ∀ n, f.Scanned t name n → t.Continues (t.offset n) →
      (t.offset n).toNat + 16 < 0x100000000 ∨ f.EntryInside t name (t.offset n)

theorem OffsetsFit.reachedInside (h : f.OffsetsFit sh name) {i : Nat} (hi : i < sh.shnum.toNat)
    (hp : ∀ j < i, f.Passed sh name j) (hs : f.sectionAt sh i = .ok (.table t)) : f.ReachedInside t name := by
  intro n hn hc
  rcases h i hi hp t hs n hn hc with hwrap | hin
  · exact entryInside_of_continues (tablesInside_of_sectionAt hs) hc hwrap
  · exact hin

theorem scanSections_avoids (h : f.OffsetsFit sh name) (fuel k : Nat) {i : Nat} (hi : i + k = sh.shnum.toNat)
    (hp : ∀ j < i, f.Passed sh name j) : Avoids .outOfBounds (f.scanSections sh name fuel (List.range' i k)) := by
  induction k generalizing i with
  | zero => exact .ok _
  | succ k ih =>
    have hnum := sh.shnum.isLt
    rw [List.range'_succ, scanSections]
    have hnext : f.Passed sh name i → Avoids .outOfBounds (f.scanSections sh name fuel (List.range' (i + 1) k)) := by
      intro hpi
      refine ih (by omega) fun j hj => ?_
      rcases Nat.lt_succ_iff_lt_or_eq.mp hj with hj | rfl
      · exact hp j hj
      · exact hpi
    refine (sectionAt_avoids sh (by omega)).bind fun sec hsec => ?_
    cases sec with
    | other => exact hnext (Or.inl hsec)
    | stop => exact .ok _
    | table t =>
      have h0 : f.Scanned t name 0 := fun j hj => absurd hj (Nat.not_lt_zero j)
      have hscan : Avoids .outOfBounds (f.scanSymbols t name fuel 0) := by
        rw [← t.offset_zero]
        exact scanSymbols_avoids (tablesInside_of_sectionAt hsec) (h.reachedInside (by omega) hp hsec) fuel h0
      refine hscan.bind fun found hfound => ?_
      cases found with
      | some value => exact .ok _
      | none =>
        rw [← t.offset_zero] at hfound
        obtain ⟨n, hn, hc⟩ := exists_of_scanSymbols h0 hfound
        exact hnext (Or.inr ⟨t, n, hsec, hn, hc⟩)

/-- With enough fuel the lookup gets past the sections it passes. -/
theorem exists_fuel_of_passed {i : Nat} (hp : ∀ j < i, f.Passed sh name j) : ∃ F, ∀ fuel, F ≤ fuel → ∀ k,
    f.scanSections sh name fuel (List.range' 0 (i + k)) = f.scanSections sh name fuel (List.range' i k) := by
  induction i with
  | zero => exact ⟨0, fun fuel _ k => by rw [Nat.zero_add]⟩
  | succ i ih =>
    obtain ⟨F, hF⟩ := ih fun j hj => hp j (by omega)
    have hstep : ∃ G, ∀ fuel, G ≤ fuel → ∀ k,
        f.scanSections sh name fuel (List.range' i (k + 1)) = f.scanSections sh name fuel (List.range' (i + 1) k) := by
      rcases hp i (by omega) with hs | ⟨t, n, hs, hn, hc⟩
      · refine ⟨0, fun fuel _ k => ?_⟩
        rw [List.range'_succ, scanSections, hs]
        rfl
      · refine ⟨n + 1, fun fuel hle k => ?_⟩
        have hscan : f.scanSymbols t name fuel 0 = .ok none := by
          obtain ⟨d, rfl⟩ := Nat.exists_eq_add_of_le hle
          rw [show n + 1 + d = d + 1 + n by omega, scanSymbols_of_scanned hn, scanSymbols_ends d n hc]
        rw [List.range'_succ, scanSections, hs]
        show (f.scanSymbols t name fuel 0 >>= _) = _
        rw [hscan]
        rfl
    obtain ⟨G, hG⟩ := hstep
    refine ⟨max F G, fun fuel hle k => ?_⟩
    rw [show i + 1 + k = i + (k + 1) by omega, hF fuel (by omega) (k + 1), hG fuel (by omega) k]

/-- An offset that wraps passes the check and its entry is read outside the file. -/
theorem scanSections_outOfBounds {i : Nat} (hi : i < sh.shnum.toNat) (hp : ∀ j < i, f.Passed sh name j)
    (hs : f.sectionAt sh i = .ok (.table t)) {n : Nat} (hn : f.Scanned t name n) (hc : t.Continues (t.offset n))
    (hout : ¬f.EntryInside t name (t.offset n)) :
    ∃ fuel, f.scanSections sh name fuel (List.range sh.shnum.toNat) = .error .outOfBounds := by
  obtain ⟨F, hF⟩ := exists_fuel_of_passed hp
  refine ⟨F + 1 + n, ?_⟩
  obtain ⟨k, hk⟩ : ∃ k, sh.shnum.toNat = i + (k + 1) := ⟨sh.shnum.toNat - i - 1, by omega⟩
  have hscan : f.scanSymbols t name (F + 1 + n) 0 = .error .outOfBounds := by
    rw [scanSymbols_of_scanned hn, scanSymbols_succ F n hc, symbolAt_outOfBounds hout]
    rfl
  rw [List.range_eq_range', hk, hF _ (by omega), List.range'_succ, scanSections, hs]
  show (f.scanSymbols t name (F + 1 + n) 0 >>= _) = _
  rw [hscan]
  rfl

/-! ## The parser as a whole -/

/-- The lookup walks the section table `sh`: the file is ELF32 and has one. -/
structure Walks (f : File) (sh : ShTable) : Prop where
  class32 : f.checkHeader = .ok false
  table : f.readShTable = .ok sh
  present : ¬(sh.shoff = 0 ∨ sh.shnum = 0 ∨ (sh.shentsize.setWidth 64).ult ELF_SHSIZE = true)

theorem readShTable_avoids (h : 52 ≤ f.bytes.length) : Avoids .outOfBounds f.readShTable :=
  (rd_avoids (Nat.le_trans (by decide) h)).bind fun _ _ => (rd_avoids (Nat.le_trans (by decide) h)).bind fun _ _ =>
    (rd_avoids (Nat.le_trans (by decide) h)).bind fun _ _ => .ok _

theorem elfSymbol_avoids (h : ∀ sh, f.Walks sh → f.OffsetsFit sh name) (fuel : Nat) :
    Avoids .outOfBounds (f.elfSymbol name fuel) := by
  refine f.checkHeader_avoids.bind fun is64 hh => .ite (fun _ => .ok _) fun h32 => ?_
  rw [Bool.not_eq_true] at h32
  subst h32
  refine (readShTable_avoids (length_of_checkHeader hh).1).bind fun sh hsh => .ite (fun _ => .ok _) fun hpresent => ?_
  rw [List.range_eq_range']
  exact scanSections_avoids (h sh ⟨hh, hsh, hpresent⟩) fuel _ (by omega) fun j hj => absurd hj (Nat.not_lt_zero j)

theorem elfSymbol_of_walks (h : f.Walks sh) (fuel : Nat) :
    f.elfSymbol name fuel = f.scanSections sh name fuel (List.range sh.shnum.toNat) := by
  unfold elfSymbol
  rw [h.class32]
  show (f.readShTable >>= _) = _
  rw [h.table]
  exact if_neg h.present

/-- Loading and looking up stay inside the file exactly when the end of the first program header does
not wrap and neither does the end of a symbol entry. -/
theorem reads_inside_iff (f : File) :
    ((∀ calloc minSize, f.elfLoad calloc minSize ≠ .error .outOfBounds) ∧
      ∀ name fuel, f.elfSymbol name fuel ≠ .error .outOfBounds) ↔
    f.TableFits ∧ ∀ sh, f.Walks sh → ∀ name, f.OffsetsFit sh name := by
  constructor
  · rintro ⟨hload, hsymbol⟩
    constructor
    · intro t ht hn
      by_contra hwrap
      exact hload (fun _ => true) 0 (elfLoad_outOfBounds ht hn hwrap _ _)
    · intro sh hw name i hi hp t hs n hn hc
      by_contra hno
      rw [not_or] at hno
      obtain ⟨fuel, hfuel⟩ := scanSections_outOfBounds hi hp hs hn hc hno.2
      exact hsymbol name fuel ((elfSymbol_of_walks hw fuel).trans hfuel)
  · rintro ⟨htable, hoffsets⟩
    exact ⟨elfLoad_avoids htable, fun name fuel => elfSymbol_avoids (fun sh hw => hoffsets sh hw name) fuel⟩

end File

/-- An ELF64 header whose program-header table starts 32 bytes below 2 ^ 64. -/
def farTableFile : File := ⟨elf64Header 0xffffffffffffffe0 1, by decide +kernel⟩

/-- An ELF32 file with one section: a symbol table over the file itself with entries of 2 ^ 32 - 8 bytes. -/
def wideEntryFile : File :=
  ⟨[0x7f, 0x45, 0x4c, 0x46, 1, 1] ++ field 0 10 ++ field 2 2 ++ field 243 2 ++ field 1 4 ++ field 0 8 ++ field 52 4 ++
    field 0 10 ++ field 40 2 ++ field 1 2 ++ field 0 2 ++
    (field 0 4 ++ field 2 4 ++ field 0 8 ++ field 0 4 ++ field 64 4 ++ field 0 4 ++ field 0 8 ++ field 0xfffffff8 4),
    by decide +kernel⟩

/-- Both checks can wrap: the header is read 32 bytes before the buffer, and the second symbol entry
4 GiB after it. -/
theorem wrapped_checks_read_outside :
    farTableFile.elfLoad (fun _ => true) 0 = .error .outOfBounds ∧
    wideEntryFile.elfSymbol [0x61] 2 = .error .outOfBounds :=
  ⟨eq_error_of_failure (by decide +kernel), eq_error_of_failure (by decide +kernel)⟩

end Quanta.Elf
