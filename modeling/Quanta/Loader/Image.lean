/-
What a loaded ELF file is. When `elf_load` succeeds, guest memory is exactly the PT_LOAD segments,
with room above them, unless the end of a segment wraps: the first pass adds address and size in 64
bits, so a segment past the top of the address space is measured as ending low and slips through.
-/
import Mathlib.Data.List.Pairwise
import Quanta.Lib.Fallible
import Quanta.Loader.Elf

namespace Quanta

open Fallible

/-- The byte at guest address `a`. -/
def Memory.guest (mem : Memory) (a : Nat) : Byte := mem.data (a - mem.base.toNat)

namespace Elf

/-! ## What should be loaded -/

namespace Phdr

variable (s s' : Phdr)

/-- The first address above the segment, over the integers. -/
def limit : Nat := s.vaddr.toNat + s.memsz.toNat

/-- The segment covers address `a`. -/
def Covers (a : Nat) : Prop := s.vaddr.toNat ≤ a ∧ a < s.limit

/-- No address is covered by both. -/
def Disjoint : Prop := ∀ a, s.Covers a → ¬s'.Covers a

instance : Std.Symm Disjoint := ⟨fun _ _ h a h' hs => h a hs h'⟩

end Phdr

namespace File

variable (f : File)

/-- The segment of program header `i`, if it is one. -/
def segment? (t : PhTable) (i : Nat) : Option Phdr :=
  match f.segmentAt t i with
  | .ok s => s
  | .error _ => none

/-- The PT_LOAD segments of the file, in order. -/
def loads : List Phdr :=
  match f.phTable with
  | .ok t => (List.range t.phnum.toNat).filterMap (f.segment? t)
  | .error _ => []

end File

/-- Guest memory holds exactly these segments of the file, with the room asked for. -/
structure Image.Exact (f : File) (segs : List Phdr) (minSize : BitVec 32) (r : Image) : Prop where
  inside : ∀ s ∈ segs, r.mem.base.toNat ≤ s.vaddr.toNat ∧ s.limit ≤ r.mem.base.toNat + r.mem.size.toNat
  contents : segs.Pairwise Phdr.Disjoint →
    (∀ s ∈ segs, ∀ i < s.filesz.toNat,
      f.bytes[s.offset.toNat + i]? = some (r.mem.guest (s.vaddr.toNat + i))) ∧
    (∀ s ∈ segs, ∀ i, s.filesz.toNat ≤ i → i < s.memsz.toNat → r.mem.guest (s.vaddr.toNat + i) = 0) ∧
    (∀ a, r.mem.base.toNat ≤ a → a < r.mem.base.toNat + r.mem.size.toNat → (∀ s ∈ segs, ¬s.Covers a) →
      r.mem.guest a = 0)
  entry : r.mem.base.toNat ≤ r.entry.toNat ∧ r.entry.toNat < r.mem.base.toNat + r.mem.size.toNat
  room : minSize.toNat ≤ r.mem.size.toNat ∧
    ∀ s ∈ segs, s.limit + 64 * 1024 ≤ r.mem.base.toNat + r.mem.size.toNat

/-! ## The first pass -/

/-- The segment's bytes are in the file and fit its size in memory. -/
structure Phdr.Accepted (f : File) (s : Phdr) : Prop where
  inFile : s.offset.toNat + s.filesz.toNat ≤ f.bytes.length
  fits : s.filesz.toNat ≤ s.memsz.toNat

/-- The span grown by one segment; the end of the segment wraps. -/
def Span.add (acc : Span) (s : Phdr) : Span where
  lo := if s.vaddr.ult acc.lo then s.vaddr else acc.lo
  hi := if acc.hi.ult (s.vaddr + s.memsz) then s.vaddr + s.memsz else acc.hi
  loaded := acc.loaded + 1

namespace File

variable {f : File} {t : PhTable}

theorem toNat_len (f : File) : f.len.toNat = f.bytes.length := by
  unfold len
  rw [BitVec.toNat_ofNat]
  exact Nat.mod_eq_of_lt (Nat.lt_trans f.short (by decide))

theorem measureOne_ok {acc acc' : Span} {i : Nat} (h : f.measureOne t acc i = .ok acc') :
    (t.entry i + t.phsizeMin).toNat ≤ f.bytes.length ∧
    ((f.segmentAt t i = .ok none ∧ acc' = acc) ∨
      ∃ s, f.segmentAt t i = .ok (some s) ∧ s.Accepted f ∧ acc' = acc.add s) := by
  unfold measureOne at h
  split at h
  · cases h
  · next hend =>
    rw [BitVec.ult_eq_decide, decide_eq_true_eq, toNat_len, Nat.not_lt] at hend
    refine ⟨hend, ?_⟩
    obtain ⟨o, ho, h⟩ := bind_eq_ok.mp h
    cases o with
    | none =>
      cases h
      exact Or.inl ⟨ho, rfl⟩
    | some s =>
      dsimp only at h
      split at h
      · cases h
      next hfile =>
      split at h
      · cases h
      next hsize =>
      cases h
      refine Or.inr ⟨s, ho, ⟨?_, ?_⟩, rfl⟩
      · simp only [BitVec.ult_eq_decide, decide_eq_true_eq, BitVec.toNat_sub, toNat_len] at hfile
        have hlen := f.short
        have hoff := s.offset.isLt
        omega
      · rw [BitVec.ult_eq_decide, decide_eq_true_eq] at hsize
        omega

theorem segment?_eq {i : Nat} {o : Option Phdr} (h : f.segmentAt t i = .ok o) : f.segment? t i = o := by
  unfold segment?
  rw [h]

/-- A successful first pass has accepted every segment and measured them all. -/
theorem measure_fold {l : List Nat} {acc acc' : Span} (h : l.foldlM (f.measureOne t) acc = .ok acc') :
    (∀ s ∈ l.filterMap (f.segment? t), s.Accepted f) ∧ acc' = (l.filterMap (f.segment? t)).foldl Span.add acc := by
  induction l generalizing acc with
  | nil =>
    cases h
    exact ⟨nofun, rfl⟩
  | cons i l ih =>
    rw [List.foldlM_cons] at h
    obtain ⟨acc1, h1, h2⟩ := bind_eq_ok.mp h
    obtain ⟨hacc, hfold⟩ := ih h2
    rcases (measureOne_ok h1).2 with ⟨hs, rfl⟩ | ⟨s, hs, has, rfl⟩
    · rw [List.filterMap_cons_none (segment?_eq hs)]
      exact ⟨hacc, hfold⟩
    · rw [List.filterMap_cons_some (segment?_eq hs)]
      refine ⟨fun s' hs' => ?_, hfold⟩
      rcases List.mem_cons.mp hs' with rfl | hs'
      · exact has
      · exact hacc s' hs'

end File

namespace Span

variable {acc : Span} {segs : List Phdr}

theorem foldl_add_loaded : (segs.foldl add acc).loaded = acc.loaded + segs.length := by
  induction segs generalizing acc with
  | nil => rfl
  | cons s segs ih =>
    rw [List.foldl_cons, ih, List.length_cons]
    show acc.loaded + 1 + segs.length = _
    omega

theorem lo_foldl_add_le : (segs.foldl add acc).lo.toNat ≤ acc.lo.toNat ∧
    ∀ s ∈ segs, (segs.foldl add acc).lo.toNat ≤ s.vaddr.toNat := by
  induction segs generalizing acc with
  | nil => exact ⟨Nat.le_refl _, nofun⟩
  | cons s segs ih =>
    obtain ⟨hacc, hall⟩ := @ih (acc.add s)
    have hadd : (acc.add s).lo.toNat ≤ acc.lo.toNat ∧ (acc.add s).lo.toNat ≤ s.vaddr.toNat := by
      unfold add
      dsimp only
      split <;> next h => rw [BitVec.ult_eq_decide, decide_eq_true_eq] at h; omega
    refine ⟨Nat.le_trans hacc hadd.1, fun s' hs' => ?_⟩
    rcases List.mem_cons.mp hs' with rfl | hs'
    · exact Nat.le_trans hacc hadd.2
    · exact hall s' hs'

theorem le_hi_foldl_add : acc.hi.toNat ≤ (segs.foldl add acc).hi.toNat ∧
    ∀ s ∈ segs, (s.vaddr + s.memsz).toNat ≤ (segs.foldl add acc).hi.toNat := by
  induction segs generalizing acc with
  | nil => exact ⟨Nat.le_refl _, nofun⟩
  | cons s segs ih =>
    obtain ⟨hacc, hall⟩ := @ih (acc.add s)
    have hadd : acc.hi.toNat ≤ (acc.add s).hi.toNat ∧ (s.vaddr + s.memsz).toNat ≤ (acc.add s).hi.toNat := by
      unfold add
      dsimp only
      split <;> next h => rw [BitVec.ult_eq_decide, decide_eq_true_eq] at h; omega
    refine ⟨Nat.le_trans hadd.1 hacc, fun s' hs' => ?_⟩
    rcases List.mem_cons.mp hs' with rfl | hs'
    · exact Nat.le_trans hadd.2 hacc
    · exact hall s' hs'

end Span

/-! ## The second pass -/

end Elf

/-- A copy that fits lands at its address and changes nothing else. -/
theorem memLoad_ok {mem mem' : Memory} {addr : BitVec 64} {src : List Byte} (hlen : src.length < 0x10000000000000000)
    (h : memLoad mem addr src = (true, mem')) :
    mem.base.toNat ≤ addr.toNat ∧ addr.toNat + src.length ≤ mem.base.toNat + mem.size.toNat ∧
    mem' = { mem with data := writeBytes mem.data (addr.toNat - mem.base.toNat) src } := by
  unfold memLoad Memory.translate at h
  have hsrc : (BitVec.ofNat 64 src.length).toNat = src.length := by
    rw [BitVec.toNat_ofNat]
    exact Nat.mod_eq_of_lt hlen
  split at h
  · cases h
  · next i hi =>
    split at hi
    · cases hi
    · next hc =>
      cases hi
      cases h
      simp only [Bool.or_eq_true, BitVec.ult_eq_decide, decide_eq_true_eq, BitVec.toNat_sub, hsrc] at hc
      have hbase := mem.base.isLt
      have haddr := addr.isLt
      have hsize := mem.size.isLt
      have hsub : (addr - mem.base).toNat = addr.toNat - mem.base.toNat := by
        rw [BitVec.toNat_sub]
        omega
      refine ⟨by omega, by omega, ?_⟩
      rw [hsub]

namespace Elf

/-- The bytes of a segment that are in the file. -/
def Phdr.fileBytes (f : File) (s : Phdr) : List Byte := (f.bytes.drop s.offset.toNat).take s.filesz.toNat

theorem Phdr.Accepted.length_fileBytes {f : File} {s : Phdr} (h : s.Accepted f) :
    (s.fileBytes f).length = s.filesz.toNat := by
  unfold fileBytes
  rw [List.length_take, List.length_drop]
  have hf := h.inFile
  omega

/-- RAM that starts at `base` with a segment copied in. -/
def overlay (f : File) (base : Nat) (data : Nat → Byte) (s : Phdr) : Nat → Byte :=
  writeBytes data (s.vaddr.toNat - base) (s.fileBytes f)

namespace File

variable {f : File} {t : PhTable}

theorem copyOne_ok {mem mem' : Memory} {i : Nat} (h : f.copyOne t mem i = .ok mem')
    (hacc : ∀ s, f.segment? t i = some s → s.Accepted f) :
    mem' = { mem with data := (f.segment? t i).elim mem.data (overlay f mem.base.toNat mem.data) } := by
  unfold copyOne at h
  obtain ⟨o, ho, h⟩ := bind_eq_ok.mp h
  rw [segment?_eq ho] at hacc ⊢
  cases o with
  | none =>
    cases h
    rfl
  | some s =>
    dsimp only at h
    have hs := hacc s rfl
    split at h
    · next h0 =>
      cases h
      have hnil : s.fileBytes f = [] := by
        unfold Phdr.fileBytes
        rw [h0]
        rfl
      have hsame : overlay f mem.base.toNat mem.data s = mem.data := by
        unfold overlay
        rw [hnil]
        funext j
        exact if_neg (by simp)
      rw [Option.elim_some, hsame]
    · obtain ⟨src, hsrc, h⟩ := bind_eq_ok.mp h
      have heq : src = s.fileBytes f := by
        unfold slice at hsrc
        rw [if_pos hs.inFile] at hsrc
        cases hsrc
        rfl
      subst heq
      have hlen : (s.fileBytes f).length < 0x10000000000000000 := by
        rw [hs.length_fileBytes]
        exact s.filesz.isLt
      cases hload : memLoad mem s.vaddr (s.fileBytes f) with
      | mk fits mem1 =>
        rw [hload] at h
        cases fits with
        | false => cases h
        | true =>
          cases h
          exact (memLoad_ok hlen hload).2.2

/-- A successful second pass has copied every segment, in order. -/
theorem copy_fold {l : List Nat} {mem mem' : Memory} (h : l.foldlM (f.copyOne t) mem = .ok mem')
    (hacc : ∀ s ∈ l.filterMap (f.segment? t), s.Accepted f) :
    mem' = { mem with data := (l.filterMap (f.segment? t)).foldl (overlay f mem.base.toNat) mem.data } := by
  induction l generalizing mem with
  | nil =>
    cases h
    rfl
  | cons i l ih =>
    rw [List.foldlM_cons] at h
    obtain ⟨mem1, h1, h2⟩ := bind_eq_ok.mp h
    cases hs : f.segment? t i with
    | none =>
      rw [List.filterMap_cons_none hs] at hacc ⊢
      have hone := copyOne_ok h1 (by rw [hs]; nofun)
      rw [hs] at hone
      rw [ih h2 hacc, hone]
      rfl
    | some s =>
      rw [List.filterMap_cons_some hs] at hacc ⊢
      have hone := copyOne_ok h1 (by rw [hs]; rintro s' ⟨⟩; exact hacc s List.mem_cons_self)
      rw [hs] at hone
      rw [ih h2 (fun s' hs' => hacc s' (List.mem_cons_of_mem _ hs')), hone]
      rfl

end File

/-! ## The bytes in memory -/

section Bytes

variable {f : File} {base : Nat} {data : Nat → Byte} {s : Phdr} {segs : List Phdr}

theorem overlay_of_not_covers (hacc : s.Accepted f) (hbase : base ≤ s.vaddr.toNat) {a : Nat} (ha : base ≤ a)
    (h : ¬(s.vaddr.toNat ≤ a ∧ a < s.vaddr.toNat + s.filesz.toNat)) :
    overlay f base data s (a - base) = data (a - base) := by
  unfold overlay writeBytes
  rw [hacc.length_fileBytes]
  exact if_neg (by omega)

/-- An address no file byte lands on keeps its byte. -/
theorem foldl_overlay_of_not_covers (hacc : ∀ s ∈ segs, s.Accepted f) (hbase : ∀ s ∈ segs, base ≤ s.vaddr.toNat)
    {a : Nat} (ha : base ≤ a) (h : ∀ s ∈ segs, ¬(s.vaddr.toNat ≤ a ∧ a < s.vaddr.toNat + s.filesz.toNat)) :
    segs.foldl (overlay f base) data (a - base) = data (a - base) := by
  induction segs generalizing data with
  | nil => rfl
  | cons s segs ih =>
    rw [List.forall_mem_cons] at hacc hbase h
    rw [List.foldl_cons, ih hacc.2 hbase.2 h.2, overlay_of_not_covers hacc.1 hbase.1 ha h.1]

theorem overlay_of_covers (hacc : s.Accepted f) (hbase : base ≤ s.vaddr.toNat) {i : Nat} (hi : i < s.filesz.toNat) :
    f.bytes[s.offset.toNat + i]? = some (overlay f base data s (s.vaddr.toNat + i - base)) := by
  have hin := hacc.inFile
  unfold overlay writeBytes
  rw [if_pos (by rw [hacc.length_fileBytes]; omega), show s.vaddr.toNat + i - base - (s.vaddr.toNat - base) = i by omega]
  unfold Phdr.fileBytes
  rw [List.getD_eq_getElem?_getD, List.getElem?_take_of_lt hi, List.getElem?_drop,
    List.getElem?_eq_getElem (by omega)]
  rfl

/-- With disjoint segments the last copy to land on an address is its segment's own. -/
theorem foldl_overlay_of_covers (hacc : ∀ s ∈ segs, s.Accepted f) (hbase : ∀ s ∈ segs, base ≤ s.vaddr.toNat)
    (hdisj : segs.Pairwise Phdr.Disjoint) (hs : s ∈ segs) {i : Nat} (hi : i < s.filesz.toNat) :
    f.bytes[s.offset.toNat + i]? = some (segs.foldl (overlay f base) data (s.vaddr.toNat + i - base)) := by
  induction segs generalizing data with
  | nil => cases hs
  | cons s' segs ih =>
    rw [List.forall_mem_cons] at hacc hbase
    rw [List.pairwise_cons] at hdisj
    rw [List.foldl_cons]
    rcases List.mem_cons.mp hs with rfl | hs
    · have hfits := hacc.1.fits
      rw [foldl_overlay_of_not_covers hacc.2 hbase.2 (by have := hbase.1; omega)]
      · exact overlay_of_covers hacc.1 hbase.1 hi
      · rintro s2 hs2 ⟨hlo, hhi⟩
        have hfits2 := (hacc.2 s2 hs2).fits
        exact hdisj.1 s2 hs2 (s.vaddr.toNat + i) ⟨by omega, by unfold Phdr.limit; omega⟩
          ⟨hlo, by unfold Phdr.limit; omega⟩
    · exact ih hacc.2 hbase.2 hdisj.2 hs

end Bytes

/-! ## A successful load -/

/-- The checks a successful load has passed. -/
structure File.Built (f : File) (minSize : BitVec 32) (r : Image) (t : PhTable) (acc : Span) : Prop where
  table : f.phTable = .ok t
  measured : f.measure t = .ok acc
  loaded : acc.loaded ≠ 0
  hi : acc.hi.toNat ≤ 0x100000000
  copied : f.copy t (memInit acc.lo (spanSize acc minSize)) = .ok r.mem
  low : r.mem.base.toNat ≤ r.entry.toNat
  high : r.entry.toNat < (r.mem.base + r.mem.size).toNat
  region : (acc.lo + spanSize acc minSize).toNat ≤ 0x100000000

namespace File

variable {f : File} {calloc : BitVec 64 → Bool} {minSize : BitVec 32} {r : Image}

theorem built_of_elfLoad (h : f.elfLoad calloc minSize = .ok r) : ∃ t acc, f.Built minSize r t acc := by
  unfold elfLoad at h
  obtain ⟨t, ht, h⟩ := bind_eq_ok.mp h
  obtain ⟨acc, hacc, h⟩ := bind_eq_ok.mp h
  split at h
  · cases h
  next hloaded =>
  split at h
  · cases h
  next hhi =>
  dsimp only at h
  split at h
  · cases h
  split at h
  · cases h
  next hspan =>
  split at h
  · cases h
  obtain ⟨mem, hmem, h⟩ := bind_eq_ok.mp h
  obtain ⟨entry, _, h⟩ := bind_eq_ok.mp h
  split at h
  · cases h
  next hentry =>
  cases h
  simp only [BitVec.ult_eq_decide, decide_eq_true_eq, Bool.not_eq_true', decide_eq_false_iff_not,
    not_or, Nat.not_lt, Nat.not_le] at hhi hspan hentry
  exact ⟨t, acc, ht, hacc, hloaded, hhi, hmem, hentry.1, hentry.2, hspan.2⟩

namespace Built

variable {t : PhTable} {acc : Span}

theorem loads_eq (h : f.Built minSize r t acc) : f.loads = (List.range t.phnum.toNat).filterMap (f.segment? t) := by
  unfold loads
  rw [h.table]

theorem accepted (h : f.Built minSize r t acc) : ∀ s ∈ f.loads, s.Accepted f := by
  rw [h.loads_eq]
  exact (measure_fold h.measured).1

theorem span_eq (h : f.Built minSize r t acc) : acc = f.loads.foldl Span.add ⟨BitVec.allOnes 64, 0, 0⟩ := by
  rw [h.loads_eq]
  exact (measure_fold h.measured).2

theorem mem_eq (h : f.Built minSize r t acc) :
    r.mem = { memInit acc.lo (spanSize acc minSize) with
      data := f.loads.foldl (overlay f acc.lo.toNat) fun _ => 0 } := by
  have hcopy := copy_fold h.copied (by rw [← h.loads_eq]; exact h.accepted)
  rw [← h.loads_eq] at hcopy
  exact hcopy

theorem base_eq (h : f.Built minSize r t acc) : r.mem.base = acc.lo := by rw [h.mem_eq]; rfl

theorem size_eq (h : f.Built minSize r t acc) : r.mem.size = spanSize acc minSize := by rw [h.mem_eq]; rfl

theorem base_le (h : f.Built minSize r t acc) : ∀ s ∈ f.loads, r.mem.base.toNat ≤ s.vaddr.toNat := by
  rw [h.base_eq, h.span_eq]
  exact Span.lo_foldl_add_le.2

theorem exists_load (h : f.Built minSize r t acc) : ∃ s, s ∈ f.loads := by
  have hloaded := h.loaded
  rw [h.span_eq, Span.foldl_add_loaded] at hloaded
  exact List.exists_mem_of_length_pos (by simpa [Nat.pos_iff_ne_zero] using hloaded)

/-- The region does not wrap: the entry point lies in it. -/
theorem limit_lt (h : f.Built minSize r t acc) : r.mem.base.toNat + r.mem.size.toNat ≤ 0x100000000 := by
  have hlow := h.low
  have hhigh := h.high
  have hregion := h.region
  rw [← h.base_eq, ← h.size_eq] at hregion
  have hsize := r.mem.size.isLt
  rw [BitVec.toNat_add] at hhigh hregion
  omega

theorem contents (h : f.Built minSize r t acc) (hdisj : f.loads.Pairwise Phdr.Disjoint) :
    (∀ s ∈ f.loads, ∀ i < s.filesz.toNat,
      f.bytes[s.offset.toNat + i]? = some (r.mem.guest (s.vaddr.toNat + i))) ∧
    (∀ s ∈ f.loads, ∀ i, s.filesz.toNat ≤ i → i < s.memsz.toNat → r.mem.guest (s.vaddr.toNat + i) = 0) ∧
    (∀ a, r.mem.base.toNat ≤ a → (∀ s ∈ f.loads, ¬s.Covers a) → r.mem.guest a = 0) := by
  have hacc := h.accepted
  have hguest : ∀ a, r.mem.guest a = f.loads.foldl (overlay f r.mem.base.toNat) (fun _ => 0) (a - r.mem.base.toNat) := by
    intro a
    unfold Memory.guest
    rw [h.base_eq, h.mem_eq]
  have hbase := h.base_le
  refine ⟨fun s hs i hi => ?_, fun s hs i hlo hhi => ?_, fun a ha hno => ?_⟩
  · rw [hguest]
    exact foldl_overlay_of_covers hacc hbase hdisj hs hi
  · -- the tail of a segment: the other segments do not reach it and its own bytes stop below
    rw [hguest]
    refine foldl_overlay_of_not_covers hacc hbase (by have := hbase s hs; omega) ?_
    rintro s' hs' ⟨hlo', hhi'⟩
    have hfits := (hacc s' hs').fits
    by_cases heq : s' = s
    · subst heq
      omega
    · have hd : Phdr.Disjoint s' s := hdisj.forall hs' hs heq
      exact hd (s.vaddr.toNat + i) ⟨hlo', by unfold Phdr.limit; omega⟩ ⟨by omega, by unfold Phdr.limit; omega⟩
  · rw [hguest]
    refine foldl_overlay_of_not_covers hacc hbase ha ?_
    rintro s hs ⟨hlo, hhi⟩
    have hfits := (hacc s hs).fits
    exact hno s hs ⟨hlo, by unfold Phdr.limit; omega⟩

/-- Without a wrap the measured span reaches above every segment, with the stack's room. -/
theorem room (h : f.Built minSize r t acc) (hwrap : ∀ s ∈ f.loads, s.limit < 0x10000000000000000) :
    minSize.toNat ≤ r.mem.size.toNat ∧
    ∀ s ∈ f.loads, s.limit + 64 * 1024 ≤ r.mem.base.toNat + r.mem.size.toNat := by
  have hhi : ∀ s ∈ f.loads, s.limit ≤ acc.hi.toNat := by
    intro s hs
    have hle : (s.vaddr + s.memsz).toNat ≤ acc.hi.toNat := by
      rw [h.span_eq]
      exact Span.le_hi_foldl_add.2 s hs
    have hw := hwrap s hs
    rw [BitVec.toNat_add] at hle
    unfold Phdr.limit at hw ⊢
    omega
  have hlo : acc.lo.toNat ≤ acc.hi.toNat := by
    obtain ⟨s, hs⟩ := h.exists_load
    have h1 := h.base_le s hs
    have h2 := hhi s hs
    rw [h.base_eq] at h1
    unfold Phdr.limit at h2
    omega
  have himage : (acc.hi - acc.lo + GUEST_STACK_SIZE).toNat = acc.hi.toNat - acc.lo.toNat + 64 * 1024 := by
    have hmax := h.hi
    rw [BitVec.toNat_add, BitVec.toNat_sub, show GUEST_STACK_SIZE.toNat = 64 * 1024 from rfl]
    have := acc.lo.isLt
    omega
  have hmin : (minSize.setWidth 64).toNat = minSize.toNat := by
    rw [BitVec.toNat_setWidth]
    exact Nat.mod_eq_of_lt (Nat.lt_trans minSize.isLt (by decide))
  have hsize : minSize.toNat ≤ r.mem.size.toNat ∧ acc.hi.toNat - acc.lo.toNat + 64 * 1024 ≤ r.mem.size.toNat := by
    rw [h.size_eq]
    unfold spanSize
    dsimp only
    split <;> next hc => rw [BitVec.ult_eq_decide, decide_eq_true_eq, himage, hmin] at hc; omega
  refine ⟨hsize.1, fun s hs => ?_⟩
  have h1 := hhi s hs
  rw [h.base_eq]
  omega

end Built

/-- A file that loads is in memory exactly as its segments say, as long as no segment's end wraps
around 2 ^ 64. -/
theorem load_exact_iff (h : f.elfLoad calloc minSize = .ok r) :
    r.Exact f f.loads minSize ↔ ∀ s ∈ f.loads, s.vaddr.toNat + s.memsz.toNat < 0x10000000000000000 := by
  obtain ⟨t, acc, hb⟩ := built_of_elfLoad h
  have hlim := hb.limit_lt
  constructor
  · intro hr s hs
    have hin := (hr.inside s hs).2
    unfold Phdr.limit at hin
    omega
  · intro hwrap
    have hroom := hb.room hwrap
    refine ⟨fun s hs => ⟨hb.base_le s hs, ?_⟩, fun hdisj => ?_, ⟨hb.low, ?_⟩, hroom⟩
    · have := hroom.2 s hs
      omega
    · obtain ⟨hfile, htail, hout⟩ := hb.contents hdisj
      exact ⟨hfile, htail, fun a ha _ => hout a ha⟩
    · have hhigh := hb.high
      rw [BitVec.toNat_add] at hhigh
      omega

end File

/-! Small ELF64 files: the header, one or two program headers, nothing else. -/

/-- `n` bytes of a field. -/
def field (v : BitVec 64) (n : Nat) : List Byte := Bytes.bytesLE n v

def elf64Header (phoff phnum : BitVec 64) : List Byte :=
  [0x7f, 0x45, 0x4c, 0x46, 2, 1] ++ field 0 10 ++ field 2 2 ++ field 243 2 ++ field 1 4 ++ field 0x1000 8 ++
  field phoff 8 ++ field 0 8 ++ field 0 4 ++ field 64 2 ++ field 56 2 ++ field phnum 2 ++ field 0 6

def elf64Phdr (s : Phdr) : List Byte :=
  field 1 4 ++ field 0 4 ++ field s.offset 8 ++ field s.vaddr 8 ++ field 0 8 ++ field s.filesz 8 ++
  field s.memsz 8 ++ field 0 8

/-- One segment of four file bytes and twelve zeros. -/
def plainFile : File := ⟨elf64Header 64 1 ++ elf64Phdr ⟨0, 0x1000, 4, 16⟩, by decide +kernel⟩

/-- The same with a second segment whose size is 2 ^ 64 - 0x1000. -/
def wrappingFile : File :=
  ⟨elf64Header 64 2 ++ (elf64Phdr ⟨0, 0x1000, 4, 16⟩ ++ elf64Phdr ⟨0, 0x1008, 0, 0xfffffffffffff000⟩),
    by decide +kernel⟩

theorem load_exact_plain : ∃ r, plainFile.elfLoad (fun _ => true) 0 = .ok r ∧ r.Exact plainFile plainFile.loads 0 := by
  obtain ⟨r, hr⟩ : ∃ r, plainFile.elfLoad (fun _ => true) 0 = .ok r := exists_of_isOk (by decide +kernel)
  have hwrap : ∀ s ∈ plainFile.loads, s.vaddr.toNat + s.memsz.toNat < 0x10000000000000000 := by decide +kernel
  exact ⟨r, hr, (File.load_exact_iff hr).mpr hwrap⟩

/-- The second segment ends at 2 ^ 64 + 8, far above guest memory, and the file loads. -/
theorem wrapping_segment_loads :
    ∃ r, wrappingFile.elfLoad (fun _ => true) 0 = .ok r ∧ ¬r.Exact wrappingFile wrappingFile.loads 0 := by
  obtain ⟨r, hr⟩ : ∃ r, wrappingFile.elfLoad (fun _ => true) 0 = .ok r := exists_of_isOk (by decide +kernel)
  obtain ⟨t, acc, hb⟩ := File.built_of_elfLoad hr
  refine ⟨r, hr, fun hexact => ?_⟩
  have hmem : (⟨0, 0x1008, 0, 0xfffffffffffff000⟩ : Phdr) ∈ wrappingFile.loads := by decide +kernel
  have hin := (hexact.inside _ hmem).2
  have hlim := hb.limit_lt
  have hbig : (⟨0, 0x1008, 0, 0xfffffffffffff000⟩ : Phdr).limit = 0x10000000000000008 := by decide
  omega

end Elf
end Quanta
