/-
The register packets of the gdb stub. A `G` or `P` that is answered OK reads back as the digits it
sent, for both widths. `G` writes field by field as it parses, so a malformed field leaves the
registers before it changed: the packet is all or nothing exactly when those held the same values.
-/
import Mathlib.Tactic
import Quanta.Engine.Runs
import Quanta.Gdb.Stub
import Quanta.Rv64.Words

namespace Quanta.Gdb

open GdbStub

variable (s : GdbStub) {args : List Byte} (q : Handle) (v : BitVec 64)

/-! ## Values through a register -/

theorem byteAt_lo32 {k : Nat} (hk : k < 4) : Bytes.byteAt (lo32 v) k = Bytes.byteAt v k := by
  apply BitVec.eq_of_getLsbD_eq
  intro i hi
  simp only [Bytes.getLsbD_byteAt, lo32, BitVec.getLsbD_setWidth]
  simp [show 8 * k + i < 32 by omega]

theorem lo32_xlenVal : lo32 (q.xlenVal v) = lo32 v := by
  unfold Handle.xlenVal
  split
  · rfl
  · have hmask : (0xffffffff : BitVec 64).setWidth 32 = BitVec.allOnes 32 := by decide
    unfold lo32
    rw [BitVec.setWidth_and, hmask, BitVec.and_allOnes]

theorem regBytes_le : s.regBytes ≤ 8 := by
  unfold regBytes
  split <;> omega

theorem regBytes_rv32 (h : (s.q.machine.harts 0).xlen = .rv32) : s.regBytes = 4 := by
  unfold regBytes Handle.quantaXlen
  rw [h]
  split <;> simp

/-- A register prints the low bytes of the value it was given. -/
theorem valToHexLe_xlenVal :
    valToHexLe (s.q.xlenVal v) s.regBytes = valToHexLe v s.regBytes := by
  apply valToHexLe_congr
  intro k hk
  cases h : (s.q.machine.harts 0).xlen with
  | rv64 =>
    unfold Handle.xlenVal
    rw [if_pos h]
  | rv32 =>
    rw [regBytes_rv32 s h] at hk
    rw [← byteAt_lo32 _ hk, lo32_xlenVal, byteAt_lo32 _ hk]

theorem valToHexLe_sextXlen :
    valToHexLe (sextXlen (s.q.machine.harts 0).xlen v) s.regBytes = valToHexLe v s.regBytes := by
  apply valToHexLe_congr
  intro k hk
  cases h : (s.q.machine.harts 0).xlen with
  | rv64 => rfl
  | rv32 =>
    rw [regBytes_rv32 s h] at hk
    rw [← byteAt_lo32 _ hk, CPU.lo32_sextXlen, byteAt_lo32 _ hk]

/-! ## Writing the fields -/

/-- Register `i` of the debugged hart. -/
def reg (q : Handle) (i : BitVec 5) : BitVec 64 := (q.machine.harts 0).regRead i

def pc (q : Handle) : BitVec 64 := (q.machine.harts 0).pc

/-- `q'` is `q` after the fields of `fields` were written to their registers. -/
structure Written (args : List Byte) (nb : Nat) (fields : List Nat) (q q' : Handle) : Prop where
  parsed : ∀ i ∈ fields, ∃ v, regField args nb i = some v ∧
    reg q' (BitVec.ofNat 5 i) = if i = 0 then 0 else sextXlen (q.machine.harts 0).xlen v
  kept : ∀ r, (∀ i ∈ fields, BitVec.ofNat 5 i ≠ r) → reg q' r = reg q r
  pc_eq : pc q' = pc q
  xlen : (q'.machine.harts 0).xlen = (q.machine.harts 0).xlen
  loaded : q'.loaded = q.loaded

theorem reg_quantaSetReg_self (i : BitVec 5) (v : BitVec 64) :
    reg (q.quantaSetReg i v) i = if i = 0 then 0 else sextXlen (q.machine.harts 0).xlen v := by
  simp only [reg, Handle.quantaSetReg, Machine.setHart, Function.update_self, CPU.regRead, CPU.regWrite]
  split
  · rfl
  · simp

theorem reg_quantaSetReg_ne {i r : BitVec 5} (h : i ≠ r) (v : BitVec 64) :
    reg (q.quantaSetReg i v) r = reg q r := by
  simp only [reg, Handle.quantaSetReg, Machine.setHart, Function.update_self, CPU.regRead, CPU.regWrite]
  split
  · rfl
  · split
    · rfl
    · exact Function.update_of_ne (Ne.symm h) _ _

theorem pc_quantaSetReg (i : BitVec 5) (v : BitVec 64) : pc (q.quantaSetReg i v) = pc q := by
  simp only [pc, Handle.quantaSetReg, Machine.setHart, Function.update_self, CPU.regWrite]
  split <;> rfl

theorem xlen_quantaSetReg (i : BitVec 5) (v : BitVec 64) :
    ((q.quantaSetReg i v).machine.harts 0).xlen = (q.machine.harts 0).xlen := by
  simp only [Handle.quantaSetReg, Machine.setHart, Function.update_self, CPU.regWrite]
  split <;> rfl

theorem Written.nil (args : List Byte) (nb : Nat) (q : Handle) : Written args nb [] q q :=
  ⟨fun _ h => absurd h List.not_mem_nil, fun _ _ => rfl, rfl, rfl, rfl⟩

/-- One more field, before those of `fields`. -/
theorem Written.cons {nb i : Nat} {fields : List Nat} {q q' : Handle} {v : BitVec 64}
    (hi : i < 32) (hlt : ∀ j ∈ fields, j < 32) (hnotMem : i ∉ fields) (hv : regField args nb i = some v)
    (h : Written args nb fields (q.quantaSetReg (BitVec.ofNat 5 i) v) q') : Written args nb (i :: fields) q q' := by
  have hinj : ∀ j ∈ fields, BitVec.ofNat 5 j ≠ BitVec.ofNat 5 i := by
    intro j hj heq
    have hnat := congrArg BitVec.toNat heq
    simp only [BitVec.toNat_ofNat] at hnat
    have hji : j = i := by have := hlt j hj; omega
    exact hnotMem (hji ▸ hj)
  constructor
  · intro j hj
    rcases List.mem_cons.1 hj with rfl | hj
    · refine ⟨v, hv, ?_⟩
      have hzero : (BitVec.ofNat 5 j = 0) ↔ j = 0 := by
        rw [← BitVec.toNat_inj, BitVec.toNat_ofNat]
        exact ⟨fun h0 => by simpa [Nat.mod_eq_of_lt hi] using h0, fun h0 => by simp [h0]⟩
      rw [h.kept _ hinj, reg_quantaSetReg_self]
      simp only [hzero]
    · obtain ⟨w, hw, hreg⟩ := h.parsed j hj
      exact ⟨w, hw, by rw [hreg, xlen_quantaSetReg]⟩
  · intro r hr
    rw [h.kept r fun j hj => hr j (List.mem_cons_of_mem _ hj), reg_quantaSetReg_ne q (hr i List.mem_cons_self)]
  · rw [h.pc_eq, pc_quantaSetReg]
  · rw [h.xlen, xlen_quantaSetReg]
  · exact h.loaded

/-- The loop writes the fields up to the first that does not parse. -/
theorem writeRegsFrom_spec (args : List Byte) (nb : Nat) : ∀ (fields : List Nat) (q : Handle), fields.Nodup →
    (∀ i ∈ fields, i < 32) →
    (∃ q', writeRegsFrom args nb fields q = (true, q') ∧ Written args nb fields q q') ∨
    ∃ done j rest q', fields = done ++ j :: rest ∧ regField args nb j = none ∧
      writeRegsFrom args nb fields q = (false, q') ∧ Written args nb done q q'
  | [], q, _, _ => .inl ⟨q, rfl, .nil args nb q⟩
  | i :: fields, q, hnodup, hlt => by
    obtain ⟨hnotMem, hnodup⟩ := List.nodup_cons.1 hnodup
    have hlt' : ∀ j ∈ fields, j < 32 := fun j hj => hlt j (List.mem_cons_of_mem _ hj)
    have hi : i < 32 := hlt i List.mem_cons_self
    unfold writeRegsFrom
    cases hv : regField args nb i with
    | none => exact .inr ⟨[], i, fields, q, rfl, hv, rfl, .nil args nb q⟩
    | some v =>
      rcases writeRegsFrom_spec args nb fields (q.quantaSetReg (BitVec.ofNat 5 i) v) hnodup hlt' with
        ⟨q', hq', hw⟩ | ⟨done, j, rest, q', rfl, hj, hq', hw⟩
      · exact .inl ⟨q', hq', hw.cons hi hlt' hnotMem hv⟩
      · have hdone : ∀ k ∈ done, k ∈ done ++ j :: rest := fun k hk => List.mem_append_left _ hk
        exact .inr ⟨i :: done, j, rest, q', rfl, hj, hq',
          hw.cons hi (fun k hk => hlt' k (hdone k hk)) (fun hk => hnotMem (hdone i hk)) hv⟩

/-- `G` on a payload of full length: refused at a first malformed field, or written whole. -/
theorem handleWriteRegs_cases (args : List Byte) (hlen : 33 * (s.regBytes * 2) ≤ args.length) :
    (∃ j ≤ 32, ∃ q, regField args s.regBytes j = none ∧ Written args s.regBytes (List.range j) s.q q ∧
      s.handleWriteRegs args = (ascii "E22", { s with q := q })) ∨
    ∃ q v, Written args s.regBytes (List.range 32) s.q q ∧ regField args s.regBytes 32 = some v ∧
      s.handleWriteRegs args = (ascii "OK", { s with q := q.quantaSetPc v }) := by
  unfold handleWriteRegs
  dsimp only
  rw [if_neg (by omega)]
  rcases writeRegsFrom_spec args s.regBytes (List.range 32) s.q List.nodup_range fun i => List.mem_range.1 with
    ⟨q, hq, hw⟩ | ⟨done, j, rest, q, hsplit, hj, hq, hw⟩
  · rw [hq]
    cases hv : regField args s.regBytes 32 with
    | none => exact .inl ⟨32, le_rfl, q, hv, hw, rfl⟩
    | some v => exact .inr ⟨q, v, hw, rfl, rfl⟩
  · -- the fields before the malformed one are those of smaller index
    have hlt : done.length < 32 := by
      have hlength := congrArg List.length hsplit
      simp only [List.length_range, List.length_append, List.length_cons] at hlength
      omega
    have hget : (List.range 32)[done.length]? = some j := by
      rw [hsplit, List.getElem?_append_right le_rfl]
      simp
    obtain rfl : done.length = j := by
      rw [List.getElem?_range hlt] at hget
      exact Option.some.inj hget
    have hdone : done = List.range done.length := by
      have htake : (List.range 32).take done.length = done := by rw [hsplit, List.take_left]
      rw [List.take_range, min_eq_left hlt.le] at htake
      exact htake.symm
    rw [hq]
    exact .inl ⟨done.length, hlt.le, q, hj, hdone ▸ hw, rfl⟩

/-! ## Reading back -/

/-- Fields of one width, side by side. -/
theorem flatMap_fields (l : List Byte) (c n : Nat) :
    ((List.range n).flatMap fun i => (l.drop (i * c)).take c) = l.take (n * c) := by
  induction n with
  | zero => simp
  | succ n ih => rw [List.range_succ, List.flatMap_append, ih, Nat.succ_mul, List.take_add]; simp

theorem valToHexLe_regField {nb i : Nat} (hnb : nb ≤ 8) (hlen : (i + 1) * (nb * 2) ≤ args.length)
    {v : BitVec 64} (h : regField args nb i = some v) :
    valToHexLe v nb = ((args.drop (i * (nb * 2))).take (nb * 2)).map lower := by
  have hfit : 2 * nb ≤ (args.drop (i * (nb * 2))).length := by
    rw [List.length_drop]
    have : (i + 1) * (nb * 2) = i * (nb * 2) + nb * 2 := by ring
    omega
  rw [valToHexLe_hexToValLe hnb hfit h, Nat.mul_comm]

/-- What `g` answers after `G` with these fields: `x0` as zeros, the others in lower case. -/
def echo (args : List Byte) (nb : Nat) : List Byte :=
  List.replicate (nb * 2) 0x30#8 ++ ((args.drop (nb * 2)).take (32 * (nb * 2))).map lower

/-- The digits `g` prints for field `i`. -/
def fieldDigits (s : GdbStub) (i : Nat) : List Byte :=
  valToHexLe (if i < 32 then s.q.quantaReg (BitVec.ofNat 5 i) else s.q.quantaPc) s.regBytes

theorem handleReadRegs_eq : s.handleReadRegs = (List.range 33).flatMap (fieldDigits s) := by
  have hregs : ((List.range 32).flatMap fun i => valToHexLe (s.q.quantaReg (BitVec.ofNat 5 i)) s.regBytes) =
      (List.range 32).flatMap (fieldDigits s) := by
    apply List.flatMap_congr
    intro i hi
    unfold fieldDigits
    rw [if_pos (List.mem_range.1 hi)]
  unfold handleReadRegs
  rw [show List.range 33 = List.range 32 ++ [32] from List.range_succ, List.flatMap_append, hregs,
    List.flatMap_singleton]
  rfl

theorem valToHexLe_zero : ∀ nb, valToHexLe 0 nb = List.replicate (nb * 2) 0x30#8
  | 0 => rfl
  | nb + 1 => by
    have hzero : Bytes.byteAt (0 : BitVec 64) nb = 0 := by
      apply BitVec.eq_of_getLsbD_eq
      simp [Bytes.getLsbD_byteAt]
    rw [valToHexLe_succ, valToHexLe_zero nb, hzero, Nat.succ_mul, List.replicate_add]
    rfl

theorem regBytes_congr {s s' : GdbStub} (hx : (s'.q.machine.harts 0).xlen = (s.q.machine.harts 0).xlen)
    (hl : s'.q.loaded = s.q.loaded) : s'.regBytes = s.regBytes := by
  unfold regBytes Handle.quantaXlen
  rw [hx, hl]

/-- A register that was given the value of a field prints as the field. -/
theorem valToHexLe_quantaReg {s : GdbStub} {i : BitVec 5} {v : BitVec 64}
    (h : reg s.q i = sextXlen (s.q.machine.harts 0).xlen v) :
    valToHexLe (s.q.quantaReg i) s.regBytes = valToHexLe v s.regBytes := by
  rw [← valToHexLe_sextXlen s v, ← h]
  exact valToHexLe_xlenVal s _

theorem handleReadRegs_echo {s s' : GdbStub} {q : Handle} {v : BitVec 64}
    (hlen : 33 * (s.regBytes * 2) ≤ args.length) (hw : Written args s.regBytes (List.range 32) s.q q)
    (hv : regField args s.regBytes 32 = some v) (hs' : s'.q = q.quantaSetPc v) :
    s'.handleReadRegs = echo args s.regBytes := by
  have hxlen : (s'.q.machine.harts 0).xlen = (s.q.machine.harts 0).xlen := by
    rw [hs', ← hw.xlen]
    simp [Handle.quantaSetPc, Machine.setHart]
  have hnb : s'.regBytes = s.regBytes := by
    refine regBytes_congr hxlen ?_
    rw [hs', ← hw.loaded]
    rfl
  have hreg : ∀ r, reg s'.q r = reg q r := by
    intro r
    rw [hs']
    simp [reg, Handle.quantaSetPc, Machine.setHart, CPU.regRead]
  have hpc : pc s'.q = v := by
    rw [hs']
    simp [pc, Handle.quantaSetPc, Machine.setHart]
  -- every field but the first prints as it was sent
  have hfield : ∀ i < 32, fieldDigits s' (i + 1) =
      (((args.drop (s.regBytes * 2)).drop (i * (s.regBytes * 2))).take (s.regBytes * 2)).map lower := by
    intro i hi
    have hfit : (i + 1 + 1) * (s.regBytes * 2) ≤ args.length := le_trans (Nat.mul_le_mul_right _ (by omega)) hlen
    rw [List.drop_drop, show s.regBytes * 2 + i * (s.regBytes * 2) = (i + 1) * (s.regBytes * 2) by ring]
    unfold fieldDigits
    split
    · next hlt =>
      obtain ⟨w, hwf, hwr⟩ := hw.parsed (i + 1) (List.mem_range.2 hlt)
      rw [if_neg (by omega)] at hwr
      rw [valToHexLe_quantaReg (v := w) (by rw [hreg, hwr, hxlen]), hnb]
      exact valToHexLe_regField (regBytes_le s) hfit hwf
    · next hge =>
      obtain rfl : i = 31 := by omega
      have hdigits : valToHexLe s'.q.quantaPc s'.regBytes = valToHexLe v s'.regBytes := by
        rw [← hpc]
        exact valToHexLe_xlenVal s' _
      rw [hdigits, hnb]
      exact valToHexLe_regField (regBytes_le s) hfit hv
  have hzero : fieldDigits s' 0 = List.replicate (s.regBytes * 2) 0x30#8 := by
    have h0 : s'.q.quantaReg 0 = 0 := by
      unfold Handle.quantaReg Handle.xlenVal CPU.regRead
      simp
    rw [← hnb, ← valToHexLe_zero, ← h0]
    rfl
  rw [handleReadRegs_eq, List.range_succ_eq_map, List.flatMap_cons, List.flatMap_map, hzero, echo,
    ← flatMap_fields, List.map_flatMap]
  congr 1
  exact List.flatMap_congr fun i hi => hfield i (List.mem_range.1 hi)

/-! ## One register -/

/-- The digits of a `P` packet: those after the `=`. -/
def sentDigits (args : List Byte) (nb : Nat) : List Byte := ((strtoul args).2.drop 1).take (2 * nb)

/-- The three answers of `P`: refused, a register written, or the pc. -/
theorem handleWriteReg_cases (args : List Byte) :
    ((s.handleWriteReg args).1 ≠ ascii "OK" ∧ (s.handleWriteReg args).2 = s) ∨
    ∃ v, hexToValLe ((strtoul args).2.drop 1) s.regBytes = some v ∧
      ((strtoul args).1 < 32 ∧
          s.handleWriteReg args = (ascii "OK", { s with q := s.q.quantaSetReg ((strtoul args).1.setWidth 5) v }) ∨
        (strtoul args).1 = 32 ∧ s.handleWriteReg args = (ascii "OK", { s with q := s.q.quantaSetPc v })) := by
  have hE22 : ascii "E22" ≠ ascii "OK" := by decide
  have hE01 : ascii "E01" ≠ ascii "OK" := by decide
  unfold handleWriteReg
  dsimp only
  split
  · exact .inl ⟨hE22, rfl⟩
  · cases hv : hexToValLe ((strtoul args).2.drop 1) s.regBytes with
    | none => exact .inl ⟨hE22, rfl⟩
    | some v =>
      dsimp only
      by_cases hlt : (strtoul args).1 < 32
      · exact .inr ⟨v, rfl, .inl ⟨hlt, if_pos hlt⟩⟩
      · by_cases heq : (strtoul args).1 = 32
        · exact .inr ⟨v, rfl, .inr ⟨heq, by rw [if_neg hlt, if_pos heq]⟩⟩
        · rw [if_neg hlt, if_neg heq]
          exact .inl ⟨hE01, rfl⟩

/-- `p` prints the low bytes of the register it asks for. -/
theorem handleReadReg_reg (h : (strtoul args).1 < 32) :
    s.handleReadReg args = valToHexLe (reg s.q ((strtoul args).1.setWidth 5)) s.regBytes := by
  unfold handleReadReg
  dsimp only
  rw [if_pos h]
  exact valToHexLe_xlenVal s _

theorem handleReadReg_pc (h : (strtoul args).1 = 32) :
    s.handleReadReg args = valToHexLe (pc s.q) s.regBytes := by
  unfold handleReadReg
  dsimp only
  rw [if_neg (by rw [h]; decide), if_pos h]
  exact valToHexLe_xlenVal s _

/-! ## All or nothing -/

/-- What the register packets promise for a payload: a refused `G` leaves the registers and the pc,
an accepted one reads back as it was sent, and so does an accepted `P`, which changes no other register. -/
structure RegisterPackets (s : GdbStub) (args : List Byte) : Prop where
  refused : (s.handleWriteRegs args).1 ≠ ascii "OK" →
    (∀ r, reg (s.handleWriteRegs args).2.q r = reg s.q r) ∧ pc (s.handleWriteRegs args).2.q = pc s.q
  echoed : (s.handleWriteRegs args).1 = ascii "OK" → (s.handleWriteRegs args).2.handleReadRegs = echo args s.regBytes
  single : (s.handleWriteReg args).1 = ascii "OK" → 1 ≤ (strtoul args).1 → (strtoul args).1 ≤ 32 →
    (∀ ask, (strtoul ask).1 = (strtoul args).1 →
      (s.handleWriteReg args).2.handleReadReg ask = (sentDigits args s.regBytes).map lower) ∧
    (∀ r : BitVec 5, r.setWidth 64 ≠ (strtoul args).1 → reg (s.handleWriteReg args).2.q r = reg s.q r) ∧
    ((strtoul args).1 ≠ 32 → pc (s.handleWriteReg args).2.q = pc s.q)

/-- Field `j` is the first that does not parse. -/
def FirstMalformed (args : List Byte) (nb j : Nat) : Prop :=
  regField args nb j = none ∧ ∀ i < j, regField args nb i ≠ none

/-- The fields that a refused `G` has written by then hold what their registers held. -/
def WritesNothing (s : GdbStub) (args : List Byte) : Prop :=
  33 * (s.regBytes * 2) ≤ args.length → ∀ j ≤ 32, FirstMalformed args s.regBytes j →
    ∀ i < j, i ≠ 0 → ∀ v, regField args s.regBytes i = some v →
      sextXlen (s.q.machine.harts 0).xlen v = reg s.q (BitVec.ofNat 5 i)

theorem Written.firstMalformed {nb j : Nat} {q q' : Handle} (h : Written args nb (List.range j) q q')
    (hj : regField args nb j = none) : FirstMalformed args nb j := by
  refine ⟨hj, fun i hi hnone => ?_⟩
  obtain ⟨v, hv, _⟩ := h.parsed i (List.mem_range.2 hi)
  rw [hnone] at hv
  exact absurd hv (by simp)

theorem FirstMalformed.unique {nb i j : Nat} (hi : FirstMalformed args nb i)
    (hj : FirstMalformed args nb j) : i = j := by
  rcases lt_trichotomy i j with hlt | rfl | hlt
  · exact absurd hi.1 (hj.2 i hlt)
  · rfl
  · exact absurd hj.1 (hi.2 j hlt)

theorem reg_zero : reg q 0 = 0 := rfl

/-- After the first `j` fields the registers are as before exactly if those fields said so. -/
theorem Written.unchanged_iff {nb j : Nat} (hj : j ≤ 32) {q q' : Handle}
    (h : Written args nb (List.range j) q q') :
    (∀ r, reg q' r = reg q r) ↔ ∀ i < j, i ≠ 0 → ∀ v, regField args nb i = some v →
      sextXlen (q.machine.harts 0).xlen v = reg q (BitVec.ofNat 5 i) := by
  constructor
  · intro hsame i hi hi0 v hv
    obtain ⟨w, hw, hreg⟩ := h.parsed i (List.mem_range.2 hi)
    obtain rfl : v = w := Option.some.inj (hv.symm.trans hw)
    rw [← hsame, hreg, if_neg hi0]
  · intro hfields r
    by_cases hr : r.toNat < j
    · by_cases hr0 : r = 0
      · rw [hr0, reg_zero, reg_zero]
      · have hn0 : r.toNat ≠ 0 := fun h0 => hr0 (BitVec.eq_of_toNat_eq h0)
        obtain ⟨w, hw, hreg⟩ := h.parsed r.toNat (List.mem_range.2 hr)
        rw [if_neg hn0, hfields _ hr hn0 w hw, BitVec.ofNat_toNat, BitVec.setWidth_eq] at hreg
        exact hreg
    · apply h.kept
      intro i hi heq
      have hlt := List.mem_range.1 hi
      have hnat := congrArg BitVec.toNat heq
      rw [BitVec.toNat_ofNat, Nat.mod_eq_of_lt (by omega)] at hnat
      omega

/-- A refused `G` changes nothing exactly when the fields it got through changed nothing. -/
theorem refused_iff (args : List Byte) :
    ((s.handleWriteRegs args).1 ≠ ascii "OK" →
      (∀ r, reg (s.handleWriteRegs args).2.q r = reg s.q r) ∧ pc (s.handleWriteRegs args).2.q = pc s.q) ↔
    WritesNothing s args := by
  by_cases hlen : 33 * (s.regBytes * 2) ≤ args.length
  · rcases handleWriteRegs_cases s args hlen with ⟨j, hj, q, hnone, hw, heq⟩ | ⟨q, v, hw, hv, heq⟩
    · have hE22 : ascii "E22" ≠ ascii "OK" := by decide
      rw [heq]
      constructor
      · intro hsame _ k _ hk
        obtain rfl := (hw.firstMalformed hnone).unique hk
        exact (hw.unchanged_iff hj).1 (hsame hE22).1
      · intro hcond _
        exact ⟨(hw.unchanged_iff hj).2 (hcond hlen j hj (hw.firstMalformed hnone)), hw.pc_eq⟩
    · rw [heq]
      constructor
      · intro _ _ j hj hfirst
        -- no field is malformed
        exfalso
        rcases Nat.lt_or_eq_of_le hj with hlt | rfl
        · obtain ⟨w, hwf, _⟩ := hw.parsed j (List.mem_range.2 hlt)
          exact absurd (hwf.symm.trans hfirst.1) (by simp)
        · exact absurd (hv.symm.trans hfirst.1) (by simp)
      · exact fun _ hne => absurd rfl hne
  · constructor
    · exact fun _ h => absurd h hlen
    · intro _ _
      have hshort : s.handleWriteRegs args = (ascii "E22", s) := if_pos (by omega)
      rw [hshort]
      exact ⟨fun _ => rfl, rfl⟩

theorem echoed (args : List Byte) (hok : (s.handleWriteRegs args).1 = ascii "OK") :
    (s.handleWriteRegs args).2.handleReadRegs = echo args s.regBytes := by
  have hE22 : ascii "E22" ≠ ascii "OK" := by decide
  by_cases hlen : 33 * (s.regBytes * 2) ≤ args.length
  · rcases handleWriteRegs_cases s args hlen with ⟨j, _, q, _, _, heq⟩ | ⟨q, v, hw, hv, heq⟩
    · rw [heq] at hok
      exact absurd hok hE22
    · rw [heq]
      exact handleReadRegs_echo hlen hw hv rfl
  · have hshort : s.handleWriteRegs args = (ascii "E22", s) := if_pos (by omega)
    rw [hshort] at hok
    exact absurd hok hE22

theorem reg_quantaSetPc (r : BitVec 5) : reg (q.quantaSetPc v) r = reg q r := by
  simp only [reg, Handle.quantaSetPc, Machine.setHart, Function.update_self, CPU.regRead]

/-- An accepted `P` reads back as it was sent and touches nothing else. -/
theorem single (args : List Byte) (hok : (s.handleWriteReg args).1 = ascii "OK")
    (hpos : 1 ≤ (strtoul args).1) :
    (∀ ask, (strtoul ask).1 = (strtoul args).1 →
      (s.handleWriteReg args).2.handleReadReg ask = (sentDigits args s.regBytes).map lower) ∧
    (∀ r : BitVec 5, r.setWidth 64 ≠ (strtoul args).1 → reg (s.handleWriteReg args).2.q r = reg s.q r) ∧
    ((strtoul args).1 ≠ 32 → pc (s.handleWriteReg args).2.q = pc s.q) := by
  rcases handleWriteReg_cases s args with ⟨hne, _⟩ | ⟨v, hv, ⟨hlt, heq⟩ | ⟨h32, heq⟩⟩
  · exact absurd hok hne
  · have hdigits := valToHexLe_hexToValLe (regBytes_le s) (length_of_hexToValLe hv) hv
    have hn0 : (strtoul args).1.setWidth 5 ≠ 0 := by
      generalize (strtoul args).1 = n at *
      bv_omega
    rw [heq]
    refine ⟨fun ask hask => ?_, fun r hr => ?_, fun _ => pc_quantaSetReg ..⟩
    · have hnb : GdbStub.regBytes { s with q := s.q.quantaSetReg ((strtoul args).1.setWidth 5) v } = s.regBytes :=
        regBytes_congr (xlen_quantaSetReg ..) rfl
      rw [handleReadReg_reg _ (hask ▸ hlt), hask, reg_quantaSetReg_self, if_neg hn0, hnb, valToHexLe_sextXlen, hdigits]
      rfl
    · apply reg_quantaSetReg_ne
      rintro rfl
      apply hr
      generalize (strtoul args).1 = n at *
      bv_omega
  · have hdigits := valToHexLe_hexToValLe (regBytes_le s) (length_of_hexToValLe hv) hv
    rw [heq]
    refine ⟨fun ask hask => ?_, fun r _ => reg_quantaSetPc .., fun hne => absurd h32 hne⟩
    have hxlen : ((s.q.quantaSetPc v).machine.harts 0).xlen = (s.q.machine.harts 0).xlen := by
      simp only [Handle.quantaSetPc, Machine.setHart, Function.update_self]
    have hnb : GdbStub.regBytes { s with q := s.q.quantaSetPc v } = s.regBytes := regBytes_congr hxlen rfl
    have hpc : pc (s.q.quantaSetPc v) = v := by simp only [pc, Handle.quantaSetPc, Machine.setHart, Function.update_self]
    rw [handleReadReg_pc _ (hask.trans h32), hnb, hpc, hdigits]
    rfl

/-- For every machine and payload, the register packets keep their promise exactly when a refused `G`
got through no field that changes its register. -/
theorem register_packets_iff (s : GdbStub) (args : List Byte) : RegisterPackets s args ↔ WritesNothing s args := by
  constructor
  · rintro ⟨hrefused, _, _⟩
    exact (refused_iff s args).1 hrefused
  · intro h
    exact ⟨(refused_iff s args).2 h, echoed s args, fun hok hpos _ => single s args hok hpos⟩

/-- A `G` packet for an RV32 machine that sets `x1` to one and has a bad digit in the field of `x2`. -/
def spoiling : List Byte :=
  List.replicate 8 0x30#8 ++ (ascii "01000000" ++ (ascii "0000000g" ++ List.replicate 240 0x30#8))

/-- The packet is refused and `x1` has changed. -/
theorem refused_but_written :
    let s := attach (Handle.load .rv32 1 0x80000000 0x1000 0x80000000 [])
    (s.handleWriteRegs spoiling).1 = ascii "E22" ∧ reg s.q 1 = 0 ∧ reg (s.handleWriteRegs spoiling).2.q 1 = 1 ∧
      ¬RegisterPackets s spoiling := by
  intro s
  have hreply : (s.handleWriteRegs spoiling).1 = ascii "E22" := by decide +kernel
  have hbefore : reg s.q 1 = 0 := by decide +kernel
  have hafter : reg (s.handleWriteRegs spoiling).2.q 1 = 1 := by decide +kernel
  refine ⟨hreply, hbefore, hafter, fun h => ?_⟩
  have hsame := (h.refused (by rw [hreply]; decide)).1 1
  rw [hbefore, hafter] at hsame
  exact absurd hsame (by decide)

end Quanta.Gdb
