/-
`mstatus` bit by bit: what the trap entries, the trap returns and the masked windows do to each
bit of the register, so that the privilege invariants never reason about masks.
-/
import Quanta.Lib.Bits
import Quanta.Hart.Trap

namespace Quanta

open Bits

theorem getLsbD_MSTATUS_MPP {i : Nat} (hi : i < 64) : MSTATUS_MPP.getLsbD i = decide (i = 11 ∨ i = 12) := by
  have h : MSTATUS_MPP = 1#64 <<< 11 ||| 1#64 <<< 12 := by decide
  rw [h, BitVec.getLsbD_or, getLsbD_mask hi, getLsbD_mask hi]
  by_cases h11 : i = 11 <;> by_cases h12 : i = 12 <;> simp [h11, h12]

/-- A two-bit privilege has no bit above 1. -/
theorem getLsbD_of_lt_four {priv : BitVec 32} (hp : priv.toNat < 4) {i : Nat} (hi : 2 ≤ i) :
    priv.getLsbD i = false :=
  Nat.testBit_lt_two_pow (lt_of_lt_of_le hp (Nat.pow_le_pow_right (n := 2) (by decide) hi))

namespace CPU

variable (s : BitVec 64)

/-- A masked window takes the bits of the mask from the written value. -/
theorem getLsbD_window (mask val : BitVec 64) {i : Nat} (hi : i < 64) :
    (window mask s val).getLsbD i = if mask.getLsbD i then val.getLsbD i else s.getLsbD i := by
  unfold window
  rw [BitVec.getLsbD_or, BitVec.getLsbD_and, BitVec.getLsbD_and, getLsbD_not hi]
  cases mask.getLsbD i <;> simp

theorem getLsbD_copyBit {a b i : Nat} (ha : a < 64) (hi : i < 64) :
    (copyBit s (1#64 <<< a) (1#64 <<< b)).getLsbD i = if i = b then s.getLsbD a else s.getLsbD i := by
  unfold copyBit
  rw [BitVec.getLsbD_or, BitVec.getLsbD_and, getLsbD_not hi, getLsbD_mask hi]
  by_cases hs : s.getLsbD a = true
  · rw [if_pos ((and_mask_ne_zero s ha).mpr hs), getLsbD_mask hi, hs]
    by_cases hb : i = b <;> simp [hb]
  · rw [if_neg (fun h => hs ((and_mask_ne_zero s ha).mp h))]
    by_cases hb : i = b <;> simp [hb, hs]

theorem getLsbD_clear {b i : Nat} (hi : i < 64) :
    (s &&& ~~~(1#64 <<< b)).getLsbD i = (s.getLsbD i && !decide (i = b)) := by
  rw [BitVec.getLsbD_and, getLsbD_not hi, getLsbD_mask hi]

theorem getLsbD_set {b i : Nat} (hi : i < 64) :
    (s ||| 1#64 <<< b).getLsbD i = (s.getLsbD i || decide (i = b)) := by
  rw [BitVec.getLsbD_or, getLsbD_mask hi]

/-- MRET: MIE from MPIE, MPIE set, MPP cleared, MPRV kept only on a return to M. -/
theorem getLsbD_popM {i : Nat} (hi : i < 64) :
    (popM s).getLsbD i =
      if i = 3 then s.getLsbD 7 else if i = 7 then true else if i = 11 ∨ i = 12 then false
      else if i = 17 then s.getLsbD 17 && decide (mppOf s = PRIV_M) else s.getLsbD i := by
  have hbase : ((copyBit s MSTATUS_MPIE MSTATUS_MIE ||| MSTATUS_MPIE) &&& ~~~MSTATUS_MPP).getLsbD i =
      if i = 3 then s.getLsbD 7 else if i = 7 then true else if i = 11 ∨ i = 12 then false
      else s.getLsbD i := by
    rw [BitVec.getLsbD_and, getLsbD_not hi, getLsbD_MSTATUS_MPP hi]
    rw [show MSTATUS_MPIE = 1#64 <<< 7 from rfl, show MSTATUS_MIE = 1#64 <<< 3 from rfl]
    rw [getLsbD_set _ hi, getLsbD_copyBit _ (by decide) hi]
    grind
  unfold popM
  dsimp only
  split
  · next h =>
    rw [show MSTATUS_MPRV = 1#64 <<< 17 from rfl, getLsbD_clear _ hi, hbase]
    grind
  · next h =>
    rw [hbase]
    have h : mppOf s = PRIV_M := by simpa using h
    grind

/-- SRET: SIE from SPIE, SPIE set, SPP and MPRV cleared. -/
theorem getLsbD_popS {i : Nat} (hi : i < 64) :
    (popS s).getLsbD i =
      if i = 1 then s.getLsbD 5 else if i = 5 then true else if i = 8 ∨ i = 17 then false
      else s.getLsbD i := by
  unfold popS
  dsimp only
  rw [show MSTATUS_MPRV = 1#64 <<< 17 from rfl, show MSTATUS_SPP = 1#64 <<< 8 from rfl,
    show MSTATUS_SPIE = 1#64 <<< 5 from rfl, show MSTATUS_SIE = 1#64 <<< 1 from rfl]
  rw [getLsbD_clear _ hi, getLsbD_clear _ hi, getLsbD_set _ hi, getLsbD_copyBit _ (by decide) hi]
  grind

/-- A trap into S touches SIE, SPIE and SPP only. -/
theorem getLsbD_pushS (priv : BitVec 32) {i : Nat} (hi : i < 64) :
    (pushS s priv).getLsbD i =
      if i = 1 then false else if i = 5 then s.getLsbD 1 else if i = 8 then decide (priv ≠ 0)
      else s.getLsbD i := by
  have hspp : (if priv ≠ 0 then MSTATUS_SPP else 0).getLsbD i = (decide (priv ≠ 0) && decide (i = 8)) := by
    split
    · rw [show MSTATUS_SPP = 1#64 <<< 8 from rfl, getLsbD_mask hi]
      grind
    · grind
  unfold pushS
  dsimp only
  rw [BitVec.getLsbD_or, hspp, show MSTATUS_SPP = 1#64 <<< 8 from rfl,
    show MSTATUS_SPIE = 1#64 <<< 5 from rfl, show MSTATUS_SIE = 1#64 <<< 1 from rfl]
  rw [getLsbD_clear _ hi, getLsbD_clear _ hi, getLsbD_copyBit _ (by decide) hi]
  grind

/-- A trap into M touches MIE, MPIE and MPP only, when the privilege fits MPP. -/
theorem getLsbD_pushM {priv : BitVec 32} (hp : priv.toNat < 4) {i : Nat} (hi : i < 64) :
    (pushM s priv).getLsbD i =
      if i = 3 then false else if i = 7 then s.getLsbD 3 else if i = 11 ∨ i = 12 then priv.getLsbD (i - 11)
      else s.getLsbD i := by
  have hmpp : ((priv <<< MSTATUS_MPP_SHIFT).setWidth 64).getLsbD i =
      (decide (i = 11 ∨ i = 12) && priv.getLsbD (i - 11)) := by
    rw [BitVec.getLsbD_setWidth, BitVec.getLsbD_shiftLeft]
    by_cases h : i = 11 ∨ i = 12
    · rcases h with rfl | rfl <;> simp [MSTATUS_MPP_SHIFT]
    · have hz : 13 ≤ i → priv.getLsbD (i - 11) = false := fun hge => getLsbD_of_lt_four hp (by omega)
      unfold MSTATUS_MPP_SHIFT
      grind
  unfold pushM
  dsimp only
  rw [BitVec.getLsbD_or, hmpp, BitVec.getLsbD_and, getLsbD_not hi, getLsbD_MSTATUS_MPP hi,
    show MSTATUS_MPIE = 1#64 <<< 7 from rfl, show MSTATUS_MIE = 1#64 <<< 3 from rfl]
  rw [getLsbD_clear _ hi, getLsbD_copyBit _ (by decide) hi]
  grind

end CPU

/-! ## The live bits of `mip` -/

theorem platMipBits_device (p : Platform) (h : BitVec 32) : platMipBits p h &&& ~~~MIP_DEVICE = 0 := by
  unfold platMipBits
  dsimp only
  repeat' split
  all_goals decide

/-- The refresh leaves the bits no device drives. -/
theorem CPU.liveMip_getLsbD (c : CPU) (b : Bus) {i : Nat} (hi : i < 32) (hdev : MIP_DEVICE.getLsbD i = false) :
    (c.liveMip b).getLsbD i = (c.csr CSR_MIP).getLsbD i := by
  have hplat : (platMipBits b.plat c.hartid).getLsbD i = false := by
    have h := congrArg (·.getLsbD i) (platMipBits_device b.plat c.hartid)
    simp only [BitVec.getLsbD_and, Bits.getLsbD_not hi, hdev, Bool.not_false, Bool.and_true] at h
    rw [h]
    exact BitVec.getLsbD_zero
  have hlo : (lo32 (c.csr CSR_MIP)).getLsbD i = (c.csr CSR_MIP).getLsbD i := by
    unfold lo32
    rw [BitVec.getLsbD_setWidth, decide_eq_true hi, Bool.true_and]
  unfold CPU.liveMip
  dsimp only
  split
  · rw [BitVec.getLsbD_or, BitVec.getLsbD_and, Bits.getLsbD_not hi, hdev, hplat, hlo]
    simp
  · exact hlo

/-! ## The CSRs a write and a trap entry touch -/

/-- The register a CSR write lands in: the windows write the register they show. -/
def csrTarget (a : BitVec 12) : BitVec 12 :=
  if a = CSR_FFLAGS ∨ a = CSR_FRM then CSR_FCSR
  else if a = CSR_SSTATUS then CSR_MSTATUS
  else if a = CSR_SIE then CSR_MIE
  else if a = CSR_SIP then CSR_MIP
  else a

namespace CPU

variable (c : CPU) (cause tval : BitVec 64) (a : BitVec 12) (toS : Bool) (v : BitVec 64)

theorem setCsr_apply (b : BitVec 12) (v : BitVec 64) : (c.setCsr b v).csr a = if a = b then v else c.csr a :=
  Function.update_apply ..

/-- The value a CSR write leaves in its target. -/
def csrStored (v : BitVec 64) : BitVec 64 :=
  if a = CSR_FCSR then v &&& 0xff
  else if a = CSR_FFLAGS then (c.csr CSR_FCSR &&& ~~~0x1f#64) ||| (v &&& 0x1f)
  else if a = CSR_FRM then (c.csr CSR_FCSR &&& ~~~0xe0#64) ||| ((v &&& 0x7) <<< 5)
  else if a = CSR_SSTATUS then window SSTATUS_MASK (c.csr CSR_MSTATUS) v
  else if a = CSR_SIE then window S_INT_MASK (c.csr CSR_MIE) v
  else if a = CSR_SIP then window S_INT_MASK (c.csr CSR_MIP) v
  else if a = CSR_SATP ∧ !mmuSatpSupported c.xlen v then c.csr CSR_SATP
  else v

/-- A CSR write as one store, with the TLB flushed when it is an accepted `satp`. -/
theorem csrWrite_eq :
    c.csrWrite a v = { c.setCsr (csrTarget a) (c.csrStored a v) with
      tlb := if a = CSR_SATP ∧ mmuSatpSupported c.xlen v then c.mmuFlush.tlb else c.tlb } := by
  by_cases h1 : a = CSR_FCSR
  · subst h1; rfl
  by_cases h2 : a = CSR_FFLAGS
  · subst h2; rfl
  by_cases h3 : a = CSR_FRM
  · subst h3; rfl
  by_cases h4 : a = CSR_SSTATUS
  · subst h4; rfl
  by_cases h5 : a = CSR_SIE
  · subst h5; rfl
  by_cases h6 : a = CSR_SIP
  · subst h6; rfl
  by_cases h7 : a = CSR_SATP
  · subst h7
    have hw : c.csrWrite CSR_SATP v =
        if !mmuSatpSupported c.xlen v then c else (c.setCsr CSR_SATP v).mmuFlush := rfl
    have hv : c.csrStored CSR_SATP v =
        if CSR_SATP = CSR_SATP ∧ !mmuSatpSupported c.xlen v then c.csr CSR_SATP else v := rfl
    have ht : csrTarget CSR_SATP = CSR_SATP := rfl
    rw [hw, hv, ht]
    cases mmuSatpSupported c.xlen v
    · simp [setCsr]
    · rfl
  unfold csrWrite csrTarget csrStored
  simp only [h1, h2, h3, h4, h5, h6, h7, if_false, false_and, or_self]
  rfl

theorem csrWrite_csr (b : BitVec 12) :
    (c.csrWrite a v).csr b = if b = csrTarget a then c.csrStored a v else c.csr b := by
  rw [csrWrite_eq, ← setCsr_apply]

@[simp] theorem csrWrite_priv : (c.csrWrite a v).priv = c.priv := by
  rw [csrWrite_eq]
  rfl

@[simp] theorem csrWrite_xlen : (c.csrWrite a v).xlen = c.xlen := by
  rw [csrWrite_eq]
  rfl

@[simp] theorem csrWrite_trapped : (c.csrWrite a v).trapped = c.trapped := by
  rw [csrWrite_eq]
  rfl

@[simp] theorem csrWrite_halted : (c.csrWrite a v).halted = c.halted := by
  rw [csrWrite_eq]
  rfl

@[simp] theorem csrWrite_hsmState : (c.csrWrite a v).hsmState = c.hsmState := by
  rw [csrWrite_eq]
  rfl

theorem enterTrap_csr_M :
    (c.enterTrap cause tval false).csr a =
      if a = CSR_MSTATUS then pushM (c.csr CSR_MSTATUS) c.priv else if a = CSR_MTVAL then tval
      else if a = CSR_MCAUSE then cause else if a = CSR_MEPC then c.pc else c.csr a := by
  rw [← setCsr_apply, ← setCsr_apply, ← setCsr_apply, ← setCsr_apply]
  rfl

theorem enterTrap_csr_S :
    (c.enterTrap cause tval true).csr a =
      if a = CSR_MSTATUS then pushS (c.csr CSR_MSTATUS) c.priv else if a = CSR_STVAL then tval
      else if a = CSR_SCAUSE then cause else if a = CSR_SEPC then c.pc else c.csr a := by
  rw [← setCsr_apply, ← setCsr_apply, ← setCsr_apply, ← setCsr_apply]
  rfl

theorem enterTrap_pc_M : (c.enterTrap cause tval false).pc = trapPc c.xlen (c.csr CSR_MTVEC) cause := by
  have h := c.enterTrap_csr_M cause tval CSR_MTVEC
  exact congrArg (trapPc c.xlen · cause) h

theorem enterTrap_pc_S : (c.enterTrap cause tval true).pc = trapPc c.xlen (c.csr CSR_STVEC) cause := by
  have h := c.enterTrap_csr_S cause tval CSR_STVEC
  exact congrArg (trapPc c.xlen · cause) h

/-- A trap entry writes the CSRs, the pc, the privilege and the trap flag, and leaves the rest alone. -/
theorem enterTrap_eq : c.enterTrap cause tval toS =
    { c with
      csr := (c.enterTrap cause tval toS).csr
      pc := (c.enterTrap cause tval toS).pc
      priv := (c.enterTrap cause tval toS).priv
      trapped := (c.enterTrap cause tval toS).trapped } := by
  have h : ∃ csr pc priv trapped, c.enterTrap cause tval toS =
      { c with csr := csr, pc := pc, priv := priv, trapped := trapped } := by
    unfold enterTrap setCsr
    dsimp only
    split <;> exact ⟨_, _, _, _, rfl⟩
  obtain ⟨csr, pc, priv, trapped, h⟩ := h
  rw [h]

@[simp] theorem enterTrap_regs : (c.enterTrap cause tval toS).regs = c.regs := by
  rw [enterTrap_eq]

@[simp] theorem enterTrap_fregs : (c.enterTrap cause tval toS).fregs = c.fregs := by
  rw [enterTrap_eq]

@[simp] theorem enterTrap_xlen : (c.enterTrap cause tval toS).xlen = c.xlen := by
  rw [enterTrap_eq]

@[simp] theorem enterTrap_hartid : (c.enterTrap cause tval toS).hartid = c.hartid := by
  rw [enterTrap_eq]

@[simp] theorem enterTrap_halted : (c.enterTrap cause tval toS).halted = c.halted := by
  rw [enterTrap_eq]

@[simp] theorem enterTrap_instret : (c.enterTrap cause tval toS).instret = c.instret := by
  rw [enterTrap_eq]

@[simp] theorem enterTrap_sbiTimerArmed : (c.enterTrap cause tval toS).sbiTimerArmed = c.sbiTimerArmed := by
  rw [enterTrap_eq]

@[simp] theorem enterTrap_hsmState : (c.enterTrap cause tval toS).hsmState = c.hsmState := by
  rw [enterTrap_eq]

@[simp] theorem enterTrap_reserveValid : (c.enterTrap cause tval toS).reserveValid = c.reserveValid := by
  rw [enterTrap_eq]

@[simp] theorem enterTrap_reserveAddr : (c.enterTrap cause tval toS).reserveAddr = c.reserveAddr := by
  rw [enterTrap_eq]

end CPU

/-- The MPP field, as bits 12:11. -/
theorem mppOf_eq (s : BitVec 64) : mppOf s = (s.extractLsb' 11 2).setWidth 32 := by
  ext i hi
  unfold mppOf MSTATUS_MPP_SHIFT
  rw [BitVec.getElem_setWidth, BitVec.getElem_setWidth, BitVec.getLsbD_ushiftRight, BitVec.getLsbD_and,
    getLsbD_MSTATUS_MPP (by omega), BitVec.getLsbD_extractLsb']
  grind

theorem mppOf_lt (s : BitVec 64) : (mppOf s).toNat < 4 := by
  rw [mppOf_eq, BitVec.toNat_setWidth]
  have := (s.extractLsb' 11 2).isLt
  omega

/-- A trap into M records the privilege it came from. -/
theorem mppOf_pushM (s : BitVec 64) {priv : BitVec 32} (hp : priv.toNat < 4) :
    mppOf (CPU.pushM s priv) = priv := by
  rw [mppOf_eq]
  ext i hi
  rw [BitVec.getElem_setWidth, BitVec.getLsbD_extractLsb', CPU.getLsbD_pushM s hp (by omega)]
  have hz : 2 ≤ i → priv.getLsbD i = false := getLsbD_of_lt_four hp
  grind

end Quanta
