/-
Where a hart enters after an HSM call. `hart_start` and a non-retentive `hart_suspend` set up the
entered hart with the same helper, but a suspend does so to the very hart whose ECALL is still in
flight, and the commit tail then moves its pc four bytes on.
-/
import Quanta.Hsm.Lifecycle

namespace Quanta

open Relation Run Machine

/-! ## The entry state -/

/-- The hart will next execute the instruction at `pc` as a freshly entered hart: in S-mode, with
its id and `arg` in a0 and a1, no translation, interrupts off and no reservation. -/
structure CPU.EntersAt (c : CPU) (pc arg : BitVec 64) : Prop where
  running : c.halted = false
  pc : c.pc = pc
  priv : c.priv = PRIV_S
  hartid : c.regRead REG_A0 = sextXlen c.xlen (c.hartid.setWidth 64)
  arg : c.regRead REG_A1 = sextXlen c.xlen arg
  satp : c.csr CSR_SATP = 0
  sie : c.csr CSR_MSTATUS &&& MSTATUS_SIE = 0
  unreserved : c.reserveValid = false

theorem CPU.entersAt_hsmEnter (c : CPU) (pc arg : BitVec 64) : (hsmEnter c pc arg).EntersAt pc arg := by
  unfold hsmEnter
  constructor
  · rfl
  · simp
  · simp
  · unfold CPU.regRead
    simp only [mmuFlush_regs, setCsr_regs, regWrite_regs, mmuFlush_hartid, setCsr_hartid, regWrite_hartid, mmuFlush_xlen,
      setCsr_xlen, regWrite_xlen]
    rfl
  · unfold CPU.regRead
    simp only [mmuFlush_regs, setCsr_regs, regWrite_regs, mmuFlush_xlen, setCsr_xlen, regWrite_xlen]
    rfl
  · simp only [mmuFlush_csr]
    rw [setCsr_csr_ne _ _ (by decide), setCsr_csr]
  · simp only [mmuFlush_csr, setCsr_csr]
    rw [BitVec.and_assoc]
    exact BitVec.and_zero
  · rfl

theorem CPU.EntersAt.shed {c c' : CPU} {pc arg : BitVec 64} (h : c.EntersAt pc arg) (hs : c.Shed c') :
    c'.EntersAt pc arg := by
  rcases hs with rfl | rfl
  · exact h
  · exact ⟨h.running, h.pc, h.priv, h.hartid, h.arg, h.satp, h.sie, rfl⟩

/-! ## Until the entered hart steps -/

/-- A move of the system that is not a step of hart `t`. -/
inductive Without (t : Nat) : Machine → Machine → Prop
  | hart (m : Machine) (i : Nat) (dc : Option DecodeCache) (hne : i ≠ t) (hi : i < m.bus.plat.nharts)
      (hrun : (m.harts i).halted = false) : Without t m ((m.onHart i).step dc).2
  | env (m : Machine) (b : Bus) (hb : m.bus.Shape b) : Without t m (m.setBus b)

/-- A started hart is left alone, but for its reservation, by the other harts. -/
theorem shed_without {t : Nat} {m m2 : Machine} (hm : ∀ i, (m.harts i).Managed)
    (hs : (m.harts t).hsmState = .started) (h : ReflTransGen (Without t) m m2) : (m.harts t).Shed (m2.harts t) := by
  have hall : (∀ i, (m2.harts i).Managed) ∧ (m.harts t).Shed (m2.harts t) := by
    induction h with
    | refl => exact ⟨hm, .refl _⟩
    | @tail x y _ hxy ih =>
      obtain ⟨hx, hshed⟩ := ih
      cases hxy with
      | hart i dc hne hi hrun =>
        have hrun' : (x.onHart i).cpu.halted = false := hrun
        refine ⟨(managed_inv .free).step_free dc hrun' hx, hshed.trans ?_⟩
        have hmi : (x.onHart i).cpu.Managed := hx i
        rcases HsmEvent.effect_step hmi hrun' t with
          ⟨_, hpre, _⟩ | ⟨_, hself, _⟩ | ⟨_, _, hother⟩
        · change (x.harts t).hsmState = .stopped at hpre
          have hstate : (x.harts t).hsmState = .started := by
            rcases hshed with hsame | hsame <;> rw [hsame] <;> exact hs
          rw [hstate] at hpre
          cases hpre
        · exact absurd hself (Ne.symm hne)
        · exact hother (Ne.symm hne)
      | env b hb => exact ⟨hx, hshed⟩
  exact hall.2

/-! ## The two calls -/

/-- The call enters hart `t`: a successful `hart_start` of it, or a non-retentive `hart_suspend`
by it. -/
def Machine.Enters (m : Machine) (t : Nat) : Prop :=
  m.Starts t ∨ (m.IsHsm 3 ∧ lo32 (m.regRead REG_A0) = 0x80000000 ∧ t = m.self)

theorem sextXlen_add_four_ne (xlen : Xlen) (v : BitVec 64) : sextXlen xlen (v + 4) ≠ v := by
  cases xlen with
  | rv32 =>
    intro h
    have hlo := congrArg lo32 h
    rw [CPU.lo32_sextXlen] at hlo
    unfold lo32 at hlo
    bv_omega
  | rv64 =>
    intro h
    change v + 4 = v at h
    bv_omega

theorem getLsbD_add_four (v : BitVec 64) : (v + 4).getLsbD 0 = v.getLsbD 0 := by
  simp only [BitVec.getLsbD, BitVec.toNat_add, Nat.testBit_zero]
  refine decide_eq_decide.mpr ?_
  have hfour : (4 : BitVec 64).toNat = 4 := rfl
  omega

/-- After a suspend the hart is entered four bytes past its resume address. -/
theorem pc_of_suspend {dc : Option DecodeCache} {m m' : Machine} (h : SbiCallAt dc m m') (h3 : m'.IsHsm 3)
    (htype : lo32 (m'.regRead REG_A0) = 0x80000000) (heven : (m'.regRead REG_A1).getLsbD 0 = false) :
    ((m.step dc).2.harts m.self).pc = sextXlen m.xlen (m'.regRead REG_A1 + 4) ∧
    ((m.step dc).2.harts m.self).hsmState = .started := by
  have hself := h.atDispatch.self
  have hx : m'.cpu.xlen = m.xlen := by rw [h.atDispatch.cpu]; rfl
  have hcall : m'.sbiCall = m'.setCpu (hsmEnter m'.cpu (m'.regRead REG_A1) (m'.regRead REG_A2)) := by
    rw [sbiCall_of_isHsm h3]
    show m'.hartSuspend = _
    unfold hartSuspend
    rw [htype]
    rfl
  have hpc : (hsmEnter m'.cpu (m'.regRead REG_A1) (m'.regRead REG_A2)).pc = m'.regRead REG_A1 :=
    (CPU.entersAt_hsmEnter ..).pc
  have hxlen : (hsmEnter m'.cpu (m'.regRead REG_A1) (m'.regRead REG_A2)).xlen = m.xlen := by
    rw [← hx]
    simp [hsmEnter]
  have hodd : ¬(m'.regRead REG_A1 + 4).getLsbD 0 = true := by
    rw [Bool.not_eq_true, getLsbD_add_four]
    exact heven
  rw [step_of_sbiCallAt h, hcall]
  unfold returned
  rw [cpu_setCpu, hpc, if_neg (by rw [(CPU.entersAt_hsmEnter ..).running]; decide), if_neg hodd, setCpu_setCpu,
    ← hself, harts_setCpu_self]
  refine ⟨?_, rfl⟩
  show sextXlen (m'.setCpu _).cpu.xlen _ = _
  rw [cpu_setCpu, hxlen]

/-- The hart an HSM call enters executes next at exactly the address it was given, as a freshly
entered hart, precisely when the call is `hart_start`. -/
theorem hsm_entry_iff {m0 m m' m2 : Machine} {es : List HsmEvent} (hboot : m0.Booted) (htrace : Trace m0 es m)
    {i : Nat} {dc : Option DecodeCache} (hrun : (m.harts i).halted = false) (hcall : SbiCallAt dc (m.onHart i) m')
    {t : Nat} (henter : m'.Enters t) (heven : (m'.regRead REG_A1).getLsbD 0 = false)
    (hothers : ReflTransGen (Without t) ((m.onHart i).step dc).2 m2) :
    (m2.harts t).EntersAt (m'.regRead REG_A1) (m'.regRead REG_A2) ↔ m'.IsHsm 0 := by
  have hm : ∀ i, (m.harts i).Managed := htrace.managed fun i => Or.inl (hboot.started i)
  have hrun' : (m.onHart i).cpu.halted = false := hrun
  have hpost : ∀ j, (((m.onHart i).step dc).2.harts j).Managed :=
    (managed_inv .free).step_free dc hrun' hm
  have hstate := hcall.atDispatch.state_eq
  rcases henter with hstart | ⟨h3, htype, ht⟩
  · -- the target is stopped, so it is not the hart that makes the call
    have hne : t ≠ (m.onHart i).self := by
      intro hself
      have hs := (hstate t).symm.trans hstart.stopped
      rw [hself] at hs
      change (m.harts i).hsmState = .stopped at hs
      rw [(hm i).started hrun] at hs
      cases hs
    obtain ⟨htarget, _, _⟩ := HsmCallAt.harts_of_starts ⟨hcall, hstart.call.1⟩ hstart hne
    have hentry := CPU.entersAt_hsmEnter ((m.onHart i).harts t) (m'.regRead REG_A1) (m'.regRead REG_A2)
    refine iff_of_true (hentry.shed ?_) hstart.call
    rw [← htarget]
    exact shed_without hpost (by rw [htarget]; rfl) hothers
  · obtain ⟨hpc, hstarted⟩ := pc_of_suspend hcall h3 htype heven
    have hself : t = (m.onHart i).self := ht.trans hcall.atDispatch.self
    rw [← hself] at hpc hstarted
    refine iff_of_false (fun h => ?_) fun h0 => absurd (h0.2.symm.trans h3.2) (by decide)
    refine sextXlen_add_four_ne (m.onHart i).xlen (m'.regRead REG_A1) ?_
    rw [← hpc, ← h.pc]
    rcases shed_without hpost hstarted hothers with hsame | hsame <;> rw [hsame]

/-- A started hart enters at its start address. -/
theorem hsm_entry_start :
    (((starting.machine.onHart 1).step none).2.harts 0).EntersAt 0x80000050 7 := by
  obtain ⟨m0, es, hboot, _, htrace⟩ := starting_reachable.trace
  obtain ⟨m', hcall, hm'⟩ : ∃ m', SbiCallAt none (starting.machine.onHart 1) m' ∧
      decide (m'.IsHsm 0 ∧ m'.named = some 0 ∧ (m'.harts 0).hsmState = .stopped ∧
        m'.regRead REG_A1 = 0x80000050 ∧ m'.regRead REG_A2 = 7) = true := exists_sbiCallAt (by decide +kernel)
  obtain ⟨h0, hnamed, hstopped, h1, h2⟩ := of_decide_eq_true hm'
  rw [← h1, ← h2]
  exact (hsm_entry_iff hboot htrace (by decide +kernel) hcall (Or.inl ⟨h0, hnamed, hstopped⟩) (by rw [h1]; decide)
    ReflTransGen.refl).mpr h0

/-- The hart suspends itself, non-retentively, with resume address `0x80000040`. -/
def suspendProgram : List (BitVec 32) :=
  toSupervisor ++ [0x00300813, 0x80000537, 0x00000597, 0x01058593, 0x00000073, 0x0000006f, 0x0000006f, 0x0000006f]

def suspending : Handle :=
  (fun q : Handle => q.quantaStep.2)^[14] (Handle.load .rv64 1 0x80000000 0x1000 0x80000000 suspendProgram)

/-- A suspended hart resumes four bytes past its resume address. -/
theorem hsm_suspend_resumes_late : ∃ (m0 m m' : Machine) (es : List HsmEvent), m0.Booted ∧ Trace m0 es m ∧
    (m.harts 0).halted = false ∧ SbiCallAt none (m.onHart 0) m' ∧ m'.Enters 0 ∧ m'.regRead REG_A1 = 0x80000040 ∧
    (((m.onHart 0).step none).2.harts 0).pc = 0x80000044 ∧
    ¬(((m.onHart 0).step none).2.harts 0).EntersAt (m'.regRead REG_A1) (m'.regRead REG_A2) := by
  have hreach : suspending.Reachable :=
    Handle.Reachable.iterate ⟨_, Handle.load_fresh .rv64 (by decide) (by decide) .., ReflTransGen.refl⟩ 14
  obtain ⟨m0, es, hboot, _, htrace⟩ := hreach.trace
  obtain ⟨m', hcall, hm'⟩ : ∃ m', SbiCallAt none (suspending.machine.onHart 0) m' ∧
      decide (m'.IsHsm 3 ∧ lo32 (m'.regRead REG_A0) = 0x80000000 ∧ 0 = m'.self ∧ m'.regRead REG_A1 = 0x80000040) = true :=
    exists_sbiCallAt (by decide +kernel)
  obtain ⟨h3, htype, hself, h1⟩ := of_decide_eq_true hm'
  have hpc : (((suspending.machine.onHart 0).step none).2.harts 0).pc = 0x80000044 := by decide +kernel
  refine ⟨m0, suspending.machine, m', es, hboot, htrace, by decide +kernel, hcall, Or.inr ⟨h3, htype, hself⟩, h1, hpc,
    fun h => ?_⟩
  have hentry := h.pc
  rw [hpc, h1] at hentry
  exact absurd hentry (by decide)

end Quanta
