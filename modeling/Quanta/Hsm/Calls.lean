/-
The SBI call as a step. A hart that reaches an ECALL in S-mode with no handler installed is served
by the firmware inside the same step, and the commit tail then runs on whatever the firmware left
in the hart. The calls that matter across harts are told apart here: the two that reset the
system, and the hart state management calls with the hart each of them enters.
-/
import Quanta.Privilege.Levels

namespace Quanta

open Relation Run

namespace Machine

variable {dc : Option DecodeCache} {m m' : Machine}

/-! ## The call and its return -/

/-- The step makes an SBI call: it reaches, in `m'`, an ECALL from S that no handler takes. -/
structure SbiCallAt (dc : Option DecodeCache) (m m' : Machine) : Prop where
  ecall : ∃ inst ilen, m.dispatching dc = some ((inst, ilen), m') ∧ isEcall inst = true
  priv : m'.cpu.priv = PRIV_S
  firmware : m'.cpu.handlerInstalled CAUSE_ECALL_S = false

theorem SbiCallAt.atDispatch (h : SbiCallAt dc m m') :
    AtDispatch m m' := by
  obtain ⟨inst, ilen, hd, _⟩ := h.ecall
  exact atDispatch_of_dispatching hd

/-- The machine the step's SBI call is made in, if it makes one. -/
def sbiCalling (dc : Option DecodeCache) (m : Machine) : Option Machine :=
  match m.dispatching dc with
  | some ((inst, _), m') =>
    if isEcall inst ∧ m'.cpu.priv = PRIV_S ∧ m'.cpu.handlerInstalled CAUSE_ECALL_S = false then some m' else none
  | none => none

theorem SbiCallAt.sbiCalling (h : SbiCallAt dc m m') :
    m.sbiCalling dc = some m' := by
  obtain ⟨inst, ilen, hd, he⟩ := h.ecall
  unfold Machine.sbiCalling
  rw [hd]
  exact if_pos ⟨he, h.priv, h.firmware⟩

theorem sbiCallAt_of_sbiCalling (h : m.sbiCalling dc = some m') :
    SbiCallAt dc m m' := by
  unfold sbiCalling at h
  split at h
  · next inst ilen m1 hd =>
    split at h
    · next hc =>
      cases h
      exact ⟨⟨inst, ilen, hd, hc.1⟩, hc.2.1, hc.2.2⟩
    · cases h
  · cases h

theorem exists_sbiCallAt {p : Machine → Bool}
    (h : (m.sbiCalling dc).any p = true) : ∃ m', SbiCallAt dc m m' ∧ p m' = true := by
  cases hm : m.sbiCalling dc with
  | none =>
    rw [hm] at h
    cases h
  | some m' =>
    rw [hm] at h
    exact ⟨m', sbiCallAt_of_sbiCalling hm, h⟩

/-- The commit tail after an SBI call: the pc moves past the ECALL unless the call halted the hart. -/
def returned (m : Machine) : Machine :=
  if m.cpu.halted then m
  else if (m.cpu.pc + 4).getLsbD 0 then m.raiseTrap CAUSE_INSN_MISALIGNED (m.cpu.pc + 4)
  else m.setCpu { m.cpu with instret := m.cpu.instret + 1, pc := sextXlen m.xlen (m.cpu.pc + 4) }

theorem returned_of_halted (h : m.cpu.halted = true) : m.returned = m := if_pos h

theorem mem_sbiSetTimer (m : Machine) (lo hi : BitVec 32) : (m.sbiSetTimer lo hi).bus.mem = m.bus.mem := by
  unfold sbiSetTimer armSupervisorTimer
  dsimp only
  split <;> rfl

theorem mem_sbiHsm (m : Machine) (fid : BitVec 32) : (m.sbiHsm fid).bus.mem = m.bus.mem := by
  unfold sbiHsm hartStart hartGetStatus hartSuspend
  dsimp only
  split
  · split
    · rfl
    · split <;> rfl
  · rfl
  · split <;> rfl
  · split
    · rfl
    · split <;> rfl
  · rfl

/-- An SBI call does not touch the RAM. -/
theorem mem_sbiCall (m : Machine) : m.sbiCall.bus.mem = m.bus.mem := by
  unfold sbiCall
  dsimp only
  split
  · rfl
  split
  · rfl
  split
  · exact m.mem_sbiSetTimer _ _
  split
  · rfl
  split
  · unfold sbiBase
    split <;> rfl
  split
  · unfold sbiTime
    split
    · exact m.mem_sbiSetTimer _ _
    · rfl
  split
  · unfold sbiSrst
    split
    · split <;> rfl
    · rfl
  split
  · exact m.mem_sbiHsm _
  · rfl

/-- An SBI call does not raise a trap. -/
theorem trapped_sbiCall (hp : m.cpu.priv = PRIV_S) (ht : m.cpu.trapped = false) :
    m.sbiCall.cpu.trapped = false :=
  ((untrapped_inv .free).acts (m.acts_sbiCall hp (fun _ => trivial) fun _ => trivial) ⟨ht, fun _ _ => trivial⟩).self

/-- A step that makes an SBI call is the call followed by its return. -/
theorem step_of_sbiCallAt (h : SbiCallAt dc m m') :
    (m.step dc).2 = m'.sbiCall.returned := by
  obtain ⟨inst, ilen, hd, he⟩ := h.ecall
  have hat := h.atDispatch
  have htrapped : m'.sbiCall.cpu.trapped = false := trapped_sbiCall h.priv (by rw [hat.cpu])
  have hfault : m'.sbiCall.bus.mem.fault = false := by rw [mem_sbiCall]; exact hat.fault
  simp only [isEcall, Bool.and_eq_true, decide_eq_true_eq] at he
  obtain ⟨⟨⟨hop, h3⟩, h7⟩, hc⟩ := he
  have hcause : CAUSE_ECALL_U + m'.cpu.priv = CAUSE_ECALL_S := by rw [h.priv]; rfl
  have hdisp : m'.dispatch inst ilen = m'.sbiCall.thenPc4 := by
    unfold dispatch
    simp only [hop]
    unfold execSystem
    rw [if_pos h3, if_neg h7, hc, hcause, raiseTrap, if_neg (by rw [h.firmware]; decide), legacyTrap, if_pos rfl]
    rfl
  rw [step_of_dispatching hd, execute, hdisp]
  unfold thenPc4 commit returned
  dsimp only
  rw [if_neg (by rw [hfault]; decide), if_neg (by rw [htrapped]; decide)]

/-- The return of a call changes only the calling hart. -/
theorem harts_returned (m : Machine) {i : Nat} (hi : i ≠ m.self) : m.returned.harts i = m.harts i := by
  unfold returned
  split
  · rfl
  split
  · unfold raiseTrap
    split
    · exact m.harts_setCpu_of_ne _ hi
    · exact m.harts_setCpu_of_ne _ hi
  · exact m.harts_setCpu_of_ne _ hi

/-! ## Resetting the system -/

/-- The call resets the system: the legacy shutdown, or a system reset of a valid type. -/
def IsReset (m : Machine) : Prop :=
  lo32 (m.regRead REG_A7) = EXT_SHUTDOWN ∨
  (lo32 (m.regRead REG_A7) = EXT_SRST ∧ lo32 (m.regRead REG_A6) = 0 ∧ (lo32 (m.regRead REG_A0)).ule 2 = true)

instance (m : Machine) : Decidable m.IsReset := inferInstanceAs (Decidable (_ ∨ _))

theorem sbiCall_of_isReset (h : m.IsReset) : m.sbiCall = m.sbiHalt := by
  unfold sbiCall
  rcases h with h | ⟨h, h6, h0⟩
  · simp only [h, EXT_SHUTDOWN, EXT_PUTCHAR, EXT_GETCHAR, EXT_SET_TIMER]
    rfl
  · simp only [h, h6, sbiSrst, if_pos h0, EXT_SRST, EXT_SHUTDOWN, EXT_PUTCHAR, EXT_GETCHAR, EXT_SET_TIMER,
      EXT_BASE, EXT_TIME]
    rfl

/-- A reset halts the calling hart, and nothing else. -/
theorem step_of_reset (h : SbiCallAt dc m m') (hr : m'.IsReset) :
    (m.step dc).2 = m'.sbiHalt := by
  rw [step_of_sbiCallAt h, sbiCall_of_isReset hr]
  refine returned_of_halted ?_
  unfold sbiHalt
  rw [cpu_setCpu]
  rfl

/-! ## Hart state management -/

/-- The call is function `fid` of the HSM extension. -/
def IsHsm (m : Machine) (fid : BitVec 32) : Prop :=
  lo32 (m.regRead REG_A7) = EXT_HSM ∧ lo32 (m.regRead REG_A6) = fid

instance (m : Machine) (fid : BitVec 32) : Decidable (m.IsHsm fid) := inferInstanceAs (Decidable (_ ∧ _))

theorem sbiCall_of_isHsm {fid : BitVec 32} (h : m.IsHsm fid) : m.sbiCall = m.sbiHsm fid := by
  unfold sbiCall
  simp only [h.1, h.2, EXT_HSM, EXT_SRST, EXT_SHUTDOWN, EXT_PUTCHAR, EXT_GETCHAR, EXT_SET_TIMER, EXT_BASE, EXT_TIME]
  rfl

/-- The hart a `hart_start` call names, by the low 32 bits of a0. -/
def named (m : Machine) : Option Nat := m.hsmHart (lo32 (m.regRead REG_A0))

/-- The call is a `hart_start` that names hart `t`, which exists and is stopped. -/
structure Starts (m : Machine) (t : Nat) : Prop where
  call : m.IsHsm 0
  target : m.named = some t
  stopped : (m.harts t).hsmState = .stopped

/-- The call is a `hart_stop`. -/
def Stops (m : Machine) : Prop := m.IsHsm 1

theorem sbiCall_of_starts {t : Nat} (h : m.Starts t) :
    m.sbiCall = (m.setHart t (hsmEnter (m.harts t) (m.regRead REG_A1) (m.regRead REG_A2))).sbiReturn
      SBI_SUCCESS 0 := by
  rw [sbiCall_of_isHsm h.call]
  show m.hartStart = _
  unfold hartStart
  have htarget : m.hsmHart (lo32 (m.regRead REG_A0)) = some t := h.target
  simp only [htarget, h.stopped]

end Machine
end Quanta
