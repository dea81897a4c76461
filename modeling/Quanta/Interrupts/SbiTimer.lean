/-
The SBI timer. A set_timer call programs the hart's CLINT comparator, clears STIP and arms a latch;
from then on the prologue of the hart's own steps relays the first reached deadline as STIP, once.
Over a run with no other write to the timer, STIP follows the comparator exactly. The comparator
is what was asked for on RV32; on RV64 the dispatcher cuts a0 and a1 to 32 bits and joins the halves.
-/
import Quanta.Effects.System
import Quanta.Hart.Status
import Quanta.Hsm.Calls
import Quanta.Lib.Bits

namespace Quanta

open Relation Run

/-! ## The timer state of a hart -/

namespace CPU

/-- `mip.STIP`. -/
def stip (c : CPU) : Bool := (c.csr CSR_MIP).getLsbD IRQ_STIMER

/-- STIP as software reads it in `sip`. -/
def sipStip (c : CPU) (b : Bus) : Bool := (c.csrRead b CSR_SIP).getLsbD IRQ_STIMER

theorem sipStip_eq (c : CPU) (b : Bus) : c.sipStip b = c.stip := by
  have hread : c.csrRead b CSR_SIP = c.csr CSR_MIP &&& S_INT_MASK := rfl
  have hmask : S_INT_MASK.getLsbD IRQ_STIMER = true := by decide
  unfold sipStip stip
  rw [hread, BitVec.getLsbD_and, hmask, Bool.and_true]

/-- STIP, the timer latch and the hart's id are the same. -/
structure SameTimer (c c' : CPU) : Prop where
  stip : c'.stip = c.stip
  armed : c'.sbiTimerArmed = c.sbiTimerArmed
  hartid : c'.hartid = c.hartid

namespace SameTimer

variable {c c' c'' : CPU}

theorem refl (c : CPU) : SameTimer c c := ⟨rfl, rfl, rfl⟩

theorem trans (h : SameTimer c c') (h' : SameTimer c' c'') : SameTimer c c'' :=
  ⟨h'.stip.trans h.stip, h'.armed.trans h.armed, h'.hartid.trans h.hartid⟩

/-- An update that leaves `mip`, the latch and the id alone. -/
theorem of_mip (hm : c'.csr CSR_MIP = c.csr CSR_MIP) (ha : c'.sbiTimerArmed = c.sbiTimerArmed)
    (hi : c'.hartid = c.hartid) : SameTimer c c' :=
  ⟨congrArg (BitVec.getLsbD · IRQ_STIMER) hm, ha, hi⟩

theorem regWrite (c : CPU) (i : BitVec 5) (v : BitVec 64) : SameTimer c (c.regWrite i v) := by
  unfold CPU.regWrite
  split
  · exact refl c
  · exact ⟨rfl, rfl, rfl⟩

theorem enterTrap (c : CPU) (cause tval : BitVec 64) (toS : Bool) : SameTimer c (c.enterTrap cause tval toS) := by
  refine of_mip ?_ (enterTrap_sbiTimerArmed ..) (enterTrap_hartid ..)
  cases toS with
  | true => exact c.enterTrap_csr_S cause tval CSR_MIP
  | false => exact c.enterTrap_csr_M cause tval CSR_MIP

theorem hsmEnter (c : CPU) (pc a : BitVec 64) : SameTimer c (Machine.hsmEnter c pc a) := by
  let t : CPU := { c with pc := pc, priv := PRIV_S }
  have hargs : SameTimer c ((t.regWrite Machine.REG_A0 (t.hartid.setWidth 64)).regWrite Machine.REG_A1 a) :=
    (show SameTimer c t from ⟨rfl, rfl, rfl⟩).trans ((regWrite _ _ _).trans (regWrite _ _ _))
  exact hargs.trans (of_mip rfl rfl rfl)

end SameTimer
end CPU

/-! ## What leaves the timer state alone -/

/-- Every write of a CSR or of the latch keeps the timer state. -/
def steady : Guard := { Guard.free with edit := CPU.SameTimer }

theorem keeps_sameTimer : Keeps steady CPU.SameTimer where
  refl := .refl
  trans := .trans
  act c c' h := by
    cases h with
    | regWrite i v => exact .regWrite c i v
    | csrWrite addr v _ hok => exact hok
    | translate b va acc _ =>
      obtain ⟨t, ht⟩ := mmuTranslate_cpu c b va acc
      rw [ht]
      exact ⟨rfl, rfl, rfl⟩
    | resume pc a _ _ => exact .hsmEnter c pc a
    | timer v armed _ hok => exact hok
    | refreshMip b _ hok => exact hok
    | _ => exact ⟨rfl, rfl, rfl⟩
  start := .hsmEnter

theorem sameTimer_stepOut {m m' : Machine} (h : StepOut steady m m') : m.cpu.SameTimer m'.cpu := by
  refine keeps_sameTimer.stepOut h fun x _ y he => ?_
  cases he with
  | mk cause tval toS _ _ =>
    rw [Machine.cpu_setCpu]
    exact .enterTrap _ cause tval toS

/-! ## The prologue -/

/-- The CLINT line is up exactly when the comparator is reached. -/
theorem mtip_iff {p : Platform} {hart : BitVec 32} (h : hart.toNat < QUANTA_MAX_HARTS) :
    platMipBits p hart &&& MIP_MTIP ≠ 0 ↔ (p.clint.mtimecmp hart.toNat).ule p.clint.mtime = true := by
  unfold platMipBits
  dsimp only
  rw [if_pos h]
  generalize hplic : (if plicLines p ≠ 0 then _ else _ : BitVec 32) = plic
  have hzero : plic &&& MIP_MTIP = 0#32 := by
    rw [← hplic]
    split
    · split <;> split <;> decide
    · decide
  rw [BitVec.and_or_distrib_right, hzero, BitVec.or_zero]
  unfold Clint.timerReached
  cases (p.clint.mtimecmp hart.toNat).ule p.clint.mtime <;> cases (p.clint.msip hart.toNat).getLsbD 0 <;> decide

namespace CPU

variable (c : CPU) (b : Bus)

theorem sameTimer_effectiveMip : c.SameTimer (c.effectiveMip b).2 := by
  unfold effectiveMip
  split
  · refine ⟨?_, rfl, rfl⟩
    have hlive : (c.liveMip b).getLsbD IRQ_STIMER = c.stip := c.liveMip_getLsbD b (by decide) (by decide)
    rw [← hlive]
    unfold stip
    rw [setCsr_apply, if_pos rfl, BitVec.getLsbD_setWidth]
    rfl
  · exact .refl c

theorem sameTimer_takeInterrupt : c.SameTimer (c.takeInterrupt b).2 := by
  rcases c.takeInterrupt_cases b with h | ⟨i, _, _, h⟩
  · rw [h]
    exact c.sameTimer_effectiveMip b
  · rw [h]
    exact (c.sameTimer_effectiveMip b).trans (.enterTrap ..)

/-- Has `mtime` reached the hart's comparator? -/
def timerDue (c : CPU) (b : Bus) : Bool := (b.plat.clint.mtimecmp c.hartid.toNat).ule b.plat.clint.mtime

/-- What the prologue makes of the timer state: a reached deadline is relayed once. -/
structure Relayed (c : CPU) (b : Bus) (c' : CPU) : Prop where
  stip : c'.stip = (c.stip || (c.sbiTimerArmed && c.timerDue b))
  armed : c'.sbiTimerArmed = (c.sbiTimerArmed && !c.timerDue b)
  hartid : c'.hartid = c.hartid

theorem Relayed.sameTimer {c c' c'' : CPU} {b : Bus} (h : c.Relayed b c') (h' : c'.SameTimer c'') : c.Relayed b c'' :=
  ⟨h'.stip.trans h.stip, h'.armed.trans h.armed, h'.hartid.trans h.hartid⟩

theorem relayed_firmwareTimerTick (hid : c.hartid.toNat < QUANTA_MAX_HARTS) : c.Relayed b (c.firmwareTimerTick b) := by
  have hdue : platMipBits b.plat c.hartid &&& MIP_MTIP ≠ 0 ↔ c.timerDue b = true := mtip_iff hid
  unfold firmwareTimerTick
  cases ha : c.sbiTimerArmed with
  | false => exact ⟨by simp [ha], by simp [ha], rfl⟩
  | true =>
    simp only [Bool.not_true, Bool.false_eq_true, if_false]
    split
    · next h =>
      have hset : (c.csr CSR_MIP ||| 0x20).getLsbD IRQ_STIMER = true := by
        rw [BitVec.getLsbD_or]
        exact Bool.or_true _
      refine ⟨?_, ?_, rfl⟩
      · unfold stip
        rw [setCsr_apply, if_pos rfl, ha, hdue.mp h, hset]
        simp
      · rw [ha, hdue.mp h]
        rfl
    · next h =>
      have hnot : c.timerDue b = false := Bool.eq_false_iff.mpr (mt hdue.mpr h)
      exact ⟨by simp [ha, hnot], by simp [ha, hnot], rfl⟩

/-- The prologue of a running hart without Sstc. -/
theorem relayed_preStep (hp : b.mem.plat = true) (ho : platPoweroffRequested b.plat = none) (hs : c.stce = false)
    (hid : c.hartid.toNat < QUANTA_MAX_HARTS) : c.Relayed b (c.preStep b).2 := by
  have hstce : (c.firmwareTimerTick b).stce = false := by
    unfold stce at hs ⊢
    rw [(c.samePre_firmwareTimerTick b).csr _ (by decide)]
    exact hs
  have hsstc : (c.firmwareTimerTick b).sstcTick = c.firmwareTimerTick b := by
    unfold sstcTick
    rw [hstce]
    rfl
  have hpre : c.preStep b = (c.firmwareTimerTick b).takeInterrupt b := by
    unfold preStep
    rw [hp, ho, hsstc]
    rfl
  rw [hpre]
  exact (c.relayed_firmwareTimerTick b hid).sameTimer (sameTimer_takeInterrupt _ b)

end CPU

/-! ## One step of the hart itself -/

namespace Machine

variable {m : Machine} {dc : Option DecodeCache}

/-- The stepped hart as its next instruction finds it. -/
def boundary (m : Machine) : CPU := m.beginStep.preStep.2.cpu

/-- The step leaves the timer to the prologue: it makes no set_timer call and its CSR write, if it is
one, leaves STIP as it is. -/
structure HandsOff (dc : Option DecodeCache) (m : Machine) : Prop where
  call : ∀ m', SbiCallAt dc m m' → ¬m'.IsSetTimer
  write : ∀ inst ilen m', m.dispatching dc = some ((inst, ilen), m') → opcode inst = .system →
    funct3 inst ≠ 0x0#3 → csrDenied m'.cpu inst = false → csrWrites inst = true →
    (m'.csrWritten inst).stip = m'.cpu.stip

/-- A CSR write touches neither the latch nor the hart's id. -/
theorem sameTimer_csrWritten {m' : Machine} {inst : BitVec 32} (h : (m'.csrWritten inst).stip = m'.cpu.stip) :
    m'.cpu.SameTimer (m'.csrWritten inst) := by
  refine ⟨h, ?_, ?_⟩
  · unfold csrWritten
    rw [CPU.csrWrite_eq]
    rfl
  · unfold csrWritten
    rw [CPU.csrWrite_eq]
    rfl

theorem HandsOff.edits (h : HandsOff dc m) {inst ilen : BitVec 32} {m' : Machine}
    (hd : m.dispatching dc = some ((inst, ilen), m')) : steady.Edits m' inst where
  csr hop h3 hnd hw := sameTimer_csrWritten (h.write inst ilen m' hd hop h3 hnd hw)
  timer hc ht := absurd ht (h.call m' ⟨⟨inst, ilen, hd, hc.1⟩, hc.2.1, hc.2.2⟩)

/-- After the prologue the step keeps the timer state. -/
theorem HandsOff.step (h : HandsOff dc m) : m.boundary.SameTimer (m.step dc).2.cpu := by
  unfold boundary
  cases hp : m.beginStep.preStep with
  | mk taken m1 =>
    cases taken with
    | true =>
      unfold Machine.step
      rw [hp]
      exact .refl _
    | false =>
      refine sameTimer_stepOut (stepOut_untaken hp (fun _ _ _ _ => trivial) fun inst ilen m' hd hsee => ?_)
      exact stepOut_execute (atDispatch_of_dispatching hd).fault hsee ilen
        ⟨fun _ _ => trivial, fun _ => trivial, fun _ _ => trivial, fun _ => trivial⟩ (h.edits hd)

theorem boundary_eq (m : Machine) :
    m.boundary = ({ m.cpu with trapped := false }.preStep m.bus.clearFault).2 := by
  unfold boundary preStep beginStep
  dsimp only
  rw [cpu_setCpu, cpu_setCpu]
  rfl

/-- What the hart's next instruction finds. -/
theorem relayed_boundary (hp : m.bus.mem.plat = true) (ho : platPoweroffRequested m.bus.plat = none)
    (hs : m.cpu.stce = false) (hid : m.cpu.hartid.toNat < QUANTA_MAX_HARTS) : m.cpu.Relayed m.bus m.boundary := by
  rw [boundary_eq]
  have h := CPU.relayed_preStep { m.cpu with trapped := false } m.bus.clearFault hp ho hs hid
  exact ⟨h.stip, h.armed, h.hartid⟩

/-! ## Runs -/

/-- The comparator of hart `i` and the clock are the same. -/
structure SameClock (i : Nat) (m m' : Machine) : Prop where
  mtime : m'.bus.plat.clint.mtime = m.bus.plat.clint.mtime
  mtimecmp : m'.bus.plat.clint.mtimecmp (m.harts i).hartid.toNat = m.bus.plat.clint.mtimecmp (m.harts i).hartid.toNat

/-- The machine a tick later. -/
def ticked (m : Machine) : Machine := m.setBus (m.bus.setPlat (platTick m.bus.plat))

/-- The runs from `m0` in which nothing but the clock and the prologue moves hart `i`'s timer, with
the values of `mtime` at its instruction boundaries, the last one first. -/
inductive TimerRun (i : Nat) (m0 : Machine) : List (BitVec 64) → Machine → Prop
  | start : TimerRun i m0 [] m0
  | tick {seen : List (BitVec 64)} {m : Machine} (h : TimerRun i m0 seen m) :
      TimerRun i m0 seen m.ticked
  | env {seen : List (BitVec 64)} {m : Machine} (h : TimerRun i m0 seen m) (b : Bus)
      (hplat : b.mem.plat = m.bus.mem.plat) (hclock : SameClock i m (m.setBus b)) : TimerRun i m0 seen (m.setBus b)
  | other {seen : List (BitVec 64)} {m : Machine} (h : TimerRun i m0 seen m) (j : Nat) (dc : Option DecodeCache)
      (hj : j ≠ i) (hrun : (m.harts j).halted = false) (hclock : SameClock i m ((m.onHart j).step dc).2) :
      TimerRun i m0 seen ((m.onHart j).step dc).2
  | own {seen : List (BitVec 64)} {m : Machine} (h : TimerRun i m0 seen m) (dc : Option DecodeCache)
      (hrun : (m.harts i).halted = false) (hon : platPoweroffRequested m.bus.plat = none)
      (hsstc : (m.harts i).stce = false) (hoff : HandsOff dc (m.onHart i))
      (hclock : SameClock i m ((m.onHart i).step dc).2) :
      TimerRun i m0 (m.bus.plat.clint.mtime :: seen) ((m.onHart i).step dc).2

/-- Was the deadline reached at one of these boundaries? -/
def deadlineMet (deadline : BitVec 64) (seen : List (BitVec 64)) : Bool := seen.any deadline.ule

/-- The timer of hart `i` is programmed for `deadline` and relayed exactly if it was met. -/
structure Relaying (i : Nat) (deadline : BitVec 64) (seen : List (BitVec 64)) (m : Machine) : Prop where
  plat : m.bus.mem.plat = true
  hartid : (m.harts i).hartid.toNat < QUANTA_MAX_HARTS
  comparator : m.bus.plat.clint.mtimecmp (m.harts i).hartid.toNat = deadline
  stip : (m.harts i).stip = deadlineMet deadline seen
  armed : (m.harts i).sbiTimerArmed = !deadlineMet deadline seen

namespace Relaying

variable {i : Nat} {deadline : BitVec 64} {seen : List (BitVec 64)} {m m' : Machine}

theorem congr (h : Relaying i deadline seen m) (hplat : m'.bus.mem.plat = m.bus.mem.plat) (hclock : SameClock i m m')
    (hsame : (m.harts i).SameTimer (m'.harts i)) : Relaying i deadline seen m' where
  plat := hplat.trans h.plat
  hartid := by rw [hsame.hartid]; exact h.hartid
  comparator := by rw [hsame.hartid, hclock.mtimecmp]; exact h.comparator
  stip := hsame.stip.trans h.stip
  armed := hsame.armed.trans h.armed

/-- At a boundary STIP is up exactly if the deadline was met before or is met now. -/
theorem boundary (h : Relaying i deadline seen m) (hon : platPoweroffRequested m.bus.plat = none)
    (hsstc : (m.harts i).stce = false) :
    (m.onHart i).boundary.stip = deadlineMet deadline (m.bus.plat.clint.mtime :: seen) ∧
    (m.onHart i).boundary.sbiTimerArmed = !deadlineMet deadline (m.bus.plat.clint.mtime :: seen) ∧
    (m.onHart i).boundary.hartid = (m.harts i).hartid := by
  have hb : (m.harts i).Relayed m.bus (m.onHart i).boundary := @relayed_boundary (m.onHart i) h.plat hon hsstc h.hartid
  have hdue : (m.harts i).timerDue m.bus = deadline.ule m.bus.plat.clint.mtime := by
    unfold CPU.timerDue
    rw [h.comparator]
  have hmet : deadlineMet deadline (m.bus.plat.clint.mtime :: seen) =
      (deadline.ule m.bus.plat.clint.mtime || deadlineMet deadline seen) := List.any_cons
  refine ⟨?_, ?_, hb.hartid⟩
  · rw [hb.stip, h.stip, h.armed, hdue, hmet]
    cases deadline.ule m.bus.plat.clint.mtime <;> cases deadlineMet deadline seen <;> rfl
  · rw [hb.armed, h.armed, hdue, hmet]
    cases deadline.ule m.bus.plat.clint.mtime <;> cases deadlineMet deadline seen <;> rfl

end Relaying

theorem TimerRun.relaying {i : Nat} {deadline : BitVec 64} {m0 m : Machine} {seen : List (BitVec 64)}
    (h : TimerRun i m0 seen m) (h0 : Relaying i deadline [] m0) : Relaying i deadline seen m := by
  induction h with
  | start => exact h0
  | tick _ ih => exact ⟨ih.plat, ih.hartid, ih.comparator, ih.stip, ih.armed⟩
  | env _ b hplat hclock ih => exact ih.congr hplat hclock (.refl _)
  | @other seen m _ j dc hj _ hclock ih =>
    exact ih.congr (step_shape dc (m.onHart j)).plat hclock (keeps_sameTimer.step_other (m := m.onHart j) dc (Ne.symm hj))
  | @own seen m _ dc _ hon hsstc hoff hclock ih =>
    obtain ⟨hstip, harmed, hid⟩ := ih.boundary hon hsstc
    have hself : ((m.onHart i).step dc).2.self = i := self_step dc (m.onHart i)
    have hsame : (m.onHart i).boundary.SameTimer (((m.onHart i).step dc).2.harts i) := by
      have hs := hoff.step
      unfold cpu at hs
      rw [hself] at hs
      exact hs
    have hhart : (((m.onHart i).step dc).2.harts i).hartid = (m.harts i).hartid := hsame.hartid.trans hid
    exact
      { plat := (step_shape dc (m.onHart i)).plat.trans ih.plat
        hartid := by rw [hhart]; exact ih.hartid
        comparator := by rw [hhart, hclock.mtimecmp]; exact ih.comparator
        stip := hsame.stip.trans hstip
        armed := hsame.armed.trans harmed }

/-! ## The call -/

/-- The deadline the caller asks for: a0 on RV64, a1 and a0 on RV32. -/
def requested (m : Machine) : BitVec 64 :=
  match m.cpu.xlen with
  | .rv64 => m.regRead REG_A0
  | .rv32 => lo32 (m.regRead REG_A1) ++ lo32 (m.regRead REG_A0)

/-- The deadline the call programs. -/
def programmed (m : Machine) : BitVec 64 :=
  ((lo32 (m.regRead REG_A1)).setWidth 64 <<< 32) ||| (lo32 (m.regRead REG_A0)).setWidth 64

/-- The dispatcher's two halves are the deadline: always on RV32; on RV64 when a1 holds the upper
half of a0. -/
def DeadlineFits (m : Machine) : Prop :=
  m.cpu.xlen = .rv32 ∨ (m.regRead REG_A0).extractLsb' 32 32 = lo32 (m.regRead REG_A1)

instance (m : Machine) : Decidable m.DeadlineFits := inferInstanceAs (Decidable (_ ∨ _))

theorem programmed_eq (m : Machine) : m.programmed = lo32 (m.regRead REG_A1) ++ lo32 (m.regRead REG_A0) :=
  Bits.shiftLeft_or_eq_append (u := 32) (v := 32) _ _

theorem programmed_eq_requested_iff (m : Machine) : m.programmed = m.requested ↔ m.DeadlineFits := by
  rw [programmed_eq]
  unfold requested DeadlineFits
  cases m.cpu.xlen with
  | rv32 => simp
  | rv64 =>
    simp only [reduceCtorEq, false_or]
    refine (Bits.append_eq_iff (u := 32) (v := 32)).trans (and_iff_left ?_)
    rfl

theorem sbiCall_of_isSetTimer {m : Machine} (h : m.IsSetTimer) :
    m.sbiCall = (m.armSupervisorTimer m.programmed).regWrite REG_A0 0 ∨
    m.sbiCall = (m.armSupervisorTimer m.programmed).sbiReturn SBI_SUCCESS 0 := by
  unfold sbiCall
  rcases h with h | ⟨h, h6⟩
  · left
    simp only [h, EXT_SET_TIMER, EXT_PUTCHAR, EXT_GETCHAR]
    rfl
  · right
    simp only [h, h6, EXT_TIME, EXT_SHUTDOWN, EXT_PUTCHAR, EXT_GETCHAR, EXT_SET_TIMER, EXT_BASE]
    rfl

namespace Relaying

variable {i : Nat} {deadline : BitVec 64} {seen : List (BitVec 64)} {m : Machine}

theorem armSupervisorTimer (hplat : m.bus.mem.plat = true) (hid : m.cpu.hartid.toNat < QUANTA_MAX_HARTS) :
    Relaying m.self deadline [] (m.armSupervisorTimer deadline) := by
  have hcpu : (m.armSupervisorTimer deadline).harts m.self = m.cpu.armTimer := by
    unfold Machine.armSupervisorTimer
    dsimp only
    rw [if_pos hplat]
    exact harts_setCpu_self _ _
  have hbus : (m.armSupervisorTimer deadline).bus.plat.clint.mtimecmp =
      Function.update m.bus.plat.clint.mtimecmp m.cpu.hartid.toNat deadline := by
    unfold Machine.armSupervisorTimer
    dsimp only
    rw [if_pos hplat]
    rfl
  have hclear : m.cpu.armTimer.stip = false := by
    unfold CPU.armTimer CPU.stip
    rw [CPU.setCsr_apply, if_pos rfl, BitVec.getLsbD_and]
    exact Bool.and_false _
  constructor
  · unfold Machine.armSupervisorTimer
    dsimp only
    rw [if_pos hplat]
    exact hplat
  · rw [hcpu]
    exact hid
  · rw [hcpu, hbus]
    exact Function.update_self ..
  · rw [hcpu]
    exact hclear
  · rw [hcpu]
    rfl

theorem regWrite (h : Relaying m.self deadline seen m) (r : BitVec 5) (v : BitVec 64) :
    Relaying m.self deadline seen (m.regWrite r v) := by
  refine h.congr rfl ⟨rfl, rfl⟩ ?_
  unfold Machine.regWrite
  rw [m.harts_setCpu_self]
  exact .regWrite _ r v

theorem returned (h : Relaying m.self deadline seen m) : Relaying m.self deadline seen m.returned := by
  have hbus : m.returned.bus = m.bus := by
    unfold Machine.returned
    split
    · rfl
    split
    · unfold raiseTrap
      split <;> rfl
    · rfl
  have hcpu : m.cpu.SameTimer m.returned.cpu := by
    unfold Machine.returned
    split
    · exact .refl _
    split
    · exact sameTimer_stepOut (stepOut_raiseTrap m _ (raisedAt_const _ (by decide) (by decide)))
    · rw [cpu_setCpu]
      exact ⟨rfl, rfl, rfl⟩
  have hself : m.returned.self = m.self := by
    unfold Machine.returned
    split
    · rfl
    split
    · unfold raiseTrap
      split <;> rfl
    · rfl
  refine h.congr (by rw [hbus]) ⟨by rw [hbus], by rw [hbus]⟩ ?_
  unfold cpu at hcpu
  rw [hself] at hcpu
  exact hcpu

end Relaying

/-- A set_timer call leaves the hart's timer programmed, armed and not pending. -/
theorem relaying_of_setTimer {m m' : Machine} {dc : Option DecodeCache} {i : Nat} (hplat : m.bus.mem.plat = true)
    (hid : (m.harts i).hartid.toNat < QUANTA_MAX_HARTS) (hcall : SbiCallAt dc (m.onHart i) m')
    (hset : m'.IsSetTimer) : Relaying i m'.programmed [] ((m.onHart i).step dc).2 := by
  have hat := hcall.atDispatch
  have hself : m'.self = i := hat.self
  have hid' : m'.cpu.hartid.toNat < QUANTA_MAX_HARTS := by
    rw [hat.cpu]
    exact hid
  have harm : Relaying m'.self m'.programmed [] (m'.armSupervisorTimer m'.programmed) :=
    .armSupervisorTimer (hat.shape.plat.trans hplat) hid'
  have harms : (m'.armSupervisorTimer m'.programmed).self = m'.self := by
    unfold armSupervisorTimer
    dsimp only
    split <;> rfl
  rw [← harms] at harm
  have hsbi : Relaying (m'.armSupervisorTimer m'.programmed).self m'.programmed [] m'.sbiCall := by
    rcases sbiCall_of_isSetTimer hset with h | h
    · rw [h]
      exact harm.regWrite _ _
    · rw [h]
      exact Relaying.regWrite (m := (m'.armSupervisorTimer m'.programmed).regWrite REG_A0 _) (harm.regWrite _ _) _ _
  have hsbis : m'.sbiCall.self = (m'.armSupervisorTimer m'.programmed).self := by
    rcases sbiCall_of_isSetTimer hset with h | h <;> rw [h] <;> rfl
  rw [← hsbis] at hsbi
  rw [step_of_sbiCallAt hcall, ← hself, ← harms, ← hsbis]
  exact hsbi.returned

/-! ## The contract -/

theorem deadlineMet_iff {deadline : BitVec 64} {seen : List (BitVec 64)} :
    deadlineMet deadline seen = true ↔ ∃ t ∈ seen, deadline ≤ t := by
  unfold deadlineMet
  simp only [List.any_eq_true, BitVec.ule_iff_le]

/-- After a set_timer call whose deadline the dispatcher keeps whole, STIP is clear; and at the hart's
boundaries in any run that leaves the timer alone it is up from the first one at which `mtime` has
reached the deadline, and not before. -/
theorem sbi_timer_contract {m m' n : Machine} {dc : Option DecodeCache} {i : Nat} {seen : List (BitVec 64)}
    (hplat : m.bus.mem.plat = true) (hid : (m.harts i).hartid.toNat < QUANTA_MAX_HARTS)
    (hcall : SbiCallAt dc (m.onHart i) m') (hset : m'.IsSetTimer) (hfits : m'.DeadlineFits)
    (hrun : TimerRun i ((m.onHart i).step dc).2 seen n) :
    (((m.onHart i).step dc).2.harts i).sipStip ((m.onHart i).step dc).2.bus = false ∧
    (platPoweroffRequested n.bus.plat = none → (n.harts i).stce = false →
      ((n.onHart i).boundary.sipStip n.bus = true ↔ ∃ t ∈ n.bus.plat.clint.mtime :: seen, m'.requested ≤ t) ∧
      ((∀ t ∈ seen, t ≤ n.bus.plat.clint.mtime) →
        ((n.onHart i).boundary.sipStip n.bus = true ↔ m'.requested ≤ n.bus.plat.clint.mtime))) := by
  have h0 : Relaying i m'.requested [] ((m.onHart i).step dc).2 := by
    rw [← (programmed_eq_requested_iff m').mpr hfits]
    exact relaying_of_setTimer hplat hid hcall hset
  have hn := hrun.relaying h0
  refine ⟨?_, fun hon hsstc => ?_⟩
  · rw [CPU.sipStip_eq]
    exact h0.stip
  have hstip : (n.onHart i).boundary.sipStip n.bus = true ↔
      ∃ t ∈ n.bus.plat.clint.mtime :: seen, m'.requested ≤ t := by
    rw [CPU.sipStip_eq, (hn.boundary hon hsstc).1]
    exact deadlineMet_iff
  refine ⟨hstip, fun hmono => hstip.trans ⟨?_, fun h => ⟨_, List.mem_cons_self, h⟩⟩⟩
  rintro ⟨t, ht, hle⟩
  -- without a wrap of the clock, a deadline met at an earlier boundary is still met
  rcases List.mem_cons.mp ht with rfl | ht
  · exact hle
  · exact BitVec.le_trans hle (hmono t ht)

/-- An RV64 hart in S about to make the legacy call with this a0. -/
def callingTimer (deadline : BitVec 64) : Machine :=
  let m := load .rv64 1 0x80000000 0x1000 0x80000000 [0x00000073]
  m.setCpu ({ m.cpu with priv := PRIV_S }.regWrite REG_A0 deadline)

/-- A deadline one tick away: the call, then the tick. -/
theorem sbi_timer_contract_one :
    ((((callingTimer 1).onHart 0).step none).2.ticked.onHart 0).boundary.sipStip
      (((callingTimer 1).onHart 0).step none).2.ticked.bus = true := by
  obtain ⟨m', hcall, hp⟩ : ∃ m', SbiCallAt none ((callingTimer 1).onHart 0) m' ∧
      (decide m'.IsSetTimer && decide m'.DeadlineFits && decide (m'.requested = 1)) = true :=
    exists_sbiCallAt (by decide +kernel)
  simp only [Bool.and_eq_true, decide_eq_true_eq] at hp
  obtain ⟨⟨hset, hfits⟩, hreq⟩ := hp
  have hrun : TimerRun 0 (((callingTimer 1).onHart 0).step none).2 [] (((callingTimer 1).onHart 0).step none).2.ticked :=
    .tick .start
  have hon : platPoweroffRequested (((callingTimer 1).onHart 0).step none).2.ticked.bus.plat = none := by decide +kernel
  have hsstc : ((((callingTimer 1).onHart 0).step none).2.ticked.harts 0).stce = false := by decide +kernel
  have hnow : (1 : BitVec 64) ≤ (((callingTimer 1).onHart 0).step none).2.ticked.bus.plat.clint.mtime := by decide +kernel
  have hplat : (callingTimer 1).bus.mem.plat = true := by decide +kernel
  have hid : ((callingTimer 1).harts 0).hartid.toNat < QUANTA_MAX_HARTS := by decide +kernel
  refine ((sbi_timer_contract hplat hid hcall hset hfits hrun).2 hon hsstc).1.mpr ⟨_, List.mem_cons_self, ?_⟩
  rw [hreq]
  exact hnow

/-- On RV64 the upper half of a0 is lost: with a deadline of 2 ^ 32 and `mtime` still 0, STIP is up at
the boundary right after the call. -/
theorem wide_deadline_early :
    (((callingTimer 0x100000000).onHart 0).sbiCalling none).any
      (fun m' => decide m'.IsSetTimer && m'.requested == 0x100000000#64) = true ∧
    let after := (((callingTimer 0x100000000).onHart 0).step none).2
    after.bus.plat.clint.mtime = 0 ∧ (after.harts 0).stce = false ∧
      (after.onHart 0).boundary.sipStip after.bus = true := by
  refine ⟨by decide +kernel, ?_⟩
  intro after
  exact ⟨by decide +kernel, by decide +kernel, by decide +kernel⟩

end Machine
end Quanta
