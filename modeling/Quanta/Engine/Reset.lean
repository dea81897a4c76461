/-
System reset across harts. An SBI reset halts the calling hart only, and the machine's halt is
polled from the harts afterwards, so whether the machine has stopped depends on what every other
hart was doing when the reset was made.
-/
import Quanta.Engine.Runs
import Quanta.Hsm.Calls
import Quanta.Paging.Tables

namespace Quanta

open Relation Run

namespace Machine

/-! ## No power-off is requested before the call -/

theorem fetchMiss_power {m m' : Machine} {loPa : BitVec 64} {f : Fetched} (h : m.fetchMiss loPa = (some f, m')) :
    platPoweroffRequested m'.bus.plat = platPoweroffRequested m.bus.plat := by
  have hlo := memRead_power m.bus loPa 2
  unfold fetchMiss at h
  dsimp only at h
  split at h
  · cases h
  split at h
  · split at h
    · cases h
    · cases h
      exact hlo
  · split at h
    · cases h
    · next hiPa m1 ht =>
      have hm1 : m1 = ((m.setBus (memRead16 m.bus loPa).2).translate (m.cpu.pc + 2) .fetch).2 := by rw [ht]
      have htr : platPoweroffRequested m1.bus.plat = platPoweroffRequested m.bus.plat := by
        rw [hm1]
        exact (mmuTranslate_power ..).trans hlo
      split at h
      · cases h
      · cases h
        exact (memRead_power m1.bus hiPa 2).trans htr

theorem fetch_power {dc dc' : Option DecodeCache} {m m' : Machine} {i : BitVec 32 × BitVec 32}
    (h : m.fetch dc = (some i, dc', m')) :
    platPoweroffRequested m'.bus.plat = platPoweroffRequested m.bus.plat := by
  unfold fetch at h
  dsimp only at h
  split at h
  · cases h
  · next loPa m1 ht =>
    have hm1 : m1 = (m.translate m.cpu.pc .fetch).2 := by rw [ht]
    have htr : platPoweroffRequested m1.bus.plat = platPoweroffRequested m.bus.plat := by
      rw [hm1]
      exact mmuTranslate_power ..
    split at h
    · cases h
      exact htr
    · split at h
      · cases h
      · next hmiss =>
        cases h
        exact (fetchMiss_power hmiss).trans htr

/-- A step gets as far as executing only if no power-off was requested. -/
theorem dispatching_power {dc : Option DecodeCache} {m m' : Machine} {i : BitVec 32 × BitVec 32}
    (hp : m.bus.mem.plat = true) (h : m.dispatching dc = some (i, m')) :
    platPoweroffRequested m'.bus.plat = none := by
  unfold dispatching at h
  split at h
  · cases h
  · next m1 hpre =>
    have hm1 : m1.bus = m.bus.clearFault := by
      obtain ⟨c, _, rfl⟩ := preStep_untaken hpre
      rfl
    have hnone : platPoweroffRequested m.bus.plat = none := by
      unfold preStep CPU.preStep at hpre
      have hp' : m.beginStep.bus.mem.plat = true := hp
      rw [hp'] at hpre
      cases hreq : platPoweroffRequested m.bus.plat with
      | none => rfl
      | some code =>
        have hreq' : platPoweroffRequested m.beginStep.bus.plat = some code := hreq
        rw [hreq'] at hpre
        cases hpre
    split at h
    · next hfetch =>
      cases h
      rw [fetch_power hfetch, hm1]
      exact hnone
    · cases h

end Machine

namespace Handle

variable {q : Handle} {m' : Machine}

/-! ## A reset in a slot -/

/-- The hart whose slot it is completes a system reset, at `m'`. -/
structure ResetsAt (q : Handle) (m' : Machine) : Prop where
  running : (q.machine.harts q.sched).halted = false
  call : Machine.SbiCallAt (q.dcaches q.sched) (q.tick.machine.onHart q.sched) m'
  reset : m'.IsReset

/-- The machine has stopped for good: neither call changes it any more, and both report a clean
exit with status 0. -/
structure StoppedClean (q : Handle) : Prop where
  step : q.quantaStep = (.exit, q)
  run : ∀ maxSteps, q.quantaRun maxSteps = (.exit, 0, q)
  status : q.quantaExitCode = 0

theorem stoppedClean_iff_of_mHalted (hl : q.loaded = true) (h : q.mHalted = true) :
    q.StoppedClean ↔ q.mReason = .exit ∧ q.mExit = 0 := by
  have hstep : q.quantaStep = (mapHalt q.mReason, q) := by
    unfold quantaStep
    rw [hl, h]
    rfl
  have hrun : ∀ maxSteps, q.quantaRun maxSteps = (mapHalt q.mReason, 0, q) := by
    intro maxSteps
    unfold quantaRun
    rw [if_pos hl, runLoop_of_end (Or.inl h)]
    dsimp only
    rw [if_pos h]
  have hmap : mapHalt q.mReason = .exit ↔ q.mReason = .exit := by
    cases q.mReason <;> decide
  constructor
  · intro hs
    exact ⟨hmap.mp (congrArg Prod.fst (hstep.symm.trans hs.step)), hs.status⟩
  · rintro ⟨hr, he⟩
    refine ⟨?_, fun maxSteps => ?_, he⟩
    · rw [hstep, hmap.mpr hr]
    · rw [hrun, hmap.mpr hr]

/-- A machine that is still polled as running is not stopped: its next slot moves the cursor. -/
theorem not_stoppedClean_of_running (hq : q.Sound) (h : q.mHalted = false) (hn : 1 < q.nharts) :
    ¬q.StoppedClean := by
  intro hs
  have hslot : q.slot = q := by
    have hstep := congrArg Prod.snd hs.step
    unfold quantaStep at hstep
    rw [hq.loaded, h] at hstep
    exact hstep
  have hsched := q.sched_slot
  rw [hslot] at hsched
  have hlt := hq.sched_lt
  split at hsched <;> omega

/-! ## What the poll finds -/

section Poll

variable {q : Handle} (hp : platPoweroffRequested q.machine.bus.plat = none)
include hp

theorem mHalted_machinePollHalt (hm : q.mHalted = false) :
    q.machinePollHalt.mHalted = true ↔ ∀ i < q.nharts, (q.machine.harts i).halted = true := by
  unfold machinePollHalt
  rw [hp]
  dsimp only
  split
  · next hall =>
    simp only [List.all_eq_true, List.mem_range] at hall
    exact ⟨fun _ => hall, fun _ => rfl⟩
  · next hall =>
    simp only [List.all_eq_true, List.mem_range] at hall
    rw [hm]
    exact ⟨(fun h => nomatch h), fun h => absurd h hall⟩

/-- Once every hart has halted, the machine reports a clean exit with status 0 exactly when every
hart exited and hart 0's status is 0. -/
theorem clean_machinePollHalt (hpos : 0 < q.nharts) (hall : ∀ i < q.nharts, (q.machine.harts i).halted = true) :
    (q.machinePollHalt.mReason = .exit ∧ q.machinePollHalt.mExit = 0) ↔
    (∀ i < q.nharts, (q.machine.harts i).haltReason = .exit) ∧ (q.machine.harts 0).exitCode = 0 := by
  have hall' : (List.range q.nharts).all (fun i => (q.machine.harts i).halted) = true := by
    simpa only [List.all_eq_true, List.mem_range] using hall
  unfold machinePollHalt
  rw [hp]
  dsimp only
  rw [if_pos hall']
  cases hf : (List.range q.nharts).find? fun i => (q.machine.harts i).haltReason ≠ .exit with
  | some i =>
    have hbad := List.find?_some hf
    simp only [ne_eq, decide_not, Bool.not_eq_eq_eq_not, Bool.not_true, decide_eq_false_iff_not] at hbad
    have hi : i < q.nharts := List.mem_range.mp (List.mem_of_find?_eq_some hf)
    exact ⟨fun h => absurd h.1 hbad, fun h => absurd (h.1 i hi) hbad⟩
  | none =>
    have hgood : ∀ i < q.nharts, (q.machine.harts i).haltReason = .exit := by
      simpa using hf
    exact ⟨fun h => ⟨hgood, h.2⟩, fun h => ⟨hgood 0 hpos, h.2⟩⟩

end Poll

/-! ## The harts after a reset -/

theorem machine_slot_of_resetsAt (h : q.ResetsAt m') : q.slot.machine = m'.sbiHalt := by
  have hd : q.tick.dcaches = q.dcaches := by
    unfold tick
    split <;> rfl
  rw [machine_slot, stepHart, sched_tick, harts_tick, if_neg (by rw [h.running]; decide), hd]
  exact Machine.step_of_reset h.call h.reset

theorem self_of_resetsAt (h : q.ResetsAt m') : m'.self = q.sched := h.call.atDispatch.self

theorem hart_of_resetsAt (h : q.ResetsAt m') :
    (q.slot.machine.harts q.sched).halted = true ∧ (q.slot.machine.harts q.sched).haltReason = .exit ∧
      (q.slot.machine.harts q.sched).exitCode = 0 := by
  have hself : q.slot.machine.harts q.sched = { m'.cpu.halt .exit with exitCode := 0 } := by
    rw [machine_slot_of_resetsAt h, ← self_of_resetsAt h]
    exact m'.harts_setCpu_self _
  rw [hself]
  exact ⟨rfl, rfl, rfl⟩

theorem others_of_resetsAt (h : q.ResetsAt m') {i : Nat} (hi : i ≠ q.sched) :
    q.slot.machine.harts i = q.machine.harts i := by
  have hne : i ≠ m'.self := by
    rw [self_of_resetsAt h]
    exact hi
  rw [machine_slot_of_resetsAt h, Machine.sbiHalt, m'.harts_setCpu_of_ne _ hne, h.call.atDispatch.others i hi]
  exact congrFun q.harts_tick i

/-- No power-off is pending after the reset. -/
theorem power_of_resetsAt (hq : q.Sound) (h : q.ResetsAt m') :
    platPoweroffRequested q.slot.machine.bus.plat = none := by
  obtain ⟨inst, ilen, hd, _⟩ := h.call.ecall
  have hplat : (q.tick.machine.onHart q.sched).bus.mem.plat = true := by
    have htick : q.tick.machine.bus.mem = q.machine.bus.mem := by
      unfold tick
      split <;> rfl
    show q.tick.machine.bus.mem.plat = true
    rw [htick]
    exact hq.attached
  rw [machine_slot_of_resetsAt h]
  show platPoweroffRequested m'.bus.plat = none
  exact Machine.dispatching_power hplat hd

theorem mHalted_advance (q : Handle) : q.tick.stepHart.advance.mHalted = q.mHalted := by
  unfold stepHart tick
  dsimp only [advance]
  split <;> split <;> rfl

/-! ## When a reset stops the machine -/

/-- A completed system reset stops the machine cleanly exactly when every other hart had already
exited, and hart 0 with status 0 unless it is the one that resets. -/
theorem system_reset_stops_iff {q : Handle} (hq : q.Reachable) (hm : q.mHalted = false) {m' : Machine}
    (h : q.ResetsAt m') :
    q.quantaStep.2.StoppedClean ↔
      (∀ i < q.nharts, i ≠ q.sched →
        (q.machine.harts i).halted = true ∧ (q.machine.harts i).haltReason = .exit) ∧
      (q.sched = 0 ∨ (q.machine.harts 0).exitCode = 0) := by
  have hs := hq.sound
  obtain ⟨hhalted, hreason, hcode⟩ := hart_of_resetsAt h
  have hothers : ∀ {i : Nat}, i ≠ q.sched → q.slot.machine.harts i = q.machine.harts i := others_of_resetsAt h
  have hquanta : q.quantaStep.2 = q.slot := by
    unfold quantaStep
    rw [hs.loaded, hm]
    rfl
  -- the handle the poll looks at
  have hpolled : q.slot = q.tick.stepHart.advance.machinePollHalt := rfl
  have hrunning : q.tick.stepHart.advance.mHalted = false := by rw [mHalted_advance, hm]
  generalize q.tick.stepHart.advance = p at hpolled hrunning
  have hmachine : p.machine = q.slot.machine := by rw [hpolled, machine_machinePollHalt]
  have hnharts : p.nharts = q.nharts := by rw [← q.nharts_slot, hpolled, nharts_machinePollHalt]
  have hpower : platPoweroffRequested p.machine.bus.plat = none := by rw [hmachine]; exact power_of_resetsAt hs h
  have hhalt := mHalted_machinePollHalt hpower hrunning
  rw [← hpolled, hmachine, hnharts] at hhalt
  have hpos : 0 < q.nharts := Nat.zero_lt_of_lt hs.sched_lt
  rw [hquanta]
  by_cases hall : ∀ i < q.nharts, (q.slot.machine.harts i).halted = true
  · have hclean := clean_machinePollHalt hpower (by rw [hnharts]; exact hpos) (by rw [hmachine, hnharts]; exact hall)
    rw [← hpolled, hmachine, hnharts] at hclean
    rw [stoppedClean_iff_of_mHalted (by rw [loaded_slot, hs.loaded]) (hhalt.mpr hall), hclean]
    constructor
    · rintro ⟨hexit, hzero⟩
      refine ⟨fun i hi hne => ?_, ?_⟩
      · rw [← hothers hne]
        exact ⟨hall i hi, hexit i hi⟩
      · by_cases h0 : q.sched = 0
        · exact Or.inl h0
        · rw [← hothers (Ne.symm h0)]
          exact Or.inr hzero
    · rintro ⟨hexit, hzero⟩
      refine ⟨fun i hi => ?_, ?_⟩
      · by_cases hne : i = q.sched
        · rw [hne]
          exact hreason
        · rw [hothers hne]
          exact (hexit i hi hne).2
      · rcases hzero with h0 | h0
        · rw [h0] at hcode
          exact hcode
        · by_cases hne : 0 = q.sched
          · rw [← hne] at hcode
            exact hcode
          · rw [hothers hne]
            exact h0
  · -- some other hart still runs: the poll leaves the machine running
    obtain ⟨j, hnot⟩ := Classical.not_forall.mp hall
    obtain ⟨hj, hrun⟩ := Classical.not_imp.mp hnot
    have hne : j ≠ q.sched := by
      rintro rfl
      exact hrun hhalted
    have hmany : 1 < q.slot.nharts := by
      have hlt := hs.sched_lt
      rw [nharts_slot]
      omega
    have hgo : q.slot.mHalted = false := Bool.eq_false_iff.mpr fun h => hall (hhalt.mp h)
    refine iff_of_false (not_stoppedClean_of_running hs.slot hgo hmany) ?_
    rintro ⟨hexit, _⟩
    rw [hothers hne] at hrun
    exact hrun (hexit j hj hne).1

/-! ## A reset by one of two harts -/

/-- Hart 0 drops to S-mode and makes the legacy shutdown call; the other harts go to `park`. -/
def resetProgram (park : List (BitVec 32)) : List (BitVec 32) :=
  [0xf14027f3, 0x02079463, 0x00000297, 0x01c28293, 0x34129073, 0x00001337, 0x00135313, 0x30031073, 0x30200073,
    0x00800893, 0x00000073] ++ park

/-- Two harts, with hart 0 about to make the call. -/
def resetting (park : List (BitVec 32)) : Handle :=
  (fun q : Handle => q.quantaStep.2)^[20] (load .rv64 2 0x80000000 0x1000 0x80000000 (resetProgram park))

theorem resetting_reachable (park : List (BitVec 32)) : (resetting park).Reachable :=
  Reachable.iterate ⟨_, load_fresh .rv64 (by decide) (by decide) .., ReflTransGen.refl⟩ 20

theorem resetsAt_of_sbiCalling (hrun : (q.machine.harts q.sched).halted = false)
    (hany : ((q.tick.machine.onHart q.sched).sbiCalling (q.dcaches q.sched)).any (fun m => decide m.IsReset) = true) :
    ∃ m', q.ResetsAt m' := by
  obtain ⟨m', hcall, hreset⟩ := Machine.exists_sbiCallAt hany
  exact ⟨m', hrun, hcall, of_decide_eq_true hreset⟩

/-- Hart 1 spins at its park address: hart 0's reset does not stop it. -/
theorem system_reset_sibling_runs : ∃ (q : Handle) (m' : Machine), q.Reachable ∧ q.mHalted = false ∧ q.ResetsAt m' ∧
    ¬q.quantaStep.2.StoppedClean ∧ q.quantaStep.2.quantaStep.1 = .run ∧
    (q.quantaStep.2.quantaStep.2.machine.harts 1).instret = (q.machine.harts 1).instret + 1 := by
  obtain ⟨m', hm'⟩ : ∃ m', (resetting [0x0000006f]).ResetsAt m' :=
    resetsAt_of_sbiCalling (by decide +kernel) (by decide +kernel)
  refine ⟨resetting [0x0000006f], m', resetting_reachable _, by decide +kernel, hm', fun h => ?_, by decide +kernel,
    by decide +kernel⟩
  have hstep : (resetting [0x0000006f]).quantaStep.2.quantaStep.1 = .run := by decide +kernel
  rw [h.step] at hstep
  cases hstep

/-- Hart 1 has exited through the exit syscall: hart 0's reset stops the machine. -/
theorem system_reset_stops_exited : ∃ q : Handle, q.quantaStep.2.StoppedClean := by
  obtain ⟨m', hm'⟩ : ∃ m', (resetting [0x05d00893, 0x00000073]).ResetsAt m' :=
    resetsAt_of_sbiCalling (by decide +kernel) (by decide +kernel)
  refine ⟨resetting [0x05d00893, 0x00000073],
    (system_reset_stops_iff (resetting_reachable _) (by decide +kernel) hm').mpr ⟨?_, by decide +kernel⟩⟩
  decide +kernel

end Handle
end Quanta
