/-
Runs of a loaded handle: what its public calls keep (the cursor in range, the devices wired to the
harts), and that `quanta_run` always comes to an end, by halting or at its instruction cap.
-/
import Quanta.Engine.Handle

namespace Quanta

open Relation Run

namespace Handle

variable {q : Handle}

/-! ## One slot -/

theorem nharts_slot (q : Handle) : q.slot.nharts = q.nharts := by
  unfold slot stepHart tick
  rw [nharts_machinePollHalt]
  dsimp only [advance]
  split <;> split <;> rfl

theorem loaded_slot (q : Handle) : q.slot.loaded = q.loaded := by
  unfold slot stepHart tick
  rw [loaded_machinePollHalt]
  dsimp only [advance]
  split <;> split <;> rfl

theorem sched_slot (q : Handle) : q.slot.sched = if q.nharts ≤ q.sched + 1 then 0 else q.sched + 1 := by
  unfold slot stepHart tick
  rw [sched_machinePollHalt]
  dsimp only [advance]
  split <;> split <;> rfl

theorem machine_slot (q : Handle) : q.slot.machine = q.tick.stepHart.machine := by
  unfold slot
  rw [machine_machinePollHalt]
  rfl

theorem harts_tick (q : Handle) : q.tick.machine.harts = q.machine.harts := by
  unfold tick
  split <;> rfl

theorem sched_tick (q : Handle) : q.tick.sched = q.sched := by
  unfold tick
  split <;> rfl

/-- The slot of a halted hart leaves every hart alone. -/
theorem harts_slot_of_halted (h : (q.machine.harts q.sched).halted = true) :
    q.slot.machine.harts = q.machine.harts := by
  rw [machine_slot, stepHart, sched_tick, harts_tick, if_pos h, harts_tick]

/-- The poll leaves the machine running only if a hart still runs. -/
theorem running_of_slot (h : q.slot.mHalted = false) :
    ∃ i < q.nharts, (q.slot.machine.harts i).halted = false := by
  have hn : q.tick.stepHart.advance.nharts = q.nharts := by
    unfold stepHart tick
    dsimp only [advance]
    split <;> split <;> rfl
  rw [machine_slot]
  unfold slot machinePollHalt at h
  split at h
  · cases h
  · dsimp only at h
    split at h
    · cases h
    · next hall =>
      rw [List.all_eq_true] at hall
      obtain ⟨i, hnot⟩ := Classical.not_forall.mp hall
      obtain ⟨hi, hrun⟩ := Classical.not_imp.mp hnot
      refine ⟨i, ?_, Bool.eq_false_iff.mpr hrun⟩
      rw [List.mem_range, hn] at hi
      exact hi

/-! ## The invariant of a loaded handle -/

structure Sound (q : Handle) : Prop where
  loaded : q.loaded = true
  nharts_le : q.nharts ≤ QUANTA_MAX_HARTS
  sched_lt : q.sched < q.nharts
  attached : q.machine.bus.mem.plat = true
  harts : q.machine.bus.plat.harts = true
  nharts : q.machine.bus.plat.nharts = q.nharts

/-- A change of the machine that keeps the bus's shape. -/
theorem Sound.setMachine {q q' : Handle} (h : q.Sound) (hb : q.machine.bus.Shape q'.machine.bus)
    (hl : q'.loaded = q.loaded) (hn : q'.nharts = q.nharts) (hs : q'.sched < q.nharts) : q'.Sound where
  loaded := hl.trans h.loaded
  nharts_le := by rw [hn]; exact h.nharts_le
  sched_lt := by rw [hn]; exact hs
  attached := hb.plat.trans h.attached
  harts := hb.wired.harts.trans h.harts
  nharts := hb.wired.nharts.trans (h.nharts.trans hn.symm)

theorem shape_slot (q : Handle) : q.machine.bus.Shape q.slot.machine.bus := by
  have htick : q.machine.bus.Shape q.tick.machine.bus := by
    unfold tick
    split
    · exact ⟨rfl, rfl, rfl, ⟨rfl, rfl, rfl, rfl, rfl, .refl _⟩⟩
    · exact .refl _
  rw [machine_slot]
  refine htick.trans ?_
  unfold stepHart
  split
  · exact .refl _
  · exact Machine.step_shape _ (q.tick.machine.onHart q.tick.sched)

theorem Sound.slot (h : q.Sound) : q.slot.Sound := by
  refine h.setMachine q.shape_slot q.loaded_slot q.nharts_slot ?_
  have hs := h.sched_lt
  rw [sched_slot]
  split <;> omega

/-! ## `quanta_run` ends -/

/-- How many slots away the slot of hart `i` is. -/
def ahead (q : Handle) (i : Nat) : Nat := if q.sched ≤ i then i - q.sched else i + q.nharts - q.sched

theorem ahead_lt (hs : q.sched < q.nharts) {i : Nat} (hi : i < q.nharts) : q.ahead i < q.nharts := by
  unfold ahead
  split <;> omega

/-- A slot that is not hart `i`'s brings it nearer. -/
theorem ahead_slot (hs : q.sched < q.nharts) {i : Nat} (hi : i < q.nharts) (hne : i ≠ q.sched) :
    q.slot.ahead i + 1 = q.ahead i := by
  unfold ahead
  rw [sched_slot, nharts_slot]
  split <;> split <;> split <;> omega

/-- With a hart running, the slot of one comes up before that hart's own. -/
theorem runs_within : ∀ (n : Nat) {q : Handle} {i : Nat}, q.sched < q.nharts → i < q.nharts →
    (q.machine.harts i).halted = false → q.ahead i = n →
    ∃ k ≤ n, ((slot^[k] q).machine.harts (slot^[k] q).sched).halted = false := by
  intro n
  induction n with
  | zero =>
    intro q i hs hi hrun ha
    have hself : i = q.sched := by
      unfold ahead at ha
      split at ha <;> omega
    exact ⟨0, Nat.le_refl 0, by rw [Function.iterate_zero_apply, ← hself]; exact hrun⟩
  | succ n ih =>
    intro q i hs hi hrun ha
    cases hh : (q.machine.harts q.sched).halted with
    | false => exact ⟨0, Nat.zero_le _, hh⟩
    | true =>
      have hne : i ≠ q.sched := by
        rintro rfl
        rw [hh] at hrun
        cases hrun
      have hnear := ahead_slot hs hi hne
      have hs' : q.slot.sched < q.slot.nharts := by
        rw [sched_slot, nharts_slot]
        split <;> omega
      obtain ⟨k, hk, hslot⟩ := ih hs' (by rw [nharts_slot]; exact hi) (by rw [harts_slot_of_halted hh]; exact hrun)
        (show q.slot.ahead i = n by omega)
      exact ⟨k + 1, Nat.succ_le_succ hk, hslot⟩

theorem runLoop_of_end {cap steps : Nat} (h : q.mHalted = true ∨ cap ≤ steps) (fuel : Nat) :
    runLoop cap fuel steps q = (steps, q) := by
  cases fuel with
  | zero => rfl
  | succ fuel => rw [runLoop, if_pos (by simpa using h)]

theorem runLoop_le (cap fuel : Nat) : ∀ {steps : Nat} {q : Handle}, steps ≤ cap → (runLoop cap fuel steps q).1 ≤ cap := by
  induction fuel with
  | zero => exact fun h => h
  | succ fuel ih =>
    intro steps q h
    unfold runLoop
    split
    · exact h
    · next hgo =>
      simp only [Bool.or_eq_true, decide_eq_true_eq, not_or, Nat.not_le] at hgo
      apply ih
      split <;> omega

/-- With a hart running `ahead` slots away, the loop reaches its end. -/
theorem runLoop_done_of_running (cap : Nat) : ∀ (fuel steps : Nat) (q : Handle), q.sched < q.nharts →
    ∀ i < q.nharts, (q.machine.harts i).halted = false →
    (cap - steps - 1) * q.nharts + q.ahead i + 1 ≤ fuel →
    (runLoop cap fuel steps q).2.mHalted = true ∨ cap ≤ (runLoop cap fuel steps q).1 := by
  intro fuel
  induction fuel with
  | zero => intro steps q _ i _ _ hfuel; omega
  | succ fuel ih =>
    intro steps q hs i hi hrun hfuel
    unfold runLoop
    split
    · next hend => simpa using hend
    · next hgo =>
      simp only [Bool.or_eq_true, decide_eq_true_eq, not_or, Nat.not_le, Bool.not_eq_true] at hgo
      have hs' : q.slot.sched < q.slot.nharts := by
        rw [sched_slot, nharts_slot]
        split <;> omega
      split
      · next hhalt =>
        -- a halted hart's slot: hart `i` is one slot nearer
        have hne : i ≠ q.sched := by
          rintro rfl
          rw [hhalt] at hrun
          cases hrun
        refine ih _ _ hs' i (by rw [nharts_slot]; exact hi) (by rw [harts_slot_of_halted hhalt]; exact hrun) ?_
        have hnear := ahead_slot hs hi hne
        rw [nharts_slot]
        omega
      · -- an instruction was executed: a whole round is left for the next one
        cases hm : q.slot.mHalted with
        | true =>
          rw [runLoop_of_end (Or.inl hm)]
          exact Or.inl hm
        | false =>
          by_cases hcap : cap ≤ steps + 1
          · rw [runLoop_of_end (Or.inr hcap)]
            exact Or.inr hcap
          · obtain ⟨j, hj, hjrun⟩ := running_of_slot hm
            refine ih _ _ hs' j (by rw [nharts_slot]; exact hj) hjrun ?_
            have hlt := ahead_lt hs' (by rw [nharts_slot]; exact hj : j < q.slot.nharts)
            rw [nharts_slot] at hlt ⊢
            have hround : (cap - steps - 1) * q.nharts = (cap - (steps + 1) - 1) * q.nharts + q.nharts := by
              rw [← Nat.succ_mul]
              congr 1
              omega
            omega

theorem runLoop_done (h : q.Sound) (cap : Nat) {fuel : Nat} (hfuel : (cap + 2) * q.nharts ≤ fuel) :
    (runLoop cap fuel 0 q).2.mHalted = true ∨ cap ≤ (runLoop cap fuel 0 q).1 := by
  have hs := h.sched_lt
  have hround : (cap + 2) * q.nharts = cap * q.nharts + 2 * q.nharts := Nat.add_mul ..
  cases fuel with
  | zero => omega
  | succ fuel =>
    unfold runLoop
    split
    · next hend => simpa using hend
    · generalize (if (q.machine.harts q.sched).halted then 0 else 0 + 1) = steps
      cases hm : q.slot.mHalted with
      | true =>
        rw [runLoop_of_end (Or.inl hm)]
        exact Or.inl hm
      | false =>
        obtain ⟨j, hj, hrun⟩ := running_of_slot hm
        have hj' : j < q.slot.nharts := by rw [nharts_slot]; exact hj
        refine runLoop_done_of_running cap fuel steps q.slot h.slot.sched_lt j hj' hrun ?_
        have hlt := ahead_lt h.slot.sched_lt hj'
        have hle : (cap - steps - 1) * q.nharts ≤ cap * q.nharts := Nat.mul_le_mul_right _ (by omega)
        rw [nharts_slot] at hlt ⊢
        omega

/-! ## Reachable handles -/

/-- A handle that has just loaded a program (`start_at`). -/
structure Fresh (q : Handle) : Prop where
  sound : q.Sound
  booted : q.machine.Booted
  running : q.mHalted = false

/-- A call of the host that drives the machine or feeds its devices. -/
inductive HostCall : Handle → Handle → Prop
  | step (q : Handle) : HostCall q q.quantaStep.2
  | run (q : Handle) (maxSteps : BitVec 64) : HostCall q (q.quantaRun maxSteps).2.2
  | uartInput (q : Handle) (byte : Byte) : HostCall q (q.quantaUartInput byte).2
  | netRx (q : Handle) (frame : List Byte) : HostCall q (q.quantaNetRx frame).2

/-- The handles a host can drive a freshly loaded one to. -/
def Reachable (q : Handle) : Prop := ∃ q0 : Handle, q0.Fresh ∧ ReflTransGen HostCall q0 q

/-- What every slot and every change of the devices preserves, every call does. -/
theorem HostCall.preserves {P : Handle → Prop} (hslot : ∀ q : Handle, P q → P q.slot)
    (hbus : ∀ (q : Handle) (b : Bus), q.machine.bus.Shape b → P q → P { q with machine := q.machine.setBus b })
    {q q' : Handle} (h : HostCall q q') (hq : P q) : P q' := by
  have hloop : ∀ (cap fuel steps : Nat) (q : Handle), P q → P (runLoop cap fuel steps q).2 := by
    intro cap fuel
    induction fuel with
    | zero => exact fun _ _ hq => hq
    | succ fuel ih =>
      intro steps q hq
      unfold runLoop
      split
      · exact hq
      · exact ih _ _ (hslot q hq)
  cases h with
  | step =>
    unfold quantaStep
    split
    · exact hq
    split
    · exact hq
    · exact hslot q hq
  | run maxSteps =>
    unfold quantaRun
    dsimp only
    split
    · exact hloop _ _ _ q hq
    · exact hq
  | uartInput byte =>
    unfold quantaUartInput
    split
    · exact hq
    · refine hbus q _ ?_ hq
      unfold platUartRx
      split
      · exact .refl _
      · exact ⟨rfl, rfl, rfl, ⟨rfl, rfl, rfl, rfl, rfl, .refl _⟩⟩
  | netRx frame =>
    unfold quantaNetRx
    split
    · exact hq
    · exact hbus q _ (platNetRx_steady _ _).frame.shape hq

/-- While the machine has not halted, one of its harts runs. -/
def Live (q : Handle) : Prop := q.mHalted = false → ∃ i < q.nharts, (q.machine.harts i).halted = false

theorem Fresh.live (h : q.Fresh) : q.Live := by
  intro _
  obtain ⟨tlb, pc, xlen, regs, h0⟩ := h.booted 0
  refine ⟨0, Nat.zero_lt_of_lt h.sound.sched_lt, ?_⟩
  rw [h0]
  exact CPU.boot_induction (J := fun c => c.halted = false) (fun _ _ _ _ => rfl)
    (fun c i v hc => (c.regWrite_halted i v).trans hc) tlb pc xlen 0 regs

theorem Live.slot (q : Handle) : q.slot.Live := by
  intro hm
  rw [nharts_slot]
  exact running_of_slot hm

theorem Reachable.sound_live (h : q.Reachable) : q.Sound ∧ q.Live := by
  obtain ⟨q0, h0, hrun⟩ := h
  refine Run.preserves (P := fun q : Handle => q.Sound ∧ q.Live) (fun _ _ hcall hq => ?_) hrun ⟨h0.sound, h0.live⟩
  refine HostCall.preserves (P := fun q : Handle => q.Sound ∧ q.Live) ?_ ?_ hcall hq
  · exact fun q hq => ⟨hq.1.slot, Live.slot q⟩
  · exact fun q b hb hq => ⟨hq.1.setMachine hb rfl rfl hq.1.sched_lt, hq.2⟩

theorem Reachable.sound (h : q.Reachable) : q.Sound := h.sound_live.1

theorem Reachable.runs_in_round (h : q.Reachable) (hm : q.mHalted = false) :
    ∃ k < q.nharts, ((slot^[k] q).machine.harts (slot^[k] q).sched).halted = false := by
  obtain ⟨i, hi, hrun⟩ := h.sound_live.2 hm
  obtain ⟨k, hk, hslot⟩ := runs_within _ h.sound.sched_lt hi hrun rfl
  exact ⟨k, Nat.lt_of_le_of_lt hk (ahead_lt h.sound.sched_lt hi), hslot⟩

/-- `quanta_run` returns, on every reachable handle and for any number of harts: with the reason of a
machine that halted, or after exactly as many instructions as the caller allowed. While the machine
has not halted, a slot of a running hart comes up within one scheduler round. -/
theorem quantaRun_ends {q : Handle} (h : q.Reachable) (maxSteps : BitVec 64) :
    (((q.quantaRun maxSteps).2.2.mHalted = true ∧
      (q.quantaRun maxSteps).1 = mapHalt (q.quantaRun maxSteps).2.2.mReason) ∨
    ((q.quantaRun maxSteps).1 = .stepLimit ∧
      (q.quantaRun maxSteps).2.1 = if maxSteps = 0 then QUANTA_DEFAULT_MAX_STEPS else maxSteps.toNat)) ∧
    (q.mHalted = false → ∃ k < q.nharts, ((slot^[k] q).machine.harts (slot^[k] q).sched).halted = false) := by
  refine ⟨?_, h.runs_in_round⟩
  unfold quantaRun
  rw [if_pos h.sound.loaded]
  dsimp only
  generalize (if maxSteps = 0 then QUANTA_DEFAULT_MAX_STEPS else maxSteps.toNat) = cap
  have hdone := runLoop_done h.sound cap (Nat.le_refl _)
  have hle := runLoop_le cap ((cap + 2) * q.nharts) (q := q) (Nat.zero_le cap)
  cases hm : (runLoop cap ((cap + 2) * q.nharts) 0 q).2.mHalted with
  | true => exact .inl ⟨rfl, rfl⟩
  | false =>
    refine .inr ⟨rfl, Nat.le_antisymm hle (hdone.resolve_left ?_)⟩
    rw [hm]
    decide

/-- `quanta_load_image` on a handle with `nharts` harts and no decode caches. -/
def load (xlen : Xlen) (nharts : Nat) (base size entry : BitVec 64) (words : List (BitVec 32)) : Handle where
  machine := Machine.load xlen nharts base size entry words
  nharts := nharts
  sched := 0
  mHalted := false
  mReason := .none
  mExit := 0
  dcaches := fun _ => none
  loaded := true
  dtbAddr := 0

theorem load_fresh (xlen : Xlen) {nharts : Nat} (hpos : 0 < nharts) (hle : nharts ≤ QUANTA_MAX_HARTS)
    (base size entry : BitVec 64) (words : List (BitVec 32)) : (load xlen nharts base size entry words).Fresh :=
  ⟨⟨rfl, hle, hpos, rfl, rfl, rfl⟩, Machine.load_booted xlen nharts base size entry words, rfl⟩

theorem quantaRun_ends_two_harts :
    let q := load .rv64 2 0x80000000 0x1000 0x80000000 [0x0000006f]
    q.Reachable ∧ (((q.quantaRun 5).2.2.mHalted = true ∧ (q.quantaRun 5).1 = mapHalt (q.quantaRun 5).2.2.mReason) ∨
      ((q.quantaRun 5).1 = .stepLimit ∧ (q.quantaRun 5).2.1 = 5)) ∧
      ∃ k < 2, ((slot^[k] q).machine.harts (slot^[k] q).sched).halted = false := by
  intro q
  have h : q.Reachable := ⟨q, load_fresh .rv64 (by decide) (by decide) .., ReflTransGen.refl⟩
  exact ⟨h, (quantaRun_ends h 5).1, (quantaRun_ends h 5).2 rfl⟩

theorem Reachable.iterate (h : q.Reachable) (n : Nat) :
    ((fun q : Handle => q.quantaStep.2)^[n] q).Reachable := by
  induction n with
  | zero => exact h
  | succ n ih =>
    obtain ⟨q0, h0, hrun⟩ := ih
    rw [Function.iterate_succ_apply']
    exact ⟨q0, h0, hrun.tail (.step _)⟩

end Handle
end Quanta
