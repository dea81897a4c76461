/-
The interrupt horizon. Between two boundaries with no CSR write, device access, trap or change of
privilege only the two clocks move, so the one thing that can raise an interrupt is a comparator
being reached. `cpu_interrupt_horizon` bounds the retirements before that, and the prologue finds
nothing to take at any boundary strictly before it.
-/
import Quanta.Interrupts.Selection
import Quanta.Interrupts.Sstc

namespace Quanta

/-- The state after `k` instructions that retire without a CSR write, a device access, a trap or a
change of privilege: both clocks have advanced by `k`, and registers and RAM are whatever they are.
An FP instruction may have accrued flags and marked its state dirty. -/
structure QuietTicks (k : Nat) (c : CPU) (b : Bus) (c' : CPU) (b' : Bus) : Prop where
  csr : ∀ a, a ≠ CSR_FCSR → a ≠ CSR_MSTATUS → c'.csr a = c.csr a
  status : ∀ mask ∈ [MSTATUS_SIE, MSTATUS_MIE], c'.csr CSR_MSTATUS &&& mask = c.csr CSR_MSTATUS &&& mask
  priv : c'.priv = c.priv
  hartid : c'.hartid = c.hartid
  armed : c'.sbiTimerArmed = c.sbiTimerArmed
  instret : c'.instret = c.instret + BitVec.ofNat 64 k
  attached : b'.mem.plat = b.mem.plat
  plat : b'.plat =
    { b.plat with clint := { b.plat.clint with mtime := b.plat.clint.mtime + BitVec.ofNat 64 k } }

namespace CPU

variable {c c' : CPU} {b b' : Bus} {k : Nat}

/-! ## The bound -/

theorem lt_bvMin {x y : BitVec 64} (h : k < (bvMin x y).toNat) : k < x.toNat ∧ k < y.toNat := by
  unfold bvMin at h
  split at h
  · next hxy =>
    rw [BitVec.ult, decide_eq_true_eq] at hxy
    omega
  · next hxy =>
    rw [BitVec.ult, decide_eq_true_eq] at hxy
    omega

/-- A bound applied under a condition. -/
theorem lt_ite_bvMin {g : Prop} [Decidable g] {x y : BitVec 64} (h : k < (if g then bvMin x y else y).toNat) :
    (g → k < x.toNat) ∧ k < y.toNat := by
  split at h
  · exact ⟨fun _ => (lt_bvMin h).1, (lt_bvMin h).2⟩
  · next hg => exact ⟨fun hg' => absurd hg' hg, h⟩

/-- A clock that advances by less than its distance does not reach the comparator. -/
theorem not_reached {now cmp : BitVec 64} (h : k < (distance now cmp).toNat) :
    cmp.ule (now + BitVec.ofNat 64 k) = false := by
  unfold distance at h
  split at h
  · exact absurd h (Nat.not_lt_zero k)
  · next hle =>
    rw [BitVec.ule, decide_eq_true_eq] at hle
    rw [BitVec.ule, decide_eq_false_iff_not]
    bv_omega

/-- What the horizon bounds: the machine timer where it can be taken, and STIP's two sources where
that can. -/
theorem interruptHorizon_bounds (hp : b.mem.plat = true) (h : k < (c.interruptHorizon b).toNat) :
    (c.horizonGate IRQ_MTIMER = true →
      k < (distance b.plat.clint.mtime (b.plat.clint.mtimecmp c.hartid.toNat)).toNat) ∧
    (c.horizonGate IRQ_STIMER = true → c.sbiTimerArmed = true →
      k < (distance b.plat.clint.mtime (b.plat.clint.mtimecmp c.hartid.toNat)).toNat) ∧
    (c.horizonGate IRQ_STIMER = true → c.stce = true →
      k < (distance c.instret (c.csr CSR_STIMECMP)).toNat) := by
  unfold interruptHorizon at h
  rw [hp, Bool.not_true, if_neg (by decide)] at h
  dsimp only at h
  -- The bounds are applied one after another, so the last value is below every one of them.
  split at h
  · obtain ⟨hsstc, h⟩ := lt_ite_bvMin h
    obtain ⟨hrelay, h⟩ := lt_ite_bvMin h
    obtain ⟨hmachine, _⟩ := lt_ite_bvMin h
    exact ⟨hmachine, fun _ => hrelay, fun _ => hsstc⟩
  · next hclosed =>
    obtain ⟨hmachine, _⟩ := lt_ite_bvMin h
    exact ⟨hmachine, fun hg => absurd hg hclosed, fun hg => absurd hg hclosed⟩

/-- A takeable, enabled source has its gate in the horizon open. -/
theorem horizonGate_of_candidate {mip : BitVec 32} {i : Nat} (h : c.Candidate mip i) :
    c.horizonGate i = true := by
  have hopen := h.takeable
  unfold horizonGate
  rw [h.enabled, Bool.true_and]
  unfold destination at hopen
  cases hd : c.delegated i with
  | true =>
    rw [hd, if_pos rfl] at hopen
    exact (levelOpen_iff c .s).mp hopen
  | false =>
    rw [hd, if_neg (by decide)] at hopen
    rcases hopen with hlt | ⟨_, hie⟩
    · rw [if_neg (by decide), Bool.or_eq_true]
      exact Or.inl (by simpa [BitVec.ult, BitVec.lt_def, Level.priv] using hlt)
    · rw [if_neg (by decide), Bool.or_eq_true]
      exact Or.inr (decide_eq_true hie)

end CPU

/-! ## The pending bits -/

/-- The CLINT raises the timer line only when the comparator is reached. -/
theorem timerReached_of_mtip {p : Platform} {hart : BitVec 32} (h : (platMipBits p hart).getLsbD IRQ_MTIMER = true) :
    p.clint.timerReached hart.toNat = true := by
  unfold platMipBits at h
  dsimp only at h
  rw [BitVec.getLsbD_or] at h
  generalize p.clint.timerReached hart.toNat = due at h ⊢
  generalize (p.clint.msip hart.toNat).getLsbD 0 = soft at h
  have hplic : ∀ x y : Bool, ((if x then MIP_MEIP else 0) ||| (if y then MIP_SEIP else 0)).getLsbD IRQ_MTIMER = false := by
    decide
  have hclint : ∀ x y : Bool, ((if x then MIP_MTIP else 0) ||| (if y then MIP_MSIP else 0)).getLsbD IRQ_MTIMER = x := by
    decide
  rw [Bool.or_eq_true] at h
  rcases h with h | h
  · split at h
    · exact (hclint due soft).symm.trans h
    · cases h
  · split at h
    · have hq := hplic (decide (plicBest p (2 * hart.toNat) ≠ 0)) (decide (plicBest p (2 * hart.toNat + 1) ≠ 0))
      simp only [decide_eq_true_eq] at hq
      rw [hq] at h
      cases h
    · cases h

/-- The other lines do not depend on the clock. -/
theorem platMipBits_advance (p : Platform) (hart : BitVec 32) (t : BitVec 64) {i : Nat} (hi : i ∈ [3, 9, 11]) :
    (platMipBits { p with clint := { p.clint with mtime := t } } hart).getLsbD i =
      (platMipBits p hart).getLsbD i := by
  have hclint : ∀ x x' y : Bool, ∀ i ∈ [3, 9, 11],
      ((if x then MIP_MTIP else 0) ||| (if y then MIP_MSIP else 0)).getLsbD i =
      ((if x' then MIP_MTIP else 0) ||| (if y then MIP_MSIP else 0)).getLsbD i := by decide
  unfold platMipBits
  dsimp only
  rw [BitVec.getLsbD_or, BitVec.getLsbD_or]
  refine congrArg₂ _ ?_ rfl
  split
  · exact hclint _ _ _ i hi
  · rfl

namespace CPU

variable {c c' : CPU} {b b' : Bus} {k : Nat}

theorem liveMip_device (hp : b.mem.plat = true) {i : Nat} (hi : MIP_DEVICE.getLsbD i = true) :
    (c.liveMip b).getLsbD i = (platMipBits b.plat c.hartid).getLsbD i := by
  unfold liveMip
  rw [if_pos hp, BitVec.getLsbD_or, BitVec.getLsbD_and, BitVec.getLsbD_not, hi, Bool.not_true, Bool.and_false,
    Bool.and_false, Bool.false_or]

/-- The ticks touch STIP only. -/
theorem ssip_ticks (c : CPU) (b : Bus) :
    ((c.firmwareTimerTick b).sstcTick.csr CSR_MIP).getLsbD IRQ_SSOFT = (c.csr CSR_MIP).getLsbD IRQ_SSOFT := by
  have hset : ∀ v : BitVec 64, (v ||| 0x20).getLsbD IRQ_SSOFT = v.getLsbD IRQ_SSOFT := by
    intro v
    rw [BitVec.getLsbD_or]
    exact Bool.or_false _
  have hclear : ∀ v : BitVec 64, (v &&& 0xffffffdf).getLsbD IRQ_SSOFT = v.getLsbD IRQ_SSOFT := by
    intro v
    rw [BitVec.getLsbD_and]
    exact Bool.and_true _
  have hsstc : ∀ d : CPU, (d.sstcTick.csr CSR_MIP).getLsbD IRQ_SSOFT = (d.csr CSR_MIP).getLsbD IRQ_SSOFT := by
    intro d
    unfold sstcTick
    split
    · rfl
    split
    · rw [setCsr_apply, if_pos rfl, hset]
    · rw [setCsr_apply, if_pos rfl, hclear]
  rw [hsstc]
  unfold firmwareTimerTick
  split
  · rfl
  split
  · exact (congrArg (BitVec.getLsbD · IRQ_SSOFT) (setCsr_apply c CSR_MIP CSR_MIP _)).trans (hset _)
  · rfl

/-- Where a pending STIP comes from. -/
theorem stip_ticks (h : (c.firmwareTimerTick b).sstcTick.stip = true) :
    (c.stce = true ∧ (c.csr CSR_STIMECMP).ule c.instret = true) ∨
    (c.stce = false ∧ (c.stip = true ∨
      c.sbiTimerArmed = true ∧ b.plat.clint.timerReached c.hartid.toNat = true)) := by
  have hsame := (c.samePre_firmwareTimerTick b).sameSstc
  have hstce : (c.firmwareTimerTick b).stce = c.stce := by
    unfold stce
    rw [hsame.csr _ (by decide)]
  rw [stip_sstcTick, hstce, hsame.instret, hsame.csr CSR_STIMECMP (by decide)] at h
  cases hs : c.stce with
  | true =>
    rw [hs, if_pos rfl] at h
    exact Or.inl ⟨rfl, h⟩
  | false =>
    rw [hs, if_neg (by decide)] at h
    refine Or.inr ⟨rfl, ?_⟩
    unfold firmwareTimerTick at h
    split at h
    · exact Or.inl h
    next harm =>
    split at h
    · next hline =>
      have hbit : (platMipBits b.plat c.hartid).getLsbD IRQ_MTIMER = true :=
        (Bits.and_mask_ne_zero _ (by decide)).mp hline
      exact Or.inr ⟨by simpa using harm, timerReached_of_mtip hbit⟩
    · exact Or.inl h

theorem samePre_ticks (c : CPU) (b : Bus) : SamePre c (c.firmwareTimerTick b).sstcTick :=
  (c.samePre_firmwareTimerTick b).trans (samePre_sstcTick _)

theorem pendingAt_eq (hp : b.mem.plat = true) : c.pendingAt b = (c.firmwareTimerTick b).sstcTick.liveMip b := by
  unfold pendingAt
  rw [if_pos hp]

/-- A prologue that took nothing: the machine was running, no source was a candidate, and `mip` is
what the candidates were looked for in. -/
theorem untaken_preStep (hp : b.mem.plat = true) (h : c.preStep b = (false, c')) :
    platPoweroffRequested b.plat = none ∧ (∀ j, ¬c.Candidate (c.pendingAt b) j) ∧
    c'.csr CSR_MIP = (c.pendingAt b).setWidth 64 := by
  have ho : platPoweroffRequested b.plat = none := by
    cases ho : platPoweroffRequested b.plat with
    | none => rfl
    | some code =>
      unfold preStep at h
      rw [hp, ho] at h
      cases h
  have hscan : c.scan (c.pendingAt b) = none := by
    cases hs : c.scan (c.pendingAt b) with
    | none => rfl
    | some i =>
      have htaken := (preStep_scan hp ho hs).1
      rw [h] at htaken
      cases htaken
  refine ⟨ho, not_candidate_of_scan_none hscan, ?_⟩
  rw [preStep_ticks hp ho] at h
  rcases ((c.firmwareTimerTick b).sstcTick).takeInterrupt_cases b with hn | ⟨i, _, _, hi⟩
  · rw [hn] at h
    cases h
    unfold effectiveMip
    rw [if_pos hp, setCsr_apply, if_pos rfl, pendingAt_eq hp]
  · rw [hi] at h
    cases h

/-- A candidate of a hart with the same enables, delegation, gates and privilege. -/
theorem Candidate.transfer {mip mip' : BitVec 32} {i : Nat} (h : c'.Candidate mip' i)
    (hpend : mip.getLsbD i = true) (hmie : c'.csr CSR_MIE = c.csr CSR_MIE)
    (hdel : c'.csr CSR_MIDELEG = c.csr CSR_MIDELEG) (hpriv : c'.priv = c.priv)
    (hstatus : ∀ mask ∈ [MSTATUS_SIE, MSTATUS_MIE], c'.csr CSR_MSTATUS &&& mask = c.csr CSR_MSTATUS &&& mask) :
    c.Candidate mip i where
  source := h.source
  pending := hpend
  enabled := hmie ▸ h.enabled
  takeable := by
    have hdest : c'.destination i = c.destination i := by
      unfold destination delegated
      rw [hdel]
    have hopen := h.takeable
    rw [hdest] at hopen
    unfold LevelOpen at hopen ⊢
    rw [hpriv] at hopen
    cases hl : c.destination i with
    | s =>
      rw [hl, show Level.s.ie = MSTATUS_SIE from rfl, hstatus _ (by decide)] at hopen
      exact hopen
    | m =>
      rw [hl, show Level.m.ie = MSTATUS_MIE from rfl, hstatus _ (by decide)] at hopen
      exact hopen

end CPU

namespace QuietTicks

variable {c0 c c' : CPU} {b b' : Bus} {k : Nat}

/-- Within the horizon the only pending bit that a takeable source can have was pending before. -/
theorem pending_of_candidate (hq : QuietTicks k c b c' b') (hp : b.mem.plat = true)
    (hmip : c.csr CSR_MIP = (c0.pendingAt b).setWidth 64) (hid : c.hartid = c0.hartid)
    (hk : k < (c.interruptHorizon b).toNat) {j : Nat} (hj : c'.Candidate (c'.pendingAt b') j)
    (hgate : c.horizonGate j = true) : (c0.pendingAt b).getLsbD j = true := by
  have hp' : b'.mem.plat = true := hq.attached.trans hp
  have hid' : (c'.firmwareTimerTick b').sstcTick.hartid = c.hartid := by
    rw [(c'.samePre_ticks b').rest]
    exact hq.hartid
  have hid0 : (c0.firmwareTimerTick b).sstcTick.hartid = c.hartid := by
    rw [(c0.samePre_ticks b).rest]
    exact hid.symm
  have hmip' : c'.csr CSR_MIP = c.csr CSR_MIP := hq.csr _ (by decide) (by decide)
  have hkept : ∀ i, i < 32 → (c'.csr CSR_MIP).getLsbD i = (c0.pendingAt b).getLsbD i := by
    intro i hi
    rw [hmip', hmip, BitVec.getLsbD_setWidth, decide_eq_true (by omega), Bool.true_and]
  have hnotDue : k < (CPU.distance b.plat.clint.mtime (b.plat.clint.mtimecmp c.hartid.toNat)).toNat →
      b'.plat.clint.timerReached c.hartid.toNat = false := by
    intro hd
    unfold Clint.timerReached
    rw [hq.plat]
    exact CPU.not_reached hd
  obtain ⟨hmachine, hrelay, hsstc⟩ := CPU.interruptHorizon_bounds hp hk
  have hpend := hj.pending
  rw [CPU.pendingAt_eq hp'] at hpend
  -- A line of a device that is not the clock is as it was.
  have hline : ∀ i ∈ [3, 9, 11], ((c'.firmwareTimerTick b').sstcTick.liveMip b').getLsbD i = true →
      (c0.pendingAt b).getLsbD i = true := by
    intro i hi h
    have hdevs : ∀ i ∈ [3, 9, 11], MIP_DEVICE.getLsbD i = true := by decide
    have hdev := hdevs i hi
    rw [CPU.liveMip_device hp' hdev, hid', hq.plat, platMipBits_advance _ _ _ hi] at h
    rw [CPU.pendingAt_eq hp, CPU.liveMip_device hp hdev, hid0]
    exact h
  have hsource : j = 11 ∨ j = 3 ∨ j = IRQ_MTIMER ∨ j = 9 ∨ j = IRQ_SSOFT ∨ j = IRQ_STIMER := by
    simpa [CPU.irqOrder, IRQ_MEXT, IRQ_MSOFT, IRQ_SEXT] using hj.source
  rcases hsource with rfl | rfl | rfl | rfl | rfl | rfl
  · exact hline 11 (by decide) hpend
  · exact hline 3 (by decide) hpend
  · rw [CPU.liveMip_device hp' (by decide), hid'] at hpend
    have hdue := timerReached_of_mtip hpend
    rw [hnotDue (hmachine hgate)] at hdue
    cases hdue
  · exact hline 9 (by decide) hpend
  · rw [CPU.liveMip_getLsbD _ _ (by decide) (by decide), CPU.ssip_ticks, hkept _ (by decide)] at hpend
    exact hpend
  · rw [CPU.liveMip_getLsbD _ _ (by decide) (by decide)] at hpend
    have hstce : c'.stce = c.stce := by
      unfold CPU.stce
      rw [hq.csr _ (by decide) (by decide)]
    rcases CPU.stip_ticks hpend with ⟨hs, hcmp⟩ | ⟨_, hstip | ⟨harm, hdue⟩⟩
    · rw [hq.csr _ (by decide) (by decide), hq.instret, CPU.not_reached (hsstc hgate (hstce ▸ hs))] at hcmp
      cases hcmp
    · exact (hkept IRQ_STIMER (by decide)).symm.trans hstip
    · rw [hq.hartid, hnotDue (hrelay hgate (hq.armed ▸ harm))] at hdue
      cases hdue

end QuietTicks

/-- The horizon is sound: from a boundary where the prologue took nothing, and after any number of
quiet retirements below the horizon, the prologue again takes nothing. -/
theorem interruptHorizon_sound (c0 c c' : CPU) (b b' : Bus) (k : Nat) (hpre : c0.preStep b = (false, c))
    (hk : k < (c.interruptHorizon b).toNat) (hq : QuietTicks k c b c' b') : (c'.preStep b').1 = false := by
  cases hp : b.mem.plat with
  | false =>
    unfold CPU.preStep
    rw [hq.attached, hp]
    rfl
  | true =>
    obtain ⟨ho, hnone, hmip⟩ := CPU.untaken_preStep hp hpre
    have hsame : CPU.SamePre c0 c := CPU.samePre_preStep hpre
    have hpriv : c.priv = c0.priv := by rw [hsame.rest]
    have hid : c.hartid = c0.hartid := by rw [hsame.rest]
    have ho' : platPoweroffRequested b'.plat = none := by
      rw [hq.plat]
      exact ho
    refine CPU.preStep_unscanned (hq.attached.trans hp) ho' ?_
    cases hscan : c'.scan (c'.pendingAt b') with
    | none => rfl
    | some j =>
      -- What it would take was a candidate at the first boundary already.
      have hcand := (CPU.scan_some hscan).1
      have hhere : c.Candidate (c'.pendingAt b') j :=
        hcand.transfer hcand.pending (hq.csr _ (by decide) (by decide)) (hq.csr _ (by decide) (by decide))
          hq.priv hq.status
      have hpend := hq.pending_of_candidate hp hmip hid hk hcand (CPU.horizonGate_of_candidate hhere)
      refine absurd (hhere.transfer hpend (hsame.csr _ (by decide)) (hsame.csr _ (by decide)) hpriv fun mask _ => ?_)
        (hnone j)
      rw [hsame.csr _ (by decide)]

/-- A machine-mode hart that takes machine timer interrupts, ten ticks before its deadline. -/
def deadlineCpu : CPU :=
  ((Machine.load .rv64 1 0x80000000 0x1000 0x80000000 []).cpu.setCsr CSR_MIE 0x80).setCsr CSR_MSTATUS 0x8

def deadlineBus : Bus :=
  let b := (Machine.load .rv64 1 0x80000000 0x1000 0x80000000 []).bus
  { b with plat := { b.plat with clint := { b.plat.clint with mtimecmp := fun _ => 10 } } }

theorem nine_quiet_ticks :
    ((deadlineCpu.preStep deadlineBus).2.interruptHorizon deadlineBus).toNat = 10 ∧
    ({ (deadlineCpu.preStep deadlineBus).2 with
        instret := (deadlineCpu.preStep deadlineBus).2.instret + BitVec.ofNat 64 9 }.preStep
      { deadlineBus with plat := { deadlineBus.plat with
          clint := { deadlineBus.plat.clint with mtime := deadlineBus.plat.clint.mtime + BitVec.ofNat 64 9 } } }).1 =
      false := by
  have htaken : (deadlineCpu.preStep deadlineBus).1 = false := by decide +kernel
  have hpre : deadlineCpu.preStep deadlineBus = (false, (deadlineCpu.preStep deadlineBus).2) :=
    Prod.ext htaken rfl
  have hh : ((deadlineCpu.preStep deadlineBus).2.interruptHorizon deadlineBus).toNat = 10 := by decide +kernel
  exact ⟨hh, interruptHorizon_sound deadlineCpu _ _ deadlineBus _ 9 hpre (by rw [hh]; decide)
    ⟨fun _ _ _ => rfl, fun _ _ => rfl, rfl, rfl, rfl, rfl, rfl, rfl⟩⟩

end Quanta
