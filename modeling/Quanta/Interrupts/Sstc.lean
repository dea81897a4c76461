/-
The Sstc timer. Every register is taken as software sees it through its CSR: 64 bits on RV64, two
halves on RV32. The prologue recomputes STIP from `menvcfg` and `stimecmp` alone, so it is exact at
every boundary on RV64; on RV32 the high halves are stored and never looked at.
-/
import Quanta.Interrupts.SbiTimer

namespace Quanta

namespace CPU

/-! ## The timer's registers as software reads them -/

/-- A 64-bit register read through one CSR on RV64 and through a pair of them on RV32. -/
def readWide (c : CPU) (b : Bus) (lo hi : BitVec 12) : BitVec 64 :=
  match c.xlen with
  | .rv64 => c.csrRead b lo
  | .rv32 => lo32 (c.csrRead b hi) ++ lo32 (c.csrRead b lo)

/-- The counter that `time` and `timeh` read. -/
def timeSeen (c : CPU) (b : Bus) : BitVec 64 := c.readWide b CSR_TIME CSR_TIMEH

/-- The comparator that `stimecmp` and `stimecmph` hold. -/
def stimecmpSeen (c : CPU) (b : Bus) : BitVec 64 := c.readWide b CSR_STIMECMP CSR_STIMECMPH

/-- `menvcfg.STCE`, bit 63 of `menvcfg` and `menvcfgh`. -/
def stceSeen (c : CPU) (b : Bus) : Bool := (c.readWide b CSR_MENVCFG CSR_MENVCFGH).getLsbD 63

/-- With Sstc enabled, `sip.STIP` is the unsigned comparison of the counter with the comparator. -/
def SstcExact (c : CPU) (b : Bus) : Prop :=
  c.stceSeen b = true → c.sipStip b = (c.stimecmpSeen b).ule (c.timeSeen b)

variable {c : CPU} {b : Bus}

/-- The two halves of a word join to it. -/
theorem lo32_append_lo32 (v : BitVec 64) : lo32 (v >>> 32) ++ lo32 v = v := by
  refine Bits.append_eq_iff.mpr ⟨?_, rfl⟩
  apply BitVec.eq_of_getLsbD_eq
  intro i hi
  simp only [lo32, BitVec.getLsbD_setWidth, BitVec.getLsbD_ushiftRight, BitVec.getLsbD_extractLsb']

/-- On both XLENs the counter read is the retired-instruction count. -/
theorem timeSeen_eq : c.timeSeen b = c.instret := by
  unfold timeSeen readWide
  split
  · rfl
  · exact lo32_append_lo32 c.instret

theorem stceSeen_rv64 (hx : c.xlen = .rv64) : c.stceSeen b = c.stce := by
  unfold stceSeen readWide
  rw [hx]
  rfl

theorem stimecmpSeen_rv64 (hx : c.xlen = .rv64) : c.stimecmpSeen b = c.csr CSR_STIMECMP := by
  unfold stimecmpSeen readWide
  rw [hx]
  rfl

/-! ## The prologue -/

/-- What the timer's registers hold is the same. -/
structure SameSstc (c c' : CPU) : Prop where
  xlen : c'.xlen = c.xlen
  instret : c'.instret = c.instret
  csr : ∀ a ∈ [CSR_MENVCFG, CSR_MENVCFGH, CSR_STIMECMP, CSR_STIMECMPH], c'.csr a = c.csr a

theorem SameSstc.trans {c c' c'' : CPU} (h : SameSstc c c') (h' : SameSstc c' c'') : SameSstc c c'' :=
  ⟨h'.xlen.trans h.xlen, h'.instret.trans h.instret, fun a ha => (h'.csr a ha).trans (h.csr a ha)⟩

theorem SamePre.sameSstc {c c' : CPU} (h : SamePre c c') : SameSstc c c' where
  xlen := by rw [h.rest]
  instret := by rw [h.rest]
  csr a ha := by
    refine h.csr a ?_
    rintro rfl
    revert ha
    decide

theorem sameSstc_enterTrap (c : CPU) (cause tval : BitVec 64) (toS : Bool) :
    SameSstc c (c.enterTrap cause tval toS) where
  xlen := enterTrap_xlen ..
  instret := enterTrap_instret ..
  csr a ha := by
    simp only [List.mem_cons, List.not_mem_nil, or_false] at ha
    cases toS with
    | true => rcases ha with rfl | rfl | rfl | rfl <;> exact c.enterTrap_csr_S cause tval _
    | false => rcases ha with rfl | rfl | rfl | rfl <;> exact c.enterTrap_csr_M cause tval _

/-- The timer's registers read the same. -/
theorem SameSstc.seen {c c' : CPU} (h : SameSstc c c') (b : Bus) :
    c'.stceSeen b = c.stceSeen b ∧ c'.stimecmpSeen b = c.stimecmpSeen b := by
  have hcfg : c'.readWide b CSR_MENVCFG CSR_MENVCFGH = c.readWide b CSR_MENVCFG CSR_MENVCFGH := by
    unfold readWide
    rw [h.xlen, show c'.csrRead b CSR_MENVCFG = c.csrRead b CSR_MENVCFG from h.csr _ (by decide),
      show c'.csrRead b CSR_MENVCFGH = c.csrRead b CSR_MENVCFGH from h.csr _ (by decide)]
  have hcmp : c'.readWide b CSR_STIMECMP CSR_STIMECMPH = c.readWide b CSR_STIMECMP CSR_STIMECMPH := by
    unfold readWide
    rw [h.xlen, show c'.csrRead b CSR_STIMECMP = c.csrRead b CSR_STIMECMP from h.csr _ (by decide),
      show c'.csrRead b CSR_STIMECMPH = c.csrRead b CSR_STIMECMPH from h.csr _ (by decide)]
  exact ⟨congrArg (BitVec.getLsbD · 63) hcfg, hcmp⟩

/-- `sstc_tick` decides STIP by the stored comparator, if the stored enable bit is set. -/
theorem stip_sstcTick (c : CPU) :
    c.sstcTick.stip = if c.stce then (c.csr CSR_STIMECMP).ule c.instret else c.stip := by
  have hset : (c.csr CSR_MIP ||| 0x20).getLsbD IRQ_STIMER = true := by
    rw [BitVec.getLsbD_or]
    exact Bool.or_true _
  have hclear : (c.csr CSR_MIP &&& 0xffffffdf).getLsbD IRQ_STIMER = false := by
    rw [BitVec.getLsbD_and]
    exact Bool.and_false _
  unfold sstcTick
  cases hs : c.stce with
  | false => rfl
  | true =>
    rw [if_pos rfl, Bool.not_true, if_neg (by decide)]
    unfold stip
    cases (c.csr CSR_STIMECMP).ule c.instret with
    | true =>
      rw [if_pos rfl, setCsr_apply, if_pos rfl]
      exact hset
    | false =>
      rw [if_neg (by decide), setCsr_apply, if_pos rfl]
      exact hclear

section Running

variable (hp : b.mem.plat = true) (ho : platPoweroffRequested b.plat = none)

include hp ho

/-- The prologue of a running hart: the two ticks, then perhaps an interrupt. -/
theorem preStep_ticks : c.preStep b = (c.firmwareTimerTick b).sstcTick.takeInterrupt b := by
  unfold preStep
  rw [hp, ho]
  rfl

/-- An interrupt taken by the prologue leaves the timer's registers alone. -/
theorem sameSstc_preStep : SameSstc c (c.preStep b).2 := by
  rw [preStep_ticks hp ho]
  have hticks := ((c.samePre_firmwareTimerTick b).trans (samePre_sstcTick _)).sameSstc
  refine hticks.trans ?_
  rcases ((c.firmwareTimerTick b).sstcTick).takeInterrupt_cases b with h | ⟨i, _, _, h⟩
  · rw [h]
    exact (samePre_effectiveMip _ b).sameSstc
  · rw [h]
    exact (samePre_effectiveMip _ b).sameSstc.trans (sameSstc_enterTrap ..)

/-- STIP at the boundary, from the hart before it: the stored comparison under the stored enable
bit, and otherwise what software and the firmware's relay made of it. -/
theorem stip_preStep (hid : c.hartid.toNat < QUANTA_MAX_HARTS) :
    (c.preStep b).2.stip =
      if c.stce then (c.csr CSR_STIMECMP).ule c.instret else c.stip || (c.sbiTimerArmed && c.timerDue b) := by
  have hpre := c.samePre_firmwareTimerTick b
  have hsame := hpre.sameSstc
  have hstce : (c.firmwareTimerTick b).stce = c.stce := by
    unfold stce
    rw [hsame.csr _ (by decide)]
  rw [preStep_ticks hp ho, (sameTimer_takeInterrupt _ b).stip, stip_sstcTick, hstce, hsame.instret,
    hsame.csr CSR_STIMECMP (by decide), (c.relayed_firmwareTimerTick b hid).stip]

end Running

/-! ## Exactness -/

/-- Where STIP comes out exact: on RV64 always. On RV32 the code takes bit 31 of `menvcfg` for STCE
and the sign-extended `stimecmp` for the comparator, so with STCE set in `menvcfgh` either that
comparison must agree with the one of the two halves, or, if bit 31 of `menvcfg` is clear, the STIP
that software and the firmware's relay left must. -/
def SstcAgrees (c : CPU) (b : Bus) : Prop :=
  c.xlen = .rv64 ∨ c.stceSeen b = false ∨
  (c.stce = true ∧ ((c.csr CSR_STIMECMP).ule c.instret ↔ (c.stimecmpSeen b).ule c.instret)) ∨
  (c.stce = false ∧ ((c.stip ∨ c.sbiTimerArmed ∧ c.timerDue b) ↔ (c.stimecmpSeen b).ule c.instret))

/-- STIP at a boundary is exact in every state of an RV64 hart, and in those of an RV32 hart that
`SstcAgrees` describes. -/
theorem sstc_exact_iff (c : CPU) (b : Bus) (hp : b.mem.plat = true) (ho : platPoweroffRequested b.plat = none)
    (hid : c.hartid.toNat < QUANTA_MAX_HARTS) : (c.preStep b).2.SstcExact b ↔ c.SstcAgrees b := by
  have hsame : SameSstc c (c.preStep b).2 := sameSstc_preStep hp ho
  obtain ⟨hen, hcmp⟩ := hsame.seen b
  unfold SstcExact SstcAgrees
  rw [sipStip_eq, timeSeen_eq, hsame.instret, hen, hcmp, stip_preStep hp ho hid]
  cases hx : c.xlen with
  | rv64 =>
    rw [stceSeen_rv64 hx, stimecmpSeen_rv64 hx]
    refine iff_of_true (fun hs => ?_) (Or.inl rfl)
    rw [if_pos hs]
  | rv32 =>
    cases hseen : c.stceSeen b with
    | false => simp
    | true =>
      cases hs : c.stce with
      | true =>
        rw [if_pos rfl]
        simp
      | false =>
        rw [if_neg (by decide), Bool.eq_iff_iff (a := _ || _), Bool.or_eq_true, Bool.and_eq_true]
        simp

end CPU

/-- An RV32 hart that has set `menvcfgh` to 0x80000000, with the comparator still 0. -/
def sstcMachine : Machine :=
  Machine.cpuStep^[2] (.load .rv32 1 0x80000000 0x1000 0x80000000 [0x800000b7, 0x31a09073])

/-- An RV64 hart that has set bit 63 of `menvcfg`, with the comparator still 0. -/
def sstcMachine64 : Machine :=
  Machine.cpuStep^[3] (.load .rv64 1 0x80000000 0x1000 0x80000000 [0xfff00093, 0x03f09093, 0x30a09073])

theorem sstc_exact_rv64 :
    sstcMachine64.cpu.stceSeen sstcMachine64.bus = true ∧
    (sstcMachine64.cpu.preStep sstcMachine64.bus).2.sipStip sstcMachine64.bus = true ∧
    (sstcMachine64.cpu.preStep sstcMachine64.bus).2.SstcExact sstcMachine64.bus :=
  ⟨by decide +kernel, by decide +kernel,
    (CPU.sstc_exact_iff _ _ (by decide +kernel) (by decide +kernel) (by decide +kernel)).mpr
      (Or.inl (by decide +kernel))⟩

/-- The RV32 hart has Sstc enabled, its counter reads 2 and its comparator 0, and STIP is clear at the
boundary. -/
theorem sstc_ignored_rv32 :
    ((sstcMachine.cpu.preStep sstcMachine.bus).2.stceSeen sstcMachine.bus = true ∧
      (sstcMachine.cpu.preStep sstcMachine.bus).2.timeSeen sstcMachine.bus = 2 ∧
      (sstcMachine.cpu.preStep sstcMachine.bus).2.stimecmpSeen sstcMachine.bus = 0 ∧
      (sstcMachine.cpu.preStep sstcMachine.bus).2.sipStip sstcMachine.bus = false) ∧
    ¬(sstcMachine.cpu.preStep sstcMachine.bus).2.SstcExact sstcMachine.bus := by
  have hregs : (sstcMachine.cpu.preStep sstcMachine.bus).2.stceSeen sstcMachine.bus = true ∧
      (sstcMachine.cpu.preStep sstcMachine.bus).2.timeSeen sstcMachine.bus = 2 ∧
      (sstcMachine.cpu.preStep sstcMachine.bus).2.stimecmpSeen sstcMachine.bus = 0 ∧
      (sstcMachine.cpu.preStep sstcMachine.bus).2.sipStip sstcMachine.bus = false := by decide +kernel
  refine ⟨hregs, fun hexact => ?_⟩
  obtain ⟨hen, htime, hcmp, hstip⟩ := hregs
  have h := hexact hen
  rw [hstip, hcmp, htime] at h
  exact absurd h (by decide)

end Quanta
