/-
Which interrupt is taken at an instruction boundary. The architecture orders the candidates by the
privilege they are destined for and only then by the fixed order of the sources; `take_interrupt`
scans the fixed order alone, so it takes the right one exactly when no delegated candidate comes
before the first candidate for M.
-/
import Quanta.Effects.Step
import Quanta.Hart.Status

namespace Quanta

/-! ## What should be taken -/

/-- The level an interrupt is destined for. -/
inductive Level
  | s | m
  deriving DecidableEq, Repr

namespace Level

def priv : Level → BitVec 32
  | s => PRIV_S
  | m => PRIV_M

/-- The level's global interrupt enable and the bit it is saved in. -/
def ie : Level → BitVec 64
  | s => MSTATUS_SIE
  | m => MSTATUS_MIE

def pie : Level → BitVec 64
  | s => MSTATUS_SPIE
  | m => MSTATUS_MPIE

def epc : Level → BitVec 12
  | s => CSR_SEPC
  | m => CSR_MEPC

def cause : Level → BitVec 12
  | s => CSR_SCAUSE
  | m => CSR_MCAUSE

def tval : Level → BitVec 12
  | s => CSR_STVAL
  | m => CSR_MTVAL

def tvec : Level → BitVec 12
  | s => CSR_STVEC
  | m => CSR_MTVEC

/-- The privilege saved for the return from a trap to this level. -/
def saved (l : Level) (mstatus : BitVec 64) : BitVec 32 :=
  match l with
  | s => CPU.sppOf mstatus
  | m => mppOf mstatus

end Level

namespace CPU

/-- Where interrupt `i` goes after `mideleg`. -/
def destination (c : CPU) (i : Nat) : Level := if c.delegated i then .s else .m

/-- Interrupts for this level are takeable: the hart is below it, or at it with its enable set. -/
def LevelOpen (c : CPU) (l : Level) : Prop :=
  c.priv < l.priv ∨ c.priv = l.priv ∧ c.csr CSR_MSTATUS &&& l.ie ≠ 0

/-- `i` is one of the six sources, pending, enabled and takeable. -/
structure Candidate (c : CPU) (mip : BitVec 32) (i : Nat) : Prop where
  source : i ∈ irqOrder
  pending : mip.getLsbD i = true
  enabled : (c.csr CSR_MIE).getLsbD i = true
  takeable : c.LevelOpen (c.destination i)

/-- `i` is the candidate to take: none is destined for a higher privilege, and among those for the
same one it comes first in the order of the sources. -/
structure Best (c : CPU) (mip : BitVec 32) (i : Nat) : Prop extends c.Candidate mip i where
  highest : ∀ j, c.Candidate mip j → (c.destination j).priv ≤ (c.destination i).priv
  first : ∀ j, c.Candidate mip j → c.destination j = c.destination i → irqOrder.idxOf i ≤ irqOrder.idxOf j

/-- `c'` is `c` in the handler of interrupt `i` at level `l`. -/
structure Entered (c : CPU) (l : Level) (i : Nat) (c' : CPU) : Prop where
  pc : c'.pc = (c.csr l.tvec &&& ~~~3#64) + if (c.csr l.tvec).getLsbD 0 then 4 * BitVec.ofNat 64 i else 0
  priv : c'.priv = l.priv
  epc : c'.csr l.epc = c.pc
  cause : c'.csr l.cause = causeInterrupt c.xlen ||| BitVec.ofNat 64 i
  tval : c'.csr l.tval = 0
  previous : l.saved (c'.csr CSR_MSTATUS) = c.priv
  enable : c'.csr CSR_MSTATUS &&& l.pie ≠ 0 ↔ c.csr CSR_MSTATUS &&& l.ie ≠ 0
  disabled : c'.csr CSR_MSTATUS &&& l.ie = 0

/-- The pending bits at a boundary, once the timers have been relayed and the devices' bits refreshed. -/
def pendingAt (c : CPU) (b : Bus) : BitVec 32 :=
  (if b.mem.plat then (c.firmwareTimerTick b).sstcTick else c).liveMip b

/-- `i` is the candidate to take, and `cpu_pre_step` has taken it. -/
def Taken (c : CPU) (b : Bus) (i : Nat) : Prop :=
  c.Best (c.pendingAt b) i ∧ (c.preStep b).1 = true ∧ c.Entered (c.destination i) i (c.preStep b).2

/-- `cpu_pre_step` selects right: a step it consumes other than for a power-off takes the best
candidate, and it takes one whenever there is a candidate. -/
structure Selects (c : CPU) (b : Bus) : Prop where
  right : (c.preStep b).1 = true → platPoweroffRequested b.plat = none → ∃ i, c.Taken b i
  live : (∃ j, c.Candidate (c.pendingAt b) j) → ∃ i, c.Taken b i

/-- A candidate finds a machine with devices that is not powering off, and no delegated candidate
comes before every candidate for M. -/
structure Orderly (c : CPU) (b : Bus) : Prop where
  running : (∃ j, c.Candidate (c.pendingAt b) j) → b.mem.plat = true ∧ platPoweroffRequested b.plat = none
  ahead : (∃ j, c.Candidate (c.pendingAt b) j ∧ c.destination j = .m) →
    ∀ i, c.Candidate (c.pendingAt b) i → c.destination i = .s →
      ∃ k, c.Candidate (c.pendingAt b) k ∧ c.destination k = .m ∧ irqOrder.idxOf k < irqOrder.idxOf i

end CPU

/-! ## Entry -/

namespace CPU

variable {c : CPU} {b : Bus} {i : Nat}

theorem levelOpen_iff (c : CPU) (l : Level) : c.LevelOpen l ↔ (match l with | .s => c.sOn | .m => c.mOn) = true := by
  cases l <;> simp [LevelOpen, sOn, mOn, Level.priv, Level.ie, BitVec.lt_def, BitVec.ult]

theorem candidate_iff {mip : BitVec 32} :
    c.Candidate mip i ↔ i ∈ irqOrder ∧ c.deliverable (mip &&& lo32 (c.csr CSR_MIE)) i = true := by
  have hgate : c.LevelOpen (c.destination i) ↔ (if c.delegated i then c.sOn else c.mOn) = true := by
    rw [levelOpen_iff]
    unfold destination
    cases c.delegated i <;> rfl
  have hbit : i ∈ irqOrder → (mip &&& lo32 (c.csr CSR_MIE)).getLsbD i = (mip.getLsbD i && (c.csr CSR_MIE).getLsbD i) := by
    intro hi
    have hlt : i < 32 := by
      clear hgate
      revert i
      decide
    rw [BitVec.getLsbD_and, lo32, BitVec.getLsbD_setWidth, decide_eq_true hlt, Bool.true_and]
  unfold deliverable
  constructor
  · rintro ⟨hs, hp, he, ht⟩
    rw [hbit hs, hp, he, hgate.mp ht]
    exact ⟨hs, rfl⟩
  · rintro ⟨hs, hd⟩
    rw [hbit hs, Bool.and_eq_true, Bool.and_eq_true] at hd
    exact ⟨hs, hd.1.1, hd.1.2, hgate.mpr hd.2⟩

/-- Where a vectored or direct handler is entered for an interrupt. -/
theorem trapPc_interrupt (xlen : Xlen) (tvec : BitVec 64) (hi : i ∈ irqOrder) :
    trapPc xlen tvec (causeInterrupt xlen ||| BitVec.ofNat 64 i) =
      (tvec &&& ~~~3#64) + if tvec.getLsbD 0 then 4 * BitVec.ofNat 64 i else 0 := by
  have hcause : (causeInterrupt xlen ||| BitVec.ofNat 64 i) &&& causeInterrupt xlen ≠ 0 ∧
      (causeInterrupt xlen ||| BitVec.ofNat 64 i) &&& ~~~causeInterrupt xlen = BitVec.ofNat 64 i := by
    revert i
    cases xlen <;> decide
  unfold trapPc
  dsimp only
  rw [hcause.2]
  by_cases hv : tvec.getLsbD 0 = true
  · rw [if_pos ⟨hcause.1, hv⟩, if_pos hv]
  · rw [if_neg (fun h => hv h.2), if_neg hv]
    exact (BitVec.add_zero _).symm

theorem priv_le_of_open_s (h : c.LevelOpen .s) : c.priv = PRIV_U ∨ c.priv = PRIV_S := by
  rcases h with h | h
  · left
    have hlt : c.priv.toNat < 1 := h
    exact BitVec.eq_of_toNat_eq (Nat.lt_one_iff.mp hlt)
  · exact Or.inr h.1

theorem priv_lt_of_open_m (h : c.LevelOpen .m) : c.priv.toNat < 4 := by
  rcases h with h | h
  · have : c.priv.toNat < 3 := h
    omega
  · rw [h.1]
    decide

theorem entered_s (ho : c.LevelOpen .s) (hi : i ∈ irqOrder) :
    c.Entered .s i (c.enterTrap (causeInterrupt c.xlen ||| BitVec.ofNat 64 i) 0 true) where
  pc := by rw [enterTrap_pc_S, trapPc_interrupt _ _ hi]; rfl
  priv := rfl
  epc := by rw [enterTrap_csr_S]; rfl
  cause := by rw [enterTrap_csr_S]; rfl
  tval := by rw [enterTrap_csr_S]; rfl
  previous := by
    rw [enterTrap_csr_S, if_pos rfl]
    unfold Level.saved sppOf
    rw [show MSTATUS_SPP = 1#64 <<< 8 from rfl]
    dsimp only
    have hspp : (pushS (c.csr CSR_MSTATUS) c.priv).getLsbD 8 = decide (c.priv ≠ 0) := getLsbD_pushS _ _ (by decide)
    rcases priv_le_of_open_s ho with hp | hp
    · rw [if_neg, hp]
      rw [Bits.and_mask_ne_zero _ (by decide), hspp, hp]
      decide
    · rw [if_pos, hp]
      rw [Bits.and_mask_ne_zero _ (by decide), hspp, hp]
      decide
  enable := by
    rw [enterTrap_csr_S, if_pos rfl, show Level.s.pie = 1#64 <<< 5 from rfl, show Level.s.ie = 1#64 <<< 1 from rfl,
      Bits.and_mask_ne_zero _ (by decide), Bits.and_mask_ne_zero _ (by decide), getLsbD_pushS _ _ (by decide)]
    rfl
  disabled := by
    rw [enterTrap_csr_S, if_pos rfl, show Level.s.ie = 1#64 <<< 1 from rfl]
    by_contra h
    rw [← ne_eq, Bits.and_mask_ne_zero _ (by decide), getLsbD_pushS _ _ (by decide)] at h
    cases h

theorem entered_m (ho : c.LevelOpen .m) (hi : i ∈ irqOrder) :
    c.Entered .m i (c.enterTrap (causeInterrupt c.xlen ||| BitVec.ofNat 64 i) 0 false) where
  pc := by rw [enterTrap_pc_M, trapPc_interrupt _ _ hi]; rfl
  priv := rfl
  epc := by rw [enterTrap_csr_M]; rfl
  cause := by rw [enterTrap_csr_M]; rfl
  tval := by rw [enterTrap_csr_M]; rfl
  previous := by
    rw [enterTrap_csr_M, if_pos rfl]
    exact mppOf_pushM _ (priv_lt_of_open_m ho)
  enable := by
    rw [enterTrap_csr_M, if_pos rfl, show Level.m.pie = 1#64 <<< 7 from rfl, show Level.m.ie = 1#64 <<< 3 from rfl,
      Bits.and_mask_ne_zero _ (by decide), Bits.and_mask_ne_zero _ (by decide),
      getLsbD_pushM _ (priv_lt_of_open_m ho) (by decide)]
    rfl
  disabled := by
    rw [enterTrap_csr_M, if_pos rfl, show Level.m.ie = 1#64 <<< 3 from rfl]
    by_contra h
    rw [← ne_eq, Bits.and_mask_ne_zero _ (by decide), getLsbD_pushM _ (priv_lt_of_open_m ho) (by decide)] at h
    cases h

/-! ## The scan -/

theorem idxOf_le_of_find? {α : Type*} [DecidableEq α] {p : α → Bool} {l : List α} {i j : α} (hi : l.find? p = some i)
    (hj : j ∈ l) (hp : p j = true) : l.idxOf i ≤ l.idxOf j := by
  induction l with
  | nil => cases hj
  | cons a l ih =>
    by_cases ha : p a = true
    · rw [List.find?_cons_of_pos ha] at hi
      cases hi
      rw [List.idxOf_cons_self]
      exact Nat.zero_le _
    · rw [List.find?_cons_of_neg ha] at hi
      have hia : a ≠ i := by
        rintro rfl
        exact ha (List.find?_some hi)
      have hja : a ≠ j := by
        rintro rfl
        exact ha hp
      rw [List.idxOf_cons_ne _ hia, List.idxOf_cons_ne _ hja]
      exact Nat.succ_le_succ (ih hi (List.mem_of_ne_of_mem hja.symm hj))

/-- The scan of the sources in their fixed order. -/
def scan (c : CPU) (mip : BitVec 32) : Option Nat := irqOrder.find? (c.deliverable (mip &&& lo32 (c.csr CSR_MIE)))

theorem scan_some {mip : BitVec 32} (h : c.scan mip = some i) :
    c.Candidate mip i ∧ ∀ j, c.Candidate mip j → irqOrder.idxOf i ≤ irqOrder.idxOf j := by
  refine ⟨candidate_iff.mpr ⟨List.mem_of_find?_eq_some h, List.find?_some h⟩, fun j hj => ?_⟩
  obtain ⟨hmem, hd⟩ := candidate_iff.mp hj
  exact idxOf_le_of_find? h hmem hd

theorem not_candidate_of_scan_none {mip : BitVec 32} (h : c.scan mip = none) (j : Nat) : ¬c.Candidate mip j := by
  intro hj
  obtain ⟨hmem, hd⟩ := candidate_iff.mp hj
  exact List.find?_eq_none.mp h j hmem hd

/-- The prologue does not change what an interrupt entry reads. -/
theorem entered_of_samePre {c1 : CPU} (hs : SamePre c c1) (hi : i ∈ irqOrder) (ho : c.LevelOpen (c.destination i)) :
    c.Entered (c.destination i) i (c1.enterTrap (causeInterrupt c1.xlen ||| BitVec.ofNat 64 i) 0 (c1.delegated i)) := by
  have hcsr : ∀ a, a ≠ CSR_MIP → c1.csr a = c.csr a := hs.csr
  have hpriv : c1.priv = c.priv := by rw [hs.rest]
  have hpc : c1.pc = c.pc := by rw [hs.rest]
  have hxlen : c1.xlen = c.xlen := by rw [hs.rest]
  have hdel : c1.delegated i = c.delegated i := by
    unfold delegated
    rw [hcsr _ (by decide)]
  have hopen : c1.LevelOpen (c.destination i) := by
    unfold LevelOpen at ho ⊢
    rwa [hpriv, hcsr _ (by decide)]
  have hent : c1.Entered (c.destination i) i (c1.enterTrap (causeInterrupt c1.xlen ||| BitVec.ofNat 64 i) 0 (c1.delegated i)) := by
    rw [hdel]
    unfold destination at hopen ⊢
    cases hd : c.delegated i with
    | true =>
      rw [hd] at hopen
      exact entered_s hopen hi
    | false =>
      rw [hd] at hopen
      exact entered_m hopen hi
  have htvec : c1.csr (c.destination i).tvec = c.csr (c.destination i).tvec :=
    hcsr _ (by cases c.destination i <;> decide)
  have hstatus : c1.csr CSR_MSTATUS = c.csr CSR_MSTATUS := hcsr _ (by decide)
  exact
    { pc := htvec ▸ hent.pc
      priv := hent.priv
      epc := hent.epc.trans hpc
      cause := hxlen ▸ hent.cause
      tval := hent.tval
      previous := hent.previous.trans hpriv
      enable := hstatus ▸ hent.enable
      disabled := hent.disabled }

/-- A consumed step of a running machine is the interrupt the scan finds. -/
theorem preStep_of_running (hp : b.mem.plat = true) (ho : platPoweroffRequested b.plat = none) :
    ∃ c1, SamePre c c1 ∧ c.preStep b =
      match c.scan (c.pendingAt b) with
      | some i => (true, c1.enterTrap (causeInterrupt c1.xlen ||| BitVec.ofNat 64 i) 0 (c1.delegated i))
      | none => (false, c1) := by
  have h0 : SamePre c (c.firmwareTimerTick b).sstcTick := (c.samePre_firmwareTimerTick b).trans (samePre_sstcTick _)
  have hs := h0.trans (samePre_effectiveMip _ b)
  refine ⟨((c.firmwareTimerTick b).sstcTick.effectiveMip b).2, hs, ?_⟩
  have hmip : ((c.firmwareTimerTick b).sstcTick.effectiveMip b).1 = c.pendingAt b := by
    unfold pendingAt effectiveMip
    rw [if_pos hp, if_pos hp]
  have hscan : irqOrder.find? (((c.firmwareTimerTick b).sstcTick.effectiveMip b).2.deliverable
      (c.pendingAt b &&& lo32 (((c.firmwareTimerTick b).sstcTick.effectiveMip b).2.csr CSR_MIE))) = c.scan (c.pendingAt b) := by
    have hpriv : ((c.firmwareTimerTick b).sstcTick.effectiveMip b).2.priv = c.priv := by rw [hs.rest]
    unfold scan deliverable sOn mOn delegated
    rw [hs.csr _ (by decide), hs.csr _ (by decide), hs.csr _ (by decide), hpriv]
  unfold preStep
  rw [hp, ho]
  show takeInterrupt _ b = _
  unfold takeInterrupt
  dsimp only
  rw [hmip]
  cases hfound : c.scan (c.pendingAt b) with
  | none => simp only [hscan, hfound]
  | some i => simp only [hscan, hfound]

/-- Every candidate is at least at S, and one for M is above one for S. -/
theorem destination_le (i j : Nat) (h : c.destination j = .m → c.destination i = .m) :
    (c.destination j).priv ≤ (c.destination i).priv := by
  cases hj : c.destination j with
  | m =>
    rw [h hj]
    exact BitVec.le_refl _
  | s => cases c.destination i <;> decide

theorem destination_of_le {i j : Nat} (h : (c.destination j).priv ≤ (c.destination i).priv) (hj : c.destination j = .m) :
    c.destination i = .m := by
  rw [hj] at h
  cases hi : c.destination i with
  | m => rfl
  | s =>
    rw [hi] at h
    exact absurd h (by decide)

/-- What a running machine takes is what the scan finds. -/
theorem preStep_scan (hp : b.mem.plat = true) (ho : platPoweroffRequested b.plat = none)
    (hi : c.scan (c.pendingAt b) = some i) : (c.preStep b).1 = true ∧ c.Entered (c.destination i) i (c.preStep b).2 := by
  obtain ⟨c1, hs, hpre⟩ := preStep_of_running (c := c) hp ho
  have hcand := (scan_some hi).1
  rw [hpre, hi]
  exact ⟨rfl, entered_of_samePre hs hcand.source hcand.takeable⟩

theorem preStep_unscanned (hp : b.mem.plat = true) (ho : platPoweroffRequested b.plat = none)
    (hi : c.scan (c.pendingAt b) = none) : (c.preStep b).1 = false := by
  obtain ⟨c1, _, hpre⟩ := preStep_of_running (c := c) hp ho
  rw [hpre, hi]

theorem Orderly.taken (h : c.Orderly b) (hp : b.mem.plat = true) (ho : platPoweroffRequested b.plat = none)
    (hi : c.scan (c.pendingAt b) = some i) : c.Taken b i := by
  obtain ⟨hcand, hfirst⟩ := scan_some hi
  refine ⟨⟨hcand, fun j hj => destination_le i j fun hjm => ?_, fun j hj _ => hfirst j hj⟩, preStep_scan hp ho hi⟩
  -- The scan's first candidate would be delegated with one for M behind it.
  by_contra hne
  have his : c.destination i = .s := by
    cases hd : c.destination i with
    | s => rfl
    | m => exact absurd hd hne
  obtain ⟨k, hk, _, hlt⟩ := h.ahead ⟨j, hj, hjm⟩ i hcand his
  have hle := hfirst k hk
  omega

theorem plat_of_preStep (h : (c.preStep b).1 = true) : b.mem.plat = true := by
  cases hp : b.mem.plat with
  | true => rfl
  | false =>
    unfold preStep at h
    rw [hp] at h
    cases h

/-- A taken interrupt finds the machine running. -/
theorem Taken.running (h : c.Taken b i) : b.mem.plat = true ∧ platPoweroffRequested b.plat = none := by
  obtain ⟨hbest, htrue, hent⟩ := h
  have hp := plat_of_preStep htrue
  refine ⟨hp, ?_⟩
  cases ho : platPoweroffRequested b.plat with
  | none => rfl
  | some code =>
    -- The halted hart has kept its privilege and its enable bit, which an entry changes.
    have hpre : c.preStep b = (true, { c with exitCode := code, haltReason := .exit, halted := true }) := by
      unfold preStep
      rw [hp, ho]
      rfl
    rw [hpre] at hent
    have hpriv : c.priv = (c.destination i).priv := hent.priv
    have hoff : c.csr CSR_MSTATUS &&& (c.destination i).ie = 0 := hent.disabled
    rcases hbest.takeable with hlt | ⟨_, hon⟩
    · rw [hpriv] at hlt
      exact absurd hlt (BitVec.lt_irrefl _)
    · exact absurd hoff hon

theorem interrupt_selection_iff (c : CPU) (b : Bus) : c.Selects b ↔ c.Orderly b := by
  constructor
  · intro h
    refine ⟨fun hex => ?_, fun hm i hi his => ?_⟩
    · obtain ⟨i, ht⟩ := h.live hex
      exact ht.running
    · obtain ⟨j, hj, hjm⟩ := hm
      obtain ⟨k, ht⟩ := h.live ⟨j, hj⟩
      obtain ⟨hp, ho⟩ := ht.running
      have hkm : c.destination k = .m := destination_of_le (ht.1.highest j hj) hjm
      cases hf : c.scan (c.pendingAt b) with
      | none => exact absurd hj (not_candidate_of_scan_none hf j)
      | some f =>
        obtain ⟨hcand, hfirst⟩ := scan_some hf
        have hent := (preStep_scan hp ho hf).2
        have hfm : c.destination f = .m := by
          have hpriv : (c.destination f).priv = (c.destination k).priv := hent.priv.symm.trans ht.2.2.priv
          exact destination_of_le (i := f) (j := k) (hpriv ▸ BitVec.le_refl _) hkm
        refine ⟨f, hcand, hfm, lt_of_le_of_ne (hfirst i hi) fun heq => ?_⟩
        have hfi : f = i := (List.idxOf_inj hcand.source).mp heq
        rw [hfi, his] at hfm
        cases hfm
  · intro h
    refine ⟨fun htrue ho => ?_, fun hex => ?_⟩
    · have hp := plat_of_preStep htrue
      cases hf : c.scan (c.pendingAt b) with
      | none =>
        rw [preStep_unscanned hp ho hf] at htrue
        cases htrue
      | some i => exact ⟨i, h.taken hp ho hf⟩
    · obtain ⟨hp, ho⟩ := h.running hex
      obtain ⟨j, hj⟩ := hex
      cases hf : c.scan (c.pendingAt b) with
      | none => exact absurd hj (not_candidate_of_scan_none hf j)
      | some i => exact ⟨i, h.taken hp ho hf⟩

/-- A hart in S with its software interrupt delegated and its timer interrupt not, both pending. -/
def mixedHart : CPU :=
  let c := CPU.init (fun _ => .empty) 0x80000000#64 .rv32
  let c := (c.setCsr CSR_MSTATUS MSTATUS_SIE).setCsr CSR_MIDELEG 0x2
  let c := (c.setCsr CSR_MIE 0x22).setCsr CSR_MIP 0x22
  { c with priv := PRIV_S }

def idleBus : Bus := ⟨{ memInit 0x80000000#64 0x1000#64 with plat := true }, platInit, []⟩

/-- It takes the software interrupt to S though the timer interrupt is destined for M. -/
theorem delegated_taken_first : ¬mixedHart.Selects idleBus := by
  intro h
  have hcand : mixedHart.Candidate (mixedHart.pendingAt idleBus) IRQ_STIMER := candidate_iff.mpr ⟨by decide, by decide⟩
  obtain ⟨i, hbest, _, hent⟩ := h.live ⟨_, hcand⟩
  have hm : mixedHart.destination i = .m := destination_of_le (hbest.highest _ hcand) (by decide)
  have hpriv : (mixedHart.preStep idleBus).2.priv = PRIV_S := by decide
  have hent := hent.priv
  rw [hm, hpriv] at hent
  exact absurd hent (by decide)

end CPU
end Quanta
