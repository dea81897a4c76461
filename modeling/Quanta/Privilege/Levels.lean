/-
The privilege level. Traps, SRET and the HSM calls only ever reach U, S and M; MRET takes its
level from the two bits of `mstatus.MPP`, which M-mode software may have set to the reserved
value 2. In every run where no MRET pops that value the level is architectural, ECALL has one of
its three causes, and every trap into M records an architectural level.
-/
import Quanta.Hart.Status
import Quanta.Effects.System

namespace Quanta

open Relation Run

/-- One of the three levels the architecture defines. -/
def ArchPriv (p : BitVec 32) : Prop := p = PRIV_U ∨ p = PRIV_S ∨ p = PRIV_M

instance (p : BitVec 32) : Decidable (ArchPriv p) := inferInstanceAs (Decidable (_ ∨ _ ∨ _))

theorem archPriv_lt {p : BitVec 32} (h : ArchPriv p) : p.toNat < 4 := by
  rcases h with rfl | rfl | rfl <;> decide

theorem archPriv_mppOf {s : BitVec 64} (h : mppOf s ≠ 2) : ArchPriv (mppOf s) := by
  rw [mppOf_eq] at *
  revert h
  generalize s.extractLsb' 11 2 = x
  revert x
  decide

/-! ## Acts and the privilege -/

namespace CPU

variable (c : CPU)

@[simp] theorem mmuTranslate_priv (b : Bus) (va : BitVec 64) (acc : AccessType) :
    (mmuTranslate c b va acc).cpu.priv = c.priv := by
  obtain ⟨t, ht⟩ := mmuTranslate_cpu c b va acc
  rw [ht]

theorem sppOf_cases (s : BitVec 64) : sppOf s = PRIV_U ∨ sppOf s = PRIV_S := by
  unfold sppOf
  split
  · exact Or.inr rfl
  · exact Or.inl rfl

theorem enterTrap_priv (cause tval : BitVec 64) (toS : Bool) :
    (c.enterTrap cause tval toS).priv = if toS then PRIV_S else PRIV_M := by
  cases toS <;> rfl

@[simp] theorem hsmEnter_priv (pc a : BitVec 64) : (Machine.hsmEnter c pc a).priv = PRIV_S := by
  simp [Machine.hsmEnter]

end CPU

/-- An act changes the privilege by an MRET, or to U or S. -/
theorem HartAct.priv_cases {ok : Guard} {c c' : CPU} (h : HartAct ok c c') :
    c'.priv = c.priv ∨ (ok.mret (c.csr CSR_MSTATUS) ∧ c'.priv = mppOf (c.csr CSR_MSTATUS)) ∨
      c'.priv = PRIV_U ∨ c'.priv = PRIV_S := by
  cases h with
  | mret _ hok => exact Or.inr (Or.inl ⟨hok, rfl⟩)
  | sret _ => exact Or.inr (Or.inr (CPU.sppOf_cases _))
  | resume pc a _ _ => exact Or.inr (Or.inr (Or.inr (CPU.hsmEnter_priv c pc a)))
  | regWrite i v => exact Or.inl (c.regWrite_priv i v)
  | csrWrite a v _ => exact Or.inl (c.csrWrite_priv a v)
  | translate b va acc _ => exact Or.inl (c.mmuTranslate_priv b va acc)
  | _ => exact Or.inl rfl

theorem archPriv_act {ok : Guard} (hok : ∀ s, ok.mret s → mppOf s ≠ 2) {c c' : CPU}
    (h : HartAct ok c c') (hc : ArchPriv c.priv) : ArchPriv c'.priv := by
  rcases h.priv_cases with hp | ⟨ho, hp⟩ | hp | hp <;> rw [hp]
  · exact hc
  · exact archPriv_mppOf (hok _ ho)
  · exact Or.inl rfl
  · exact Or.inr (Or.inl rfl)

/-- No MRET pops the reserved level. -/
def unreservedMret : Guard := { Guard.free with mret := fun s => mppOf s ≠ 2 }

/-- The privilege is architectural, as a hart invariant under the MRET condition. -/
theorem archPriv_inv : HartInv unreservedMret (fun c => ArchPriv c.priv) (fun c => ArchPriv c.priv) where
  begin _ _ h := h
  act _ _ ha h := archPriv_act (fun _ hs => hs) ha h
  enter c cause tval toS _ _ := by
    rw [c.enterTrap_priv]
    cases toS
    · exact Or.inr (Or.inr rfl)
    · exact Or.inr (Or.inl rfl)
  rest _ h := h
  unreserve _ h := h
  start c pc a _ _ _ := by rw [c.hsmEnter_priv]; exact Or.inr (Or.inl rfl)
  startSelf c pc a _ _ _ := by rw [c.hsmEnter_priv]; exact Or.inr (Or.inl rfl)

/-- A step does not execute an MRET in M whose MPP is the reserved level. -/
def NoReservedMret (dc : Option DecodeCache) (m : Machine) : Prop :=
  ∀ inst ilen, m.fetched dc = some (inst, ilen) → isMret inst = true → ¬m.cpu.priv.ult PRIV_M →
    mppOf (m.cpu.csr CSR_MSTATUS) ≠ 2

theorem NoReservedMret.admits {dc : Option DecodeCache} {m : Machine} (h : NoReservedMret dc m) (inst ilen : BitVec 32)
    (hf : m.fetched dc = some (inst, ilen)) : unreservedMret.Admits m inst :=
  ⟨h inst ilen hf, fun _ => trivial, fun _ _ => trivial, fun _ => trivial⟩

theorem reachable_archPriv {m : Machine} (h : Reachable NoReservedMret m) (i : Nat) :
    ArchPriv (m.harts i).priv := by
  refine h.harts archPriv_inv (fun _ _ => trivial) (fun _ _ _ _ => trivial) (fun _ _ hp => hp.admits)
    (CPU.boot_induction (J := fun c => ArchPriv c.priv) ?_ ?_) i
  · intro tlb pc xlen i
    exact Or.inr (Or.inr rfl)
  · intro c i v hc
    rw [c.regWrite_priv]
    exact hc

/-! ## What a trap records -/

/-- No act sets the trap flag: only a trap entry does. -/
theorem untrapped_inv (ok : Guard) : ActInv ok (fun _ => True) (fun c => c.trapped = false) where
  act c c' ha hc := by
    cases ha with
    | regWrite i v => rw [c.regWrite_trapped]; exact hc
    | csrWrite a v _ => rw [c.csrWrite_trapped]; exact hc
    | translate b va acc _ =>
      obtain ⟨t, ht⟩ := mmuTranslate_cpu c b va acc
      rw [ht]
      exact hc
    | resume pc a _ _ => simpa [Machine.hsmEnter] using hc
    | untrap => rfl
    | _ => exact hc
  unreserve _ h := h
  start _ _ _ _ _ h := h
  startSelf c pc a _ _ h := by simpa [Machine.hsmEnter] using h

/-- A trapped step ends with the trap entry. -/
theorem Machine.step_trapped {dc : Option DecodeCache} {m : Machine} (ok : Guard) (hlax : ok.Lax)
    (hsee : ∀ c b va acc, ok.sees c b va acc) (hok : ∀ inst ilen, m.fetched dc = some (inst, ilen) → ok.Admits m inst)
    (ht : (m.step dc).2.cpu.trapped = true) :
    ∃ m1, Acts ok m.beginStep m1 ∧ Enter m1 (m.step dc).2 := by
  obtain ⟨m1, hacts, hend⟩ := stepOut_step hlax dc m (fun _ _ _ _ => hsee _ _ _ _) hok
  have hu : m1.cpu.trapped = false :=
    ((untrapped_inv ok).acts hacts ⟨by rw [beginStep, cpu_setCpu], fun _ _ => trivial⟩).self
  rcases hend with hend | hend
  · rw [hend, hu] at ht
    cases ht
  · exact ⟨m1, hacts, hend⟩

theorem archPriv_ecall {p : BitVec 32} (h : ArchPriv p) : CAUSE_ECALL_U + p ≠ 10 := by
  rcases h with rfl | rfl | rfl <;> decide

/-- The level and cause a trap entry records. -/
theorem enter_records {m m' : Machine} (h : Enter m m') (hp : ArchPriv m.cpu.priv) :
    (m'.cpu.priv = PRIV_M → ArchPriv (mppOf (m'.cpu.csr CSR_MSTATUS)) ∧ m'.cpu.csr CSR_MCAUSE ≠ 10) ∧
    (m'.cpu.priv = PRIV_S → m'.cpu.csr CSR_SCAUSE ≠ 10) := by
  cases h with
  | mk cause tval toS _ hc =>
    rw [Machine.cpu_setCpu]
    have hcause : cause ≠ 10 := by
      intro h10
      rw [hc h10] at hp
      exact absurd hp (by decide)
    cases toS with
    | false =>
      refine ⟨fun _ => ⟨?_, ?_⟩, fun h => absurd h (by rw [CPU.enterTrap_priv]; decide)⟩
      · rw [CPU.enterTrap_csr_M, if_pos rfl, mppOf_pushM _ (archPriv_lt hp)]
        exact hp
      · exact hcause
    | true =>
      refine ⟨fun h => absurd h (by rw [CPU.enterTrap_priv]; decide), fun _ => ?_⟩
      exact hcause

/-- In every state of a run in which no MRET pops the reserved level, every hart is at U, S or M
and its ECALL has one of the three ECALL causes; and whatever such a hart's next step traps on,
the cause recorded is not 10 and the MPP pushed by a trap into M is one of the three levels. -/
theorem privilege_architectural {m : Machine} (h : Reachable NoReservedMret m) (i : Nat) :
    ArchPriv (m.harts i).priv ∧ CAUSE_ECALL_U + (m.harts i).priv ≠ 10 ∧
    ∀ dc, NoReservedMret dc (m.onHart i) →
      let c := ((m.onHart i).step dc).2.cpu
      c.trapped = true →
        (c.priv = PRIV_M → ArchPriv (mppOf (c.csr CSR_MSTATUS)) ∧ c.csr CSR_MCAUSE ≠ 10) ∧
        (c.priv = PRIV_S → c.csr CSR_SCAUSE ≠ 10) := by
  have hpriv := reachable_archPriv h
  refine ⟨hpriv i, archPriv_ecall (hpriv i), ?_⟩
  intro dc hdc c ht
  obtain ⟨m1, hacts, henter⟩ := Machine.step_trapped unreservedMret (fun _ _ => trivial) (fun _ _ _ _ => trivial) hdc.admits ht
  have hrun := (m.onHart i).acts_beginStep.trans hacts
  exact enter_records henter (archPriv_inv.acts hrun ⟨hpriv i, fun j _ => hpriv j⟩).self

/-- Sets mepc and mtvec, writes the reserved value to MPP, returns to it and calls the environment. -/
def reservedMretProgram : List (BitVec 32) :=
  [0x00000097, 0x01c08093, 0x34109073, 0x30509073, 0x00001137, 0x30011073, 0x30200073, 0x00000073]

def reservedMretMachine : Machine :=
  .load .rv64 1 0x80000000 0x1000 0x80000000 reservedMretProgram

/-- The same program, but returning to U. -/
def userMretMachine : Machine :=
  .load .rv64 1 0x80000000 0x1000 0x80000000 (reservedMretProgram.set 4 0x00000137)

theorem userMretMachine_reachable : Reachable NoReservedMret (Machine.cpuStep^[7] userMretMachine) := by
  have hmpp : ∀ k < 7, mppOf ((Machine.cpuStep^[k] userMretMachine).cpu.csr CSR_MSTATUS) ≠ 2 := by decide +kernel
  exact (Machine.load_reachable ..).iterate 7 (by decide +kernel) fun k hk _ _ _ _ _ => hmpp k hk

/-- After its MRET the program runs in U, and its ECALL traps into M. -/
theorem privilege_architectural_user :
    let m := Machine.cpuStep^[7] userMretMachine
    let c := ((m.onHart 0).step none).2.cpu
    (m.harts 0).priv = PRIV_U ∧ ArchPriv (m.harts 0).priv ∧ c.trapped = true ∧ c.priv = PRIV_M ∧
    ArchPriv (mppOf (c.csr CSR_MSTATUS)) ∧ c.csr CSR_MCAUSE ≠ 10 := by
  obtain ⟨hpriv, _, hstep⟩ := privilege_architectural userMretMachine_reachable 0
  have hmpp : mppOf (((Machine.cpuStep^[7] userMretMachine).onHart 0).cpu.csr CSR_MSTATUS) ≠ 2 := by decide +kernel
  have htrap : (((Machine.cpuStep^[7] userMretMachine).onHart 0).step none).2.cpu.trapped = true := by decide +kernel
  have hm : (((Machine.cpuStep^[7] userMretMachine).onHart 0).step none).2.cpu.priv = PRIV_M := by decide +kernel
  exact ⟨by decide +kernel, hpriv, htrap, hm, (hstep none (fun _ _ _ _ _ => hmpp) htrap).1 hm⟩

/-- After its MRET the program runs at level 2; its ECALL is then recorded with cause 10 and MPP 2. -/
theorem reserved_level_reached :
    Reachable (fun _ _ => True) (Machine.cpuStep^[7] reservedMretMachine) ∧
    ¬ArchPriv (Machine.cpuStep^[7] reservedMretMachine).cpu.priv ∧
    (Machine.cpuStep^[8] reservedMretMachine).cpu.trapped = true ∧
    (Machine.cpuStep^[8] reservedMretMachine).cpu.priv = PRIV_M ∧
    (Machine.cpuStep^[8] reservedMretMachine).cpu.csr CSR_MCAUSE = 10 ∧
    mppOf ((Machine.cpuStep^[8] reservedMretMachine).cpu.csr CSR_MSTATUS) = 2 := by
  refine ⟨(Machine.load_reachable ..).iterate 7 ?_ fun _ _ => trivial, ?_⟩
  · decide +kernel
  · decide +kernel

/-! ## Trap and return -/

/-- `r` resumes `c`: its pc, its level and every bit of `mstatus` but those in `lost`. -/
def Resumes (c : CPU) (lost : List Nat) (r : Machine × BitVec 64) : Prop :=
  r.2 = c.pc ∧ r.1.cpu.priv = c.priv ∧
    ∀ i < 64, i ∉ lost → (r.1.cpu.csr CSR_MSTATUS).getLsbD i = (c.csr CSR_MSTATUS).getLsbD i

theorem sppOf_pushS (s : BitVec 64) {p : BitVec 32} (hp : p = PRIV_U ∨ p = PRIV_S) :
    CPU.sppOf (CPU.pushS s p) = p := by
  have hspp : (CPU.pushS s p).getLsbD 8 = decide (p ≠ 0) := CPU.getLsbD_pushS s p (by decide)
  have hbit := Bits.and_mask_ne_zero (CPU.pushS s p) (by decide : 8 < 64)
  rw [hspp, decide_eq_true_iff] at hbit
  rcases hp with rfl | rfl
  · exact if_neg fun h => hbit.mp h rfl
  · exact if_pos (hbit.mpr (by decide))

/-- Whatever the handler did, if it puts back xepc and `mstatus` as the trap left them, its return
resumes the interrupted hart, MIE or SIE included; only the stack's own bits and MPRV are lost. -/
theorem trap_return_resumes (c : CPU) (cause tval : BitVec 64) (m : Machine) :
    (c.priv.toNat < 4 → m.cpu.priv = PRIV_M →
      m.cpu.csr CSR_MEPC = (c.enterTrap cause tval false).csr CSR_MEPC →
      m.cpu.csr CSR_MSTATUS = (c.enterTrap cause tval false).csr CSR_MSTATUS →
      Resumes c [7, 11, 12, 17] m.execMret) ∧
    (c.priv = PRIV_U ∨ c.priv = PRIV_S → m.cpu.priv = PRIV_S →
      m.cpu.csr CSR_SEPC = (c.enterTrap cause tval true).csr CSR_SEPC →
      m.cpu.csr CSR_MSTATUS = (c.enterTrap cause tval true).csr CSR_MSTATUS →
      Resumes c [5, 8, 17] m.execSret) := by
  constructor
  · intro hp hm hepc hs
    rw [CPU.enterTrap_csr_M] at hepc hs
    unfold Machine.execMret Resumes
    rw [if_neg (by rw [hm]; decide), hepc, hs, if_pos rfl]
    dsimp only
    rw [Machine.cpu_setCpu]
    refine ⟨rfl, mppOf_pushM _ hp, ?_⟩
    intro i hi hlost
    change (CPU.popM _).getLsbD i = _
    rw [CPU.getLsbD_popM _ hi, CPU.getLsbD_pushM _ hp hi, CPU.getLsbD_pushM _ hp (by decide)]
    grind
  · intro hp hm hepc hs
    rw [CPU.enterTrap_csr_S] at hepc hs
    unfold Machine.execSret Resumes
    rw [if_neg (by rw [hm]; decide), hepc, hs, if_pos rfl]
    dsimp only
    rw [Machine.cpu_setCpu]
    refine ⟨rfl, sppOf_pushS _ hp, ?_⟩
    intro i hi hlost
    change (CPU.popS _).getLsbD i = _
    rw [CPU.getLsbD_popS _ hi, CPU.getLsbD_pushS _ _ hi, CPU.getLsbD_pushS _ _ (by decide)]
    grind

def userHart : CPU := { reservedMretMachine.cpu with priv := PRIV_U }

theorem trap_return_resumes_user :
    Resumes userHart [7, 11, 12, 17] (reservedMretMachine.setCpu (userHart.enterTrap 8 0 false)).execMret ∧
    Resumes userHart [5, 8, 17] (reservedMretMachine.setCpu (userHart.enterTrap 8 0 true)).execSret :=
  ⟨(trap_return_resumes _ 8 0 _).1 (by decide) rfl rfl rfl,
    (trap_return_resumes _ 8 0 _).2 (Or.inl rfl) rfl rfl rfl⟩

end Quanta
