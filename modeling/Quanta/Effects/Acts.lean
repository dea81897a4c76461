/-
What one step of a hart can do, said once. `HartAct` lists the updates a step makes to its own
hart, each with the privilege guard the code checks first; `Act` adds the bus, the cache model,
the error stream and the two updates of sibling harts. Every executor is a run of acts, possibly
ended by a trap entry (`Enter`), and so is `cpu_step`; the invariants are checked act by act.
-/
import Quanta.Hart.Step
import Quanta.Lib.Run

namespace Quanta

open Relation Run

/-- The privilege field of a CSR address, bits [9:8]. -/
def csrPriv (addr : BitVec 12) : BitVec 32 := (addr.extractLsb' 8 2).setWidth 32

/-- Is `inst` an MRET? -/
def isMret (inst : BitVec 32) : Bool :=
  opcode inst = .system && funct3 inst = 0x0#3 && csrField inst = 0x302#12

/-- Is `inst` an ECALL? -/
def isEcall (inst : BitVec 32) : Bool :=
  opcode inst = .system && funct3 inst = 0x0#3 && funct7 inst ≠ 0x09#7 && csrField inst = 0x000#12

/-- Does `inst` write an f register or accrue FP flags? -/
def writesFp (inst : BitVec 32) : Bool :=
  match opcode inst with
  | .loadFp | .fp | .madd | .msub | .nmsub | .nmadd => true
  | _ => false

/-- Is `inst` an LR? -/
def isLr (inst : BitVec 32) : Bool := opcode inst = .amo && funct5 inst = 0x02#5

/-- What is known of a step's instruction: of `mstatus` at an MRET, whether an LR is possible,
whether a call of the HSM extension is, whether a write of the FP state is, what the writes of CSRs,
of the timer latch and of the live bits of `mip` do, and which translations are made, from which hart
and bus. -/
structure Guard where
  mret : BitVec 64 → Prop
  lr : Prop
  hsm : Prop
  fp : Prop
  edit : CPU → CPU → Prop
  sees : CPU → Bus → BitVec 64 → AccessType → Prop

/-- Nothing is known. -/
def Guard.free : Guard := ⟨fun _ => True, True, True, True, fun _ _ => True, fun _ _ _ _ => True⟩

/-- Any CSR write may be made. -/
def Guard.Lax (ok : Guard) : Prop := ∀ c c', ok.edit c c'

theorem Guard.free_lax : Guard.free.Lax := fun _ _ => trivial

/-- The prologue may write `mip` and the timer latch. -/
def Guard.Ticks (ok : Guard) : Prop :=
  ∀ (c : CPU) v armed, ok.edit c { c.setCsr CSR_MIP v with sbiTimerArmed := armed }

theorem Guard.Lax.ticks {ok : Guard} (h : ok.Lax) : ok.Ticks := fun _ _ _ => h _ _

/-- An update a step makes to its own hart, other than entering a trap. -/
inductive HartAct (ok : Guard) : CPU → CPU → Prop
  | regWrite (c : CPU) (i : BitVec 5) (v : BitVec 64) : HartAct ok c (c.regWrite i v)
  | fwrite (c : CPU) (i : BitVec 5) (v : BitVec 64) (h : ok.fp) : HartAct ok c (c.fwriteD i v)
  | faccrue (c : CPU) (fl : BitVec 32) (h : ok.fp) : HartAct ok c (c.faccrue fl)
  | csrWrite (c : CPU) (addr : BitVec 12) (v : BitVec 64) (h : ¬c.priv.ult (csrPriv addr))
      (hok : ok.edit c (c.csrWrite addr v)) : HartAct ok c (c.csrWrite addr v)
  | translate (c : CPU) (b : Bus) (va : BitVec 64) (acc : AccessType) (h : ok.sees c b va acc) :
      HartAct ok c (mmuTranslate c b va acc).cpu
  | flush (c : CPU) : HartAct ok c c.mmuFlush
  | reserve (c : CPU) (a : BitVec 64) (h : ok.lr) : HartAct ok c { c with reserveValid := true, reserveAddr := a }
  | unreserve (c : CPU) : HartAct ok c { c with reserveValid := false }
  | mret (c : CPU) (h : ¬c.priv.ult PRIV_M) (hok : ok.mret (c.csr CSR_MSTATUS)) :
      HartAct ok c { c.setCsr CSR_MSTATUS (CPU.popM (c.csr CSR_MSTATUS)) with
        priv := mppOf (c.csr CSR_MSTATUS) }
  | sret (c : CPU) (h : ¬c.priv.ult PRIV_S) :
      HartAct ok c { c.setCsr CSR_MSTATUS (CPU.popS (c.csr CSR_MSTATUS)) with
        priv := CPU.sppOf (c.csr CSR_MSTATUS) }
  | halt (c : CPU) (r : HaltReason) (e : BitVec 32) : HartAct ok c { c.halt r with exitCode := e }
  | stop (c : CPU) (h : c.priv = PRIV_S) (hs : ok.hsm) : HartAct ok c { c.halt .exit with hsmState := .stopped }
  | resume (c : CPU) (pc a : BitVec 64) (h : c.priv = PRIV_S) (hs : ok.hsm) :
      HartAct ok c (Machine.hsmEnter c pc a)
  | timer (c : CPU) (v : BitVec 64) (armed : Bool)
      (h : v = c.csr CSR_MIP ||| 0x20 ∨ v = c.csr CSR_MIP &&& 0xffffffdf)
      (hok : ok.edit c { c.setCsr CSR_MIP v with sbiTimerArmed := armed }) :
      HartAct ok c { c.setCsr CSR_MIP v with sbiTimerArmed := armed }
  | refreshMip (c : CPU) (b : Bus) (h : b.mem.plat = true)
      (hok : ok.edit c (c.setCsr CSR_MIP ((c.liveMip b).setWidth 64))) :
      HartAct ok c (c.setCsr CSR_MIP ((c.liveMip b).setWidth 64))
  | untrap (c : CPU) : HartAct ok c { c with trapped := false }
  | retire (c : CPU) (next : BitVec 64) (h : next.getLsbD 0 = false) :
      HartAct ok c { c with instret := c.instret + 1, pc := sextXlen c.xlen next }

/-- The instruction is an ECALL from S that no handler takes: a call of the firmware. -/
def Machine.CallsFirmware (m : Machine) (inst : BitVec 32) : Prop :=
  isEcall inst = true ∧ m.cpu.priv = PRIV_S ∧ m.cpu.handlerInstalled CAUSE_ECALL_S = false

/-- The guard admits `inst` in this state. -/
structure Guard.Admits (ok : Guard) (m : Machine) (inst : BitVec 32) : Prop where
  mret : isMret inst = true → ¬m.cpu.priv.ult PRIV_M → ok.mret (m.cpu.csr CSR_MSTATUS)
  lr : isLr inst = true → ok.lr
  hsm : m.CallsFirmware inst → lo32 (m.regRead Machine.REG_A7) = Machine.EXT_HSM → ok.hsm
  fp : writesFp inst = true → ok.fp

/-- The call is a set_timer, of the TIME extension or the legacy one. -/
def Machine.IsSetTimer (m : Machine) : Prop :=
  lo32 (m.regRead Machine.REG_A7) = Machine.EXT_SET_TIMER ∨
  lo32 (m.regRead Machine.REG_A7) = Machine.EXT_TIME ∧ lo32 (m.regRead Machine.REG_A6) = 0

instance (m : Machine) : Decidable m.IsSetTimer := inferInstanceAs (Decidable (_ ∨ _))

/-- The hart after the write of a CSR instruction. -/
def Machine.csrWritten (m : Machine) (inst : BitVec 32) : CPU :=
  m.cpu.csrWrite (csrField inst) (Machine.csrNew inst (if Machine.csrReads inst then m.cpu.csrRead m.bus (csrField inst) else 0)
    (Machine.csrSrc m.cpu inst))

/-- The guard admits the CSR write of `inst` and the timer call it makes. -/
structure Guard.Edits (ok : Guard) (m : Machine) (inst : BitVec 32) : Prop where
  csr : opcode inst = .system → funct3 inst ≠ 0x0#3 → Machine.csrDenied m.cpu inst = false →
    Machine.csrWrites inst = true → ok.edit m.cpu (m.csrWritten inst)
  timer : m.CallsFirmware inst → m.IsSetTimer → ok.edit m.cpu m.cpu.armTimer

theorem Guard.Lax.edits {ok : Guard} (h : ok.Lax) (m : Machine) (inst : BitVec 32) : ok.Edits m inst :=
  ⟨fun _ _ _ _ => h _ _, fun _ _ => h _ _⟩

theorem Guard.free_admits (m : Machine) (inst : BitVec 32) : Guard.free.Admits m inst :=
  ⟨fun _ _ => trivial, fun _ => trivial, fun _ _ => trivial, fun _ => trivial⟩

/-- An update a step makes to the machine, other than entering a trap. -/
inductive Act (ok : Guard) : Machine → Machine → Prop
  | hart (m : Machine) (c : CPU) (h : HartAct ok m.cpu c) : Act ok m (m.setCpu c)
  | bus (m : Machine) (b : Bus) (h : m.bus.Shape b) : Act ok m (m.setBus b)
  | cache (m : Machine) (k : Option Cache) : Act ok m { m with cache := k }
  | report (m : Machine) (d : Diag) : Act ok m (m.diag d)
  | breakReservation (m : Machine) (addr : BitVec 64) : Act ok m (m.breakReservation addr)
  | start (m : Machine) (t : Nat) (pc a : BitVec 64) (hp : m.cpu.priv = PRIV_S) (hhsm : ok.hsm)
      (hs : (m.harts t).hsmState = .stopped) : Act ok m (m.setHart t (Machine.hsmEnter (m.harts t) pc a))

/-- A trap entry; one into S only ever comes from S or U, and only an ECALL at the privilege the
architecture reserves has cause 10. -/
inductive Enter : Machine → Machine → Prop
  | mk (m : Machine) (cause tval : BitVec 64) (toS : Bool)
      (h : toS = true → m.cpu.priv.ule PRIV_S = true) (hc : cause = 10 → m.cpu.priv = 2) :
      Enter m (m.setCpu (m.cpu.enterTrap cause tval toS))

/-- A run of acts. -/
abbrev Acts (ok : Guard) : Machine → Machine → Prop := ReflTransGen (Act ok)

/-- Acts, then possibly a trap entry: what a whole step is. -/
abbrev StepOut (ok : Guard) : Machine → Machine → Prop := ThenMaybe (Act ok) Enter

/-- A trap entry with no access fault outstanding. -/
def EnterClean (m m' : Machine) : Prop := m.bus.mem.fault = false ∧ Enter m m'

/-- Acts, then possibly a clean trap entry: what an executor is. The commit tail looks at the
fault flag first, so a trap taken with the flag set would be followed by a second one. -/
abbrev Out (ok : Guard) : Machine → Machine → Prop := ThenMaybe (Act ok) EnterClean

/-! ## Accesses keep the bus's shape -/

theorem amoRead_shape (b : Bus) (wide : Bool) (addr : BitVec 64) : b.Shape (Machine.amoRead b wide addr).2 := by
  cases wide <;> exact memRead_shape ..

theorem amoWrite_shape (b : Bus) (wide : Bool) (addr v : BitVec 64) : b.Shape (Machine.amoWrite b wide addr v) := by
  cases wide <;> exact memWrite_shape ..

theorem loadValue_shape (xlen : Xlen) (f3 : BitVec 3) (b : Bus) (pa : BitVec 64) :
    b.Shape (Machine.loadValue xlen f3 b pa).2 := by
  unfold Machine.loadValue
  split <;> first | exact memRead_shape .. | exact .refl b | (split <;> first | exact memRead_shape .. | exact .refl b)

theorem storeValue_shape (xlen : Xlen) (f3 : BitVec 3) (b : Bus) (pa val : BitVec 64) :
    b.Shape (Machine.storeValue xlen f3 b pa val) := by
  unfold Machine.storeValue
  split <;> first | exact memWrite_shape .. | exact .refl b | (split <;> first | exact memWrite_shape .. | exact .refl b)

namespace Machine

variable {cause : BitVec 32} {va : BitVec 64} {inst : BitVec 32} {m' : Machine}
variable {ok : Guard} (m : Machine) {acc : AccessType} {r : Except (BitVec 32) (BitVec 64)}

theorem acts_hart {c : CPU} (h : HartAct ok m.cpu c) : Acts ok m (m.setCpu c) := ReflTransGen.single (.hart m c h)

theorem acts_hart_hart {c c' : CPU} (h : HartAct ok m.cpu c) (h' : HartAct ok c c') :
    Acts ok m (m.setCpu c') := by
  have h2 : HartAct ok (m.setCpu c).cpu c' := by rw [cpu_setCpu]; exact h'
  have h3 := (m.acts_hart h).trans (acts_hart _ h2)
  rw [setCpu_setCpu] at h3
  exact h3

theorem acts_bus {b : Bus} (h : m.bus.Shape b) : Acts ok m (m.setBus b) := ReflTransGen.single (.bus m b h)

theorem acts_diag (d : Diag) : Acts ok m (m.diag d) := ReflTransGen.single (.report m d)

theorem acts_cacheAccess (pa : BitVec 64) (w : Bool) : Acts ok m (m.cacheAccess pa w) :=
  ReflTransGen.single (.cache m _)

theorem acts_regWrite (i : BitVec 5) (v : BitVec 64) : Acts ok m (m.regWrite i v) :=
  m.acts_hart (.regWrite ..)

theorem acts_halt (r : HaltReason) : Acts ok m (m.setCpu (m.cpu.halt r)) :=
  m.acts_hart (.halt m.cpu r m.cpu.exitCode)

/-! ## The execution environment -/

theorem acts_sysWriteByte (fd buf : BitVec 32) (i : Nat) : Acts ok m (m.sysWriteByte fd buf i) := by
  unfold sysWriteByte
  refine (m.acts_bus (memRead_shape m.bus ((buf + BitVec.ofNat 32 i).setWidth 64) 1)).trans ?_
  dsimp only
  split
  · exact acts_diag _ _
  · exact acts_bus _ ⟨rfl, rfl, rfl, .refl _⟩

theorem acts_foldl {β : Type*} (f : Machine → β → Machine) (hf : ∀ m x, Acts ok m (f m x)) :
    ∀ (l : List β) (m : Machine), Acts ok m (l.foldl f m)
  | [], _ => ReflTransGen.refl
  | x :: l, m => (hf m x).trans (acts_foldl f hf l (f m x))

theorem acts_syscallDispatch : Acts ok m m.syscallDispatch := by
  unfold syscallDispatch
  dsimp only
  split
  · unfold sysWrite
    dsimp only
    split
    · exact (m.acts_diag _).trans (acts_regWrite _ _ _)
    · exact (acts_foldl _ (fun m i => m.acts_sysWriteByte _ _ i) _ m).trans (acts_regWrite _ _ _)
  · split
    · exact m.acts_hart (.halt ..)
    · exact (m.acts_diag _).trans (acts_halt _ _)

theorem acts_sbiReturn (e v : BitVec 32) : Acts ok m (m.sbiReturn e v) :=
  (m.acts_regWrite _ _).trans (acts_regWrite _ _ _)

theorem acts_sbiSetTimer (hed : ok.edit m.cpu m.cpu.armTimer) (lo hi : BitVec 32) :
    Acts ok m (m.sbiSetTimer lo hi) := by
  unfold sbiSetTimer armSupervisorTimer
  dsimp only
  split
  · refine (m.acts_bus ?_).trans (acts_hart _ (.timer _ _ true (Or.inr rfl) hed))
    exact ⟨rfl, rfl, rfl, ⟨rfl, rfl, rfl, rfl, rfl, .refl _⟩⟩
  · exact m.acts_hart (.timer _ _ true (Or.inr rfl) hed)

theorem acts_sbiBase (fid a0 : BitVec 32) : Acts ok m (m.sbiBase fid a0) := by
  unfold sbiBase
  split <;> exact m.acts_sbiReturn _ _

theorem acts_hartStart (hp : m.cpu.priv = PRIV_S) (hs : ok.hsm) : Acts ok m m.hartStart := by
  unfold hartStart
  dsimp only
  split
  · exact m.acts_sbiReturn _ _
  · split
    · exact m.acts_sbiReturn _ _
    · exact (ReflTransGen.single (.start m _ _ _ hp hs ‹_›)).trans (acts_sbiReturn _ _ _)
    · exact m.acts_sbiReturn _ _

theorem acts_sbiHsm (hp : m.cpu.priv = PRIV_S) (hs : ok.hsm) (fid : BitVec 32) :
    Acts ok m (m.sbiHsm fid) := by
  unfold sbiHsm
  split
  · exact m.acts_hartStart hp hs
  · exact m.acts_hart (.stop _ hp hs)
  · unfold hartGetStatus
    split <;> exact m.acts_sbiReturn _ _
  · unfold hartSuspend
    dsimp only
    split
    · exact m.acts_sbiReturn _ _
    · split
      · exact m.acts_hart (.resume _ _ _ hp hs)
      · exact m.acts_sbiReturn _ _
  · exact m.acts_sbiReturn _ _

theorem acts_sbiCall (hp : m.cpu.priv = PRIV_S) (hs : lo32 (m.regRead REG_A7) = EXT_HSM → ok.hsm)
    (hed : m.IsSetTimer → ok.edit m.cpu m.cpu.armTimer) : Acts ok m m.sbiCall := by
  unfold sbiCall
  dsimp only
  split
  · refine (m.acts_bus ?_).trans (acts_regWrite _ _ _)
    exact ⟨rfl, rfl, rfl, .refl _⟩
  split
  · exact m.acts_regWrite _ _
  split
  · exact (m.acts_sbiSetTimer (hed (Or.inl ‹_›)) _ _).trans (acts_regWrite _ _ _)
  split
  · exact m.acts_hart (.halt _ .exit 0)
  split
  · exact m.acts_sbiBase _ _
  split
  · unfold sbiTime
    split
    · exact (m.acts_sbiSetTimer (hed (Or.inr ⟨‹_›, ‹_›⟩)) _ _).trans (acts_sbiReturn _ _ _)
    · exact m.acts_sbiReturn _ _
  split
  · unfold sbiSrst
    split
    · split
      · exact m.acts_hart (.halt _ .exit 0)
      · exact m.acts_sbiReturn _ _
    · exact m.acts_sbiReturn _ _
  split
  · exact m.acts_sbiHsm hp (hs ‹_›) _
  · exact m.acts_sbiReturn _ _

/-- What a raised cause says of the machine it is raised in. -/
structure RaisedAt (ok : Guard) (cause : BitVec 32) (m : Machine) : Prop where
  supervisor : cause = CAUSE_ECALL_S → m.cpu.handlerInstalled CAUSE_ECALL_S = false →
    m.cpu.priv = PRIV_S ∧ (lo32 (m.regRead REG_A7) = EXT_HSM → ok.hsm) ∧
      (m.IsSetTimer → ok.edit m.cpu m.cpu.armTimer)
  reserved : cause = 10 → m.cpu.priv = 2

theorem raisedAt_const (m : Machine) (h9 : cause ≠ CAUSE_ECALL_S)
    (h10 : cause ≠ 10) : RaisedAt ok cause m :=
  ⟨fun h => absurd h h9, fun h => absurd h h10⟩

/-- The firmware is reached only by an ECALL from S. -/
theorem acts_legacyTrap (h : RaisedAt ok cause m) (hn : m.cpu.handlerInstalled cause = false) :
    Acts ok m (m.legacyTrap cause) := by
  unfold legacyTrap
  split
  · next hc =>
    obtain ⟨hp, hs, hed⟩ := h.supervisor hc (by rw [← hc]; exact hn)
    exact m.acts_sbiCall hp hs hed
  split
  · exact m.acts_syscallDispatch
  split
  · exact m.acts_halt _
  split
  · exact m.acts_halt _
  · exact (m.acts_diag _).trans (acts_halt _ _)

theorem enter_or_acts_raiseTrap (tval : BitVec 64) (h : RaisedAt ok cause m) :
    Enter m (m.raiseTrap cause tval) ∨ Acts ok m (m.raiseTrap cause tval) := by
  unfold raiseTrap
  split
  · refine Or.inl (.mk m _ _ _ (fun hs => ?_) fun hc => h.reserved ?_)
    · simp only [CPU.trapToS, Bool.and_eq_true] at hs
      exact hs.1
    · bv_omega
  · exact Or.inr (m.acts_legacyTrap h (Bool.eq_false_iff.mpr ‹_›))

theorem stepOut_raiseTrap (tval : BitVec 64)
    (h : RaisedAt ok cause m) : StepOut ok m (m.raiseTrap cause tval) := by
  rcases m.enter_or_acts_raiseTrap tval h with he | ha
  · exact .of_end he
  · exact .of_run ha

variable {m}

theorem out_raiseTrap (hf : m.bus.mem.fault = false) (tval : BitVec 64)
    (h : RaisedAt ok cause m) : Out ok m (m.raiseTrap cause tval) := by
  rcases m.enter_or_acts_raiseTrap tval h with he | ha
  · exact .of_end ⟨hf, he⟩
  · exact .of_run ha

theorem out_illegal (hf : m.bus.mem.fault = false) (inst : BitVec 32) : Out ok m (m.illegal inst) :=
  out_raiseTrap hf _ (raisedAt_const _ (by decide) (by decide))

variable (m)

/-! ## The executors -/

/-- The translation an instruction makes: its address and the kind of its access. -/
def translation (m : Machine) (inst : BitVec 32) : Option (BitVec 64 × AccessType) :=
  match opcode inst with
  | .load | .loadFp => some (m.loadVa inst, .load)
  | .store | .storeFp => some (m.storeVa inst, .store)
  | .amo =>
    if !amoExists m.xlen inst then none
    else if m.regRead (rs1 inst) &&& amoMask inst ≠ 0 then none
    else some (m.regRead (rs1 inst), amoAccess inst)
  | _ => none

/-- What an instruction does with its operand at physical address `pa`. -/
def accessAt (m : Machine) (inst : BitVec 32) (pa : BitVec 64) : Machine :=
  match opcode inst with
  | .load =>
    let m := m.cacheAccess pa false
    let r := loadValue m.xlen (funct3 inst) m.bus pa
    (m.setBus r.2).regWrite (rd inst) r.1
  | .loadFp =>
    let m := m.cacheAccess pa false
    match funct3 inst with
    | 0x2#3 => (m.setBus (memRead32 m.bus pa).2).setCpu (m.cpu.fwriteS (rd inst) (memRead32 m.bus pa).1)
    | 0x3#3 => (m.setBus (memRead64 m.bus pa).2).setCpu (m.cpu.fwriteD (rd inst) (memRead64 m.bus pa).1)
    | _ => m.illegal inst
  | .store =>
    let val := m.regRead (rs2 inst)
    let m := (m.breakReservation pa).cacheAccess pa true
    m.setBus (storeValue m.xlen (funct3 inst) m.bus pa val)
  | .storeFp =>
    let m := (m.breakReservation pa).cacheAccess pa true
    match funct3 inst with
    | 0x2#3 => m.setBus (memWrite32 m.bus pa (lo32 (m.cpu.fregs (rs2 inst))))
    | 0x3#3 => m.setBus (memWrite64 m.bus pa (m.cpu.fregs (rs2 inst)))
    | _ => m.illegal inst
  | .amo => (m.cacheAccess pa true).execAmoAt inst (amoWide inst) pa
  | _ => m

/-- The instruction goes on at the address its translation answered, or raises the fault. -/
def continueAt (m : Machine) (inst : BitVec 32) (va : BitVec 64) : Except (BitVec 32) (BitVec 64) → Machine
  | .error cause => m.raiseTrap cause va
  | .ok pa => m.accessAt inst pa

theorem regRead_translate {m m' : Machine}
    (h : m.translate va acc = (r, m')) (i : BitVec 5) : m'.regRead i = m.regRead i := by
  obtain ⟨t, ht⟩ := mmuTranslate_cpu m.cpu m.bus va acc
  have hm : m' = (m.translate va acc).2 := by rw [h]
  unfold regRead
  rw [hm, translate, cpu_setBus, cpu_setCpu, ht]
  rfl

/-- A memory instruction is its translation, then what it does with the answer. -/
theorem dispatch_translated {m m' : Machine}
    (h : m.translation inst = some (va, acc)) (ht : m.translate va acc = (r, m'))
    (ilen : BitVec 32) : m.dispatch inst ilen = (m'.continueAt inst va r, m.cpu.pc + ilen.setWidth 64) := by
  have hval := regRead_translate ht (rs2 inst)
  unfold translation at h
  unfold dispatch continueAt accessAt
  cases hop : opcode inst with
  | load =>
    rw [hop] at h
    cases h
    refine Prod.ext ?_ rfl
    show (m.execLoad inst).1 = _
    unfold execLoad
    dsimp only
    rw [ht]
    cases r <;> rfl
  | loadFp =>
    rw [hop] at h
    cases h
    refine Prod.ext ?_ rfl
    show m.execLoadFp inst = _
    unfold execLoadFp
    dsimp only
    rw [ht]
    cases r <;> rfl
  | store =>
    rw [hop] at h
    cases h
    refine Prod.ext ?_ rfl
    show (m.execStore inst).1 = _
    unfold execStore
    dsimp only
    rw [ht, ← hval]
    cases r <;> rfl
  | storeFp =>
    rw [hop] at h
    cases h
    refine Prod.ext ?_ rfl
    show m.execStoreFp inst = _
    unfold execStoreFp
    dsimp only
    rw [ht]
    cases r <;> rfl
  | amo =>
    rw [hop] at h
    dsimp only at h
    split at h
    · cases h
    split at h
    · cases h
    next hex hal =>
    cases h
    refine Prod.ext ?_ rfl
    show m.execAmo inst = _
    unfold execAmo
    dsimp only
    rw [if_neg hex, if_neg hal, ht]
    cases r with
    | error cause => rfl
    | ok pa => rfl
  | _ =>
    rw [hop] at h
    cases h

/-- The guard admits the translation of `inst`. -/
def SeesData (ok : Guard) (m : Machine) (inst : BitVec 32) : Prop :=
  ∀ va acc, m.translation inst = some (va, acc) → ok.sees m.cpu m.bus va acc

theorem acts_translate (hsee : ok.sees m.cpu m.bus va acc) :
    Acts ok m (m.translate va acc).2 :=
  (m.acts_hart (.translate m.cpu m.bus va acc hsee)).trans (acts_bus _ (mmuTranslate_shape m.cpu m.bus va acc))

variable {m}

theorem acts_translate_eq (hsee : ok.sees m.cpu m.bus va acc)
    (h : m.translate va acc = (r, m')) : Acts ok m m' := by
  have hm : m' = (m.translate va acc).2 := by rw [h]
  rw [hm]
  exact m.acts_translate hsee

theorem translate_frame (hf : m.bus.mem.fault = false) (h : m.translate va acc = (r, m')) :
    m.bus.Frame m'.bus := by
  have hm : m' = (m.translate va acc).2 := by rw [h]
  rw [hm]
  exact mmuTranslate_frame m.cpu hf va acc

theorem translate_fault (hf : m.bus.mem.fault = false) (h : m.translate va acc = (r, m')) :
    m'.bus.mem.fault = false :=
  (translate_frame hf h).fault.trans hf

/-- A page fault is no ECALL. -/
theorem pageFault_raisedAt
    (h : m.translate va acc = (.error cause, m')) (n : Machine) : RaisedAt ok cause n := by
  have hcause : cause = pfCause acc := mmuTranslate_error (congrArg Prod.fst h)
  subst hcause
  cases acc <;> exact raisedAt_const _ (by decide) (by decide)

/-- A page fault raised after a translation. -/
theorem out_pageFault (hf : m.bus.mem.fault = false) {va tval : BitVec 64} (hsee : ok.sees m.cpu m.bus va acc)
    (h : m.translate va acc = (.error cause, m')) :
    Out ok m (m'.raiseTrap cause tval) :=
  .after (acts_translate_eq hsee h)
    (out_raiseTrap (translate_fault hf h) tval (pageFault_raisedAt h _))

theorem out_writeOrIllegal (hf : m.bus.mem.fault = false) (inst : BitVec 32) (r : Option (BitVec 64)) :
    Out ok m (m.writeOrIllegal inst r) := by
  cases r with
  | none => exact out_illegal hf inst
  | some v => exact .of_run (m.acts_regWrite _ _)

theorem acts_breakReservation (m : Machine) (addr : BitVec 64) : Acts ok m (m.breakReservation addr) :=
  ReflTransGen.single (.breakReservation m addr)

variable (m)

theorem acts_execLr (hlr : ok.lr) (inst : BitVec 32) (wide : Bool) (addr : BitVec 64) :
    Acts ok m (m.execLr inst wide addr) := by
  unfold execLr
  dsimp only
  split
  · exact m.acts_bus (amoRead_shape ..)
  · exact (m.acts_bus (amoRead_shape ..)).trans ((acts_hart _ (.reserve _ _ hlr)).trans (acts_regWrite _ _ _))

theorem acts_scRelease (inst : BitVec 32) (fail : BitVec 64) : Acts ok m (m.scRelease inst fail) :=
  (m.acts_hart (.unreserve m.cpu)).trans (acts_regWrite _ _ _)

theorem acts_execSc (inst : BitVec 32) (wide : Bool) (addr : BitVec 64) : Acts ok m (m.execSc inst wide addr) := by
  unfold execSc
  dsimp only
  split
  · split
    · exact m.acts_bus (amoWrite_shape ..)
    · exact (m.acts_bus (amoWrite_shape ..)).trans ((acts_breakReservation _ _).trans (acts_scRelease _ _ _))
  · exact m.acts_scRelease inst 1

theorem out_execAmoOp (inst : BitVec 32) (wide : Bool) (addr : BitVec 64) :
    Out ok m (m.execAmoOp inst wide addr) := by
  unfold execAmoOp
  dsimp only
  split
  · exact .of_run (m.acts_bus (amoRead_shape ..))
  · next hf =>
    refine .after (m.acts_bus (amoRead_shape m.bus wide addr)) ?_
    split
    · exact out_illegal (Bool.eq_false_iff.mpr hf) _
    · split
      · exact .of_run (acts_bus _ (amoWrite_shape ..))
      · exact .of_run ((acts_bus _ (amoWrite_shape ..)).trans ((acts_breakReservation _ _).trans (acts_regWrite _ _ _)))

theorem out_execAmoAt (inst : BitVec 32) (hlr : funct5 inst = 0x02#5 → ok.lr) (wide : Bool) (addr : BitVec 64) :
    Out ok m (m.execAmoAt inst wide addr) := by
  unfold execAmoAt
  split
  · exact .of_run (m.acts_execLr (hlr ‹_›) _ _ _)
  split
  · exact .of_run (m.acts_execSc _ _ _)
  · exact m.out_execAmoOp _ _ _

variable {m}

theorem csrPriv_le_of_not_denied {c : CPU} (h : csrDenied c inst = false) :
    ¬c.priv.ult (csrPriv (csrField inst)) := by
  unfold csrDenied at h
  simp only [Bool.or_eq_false_iff] at h
  unfold csrPriv
  rw [h.1.1.1]
  decide

theorem out_execCsr (hf : m.bus.mem.fault = false) (inst : BitVec 32)
    (hed : csrDenied m.cpu inst = false → csrWrites inst = true → ok.edit m.cpu (m.csrWritten inst)) :
    Out ok m (m.execCsr inst) := by
  unfold execCsr
  dsimp only
  split
  · exact out_illegal hf inst
  · have hnd : csrDenied m.cpu inst = false := Bool.eq_false_iff.mpr ‹_›
    have hd := csrPriv_le_of_not_denied hnd
    refine .of_run ?_
    split
    · exact m.acts_hart_hart (.csrWrite _ _ _ hd (hed hnd ‹_›)) (.regWrite ..)
    · exact m.acts_hart (.regWrite ..)

theorem out_execMret (hf : m.bus.mem.fault = false) (hok : ¬m.cpu.priv.ult PRIV_M → ok.mret (m.cpu.csr CSR_MSTATUS)) :
    Out ok m m.execMret.1 := by
  unfold execMret
  dsimp only
  split
  · exact out_raiseTrap hf _ (raisedAt_const _ (by decide) (by decide))
  · exact .of_run (m.acts_hart (.mret _ ‹_› (hok ‹_›)))

theorem out_execSret (hf : m.bus.mem.fault = false) : Out ok m m.execSret.1 := by
  unfold execSret
  dsimp only
  split
  · exact out_raiseTrap hf _ (raisedAt_const _ (by decide) (by decide))
  · exact .of_run (m.acts_hart (.sret _ ‹_›))

/-- ECALL's cause tells the privilege it was executed at. -/
theorem ecall_raisedAt (he : isEcall inst = true) (hok : ok.Admits m inst) (hed : ok.Edits m inst) :
    RaisedAt ok (CAUSE_ECALL_U + m.cpu.priv) m := by
  unfold CAUSE_ECALL_U
  constructor
  · intro h hn
    have hp : m.cpu.priv = PRIV_S := by
      unfold CAUSE_ECALL_S at h
      unfold PRIV_S
      bv_omega
    exact ⟨hp, hok.hsm ⟨he, hp, hn⟩, hed.timer ⟨he, hp, hn⟩⟩
  · intro h
    bv_omega

theorem out_execSystem (hf : m.bus.mem.fault = false) (inst : BitVec 32)
    (hop : opcode inst = .system) (hok : ok.Admits m inst) (hed : ok.Edits m inst) :
    Out ok m (m.execSystem inst).1 := by
  unfold execSystem thenPc4
  split
  · split
    · split
      · exact out_illegal hf inst
      · exact .of_run (m.acts_hart (.flush m.cpu))
    · split
      · have he : isEcall inst = true := by
          simp only [isEcall, *, ne_eq, not_false_eq_true, decide_true, Bool.and_self]
        exact out_raiseTrap hf _ (ecall_raisedAt he hok hed)
      · exact out_raiseTrap hf _ (raisedAt_const _ (by decide) (by decide))
      · refine out_execMret hf (hok.mret ?_)
        simp only [isMret, *, decide_true, Bool.and_self]
      · exact out_execSret hf
      · exact .refl m
      · exact out_illegal hf inst
  · split
    · exact out_illegal hf inst
    · exact out_execCsr hf inst (hed.csr hop ‹_›)

/-! ## Floating point -/

theorem acts_fwrite (m : Machine) (hfp : ok.fp) (wide : Bool) (i : BitVec 5) (v : BitVec 64) (fl : BitVec 32) :
    Acts ok m (m.setCpu ((m.cpu.fwrite wide i v).faccrue fl)) := by
  have hw : ∃ v', m.cpu.fwrite wide i v = m.cpu.fwriteD i v' := by
    cases wide
    · exact ⟨_, rfl⟩
    · exact ⟨_, rfl⟩
  obtain ⟨v', hv⟩ := hw
  rw [hv]
  exact m.acts_hart_hart (.fwrite _ _ _ hfp) (.faccrue _ _ hfp)

theorem out_execFp (hf : m.bus.mem.fault = false) (hfp : ok.fp) (inst : BitVec 32) : Out ok m (m.execFp inst) := by
  unfold execFp
  split
  · exact out_illegal hf inst
  · dsimp only
    split
    · exact out_illegal hf inst
    · exact .of_run (m.acts_fwrite hfp _ _ _ _)
    · exact .of_run (m.acts_hart_hart (.regWrite ..) (.faccrue _ _ hfp))

theorem out_execFmadd (hf : m.bus.mem.fault = false) (hfp : ok.fp) (inst : BitVec 32) (flipA flipC : Bool) :
    Out ok m (m.execFmadd inst flipA flipC) := by
  unfold execFmadd
  dsimp only
  split
  · exact out_illegal hf inst
  · exact .of_run (m.acts_fwrite hfp _ _ _ _)

@[simp] theorem bus_breakReservation (m : Machine) (addr : BitVec 64) : (m.breakReservation addr).bus = m.bus := by
  unfold breakReservation
  dsimp only
  split <;> rfl

/-- Breaking reservations leaves the stepped hart as it is but for its own. -/
theorem cpu_breakReservation (m : Machine) (addr : BitVec 64) :
    ∃ r, (m.breakReservation addr).cpu = { m.cpu with reserveValid := r } := by
  have hone : ∀ (w : BitVec 64) (c : CPU), ∃ r, breakOne w c = { c with reserveValid := r } := by
    intro w c
    unfold breakOne
    split
    · exact ⟨false, rfl⟩
    · exact ⟨c.reserveValid, rfl⟩
  unfold breakReservation
  dsimp only
  split
  · unfold Machine.cpu
    dsimp only
    split
    · exact hone _ _
    · exact ⟨_, rfl⟩
  · rw [cpu_setCpu]
    exact hone _ _

/-- What a memory instruction does once its address is translated. -/
theorem out_accessAt (hf : m.bus.mem.fault = false) (hlr : isLr inst = true → ok.lr)
    (hfp : writesFp inst = true → ok.fp) (pa : BitVec 64) : Out ok m (m.accessAt inst pa) := by
  unfold accessAt
  cases hop : opcode inst with
  | load =>
    exact .of_run ((m.acts_cacheAccess pa false).trans ((acts_bus _ (loadValue_shape ..)).trans (acts_regWrite _ _ _)))
  | store =>
    exact .of_run ((m.acts_breakReservation pa).trans
      ((acts_cacheAccess _ pa true).trans (acts_bus _ (storeValue_shape ..))))
  | loadFp =>
    have hfp := hfp (by unfold writesFp; rw [hop])
    refine .after (m.acts_cacheAccess pa false) ?_
    dsimp only
    split
    · exact .of_run ((acts_bus _ (memRead_shape ..)).trans (acts_hart _ (.fwrite _ _ _ hfp)))
    · exact .of_run ((acts_bus _ (memRead_shape ..)).trans (acts_hart _ (.fwrite _ _ _ hfp)))
    · exact out_illegal (m := m.cacheAccess pa false) hf _
  | storeFp =>
    refine .after ((m.acts_breakReservation pa).trans (acts_cacheAccess _ pa true)) ?_
    dsimp only
    split
    · exact .of_run (acts_bus _ (memWrite_shape ..))
    · exact .of_run (acts_bus _ (memWrite_shape ..))
    · refine out_illegal ?_ _
      rw [bus_cacheAccess, bus_breakReservation]
      exact hf
  | amo =>
    refine .after (m.acts_cacheAccess pa true) (out_execAmoAt _ inst (fun h5 => hlr ?_) _ pa)
    simp only [isLr, hop, h5, decide_true, Bool.and_self]
  | _ => exact .refl m

theorem acts_self {m m' : Machine} (h : Acts ok m m') : m'.self = m.self := by
  induction h with
  | refl => rfl
  | tail _ ha ih =>
    refine Eq.trans ?_ ih
    cases ha with
    | breakReservation addr =>
      unfold breakReservation
      dsimp only
      split <;> rfl
    | _ => rfl

/-- Acts keep the bus's shape. -/
theorem acts_shape {m m' : Machine} (h : Acts ok m m') : m.bus.Shape m'.bus := by
  induction h with
  | refl => exact .refl _
  | tail _ ha ih =>
    refine ih.trans ?_
    cases ha with
    | bus b hb => exact hb
    | breakReservation addr =>
      rw [bus_breakReservation]
      exact .refl _
    | _ => exact .refl _

/-! ## The step -/

/-- A memory instruction: a page fault, or the access. -/
theorem out_translated (hf : m.bus.mem.fault = false)
    (h : m.translation inst = some (va, acc)) (hsee : ok.sees m.cpu m.bus va acc) (ilen : BitVec 32)
    (hok : ok.Admits m inst) : Out ok m (m.dispatch inst ilen).1 := by
  cases ht : m.translate va acc with
  | mk r m' =>
    rw [dispatch_translated h ht]
    cases r with
    | error cause => exact out_pageFault hf hsee ht
    | ok pa => exact .after (acts_translate_eq hsee ht) (out_accessAt (translate_fault hf ht) hok.lr hok.fp pa)

theorem out_dispatch (hf : m.bus.mem.fault = false) (hsee : SeesData ok m inst) (ilen : BitVec 32)
    (hok : ok.Admits m inst) (hed : ok.Edits m inst) : Out ok m (m.dispatch inst ilen).1 := by
  cases htr : m.translation inst with
  | some p => exact out_translated hf htr (hsee _ _ htr) ilen hok
  | none =>
    have hfp := hok.fp
    unfold translation at htr
    unfold writesFp at hfp
    unfold dispatch
    cases hop : opcode inst <;> rw [hop] at htr hfp <;> dsimp only at htr hfp ⊢
    case load | loadFp | store | storeFp => cases htr
    case imm | reg | lui | auipc | jal | jalr => exact .of_run (m.acts_regWrite _ _)
    case imm32 | reg32 => exact out_writeOrIllegal hf _ _
    case branch | fence => exact .refl m
    case fp => exact out_execFp hf (hfp rfl) inst
    case madd | msub | nmsub | nmadd => exact out_execFmadd hf (hfp rfl) inst _ _
    case system => exact out_execSystem hf inst hop hok hed
    case other => exact out_illegal hf inst
    case amo =>
      -- an atomic without a translation is illegal or misaligned
      unfold execAmo
      dsimp only
      split
      · exact out_illegal hf inst
      next hex =>
      split
      · refine out_raiseTrap hf _ ?_
        unfold amoMisaligned
        split <;> exact raisedAt_const _ (by decide) (by decide)
      next hal =>
      rw [if_neg hex, if_neg hal] at htr
      cases htr

theorem enterTrap_trapped (c : CPU) (cause tval : BitVec 64) (toS : Bool) :
    (c.enterTrap cause tval toS).trapped = true := rfl

/-- The commit tail: an access fault or a misaligned target traps, anything else retires. -/
theorem stepOut_commit (m : Machine) (inst : BitVec 32) (nextPc : BitVec 64) :
    StepOut ok m (m.commit inst nextPc) := by
  unfold commit
  split
  · refine m.stepOut_raiseTrap _ ?_
    unfold accessCause
    split <;> exact raisedAt_const _ (by decide) (by decide)
  split
  · exact .refl m
  split
  · exact .refl m
  split
  · exact m.stepOut_raiseTrap _ (raisedAt_const _ (by decide) (by decide))
  · exact .of_run (m.acts_hart (.retire _ _ (Bool.eq_false_iff.mpr ‹_›)))

/-- A clean trap entry is final. -/
theorem commit_of_enterClean {m m' : Machine} (h : EnterClean m m') (inst : BitVec 32) (nextPc : BitVec 64) :
    m'.commit inst nextPc = m' := by
  obtain ⟨hf, he⟩ := h
  cases he with
  | mk cause tval toS _ _ =>
    unfold commit
    rw [bus_setCpu, hf, if_neg (by decide), cpu_setCpu, if_pos (enterTrap_trapped ..)]

theorem stepOut_execute (hf : m.bus.mem.fault = false) (hsee : SeesData ok m inst) (ilen : BitVec 32)
    (hok : ok.Admits m inst) (hed : ok.Edits m inst) : StepOut ok m (m.execute inst ilen) := by
  unfold execute
  dsimp only
  obtain ⟨m1, h1, h2⟩ := out_dispatch hf hsee ilen hok hed
  rcases h2 with h2 | h2
  · rw [h2]
    exact .after h1 (stepOut_commit m1 inst _)
  · rw [commit_of_enterClean h2]
    exact ⟨m1, h1, Or.inr h2.2⟩

end Machine
end Quanta
