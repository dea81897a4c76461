/-
What a fault reports. A faulting access is described apart from the code, by its kind, its virtual
address and how it failed; the trap the step enters must then record the matching cause and that
address. Page faults are raised by the executors with the address at hand. Access faults are a flag
the memory accessors leave with a physical address, turned into a trap by the commit tail from the
opcode alone, and so they report the access only where the two addresses agree and never for LR.
-/
import Quanta.Effects.System
import Quanta.Hart.Status

namespace Quanta

/-! ## Faults and their reports -/

/-- How an access fails: in its translation, or at a physical address outside RAM and the devices. -/
inductive FaultKind
  | page
  | access (pa : BitVec 64)
  deriving DecidableEq

/-- The exception code of a fault, by the kind of the access. -/
def FaultKind.code : FaultKind → AccessType → BitVec 64
  | .access _, .fetch => 1
  | .access _, .load => 5
  | .access _, .store => 7
  | .page, .fetch => 12
  | .page, .load => 13
  | .page, .store => 15

/-- A failed access. -/
structure Fault where
  acc : AccessType
  va : BitVec 64
  kind : FaultKind
  deriving DecidableEq

/-- The cause and value registers of the level the hart trapped to. -/
def CPU.recorded (c : CPU) : BitVec 64 × BitVec 64 :=
  if c.priv = PRIV_S then (c.csr CSR_SCAUSE, c.csr CSR_STVAL) else (c.csr CSR_MCAUSE, c.csr CSR_MTVAL)

/-- The hart trapped, with the fault's cause and, as XLEN bits, its virtual address. -/
structure Reports (c : CPU) (f : Fault) : Prop where
  trapped : c.trapped = true
  cause : c.recorded.1 = f.kind.code f.acc
  tval : sextXlen c.xlen c.recorded.2 = sextXlen c.xlen f.va

/-- A memory access of an instruction. -/
structure MemAccess where
  acc : AccessType
  va : BitVec 64
  size : Nat

/-- The bytes a LOAD reads; the reserved encodings, and the RV64 ones on RV32, read nothing. -/
def loadSize (xlen : Xlen) (f3 : BitVec 3) : Option Nat :=
  match f3 with
  | 0x0#3 => some 1
  | 0x1#3 => some 2
  | 0x2#3 => some 4
  | 0x3#3 => if xlen = .rv64 then some 8 else none
  | 0x4#3 => some 1
  | 0x5#3 => some 2
  | 0x6#3 => if xlen = .rv64 then some 4 else none
  | _ => none

def storeSize (xlen : Xlen) (f3 : BitVec 3) : Option Nat :=
  match f3 with
  | 0x0#3 => some 1
  | 0x1#3 => some 2
  | 0x2#3 => some 4
  | 0x3#3 => if xlen = .rv64 then some 8 else none
  | _ => none

/-- The bytes of an FP load or store. -/
def fpSize (f3 : BitVec 3) : Option Nat :=
  match f3 with
  | 0x2#3 => some 4
  | 0x3#3 => some 8
  | _ => none

def amoSize (inst : BitVec 32) : Nat := if Machine.amoWide inst then 8 else 4

/-- Is `inst` an SC? -/
def isSc (inst : BitVec 32) : Bool := opcode inst = .amo && funct5 inst = 0x03#5

namespace Machine

/-- The access of a memory instruction; a misaligned atomic makes none. -/
def dataAccess (m : Machine) (inst : BitVec 32) : Option MemAccess :=
  match opcode inst with
  | .load => (loadSize m.xlen (funct3 inst)).map fun n => ⟨.load, m.loadVa inst, n⟩
  | .store => (storeSize m.xlen (funct3 inst)).map fun n => ⟨.store, m.storeVa inst, n⟩
  | .loadFp => (fpSize (funct3 inst)).map fun n => ⟨.load, m.loadVa inst, n⟩
  | .storeFp => (fpSize (funct3 inst)).map fun n => ⟨.store, m.storeVa inst, n⟩
  | .amo =>
    if amoExists m.xlen inst = true ∧ m.regRead (rs1 inst) &&& amoMask inst = 0 then
      some ⟨if isLr inst then .load else .store, m.regRead (rs1 inst), amoSize inst⟩
    else none
  | _ => none

/-- Does the access go through at this physical address? An SC without its reservation fails
without touching memory. -/
def reaches (m : Machine) (inst : BitVec 32) (pa : BitVec 64) (n : Nat) : Bool :=
  m.bus.mapped pa n || (isSc inst && !scHeld m.cpu pa)

/-- The fault of an instruction's data access, if it has one. -/
def dataFault (m : Machine) (inst : BitVec 32) : Option Fault :=
  (m.dataAccess inst).bind fun a =>
    match (m.translate a.va a.acc).1 with
    | .error _ => some ⟨a.acc, a.va, .page⟩
    | .ok pa => if m.reaches inst pa a.size then none else some ⟨a.acc, a.va, .access pa⟩

/-- The fault of the fetch when the decode cache does not hold the instruction, from the translated
address of its first halfword; a second one is fetched for the 32-bit encodings. -/
def missFault (m : Machine) (loPa : BitVec 64) : Option Fault :=
  let pc := m.cpu.pc
  if m.bus.mapped loPa 2 = false then some ⟨.fetch, pc, .access loPa⟩
  else
    let (lo, b) := memRead16 m.bus loPa
    if lo.setWidth 2 ≠ 3#2 then none
    else
      match ((m.setBus b).translate (pc + 2) .fetch).1 with
      | .error _ => some ⟨.fetch, pc + 2, .page⟩
      | .ok hiPa => if b.mapped hiPa 2 then none else some ⟨.fetch, pc + 2, .access hiPa⟩

/-- The fault of the fetch, if it has one. -/
def fetchFault (dc : Option DecodeCache) (m : Machine) : Option Fault :=
  match m.translate m.cpu.pc .fetch with
  | (.error _, _) => some ⟨.fetch, m.cpu.pc, .page⟩
  | (.ok loPa, m) => if (dc.bind (·.lookup loPa)).isSome then none else m.missFault loPa

end Machine

/-- What a step fails on: its fetch, or the data access of the instruction it fetched. -/
inductive StepFault
  | fetch (f : Fault)
  | data (inst : BitVec 32) (f : Fault)
  deriving DecidableEq

def StepFault.fault : StepFault → Fault
  | .fetch f => f
  | .data _ f => f

/-- The cause the step raises: the commit tail goes by the opcode. -/
def StepFault.raised : StepFault → BitVec 32
  | .fetch ⟨_, _, .page⟩ => pfCause .fetch
  | .fetch ⟨_, _, .access _⟩ => CAUSE_INSN_ACCESS
  | .data _ ⟨acc, _, .page⟩ => pfCause acc
  | .data inst ⟨_, _, .access _⟩ => Machine.accessCause inst

namespace Machine

/-- The fault a step meets, unless its prologue traps or halts first. -/
def stepFault (dc : Option DecodeCache) (m : Machine) : Option StepFault :=
  match m.beginStep.preStep with
  | (true, _) => none
  | (false, m) =>
    match m.fetchFault dc, m.fetch dc with
    | some f, _ => some (.fetch f)
    | none, (some (inst, _), _, m) => (m.dataFault inst).map (.data inst)
    | none, (none, _, _) => none

end Machine

/-! ## Entering the handler -/

namespace CPU

/-- What says where an exception goes is the same. -/
structure SameVectors (c c' : CPU) : Prop where
  xlen : c'.xlen = c.xlen
  priv : c'.priv = c.priv
  medeleg : c'.csr CSR_MEDELEG = c.csr CSR_MEDELEG
  stvec : c'.csr CSR_STVEC = c.csr CSR_STVEC
  mtvec : c'.csr CSR_MTVEC = c.csr CSR_MTVEC

namespace SameVectors

theorem refl (c : CPU) : SameVectors c c := ⟨rfl, rfl, rfl, rfl, rfl⟩

theorem trans {c c' c'' : CPU} (h : SameVectors c c') (h' : SameVectors c' c'') : SameVectors c c'' :=
  ⟨h'.xlen.trans h.xlen, h'.priv.trans h.priv, h'.medeleg.trans h.medeleg, h'.stvec.trans h.stvec,
    h'.mtvec.trans h.mtvec⟩

theorem handled {c c' : CPU} {cause : BitVec 32} (h : SameVectors c c') (hc : c.handlerInstalled cause = true) :
    c'.handlerInstalled cause = true := by
  unfold handlerInstalled trapVector trapToS at hc ⊢
  rw [h.priv, h.medeleg, h.stvec, h.mtvec]
  exact hc

end SameVectors

theorem sameVectors_mmuTranslate (c : CPU) (b : Bus) (va : BitVec 64) (acc : AccessType) :
    SameVectors c (mmuTranslate c b va acc).cpu := by
  obtain ⟨t, ht⟩ := mmuTranslate_cpu c b va acc
  rw [ht]
  exact ⟨rfl, rfl, rfl, rfl, rfl⟩

theorem sameVectors_regWrite (c : CPU) (i : BitVec 5) (v : BitVec 64) : SameVectors c (c.regWrite i v) := by
  unfold regWrite
  split <;> exact ⟨rfl, rfl, rfl, rfl, rfl⟩

theorem sameVectors_fwriteD (c : CPU) (i : BitVec 5) (v : BitVec 64) : SameVectors c (c.fwriteD i v) :=
  ⟨rfl, rfl, rfl, rfl, rfl⟩

theorem SamePre.sameVectors {c c' : CPU} (h : SamePre c c') : SameVectors c c' where
  xlen := by rw [h.rest]
  priv := by rw [h.rest]
  medeleg := h.csr _ (by decide)
  stvec := h.csr _ (by decide)
  mtvec := h.csr _ (by decide)

/-- A trap entry records its cause and value at the level it goes to. -/
theorem recorded_enterTrap (c : CPU) (cause tval : BitVec 64) (toS : Bool) :
    (c.enterTrap cause tval toS).recorded = (cause, tval) := by
  unfold recorded
  cases toS with
  | false =>
    have hp : (c.enterTrap cause tval false).priv = PRIV_M := rfl
    rw [hp, if_neg (by decide), enterTrap_csr_M, enterTrap_csr_M]
    rfl
  | true =>
    have hp : (c.enterTrap cause tval true).priv = PRIV_S := rfl
    rw [hp, if_pos rfl, enterTrap_csr_S, enterTrap_csr_S]
    rfl

end CPU

namespace Machine

variable {inst : BitVec 32} {va pa : BitVec 64}
variable {m : Machine} {acc : AccessType} {r : Except (BitVec 32) (BitVec 64)} {m' : Machine}

/-- With a handler installed an exception is recorded with the cause and value it was raised with. -/
theorem raiseTrap_recorded {cause : BitVec 32} (h : m.cpu.handlerInstalled cause = true) (tval : BitVec 64) :
    (m.raiseTrap cause tval).cpu.recorded = (cause.setWidth 64, tval) ∧
    (m.raiseTrap cause tval).cpu.trapped = true ∧ (m.raiseTrap cause tval).cpu.xlen = m.cpu.xlen ∧
    (m.raiseTrap cause tval).bus = m.bus := by
  unfold raiseTrap
  rw [if_pos h, cpu_setCpu, bus_setCpu]
  exact ⟨CPU.recorded_enterTrap .., rfl, CPU.enterTrap_xlen .., rfl⟩

/-- Whether a raised exception is the report of a fault can be read off what it was raised with. -/
theorem reports_raiseTrap {cause : BitVec 32} (h : m.cpu.handlerInstalled cause = true) (tval : BitVec 64) (f : Fault) :
    Reports (m.raiseTrap cause tval).cpu f ↔
      cause.setWidth 64 = f.kind.code f.acc ∧ sextXlen m.cpu.xlen tval = sextXlen m.cpu.xlen f.va := by
  obtain ⟨hrec, htrap, hxlen, _⟩ := raiseTrap_recorded h tval
  constructor
  · rintro ⟨_, hcause, htval⟩
    rw [hrec] at hcause htval
    rw [hxlen] at htval
    exact ⟨hcause, htval⟩
  · rintro ⟨hcause, htval⟩
    refine ⟨htrap, ?_, ?_⟩
    · rw [hrec]
      exact hcause
    · rw [hrec, hxlen]
      exact htval

theorem pfCause_code (acc : AccessType) : (pfCause acc).setWidth 64 = FaultKind.page.code acc := by
  cases acc <;> rfl

/-- A page fault raised with its virtual address is reported. -/
theorem reports_pageFault (h : m.cpu.handlerInstalled (pfCause acc) = true) (va : BitVec 64) :
    Reports (m.raiseTrap (pfCause acc) va).cpu ⟨acc, va, .page⟩ :=
  (reports_raiseTrap h _ _).mpr ⟨pfCause_code acc, rfl⟩

/-! ## The fetch -/

theorem sameVectors_translate
    (h : m.translate va acc = (r, m')) : m.cpu.SameVectors m'.cpu := by
  have hm : m' = (m.translate va acc).2 := by rw [h]
  rw [hm, translate, cpu_setBus, cpu_setCpu]
  exact CPU.sameVectors_mmuTranslate m.cpu m.bus va acc

theorem translate_error {cause : BitVec 32}
    (h : m.translate va acc = (.error cause, m')) : cause = pfCause acc :=
  mmuTranslate_error (congrArg Prod.fst h)

/-- The access fault of a fetch is raised with its virtual address. -/
theorem reports_fetchAccess (h : m.cpu.handlerInstalled CAUSE_INSN_ACCESS = true) (b : Bus) (va pa : BitVec 64) :
    Reports ((m.setBus b).raiseTrap CAUSE_INSN_ACCESS va).cpu ⟨.fetch, va, .access pa⟩ :=
  (@reports_raiseTrap (m.setBus b) _ h _ _).mpr ⟨rfl, rfl⟩

theorem fault_memRead16 {b : Bus} (hf : b.mem.fault = false) (pa : BitVec 64) :
    (memRead16 b pa).2.mem.fault = !b.mapped pa 2 := memRead_fault hf pa 2

theorem fetchMiss_reports (hf : m.bus.mem.fault = false) {loPa : BitVec 64} {f : Fault}
    (hh : m.cpu.handlerInstalled (StepFault.fetch f).raised = true) (h : m.missFault loPa = some f) :
    ∃ m', m.fetchMiss loPa = (none, m') ∧ Reports m'.cpu f := by
  unfold missFault at h
  unfold fetchMiss
  dsimp only at h ⊢
  have hlo := fault_memRead16 hf loPa
  split at h
  · next hmap =>
    cases h
    rw [hlo, hmap]
    exact ⟨_, rfl, reports_fetchAccess hh _ _ _⟩
  · next hmap =>
    rw [Bool.not_eq_false] at hmap
    rw [hmap] at hlo
    rw [hlo, if_neg (by decide)]
    split at h
    · cases h
    · next h3 =>
      rw [if_neg h3]
      cases ht : (m.setBus (memRead16 m.bus loPa).2).translate (m.cpu.pc + 2) .fetch with
      | mk r m' =>
        have hh' := (sameVectors_translate ht).handled hh
        have hf' : (memRead16 m.bus loPa).2.mem.fault = false := hlo
        have hfr := translate_frame hf' ht
        rw [ht] at h
        cases r with
        | error cause =>
          cases h
          rw [translate_error ht]
          exact ⟨_, rfl, reports_pageFault hh' _⟩
        | ok hiPa =>
          dsimp only at h ⊢
          split at h
          · cases h
          · next hhi =>
            cases h
            have hmap' : m'.bus.mapped hiPa 2 = false :=
              (hfr.mapped hiPa 2).trans (Bool.eq_false_iff.mpr hhi)
            rw [fault_memRead16 (hfr.fault.trans hf'), hmap']
            exact ⟨_, rfl, reports_fetchAccess hh' _ _ _⟩

/-- A fetch that fails reports its fault. -/
theorem fetch_reports (hf : m.bus.mem.fault = false) {dc : Option DecodeCache} {f : Fault}
    (hh : m.cpu.handlerInstalled (StepFault.fetch f).raised = true) (h : m.fetchFault dc = some f) :
    ∃ m', m.fetch dc = (none, dc, m') ∧ Reports m'.cpu f := by
  unfold fetchFault at h
  unfold fetch
  dsimp only
  cases ht : m.translate m.cpu.pc .fetch with
  | mk r m' =>
    have hh' := (sameVectors_translate ht).handled hh
    rw [ht] at h
    cases r with
    | error cause =>
      cases h
      rw [translate_error ht]
      exact ⟨_, rfl, reports_pageFault hh' _⟩
    | ok loPa =>
      dsimp only at h ⊢
      cases hl : dc.bind (·.lookup loPa) with
      | some s =>
        rw [hl] at h
        cases h
      | none =>
        rw [hl] at h
        obtain ⟨m'', hm, hrep⟩ := fetchMiss_reports (translate_fault hf ht) hh' h
        rw [hm]
        exact ⟨m'', rfl, hrep⟩

/-! ## The data access -/

/-- The executor left the access-fault flag with this physical address, and the vectors alone. -/
structure Faulted (m : Machine) (pa : BitVec 64) (m' : Machine) : Prop where
  fault : m'.bus.mem.fault = true
  addr : m'.bus.mem.faultAddr = pa
  vectors : m.cpu.SameVectors m'.cpu

theorem Faulted.after {m' m'' : Machine} (h : Faulted m' pa m'')
    (hv : m.cpu.SameVectors m'.cpu) : Faulted m pa m'' :=
  ⟨h.fault, h.addr, hv.trans h.vectors⟩

theorem faulted_setBus (m : Machine) (pa : BitVec 64) : Faulted m pa (m.setBus (m.bus.setFault pa)) :=
  ⟨rfl, rfl, .refl _⟩

theorem Faulted.setCpu (h : Faulted m pa m') {c : CPU}
    (hc : m'.cpu.SameVectors c) : Faulted m pa (m'.setCpu c) where
  fault := h.fault
  addr := h.addr
  vectors := by
    rw [cpu_setCpu]
    exact h.vectors.trans hc

theorem loadValue_unmapped {xlen : Xlen} {f3 : BitVec 3} {n : Nat} {b : Bus}
    (hs : loadSize xlen f3 = some n) (h : b.mapped pa n = false) : (loadValue xlen f3 b pa).2 = b.setFault pa := by
  have hread : (memRead b pa n).2 = b.setFault pa := by rw [memRead_of_unmapped h]
  unfold loadSize at hs
  split at hs
  case h_4 | h_7 =>
    split at hs
    · next hx =>
      cases hs
      simp only [loadValue, if_pos hx]
      exact hread
    · cases hs
  all_goals
    cases hs
    try exact hread

theorem storeValue_unmapped {xlen : Xlen} {f3 : BitVec 3} {n : Nat} {b : Bus}
    (hs : storeSize xlen f3 = some n) (h : b.mapped pa n = false) (v : BitVec 64) :
    storeValue xlen f3 b pa v = b.setFault pa := by
  have hwrite : ∀ w, memWrite b pa n w = b.setFault pa := memWrite_of_unmapped h
  unfold storeSize at hs
  split at hs
  case h_4 =>
    split at hs
    · next hx =>
      cases hs
      simp only [storeValue, if_pos hx]
      exact hwrite v
    · cases hs
  all_goals
    cases hs
    try exact hwrite _

theorem sameVectors_breakReservation (m : Machine) (addr : BitVec 64) :
    m.cpu.SameVectors (m.breakReservation addr).cpu := by
  obtain ⟨r, hr⟩ := m.cpu_breakReservation addr
  rw [hr]
  exact ⟨rfl, rfl, rfl, rfl, rfl⟩

section Executors

variable {inst : BitVec 32} {n : Nat} {pa : BitVec 64} {m' : Machine}

/-- The widths of an FP access. -/
theorem fpSize_cases {f3 : BitVec 3} (h : fpSize f3 = some n) : f3 = 0x2#3 ∧ n = 4 ∨ f3 = 0x3#3 ∧ n = 8 := by
  unfold fpSize at h
  split at h
  · cases h
    exact Or.inl ⟨rfl, rfl⟩
  · cases h
    exact Or.inr ⟨rfl, rfl⟩
  · cases h

theorem amoRead_unmapped {b : Bus} (h : b.mapped pa (amoSize inst) = false) :
    (amoRead b (amoWide inst) pa).2 = b.setFault pa := by
  unfold amoSize at h
  unfold amoRead
  split
  · next hw =>
    rw [if_pos hw] at h
    exact congrArg Prod.snd (memRead_of_unmapped h)
  · next hw =>
    rw [if_neg hw] at h
    exact congrArg Prod.snd (memRead_of_unmapped h)

theorem amoWrite_unmapped {b : Bus} (h : b.mapped pa (amoSize inst) = false) (v : BitVec 64) :
    amoWrite b (amoWide inst) pa v = b.setFault pa := by
  unfold amoSize at h
  unfold amoWrite
  split
  · next hw =>
    rw [if_pos hw] at h
    exact memWrite_of_unmapped h v
  · next hw =>
    rw [if_neg hw] at h
    exact memWrite_of_unmapped h _

/-- An atomic that touches an unmapped address stops at its first access. -/
theorem faulted_execAmoAt (hm : m.bus.mapped pa (amoSize inst) = false)
    (hsc : funct5 inst = 0x03#5 → scHeld m.cpu pa = true) :
    Faulted m pa (m.execAmoAt inst (amoWide inst) pa) := by
  have hfault : (m.setBus (m.bus.setFault pa)).bus.mem.fault = true := rfl
  unfold execAmoAt
  split
  · unfold execLr
    dsimp only
    rw [amoRead_unmapped hm, if_pos hfault]
    exact faulted_setBus m pa
  split
  · next h5 =>
    unfold execSc
    rw [if_pos (hsc h5), amoWrite_unmapped hm, if_pos hfault]
    exact faulted_setBus m pa
  · unfold execAmoOp
    dsimp only
    rw [amoRead_unmapped hm, if_pos hfault]
    exact faulted_setBus m pa

/-- An access to an unmapped address stops there. -/
theorem faulted_accessAt {a : MemAccess} (ha : m.dataAccess inst = some a) (hm : m.bus.mapped pa a.size = false)
    (hsc : isSc inst = true → scHeld m.cpu pa = true) : Faulted m pa (m.accessAt inst pa) := by
  have hread : Faulted m pa ((m.cacheAccess pa false).setBus (m.bus.setFault pa)) :=
    (faulted_setBus (m.cacheAccess pa false) pa).after (.refl _)
  have hbroken : ∀ n, m.bus.mapped pa n = false →
      ((m.breakReservation pa).cacheAccess pa true).bus.mapped pa n = false := by
    intro n h
    rw [bus_cacheAccess, bus_breakReservation]
    exact h
  have hwritten : Faulted m pa (((m.breakReservation pa).cacheAccess pa true).setBus
      (((m.breakReservation pa).cacheAccess pa true).bus.setFault pa)) :=
    (faulted_setBus _ pa).after (m.sameVectors_breakReservation pa)
  unfold dataAccess at ha
  unfold accessAt
  cases hop : opcode inst <;> rw [hop] at ha <;> dsimp only at ha ⊢
  case load =>
    obtain ⟨n, hs, rfl⟩ := Option.map_eq_some_iff.mp ha
    have hl : (loadValue m.xlen (funct3 inst) m.bus pa).2 = m.bus.setFault pa := loadValue_unmapped hs hm
    change Faulted m pa (((m.cacheAccess pa false).setBus (loadValue m.xlen (funct3 inst) m.bus pa).2).regWrite _ _)
    rw [hl]
    exact hread.setCpu (CPU.sameVectors_regWrite ..)
  case store =>
    obtain ⟨n, hs, rfl⟩ := Option.map_eq_some_iff.mp ha
    have hx : ((m.breakReservation pa).cacheAccess pa true).xlen = m.xlen := (m.sameVectors_breakReservation pa).xlen
    rw [storeValue_unmapped (n := n) (by rw [hx]; exact hs) (hbroken n hm)]
    exact hwritten
  case loadFp =>
    obtain ⟨n, hs, rfl⟩ := Option.map_eq_some_iff.mp ha
    have hb : Faulted m pa ((m.cacheAccess pa false).setBus (memRead m.bus pa n).2) := by
      rw [memRead_of_unmapped hm]
      exact hread
    obtain ⟨h3, rfl⟩ | ⟨h3, rfl⟩ := fpSize_cases hs <;> rw [h3] <;> exact hb.setCpu (CPU.sameVectors_fwriteD ..)
  case storeFp =>
    obtain ⟨n, hs, rfl⟩ := Option.map_eq_some_iff.mp ha
    have hb : ∀ v, Faulted m pa (((m.breakReservation pa).cacheAccess pa true).setBus
        (memWrite ((m.breakReservation pa).cacheAccess pa true).bus pa n v)) := by
      intro v
      rw [memWrite_of_unmapped (hbroken n hm)]
      exact hwritten
    obtain ⟨h3, rfl⟩ | ⟨h3, rfl⟩ := fpSize_cases hs <;> rw [h3] <;> exact hb _
  case amo =>
    split at ha
    · cases ha
      refine (faulted_execAmoAt (m := m.cacheAccess pa true) hm fun h5 => hsc ?_).after (.refl _)
      unfold isSc
      rw [hop, h5]
      decide
    · cases ha
  all_goals cases ha

end Executors

/-- What an executor leaves behind when its access fails as `f` says. -/
inductive Fails (m : Machine) : Fault → Machine → Prop
  | page (acc : AccessType) (va : BitVec 64) (m' : Machine) (hf : m'.bus.mem.fault = false)
      (hv : m.cpu.SameVectors m'.cpu) : Fails m ⟨acc, va, .page⟩ (m'.raiseTrap (pfCause acc) va)
  | access (acc : AccessType) (va pa : BitVec 64) (m' : Machine) (h : Faulted m pa m') :
      Fails m ⟨acc, va, .access pa⟩ m'

theorem scHeld_translate
    (h : m.translate va acc = (r, m')) (pa : BitVec 64) : scHeld m'.cpu pa = scHeld m.cpu pa := by
  have hm : m' = (m.translate va acc).2 := by rw [h]
  obtain ⟨t, ht⟩ := mmuTranslate_cpu m.cpu m.bus va acc
  rw [hm, translate, cpu_setBus, cpu_setCpu, ht]
  rfl

theorem dataAccess_translate
    (h : m.translate va acc = (r, m')) (inst : BitVec 32) : m'.dataAccess inst = m.dataAccess inst := by
  have hx : m'.xlen = m.xlen := (sameVectors_translate h).xlen
  unfold dataAccess loadVa storeVa
  rw [hx, regRead_translate h]

/-- The access is made where the translation says. -/
theorem dataAccess_translation {a : MemAccess} (h : m.dataAccess inst = some a) :
    m.translation inst = some (a.va, a.acc) := by
  unfold dataAccess at h
  unfold translation
  cases hop : opcode inst <;> rw [hop] at h <;> dsimp only at h ⊢
  case load | store | loadFp | storeFp =>
    obtain ⟨n, _, rfl⟩ := Option.map_eq_some_iff.mp h
    rfl
  case amo =>
    split at h
    · next hex =>
      cases h
      have hacc : (if isLr inst then AccessType.load else .store) = amoAccess inst := by
        unfold isLr amoAccess
        rw [hop]
        simp only [decide_true, Bool.true_and, decide_eq_true_eq]
      rw [hex.1, if_neg (by decide), if_neg (not_not.mpr hex.2), hacc]
    · cases h
  all_goals cases h

/-- The executor of an instruction whose access fails leaves that fault behind. -/
theorem fails_dispatch (hf : m.bus.mem.fault = false) {f : Fault}
    (h : m.dataFault inst = some f) (ilen : BitVec 32) : Fails m f (m.dispatch inst ilen).1 := by
  unfold dataFault at h
  obtain ⟨a, ha, h⟩ := Option.bind_eq_some_iff.mp h
  cases ht : m.translate a.va a.acc with
  | mk r m' =>
    rw [ht] at h
    rw [dispatch_translated (dataAccess_translation ha) ht]
    cases r with
    | error cause =>
      cases h
      rw [translate_error ht]
      exact .page _ _ _ (translate_fault hf ht) (sameVectors_translate ht)
    | ok pa =>
      dsimp only at h
      split at h
      · cases h
      · next hr =>
        cases h
        rw [Bool.not_eq_true, reaches, Bool.or_eq_false_iff] at hr
        rw [← dataAccess_translate ht] at ha
        refine .access _ _ _ _ ((faulted_accessAt ha ?_ fun hsc => ?_).after (sameVectors_translate ht))
        · rw [(translate_frame hf ht).mapped]
          exact hr.1
        · rw [hsc, Bool.true_and, Bool.not_eq_false'] at hr
          rw [scHeld_translate ht]
          exact hr.2

/-! ## The commit tail -/

theorem dataFault_access {f : Fault} (h : m.dataFault inst = some f) :
    ∃ a, m.dataAccess inst = some a ∧ f.acc = a.acc := by
  obtain ⟨a, ha, hfa⟩ := Option.bind_eq_some_iff.mp h
  refine ⟨a, ha, ?_⟩
  split at hfa
  · cases hfa
    rfl
  · split at hfa <;> cases hfa
    rfl

/-- The cause the commit tail takes from the opcode is the access's own, but for LR. -/
theorem accessCause_code {f : Fault} (h : m.dataFault inst = some f) (pa : BitVec 64) :
    (accessCause inst).setWidth 64 = (FaultKind.access pa).code f.acc ↔ isLr inst = false := by
  obtain ⟨a, ha, hacc⟩ := dataFault_access h
  rw [hacc]
  have hlr : opcode inst ≠ .amo → isLr inst = false := by
    intro hop
    unfold isLr
    rw [decide_eq_false hop]
    rfl
  unfold dataAccess at ha
  unfold accessCause
  split at ha
  case h_5 hop =>
    split at ha
    · cases ha
      rw [hop]
      cases isLr inst
      · exact ⟨fun _ => rfl, fun _ => rfl⟩
      · refine ⟨fun h7 => ?_, fun h => by cases h⟩
        exact absurd h7 (show ¬(7#64 = 5#64) by decide)
    · cases ha
  case h_6 => cases ha
  all_goals
    next hop =>
    obtain ⟨n, _, rfl⟩ := Option.map_eq_some_iff.mp ha
    rw [hop, hlr (by rw [hop]; decide)]
    exact ⟨fun _ => rfl, fun _ => rfl⟩

end Machine

/-- The faults whose report is right: those of fetches, page faults, and access faults of
instructions other than LR at a physical address equal to the virtual one. -/
def StepFault.Named (xlen : Xlen) : StepFault → Prop
  | .fetch _ => True
  | .data inst f =>
    match f.kind with
    | .page => True
    | .access pa => isLr inst = false ∧ sextXlen xlen pa = sextXlen xlen f.va

namespace Machine

variable {m : Machine}

theorem reports_execute (hf : m.bus.mem.fault = false) {inst : BitVec 32} {f : Fault}
    (hh : m.cpu.handlerInstalled (StepFault.data inst f).raised = true) (h : m.dataFault inst = some f) (ilen : BitVec 32) :
    Reports (m.execute inst ilen).cpu f ↔ StepFault.Named m.cpu.xlen (.data inst f) := by
  unfold execute
  dsimp only
  generalize (m.dispatch inst ilen).2 = next
  have hfails := fails_dispatch hf h ilen
  generalize (m.dispatch inst ilen).1 = m1 at hfails
  cases hfails with
  | page acc va m' hf' hv =>
    have hh' : m'.cpu.handlerInstalled (pfCause acc) = true := hv.handled hh
    obtain ⟨_, htrap, _, hbus⟩ := raiseTrap_recorded hh' va
    have hcommit : (m'.raiseTrap (pfCause acc) va).commit inst next = m'.raiseTrap (pfCause acc) va := by
      unfold commit
      rw [hbus, hf', if_neg (by decide), if_pos htrap]
    rw [hcommit]
    exact iff_of_true (reports_pageFault hh' va) trivial
  | access acc va pa _ hfd =>
    have hcommit : m1.commit inst next = m1.raiseTrap (accessCause inst) pa := by
      unfold commit
      rw [if_pos hfd.fault, hfd.addr]
    have hh' : m1.cpu.handlerInstalled (accessCause inst) = true := hfd.vectors.handled hh
    rw [hcommit, reports_raiseTrap hh', accessCause_code h, hfd.vectors.xlen]
    rfl

end Machine

/-- With a handler installed for the cause it raises, the trap of a step that meets a fault records
the cause of that fault and its virtual address exactly when it is a fetch's fault, a page fault, or
the access fault of an instruction other than LR whose address is mapped to itself. -/
theorem fault_reported_iff (dc : Option DecodeCache) (m : Machine) (s : StepFault)
    (hh : m.cpu.handlerInstalled s.raised = true) (h : m.stepFault dc = some s) :
    Reports (m.step dc).2.cpu s.fault ↔ s.Named m.cpu.xlen := by
  unfold Machine.stepFault at h
  unfold Machine.step
  cases hp : m.beginStep.preStep with
  | mk taken m0 =>
    rw [hp] at h
    cases taken with
    | true => cases h
    | false =>
      dsimp only at h ⊢
      obtain ⟨c, hc, hm0⟩ := Machine.preStep_untaken hp
      have hv : m.cpu.SameVectors m0.cpu := by
        rw [hm0, Machine.cpu_setCpu]
        have huntrap : m.cpu.SameVectors { m.cpu with trapped := false } := ⟨rfl, rfl, rfl, rfl, rfl⟩
        exact huntrap.trans hc.sameVectors
      have hh0 := hv.handled hh
      have hf0 : m0.bus.mem.fault = false := by
        rw [hm0]
        rfl
      cases hff : m0.fetchFault dc with
      | some f =>
        rw [hff] at h
        cases h
        obtain ⟨m', hfetch, hrep⟩ := Machine.fetch_reports hf0 hh0 hff
        rw [hfetch]
        exact iff_of_true hrep trivial
      | none =>
        rw [hff] at h
        cases hfe : m0.fetch dc with
        | mk i r =>
          obtain ⟨dc', m1⟩ := r
          rw [hfe] at h
          cases i with
          | none => cases h
          | some i =>
            obtain ⟨f, hdf, rfl⟩ := Option.map_eq_some_iff.mp h
            obtain ⟨_, hsame, hf1⟩ := @Machine.fetch_some .free m0 m1 dc dc' i hf0
              (.of_all (fun _ _ _ _ => trivial) ..) hfe
            obtain ⟨t, ht⟩ := hsame.cpu
            have hv1 : m0.cpu.SameVectors m1.cpu := by
              rw [ht]
              exact ⟨rfl, rfl, rfl, rfl, rfl⟩
            have hx : m1.cpu.xlen = m.cpu.xlen := hv1.xlen.trans hv.xlen
            rw [← hx]
            exact Machine.reports_execute hf1 (hv1.handled hh0) hdf i.2

/-- A machine-mode hart with its trap vector set, whose next instruction is `inst`. -/
def probeMachine (inst : BitVec 32) : Machine :=
  Machine.cpuStep^[2] (.load .rv64 1 0x80000000 0x1000 0x80000000 [0x00000097, 0x30509073, inst])

/-- The access fault of `lw x3, (x5)` at address 0, untranslated. -/
theorem word_load_reported :
    (probeMachine 0x0002a183).stepFault none = some (.data 0x0002a183 ⟨.load, 0, .access 0⟩) ∧
    Reports ((probeMachine 0x0002a183).step none).2.cpu ⟨.load, 0, .access 0⟩ := by
  have hfault : (probeMachine 0x0002a183).stepFault none = some (.data 0x0002a183 ⟨.load, 0, .access 0⟩) := by
    decide +kernel
  exact ⟨hfault, (fault_reported_iff none _ _ (by decide +kernel) hfault).mpr ⟨by decide, rfl⟩⟩

/-- A supervisor under Sv39 at a `lw x3, (x5)` with x5 = 0xc0000000, a page of which the root table
maps to physical address 0x40000000, where there is nothing. -/
def aliasMachine : Machine :=
  let m := Machine.load .rv64 1 0x80000000 0x1000 0x80000020
    [0, 0, 0, 0, 0x200000cf, 0, 0x100000cf, 0, 0x0002a183]
  m.setCpu (({ m.cpu with priv := PRIV_S }.regWrite 5 0xc0000000).setCsr CSR_MTVEC 0x80000000
    |>.setCsr CSR_SATP 0x8000000000080000)

/-- An LR at an unmapped address is recorded as a store access fault, cause 7; and the load fault of
the aliased page is recorded with the physical address. -/
theorem fault_misreported :
    (probeMachine 0x1002a1af).stepFault none = some (.data 0x1002a1af ⟨.load, 0, .access 0⟩) ∧
    ((probeMachine 0x1002a1af).step none).2.cpu.trapped = true ∧
    ((probeMachine 0x1002a1af).step none).2.cpu.recorded = (7, 0) ∧
    aliasMachine.stepFault none = some (.data 0x0002a183 ⟨.load, 0xc0000000, .access 0x40000000⟩) ∧
    (aliasMachine.step none).2.cpu.trapped = true ∧
    (aliasMachine.step none).2.cpu.recorded = (5, 0x40000000) := by
  decide +kernel

end Quanta
