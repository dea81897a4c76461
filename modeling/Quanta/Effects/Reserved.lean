/-
Encodings that are no instruction: the words the disassembler prints raw, and the reserved funct3
and funct7 values of the base opcodes. Such a word should be refused with an illegal-instruction
exception and nothing else. The executors that switch on every field do refuse it; those of JALR,
BRANCH, LOAD, STORE, OP and the shift immediates have no default that traps and run something, and
the ones that access memory translate the address first, so a fault there takes its place.
-/
import Quanta.Effects.Faults
import Quanta.Isa.Disasm

namespace Quanta

/-! ## The reserved encodings -/

/-- The OP instructions of the base, M, Zba, Zbb, Zbs and Zbc, by funct7. -/
def opKnown (xlen : Xlen) (inst : BitVec 32) : Bool :=
  let f3 := funct3 inst
  match funct7 inst with
  | 0x00#7 => true
  | 0x01#7 => true
  | 0x20#7 => f3 == 0 || f3 == 4 || f3 == 5 || f3 == 6 || f3 == 7
  | 0x10#7 => f3 == 2 || f3 == 4 || f3 == 6
  | 0x30#7 => f3 == 1 || f3 == 5
  | 0x05#7 => f3 != 0
  | 0x24#7 => f3 == 1 || f3 == 5
  | 0x14#7 => f3 == 1
  | 0x34#7 => f3 == 1
  | 0x04#7 => xlen == .rv32 && f3 == 4 && rs2 inst == 0
  | _ => false

/-- The shift immediates and the Zbb and Zbs instructions that share their funct3. On RV64 the
shift amount has a sixth bit, the lowest of funct7. -/
def shiftKnown (xlen : Xlen) (inst : BitVec 32) : Bool :=
  let f7 := funct7 inst
  let top := if xlen = .rv64 then f7 &&& ~~~1 else f7
  if funct3 inst = 1 then
    top == 0x00 || top == 0x14 || top == 0x24 || top == 0x34 ||
      (f7 == 0x30 && [0x00, 0x01, 0x02, 0x04, 0x05].contains (rs2 inst))
  else
    top == 0x00 || top == 0x20 || top == 0x24 || top == 0x30 || (f7 == 0x14 && rs2 inst == 0x07) ||
      (f7 == (if xlen = .rv64 then 0x35 else 0x34) && rs2 inst == 0x18)

/-- The shift immediates of OP-IMM-32. -/
def wordShiftKnown (inst : BitVec 32) : Bool :=
  let f7 := funct7 inst
  if funct3 inst = 1 then
    f7 == 0x00 || f7 &&& ~~~1 == 0x04 || (f7 == 0x30 && [0x00, 0x01, 0x02].contains (rs2 inst))
  else f7 == 0x00 || f7 == 0x20 || f7 == 0x30

/-- A reserved funct3 of BRANCH, LOAD, STORE, JALR or AMO, or a reserved funct7 of OP or of a shift
immediate, at this width. -/
def Reserved (xlen : Xlen) (inst : BitVec 32) : Prop :=
  match opcode inst with
  | .branch => funct3 inst = 2 ∨ funct3 inst = 3
  | .load => loadSize xlen (funct3 inst) = none
  | .store => storeSize xlen (funct3 inst) = none
  | .jalr => funct3 inst ≠ 0
  | .amo => funct3 inst ≠ 2 ∧ ¬(funct3 inst = 3 ∧ xlen = .rv64)
  | .reg => opKnown xlen inst = false
  | .imm => (funct3 inst = 1 ∨ funct3 inst = 5) ∧ shiftKnown xlen inst = false
  | .imm32 => (funct3 inst = 1 ∨ funct3 inst = 5) ∧ (xlen = .rv64 → wordShiftKnown inst = false)
  | _ => False

/-- A word that is no instruction: the disassembler prints it raw, or it is reserved. -/
def Unknown (xlen : Xlen) (pc : BitVec 64) (inst : BitVec 32) : Prop :=
  disasm pc inst xlen.bits = .word inst ∨ Reserved xlen inst

/-! ## Refusal -/

/-- The exception pc of the level the hart trapped to. -/
def CPU.epc (c : CPU) : BitVec 64 := if c.priv = PRIV_S then c.csr CSR_SEPC else c.csr CSR_MEPC

/-- The hart trapped with an illegal-instruction exception. -/
def CPU.TookIllegal (c : CPU) : Prop := c.trapped = true ∧ c.recorded.1 = 2

/-- The step entered the handler with an illegal-instruction exception at the pc it started from,
and did nothing else: registers, RAM and the pc are otherwise as they were. -/
structure Refused (m m' : Machine) : Prop where
  illegal : m'.cpu.TookIllegal
  epc : m'.cpu.epc = m.cpu.pc
  pc : m'.cpu.pc = m.cpu.trapVector CAUSE_ILLEGAL_INSN &&& ~~~3#64
  halted : m'.cpu.halted = m.cpu.halted
  regs : m'.cpu.regs = m.cpu.regs
  fregs : m'.cpu.fregs = m.cpu.fregs
  ram : m'.bus.mem.data = m.bus.mem.data

namespace Machine

variable {acc : AccessType}

/-- Translating `va` succeeds, and leaves RAM as `m` has it: no page-table entry was marked. -/
def Walks (m m' : Machine) (va : BitVec 64) (acc : AccessType) (ok : BitVec 64 → Prop) : Prop :=
  ∃ pa m1, m'.translate va acc = (.ok pa, m1) ∧ ok pa ∧ m1.bus.mem.data = m.bus.mem.data

/-- When a word that is no instruction is refused, for the machine `m` before the step and `m'` once
the word is fetched. -/
def Refuses (m m' : Machine) (inst : BitVec 32) : Prop :=
  let same := m'.bus.mem.data = m.bus.mem.data
  match opcode inst with
  | .jalr => False
  | .branch => False
  | .load => False
  | .store => False
  | .imm => False
  | .reg => False
  | .imm32 => same ∧ (m.xlen = .rv32 ∨ (funct3 inst ≠ 0 ∧ funct3 inst ≠ 1 ∧ funct3 inst ≠ 5))
  | .amo =>
    if amoExists m.xlen inst then
      m.regRead (rs1 inst) &&& amoMask inst = 0 ∧
      Walks m m' (m.regRead (rs1 inst)) .store fun pa => m.bus.mapped pa (amoSize inst) = true
    else same
  | .loadFp => Walks m m' (m.loadVa inst) .load fun _ => True
  | .storeFp => Walks m m' (m.storeVa inst) .store fun _ => True
  | _ => same

/-! ## Raising the exception -/

/-- A machine reached within the step that has not moved what a refusal speaks of. -/
structure Still (m m' : Machine) : Prop where
  vectors : m.cpu.SameVectors m'.cpu
  pc : m'.cpu.pc = m.cpu.pc
  halted : m'.cpu.halted = m.cpu.halted
  regs : m'.cpu.regs = m.cpu.regs
  fregs : m'.cpu.fregs = m.cpu.fregs
  untrapped : m'.cpu.trapped = false
  fault : m'.bus.mem.fault = false
  shape : m.bus.Shape m'.bus

variable {m m' m1 : Machine} {inst : BitVec 32}

theorem AtDispatch.still (h : AtDispatch m m') : Still m m' := by
  have hcpu := h.cpu
  refine ⟨⟨?_, ?_, h.csr _ (by decide), h.csr _ (by decide), h.csr _ (by decide)⟩, ?_, ?_, ?_, ?_, ?_, h.fault, h.shape⟩
  all_goals rw [hcpu]

theorem Still.translate (h : Still m m') {va : BitVec 64} {r : Except (BitVec 32) (BitVec 64)}
    (ht : m'.translate va acc = (r, m1)) : Still m m1 := by
  obtain ⟨t, hcpu⟩ := (sameFetch_translate ht).cpu
  refine ⟨h.vectors.trans (sameVectors_translate ht), ?_, ?_, ?_, ?_, ?_, translate_fault h.fault ht,
    h.shape.trans (translate_frame h.fault ht).shape⟩
  · rw [hcpu]
    exact h.pc
  · rw [hcpu]
    exact h.halted
  · rw [hcpu]
    exact h.regs
  · rw [hcpu]
    exact h.fregs
  · rw [hcpu]
    exact h.untrapped

theorem Still.cacheAccess (h : Still m m') (pa : BitVec 64) (w : Bool) : Still m (m'.cacheAccess pa w) :=
  ⟨h.vectors, h.pc, h.halted, h.regs, h.fregs, h.untrapped, h.fault, h.shape⟩

theorem Still.breakReservation (h : Still m m') (pa : BitVec 64) : Still m (m'.breakReservation pa) := by
  obtain ⟨r, hcpu⟩ := m'.cpu_breakReservation pa
  refine ⟨h.vectors.trans (sameVectors_breakReservation m' pa), ?_, ?_, ?_, ?_, ?_, ?_, ?_⟩
  · rw [hcpu]
    exact h.pc
  · rw [hcpu]
    exact h.halted
  · rw [hcpu]
    exact h.regs
  · rw [hcpu]
    exact h.fregs
  · rw [hcpu]
    exact h.untrapped
  · rw [bus_breakReservation]
    exact h.fault
  · rw [bus_breakReservation]
    exact h.shape

theorem Still.setBus (h : Still m m') {b : Bus} (hb : b.mem.fault = false) (hshape : m'.bus.Shape b) :
    Still m (m'.setBus b) :=
  ⟨h.vectors, h.pc, h.halted, h.regs, h.fregs, h.untrapped, hb, h.shape.trans hshape⟩

theorem Still.mapped (h : Still m m') (pa : BitVec 64) (n : Nat) : m'.bus.mapped pa n = m.bus.mapped pa n := by
  unfold Bus.mapped Bus.isDevice Memory.translate
  rw [h.shape.plat, h.shape.base, h.shape.size]

theorem Still.xlen (h : Still m m') : m'.xlen = m.xlen := h.vectors.xlen

theorem Still.regRead (h : Still m m') (i : BitVec 5) : m'.regRead i = m.regRead i := by
  unfold Machine.regRead CPU.regRead
  rw [h.regs]

theorem Still.translation (h : Still m m') : m'.translation inst = m.translation inst := by
  unfold Machine.translation loadVa storeVa
  rw [h.xlen, h.regRead]

theorem epc_enterTrap (c : CPU) (cause tval : BitVec 64) (toS : Bool) : (c.enterTrap cause tval toS).epc = c.pc := by
  unfold CPU.epc
  cases toS with
  | false =>
    have hp : (c.enterTrap cause tval false).priv = PRIV_M := rfl
    rw [hp, if_neg (by decide), CPU.enterTrap_csr_M]
    rfl
  | true =>
    have hp : (c.enterTrap cause tval true).priv = PRIV_S := rfl
    rw [hp, if_pos rfl, CPU.enterTrap_csr_S]
    rfl

/-- An exception enters the handler at the base of its vector. -/
theorem pc_enterTrap (c : CPU) (tval : BitVec 64) :
    (c.enterTrap (CAUSE_ILLEGAL_INSN.setWidth 64) tval (c.trapToS CAUSE_ILLEGAL_INSN)).pc =
      c.trapVector CAUSE_ILLEGAL_INSN &&& ~~~3#64 := by
  have hpc : ∀ tvec, CPU.trapPc c.xlen tvec (CAUSE_ILLEGAL_INSN.setWidth 64) = tvec &&& ~~~3#64 := by
    intro tvec
    have hint : (CAUSE_ILLEGAL_INSN.setWidth 64) &&& causeInterrupt c.xlen = 0 := by
      cases c.xlen <;> decide
    unfold CPU.trapPc
    dsimp only
    exact if_neg fun h => h.1 hint
  unfold CPU.trapVector
  cases c.trapToS CAUSE_ILLEGAL_INSN with
  | false => rw [CPU.enterTrap_pc_M, hpc, if_neg (by decide)]
  | true => rw [CPU.enterTrap_pc_S, hpc, if_pos rfl]

theorem sameVectors_trapVector {c c' : CPU} (h : c.SameVectors c') (cause : BitVec 32) :
    c'.trapVector cause = c.trapVector cause := by
  unfold CPU.trapVector CPU.trapToS
  rw [h.priv, h.medeleg, h.stvec, h.mtvec]

/-- An illegal-instruction exception raised with nothing moved is a refusal, RAM aside. -/
theorem refused_illegal_iff (h : Still m m1) (hh : m.cpu.handlerInstalled CAUSE_ILLEGAL_INSN = true)
    (next : BitVec 64) :
    Refused m ((m1.illegal inst).commit inst next) ↔ m1.bus.mem.data = m.bus.mem.data := by
  have hvec := sameVectors_trapVector h.vectors CAUSE_ILLEGAL_INSN
  have hh1 : m1.cpu.handlerInstalled CAUSE_ILLEGAL_INSN = true := by
    unfold CPU.handlerInstalled
    rw [hvec]
    exact hh
  have hill : m1.illegal inst = m1.setCpu (m1.cpu.enterTrap (CAUSE_ILLEGAL_INSN.setWidth 64) (inst.setWidth 64)
      (m1.cpu.trapToS CAUSE_ILLEGAL_INSN)) := by
    unfold illegal raiseTrap
    rw [if_pos hh1]
  have hcommit : (m1.illegal inst).commit inst next = m1.illegal inst := by
    unfold commit
    rw [hill, bus_setCpu, cpu_setCpu, h.fault, if_neg (by decide), if_pos (enterTrap_trapped ..)]
  rw [hcommit, hill]
  constructor
  · intro hr
    exact hr.ram
  · intro hram
    refine ⟨?_, ?_, ?_, ?_, ?_, ?_, hram⟩
    all_goals rw [cpu_setCpu]
    · exact ⟨enterTrap_trapped .., by rw [CPU.recorded_enterTrap]; rfl⟩
    · rw [epc_enterTrap, h.pc]
    · rw [pc_enterTrap, hvec]
    · rw [CPU.enterTrap_halted, h.halted]
    · rw [CPU.enterTrap_regs, h.regs]
    · rw [CPU.enterTrap_fregs, h.fregs]

/-! ## Steps that end otherwise -/

/-- The exceptions an executor raises in place of the refusal. -/
def otherCauses : List (BitVec 32) :=
  [CAUSE_INSN_MISALIGNED, CAUSE_LOAD_MISALIGNED, CAUSE_LOAD_ACCESS, CAUSE_STORE_MISALIGNED, CAUSE_STORE_ACCESS,
    pfCause .fetch, pfCause .load, pfCause .store]

/-- Another exception is not an illegal-instruction one, whether or not it has a handler. -/
theorem not_tookIllegal_raiseTrap (h : ¬m.cpu.TookIllegal) {cause : BitVec 32} (hc : cause ∈ otherCauses)
    (tval : BitVec 64) : ¬(m.raiseTrap cause tval).cpu.TookIllegal := by
  have hall : otherCauses.all fun c => c.setWidth 64 != 2#64 && c != CAUSE_ECALL_S && c != CAUSE_ECALL_U &&
      c != CAUSE_ECALL_M := by
    decide
  have hcause := List.all_eq_true.mp hall cause hc
  simp only [Bool.and_eq_true, bne_iff_ne] at hcause
  obtain ⟨⟨⟨hne, hs⟩, hu⟩, hmm⟩ := hcause
  unfold raiseTrap
  split
  · rw [cpu_setCpu]
    rintro ⟨_, hrec⟩
    rw [CPU.recorded_enterTrap] at hrec
    exact hne hrec
  · -- Without a handler the hart stops, and records nothing.
    unfold legacyTrap
    rw [if_neg hs, if_neg (by rintro (h | h); exacts [hu h, hmm h])]
    split
    · rw [cpu_setCpu]
      exact h
    split
    · rw [cpu_setCpu]
      exact h
    · rw [cpu_setCpu]
      exact h

theorem accessCause_mem (inst : BitVec 32) : accessCause inst ∈ otherCauses := by
  unfold accessCause
  split <;> decide

/-- The commit tail raises no illegal-instruction exception. -/
theorem not_tookIllegal_commit (h : ¬m.cpu.TookIllegal) (inst : BitVec 32) (next : BitVec 64) :
    ¬(m.commit inst next).cpu.TookIllegal := by
  unfold commit
  split
  · exact not_tookIllegal_raiseTrap h (accessCause_mem inst) _
  split
  · exact h
  split
  · exact h
  split
  · exact not_tookIllegal_raiseTrap h (by decide) _
  · rw [cpu_setCpu]
    exact h

theorem not_tookIllegal_of_untrapped {c : CPU} (h : c.trapped = false) : ¬c.TookIllegal := by
  rintro ⟨ht, _⟩
  rw [h] at ht
  cases ht

/-- A result written to a register, or a jump, retires or traps otherwise. -/
theorem not_refused_regWrite (h : m1.cpu.trapped = false) (i : BitVec 5) (v next : BitVec 64) :
    ¬Refused m ((m1.regWrite i v).commit inst next) := by
  intro hr
  refine not_tookIllegal_commit (not_tookIllegal_of_untrapped ?_) inst next hr.illegal
  unfold regWrite CPU.regWrite
  rw [cpu_setCpu]
  split
  · exact h
  · exact h

/-- A page fault takes the place of the refusal. -/
theorem not_refused_pageFault (hs : Still m m') {va : BitVec 64} {cause : BitVec 32}
    (ht : m'.translate va acc = (.error cause, m1)) (tval next : BitVec 64) :
    ¬Refused m ((m1.raiseTrap cause tval).commit inst next) := by
  intro hr
  have hcause : cause ∈ otherCauses := by
    rw [translate_error ht]
    cases acc <;> decide
  exact not_tookIllegal_commit (not_tookIllegal_raiseTrap
    (not_tookIllegal_of_untrapped (hs.translate ht).untrapped) hcause tval) inst next hr.illegal

/-! ## The memory instructions -/

/-- A memory instruction is refused when its address translates and its access is. -/
theorem refused_translated_iff (hs : Still m m') {va next : BitVec 64} {P : BitVec 64 → Prop}
    (htr : m.translation inst = some (va, acc))
    (hok : ∀ pa m1, m'.translate va acc = (.ok pa, m1) →
      (Refused m ((m1.accessAt inst pa).commit inst next) ↔ P pa ∧ m1.bus.mem.data = m.bus.mem.data))
    (ilen : BitVec 32) : Refused m ((m'.dispatch inst ilen).1.commit inst next) ↔ Walks m m' va acc P := by
  unfold Walks
  cases ht : m'.translate va acc with
  | mk r m1 =>
    rw [dispatch_translated (hs.translation.trans htr) ht]
    cases r with
    | error cause =>
      refine iff_of_false (not_refused_pageFault hs ht _ next) ?_
      rintro ⟨pa, m2, heq, _⟩
      cases heq
    | ok pa =>
      refine (hok pa m1 ht).trans ?_
      constructor
      · rintro ⟨hpa, hram⟩
        exact ⟨pa, m1, rfl, hpa, hram⟩
      · rintro ⟨pa', m2, heq, hpa, hram⟩
        cases heq
        exact ⟨hpa, hram⟩

/-- A LOAD and a STORE are never refused: without a width they write 0, or nothing. -/
theorem not_refused_access (hs : Still m m') (hop : opcode inst = .load ∨ opcode inst = .store) {va next : BitVec 64}
    (htr : m.translation inst = some (va, acc)) (ilen : BitVec 32) :
    ¬Refused m ((m'.dispatch inst ilen).1.commit inst next) := by
  rw [refused_translated_iff (P := fun _ => False) hs htr (fun pa m1 ht => ?_) ilen]
  · rintro ⟨_, _, _, h, _⟩
    exact h
  have hs1 := hs.translate ht
  rw [false_and, iff_false]
  unfold accessAt
  rcases hop with hop | hop <;> rw [hop] <;> dsimp only
  · have h1 : ∀ b, ((m1.cacheAccess pa false).setBus b).cpu.trapped = false := fun _ => hs1.untrapped
    exact not_refused_regWrite (h1 _) _ _ next
  · have h1 : ∀ b, (((m1.breakReservation pa).cacheAccess pa true).setBus b).cpu.trapped = false :=
      fun _ => (hs1.breakReservation pa).untrapped
    exact fun hr => not_tookIllegal_commit (not_tookIllegal_of_untrapped (h1 _)) inst next hr.illegal

/-- The FP loads and stores look at their width after the address. -/
theorem refused_fpAccess_iff (hs : Still m m') (hh : m.cpu.handlerInstalled CAUSE_ILLEGAL_INSN = true)
    (hop : opcode inst = .loadFp ∨ opcode inst = .storeFp) (h3 : funct3 inst ≠ 2 ∧ funct3 inst ≠ 3)
    {va next : BitVec 64} (htr : m.translation inst = some (va, acc)) (ilen : BitVec 32) :
    Refused m ((m'.dispatch inst ilen).1.commit inst next) ↔ Walks m m' va acc fun _ => True := by
  refine refused_translated_iff hs htr (fun pa m1 ht => ?_) ilen
  have hs1 := hs.translate ht
  have hill : ∃ m2, m1.accessAt inst pa = m2.illegal inst ∧ Still m m2 ∧ m2.bus = m1.bus := by
    unfold accessAt
    rcases hop with hop | hop <;> rw [hop] <;> dsimp only
    · refine ⟨m1.cacheAccess pa false, ?_, hs1.cacheAccess pa false, rfl⟩
      split
      · exact absurd ‹_› h3.1
      · exact absurd ‹_› h3.2
      · rfl
    · refine ⟨(m1.breakReservation pa).cacheAccess pa true, ?_, (hs1.breakReservation pa).cacheAccess pa true,
        bus_breakReservation ..⟩
      split
      · exact absurd ‹_› h3.1
      · exact absurd ‹_› h3.2
      · rfl
  obtain ⟨m2, he, hs2, hb⟩ := hill
  rw [he, refused_illegal_iff hs2 hh, hb, true_and]

/-- A reserved funct5 combines nothing. -/
theorem amoResult_reserved (h : Disasm.amoName (funct5 inst) = none) (wide : Bool) (old v : BitVec 64) :
    amoResult inst wide old v = none := by
  have hop : ∀ {w : Nat} (a b : BitVec w), amoOp (funct5 inst) a b = none := by
    intro w a b
    unfold Disasm.amoName at h
    unfold amoOp
    split at h <;> simp_all
  unfold amoResult
  rw [hop, hop]
  split <;> rfl

theorem data_amoRead (b : Bus) (wide : Bool) (pa : BitVec 64) : (amoRead b wide pa).2.mem.data = b.mem.data := by
  unfold amoRead
  split
  · exact memRead_data b pa 8
  · exact memRead_data b pa 4

theorem fault_amoRead {b : Bus} (hf : b.mem.fault = false) (inst : BitVec 32) (pa : BitVec 64) :
    (amoRead b (amoWide inst) pa).2.mem.fault = !b.mapped pa (amoSize inst) := by
  unfold amoRead amoSize
  split
  · exact memRead_fault hf pa 8
  · exact memRead_fault hf pa 4

/-- At its address a reserved funct5 is refused once the operand has been read. -/
theorem refused_amoAt_iff (hs : Still m m1) (hh : m.cpu.handlerInstalled CAUSE_ILLEGAL_INSN = true)
    (h5 : funct5 inst ≠ 0x02#5) (hn : Disasm.amoName (funct5 inst) = none) (pa next : BitVec 64) :
    Refused m ((m1.execAmoAt inst (amoWide inst) pa).commit inst next) ↔
      m.bus.mapped pa (amoSize inst) = true ∧ m1.bus.mem.data = m.bus.mem.data := by
  have hsc : funct5 inst ≠ 0x03#5 := by
    intro h
    rw [h] at hn
    cases hn
  have hfault := fault_amoRead hs.fault inst pa
  rw [hs.mapped] at hfault
  have hdata := data_amoRead m1.bus (amoWide inst) pa
  have hshape := amoRead_shape m1.bus (amoWide inst) pa
  unfold execAmoAt
  rw [if_neg h5, if_neg hsc]
  unfold execAmoOp
  dsimp only
  rw [bus_setBus, amoResult_reserved hn]
  dsimp only
  cases hm : m.bus.mapped pa (amoSize inst) with
  | false =>
    rw [hm, Bool.not_false] at hfault
    rw [if_pos hfault]
    refine iff_of_false (fun hr => ?_) (by rintro ⟨h, _⟩; cases h)
    refine not_tookIllegal_commit (not_tookIllegal_of_untrapped ?_) inst next hr.illegal
    exact hs.untrapped
  | true =>
    rw [hm, Bool.not_true] at hfault
    rw [if_neg (by rw [hfault]; decide), refused_illegal_iff (hs.setBus hfault hshape) hh, bus_setBus, hdata]
    exact (and_iff_right rfl).symm

theorem refused_amo_iff (hs : Still m m') (hh : m.cpu.handlerInstalled CAUSE_ILLEGAL_INSN = true)
    (hop : opcode inst = .amo)
    (h : amoExists m.xlen inst = true → funct5 inst ≠ 0x02#5 ∧ Disasm.amoName (funct5 inst) = none)
    (ilen : BitVec 32) (next : BitVec 64) :
    Refused m ((m'.dispatch inst ilen).1.commit inst next) ↔
      if amoExists m.xlen inst then
        m.regRead (rs1 inst) &&& amoMask inst = 0 ∧
        Walks m m' (m.regRead (rs1 inst)) .store fun pa => m.bus.mapped pa (amoSize inst) = true
      else m'.bus.mem.data = m.bus.mem.data := by
  have hdisp : (m'.dispatch inst ilen).1 = m'.execAmo inst := by
    unfold dispatch
    rw [hop]
  cases hex : amoExists m.xlen inst with
  | false =>
    rw [hdisp, execAmo, hs.xlen, hex, if_pos (by decide), if_neg (by decide)]
    exact refused_illegal_iff hs hh next
  | true =>
    obtain ⟨h5, hn⟩ := h hex
    rw [if_pos rfl]
    by_cases hal : m.regRead (rs1 inst) &&& amoMask inst = 0
    · rw [and_iff_right hal]
      refine refused_translated_iff hs ?_ (fun pa m1 ht => ?_) ilen
      · unfold translation
        rw [hop]
        dsimp only
        rw [hex, if_neg (by decide), if_neg (not_not.mpr hal), amoAccess, if_neg h5]
      · unfold accessAt
        rw [hop]
        dsimp only
        rw [refused_amoAt_iff ((hs.translate ht).cacheAccess pa true) hh h5 hn, bus_cacheAccess]
    · rw [hdisp, execAmo, hs.xlen, hs.regRead, hex, if_neg (by decide), if_pos hal]
      refine iff_of_false (fun hr => ?_) fun ha => hal ha.1
      have hcause : amoMisaligned inst ∈ otherCauses := by
        rw [amoMisaligned, if_neg h5]
        decide
      exact not_tookIllegal_commit (not_tookIllegal_raiseTrap
        (not_tookIllegal_of_untrapped hs.untrapped) hcause _) inst next hr.illegal

/-! ## The executors that always refuse -/

theorem fpResult_unknown (h : funct5 inst ∉ Disasm.fpKnown) (c : CPU) (wide : Bool) :
    fpResult c inst wide = .illegal := by
  unfold fpResult
  dsimp only
  split
  case h_14 => rfl
  all_goals
    next h5 =>
    rw [h5] at h
    exact absurd (by decide) h

theorem execFp_unknown (h : funct5 inst ∉ Disasm.fpKnown) : m.execFp inst = m.illegal inst := by
  unfold execFp
  split
  · rfl
  · dsimp only
    rw [fpResult_unknown h]

theorem execSystem_unknown
    (h : (funct3 inst = 0#3 ∧ funct7 inst ≠ 0x09#7 ∧ csrField inst ∉ Disasm.systemKnown) ∨ funct3 inst = 4#3) :
    (m.execSystem inst).1 = m.illegal inst := by
  unfold execSystem
  obtain ⟨h0, h7, h12⟩ | h4 := h
  · rw [if_pos h0, if_neg h7]
    split
    case h_6 => rfl
    all_goals
      next hf =>
      rw [hf] at h12
      exact absurd (by decide) h12
  · rw [if_neg (by rw [h4]; decide), if_pos h4]
    rfl

/-- What the disassembler does not know among the word operations has no result. -/
theorem op32Result_unknown (hop : opcode inst = .reg32) (hb : Disasm.disasmBitmanip inst = none)
    (h : Disasm.disasmReg32 inst = .word inst) (xlen : Xlen) (a b : BitVec 64) : op32Result xlen inst a b = none := by
  unfold op32Result
  split
  · rfl
  obtain ⟨h7, hw⟩ | ⟨h7, h0, h1, h5⟩ := Disasm.disasmReg32_word h
  · rw [if_pos h7]
    have hm : muldivw inst (lo32 a) (lo32 b) = none := by
      unfold Disasm.mulWordName at hw
      unfold muldivw
      split at hw <;> simp_all
    rw [hm]
    rfl
  · rw [if_neg h7]
    have hbm : bitmanipOp32 inst a b = none := by
      unfold Disasm.disasmBitmanip Disasm.bitmanipReg32Name at hb
      rw [hop] at hb
      unfold bitmanipOp32
      dsimp only at hb ⊢
      split
      case h_2 => split <;> simp_all
      all_goals simp_all
    have hop32 : op32 inst (lo32 a) (lo32 b) = none := by
      unfold op32
      dsimp only
      split
      · exact absurd ‹_› h0
      · exact absurd ‹_› h1
      · exact absurd ‹_› h5
      · rfl
    rw [hbm, hop32]
    rfl

theorem opImm32_eq_none_iff (a : BitVec 32) :
    opImm32 inst a = none ↔ funct3 inst ≠ 0#3 ∧ funct3 inst ≠ 1#3 ∧ funct3 inst ≠ 5#3 := by
  unfold opImm32
  dsimp only
  split <;> simp_all

theorem opImm32Result_eq_none_iff (xlen : Xlen) (a : BitVec 64) :
    opImm32Result xlen inst a = none ↔
      xlen = .rv32 ∨ (funct3 inst ≠ 0#3 ∧ funct3 inst ≠ 1#3 ∧ funct3 inst ≠ 5#3) := by
  unfold opImm32Result
  cases xlen with
  | rv32 => exact iff_of_true (if_pos (by decide)) (Or.inl rfl)
  | rv64 =>
    rw [if_neg (by decide), ← opImm32_eq_none_iff (lo32 a)]
    constructor
    · intro hn
      split at hn
      · cases hn
      · exact Or.inr (Option.map_eq_none_iff.mp hn)
    · rintro (h | hn)
      · cases h
      have hb : bitmanipImm32 inst a = none := by
        obtain ⟨_, h1, h5⟩ := (opImm32_eq_none_iff _).mp hn
        unfold bitmanipImm32
        split
        · exact absurd ‹_› h1
        · exact absurd ‹_› h5
        · rfl
      rw [hb, hn]
      rfl

/-! ## A step at a word that is no instruction -/

/-- The opcodes are those of 32-bit encodings. -/
theorem opcode_low_bits (h : opcode inst ≠ .other) : inst &&& 3 = 3 := by
  have hand : inst &&& 3#32 = ((inst.extractLsb' 0 7) &&& 3#7).setWidth 32 := by
    apply BitVec.eq_of_toNat_eq
    have hmod : ∀ n : Nat, n &&& 3 = n % 4 := fun n => Nat.and_two_pow_sub_one_eq_mod n 2
    simp only [BitVec.toNat_and, BitVec.toNat_setWidth, BitVec.extractLsb'_toNat, BitVec.toNat_ofNat,
      Nat.shiftRight_zero]
    rw [hmod, hmod]
    omega
  have h3 : inst &&& 3 = inst &&& 3#32 := rfl
  unfold opcode at h
  rw [h3, hand]
  split at h
  case h_22 => exact absurd rfl h
  all_goals
    next hlow =>
    rw [hlow]
    rfl

theorem disasmWord_of_unknown {xlen : Xlen} {pc : BitVec 64} (h : Unknown xlen pc inst) (ho : opcode inst ≠ .other) :
    Disasm.disasmWord pc inst xlen.bits = .word inst ∨ Reserved xlen inst := by
  rw [← disasm_word (opcode_low_bits ho)]
  exact h

theorem refused_writeOrIllegal_iff (hs : Still m m') (hh : m.cpu.handlerInstalled CAUSE_ILLEGAL_INSN = true)
    (o : Option (BitVec 64)) (next : BitVec 64) :
    Refused m ((m'.writeOrIllegal inst o).commit inst next) ↔ m'.bus.mem.data = m.bus.mem.data ∧ o = none := by
  cases o with
  | none =>
    rw [and_iff_left rfl]
    exact refused_illegal_iff hs hh next
  | some r => exact iff_of_false (not_refused_regWrite hs.untrapped _ _ next) nofun

/-- The FP loads and stores have a name at two widths. -/
theorem fpName_none {f3 : BitVec 3} {w d : String}
    (h : (if f3 = 0x2 then some w else if f3 = 0x3 then some d else none) = none) : f3 ≠ 2 ∧ f3 ≠ 3 := by
  by_cases h2 : f3 = 2
  · rw [if_pos h2] at h
    cases h
  · refine ⟨h2, fun h3 => ?_⟩
    rw [if_neg h2, if_pos h3] at h
    cases h

theorem refused_execute_iff (hs : Still m m') (hh : m.cpu.handlerInstalled CAUSE_ILLEGAL_INSN = true)
    {pc : BitVec 64} (hu : Unknown m.xlen pc inst) (ilen : BitVec 32) :
    Refused m (m'.execute inst ilen) ↔ Refuses m m' inst := by
  have hw := @disasmWord_of_unknown inst m.xlen pc hu
  unfold execute Refuses
  unfold Disasm.disasmWord Reserved at hw
  dsimp only at hw ⊢
  cases hop : opcode inst <;> rw [hop] at hw <;> dsimp only
  case load => exact iff_of_false (not_refused_access hs (.inl hop) (by unfold translation; rw [hop]) ilen) id
  case store => exact iff_of_false (not_refused_access hs (.inr hop) (by unfold translation; rw [hop]) ilen) id
  case loadFp =>
    obtain hr | hr := hw nofun
    · exact refused_fpAccess_iff hs hh (.inl hop) (fpName_none (Disasm.memOr_word hr)) (by unfold translation; rw [hop]) ilen
    · exact hr.elim
  case storeFp =>
    obtain hr | hr := hw nofun
    · exact refused_fpAccess_iff hs hh (.inr hop) (fpName_none (Disasm.memOr_word hr)) (by unfold translation; rw [hop]) ilen
    · exact hr.elim
  case amo =>
    refine refused_amo_iff hs hh hop (fun hex => ?_) ilen _
    unfold amoExists amoWide at hex
    simp only [Bool.or_eq_true, decide_eq_true_eq, Bool.and_eq_true] at hex
    obtain hr | ⟨h2, h3⟩ := hw nofun
    · obtain ⟨h2, h3⟩ | h5 := Disasm.disasmAmo_word hr
      · obtain h | ⟨h, _⟩ := hex
        · exact absurd h h2
        · exact absurd h h3
      · exact h5
    · obtain h | h := hex
      · exact absurd h h2
      · exact absurd h h3
  all_goals
    unfold dispatch
    rw [hop]
    dsimp only
  case other => exact refused_illegal_iff hs hh _
  case jalr => exact iff_of_false (not_refused_regWrite hs.untrapped _ _ _) id
  case imm => exact iff_of_false (not_refused_regWrite hs.untrapped _ _ _) id
  case reg => exact iff_of_false (not_refused_regWrite hs.untrapped _ _ _) id
  case branch =>
    refine iff_of_false (fun hr => ?_) id
    exact not_tookIllegal_commit (not_tookIllegal_of_untrapped hs.untrapped) _ _ hr.illegal
  case imm32 =>
    unfold execOpImm32
    rw [refused_writeOrIllegal_iff hs hh, opImm32Result_eq_none_iff, hs.xlen]
    rfl
  case reg32 =>
    unfold execOp32
    obtain hr | hr := hw nofun
    · obtain ⟨hb, h32⟩ := Disasm.getD_word hr
      rw [refused_writeOrIllegal_iff hs hh, op32Result_unknown hop hb h32, and_iff_left rfl]
    · exact hr.elim
  case fp =>
    obtain hr | hr := hw nofun
    · rw [execFp_unknown (Disasm.disasmFp_word hr)]
      exact refused_illegal_iff hs hh _
    · exact hr.elim
  case system =>
    obtain hr | hr := hw nofun
    · rw [execSystem_unknown (Disasm.disasmSystem_word hr)]
      exact refused_illegal_iff hs hh _
    · exact hr.elim
  -- The other opcodes name an instruction whatever their fields.
  case jal =>
    obtain hr | hr := hw nofun
    · exact absurd hr (Disasm.disasmJal_ne_word pc inst inst)
    · exact hr.elim
  all_goals
    obtain hr | hr := hw nofun
    · simp at hr
    · exact hr.elim

end Machine

/-- A word that is no instruction is refused, by the handler installed for illegal instructions and
with nothing else moved, exactly when its opcode's executor looks at it: never for JALR, BRANCH,
LOAD, STORE, OP and OP-IMM, for OP-IMM-32 by its funct3, and for the atomics and the FP accesses when
no fault of their address comes first and no page-table entry is marked on the way. -/
theorem unknown_refused_iff (dc : Option DecodeCache) (m m' : Machine) (inst ilen : BitVec 32)
    (h : m.dispatching dc = some ((inst, ilen), m')) (hh : m.cpu.handlerInstalled CAUSE_ILLEGAL_INSN = true)
    (hu : Unknown m.xlen m.cpu.pc inst) :
    Refused m (m.step dc).2 ↔ Machine.Refuses m m' inst := by
  rw [Machine.step_of_dispatching h]
  exact Machine.refused_execute_iff (Machine.atDispatch_of_dispatching h).still hh hu ilen

namespace Machine

variable {m m' : Machine}

/-- A machine-mode hart fetches without translation. -/
theorem translate_fetch_machine (hp : m.cpu.priv = PRIV_M) (va : BitVec 64) :
    m.translate va .fetch = (.ok (vaOf m.cpu.xlen va), m) := by
  have heff : effPriv m.cpu .fetch = PRIV_M := by
    unfold effPriv
    rw [if_neg (fun h => h.1 rfl)]
    exact hp
  unfold translate mmuTranslate
  dsimp only
  rw [heff, if_pos rfl, setCpu_cpu]
  rfl

theorem data_fetchMiss_machine (hp : m.cpu.priv = PRIV_M) {loPa : BitVec 64} {f : Fetched}
    (h : m.fetchMiss loPa = (some f, m')) : m'.bus.mem.data = m.bus.mem.data := by
  have hlo : (memRead16 m.bus loPa).2.mem.data = m.bus.mem.data := memRead_data m.bus loPa 2
  unfold fetchMiss at h
  dsimp only at h
  split at h
  · cases h
  split at h
  · split at h
    · cases h
    · cases h
      exact hlo
  · rw [translate_fetch_machine (by rwa [cpu_setBus])] at h
    dsimp only at h
    split at h
    · cases h
    · cases h
      exact (memRead_data _ _ 2).trans hlo

/-- So its fetch leaves RAM alone. -/
theorem data_fetch_machine (hp : m.cpu.priv = PRIV_M) {dc' : Option DecodeCache} {i : BitVec 32 × BitVec 32}
    (h : m.fetch none = (some i, dc', m')) : m'.bus.mem.data = m.bus.mem.data := by
  unfold fetch at h
  dsimp only at h
  rw [translate_fetch_machine hp] at h
  dsimp only [Option.bind_none] at h
  split at h
  · cases h
  · next hf =>
    cases h
    exact data_fetchMiss_machine hp hf

theorem data_dispatching_machine (hp : m.cpu.priv = PRIV_M) {i : BitVec 32 × BitVec 32}
    (h : m.dispatching none = some (i, m')) : m'.bus.mem.data = m.bus.mem.data := by
  unfold dispatching at h
  split at h
  · cases h
  · next m1 h1 =>
    obtain ⟨c, hc, rfl⟩ := preStep_untaken h1
    have hpc : ((m.setBus m.bus.clearFault).setCpu c).cpu.priv = PRIV_M := by
      rw [cpu_setCpu, hc.rest]
      exact hp
    split at h
    · next h2 =>
      cases h
      exact (data_fetch_machine hpc h2).trans rfl
    · cases h

end Machine

/-- The all-ones word, whose opcode is no one's. -/
theorem all_ones_refused :
    Unknown .rv64 0x80000008 0xffffffff ∧
    Refused (probeMachine 0xffffffff) ((probeMachine 0xffffffff).step none).2 := by
  have hw : Unknown .rv64 0x80000008 0xffffffff := Or.inl (by decide)
  have hx : (probeMachine 0xffffffff).xlen = .rv64 := by decide +kernel
  have hpc : (probeMachine 0xffffffff).cpu.pc = 0x80000008 := by decide +kernel
  have hd : ((probeMachine 0xffffffff).dispatching none).map Prod.fst = some (0xffffffff, 4) := by decide +kernel
  obtain ⟨⟨_, m'⟩, hm', rfl⟩ := Option.map_eq_some_iff.mp hd
  refine ⟨hw, (unknown_refused_iff none _ m' _ _ hm' (by decide +kernel) ?_).mpr ?_⟩
  · rw [hx, hpc]
    exact hw
  · exact Machine.data_dispatching_machine (by decide +kernel) hm'

/-- A branch with a reserved funct3, printed raw, retires as one that is not taken; and OP with a
reserved funct7 adds. -/
theorem reserved_executed :
    disasm 0x80000008 0x00002063 64 = .word 0x00002063 ∧
    (probeMachine 0x00002063).cpu.pc = 0x80000008 ∧
    (probeMachine 0x00002063).cpu.handlerInstalled CAUSE_ILLEGAL_INSN = true ∧
    ((probeMachine 0x00002063).step none).2.cpu.trapped = false ∧
    ((probeMachine 0x00002063).step none).2.cpu.pc = 0x8000000c ∧
    opcode 0xfe1080b3 = .reg ∧ opKnown .rv64 0xfe1080b3 = false ∧
    ((probeMachine 0xfe1080b3).step none).2.cpu.trapped = false ∧
    (probeMachine 0xfe1080b3).regRead 1 = 0x80000000 ∧
    ((probeMachine 0xfe1080b3).step none).2.regRead 1 = 0x100000000 := by
  decide +kernel

end Quanta
