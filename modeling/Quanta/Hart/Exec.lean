/-
The executors of `cpu.c` other than floating point: the integer rows, branches, loads and stores
with reservation breaking, atomics, Zicsr and SYSTEM. Each maps a machine to the next and raises
its own traps; the caller decides retirement from the `trapped`, `halted` and fault flags.
-/
import Quanta.Hart.See

namespace Quanta

/-! ## Results of the integer rows -/

/-- `exec_op_imm`'s result: the bit-manipulation row if it recognises the encoding, else the base
row. -/
def opImmResult (xlen : Xlen) (inst : BitVec 32) (a : BitVec 64) : BitVec 64 :=
  (bitmanipImm xlen inst a).getD (opImm xlen inst a)

/-- `exec_op`'s result: multiply/divide by funct7, then bit manipulation, then the base row. -/
def opResult (xlen : Xlen) (inst : BitVec 32) (a b : BitVec 64) : BitVec 64 :=
  if funct7 inst = 0x01#7 then muldiv xlen inst a b
  else (bitmanipOp xlen inst a b).getD (opReg xlen inst a b)

/-- `exec_op_imm32`'s result; `none` is illegal (always on RV32). -/
def opImm32Result (xlen : Xlen) (inst : BitVec 32) (a : BitVec 64) : Option (BitVec 64) :=
  if xlen ≠ .rv64 then none
  else
    match bitmanipImm32 inst a with
    | some r => some r
    | none => (opImm32 inst (lo32 a)).map sext

/-- `exec_op32`'s result; `none` is illegal (always on RV32). -/
def op32Result (xlen : Xlen) (inst : BitVec 32) (a b : BitVec 64) : Option (BitVec 64) :=
  if xlen ≠ .rv64 then none
  else if funct7 inst = 0x01#7 then (muldivw inst (lo32 a) (lo32 b)).map sext
  else
    match bitmanipOp32 inst a b with
    | some r => some r
    | none => (op32 inst (lo32 a) (lo32 b)).map sext

namespace Machine

/-- An illegal-instruction trap for `inst`. -/
def illegal (m : Machine) (inst : BitVec 32) : Machine :=
  m.raiseTrap CAUSE_ILLEGAL_INSN (inst.setWidth 64)

/-- Write the result to rd, or raise illegal-instruction when there is none. -/
def writeOrIllegal (m : Machine) (inst : BitVec 32) : Option (BitVec 64) → Machine
  | some r => m.regWrite (rd inst) r
  | none => m.illegal inst

def execOpImm (m : Machine) (inst : BitVec 32) : Machine :=
  m.regWrite (rd inst) (opImmResult m.xlen inst (m.regRead (rs1 inst)))

def execOp (m : Machine) (inst : BitVec 32) : Machine :=
  m.regWrite (rd inst) (opResult m.xlen inst (m.regRead (rs1 inst)) (m.regRead (rs2 inst)))

def execOpImm32 (m : Machine) (inst : BitVec 32) : Machine :=
  m.writeOrIllegal inst (opImm32Result m.xlen inst (m.regRead (rs1 inst)))

def execOp32 (m : Machine) (inst : BitVec 32) : Machine :=
  m.writeOrIllegal inst (op32Result m.xlen inst (m.regRead (rs1 inst)) (m.regRead (rs2 inst)))

/-- `exec_branch`: the next pc. -/
def execBranch (m : Machine) (inst : BitVec 32) (ilen : BitVec 64) : BitVec 64 :=
  if branchTaken inst (m.regRead (rs1 inst)) (m.regRead (rs2 inst)) then m.cpu.pc + sext (immB inst)
  else m.cpu.pc + ilen

/-! ## Loads and stores -/

/-- `mmu_translate` on the stepped hart, with the hart and bus it leaves. -/
def translate (m : Machine) (va : BitVec 64) (acc : AccessType) :
    Except (BitVec 32) (BitVec 64) × Machine :=
  let t := mmuTranslate m.cpu m.bus va acc
  (t.res, (m.setCpu t.cpu).setBus t.bus)

/-- One hart's part of `break_reservation`. -/
def breakOne (word : BitVec 64) (c : CPU) : CPU :=
  if c.reserveValid ∧ c.reserveAddr = word then { c with reserveValid := false } else c

/-- `break_reservation`: void the reservations on the stored word, on every hart under SMP. -/
def breakReservation (m : Machine) (addr : BitVec 64) : Machine :=
  let word := addr &&& ~~~3#64
  let plat := m.bus.plat
  if m.bus.mem.plat ∧ plat.harts ∧ 1 < plat.nharts then
    { m with harts := fun i => if i < plat.nharts then breakOne word (m.harts i) else m.harts i }
  else m.setCpu (breakOne word m.cpu)

/-- The value a LOAD reads at `pa`, extended as funct3 says; the reserved encodings (and the
RV64-only ones on RV32) read nothing and give 0. -/
def loadValue (xlen : Xlen) (f3 : BitVec 3) (b : Bus) (pa : BitVec 64) : BitVec 64 × Bus :=
  match f3 with
  | 0x0#3 => ((memRead8 b pa).1.signExtend 64, (memRead8 b pa).2)
  | 0x1#3 => ((memRead16 b pa).1.signExtend 64, (memRead16 b pa).2)
  | 0x2#3 => ((memRead32 b pa).1.signExtend 64, (memRead32 b pa).2)
  | 0x3#3 => if xlen = .rv64 then memRead64 b pa else (0, b)
  | 0x4#3 => ((memRead8 b pa).1.setWidth 64, (memRead8 b pa).2)
  | 0x5#3 => ((memRead16 b pa).1.setWidth 64, (memRead16 b pa).2)
  | 0x6#3 => if xlen = .rv64 then ((memRead32 b pa).1.setWidth 64, (memRead32 b pa).2) else (0, b)
  | _ => (0, b)

/-- What a STORE writes at `pa`; the reserved encodings write nothing. -/
def storeValue (xlen : Xlen) (f3 : BitVec 3) (b : Bus) (pa val : BitVec 64) : Bus :=
  match f3 with
  | 0x0#3 => memWrite8 b pa (val.setWidth 8)
  | 0x1#3 => memWrite16 b pa (val.setWidth 16)
  | 0x2#3 => memWrite32 b pa (val.setWidth 32)
  | 0x3#3 => if xlen = .rv64 then memWrite64 b pa val else b
  | _ => b

/-- The address a LOAD (or FP load) accesses. -/
def loadVa (m : Machine) (inst : BitVec 32) : BitVec 64 := m.regRead (rs1 inst) + sext (immI inst)

/-- The address a STORE (or FP store) accesses. -/
def storeVa (m : Machine) (inst : BitVec 32) : BitVec 64 := m.regRead (rs1 inst) + sext (immS inst)

/-- `exec_load`, with the physical address it reports through `pa_out`. -/
def execLoad (m : Machine) (inst : BitVec 32) : Machine × Option (BitVec 64) :=
  let va := m.loadVa inst
  match m.translate va .load with
  | (.error cause, m) => (m.raiseTrap cause va, none)
  | (.ok pa, m) =>
    let m := m.cacheAccess pa false
    let (result, b) := loadValue m.xlen (funct3 inst) m.bus pa
    ((m.setBus b).regWrite (rd inst) result, some pa)

/-- `exec_store`, with the physical address it reports through `pa_out`. -/
def execStore (m : Machine) (inst : BitVec 32) : Machine × Option (BitVec 64) :=
  let va := m.storeVa inst
  let val := m.regRead (rs2 inst)
  match m.translate va .store with
  | (.error cause, m) => (m.raiseTrap cause va, none)
  | (.ok pa, m) =>
    let m := (m.breakReservation pa).cacheAccess pa true
    (m.setBus (storeValue m.xlen (funct3 inst) m.bus pa val), some pa)

/-! ## Atomics -/

/-- The word (sign-extended) or doubleword an atomic reads. -/
def amoRead (b : Bus) (wide : Bool) (addr : BitVec 64) : BitVec 64 × Bus :=
  if wide then memRead64 b addr
  else ((memRead32 b addr).1.signExtend 64, (memRead32 b addr).2)

/-- The word or doubleword an atomic writes. -/
def amoWrite (b : Bus) (wide : Bool) (addr v : BitVec 64) : Bus :=
  if wide then memWrite64 b addr v else memWrite32 b addr (lo32 v)

/-- LR at a translated address; `wide` is the doubleword form. -/
def execLr (m : Machine) (inst : BitVec 32) (wide : Bool) (addr : BitVec 64) : Machine :=
  let r := amoRead m.bus wide addr
  let m := m.setBus r.2
  if m.bus.mem.fault then m
  else (m.setCpu { m.cpu with reserveValid := true, reserveAddr := addr }).regWrite (rd inst) r.1

/-- The end of SC: its own reservation is gone, and rd says whether it failed. -/
def scRelease (m : Machine) (inst : BitVec 32) (fail : BitVec 64) : Machine :=
  (m.setCpu { m.cpu with reserveValid := false }).regWrite (rd inst) fail

/-- Does SC at this address find its reservation held? -/
def scHeld (c : CPU) (addr : BitVec 64) : Bool := c.reserveValid && c.reserveAddr == addr

/-- SC at a translated address. -/
def execSc (m : Machine) (inst : BitVec 32) (wide : Bool) (addr : BitVec 64) : Machine :=
  if scHeld m.cpu addr then
    let m := m.setBus (amoWrite m.bus wide addr (m.regRead (rs2 inst)))
    if m.bus.mem.fault then m else (m.breakReservation addr).scRelease inst 0
  else m.scRelease inst 1

/-- What AMO* stores, from the old value; `none` is a reserved funct5. -/
def amoResult (inst : BitVec 32) (wide : Bool) (old v : BitVec 64) : Option (BitVec 64) :=
  if wide then amoOp (funct5 inst) old v
  else (amoOp (funct5 inst) (lo32 old) (lo32 v)).map (BitVec.setWidth 64)

/-- AMO* at a translated address: read, combine, write back, old value to rd. -/
def execAmoOp (m : Machine) (inst : BitVec 32) (wide : Bool) (addr : BitVec 64) : Machine :=
  let old := amoRead m.bus wide addr
  let v := m.regRead (rs2 inst)
  let m := m.setBus old.2
  if m.bus.mem.fault then m
  else
    match amoResult inst wide old.1 v with
    | none => m.illegal inst
    | some r =>
      let m := m.setBus (amoWrite m.bus wide addr r)
      if m.bus.mem.fault then m else (m.breakReservation addr).regWrite (rd inst) old.1

/-- The atomics by funct5, once the address is translated. -/
def execAmoAt (m : Machine) (inst : BitVec 32) (wide : Bool) (addr : BitVec 64) : Machine :=
  if funct5 inst = 0x02#5 then m.execLr inst wide addr
  else if funct5 inst = 0x03#5 then m.execSc inst wide addr
  else m.execAmoOp inst wide addr

/-- The doubleword form. -/
def amoWide (inst : BitVec 32) : Bool := funct3 inst = 0x3#3

/-- `.W` always exists, `.D` on RV64 only. -/
def amoExists (xlen : Xlen) (inst : BitVec 32) : Bool :=
  funct3 inst = 0x2#3 || (amoWide inst && xlen = .rv64)

/-- The address bits natural alignment needs clear. -/
def amoMask (inst : BitVec 32) : BitVec 64 := if amoWide inst then 7 else 3

def amoMisaligned (inst : BitVec 32) : BitVec 32 :=
  if funct5 inst = 0x02#5 then CAUSE_LOAD_MISALIGNED else CAUSE_STORE_MISALIGNED

/-- LR reads; SC and the AMOs write. -/
def amoAccess (inst : BitVec 32) : AccessType := if funct5 inst = 0x02#5 then .load else .store

def execAmo (m : Machine) (inst : BitVec 32) : Machine :=
  let va := m.regRead (rs1 inst)
  if !amoExists m.xlen inst then m.illegal inst
  else if va &&& amoMask inst ≠ 0 then m.raiseTrap (amoMisaligned inst) va
  else
    match m.translate va (amoAccess inst) with
    | (.error cause, m) => m.raiseTrap cause va
    | (.ok addr, m) => (m.cacheAccess addr true).execAmoAt inst (amoWide inst) addr

/-! ## Zicsr and SYSTEM -/

/-- The CSRs that exist on RV32 only. -/
def rv32OnlyCsr (addr : BitVec 12) : Bool :=
  addr == CSR_CYCLEH || addr == CSR_TIMEH || addr == CSR_INSTRETH || addr == CSR_MSTATUSH ||
  addr == CSR_MENVCFGH || addr == CSR_STIMECMPH

/-- Does the Zicsr instruction write its CSR? -/
def csrWrites (inst : BitVec 32) : Bool := (funct3 inst).setWidth 2 == 1#2 || rs1 inst != 0

/-- Does the Zicsr instruction read its CSR? -/
def csrReads (inst : BitVec 32) : Bool := (funct3 inst).setWidth 2 != 1#2 || rd inst != 0

/-- The access checks of `exec_csr`: privilege, read-only, RV32-only, and Sstc. -/
def csrDenied (c : CPU) (inst : BitVec 32) : Bool :=
  let addr := csrField inst
  c.priv.ult ((addr.extractLsb' 8 2).setWidth 32) ||
  (csrWrites inst && addr.extractLsb' 10 2 == 3#2) ||
  (c.xlen == .rv64 && rv32OnlyCsr addr) ||
  ((addr == CSR_STIMECMP || addr == CSR_STIMECMPH) && c.priv == PRIV_S && !c.stce)

/-- The source operand of a Zicsr instruction: rs1's value, or its field as an immediate. -/
def csrSrc (c : CPU) (inst : BitVec 32) : BitVec 64 :=
  if (funct3 inst).getLsbD 2 then (rs1 inst).setWidth 64 else c.regRead (rs1 inst)

/-- The value a Zicsr instruction writes, from the old one. -/
def csrNew (inst : BitVec 32) (old src : BitVec 64) : BitVec 64 :=
  match (funct3 inst).setWidth 2 with
  | 1#2 => src
  | 2#2 => old ||| src
  | _ => old &&& ~~~src

def execCsr (m : Machine) (inst : BitVec 32) : Machine :=
  let c := m.cpu
  let addr := csrField inst
  if csrDenied c inst then m.illegal inst
  else
    let old := if csrReads inst then c.csrRead m.bus addr else 0
    let c' := if csrWrites inst then c.csrWrite addr (csrNew inst old (csrSrc c inst)) else c
    m.setCpu (c'.regWrite (rd inst) old)

def execMret (m : Machine) : Machine × BitVec 64 :=
  let c := m.cpu
  if c.priv.ult PRIV_M then
    let m := m.raiseTrap CAUSE_ILLEGAL_INSN 0
    (m, m.cpu.pc)
  else
    let s := c.csr CSR_MSTATUS
    (m.setCpu { c.setCsr CSR_MSTATUS (CPU.popM s) with priv := mppOf s }, c.csr CSR_MEPC)

def execSret (m : Machine) : Machine × BitVec 64 :=
  let c := m.cpu
  if c.priv.ult PRIV_S then
    let m := m.raiseTrap CAUSE_ILLEGAL_INSN 0
    (m, m.cpu.pc)
  else
    let s := c.csr CSR_MSTATUS
    (m.setCpu { c.setCsr CSR_MSTATUS (CPU.popS s) with priv := CPU.sppOf s }, c.csr CSR_SEPC)

/-- The machine with `pc + 4` of its hart, which `exec_system` reads after the effect. -/
def thenPc4 (m : Machine) : Machine × BitVec 64 := (m, m.cpu.pc + 4)

/-- `exec_system`: the next pc is only used when no trap redirected it. -/
def execSystem (m : Machine) (inst : BitVec 32) : Machine × BitVec 64 :=
  if funct3 inst = 0x0#3 then
    if funct7 inst = 0x09#7 then
      if m.cpu.priv.ult PRIV_S then (m.illegal inst).thenPc4 else (m.setCpu m.cpu.mmuFlush).thenPc4
    else
      match csrField inst with
      | 0x000#12 => (m.raiseTrap (CAUSE_ECALL_U + m.cpu.priv) 0).thenPc4
      | 0x001#12 => (m.raiseTrap CAUSE_BREAKPOINT 0).thenPc4
      | 0x302#12 => m.execMret
      | 0x102#12 => m.execSret
      | 0x105#12 => m.thenPc4
      | _ => (m.illegal inst).thenPc4
  else if funct3 inst = 0x4#3 then (m.illegal inst).thenPc4
  else (m.execCsr inst).thenPc4

end Machine
end Quanta
