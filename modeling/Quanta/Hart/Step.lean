/-
`cpu_step`: the prologue, fetch with the optional decode cache, dispatch on the opcode, and the
commit tail. The decode cache is a component of its own beside the machine: `none` is the plain
interpreter.
-/
import Quanta.Hart.Fp

namespace Quanta

/-! ## The decode cache -/

structure DecodedInsn where
  gen : BitVec 64
  pa : BitVec 64
  inst : BitVec 32
  ilen : BitVec 32
  deriving DecidableEq, Repr

structure DecodeCache where
  gen : BitVec 64
  slots : BitVec 16 → DecodedInsn

/-- `dcache_new`: generation 1, every slot zeroed. -/
def dcacheNew : DecodeCache := ⟨1, fun _ => ⟨0, 0, 0, 0⟩⟩

/-- `DC_INDEX`. -/
def dcIndex (pa : BitVec 64) : BitVec 16 := (pa >>> 1).setWidth 16

def dcacheFlush (dc : Option DecodeCache) : Option DecodeCache :=
  dc.map fun d => { d with gen := d.gen + 1 }

/-- The live slot for a physical address, if there is one. -/
def DecodeCache.lookup (d : DecodeCache) (pa : BitVec 64) : Option DecodedInsn :=
  let s := d.slots (dcIndex pa)
  if s.gen = d.gen ∧ s.pa = pa then some s else none

def DecodeCache.fill (d : DecodeCache) (pa : BitVec 64) (inst ilen : BitVec 32) : DecodeCache :=
  { d with slots := Function.update d.slots (dcIndex pa) ⟨d.gen, pa, inst, ilen⟩ }

/-! ## Fetch -/

/-- A fetched instruction: its expanded word, its length in bytes, and whether a device window
supplied any of it. -/
structure Fetched where
  inst : BitVec 32
  ilen : BitVec 32
  device : Bool

namespace Machine

/-- The miss path of the fetch, from the translated address of the low halfword; `none` when a
trap was raised. -/
def fetchMiss (m : Machine) (loPa : BitVec 64) : Option Fetched × Machine :=
  let pc := m.cpu.pc
  let (lo, b) := memRead16 m.bus loPa
  let m := m.setBus b
  if b.mem.fault then (none, m.raiseTrap CAUSE_INSN_ACCESS pc)
  else if lo.setWidth 2 ≠ 3#2 then
    let inst := rvcExpand lo (m.xlen = .rv64)
    if inst = RVC_ILLEGAL then (none, m.raiseTrap CAUSE_ILLEGAL_INSN (lo.setWidth 64))
    else (some ⟨inst, 2, m.bus.isDevice loPa⟩, m)
  else
    match m.translate (pc + 2) .fetch with
    | (.error cause, m) => (none, m.raiseTrap cause (pc + 2))
    | (.ok hiPa, m) =>
      let (hi, b) := memRead16 m.bus hiPa
      let m := m.setBus b
      if b.mem.fault then (none, m.raiseTrap CAUSE_INSN_ACCESS (pc + 2))
      else (some ⟨lo.setWidth 32 ||| (hi.setWidth 32 <<< 16), 4, m.bus.isDevice loPa || m.bus.isDevice hiPa⟩, m)

/-- FETCH: translate the pc, then a decode-cache hit or the miss path with its fill. -/
def fetch (dc : Option DecodeCache) (m : Machine) :
    Option (BitVec 32 × BitVec 32) × Option DecodeCache × Machine :=
  let pc := m.cpu.pc
  match m.translate pc .fetch with
  | (.error cause, m) => (none, dc, m.raiseTrap cause pc)
  | (.ok loPa, m) =>
    match dc.bind (·.lookup loPa) with
    | some s => (some (s.inst, s.ilen), dc, m)
    | none =>
      match m.fetchMiss loPa with
      | (none, m) => (none, dc, m)
      | (some f, m) =>
        (some (f.inst, f.ilen), if f.device then dc else dc.map (·.fill loPa f.inst f.ilen), m)

/-! ## Dispatch and commit -/

/-- DECODE + EXECUTE: the machine after the executor and the next pc. -/
def dispatch (m : Machine) (inst ilen : BitVec 32) : Machine × BitVec 64 :=
  let pc := m.cpu.pc
  let next := pc + ilen.setWidth 64
  match opcode inst with
  | .imm => (m.execOpImm inst, next)
  | .imm32 => (m.execOpImm32 inst, next)
  | .reg => (m.execOp inst, next)
  | .reg32 => (m.execOp32 inst, next)
  | .lui => (m.regWrite (rd inst) (sext (immU inst)), next)
  | .auipc => (m.regWrite (rd inst) (pc + sext (immU inst)), next)
  | .jal => (m.regWrite (rd inst) next, pc + sext (immJ inst))
  | .jalr => (m.regWrite (rd inst) next, (m.regRead (rs1 inst) + sext (immI inst)) &&& ~~~1#64)
  | .branch => (m, m.execBranch inst (ilen.setWidth 64))
  | .load => ((m.execLoad inst).1, next)
  | .store => ((m.execStore inst).1, next)
  | .amo => (m.execAmo inst, next)
  | .loadFp => (m.execLoadFp inst, next)
  | .storeFp => (m.execStoreFp inst, next)
  | .fp => (m.execFp inst, next)
  | .madd => (m.execFmadd inst false false, next)
  | .msub => (m.execFmadd inst false true, next)
  | .nmsub => (m.execFmadd inst true false, next)
  | .nmadd => (m.execFmadd inst true true, next)
  | .fence => (m, next)
  | .system => m.execSystem inst
  | .other => (m.illegal inst, next)

/-- Is `inst` a FENCE.I? -/
def isFenceI (inst : BitVec 32) : Bool := opcode inst = .fence && funct3 inst = 0x1#3

/-- The access-fault cause of the commit tail, by opcode. -/
def accessCause (inst : BitVec 32) : BitVec 32 :=
  match opcode inst with
  | .store => CAUSE_STORE_ACCESS
  | .amo => CAUSE_STORE_ACCESS
  | .storeFp => CAUSE_STORE_ACCESS
  | _ => CAUSE_LOAD_ACCESS

/-- The commit tail of `cpu_step`. -/
def commit (m : Machine) (inst : BitVec 32) (nextPc : BitVec 64) : Machine :=
  if m.bus.mem.fault then m.raiseTrap (accessCause inst) m.bus.mem.faultAddr
  else if m.cpu.trapped then m
  else if m.cpu.halted then m
  else if nextPc.getLsbD 0 then m.raiseTrap CAUSE_INSN_MISALIGNED nextPc
  else m.setCpu { m.cpu with instret := m.cpu.instret + 1, pc := sextXlen m.xlen nextPc }

/-- Execute one fetched instruction and commit it. -/
def execute (m : Machine) (inst ilen : BitVec 32) : Machine :=
  let (m, nextPc) := m.dispatch inst ilen
  m.commit inst nextPc

/-- The flags `cpu_step` clears first. -/
def beginStep (m : Machine) : Machine :=
  (m.setBus m.bus.clearFault).setCpu { m.cpu with trapped := false }

/-- `cpu_pre_step` on the stepped hart. -/
def preStep (m : Machine) : Bool × Machine :=
  let (taken, c) := m.cpu.preStep m.bus
  (taken, m.setCpu c)

/-- `cpu_step` on hart `self`, with its decode cache if it has one. -/
def step (dc : Option DecodeCache) (m : Machine) : Option DecodeCache × Machine :=
  match m.beginStep.preStep with
  | (true, m) => (dc, m)
  | (false, m) =>
    match m.fetch dc with
    | (none, dc, m) => (dc, m)
    | (some (inst, ilen), dc, m) =>
      (if isFenceI inst then dcacheFlush dc else dc, m.execute inst ilen)

/-- `cpu_step` with no decode cache attached. -/
def cpuStep (m : Machine) : Machine := (m.step none).2

end Machine
end Quanta
