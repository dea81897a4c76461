/-
The state of `cpu.h`: a hart with its registers, CSRs, reservation and TLB, and the machine a
step acts on: the hart array, which hart is being stepped, the bus, the cache model and what the
core reports on the host's error stream. Machine integers are bit vectors; the pointer members of
`CPU` are the machine's own components, and `tlb_next` (unused in the source) is left out.
-/
import Quanta.Isa.Alu
import Quanta.Device.Frame
import Quanta.Machine.Cache

namespace Quanta

/-! ## The hart -/

/-- Privilege levels, encoded as the architecture numbers them. -/
def PRIV_U : BitVec 32 := 0
def PRIV_S : BitVec 32 := 1
def PRIV_M : BitVec 32 := 3

def MSTATUS_SIE : BitVec 64 := 1 <<< 1
def MSTATUS_MIE : BitVec 64 := 1 <<< 3
def MSTATUS_SPIE : BitVec 64 := 1 <<< 5
def MSTATUS_MPIE : BitVec 64 := 1 <<< 7
def MSTATUS_SPP : BitVec 64 := 1 <<< 8
def MSTATUS_MPP : BitVec 64 := 3 <<< 11
def MSTATUS_MPP_SHIFT : Nat := 11
def MSTATUS_FS : BitVec 64 := 3 <<< 13
def MSTATUS_MPRV : BitVec 64 := 1 <<< 17
def MSTATUS_SUM : BitVec 64 := 1 <<< 18
def MSTATUS_MXR : BitVec 64 := 1 <<< 19

def CAUSE_INSN_MISALIGNED : BitVec 32 := 0
def CAUSE_INSN_ACCESS : BitVec 32 := 1
def CAUSE_ILLEGAL_INSN : BitVec 32 := 2
def CAUSE_BREAKPOINT : BitVec 32 := 3
def CAUSE_LOAD_MISALIGNED : BitVec 32 := 4
def CAUSE_LOAD_ACCESS : BitVec 32 := 5
def CAUSE_STORE_MISALIGNED : BitVec 32 := 6
def CAUSE_STORE_ACCESS : BitVec 32 := 7
def CAUSE_ECALL_U : BitVec 32 := 8
def CAUSE_ECALL_S : BitVec 32 := 9
def CAUSE_ECALL_M : BitVec 32 := 11
def CAUSE_INSN_PAGE_FAULT : BitVec 32 := 12
def CAUSE_LOAD_PAGE_FAULT : BitVec 32 := 13
def CAUSE_STORE_PAGE_FAULT : BitVec 32 := 15

inductive AccessType
  | fetch | load | store
  deriving DecidableEq, Repr

structure TlbEntry where
  valid : Bool
  vpn : BitVec 64
  asid : BitVec 32
  ppn : BitVec 64
  pteFlags : BitVec 32
  deriving DecidableEq, Repr

def TlbEntry.empty : TlbEntry := ⟨false, 0, 0, 0, 0⟩

inductive HaltReason
  | none | exit | ebreak | illegalInsn | unimpSystem | unknownSyscall | memFault
  deriving DecidableEq, Repr

inductive HsmState
  | started | stopped | startPending | stopPending | suspended | suspendPending | resumePending
  deriving DecidableEq, Repr

/-- The SBI's number for a hart state. -/
def HsmState.code : HsmState → BitVec 32
  | .started => 0
  | .stopped => 1
  | .startPending => 2
  | .stopPending => 3
  | .suspended => 4
  | .suspendPending => 5
  | .resumePending => 6

structure CPU where
  regs : BitVec 5 → BitVec 64
  fregs : BitVec 5 → BitVec 64
  pc : BitVec 64
  xlen : Xlen
  hartid : BitVec 32
  halted : Bool
  haltReason : HaltReason
  exitCode : BitVec 32
  instret : BitVec 64
  priv : BitVec 32
  trapped : Bool
  sbiTimerArmed : Bool
  hsmState : HsmState
  reserveValid : Bool
  reserveAddr : BitVec 64
  tlb : BitVec 4 → TlbEntry
  csr : BitVec 12 → BitVec 64

/-- `sext_xlen`: sign-extend from bit XLEN-1. -/
def sextXlen (xlen : Xlen) (v : BitVec 64) : BitVec 64 :=
  match xlen with
  | .rv32 => sext (lo32 v)
  | .rv64 => v

/-- `cause_interrupt`: the top bit of XLEN. -/
def causeInterrupt (xlen : Xlen) : BitVec 64 := 1#64 <<< (xlen.bits - 1)

namespace CPU

variable (c : CPU)

def regRead (c : CPU) (i : BitVec 5) : BitVec 64 := if i = 0 then 0 else c.regs i

/-- `reg_write`: x0 stays zero, and the value is sign-extended to XLEN. -/
def regWrite (c : CPU) (i : BitVec 5) (value : BitVec 64) : CPU :=
  if i = 0 then c else { c with regs := Function.update c.regs i (sextXlen c.xlen value) }

def setCsr (c : CPU) (a : BitVec 12) (v : BitVec 64) : CPU :=
  { c with csr := Function.update c.csr a v }

/-- `mmu_flush`: invalidate every cached translation. -/
def mmuFlush (c : CPU) : CPU := { c with tlb := fun i => { c.tlb i with valid := false } }

def halt (c : CPU) (r : HaltReason) : CPU := { c with haltReason := r, halted := true }

/-- The `misa` value `cpu_init` programs: MXL and the extension letters. -/
def misa (xlen : Xlen) : BitVec 64 :=
  ((if xlen = .rv64 then 2#64 else 1#64) <<< (xlen.bits - 2)) |||
    (1#64 <<< 1 ||| 1#64 <<< 2 ||| 1#64 <<< 3 ||| 1#64 <<< 5 |||
     1#64 <<< 8 ||| 1#64 <<< 12 ||| 1#64 <<< 18 ||| 1#64 <<< 20)

/-- `cpu_init`. The TLB's stale payloads stay; every entry is invalid. -/
def init (tlb : BitVec 4 → TlbEntry) (entryPc : BitVec 64) (xlen : Xlen) : CPU where
  regs := fun _ => 0
  fregs := fun _ => 0
  pc := entryPc
  xlen := xlen
  hartid := 0
  halted := false
  haltReason := .none
  exitCode := 0
  instret := 0
  priv := PRIV_M
  trapped := false
  sbiTimerArmed := false
  hsmState := .started
  reserveValid := false
  reserveAddr := 0
  tlb := fun i => { tlb i with valid := false }
  csr := fun a => if a = CSR_MISA then misa xlen else 0

section
variable (c : CPU) (i : BitVec 5) (v : BitVec 64)

@[simp] theorem regWrite_pc : (c.regWrite i v).pc = c.pc := by unfold regWrite; split <;> rfl
@[simp] theorem regWrite_xlen : (c.regWrite i v).xlen = c.xlen := by unfold regWrite; split <;> rfl
@[simp] theorem regWrite_hartid : (c.regWrite i v).hartid = c.hartid := by unfold regWrite; split <;> rfl
@[simp] theorem regWrite_halted : (c.regWrite i v).halted = c.halted := by unfold regWrite; split <;> rfl
@[simp] theorem regWrite_instret : (c.regWrite i v).instret = c.instret := by unfold regWrite; split <;> rfl
@[simp] theorem regWrite_priv : (c.regWrite i v).priv = c.priv := by unfold regWrite; split <;> rfl
@[simp] theorem regWrite_trapped : (c.regWrite i v).trapped = c.trapped := by unfold regWrite; split <;> rfl
@[simp] theorem regWrite_hsmState : (c.regWrite i v).hsmState = c.hsmState := by unfold regWrite; split <;> rfl
@[simp] theorem regWrite_reserveValid : (c.regWrite i v).reserveValid = c.reserveValid := by unfold regWrite; split <;> rfl
@[simp] theorem regWrite_reserveAddr : (c.regWrite i v).reserveAddr = c.reserveAddr := by unfold regWrite; split <;> rfl
@[simp] theorem regWrite_tlb : (c.regWrite i v).tlb = c.tlb := by unfold regWrite; split <;> rfl
@[simp] theorem regWrite_csr : (c.regWrite i v).csr = c.csr := by unfold regWrite; split <;> rfl

end

theorem regWrite_regs (i j : BitVec 5) (v : BitVec 64) :
    (c.regWrite i v).regs j = if i ≠ 0 ∧ j = i then sextXlen c.xlen v else c.regs j := by
  unfold regWrite
  by_cases hi : i = 0
  · rw [if_pos hi, if_neg (fun h => h.1 hi)]
  · rw [if_neg hi]
    by_cases hj : j = i
    · rw [if_pos ⟨hi, hj⟩, hj]
      exact Function.update_self ..
    · rw [if_neg (fun h => hj h.2)]
      exact Function.update_of_ne hj ..

section
variable (c : CPU) (a : BitVec 12) (v : BitVec 64)

@[simp] theorem setCsr_regs : (c.setCsr a v).regs = c.regs := rfl
@[simp] theorem setCsr_pc : (c.setCsr a v).pc = c.pc := rfl
@[simp] theorem setCsr_xlen : (c.setCsr a v).xlen = c.xlen := rfl
@[simp] theorem setCsr_hartid : (c.setCsr a v).hartid = c.hartid := rfl
@[simp] theorem setCsr_instret : (c.setCsr a v).instret = c.instret := rfl
@[simp] theorem setCsr_priv : (c.setCsr a v).priv = c.priv := rfl
@[simp] theorem setCsr_trapped : (c.setCsr a v).trapped = c.trapped := rfl
@[simp] theorem setCsr_csr : (c.setCsr a v).csr a = v := Function.update_self ..

end

theorem setCsr_csr_ne {a a' : BitVec 12} (v : BitVec 64) (h : a' ≠ a) :
    (c.setCsr a v).csr a' = c.csr a' :=
  Function.update_of_ne h ..

@[simp] theorem mmuFlush_priv : c.mmuFlush.priv = c.priv := rfl
@[simp] theorem mmuFlush_trapped : c.mmuFlush.trapped = c.trapped := rfl
@[simp] theorem mmuFlush_instret : c.mmuFlush.instret = c.instret := rfl
@[simp] theorem mmuFlush_regs : c.mmuFlush.regs = c.regs := rfl
@[simp] theorem mmuFlush_pc : c.mmuFlush.pc = c.pc := rfl
@[simp] theorem mmuFlush_hartid : c.mmuFlush.hartid = c.hartid := rfl
@[simp] theorem mmuFlush_xlen : c.mmuFlush.xlen = c.xlen := rfl
@[simp] theorem mmuFlush_csr : c.mmuFlush.csr = c.csr := rfl

end CPU

/-! ## The machine -/

/-- A message on the host's error stream: `trap (cause %u) with no handler at pc=0x%08x`,
`syscall write: unsupported fd %u`, `unknown syscall %u (a7) at pc=0x%08x`, or a byte the guest
wrote to fd 2. -/
inductive Diag
  | noHandler (cause pc : BitVec 32)
  | unsupportedFd (fd : BitVec 32)
  | unknownSyscall (num pc : BitVec 32)
  | byte (b : Byte)
  deriving DecidableEq, Repr

/-- What a step of hart `self` reads and changes. -/
structure Machine where
  harts : Nat → CPU
  self : Nat
  bus : Bus
  cache : Option Cache
  err : List Diag

namespace Machine

variable (m : Machine) (c : CPU)

/-- The hart being stepped, the source's `cpu`. -/
def cpu (m : Machine) : CPU := m.harts m.self

def setHart (m : Machine) (i : Nat) (c : CPU) : Machine :=
  { m with harts := Function.update m.harts i c }

def setCpu (m : Machine) (c : CPU) : Machine := m.setHart m.self c

def setBus (m : Machine) (b : Bus) : Machine := { m with bus := b }

def diag (m : Machine) (d : Diag) : Machine := { m with err := m.err ++ [d] }

/-- Report a data access to the cache model, if one is attached. -/
def cacheAccess (m : Machine) (pa : BitVec 64) (isStore : Bool) : Machine :=
  { m with cache := m.cache.map (Quanta.cacheAccess · (lo32 pa) isStore) }

def regRead (m : Machine) (i : BitVec 5) : BitVec 64 := m.cpu.regRead i

def regWrite (m : Machine) (i : BitVec 5) (v : BitVec 64) : Machine := m.setCpu (m.cpu.regWrite i v)

def xlen (m : Machine) : Xlen := m.cpu.xlen

@[simp] theorem cpu_setCpu : (m.setCpu c).cpu = c := Function.update_self ..
@[simp] theorem bus_setCpu : (m.setCpu c).bus = m.bus := rfl
@[simp] theorem self_setCpu : (m.setCpu c).self = m.self := rfl
@[simp] theorem cpu_setBus (b : Bus) : (m.setBus b).cpu = m.cpu := rfl
@[simp] theorem bus_setBus (b : Bus) : (m.setBus b).bus = b := rfl
@[simp] theorem harts_setBus (b : Bus) : (m.setBus b).harts = m.harts := rfl
@[simp] theorem cpu_cacheAccess (pa : BitVec 64) (w : Bool) : (m.cacheAccess pa w).cpu = m.cpu := rfl
@[simp] theorem bus_cacheAccess (pa : BitVec 64) (w : Bool) : (m.cacheAccess pa w).bus = m.bus := rfl

@[simp] theorem setCpu_cpu : m.setCpu m.cpu = m := by
  unfold setCpu setHart cpu
  rw [Function.update_eq_self]

@[simp] theorem setCpu_setCpu (c c' : CPU) : (m.setCpu c).setCpu c' = m.setCpu c' := by
  simp [setCpu, setHart]

theorem harts_setHart_self (i : Nat) (c : CPU) : (m.setHart i c).harts i = c :=
  Function.update_self ..

theorem harts_setHart_of_ne {i j : Nat} (h : j ≠ i) :
    (m.setHart i c).harts j = m.harts j :=
  Function.update_of_ne h ..

theorem cpu_setHart_of_ne {i : Nat} (h : i ≠ m.self) : (m.setHart i c).cpu = m.cpu :=
  m.harts_setHart_of_ne c (Ne.symm h)

theorem harts_setCpu_of_ne {i : Nat} (h : i ≠ m.self) :
    (m.setCpu c).harts i = m.harts i :=
  Function.update_of_ne h ..

theorem harts_setCpu_self : (m.setCpu c).harts m.self = c := Function.update_self ..

end Machine
end Quanta
