/-
The built-in supervisor execution environment: the syscall layer (`syscall.c`), the SBI with its
hart state management (`sbi.c`), and `raise_trap`, which enters the guest's handler or, when none
is installed, falls back to them. These act on the machine: an SBI call reaches sibling harts and
the CLINT, a write syscall reads guest memory and prints.
-/
import Quanta.Hart.Trap

namespace Quanta

namespace Machine

/-! ## The system calls -/

def REG_A0 : BitVec 5 := 10
def REG_A1 : BitVec 5 := 11
def REG_A2 : BitVec 5 := 12
def REG_A6 : BitVec 5 := 16
def REG_A7 : BitVec 5 := 17

/-- One byte of `sys_write`: read it from guest memory and print it. -/
def sysWriteByte (fd buf : BitVec 32) (m : Machine) (i : Nat) : Machine :=
  let (v, b) := memRead8 m.bus ((buf + BitVec.ofNat 32 i).setWidth 64)
  let m := m.setBus b
  if fd = 2 then m.diag (.byte v) else m.setBus { m.bus with out := m.bus.out ++ [v] }

def sysWrite (m : Machine) : Machine :=
  let fd := lo32 (m.regRead REG_A0)
  let buf := lo32 (m.regRead REG_A1)
  let count := lo32 (m.regRead REG_A2)
  if fd ≠ 1 ∧ fd ≠ 2 then (m.diag (.unsupportedFd fd)).regWrite REG_A0 0xffffffff
  else
    let m := (List.range count.toNat).foldl (sysWriteByte fd buf) m
    m.regWrite REG_A0 (count.setWidth 64)

def sysExit (m : Machine) : Machine :=
  m.setCpu { m.cpu.halt .exit with exitCode := lo32 (m.regRead REG_A0) }

def syscallDispatch (m : Machine) : Machine :=
  let num := lo32 (m.regRead REG_A7)
  if num = 64 then m.sysWrite
  else if num = 93 ∨ num = 94 then m.sysExit
  else (m.diag (.unknownSyscall num (lo32 m.cpu.pc))).setCpu (m.cpu.halt .unknownSyscall)

/-! ## The SBI -/

def SBI_SUCCESS : BitVec 32 := 0
def SBI_ERR_FAILED : BitVec 32 := -1
def SBI_ERR_NOT_SUPPORTED : BitVec 32 := -2
def SBI_ERR_INVALID_PARAM : BitVec 32 := -3
def SBI_ERR_ALREADY_AVAILABLE : BitVec 32 := -6

def EXT_SET_TIMER : BitVec 32 := 0x00
def EXT_PUTCHAR : BitVec 32 := 0x01
def EXT_GETCHAR : BitVec 32 := 0x02
def EXT_SHUTDOWN : BitVec 32 := 0x08
def EXT_BASE : BitVec 32 := 0x10
def EXT_TIME : BitVec 32 := 0x54494D45
def EXT_SRST : BitVec 32 := 0x53525354
def EXT_HSM : BitVec 32 := 0x48534D

def SBI_SPEC_VERSION : BitVec 32 := 1 <<< 24
def SBI_IMPL_ID : BitVec 32 := 0x9
def QUANTA_VERSION_MAJOR : BitVec 32 := 0
def QUANTA_VERSION_MINOR : BitVec 32 := 2
def QUANTA_VERSION_PATCH : BitVec 32 := 0

/-- `sbi_return`: the (error, value) pair in a0 and a1. -/
def sbiReturn (m : Machine) (error value : BitVec 32) : Machine :=
  (m.regWrite REG_A0 (sext error)).regWrite REG_A1 (value.setWidth 64)

def sbiHalt (m : Machine) : Machine := m.setCpu { m.cpu.halt .exit with exitCode := 0 }

/-- `cpu_arm_supervisor_timer`: the CLINT comparator, then the hart's STIP and armed flag. -/
def armSupervisorTimer (m : Machine) (deadline : BitVec 64) : Machine :=
  let m :=
    if m.bus.mem.plat then
      let clint := m.bus.plat.clint
      let cmp := Function.update clint.mtimecmp m.cpu.hartid.toNat deadline
      m.setBus (m.bus.setPlat { m.bus.plat with clint := { clint with mtimecmp := cmp } })
    else m
  m.setCpu m.cpu.armTimer

def sbiSetTimer (m : Machine) (lo hi : BitVec 32) : Machine :=
  m.armSupervisorTimer ((hi.setWidth 64 <<< 32) ||| lo.setWidth 64)

def sbiProbe (eid : BitVec 32) : Bool :=
  eid = EXT_SET_TIMER || eid = EXT_PUTCHAR || eid = EXT_GETCHAR || eid = EXT_SHUTDOWN ||
  eid = EXT_BASE || eid = EXT_TIME || eid = EXT_SRST || eid = EXT_HSM

def sbiBase (m : Machine) (fid arg0 : BitVec 32) : Machine :=
  match fid.toNat with
  | 0 => m.sbiReturn SBI_SUCCESS SBI_SPEC_VERSION
  | 1 => m.sbiReturn SBI_SUCCESS SBI_IMPL_ID
  | 2 => m.sbiReturn SBI_SUCCESS
      ((QUANTA_VERSION_MAJOR <<< 16) ||| (QUANTA_VERSION_MINOR <<< 8) ||| QUANTA_VERSION_PATCH)
  | 3 => m.sbiReturn SBI_SUCCESS (if sbiProbe arg0 then 1 else 0)
  | 4 => m.sbiReturn SBI_SUCCESS 0
  | 5 => m.sbiReturn SBI_SUCCESS 0
  | 6 => m.sbiReturn SBI_SUCCESS 0
  | _ => m.sbiReturn SBI_ERR_NOT_SUPPORTED 0

/-- `hsm_hart`: the index of the hart with this id, if there is one. -/
def hsmHart (m : Machine) (hartid : BitVec 32) : Option Nat :=
  if !m.bus.mem.plat || !m.bus.plat.harts then (if hartid = m.cpu.hartid then some m.self else none)
  else if m.bus.plat.nharts ≤ hartid.toNat then none
  else some hartid.toNat

/-- `hsm_enter`: a hart brought up in S-mode at `pc`. -/
def hsmEnter (t : CPU) (pc opaqueArg : BitVec 64) : CPU :=
  let t := { t with pc := pc, priv := PRIV_S }
  let t := t.regWrite REG_A0 (t.hartid.setWidth 64)
  let t := t.regWrite REG_A1 opaqueArg
  let t := t.setCsr CSR_SATP 0
  let t := t.setCsr CSR_MSTATUS (t.csr CSR_MSTATUS &&& ~~~2#64)
  let t := { t with reserveValid := false }
  { t.mmuFlush with hsmState := .started, haltReason := .none, halted := false }

def hartStart (m : Machine) : Machine :=
  let start := m.regRead REG_A1
  let opaqueArg := m.regRead REG_A2
  match m.hsmHart (lo32 (m.regRead REG_A0)) with
  | none => m.sbiReturn SBI_ERR_INVALID_PARAM 0
  | some t =>
    match (m.harts t).hsmState with
    | .started => m.sbiReturn SBI_ERR_ALREADY_AVAILABLE 0
    | .stopped => (m.setHart t (hsmEnter (m.harts t) start opaqueArg)).sbiReturn SBI_SUCCESS 0
    | _ => m.sbiReturn SBI_ERR_FAILED 0

def hartStop (m : Machine) : Machine := m.setCpu { m.cpu.halt .exit with hsmState := .stopped }

def hartGetStatus (m : Machine) : Machine :=
  match m.hsmHart (lo32 (m.regRead REG_A0)) with
  | none => m.sbiReturn SBI_ERR_INVALID_PARAM 0
  | some t => m.sbiReturn SBI_SUCCESS (m.harts t).hsmState.code

def hartSuspend (m : Machine) : Machine :=
  let type := lo32 (m.regRead REG_A0)
  if type = 0 then m.sbiReturn SBI_SUCCESS 0
  else if type = 0x80000000 then m.setCpu (hsmEnter m.cpu (m.regRead REG_A1) (m.regRead REG_A2))
  else m.sbiReturn SBI_ERR_INVALID_PARAM 0

def sbiHsm (m : Machine) (fid : BitVec 32) : Machine :=
  match fid.toNat with
  | 0 => m.hartStart
  | 1 => m.hartStop
  | 2 => m.hartGetStatus
  | 3 => m.hartSuspend
  | _ => m.sbiReturn SBI_ERR_NOT_SUPPORTED 0

def sbiPutchar (m : Machine) (a0 : BitVec 32) : Machine :=
  (m.setBus { m.bus with out := m.bus.out ++ [a0.setWidth 8] }).regWrite REG_A0 0

def sbiTime (m : Machine) (fid a0 a1 : BitVec 32) : Machine :=
  if fid = 0 then (m.sbiSetTimer a0 a1).sbiReturn SBI_SUCCESS 0 else m.sbiReturn SBI_ERR_NOT_SUPPORTED 0

def sbiSrst (m : Machine) (fid a0 : BitVec 32) : Machine :=
  if fid = 0 then (if a0.ule 2 then m.sbiHalt else m.sbiReturn SBI_ERR_INVALID_PARAM 0)
  else m.sbiReturn SBI_ERR_NOT_SUPPORTED 0

def sbiCall (m : Machine) : Machine :=
  let eid := lo32 (m.regRead REG_A7)
  let fid := lo32 (m.regRead REG_A6)
  let a0 := lo32 (m.regRead REG_A0)
  let a1 := lo32 (m.regRead REG_A1)
  if eid = EXT_PUTCHAR then m.sbiPutchar a0
  else if eid = EXT_GETCHAR then m.regWrite REG_A0 0xffffffff
  else if eid = EXT_SET_TIMER then (m.sbiSetTimer a0 a1).regWrite REG_A0 0
  else if eid = EXT_SHUTDOWN then m.sbiHalt
  else if eid = EXT_BASE then m.sbiBase fid a0
  else if eid = EXT_TIME then m.sbiTime fid a0 a1
  else if eid = EXT_SRST then m.sbiSrst fid a0
  else if eid = EXT_HSM then m.sbiHsm fid
  else m.sbiReturn SBI_ERR_NOT_SUPPORTED 0

/-! ## Raising a trap -/

/-- `legacy_trap`: what a trap does when no handler is installed. -/
def legacyTrap (m : Machine) (cause : BitVec 32) : Machine :=
  if cause = CAUSE_ECALL_S then m.sbiCall
  else if cause = CAUSE_ECALL_U ∨ cause = CAUSE_ECALL_M then m.syscallDispatch
  else if cause = CAUSE_BREAKPOINT then m.setCpu (m.cpu.halt .ebreak)
  else if cause = CAUSE_INSN_MISALIGNED ∨ cause = CAUSE_INSN_ACCESS ∨
      cause = CAUSE_LOAD_MISALIGNED ∨ cause = CAUSE_LOAD_ACCESS ∨
      cause = CAUSE_STORE_MISALIGNED ∨ cause = CAUSE_STORE_ACCESS then
    m.setCpu (m.cpu.halt .memFault)
  else (m.diag (.noHandler cause (lo32 m.cpu.pc))).setCpu (m.cpu.halt .illegalInsn)

/-- `raise_trap`: a synchronous exception. -/
def raiseTrap (m : Machine) (cause : BitVec 32) (tval : BitVec 64) : Machine :=
  if m.cpu.handlerInstalled cause then
    m.setCpu (m.cpu.enterTrap (cause.setWidth 64) tval (m.cpu.trapToS cause))
  else m.legacyTrap cause

end Machine
end Quanta
