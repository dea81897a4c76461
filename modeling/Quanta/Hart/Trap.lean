/-
The privileged half of one hart (`cpu.c`): the CSR file with its masked windows and live
counters, trap entry and the trap returns, interrupt selection, the two timer relays, and the
instruction-boundary prologue `cpu_pre_step`. All of it acts on one hart; the platform is read,
never changed.
-/
import Quanta.Machine.Mmu

namespace Quanta

def SSTATUS_MASK : BitVec 64 :=
  MSTATUS_SIE ||| MSTATUS_SPIE ||| MSTATUS_SPP ||| MSTATUS_FS ||| MSTATUS_SUM ||| MSTATUS_MXR

def S_INT_MASK : BitVec 64 := 1 <<< 1 ||| 1 <<< 5 ||| 1 <<< 9

def IRQ_SSOFT : Nat := 1
def IRQ_MSOFT : Nat := 3
def IRQ_STIMER : Nat := 5
def IRQ_MTIMER : Nat := 7
def IRQ_SEXT : Nat := 9
def IRQ_MEXT : Nat := 11

/-- `menvcfg.STCE`, bit 63. -/
def MENVCFG_STCE : Nat := 63

/-- The `mip` bits the CLINT and PLIC own. -/
def MIP_DEVICE : BitVec 32 := MIP_MSIP ||| MIP_MTIP ||| MIP_MEIP ||| MIP_SEIP

namespace CPU

/-! ## The CSR file -/

/-- `live_mip`: the stored bits with the device-driven ones recomputed. -/
def liveMip (c : CPU) (b : Bus) : BitVec 32 :=
  let mip := lo32 (c.csr CSR_MIP)
  if b.mem.plat then (mip &&& ~~~MIP_DEVICE) ||| platMipBits b.plat c.hartid else mip

/-- `topi_value`: the top pending and enabled interrupt of a level, AIA-encoded. -/
def topiValue (c : CPU) (b : Bus) (toS : Bool) : BitVec 64 :=
  let pend := c.liveMip b &&& lo32 (c.csr CSR_MIE)
  let del := lo32 (c.csr CSR_MIDELEG)
  let pend := pend &&& (if toS then del else ~~~del)
  match [IRQ_MEXT, IRQ_MSOFT, IRQ_MTIMER, IRQ_SEXT, IRQ_SSOFT, IRQ_STIMER, 13].find? pend.getLsbD with
  | some i => (BitVec.ofNat 64 i <<< 16) ||| 1
  | none => 0

def csrRead (c : CPU) (b : Bus) (addr : BitVec 12) : BitVec 64 :=
  if addr = CSR_FFLAGS then c.csr CSR_FCSR &&& 0x1f
  else if addr = CSR_FRM then (c.csr CSR_FCSR >>> 5) &&& 0x7
  else if addr = CSR_CYCLE ∨ addr = CSR_TIME ∨ addr = CSR_INSTRET then c.instret
  else if addr = CSR_CYCLEH ∨ addr = CSR_TIMEH ∨ addr = CSR_INSTRETH then c.instret >>> 32
  else if addr = CSR_SSTATUS then c.csr CSR_MSTATUS &&& SSTATUS_MASK
  else if addr = CSR_SIE then c.csr CSR_MIE &&& S_INT_MASK
  else if addr = CSR_SIP then c.csr CSR_MIP &&& S_INT_MASK
  else if addr = CSR_MTOPI then c.topiValue b false
  else if addr = CSR_STOPI then c.topiValue b true
  else c.csr addr

/-- `old` with the bits of `mask` taken from `val`. -/
def window (mask old val : BitVec 64) : BitVec 64 := (old &&& ~~~mask) ||| (val &&& mask)

def csrWrite (c : CPU) (addr : BitVec 12) (val : BitVec 64) : CPU :=
  if addr = CSR_FCSR then c.setCsr CSR_FCSR (val &&& 0xff)
  else if addr = CSR_FFLAGS then c.setCsr CSR_FCSR ((c.csr CSR_FCSR &&& ~~~0x1f#64) ||| (val &&& 0x1f))
  else if addr = CSR_FRM then
    c.setCsr CSR_FCSR ((c.csr CSR_FCSR &&& ~~~0xe0#64) ||| ((val &&& 0x7) <<< 5))
  else if addr = CSR_SSTATUS then c.setCsr CSR_MSTATUS (window SSTATUS_MASK (c.csr CSR_MSTATUS) val)
  else if addr = CSR_SIE then c.setCsr CSR_MIE (window S_INT_MASK (c.csr CSR_MIE) val)
  else if addr = CSR_SIP then c.setCsr CSR_MIP (window S_INT_MASK (c.csr CSR_MIP) val)
  else if addr = CSR_SATP then
    if !mmuSatpSupported c.xlen val then c else (c.setCsr CSR_SATP val).mmuFlush
  else c.setCsr addr val

/-! ## Trap entry and return -/

/-- `s` with bit mask `dst` set exactly when mask `src` is, and `src` itself untouched. -/
def copyBit (s src dst : BitVec 64) : BitVec 64 := (s &&& ~~~dst) ||| (if s &&& src ≠ 0 then dst else 0)

/-- `mstatus` after a trap into S: SPIE from SIE, SIE off, SPP from the old privilege. -/
def pushS (s : BitVec 64) (priv : BitVec 32) : BitVec 64 :=
  let s := copyBit s MSTATUS_SIE MSTATUS_SPIE
  let s := s &&& ~~~MSTATUS_SIE
  (s &&& ~~~MSTATUS_SPP) ||| (if priv ≠ 0 then MSTATUS_SPP else 0)

/-- `mstatus` after a trap into M: MPIE from MIE, MIE off, MPP from the old privilege. -/
def pushM (s : BitVec 64) (priv : BitVec 32) : BitVec 64 :=
  let s := copyBit s MSTATUS_MIE MSTATUS_MPIE
  let s := s &&& ~~~MSTATUS_MIE
  (s &&& ~~~MSTATUS_MPP) ||| (priv <<< MSTATUS_MPP_SHIFT).setWidth 64

/-- The handler entry: the base, or the interrupt's slot under a vectored `tvec`. -/
def trapPc (xlen : Xlen) (tvec cause : BitVec 64) : BitVec 64 :=
  let intbit := causeInterrupt xlen
  let base := tvec &&& ~~~3#64
  if cause &&& intbit ≠ 0 ∧ tvec.getLsbD 0 then base + 4 * (cause &&& ~~~intbit) else base

def enterTrap (c : CPU) (cause tval : BitVec 64) (toS : Bool) : CPU :=
  let s := c.csr CSR_MSTATUS
  let c' :=
    if toS then
      { (((c.setCsr CSR_SEPC c.pc).setCsr CSR_SCAUSE cause).setCsr CSR_STVAL tval).setCsr
          CSR_MSTATUS (pushS s c.priv) with priv := PRIV_S }
    else
      { (((c.setCsr CSR_MEPC c.pc).setCsr CSR_MCAUSE cause).setCsr CSR_MTVAL tval).setCsr
          CSR_MSTATUS (pushM s c.priv) with priv := PRIV_M }
  let tvec := if toS then c'.csr CSR_STVEC else c'.csr CSR_MTVEC
  { c' with pc := trapPc c.xlen tvec cause, trapped := true }

/-- Does an exception with this cause go to S? -/
def trapToS (c : CPU) (cause : BitVec 32) : Bool :=
  c.priv.ule PRIV_S && (c.csr CSR_MEDELEG).getLsbD cause.toNat

/-- The vector of the level an exception with this cause goes to. -/
def trapVector (c : CPU) (cause : BitVec 32) : BitVec 64 :=
  if c.trapToS cause then c.csr CSR_STVEC else c.csr CSR_MTVEC

/-- Is a handler installed for this cause? -/
def handlerInstalled (c : CPU) (cause : BitVec 32) : Bool := c.trapVector cause &&& ~~~3#64 ≠ 0

/-- `mstatus` after MRET. -/
def popM (s : BitVec 64) : BitVec 64 :=
  let mpp := mppOf s
  let s := copyBit s MSTATUS_MPIE MSTATUS_MIE
  let s := s ||| MSTATUS_MPIE
  let s := s &&& ~~~MSTATUS_MPP
  if mpp ≠ PRIV_M then s &&& ~~~MSTATUS_MPRV else s

/-- `mstatus` after SRET. -/
def popS (s : BitVec 64) : BitVec 64 :=
  let s := copyBit s MSTATUS_SPIE MSTATUS_SIE
  let s := s ||| MSTATUS_SPIE
  let s := s &&& ~~~MSTATUS_SPP
  s &&& ~~~MSTATUS_MPRV

/-- The privilege SRET returns to. -/
def sppOf (s : BitVec 64) : BitVec 32 := if s &&& MSTATUS_SPP ≠ 0 then PRIV_S else PRIV_U

/-! ## Interrupts and timers -/

/-- `effective_mip`: refresh the device-driven bits in the CSR file and return `mip`. -/
def effectiveMip (c : CPU) (b : Bus) : BitVec 32 × CPU :=
  if b.mem.plat then (c.liveMip b, c.setCsr CSR_MIP ((c.liveMip b).setWidth 64))
  else (c.liveMip b, c)

/-- Are interrupts destined for M takeable? -/
def mOn (c : CPU) : Bool :=
  c.priv.ult PRIV_M || (c.priv == PRIV_M && c.csr CSR_MSTATUS &&& MSTATUS_MIE ≠ 0)

/-- Are interrupts destined for S takeable? -/
def sOn (c : CPU) : Bool :=
  c.priv.ult PRIV_S || (c.priv == PRIV_S && c.csr CSR_MSTATUS &&& MSTATUS_SIE ≠ 0)

/-- Is interrupt `i` delegated to S? -/
def delegated (c : CPU) (i : Nat) : Bool := (c.csr CSR_MIDELEG).getLsbD i

/-- Is interrupt `i` pending and its destination's gate open? -/
def deliverable (c : CPU) (pending : BitVec 32) (i : Nat) : Bool :=
  pending.getLsbD i && (if c.delegated i then c.sOn else c.mOn)

/-- The fixed priority order. -/
def irqOrder : List Nat := [IRQ_MEXT, IRQ_MSOFT, IRQ_MTIMER, IRQ_SEXT, IRQ_SSOFT, IRQ_STIMER]

/-- `take_interrupt`: deliver the first deliverable interrupt, if any. -/
def takeInterrupt (c : CPU) (b : Bus) : Bool × CPU :=
  let (mip, c) := c.effectiveMip b
  let pending := mip &&& lo32 (c.csr CSR_MIE)
  match irqOrder.find? (c.deliverable pending) with
  | some i => (true, c.enterTrap (causeInterrupt c.xlen ||| BitVec.ofNat 64 i) 0 (c.delegated i))
  | none => (false, c)

/-- The store of `cpu_arm_supervisor_timer` to the hart: the `1u` mask keeps 32 bits of `mip`. -/
def armTimer (c : CPU) : CPU :=
  { c.setCsr CSR_MIP (c.csr CSR_MIP &&& 0xffffffdf) with sbiTimerArmed := true }

/-- `firmware_timer_tick`: relay a reached SBI deadline as STIP, once. -/
def firmwareTimerTick (c : CPU) (b : Bus) : CPU :=
  if !c.sbiTimerArmed then c
  else if platMipBits b.plat c.hartid &&& MIP_MTIP ≠ 0 then
    { c.setCsr CSR_MIP (c.csr CSR_MIP ||| 0x20) with sbiTimerArmed := false }
  else c

def stce (c : CPU) : Bool := (c.csr CSR_MENVCFG).getLsbD MENVCFG_STCE

/-- `sstc_tick`: under Sstc, STIP is `time >= stimecmp`. -/
def sstcTick (c : CPU) : CPU :=
  if !c.stce then c
  else if (c.csr CSR_STIMECMP).ule c.instret then c.setCsr CSR_MIP (c.csr CSR_MIP ||| 0x20)
  else c.setCsr CSR_MIP (c.csr CSR_MIP &&& 0xffffffdf)

/-- `cpu_pre_step`: `true` when the step is consumed. -/
def preStep (c : CPU) (b : Bus) : Bool × CPU :=
  if !b.mem.plat then (false, c)
  else
    match platPoweroffRequested b.plat with
    | some code => (true, { c with exitCode := code, haltReason := .exit, halted := true })
    | none => ((c.firmwareTimerTick b).sstcTick).takeInterrupt b

/-- The timer part of the horizon: how many instructions until `cmp` is reached from `now`. -/
def distance (now cmp : BitVec 64) : BitVec 64 := if cmp.ule now then 0 else cmp - now

def bvMin (a b : BitVec 64) : BitVec 64 := if a.ult b then a else b

/-- Is interrupt `i` enabled and its destination's gate open? `cpu_interrupt_horizon` opens the M
gate on `priv < M` or MIE alone. -/
def horizonGate (c : CPU) (i : Nat) : Bool :=
  (c.csr CSR_MIE).getLsbD i &&
    (if c.delegated i then c.sOn
     else c.priv.ult PRIV_M || c.csr CSR_MSTATUS &&& MSTATUS_MIE ≠ 0)

/-- `cpu_interrupt_horizon`: how many instructions may retire before a time-driven interrupt
could newly become takeable. -/
def interruptHorizon (c : CPU) (b : Bus) : BitVec 64 :=
  let far := 1#64 <<< 62
  if !b.mem.plat then far
  else
    let dMtip := distance b.plat.clint.mtime (b.plat.clint.mtimecmp c.hartid.toNat)
    let h := if c.horizonGate IRQ_MTIMER then bvMin dMtip far else far
    if c.horizonGate IRQ_STIMER then
      let h := if c.sbiTimerArmed then bvMin dMtip h else h
      if c.stce then bvMin (distance c.instret (c.csr CSR_STIMECMP)) h else h
    else h

end CPU
end Quanta
