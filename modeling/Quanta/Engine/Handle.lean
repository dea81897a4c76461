/-
The machine behind the public handle (`quanta.c`) when the JIT is not attached: the harts in their
round-robin scheduler, the poll that derives the machine's halt from theirs, `quanta_step` and
`quanta_run`, and the calls through which the host reaches in (console bytes, received frames,
register and memory pokes).
-/
import Quanta.Effects.System

namespace Quanta

/-! ## The handle -/

/-- `QuantaHalt`: why the machine is stopped. -/
inductive QuantaHalt
  | run | exit | ebreak | illegalInsn | unimpSystem | unknownSyscall | memFault | stepLimit
  deriving DecidableEq, Repr

def mapHalt : HaltReason → QuantaHalt
  | .none => .run
  | .exit => .exit
  | .ebreak => .ebreak
  | .illegalInsn => .illegalInsn
  | .unimpSystem => .unimpSystem
  | .unknownSyscall => .unknownSyscall
  | .memFault => .memFault

inductive QuantaStatus
  | ok | errNomem | errLoad | errRange | errInval
  deriving DecidableEq, Repr

/-- `struct Quanta`. The machine holds the harts, the RAM and the platform; `sched` is the next hart
to step, and `m_halted`, `m_reason` and `m_exit` are the machine-level halt. -/
structure Handle where
  machine : Machine
  nharts : Nat
  sched : Nat
  mHalted : Bool
  mReason : HaltReason
  mExit : BitVec 32
  dcaches : Nat → Option DecodeCache
  loaded : Bool
  dtbAddr : BitVec 32

namespace Handle

/-- `machine_poll_halt`: a power-off stops the machine, and so do its harts once all have halted;
an abnormal reason is reported ahead of a clean exit. -/
def machinePollHalt (q : Handle) : Handle :=
  match platPoweroffRequested q.machine.bus.plat with
  | some code => { q with mHalted := true, mReason := .exit, mExit := code }
  | none =>
    let harts := List.range q.nharts
    if harts.all fun i => (q.machine.harts i).halted then
      let who := q.machine.harts ((harts.find? fun i => (q.machine.harts i).haltReason ≠ .exit).getD 0)
      { q with mHalted := true, mReason := who.haltReason, mExit := who.exitCode }
    else q

/-- The shared timer ticks at the start of each round. -/
def tick (q : Handle) : Handle :=
  if q.sched = 0 then
    { q with machine := q.machine.setBus (q.machine.bus.setPlat (platTick q.machine.bus.plat)) }
  else q

/-- The hart whose slot it is executes one instruction; a halted hart's slot is a no-op. -/
def stepHart (q : Handle) : Handle :=
  if (q.machine.harts q.sched).halted then q
  else
    let r := (q.machine.onHart q.sched).step (q.dcaches q.sched)
    { q with machine := r.2, dcaches := Function.update q.dcaches q.sched r.1 }

def advance (q : Handle) : Handle :=
  { q with sched := if q.nharts ≤ q.sched + 1 then 0 else q.sched + 1 }

/-- One scheduler slot. -/
def slot (q : Handle) : Handle := q.tick.stepHart.advance.machinePollHalt

def quantaStep (q : Handle) : QuantaHalt × Handle :=
  if !q.loaded then (.run, q)
  else if q.mHalted then (mapHalt q.mReason, q)
  else
    let q := q.slot
    (if q.mHalted then mapHalt q.mReason else .run, q)

/-- The loop of `quanta_run`, which counts only the slots that executed an instruction. -/
def runLoop (cap : Nat) : Nat → Nat → Handle → Nat × Handle
  | 0, steps, q => (steps, q)
  | fuel + 1, steps, q =>
    if q.mHalted || cap ≤ steps then (steps, q)
    else runLoop cap fuel (if (q.machine.harts q.sched).halted then steps else steps + 1) q.slot

def QUANTA_DEFAULT_MAX_STEPS : Nat := 100000000

/-- `quanta_run`: the halt, the instructions executed and the machine. A round of slots executes an
instruction unless every hart is halted, so `(cap + 2) * nharts` slots reach the end of the loop. -/
def quantaRun (q : Handle) (maxSteps : BitVec 64) : QuantaHalt × Nat × Handle :=
  let cap := if maxSteps = 0 then QUANTA_DEFAULT_MAX_STEPS else maxSteps.toNat
  if q.loaded then
    let r := runLoop cap ((cap + 2) * q.nharts) 0 q
    (if r.2.mHalted then mapHalt r.2.mReason else .stepLimit, r.1, r.2)
  else (.run, 0, q)

def quantaHaltReason (q : Handle) : QuantaHalt := if q.mHalted then mapHalt q.mReason else .run

def quantaExitCode (q : Handle) : BitVec 32 := q.mExit

/-! ## The host's side -/

def quantaUartInput (q : Handle) (byte : Byte) : Bool × Handle :=
  if !q.loaded then (false, q)
  else
    let r := platUartRx q.machine.bus.plat byte
    (r.1, { q with machine := q.machine.setBus (q.machine.bus.setPlat r.2) })

def quantaNetRx (q : Handle) (frame : List Byte) : Bool × Handle :=
  if !q.loaded then (false, q)
  else
    let r := platNetRx q.machine.bus frame
    (r.1, { q with machine := q.machine.setBus r.2 })

def xlenVal (q : Handle) (v : BitVec 64) : BitVec 64 :=
  if (q.machine.harts 0).xlen = .rv64 then v else v &&& 0xffffffff

/-- `quanta_xlen`: none until a program is loaded. -/
def quantaXlen (q : Handle) : Option Xlen := if q.loaded then some (q.machine.harts 0).xlen else none

def quantaReg (q : Handle) (i : BitVec 5) : BitVec 64 := q.xlenVal ((q.machine.harts 0).regRead i)

def quantaPc (q : Handle) : BitVec 64 := q.xlenVal (q.machine.harts 0).pc

def quantaSetReg (q : Handle) (i : BitVec 5) (value : BitVec 64) : Handle :=
  { q with machine := q.machine.setHart 0 ((q.machine.harts 0).regWrite i value) }

def quantaSetPc (q : Handle) (pc : BitVec 64) : Handle :=
  { q with machine := q.machine.setHart 0 { q.machine.harts 0 with pc := pc } }

/-- `quanta_mem_read`, with `in_range` as its bounds check. -/
def quantaMemRead (q : Handle) (addr : BitVec 64) (len : Nat) : Option (List Byte) :=
  let mem := q.machine.bus.mem
  if addr.ult mem.base ∨ mem.size.toNat < len ∨ mem.size.toNat - len < (addr - mem.base).toNat then none
  else some ((List.range len).map fun i => mem.data ((addr - mem.base).toNat + i))

/-- `quanta_mem_write`, with `in_range` as its bounds check. -/
def quantaMemWrite (q : Handle) (addr : BitVec 64) (src : List Byte) : QuantaStatus × Handle :=
  let mem := q.machine.bus.mem
  if addr.ult mem.base ∨ mem.size.toNat < src.length ∨ mem.size.toNat - src.length < (addr - mem.base).toNat then
    (.errRange, q)
  else
    let ram := writeBytes mem.data (addr - mem.base).toNat src
    (.ok, { q with machine := q.machine.setBus (q.machine.bus.setRam ram) })

/-! ## Slots -/

@[simp] theorem nharts_machinePollHalt (q : Handle) : q.machinePollHalt.nharts = q.nharts := by
  unfold machinePollHalt
  split
  · rfl
  · dsimp only
    split <;> rfl

@[simp] theorem machine_machinePollHalt (q : Handle) : q.machinePollHalt.machine = q.machine := by
  unfold machinePollHalt
  split
  · rfl
  · dsimp only
    split <;> rfl

@[simp] theorem sched_machinePollHalt (q : Handle) : q.machinePollHalt.sched = q.sched := by
  unfold machinePollHalt
  split
  · rfl
  · dsimp only
    split <;> rfl

@[simp] theorem loaded_machinePollHalt (q : Handle) : q.machinePollHalt.loaded = q.loaded := by
  unfold machinePollHalt
  split
  · rfl
  · dsimp only
    split <;> rfl

end Handle
end Quanta
