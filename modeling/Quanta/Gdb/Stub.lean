/-
The gdb stub (`gdbstub.c`) over the public handle: breakpoints, the stepping and continue loops,
reverse execution from checkpoints, and the packet handlers with the text of their replies. A packet
is its payload; the framing and the acknowledgements of the socket are outside.
-/
import Quanta.Engine.Checkpoint
import Quanta.Gdb.Hex

namespace Quanta.Gdb

def GDB_BUFSZ : Nat := 8192
def GDB_MAX_PAYLOAD : Nat := (GDB_BUFSZ - 16) / 2
def GDB_MAX_BP : Nat := 128
def GDB_MAX_CP : Nat := 33
def GDB_CP_INTERVAL : BitVec 64 := 4096

def SIG_INT : Byte := 2
def SIG_ILL : Byte := 4
def SIG_TRAP : Byte := 5
def SIG_SEGV : Byte := 11

structure GdbCheckpoint where
  step : BitVec 64
  snap : QuantaSnapshot

/-- `GdbStub`. `cp` holds the `ncp` checkpoints in use. -/
structure GdbStub where
  q : Handle
  featSwbreak : Bool
  dead : Bool
  wantQuit : Bool
  bp : Nat → BitVec 64
  bpUsed : Nat → Bool
  nsteps : BitVec 64
  reverseUsed : Bool
  lastCpStep : BitVec 64
  cp : List GdbCheckpoint

/-- How `do_continue` ended. -/
inductive Cont
  | halted | brk | intr | dead
  deriving DecidableEq, Repr

/-- What `interrupt_pending` finds on the socket: nothing, a Ctrl-C, or its end. -/
inductive Poll
  | quiet | intr | lost
  deriving DecidableEq, Repr

namespace GdbStub

/-- Bytes of a register in a packet. -/
def regBytes (s : GdbStub) : Nat := if s.q.quantaXlen = some .rv64 then 8 else 4

/-! ## Breakpoints -/

def bpMatch (s : GdbStub) (addr : BitVec 64) : Bool :=
  (List.range GDB_MAX_BP).any fun i => s.bpUsed i && s.bp i == addr

def bpAdd (s : GdbStub) (addr : BitVec 64) : Bool × GdbStub :=
  if s.bpMatch addr then (true, s)
  else
    match (List.range GDB_MAX_BP).find? fun i => !s.bpUsed i with
    | some i => (true, { s with bpUsed := Function.update s.bpUsed i true, bp := Function.update s.bp i addr })
    | none => (false, s)

def bpRemove (s : GdbStub) (addr : BitVec 64) : GdbStub :=
  { s with bpUsed := fun i => s.bpUsed i && !(decide (i < GDB_MAX_BP) && s.bp i == addr) }

/-! ## Steps and checkpoints -/

/-- `raw_step`: one scheduler slot, counted. -/
def rawStep (s : GdbStub) : QuantaHalt × GdbStub :=
  if s.q.quantaHaltReason ≠ .run then (s.q.quantaHaltReason, s)
  else (s.q.quantaStep.1, { s with q := s.q.quantaStep.2, nsteps := s.nsteps + 1 })

def stepAt (cp : List GdbCheckpoint) (i : Nat) : BitVec 64 := (cp[i]?.map GdbCheckpoint.step).getD 0

/-- The checkpoint a full ring gives up: the earliest, but never the first. -/
def evicted (cp : List GdbCheckpoint) : Nat :=
  (List.range' 2 (cp.length - 2)).foldl (fun slot i => if stepAt cp i < stepAt cp slot then i else slot) 1

def cpAdd (s : GdbStub) (step : BitVec 64) : GdbStub :=
  match s.q.quantaSnapshot with
  | none => s
  | some snap =>
    { s with
      cp := if s.cp.length < GDB_MAX_CP then s.cp ++ [⟨step, snap⟩] else s.cp.set (evicted s.cp) ⟨step, snap⟩
      lastCpStep := step }

/-- `stub_step`: a step, and a checkpoint now and then once execution has been reversed. -/
def stubStep (s : GdbStub) : QuantaHalt × GdbStub :=
  let (h, s) := s.rawStep
  if s.reverseUsed ∧ h = .run ∧ GDB_CP_INTERVAL ≤ s.nsteps - s.lastCpStep then (h, s.cpAdd s.nsteps) else (h, s)

/-- The latest checkpoint at or before `target`. -/
def nearest (cp : List GdbCheckpoint) (target : BitVec 64) : Option GdbCheckpoint :=
  cp.foldl (fun best c => if c.step ≤ target ∧ best.all (·.step < c.step) then some c else best) none

/-- The replay of `goto_step`; each step that runs counts one, so the distance bounds the steps. -/
def replayTo (target : BitVec 64) : Nat → GdbStub → GdbStub
  | 0, s => s
  | n + 1, s =>
    if s.nsteps < target then
      if s.rawStep.1 = .run then replayTo target n s.rawStep.2 else s.rawStep.2
    else s

def gotoStep (s : GdbStub) (target : BitVec 64) : GdbStub :=
  match nearest s.cp target with
  | none => s
  | some c =>
    match s.q.quantaRestore c.snap with
    | (.ok, q) => replayTo target (target - c.step).toNat { s with q := q, nsteps := c.step }
    | _ => s

/-! ## Stop replies and running -/

def hex2 (v : Byte) : List Byte := [nibbleHex (v >>> 4), nibbleHex v]

/-- `stop_reply`: the exit code or the signal of a halt, else `sig`. -/
def stopReply (s : GdbStub) (sig : Byte) (swbreakHit : Bool) : List Byte :=
  match s.q.quantaHaltReason with
  | .exit => ascii "W" ++ hex2 (s.q.quantaExitCode.setWidth 8)
  | .memFault => ascii "S" ++ hex2 SIG_SEGV
  | .illegalInsn | .unimpSystem | .unknownSyscall => ascii "S" ++ hex2 SIG_ILL
  | .ebreak | .stepLimit => ascii "S" ++ hex2 SIG_TRAP
  | .run =>
    if swbreakHit && s.featSwbreak then ascii "T" ++ hex2 sig ++ ascii "swbreak:;" else ascii "S" ++ hex2 sig

/-- The loop of `do_continue` after a step that answered `h`; every 65536th turn polls the socket. -/
def continueLoop (poll : Nat → Poll) : Nat → Nat → QuantaHalt × GdbStub → Option (Cont × GdbStub)
  | 0, _, _ => none
  | fuel + 1, guard, (h, s) =>
    if h ≠ .run then some (.halted, s)
    else if s.bpMatch s.q.quantaPc then some (.brk, s)
    else
      match if (guard + 1) % 65536 = 0 then poll ((guard + 1) / 65536) else .quiet with
      | .lost => some (.dead, s)
      | .intr => some (.intr, s)
      | .quiet => continueLoop poll fuel (guard + 1) s.stubStep

/-- `do_continue`, if `fuel` turns of its loop are enough. -/
def doContinue (poll : Nat → Poll) (fuel : Nat) (s : GdbStub) : Option (Cont × GdbStub) :=
  continueLoop poll fuel 0 s.stubStep

/-- `continue_and_reply`: no reply once the connection is lost. -/
def continueAndReply (poll : Nat → Poll) (fuel : Nat) (s : GdbStub) : Option (Option (List Byte) × GdbStub) :=
  (doContinue poll fuel s).map fun
    | (.brk, s) => (some (s.stopReply SIG_TRAP true), s)
    | (.intr, s) => (some (s.stopReply SIG_INT false), s)
    | (.dead, s) => (none, { s with dead := true })
    | (.halted, s) => (some (s.stopReply SIG_TRAP false), s)

def handleReverseStep (s : GdbStub) : List Byte × GdbStub :=
  let s := { s with reverseUsed := true }
  let s := if 0 < s.nsteps then s.gotoStep (s.nsteps - 1) else s
  (s.stopReply SIG_TRAP false, s)

/-- The replay of `handle_reverse_continue` up to step `cur`: the last step at a breakpoint, if any. -/
def lastHit (cur : BitVec 64) : Nat → Option (BitVec 64) → GdbStub → Option (BitVec 64) × GdbStub
  | 0, hit, s => (hit, s)
  | n + 1, hit, s =>
    if s.nsteps < cur then
      let hit := if s.bpMatch s.q.quantaPc then some s.nsteps else hit
      if s.rawStep.1 = .run then lastHit cur n hit s.rawStep.2 else (hit, s.rawStep.2)
    else (hit, s)

def handleReverseContinue (s : GdbStub) : List Byte × GdbStub :=
  let s := { s with reverseUsed := true }
  let cur := s.nsteps
  if cur = 0 then (s.stopReply SIG_TRAP false, s)
  else
    let s := s.gotoStep 0
    let r := lastHit cur (cur - s.nsteps).toNat none s
    let s := r.2.gotoStep (r.1.getD 0)
    (s.stopReply SIG_TRAP false, s)

/-! ## Packet handlers -/

def handleReadRegs (s : GdbStub) : List Byte :=
  (List.range 32).flatMap (fun i => valToHexLe (s.q.quantaReg (BitVec.ofNat 5 i)) s.regBytes) ++
    valToHexLe s.q.quantaPc s.regBytes

/-- Field `i` of the registers in a packet. -/
def regField (args : List Byte) (nb i : Nat) : Option (BitVec 64) := hexToValLe (args.drop (i * (nb * 2))) nb

/-- The loop of `handle_write_regs` over `x0` to `x31`: each field is written once it parses. -/
def writeRegsFrom (args : List Byte) (nb : Nat) : List Nat → Handle → Bool × Handle
  | [], q => (true, q)
  | i :: rest, q =>
    match regField args nb i with
    | none => (false, q)
    | some v => writeRegsFrom args nb rest (q.quantaSetReg (BitVec.ofNat 5 i) v)

def handleWriteRegs (s : GdbStub) (args : List Byte) : List Byte × GdbStub :=
  let nb := s.regBytes
  if args.length < 33 * (nb * 2) then (ascii "E22", s)
  else
    match writeRegsFrom args nb (List.range 32) s.q with
    | (false, q) => (ascii "E22", { s with q := q })
    | (true, q) =>
      match regField args nb 32 with
      | none => (ascii "E22", { s with q := q })
      | some pc => (ascii "OK", { s with q := q.quantaSetPc pc })

def handleReadReg (s : GdbStub) (args : List Byte) : List Byte :=
  let n := (strtoul args).1
  if n < 32 then valToHexLe (s.q.quantaReg (n.setWidth 5)) s.regBytes
  else if n = 32 then valToHexLe s.q.quantaPc s.regBytes
  else ascii "E01"

def handleWriteReg (s : GdbStub) (args : List Byte) : List Byte × GdbStub :=
  let (n, p) := strtoul args
  if p.getD 0 0 ≠ 0x3d#8 then (ascii "E22", s)
  else
    match hexToValLe (p.drop 1) s.regBytes with
    | none => (ascii "E22", s)
    | some v =>
      if n < 32 then (ascii "OK", { s with q := s.q.quantaSetReg (n.setWidth 5) v })
      else if n = 32 then (ascii "OK", { s with q := s.q.quantaSetPc v })
      else (ascii "E01", s)

def handleReadMem (s : GdbStub) (args : List Byte) : List Byte :=
  let (addr, p) := strtoul args
  if p.getD 0 0 ≠ 0x2c#8 then ascii "E22"
  else
    let len := (strtoul (p.drop 1)).1.toNat
    if len = 0 then []
    else
      match s.q.quantaMemRead addr (min len GDB_MAX_PAYLOAD) with
      | none => ascii "E0e"
      | some bytes => bytes.flatMap hex2

def handleWriteMem (s : GdbStub) (args : List Byte) : List Byte × GdbStub :=
  let (addr, p) := strtoul args
  if p.getD 0 0 ≠ 0x2c#8 then (ascii "E22", s)
  else
    let (len, p) := strtoul (p.drop 1)
    if p.getD 0 0 ≠ 0x3a#8 then (ascii "E22", s)
    else if GDB_MAX_PAYLOAD < len.toNat then (ascii "E22", s)
    else
      match (List.range len.toNat).mapM fun i => hexByte (p.drop 1) i with
      | none => (ascii "E22", s)
      | some bytes =>
        if len = 0 then (ascii "OK", s)
        else
          match s.q.quantaMemWrite addr bytes with
          | (.ok, q) => (ascii "OK", { s with q := q })
          | _ => (ascii "E0e", s)

def handleBp (s : GdbStub) (args : List Byte) (set : Bool) : List Byte × GdbStub :=
  let (type, p) := strtoul args
  if p.getD 0 0 ≠ 0x2c#8 then (ascii "E22", s)
  else
    let addr := (strtoul (p.drop 1)).1
    if 1 < type then ([], s)
    else if set then
      let r := s.bpAdd addr
      (if r.1 then ascii "OK" else ascii "E22", r.2)
    else (ascii "OK", s.bpRemove addr)

/-- The name and the type of each register in the target description. -/
def regNames : List (String × String) :=
  [("zero", "int"), ("ra", "code_ptr"), ("sp", "data_ptr"), ("gp", "data_ptr"), ("tp", "data_ptr"), ("t0", "int"),
    ("t1", "int"), ("t2", "int"), ("fp", "data_ptr"), ("s1", "int"), ("a0", "int"), ("a1", "int"), ("a2", "int"),
    ("a3", "int"), ("a4", "int"), ("a5", "int"), ("a6", "int"), ("a7", "int"), ("s2", "int"), ("s3", "int"),
    ("s4", "int"), ("s5", "int"), ("s6", "int"), ("s7", "int"), ("s8", "int"), ("s9", "int"), ("s10", "int"),
    ("s11", "int"), ("t3", "int"), ("t4", "int"), ("t5", "int"), ("t6", "int"), ("pc", "code_ptr")]

def buildTargetXml (s : GdbStub) : List Byte :=
  let bits := if s.q.quantaXlen = some .rv64 then "64" else "32"
  ascii ("<?xml version='1.0'?>\n" ++ "<!DOCTYPE target SYSTEM 'gdb-target.dtd'>\n" ++ "<target version='1.0'>\n" ++
    "  <architecture>riscv:rv" ++ bits ++ "</architecture>\n" ++ "  <feature name='org.gnu.gdb.riscv.cpu'>\n") ++
  regNames.flatMap (fun (name, type) =>
    ascii ("    <reg name='" ++ name ++ "' bitsize='" ++ bits ++ "' type='" ++ type ++ "'" ++
      (if name = "zero" then " regnum='0'" else "") ++ "/>\n")) ++
  ascii "  </feature>\n</target>\n"

def handleQxfer (s : GdbStub) (args : List Byte) : List Byte :=
  let annex := args.takeWhile (· ≠ 0x3a#8)
  if annex.length = args.length ∨ annex ≠ ascii "target.xml" then ascii "E00"
  else
    let (off, p) := strtoul (args.drop (annex.length + 1))
    if p.getD 0 0 ≠ 0x2c#8 then ascii "E00"
    else
      let length := (strtoul (p.drop 1)).1.toNat
      let xml := s.buildTargetXml
      if xml.length ≤ off.toNat then ascii "l"
      else
        let chunk := min (min length (xml.length - off.toNat)) (GDB_BUFSZ - 4)
        (if xml.length ≤ off.toNat + chunk then ascii "l" else ascii "m") ++ (xml.drop off.toNat).take chunk

def handleQuery (s : GdbStub) (args : List Byte) : List Byte :=
  if (ascii "Supported").isPrefixOf args then
    ascii ("PacketSize=1ff0;qXfer:features:read+;swbreak+;hwbreak+;" ++ "vContSupported+;ReverseStep+;ReverseContinue+")
  else if (ascii "Xfer:features:read:").isPrefixOf args then s.handleQxfer (args.drop 19)
  else if args = ascii "C" then ascii "QC1"
  else if args = ascii "fThreadInfo" then ascii "m1"
  else if args = ascii "sThreadInfo" then ascii "l"
  else if args = ascii "Attached" ∨ (ascii "Attached:").isPrefixOf args then ascii "1"
  else if (ascii "Symbol").isPrefixOf args then ascii "OK"
  else []

/-- The optional address of `c` and `s`, of which the stub keeps 32 bits. -/
def setResume (s : GdbStub) (args : List Byte) : GdbStub :=
  let (addr, p) := strtoul args
  if p = args then s else { s with q := s.q.quantaSetPc ((addr.setWidth 32).setWidth 64) }

def handleContinue (poll : Nat → Poll) (fuel : Nat) (s : GdbStub) (args : List Byte) (addressed : Bool) :
    Option (Option (List Byte) × GdbStub) :=
  continueAndReply poll fuel (if addressed ∧ args ≠ [] then s.setResume args else s)

def stepAndReply (s : GdbStub) : List Byte × GdbStub :=
  let s := s.stubStep.2
  (s.stopReply SIG_TRAP false, s)

def handleStep (s : GdbStub) (args : List Byte) (addressed : Bool) : List Byte × GdbStub :=
  stepAndReply (if addressed ∧ args ≠ [] then s.setResume args else s)

/-- `strstr`. -/
def contains (args pat : List Byte) : Bool := args.tails.any pat.isPrefixOf

def handleV (poll : Nat → Poll) (fuel : Nat) (s : GdbStub) (args : List Byte) :
    Option (Option (List Byte) × GdbStub) :=
  if (ascii "Cont?").isPrefixOf args then some (some (ascii "vCont;c;C;s;S"), s)
  else if (ascii "Cont").isPrefixOf args then
    if contains args (ascii ";s") || contains args (ascii ";S") then some (s.stepAndReply.map some id)
    else continueAndReply poll fuel s
  else if (ascii "Kill").isPrefixOf args then some (some (ascii "OK"), { s with wantQuit := true })
  else some (some [], s)

/-! ## The server loop -/

/-- A packet's payload, with what the socket answers while it runs the machine and a bound on how
long that takes. -/
structure Packet where
  buf : List Byte
  poll : Nat → Poll
  fuel : Nat

/-- One turn of the loop of `quanta_gdb_serve`: the reply, if there is one, and the stub after it.
A handler sees the arguments as a C string. -/
def serve (s : GdbStub) (p : Packet) : Option (Option (List Byte) × GdbStub) :=
  match p.buf with
  | [] => some (some [], s)
  | cmd :: rest =>
    let args := rest.takeWhile (· ≠ 0)
    let reply (r : List Byte × GdbStub) := some (some r.1, r.2)
    match Char.ofNat cmd.toNat with
    | '\x03' => reply (s.stopReply SIG_INT false, s)
    | '?' => reply (s.stopReply SIG_TRAP false, s)
    | 'g' => reply (s.handleReadRegs, s)
    | 'G' => reply (s.handleWriteRegs args)
    | 'p' => reply (s.handleReadReg args, s)
    | 'P' => reply (s.handleWriteReg args)
    | 'm' => reply (s.handleReadMem args, s)
    | 'M' => reply (s.handleWriteMem args)
    | 'c' => s.handleContinue p.poll p.fuel args true
    | 'C' => s.handleContinue p.poll p.fuel args false
    | 's' => reply (s.handleStep args true)
    | 'S' => reply (s.handleStep args false)
    | 'Z' => reply (s.handleBp args true)
    | 'z' => reply (s.handleBp args false)
    | 'b' =>
      if args.getD 0 0 = 0x73#8 then reply s.handleReverseStep
      else if args.getD 0 0 = 0x63#8 then reply s.handleReverseContinue
      else reply ([], s)
    | 'H' => reply (ascii "OK", s)
    | 'q' => reply (s.handleQuery args, s)
    | 'v' => s.handleV p.poll p.fuel args
    | 'D' => reply (ascii "OK", { s with wantQuit := true })
    | 'k' => some (none, { s with wantQuit := true })
    | 'T' => reply (ascii "OK", s)
    | _ => reply ([], s)

/-- The packets of a session, until the debugger leaves. -/
def session (s : GdbStub) : List Packet → Option GdbStub
  | [] => some s
  | p :: ps => if s.dead || s.wantQuit then some s else (s.serve p).bind fun r => session r.2 ps

/-- The stub when the debugger attaches: no breakpoints, and a checkpoint of the machine as it is. -/
def attach (q : Handle) : GdbStub :=
  cpAdd
    { q := q, featSwbreak := true, dead := false, wantQuit := false, bp := fun _ => 0, bpUsed := fun _ => false,
      nsteps := 0, reverseUsed := false, lastCpStep := 0, cp := [] } 0

end GdbStub
end Quanta.Gdb
