/-
The block cache of `jit.c`: `translate`, which fills the scratch buffer with the code of a block and
copies it into the arena, and `jit_run` up to the call into that code. The table is set-associative,
its entries live while they carry the current generation; a flush retires them all and recycles the
arena.
-/
import Quanta.Jit.Emit
import Quanta.Hart.Step

namespace Quanta.Jit

open Bytes

/-! ## The table and the arena -/

abbrev JIT_SETS : BitVec 64 := 8192
abbrev JIT_WAYS : Nat := 4
abbrev JIT_MAX_INSNS : Nat := 128
abbrev JIT_ARENA : Nat := 33554432

/-- `fn` is the offset of the block's code in the arena; `none` is NULL. `code` records the bytes put
there, which the source does not keep: nothing reads it. -/
structure JitEntry where
  gen : BitVec 64
  pa : BitVec 64
  va : BitVec 64
  fn : Option Nat
  ninsn : BitVec 32
  code : List Byte

/-- `struct Jit`. -/
structure JitState where
  gen : BitVec 64
  used : Nat
  arena : Nat → Byte
  victim : BitVec 32
  table : Nat → Nat → JitEntry

/-- `jit_new`: generation 1, every entry zeroed. -/
def jitNew : JitState := ⟨1, 0, fun _ => 0, 0, fun _ _ => ⟨0, 0, 0, none, 0, []⟩⟩

def jitFlush (j : JitState) : JitState := { j with gen := j.gen + 1, used := 0 }

def JitState.setEntry (j : JitState) (set way : Nat) (e : JitEntry) : JitState :=
  { j with table := Function.update j.table set (Function.update (j.table set) way e) }

/-! ## Translating a block -/

/-- `ram_fetch16`: a halfword of guest code, from RAM only. -/
def ramFetch16 (b : Bus) (pa : BitVec 64) : Option (BitVec 16) :=
  if b.isDevice pa then none
  else if pa.ult b.mem.base || b.mem.size.ult 2 || (b.mem.size - 2).ult (pa - b.mem.base) then none
  else
    let off := (pa - b.mem.base).toNat
    some ((b.mem.data off).setWidth 16 ||| ((b.mem.data (off + 1)).setWidth 16 <<< 8))

/-- The instruction at `va`, whose bytes are at `pa`, with its length: `none` ends the block. -/
def nextInsn (b : Bus) (xlen : Xlen) (pageEnd va pa : BitVec 64) : Option (BitVec 32 × BitVec 32) :=
  if pageEnd.ult (va + 2) then none
  else
    match ramFetch16 b pa with
    | none => none
    | some lo =>
      if lo.setWidth 2 ≠ 3#2 then
        let inst := rvcExpand lo (xlen = .rv64)
        if inst = RVC_ILLEGAL then none else some (inst, 2)
      else if pageEnd.ult (va + 4) then none
      else
        match ramFetch16 b (pa + 2) with
        | none => none
        | some hi => some (lo.setWidth 32 ||| (hi.setWidth 32 <<< 16), 4)

/-- A block being translated: the buffer, the instructions so far and their bytes, and whether a
control transfer ended it. -/
structure Block where
  code : Code
  n : Nat
  off : BitVec 64
  term : Bool

/-- The loop of `translate`, with `k` instructions left. -/
def translateLoop (fns : Fns) (b : Bus) (xlen : Xlen) (va0 pa : BitVec 64) : Nat → Block → Block
  | 0, s => s
  | k + 1, s =>
    let va := va0 + s.off
    match nextInsn b xlen ((va0 ||| 0xfff) + 1) va (pa + s.off) with
    | none => s
    | some (inst, ilen) =>
      match emitInsn fns s.code xlen inst va ilen (BitVec.ofNat 32 s.n) with
      | (.stop, c) => { s with code := c }
      | (.cont, c) => translateLoop fns b xlen va0 pa k ⟨c, s.n + 1, s.off + ilen.setWidth 64, false⟩
      | (.term, c) => ⟨c, s.n + 1, s.off + ilen.setWidth 64, true⟩

/-- The prologue, and the epilogue at offset 6. -/
def prologue : Code :=
  (((Code.mk [] false).eb 0x53).ebs [0x48, 0x89, 0xFB]).ebs [0xEB, 0x02, 0x5B, 0xC3]

/-- The code of the block at the pc, physically at `pa`, and its number of instructions. A block that
no control transfer ended hands the next pc to the dispatcher. -/
def blockCode (fns : Fns) (m : Machine) (pa : BitVec 64) : Code × Nat :=
  let xlen := m.xlen
  let va0 := if xlen = .rv64 then m.cpu.pc else m.cpu.pc &&& 0xffffffff
  let s := translateLoop fns m.bus xlen va0 pa JIT_MAX_INSNS ⟨prologue, 0, 0, false⟩
  if s.n = 0 then (s.code, 0)
  else if s.term then (s.code, s.n)
  else
    let n := BitVec.ofNat 32 s.n
    (((s.code.xImm64 .rax (sf xlen (va0 + s.off))).xSt PCOFF .rax).exitWith n n, s.n)

/-- `translate`: on failure the entry keeps its NULL. A full arena is recycled, and the entry reclaimed
under the new generation. -/
def translate (fns : Fns) (j : JitState) (m : Machine) (set way : Nat) (pa : BitVec 64) : JitState :=
  let (c, n) := blockCode fns m pa
  if n = 0 then j
  else if c.fail then j
  else
    let full := JIT_ARENA < j.used + c.buf.length
    let j := if full then jitFlush j else j
    let e := j.table set way
    let e := if full then { e with gen := j.gen } else e
    let entry := j.used
    let j := { j with arena := writeBytes j.arena j.used c.buf, used := j.used + c.buf.length }
    j.setEntry set way { e with fn := some entry, ninsn := BitVec.ofNat 32 n, code := c.buf }

/-! ## Dispatch -/

/-- How `jit_run` ends: it returns a number of steps, or calls the code at an offset of the arena. -/
inductive Dispatched
  | returns (steps : BitVec 64)
  | enters (fn : Nat)
  deriving DecidableEq

/-- The first way of a set that satisfies `p`. -/
def findWay (row : Nat → JitEntry) (p : JitEntry → Bool) : Option Nat := (List.range JIT_WAYS).find? fun w => p (row w)

/-- The way a missing block goes to: a stale one, else the rotating victim. -/
def chooseWay (j : JitState) (set : Nat) : Nat × JitState :=
  match findWay (j.table set) fun e => e.gen ≠ j.gen with
  | some w => (w, j)
  | none => ((j.victim &&& 3).toNat, { j with victim := j.victim + 1 })

/-- The set of the blocks at `pa`. -/
def setOf (pa : BitVec 64) : Nat := ((pa >>> 1) &&& (JIT_SETS - 1)).toNat

/-- The way of the block at `pa` and `va`, translated unless it is there. -/
def lookupBlock (fns : Fns) (j : JitState) (m : Machine) (pa : BitVec 64) : Nat × JitState :=
  let set := setOf pa
  match findWay (j.table set) fun e => e.gen = j.gen ∧ e.pa = pa ∧ e.va = m.cpu.pc with
  | some w => (w, j)
  | none =>
    let (w, j) := chooseWay j set
    (w, translate fns (j.setEntry set w ⟨j.gen, pa, m.cpu.pc, none, 0, []⟩) m set w pa)

/-- `jit_run` up to the call of the block. -/
def jitRun (fns : Fns) (j : JitState) (m : Machine) (maxSteps : BitVec 64) : Dispatched × JitState × Machine :=
  match m.beginStep.preStep with
  | (true, m) => (.returns 1, j, m)
  | (false, m) =>
    match m.translate m.cpu.pc .fetch with
    | (.error _, m) => (.returns 0, j, m)
    | (.ok pa, m) =>
      let (w, j) := lookupBlock fns j m pa
      let e := j.table (setOf pa) w
      match e.fn with
      | none => (.returns 0, j, m)
      | some fn =>
        if maxSteps.ult (e.ninsn.setWidth 64) then (.returns 0, j, m)
        else if (m.cpu.interruptHorizon m.bus).ult (e.ninsn.setWidth 64) then (.returns 0, j, m)
        else (.enters fn, j, m)

end Quanta.Jit
