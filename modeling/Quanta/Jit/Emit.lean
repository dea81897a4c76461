/-
The code generator of `jit.c`: the fixed-buffer assembler and the translation of one guest
instruction to host bytes. `Code` is the scratch buffer with its latched overflow flag; each
`x_*` helper appends the encoding of one host instruction form.
-/
import Quanta.Hart.Exec

namespace Quanta.Jit

/-! ## The buffer -/

abbrev JIT_CODE_MAX : Nat := 16384

structure Code where
  buf : List Byte
  fail : Bool
  deriving DecidableEq, Repr

namespace Code

/-- `eb`: append a byte, or latch the overflow. -/
def eb (c : Code) (b : Byte) : Code :=
  if c.buf.length < JIT_CODE_MAX then { c with buf := c.buf ++ [b] } else { c with fail := true }

/-- Append bytes one by one. -/
def ebs (c : Code) (bs : List Byte) : Code := bs.foldl eb c

/-- The bytes of a 32-bit immediate. -/
def bytes32 (v : BitVec 32) : List Byte :=
  [v.setWidth 8, (v >>> 8).setWidth 8, (v >>> 16).setWidth 8, (v >>> 24).setWidth 8]

/-- The bytes of a 64-bit immediate. -/
def bytes64 (v : BitVec 64) : List Byte := bytes32 (lo32 v) ++ bytes32 (lo32 (v >>> 32))

def e32 (c : Code) (v : BitVec 32) : Code := c.ebs (bytes32 v)
def e64 (c : Code) (v : BitVec 64) : Code := c.ebs (bytes64 v)

end Code

/-! ## Host instruction forms -/

/-- The host registers the generator names. -/
inductive HostReg
  | rax | rcx | rbx | rsi | rdi
  deriving DecidableEq, Repr

def HostReg.num : HostReg → Byte
  | .rax => 0
  | .rcx => 1
  | .rbx => 3
  | .rsi => 6
  | .rdi => 7

/-- `offsetof(CPU, regs) + 8 * i`. -/
def ROFF (i : BitVec 5) : BitVec 32 := BitVec.ofNat 32 (8 * i.toNat)
abbrev PCOFF : BitVec 32 := 512
abbrev IROFF : BitVec 32 := 576

namespace Code

variable (c : Code)

/-- The ModRM byte of a `[rbx+disp32]` operand, and of a register pair. -/
def memModRM (r : HostReg) : Byte := 0x80#8 ||| (r.num <<< 3) ||| HostReg.rbx.num
def regModRM (n rm : Byte) : Byte := 0xC0#8 ||| (n <<< 3) ||| rm

/-- `mov r64, [rbx+off]`, `mov r32, [rbx+off]` and `mov [rbx+off], r64`. -/
def xLd (r : HostReg) (off : BitVec 32) : Code := (c.ebs [0x48, 0x8B, memModRM r]).e32 off
def xLd32 (r : HostReg) (off : BitVec 32) : Code := (c.ebs [0x8B, memModRM r]).e32 off
def xSt (off : BitVec 32) (r : HostReg) : Code := (c.ebs [0x48, 0x89, memModRM r]).e32 off

/-- `mov r64, imm64`. -/
def xImm64 (r : HostReg) (v : BitVec 64) : Code := (c.ebs [0x48, 0xB8 + r.num]).e64 v

/-- `op dst, src` by its opcode, at 64 and 32 bits. -/
def xAlu (op : Byte) (dst src : HostReg) : Code := c.ebs [0x48, op, regModRM src.num dst.num]
def xAlu32 (op : Byte) (dst src : HostReg) : Code := c.ebs [op, regModRM src.num dst.num]

/-- Group 1 with a 32-bit immediate; `n` selects the operation. -/
def xAlui (n : Byte) (r : HostReg) (imm : BitVec 32) : Code := (c.ebs [0x48, 0x81, regModRM n r.num]).e32 imm
def xAlui32 (n : Byte) (r : HostReg) (imm : BitVec 32) : Code := (c.ebs [0x81, regModRM n r.num]).e32 imm

/-- Shift by an immediate or by cl; `n` selects the operation. -/
def xShifti (n : Byte) (r : HostReg) (w64 : Bool) (sh : BitVec 32) : Code :=
  (if w64 then c.eb 0x48 else c).ebs [0xC1, regModRM n r.num, sh.setWidth 8]
def xShiftcl (n : Byte) (r : HostReg) (w64 : Bool) : Code :=
  (if w64 then c.eb 0x48 else c).ebs [0xD3, regModRM n r.num]

/-- `movsxd rax, eax`. -/
def xSext32 : Code := c.ebs [0x48, 0x63, 0xC0]

/-- `setcc al; movzx eax, al`. -/
def xSetcc (cc : Byte) : Code := c.ebs [0x0F, cc, 0xC0, 0x0F, 0xB6, 0xC0]

/-- `cmovcc dst, src`. -/
def xCmov (cc : Byte) (dst src : HostReg) : Code := c.ebs [0x48, 0x0F, cc, regModRM dst.num src.num]

/-- `add qword [rbx+IROFF], n`: credit retired instructions. -/
def xRetire (n : BitVec 32) : Code := if n = 0 then c else ((c.ebs [0x48, 0x81, 0x83]).e32 IROFF).e32 n

/-- `mov eax, n`: the steps the block consumed. -/
def xRetSteps (n : BitVec 32) : Code := (c.eb 0xB8).e32 n

/-- `jmp .epi`, to the fixed offset 6. -/
def xJmpEpi : Code :=
  let c := c.eb 0xE9
  c.e32 (6 - (BitVec.ofNat 32 c.buf.length + 4))

/-- `je rel8` with the offset of its displacement, to be patched. -/
def xJe8 : Nat × Code :=
  let c := c.eb 0x74
  (c.buf.length, c.eb 0)

def xPatch8 (pos : Nat) : Code :=
  let dist := BitVec.ofNat 32 c.buf.length - BitVec.ofNat 32 (pos + 1)
  if JIT_CODE_MAX ≤ pos ∨ 127 < dist.toNat then { c with fail := true }
  else { c with buf := c.buf.set pos (dist.setWidth 8) }

/-- Call `fn(cpu, inst)` with the pc set to this instruction, and test its result. -/
def xCall (fn : BitVec 64) (inst : BitVec 32) (pcStored : BitVec 64) : Code :=
  let c := (c.xImm64 .rax pcStored).xSt PCOFF .rax
  let c := c.ebs [0x48, 0x89, 0xDF]
  let c := (c.eb 0xBE).e32 inst
  let c := (c.ebs [0x49, 0xBA]).e64 fn
  (c.ebs [0x41, 0xFF, 0xD2]).ebs [0x85, 0xC0]

/-! ## Exits -/

/-- The end of a path: credit `retired`, return `steps`, leave through the epilogue. -/
def exitWith (retired steps : BitVec 32) : Code := ((c.xRetire retired).xRetSteps steps).xJmpEpi

/-- After an ALU helper: fall through on 0, exit on a trap. `k` is the instruction's index. -/
def glueAlu (k : BitVec 32) : Code :=
  let (cont, c) := c.xJe8
  (c.exitWith k (k + 1)).xPatch8 cont

/-- After a memory helper: fall through on 0, exit on a trap, or on 3 leave the instruction to the
interpreter. -/
def glueMem (k : BitVec 32) : Code :=
  let (cont, c) := c.xJe8
  let c := c.ebs [0x83, 0xF8, 0x03]
  let (abort, c) := c.xJe8
  let c := (c.exitWith k (k + 1)).xPatch8 abort
  (c.exitWith k k).xPatch8 cont

/-- `put_rd`: rax to the guest's rd. -/
def putRd (xlen : Xlen) (rdn : BitVec 5) (needsSext : Bool) : Code :=
  let c := if xlen = .rv32 ∧ needsSext then c.xSext32 else c
  if rdn ≠ 0 then c.xSt (ROFF rdn) .rax else c

end Code

/-! ## One instruction -/

/-- The stored form of an architectural value. -/
abbrev sf : Xlen → BitVec 64 → BitVec 64 := sextXlen

/-- The addresses of `jit_h_alu` and `jit_h_mem`. -/
structure Fns where
  alu : BitVec 64
  mem : BitVec 64

/-- EM_CONT, EM_TERM and EM_STOP. -/
inductive Emitted
  | cont | term | stop
  deriving DecidableEq, Repr

section

variable (fns : Fns) (c : Code) (xlen : Xlen) (inst : BitVec 32) (vs : BitVec 64) (k : BitVec 32)

/-- The call to the ALU helper for what is not inlined. -/
def emitAluCall : Code := (c.xCall fns.alu inst vs).glueAlu k

/-- Does `emit_op_imm` inline this encoding? -/
def opImmInline : Bool :=
  match funct3 inst with
  | 0x1#3 => funct6 inst = 0x00#6
  | 0x5#3 => funct6 inst = 0x00#6 || funct6 inst = 0x10#6
  | _ => true

/-- `emit_op_imm`. -/
def emitOpImm : Code :=
  let rdn := rd inst
  let immw := immI inst
  let shamt := (inst >>> 20) &&& xlen.shmask
  let w64 := decide (xlen = .rv64)
  let ld := c.xLd .rax (ROFF (rs1 inst))
  if opImmInline inst then
    match funct3 inst with
    | 0x0#3 => (ld.xAlui 0 .rax immw).putRd xlen rdn true
    | 0x2#3 => ((ld.xAlui 7 .rax immw).xSetcc 0x9C).putRd xlen rdn false
    | 0x3#3 => ((ld.xAlui 7 .rax immw).xSetcc 0x92).putRd xlen rdn false
    | 0x4#3 => (ld.xAlui 6 .rax immw).putRd xlen rdn false
    | 0x6#3 => (ld.xAlui 1 .rax immw).putRd xlen rdn false
    | 0x7#3 => (ld.xAlui 4 .rax immw).putRd xlen rdn false
    | 0x1#3 => (ld.xShifti 4 .rax w64 shamt).putRd xlen rdn true
    | _ => (ld.xShifti (if funct6 inst = 0x10#6 then 7 else 5) .rax w64 shamt).putRd xlen rdn true
  else emitAluCall fns c inst vs k

/-- Does `emit_op` inline this encoding? -/
def opInline : Bool :=
  funct7 inst = 0x00#7 || (funct7 inst = 0x20#7 && (funct3 inst = 0x0#3 || funct3 inst = 0x5#3))

/-- `emit_op`. -/
def emitOp : Code :=
  let rdn := rd inst
  let w64 := decide (xlen = .rv64)
  let alt := decide (funct7 inst = 0x20#7)
  if opInline inst then
    let ld := (c.xLd .rax (ROFF (rs1 inst))).xLd .rcx (ROFF (rs2 inst))
    match funct3 inst with
    | 0x0#3 => (ld.xAlu (if alt then 0x29 else 0x01) .rax .rcx).putRd xlen rdn true
    | 0x1#3 => (ld.xShiftcl 4 .rax w64).putRd xlen rdn true
    | 0x2#3 => ((ld.xAlu 0x39 .rax .rcx).xSetcc 0x9C).putRd xlen rdn false
    | 0x3#3 => ((ld.xAlu 0x39 .rax .rcx).xSetcc 0x92).putRd xlen rdn false
    | 0x4#3 => (ld.xAlu 0x31 .rax .rcx).putRd xlen rdn false
    | 0x5#3 => (ld.xShiftcl (if alt then 7 else 5) .rax w64).putRd xlen rdn true
    | 0x6#3 => (ld.xAlu 0x09 .rax .rcx).putRd xlen rdn false
    | _ => (ld.xAlu 0x21 .rax .rcx).putRd xlen rdn false
  else emitAluCall fns c inst vs k

/-- Does `emit_op_imm32` inline this encoding? -/
def opImm32Inline : Bool :=
  funct3 inst = 0x0#3 || (funct3 inst = 0x1#3 && funct6 inst = 0x00#6) ||
  (funct3 inst = 0x5#3 && (funct6 inst = 0x00#6 || funct6 inst = 0x10#6))

/-- The end of the word forms: extend, and store unless rd is x0. -/
def putWord (rdn : BitVec 5) : Code :=
  let c := c.xSext32
  if rdn ≠ 0 then c.xSt (ROFF rdn) .rax else c

/-- `emit_op_imm32`. -/
def emitOpImm32 : Code :=
  let shamt := (inst >>> 20) &&& 0x1f#32
  if opImm32Inline inst then
    let ld := c.xLd32 .rax (ROFF (rs1 inst))
    let op :=
      if funct3 inst = 0x0#3 then ld.xAlui32 0 .rax (immI inst)
      else if funct3 inst = 0x1#3 then ld.xShifti 4 .rax false shamt
      else ld.xShifti (if funct6 inst = 0x10#6 then 7 else 5) .rax false shamt
    putWord op (rd inst)
  else emitAluCall fns c inst vs k

/-- Does `emit_op32` inline this encoding? -/
def op32Inline : Bool :=
  (funct7 inst = 0x00#7 && (funct3 inst = 0x0#3 || funct3 inst = 0x1#3 || funct3 inst = 0x5#3)) ||
  (funct7 inst = 0x20#7 && (funct3 inst = 0x0#3 || funct3 inst = 0x5#3))

/-- `emit_op32`. -/
def emitOp32 : Code :=
  let alt := decide (funct7 inst = 0x20#7)
  if op32Inline inst then
    let ld := (c.xLd32 .rax (ROFF (rs1 inst))).xLd32 .rcx (ROFF (rs2 inst))
    let op :=
      if funct3 inst = 0x0#3 then ld.xAlu32 (if alt then 0x29 else 0x01) .rax .rcx
      else if funct3 inst = 0x1#3 then ld.xShiftcl 4 .rax false
      else ld.xShiftcl (if alt then 7 else 5) .rax false
    putWord op (rd inst)
  else emitAluCall fns c inst vs k

end

/-- The condition codes of `OP_BRANCH`, by funct3. -/
def branchCc (f3 : BitVec 3) : Byte :=
  match f3 with
  | 0x0#3 => 0x44
  | 0x1#3 => 0x45
  | 0x4#3 => 0x4C
  | 0x5#3 => 0x4D
  | 0x6#3 => 0x42
  | 0x7#3 => 0x43
  | _ => 0

/-- A constant to a guest register, unless it is x0. -/
def emitConst (c : Code) (r : HostReg) (rdn : BitVec 5) (v : BitVec 64) : Code :=
  if rdn ≠ 0 then (c.xImm64 r v).xSt (ROFF rdn) r else c

/-- The end of a control transfer whose target is in rax. -/
def emitTransfer (c : Code) (k : BitVec 32) : Code := (c.xSt PCOFF .rax).exitWith (k + 1) (k + 1)

/-- `emit_insn`: the instruction at `va`, `k`-th of its block. On EM_STOP nothing is emitted. -/
def emitInsn (fns : Fns) (c : Code) (xlen : Xlen) (inst : BitVec 32) (va : BitVec 64) (ilen k : BitVec 32) :
    Emitted × Code :=
  let rdn := rd inst
  let vs := sf xlen va
  let next := sf xlen (va + ilen.setWidth 64)
  match opcode inst with
  | .lui => (.cont, emitConst c .rax rdn (sf xlen (sext (immU inst))))
  | .auipc => (.cont, emitConst c .rax rdn (sf xlen (va + sext (immU inst))))
  | .imm => (.cont, emitOpImm fns c xlen inst vs k)
  | .reg => (.cont, emitOp fns c xlen inst vs k)
  | .imm32 => if xlen = .rv64 then (.cont, emitOpImm32 fns c inst vs k) else (.stop, c)
  | .reg32 => if xlen = .rv64 then (.cont, emitOp32 fns c inst vs k) else (.stop, c)
  | .load => (.cont, (c.xCall fns.mem inst vs).glueMem k)
  | .store => (.cont, (c.xCall fns.mem inst vs).glueMem k)
  | .branch =>
    let taken := sf xlen (va + sext (immB inst))
    let c :=
      -- a reserved funct3 is never taken
      if funct3 inst = 0x2#3 ∨ funct3 inst = 0x3#3 then c.xImm64 .rax next
      else
        let ld := (c.xLd .rax (ROFF (rs1 inst))).xLd .rcx (ROFF (rs2 inst))
        (((ld.xAlu 0x39 .rax .rcx).xImm64 .rax next).xImm64 .rcx taken).xCmov (branchCc (funct3 inst)) .rax .rcx
    (.term, emitTransfer c k)
  | .jal =>
    let c := emitConst c .rax rdn next
    (.term, emitTransfer (c.xImm64 .rax (sf xlen (va + sext (immJ inst)))) k)
  | .jalr =>
    -- the target is read before the link is written: rd may be rs1
    let c := (c.xLd .rax (ROFF (rs1 inst))).xAlui 0 .rax (immI inst)
    let c := c.ebs [0x48, 0x83, 0xE0, 0xFE]
    let c := if xlen = .rv32 then c.xSext32 else c
    (.term, emitTransfer (emitConst c .rcx rdn next) k)
  | .fence => if funct3 inst = 0x1#3 then (.stop, c) else (.cont, c)
  | _ => (.stop, c)

end Quanta.Jit
