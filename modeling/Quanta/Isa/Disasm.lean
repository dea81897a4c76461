/-
The disassembler, `disasm.c`: one instruction word to its text, by opcode and then by funct3 and
funct7 as the executors decode it, with the pseudo-instructions `objdump` prints. The text is kept
apart from the raw `.word` and `.short` of an encoding the disassembler does not know.
-/
import Quanta.Isa.Alu

namespace Quanta

/-- What the disassembler prints: an instruction, or the raw word or halfword. -/
inductive Rendering
  | text (s : String)
  | word (inst : BitVec 32)
  | short (half : BitVec 16)
  deriving DecidableEq

namespace Disasm

/-! ## Names and numbers -/

def regAbiName (i : BitVec 5) : String :=
  ["zero", "ra", "sp", "gp", "tp", "t0", "t1", "t2", "s0", "s1", "a0", "a1", "a2", "a3", "a4", "a5",
    "a6", "a7", "s2", "s3", "s4", "s5", "s6", "s7", "s8", "s9", "s10", "s11", "t3", "t4", "t5", "t6"].getD i.toNat ""

def fregAbiName (i : BitVec 5) : String :=
  ["ft0", "ft1", "ft2", "ft3", "ft4", "ft5", "ft6", "ft7", "fs0", "fs1", "fa0", "fa1", "fa2", "fa3", "fa4", "fa5",
    "fa6", "fa7", "fs2", "fs3", "fs4", "fs5", "fs6", "fs7", "fs8", "fs9", "fs10", "fs11", "ft8", "ft9", "ft10",
    "ft11"].getD i.toNat ""

/-- `%x`. -/
def hex (n : Nat) : String := String.ofList (Nat.toDigits 16 n)

/-- `%0kx`. -/
def hexPad (k n : Nat) : String :=
  let digits := Nat.toDigits 16 n
  String.ofList (List.replicate (k - digits.length) '0' ++ digits)

/-- `%d` of an immediate. -/
def dec (imm : BitVec 32) : String := toString imm.toInt

/-- The CSRs `objdump` prints by name. -/
def csrName (addr : BitVec 12) : Option String :=
  match addr with
  | 0xc00#12 => some "cycle"
  | 0xc01#12 => some "time"
  | 0xc02#12 => some "instret"
  | 0xc80#12 => some "cycleh"
  | 0xc81#12 => some "timeh"
  | 0xc82#12 => some "instreth"
  | 0x100#12 => some "sstatus"
  | 0x104#12 => some "sie"
  | 0x105#12 => some "stvec"
  | 0x106#12 => some "scounteren"
  | 0x140#12 => some "sscratch"
  | 0x141#12 => some "sepc"
  | 0x142#12 => some "scause"
  | 0x143#12 => some "stval"
  | 0x144#12 => some "sip"
  | 0x180#12 => some "satp"
  | 0xf11#12 => some "mvendorid"
  | 0xf12#12 => some "marchid"
  | 0xf13#12 => some "mimpid"
  | 0xf14#12 => some "mhartid"
  | 0x300#12 => some "mstatus"
  | 0x301#12 => some "misa"
  | 0x302#12 => some "medeleg"
  | 0x303#12 => some "mideleg"
  | 0x304#12 => some "mie"
  | 0x305#12 => some "mtvec"
  | 0x306#12 => some "mcounteren"
  | 0x310#12 => some "mstatush"
  | 0x340#12 => some "mscratch"
  | 0x341#12 => some "mepc"
  | 0x342#12 => some "mcause"
  | 0x343#12 => some "mtval"
  | 0x344#12 => some "mip"
  | _ => none

def csrRdPseudo (addr : BitVec 12) : Option String :=
  match addr with
  | 0xc00#12 => some "rdcycle"
  | 0xc01#12 => some "rdtime"
  | 0xc02#12 => some "rdinstret"
  | 0xc80#12 => some "rdcycleh"
  | 0xc81#12 => some "rdtimeh"
  | 0xc82#12 => some "rdinstreth"
  | _ => none

/-! ## Operand shapes -/

/-- `m a`, `m a,b` and `m a,b,c`. -/
def op1 (m a : String) : Rendering := .text s!"{m} {a}"
def op2 (m a b : String) : Rendering := .text s!"{m} {a},{b}"
def op3 (m a b c : String) : Rendering := .text s!"{m} {a},{b},{c}"

/-- `m r,off(base)`. -/
def memOp (m r base : String) (imm : BitVec 32) : Rendering :=
  let off := dec imm
  .text s!"{m} {r},{off}({base})"

/-- An address as `0x%08x`. -/
def target (pc : BitVec 64) (imm : BitVec 32) : String := "0x" ++ hexPad 8 (pc.setWidth 32 + imm).toNat

/-- A shift amount as `0x%x`. -/
def shamtText (n : Nat) : String := "0x" ++ hex n

/-! ## Zicsr, OP-FP and bit manipulation -/

def disasmCsr (inst : BitVec 32) : Rendering :=
  let addr := csrField inst
  let d := regAbiName (rd inst)
  let s1 := regAbiName (rs1 inst)
  let imm := toString (rs1 inst).toNat
  let csr := (csrName addr).getD ("0x" ++ hex addr.toNat)
  match funct3 inst with
  | 0x1#3 => if rd inst = 0 then op2 "csrw" csr s1 else op3 "csrrw" d csr s1
  | 0x2#3 =>
    if rs1 inst = 0 then
      match csrRdPseudo addr with
      | some p => op1 p d
      | none => op2 "csrr" d csr
    else if rd inst = 0 then op2 "csrs" csr s1
    else op3 "csrrs" d csr s1
  | 0x3#3 => if rd inst = 0 then op2 "csrc" csr s1 else op3 "csrrc" d csr s1
  | 0x5#3 => if rd inst = 0 then op2 "csrwi" csr imm else op3 "csrrwi" d csr imm
  | 0x6#3 => if rd inst = 0 then op2 "csrsi" csr imm else op3 "csrrsi" d csr imm
  | 0x7#3 => if rd inst = 0 then op2 "csrci" csr imm else op3 "csrrci" d csr imm
  | _ => .word inst

/-- The 2-bit format field is single or anything else. -/
def fpWidth (inst : BitVec 32) : String := if inst.extractLsb' 25 2 ≠ 0#2 then "d" else "s"

/-- The integer side of a conversion by the rs2 field. -/
def cvtInt (sel : BitVec 5) : String :=
  if sel = 0 then "w" else if sel = 1 then "wu" else if sel = 2 then "l" else "lu"

def disasmFp (inst : BitVec 32) : Rendering :=
  let f3 := funct3 inst
  let w := fpWidth inst
  let fd := fregAbiName (rd inst)
  let f1 := fregAbiName (rs1 inst)
  let f2 := fregAbiName (rs2 inst)
  let xd := regAbiName (rd inst)
  let x1 := regAbiName (rs1 inst)
  let cvt := cvtInt (rs2 inst)
  let wide : Bool := inst.extractLsb' 25 2 ≠ 0#2
  match funct5 inst with
  | 0x00#5 => op3 s!"fadd.{w}" fd f1 f2
  | 0x01#5 => op3 s!"fsub.{w}" fd f1 f2
  | 0x02#5 => op3 s!"fmul.{w}" fd f1 f2
  | 0x03#5 => op3 s!"fdiv.{w}" fd f1 f2
  | 0x0b#5 => op2 s!"fsqrt.{w}" fd f1
  | 0x04#5 =>
    let m := if f3 = 0 then "fsgnj" else if f3 = 1 then "fsgnjn" else "fsgnjx"
    if f3 = 0 ∧ rs1 inst = rs2 inst then op2 s!"fmv.{w}" fd f1 else op3 s!"{m}.{w}" fd f1 f2
  | 0x05#5 =>
    let m := if f3 ≠ 0 then "fmax" else "fmin"
    op3 s!"{m}.{w}" fd f1 f2
  | 0x08#5 => op2 (if wide then "fcvt.d.s" else "fcvt.s.d") fd f1
  | 0x14#5 =>
    let m := if f3 = 2 then "feq" else if f3 = 1 then "flt" else "fle"
    op3 s!"{m}.{w}" xd f1 f2
  | 0x1c#5 =>
    if f3 = 0 then op2 (if wide then "fmv.x.d" else "fmv.x.w") xd f1 else op2 s!"fclass.{w}" xd f1
  | 0x1e#5 => op2 (if wide then "fmv.d.x" else "fmv.w.x") fd x1
  | 0x18#5 => op2 s!"fcvt.{cvt}.{w}" xd f1
  | 0x1a#5 => op2 s!"fcvt.{w}.{cvt}" fd x1
  | _ => .word inst

/-- The mnemonic of a Zba, Zbb, Zbs or Zbc register operation. -/
def bitmanipRegName (f7 : BitVec 7) (f3 : BitVec 3) : Option String :=
  match f7 with
  | 0x10#7 => if f3 = 0x2 then some "sh1add" else if f3 = 0x4 then some "sh2add" else if f3 = 0x6 then some "sh3add" else none
  | 0x20#7 => if f3 = 0x7 then some "andn" else if f3 = 0x6 then some "orn" else if f3 = 0x4 then some "xnor" else none
  | 0x30#7 => if f3 = 0x1 then some "rol" else if f3 = 0x5 then some "ror" else none
  | 0x05#7 =>
    match f3 with
    | 0x1#3 => some "clmul"
    | 0x2#3 => some "clmulr"
    | 0x3#3 => some "clmulh"
    | 0x4#3 => some "min"
    | 0x5#3 => some "minu"
    | 0x6#3 => some "max"
    | 0x7#3 => some "maxu"
    | _ => none
  | 0x24#7 => if f3 = 0x1 then some "bclr" else if f3 = 0x5 then some "bext" else none
  | 0x14#7 => if f3 = 0x1 then some "bset" else none
  | 0x34#7 => if f3 = 0x1 then some "binv" else none
  | _ => none

/-- The mnemonic of a Zba or Zbb word operation. -/
def bitmanipReg32Name (f7 : BitVec 7) (f3 : BitVec 3) : Option String :=
  match f7 with
  | 0x10#7 =>
    if f3 = 0x2 then some "sh1add.uw" else if f3 = 0x4 then some "sh2add.uw" else if f3 = 0x6 then some "sh3add.uw" else none
  | 0x30#7 => if f3 = 0x1 then some "rolw" else if f3 = 0x5 then some "rorw" else none
  | _ => none

/-- The mnemonic of a Zbb unary operation on OP-IMM, by the rs2 field. -/
def unaryName (sel : BitVec 5) : Option String :=
  match sel with
  | 0x00#5 => some "clz"
  | 0x01#5 => some "ctz"
  | 0x02#5 => some "cpop"
  | 0x04#5 => some "sext.b"
  | 0x05#5 => some "sext.h"
  | _ => none

/-- The mnemonic of a Zbb unary word operation on OP-IMM-32. -/
def unaryWordName (sel : BitVec 5) : Option String :=
  match sel with
  | 0x00#5 => some "clzw"
  | 0x01#5 => some "ctzw"
  | 0x02#5 => some "cpopw"
  | _ => none

/-- Zba, Zbb, Zbs and Zbc, or nothing so that the base path runs. -/
def disasmBitmanip (inst : BitVec 32) : Option Rendering :=
  let f3 := funct3 inst
  let f7 := funct7 inst
  let f6 := funct6 inst
  let rs2f := rs2 inst
  let d := regAbiName (rd inst)
  let s1 := regAbiName (rs1 inst)
  let s2 := regAbiName (rs2 inst)
  let shamt := shamtText (inst.extractLsb' 20 6).toNat
  match opcode inst with
  | .reg =>
    if f7 = 0x04 ∧ f3 = 0x4 ∧ rs2f = 0 then some (op2 "zext.h" d s1)
    else (bitmanipRegName f7 f3).map fun name => op3 name d s1 s2
  | .reg32 =>
    if f7 = 0x04 ∧ f3 = 0x0 then some (op3 "add.uw" d s1 s2)
    else if f7 = 0x04 ∧ f3 = 0x4 ∧ rs2f = 0 then some (op2 "zext.h" d s1)
    else (bitmanipReg32Name f7 f3).map fun name => op3 name d s1 s2
  | .imm =>
    if f3 = 0x1 then
      if f7 = 0x30 then (unaryName rs2f).map fun name => op2 name d s1
      else if f6 = 0x12 then some (op3 "bclri" d s1 shamt)
      else if f6 = 0x1a then some (op3 "binvi" d s1 shamt)
      else if f6 = 0x0a then some (op3 "bseti" d s1 shamt)
      else none
    else if f3 = 0x5 then
      if f6 = 0x18 then some (op3 "rori" d s1 shamt)
      else if f6 = 0x12 then some (op3 "bexti" d s1 shamt)
      else if f7 = 0x14 ∧ rs2f = 0x07 then some (op2 "orc.b" d s1)
      else if (f7 = 0x34 ∨ f7 = 0x35) ∧ rs2f = 0x18 then some (op2 "rev8" d s1)
      else none
    else none
  | .imm32 =>
    if f3 = 0x1 then
      if f6 = 0x02 then some (op3 "slli.uw" d s1 shamt)
      else if f7 = 0x30 then (unaryWordName rs2f).map fun name => op2 name d s1
      else none
    else if f3 = 0x5 ∧ f7 = 0x30 then some (op3 "roriw" d s1 (shamtText rs2f.toNat))
    else none
  | _ => none

/-! ## The base instructions, by opcode -/

/-- A branch: `beqz` and its kin when a source is `x0`. -/
def disasmBranch (pc : BitVec 64) (inst : BitVec 32) : Rendering :=
  let tgt := target pc (immB inst)
  let s1 := regAbiName (rs1 inst)
  let s2 := regAbiName (rs2 inst)
  let z1 : Bool := rs1 inst = 0
  let z2 : Bool := rs2 inst = 0
  match funct3 inst with
  | 0x0#3 => if z2 then op2 "beqz" s1 tgt else op3 "beq" s1 s2 tgt
  | 0x1#3 => if z2 then op2 "bnez" s1 tgt else op3 "bne" s1 s2 tgt
  | 0x4#3 => if z2 then op2 "bltz" s1 tgt else if z1 then op2 "bgtz" s2 tgt else op3 "blt" s1 s2 tgt
  | 0x5#3 => if z2 then op2 "bgez" s1 tgt else if z1 then op2 "blez" s2 tgt else op3 "bge" s1 s2 tgt
  | 0x6#3 => op3 "bltu" s1 s2 tgt
  | 0x7#3 => op3 "bgeu" s1 s2 tgt
  | _ => .word inst

def loadName (f3 : BitVec 3) : Option String :=
  match f3 with
  | 0x0#3 => some "lb"
  | 0x1#3 => some "lh"
  | 0x2#3 => some "lw"
  | 0x3#3 => some "ld"
  | 0x4#3 => some "lbu"
  | 0x5#3 => some "lhu"
  | 0x6#3 => some "lwu"
  | _ => none

def storeName (f3 : BitVec 3) : Option String :=
  match f3 with
  | 0x0#3 => some "sb"
  | 0x1#3 => some "sh"
  | 0x2#3 => some "sw"
  | 0x3#3 => some "sd"
  | _ => none

def amoName (f5 : BitVec 5) : Option String :=
  match f5 with
  | 0x03#5 => some "sc"
  | 0x01#5 => some "amoswap"
  | 0x00#5 => some "amoadd"
  | 0x04#5 => some "amoxor"
  | 0x0c#5 => some "amoand"
  | 0x08#5 => some "amoor"
  | 0x10#5 => some "amomin"
  | 0x14#5 => some "amomax"
  | 0x18#5 => some "amominu"
  | 0x1c#5 => some "amomaxu"
  | _ => none

/-- The suffix of the aq and rl bits. -/
def aqrl (inst : BitVec 32) : String :=
  if inst.extractLsb' 25 2 = 3#2 then ".aqrl"
  else if inst.getLsbD 26 then ".aq"
  else if inst.getLsbD 25 then ".rl"
  else ""

/-- RV-A: funct5 picks the operation, funct3 the width. -/
def disasmAmo (inst : BitVec 32) : Rendering :=
  let f5 := funct5 inst
  let suffix := aqrl inst
  let d := regAbiName (rd inst)
  let s1 := regAbiName (rs1 inst)
  let s2 := regAbiName (rs2 inst)
  let wd := match funct3 inst with
    | 0x2#3 => some "w"
    | 0x3#3 => some "d"
    | _ => none
  match wd with
  | none => .word inst
  | some wd =>
    if f5 = 0x02 then .text s!"lr.{wd}{suffix} {d},({s1})"
    else match amoName f5 with
      | some m => .text s!"{m}.{wd}{suffix} {d},{s2},({s1})"
      | none => .word inst

/-- `jalr`, as `ret` and `jr` where nothing is linked. -/
def disasmJalr (inst : BitVec 32) : Rendering :=
  let imm := immI inst
  let r := rd inst
  let s1 := regAbiName (rs1 inst)
  if r = 0 ∧ imm = 0 ∧ rs1 inst = 1 then .text "ret"
  else if r = 0 ∧ imm = 0 then op1 "jr" s1
  else if r = 1 ∧ imm = 0 then op1 "jalr" s1
  else memOp "jalr" (regAbiName r) s1 imm

def disasmJal (pc : BitVec 64) (inst : BitVec 32) : Rendering :=
  let tgt := target pc (immJ inst)
  if rd inst = 0 then op1 "j" tgt
  else if rd inst = 1 then op1 "jal" tgt
  else op2 "jal" (regAbiName (rd inst)) tgt

/-- OP-IMM. -/
def disasmImm (inst : BitVec 32) (xlen : Nat) : Rendering :=
  let imm := immI inst
  let d := regAbiName (rd inst)
  let s1 := regAbiName (rs1 inst)
  let shamt := shamtText (if xlen = 64 then (inst.extractLsb' 20 6).toNat else (rs2 inst).toNat)
  match funct3 inst with
  | 0x0#3 =>
    if rd inst = 0 ∧ rs1 inst = 0 ∧ imm = 0 then .text "nop"
    else if rs1 inst = 0 then op2 "li" d (dec imm)
    else if imm = 0 then op2 "mv" d s1
    else op3 "addi" d s1 (dec imm)
  | 0x2#3 => op3 "slti" d s1 (dec imm)
  | 0x3#3 => if imm = 1 then op2 "seqz" d s1 else op3 "sltiu" d s1 (dec imm)
  | 0x4#3 => if imm = -1 then op2 "not" d s1 else op3 "xori" d s1 (dec imm)
  | 0x6#3 => op3 "ori" d s1 (dec imm)
  | 0x7#3 => op3 "andi" d s1 (dec imm)
  | 0x1#3 => op3 "slli" d s1 shamt
  | 0x5#3 => if inst.getLsbD 30 then op3 "srai" d s1 shamt else op3 "srli" d s1 shamt
  | _ => .word inst

/-- OP-IMM-32. -/
def disasmImm32 (inst : BitVec 32) : Rendering :=
  let imm := immI inst
  let d := regAbiName (rd inst)
  let s1 := regAbiName (rs1 inst)
  let shamt := shamtText (rs2 inst).toNat
  match funct3 inst with
  | 0x0#3 => if imm = 0 then op2 "sext.w" d s1 else op3 "addiw" d s1 (dec imm)
  | 0x1#3 => op3 "slliw" d s1 shamt
  | 0x5#3 => if inst.getLsbD 30 then op3 "sraiw" d s1 shamt else op3 "srliw" d s1 shamt
  | _ => .word inst

/-- OP. -/
def disasmReg (inst : BitVec 32) : Rendering :=
  let d := regAbiName (rd inst)
  let s1 := regAbiName (rs1 inst)
  let s2 := regAbiName (rs2 inst)
  let f3 := funct3 inst
  let f7 := funct7 inst
  if f7 = 0x01 then
    op3 (["mul", "mulh", "mulhsu", "mulhu", "div", "divu", "rem", "remu"].getD f3.toNat "") d s1 s2
  else match f3 with
    | 0x0#3 =>
      if f7 = 0x20 then
        if rs1 inst = 0 then op2 "neg" d s2 else op3 "sub" d s1 s2
      else op3 "add" d s1 s2
    | 0x1#3 => op3 "sll" d s1 s2
    | 0x2#3 =>
      if rs2 inst = 0 then op2 "sltz" d s1
      else if rs1 inst = 0 then op2 "sgtz" d s2
      else op3 "slt" d s1 s2
    | 0x3#3 => if rs1 inst = 0 then op2 "snez" d s2 else op3 "sltu" d s1 s2
    | 0x4#3 => op3 "xor" d s1 s2
    | 0x5#3 => if f7 = 0x20 then op3 "sra" d s1 s2 else op3 "srl" d s1 s2
    | 0x6#3 => op3 "or" d s1 s2
    | 0x7#3 => op3 "and" d s1 s2
    | _ => .word inst

/-- The mnemonics of RV64M's word operations. -/
def mulWordName (f3 : BitVec 3) : Option String :=
  match f3 with
  | 0x0#3 => some "mulw"
  | 0x4#3 => some "divw"
  | 0x5#3 => some "divuw"
  | 0x6#3 => some "remw"
  | 0x7#3 => some "remuw"
  | _ => none

/-- OP-32. -/
def disasmReg32 (inst : BitVec 32) : Rendering :=
  let d := regAbiName (rd inst)
  let s1 := regAbiName (rs1 inst)
  let s2 := regAbiName (rs2 inst)
  let f3 := funct3 inst
  let f7 := funct7 inst
  if f7 = 0x01 then
    match mulWordName f3 with
    | some m => op3 m d s1 s2
    | none => .word inst
  else match f3 with
    | 0x0#3 =>
      if f7 = 0x20 then
        if rs1 inst = 0 then op2 "negw" d s2 else op3 "subw" d s1 s2
      else op3 "addw" d s1 s2
    | 0x1#3 => op3 "sllw" d s1 s2
    | 0x5#3 => if f7 = 0x20 then op3 "sraw" d s1 s2 else op3 "srlw" d s1 s2
    | _ => .word inst

/-- SYSTEM. -/
def disasmSystem (inst : BitVec 32) : Rendering :=
  let s1 := regAbiName (rs1 inst)
  let s2 := regAbiName (rs2 inst)
  let f12 := csrField inst
  if funct3 inst = 0 then
    if funct7 inst = 0x09 then
      if rs1 inst = 0 ∧ rs2 inst = 0 then .text "sfence.vma" else op2 "sfence.vma" s1 s2
    else if f12 = 0x000 then .text "ecall"
    else if f12 = 0x001 then .text "ebreak"
    else if f12 = 0x302 then .text "mret"
    else if f12 = 0x102 then .text "sret"
    else if f12 = 0x105 then .text "wfi"
    else .word inst
  else disasmCsr inst

/-- The fused multiply-adds; `rs3` is the top five bits. -/
def disasmFma (m : String) (inst : BitVec 32) : Rendering :=
  let w := fpWidth inst
  let fd := fregAbiName (rd inst)
  let f1 := fregAbiName (rs1 inst)
  let f2 := fregAbiName (rs2 inst)
  let f3 := fregAbiName (funct5 inst)
  .text s!"{m}.{w} {fd},{f1},{f2},{f3}"

/-- A load or store whose mnemonic, if funct3 has one, is `m`. -/
def memOr (m : Option String) (r base : String) (imm inst : BitVec 32) : Rendering :=
  match m with
  | some m => memOp m r base imm
  | none => .word inst

/-- The 32-bit instruction. -/
def disasmWord (pc : BitVec 64) (inst : BitVec 32) (xlen : Nat) : Rendering :=
  let f3 := funct3 inst
  let d := regAbiName (rd inst)
  let s1 := regAbiName (rs1 inst)
  let s2 := regAbiName (rs2 inst)
  let upper := "0x" ++ hex (inst >>> 12).toNat
  match opcode inst with
  | .lui => op2 "lui" d upper
  | .auipc => op2 "auipc" d upper
  | .jal => disasmJal pc inst
  | .jalr => disasmJalr inst
  | .branch => disasmBranch pc inst
  | .load => memOr (loadName f3) d s1 (immI inst) inst
  | .store => memOr (storeName f3) s2 s1 (immS inst) inst
  | .amo => disasmAmo inst
  | .fence => .text (if f3 = 0x1 then "fence.i" else "fence")
  | .loadFp =>
    memOr (if f3 = 0x2 then some "flw" else if f3 = 0x3 then some "fld" else none)
      (fregAbiName (rd inst)) s1 (immI inst) inst
  | .storeFp =>
    memOr (if f3 = 0x2 then some "fsw" else if f3 = 0x3 then some "fsd" else none)
      (fregAbiName (rs2 inst)) s1 (immS inst) inst
  | .madd => disasmFma "fmadd" inst
  | .msub => disasmFma "fmsub" inst
  | .nmsub => disasmFma "fnmsub" inst
  | .nmadd => disasmFma "fnmadd" inst
  | .fp => disasmFp inst
  | .imm => (disasmBitmanip inst).getD (disasmImm inst xlen)
  | .imm32 => (disasmBitmanip inst).getD (disasmImm32 inst)
  | .reg => (disasmBitmanip inst).getD (disasmReg inst)
  | .reg32 => (disasmBitmanip inst).getD (disasmReg32 inst)
  | .system => disasmSystem inst
  | .other => .word inst

end Disasm

open Disasm in
/-- `disasm`: a compressed halfword is printed as the instruction it abbreviates. -/
def disasm (pc : BitVec 64) (inst : BitVec 32) (xlen : Nat) : Rendering :=
  if inst &&& 3 ≠ 3 then
    let x := rvcExpand (inst.setWidth 16) (xlen = 64)
    if x = RVC_ILLEGAL then .short (inst.setWidth 16)
    -- `C.MV` expands to an `add` from `x0`, which only the compressed form prints as `mv`
    else if opcode x = .reg ∧ funct3 x = 0 ∧ funct7 x = 0 ∧ rs1 x = 0 then
      op2 "mv" (regAbiName (rd x)) (regAbiName (rs2 x))
    else disasmWord pc x xlen
  else disasmWord pc inst xlen

/-! ## Which words are printed raw -/

namespace Disasm

variable {inst : BitVec 32}

@[simp] theorem op1_ne_word (m a : String) (w : BitVec 32) : op1 m a ≠ .word w := nofun
@[simp] theorem op2_ne_word (m a b : String) (w : BitVec 32) : op2 m a b ≠ .word w := nofun
@[simp] theorem op3_ne_word (m a b c : String) (w : BitVec 32) : op3 m a b c ≠ .word w := nofun
@[simp] theorem memOp_ne_word (m r base : String) (imm w : BitVec 32) : memOp m r base imm ≠ .word w := nofun
@[simp] theorem disasmFma_ne_word (m : String) (inst w : BitVec 32) : disasmFma m inst ≠ .word w := nofun

theorem disasmJal_ne_word (pc : BitVec 64) (inst w : BitVec 32) : disasmJal pc inst ≠ .word w := by
  intro h
  unfold disasmJal at h
  dsimp only at h
  split at h
  · simp at h
  split at h <;> simp at h

theorem memOr_word {m : Option String} {r base : String} {imm inst : BitVec 32}
    (h : memOr m r base imm inst = .word inst) : m = none := by
  unfold memOr at h
  split at h
  · simp at h
  · rfl

/-- The OP-FP operations the disassembler knows. -/
def fpKnown : List (BitVec 5) :=
  [0x00, 0x01, 0x02, 0x03, 0x0b, 0x04, 0x05, 0x08, 0x14, 0x1c, 0x1e, 0x18, 0x1a]

theorem disasmFp_word (h : disasmFp inst = .word inst) : funct5 inst ∉ fpKnown := by
  unfold disasmFp at h
  dsimp only at h
  split at h
  case h_6 => split at h <;> simp at h
  case h_10 => split at h <;> simp at h
  case h_14 => simp_all [fpKnown]
  all_goals simp at h

theorem disasmAmo_word (h : disasmAmo inst = .word inst) :
    (funct3 inst ≠ 2#3 ∧ funct3 inst ≠ 3#3) ∨ (funct5 inst ≠ 0x02#5 ∧ amoName (funct5 inst) = none) := by
  unfold disasmAmo at h
  dsimp only at h
  split at h
  · next hw =>
    refine Or.inl ?_
    split at hw
    · cases hw
    · cases hw
    · exact ⟨‹_›, ‹_›⟩
  split at h
  · cases h
  · next h5 =>
    split at h
    · cases h
    · exact Or.inr ⟨h5, ‹_›⟩

/-- A bit-manipulation instruction that is recognised is never printed raw. -/
theorem disasmBitmanip_ne_word (w : BitVec 32) : disasmBitmanip inst ≠ some (.word w) := by
  have hmap : ∀ (o : Option String) (f : String → Rendering), (∀ s, f s ≠ .word w) → o.map f ≠ some (.word w) := by
    intro o f hf h
    obtain ⟨s, _, hs⟩ := Option.map_eq_some_iff.mp h
    exact hf s hs
  intro h
  unfold disasmBitmanip at h
  dsimp only at h
  split at h
  all_goals repeat' split at h
  all_goals first
    | exact hmap _ _ (by simp) h
    | simp at h

/-- The base path of a raw word, once the bit-manipulation instructions are ruled out. -/
theorem getD_word {r : Rendering} (h : (disasmBitmanip inst).getD r = .word inst) :
    disasmBitmanip inst = none ∧ r = .word inst := by
  cases hb : disasmBitmanip inst with
  | none => exact ⟨rfl, by rwa [hb] at h⟩
  | some t =>
    rw [hb, Option.getD_some] at h
    rw [h] at hb
    exact absurd hb (disasmBitmanip_ne_word inst)

theorem disasmReg32_word (h : disasmReg32 inst = .word inst) :
    (funct7 inst = 0x01#7 ∧ mulWordName (funct3 inst) = none) ∨
    (funct7 inst ≠ 0x01#7 ∧ funct3 inst ≠ 0#3 ∧ funct3 inst ≠ 1#3 ∧ funct3 inst ≠ 5#3) := by
  unfold disasmReg32 at h
  dsimp only at h
  split at h
  · next h7 =>
    split at h
    · simp at h
    · exact Or.inl ⟨h7, ‹_›⟩
  · next h7 =>
    split at h
    · split at h
      · split at h <;> simp at h
      · simp at h
    · simp at h
    · split at h <;> simp at h
    · exact Or.inr ⟨h7, ‹_›, ‹_›, ‹_›⟩

/-- The funct12 values of SYSTEM the disassembler knows. -/
def systemKnown : List (BitVec 12) := [0x000, 0x001, 0x302, 0x102, 0x105]

theorem disasmCsr_word (h : disasmCsr inst = .word inst) (h0 : funct3 inst ≠ 0#3) :
    funct3 inst = 4#3 := by
  unfold disasmCsr at h
  dsimp only at h
  split at h
  case h_2 =>
    split at h
    · split at h <;> simp at h
    · split at h <;> simp at h
  case h_7 =>
    generalize funct3 inst = f3 at *
    revert f3
    decide
  all_goals split at h <;> simp at h

theorem disasmSystem_word (h : disasmSystem inst = .word inst) :
    (funct3 inst = 0#3 ∧ funct7 inst ≠ 0x09#7 ∧ csrField inst ∉ systemKnown) ∨ funct3 inst = 4#3 := by
  unfold disasmSystem at h
  dsimp only at h
  split at h
  · next h0 =>
    split at h
    · split at h <;> simp at h
    · next h7 =>
      refine Or.inl ⟨h0, h7, ?_⟩
      repeat' split at h
      all_goals simp_all [systemKnown]
  · next h0 => exact Or.inr (disasmCsr_word h h0)

end Disasm

/-- A 32-bit encoding is disassembled as it stands. -/
theorem disasm_word {inst : BitVec 32} (h : inst &&& 3 = 3) (pc : BitVec 64) (xlen : Nat) :
    disasm pc inst xlen = Disasm.disasmWord pc inst xlen := by
  unfold disasm
  rw [if_neg (fun hn => hn h)]

end Quanta
