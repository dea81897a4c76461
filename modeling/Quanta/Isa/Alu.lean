/-
The integer arithmetic of `cpu.c` as functions of operand values: the bit-manipulation helpers
(`bm_*`), the Zba/Zbb/Zbs/Zbc rows, the base OP and OP-IMM rows, and the multiply/divide groups
at each width. Operands and results are the 64-bit register containers; `reg_write`, applied by
the callers, re-establishes the sign extension on RV32. A row that does not recognise an encoding
returns `none`, as `exec_bitmanip_*` returns 0.
-/
import Quanta.Isa.Decode

namespace Quanta

/-- `cpu->xlen`: 32 or 64, chosen by the loader. -/
inductive Xlen
  | rv32 | rv64
  deriving DecidableEq, Repr

/-- The register width in bits. -/
def Xlen.bits : Xlen → Nat
  | .rv32 => 32
  | .rv64 => 64

/-- The shift-amount mask: 5 bits on RV32, 6 on RV64. -/
def Xlen.shmask : Xlen → BitVec 32
  | .rv32 => 0x1f
  | .rv64 => 0x3f

/-- The low 32 bits, `(uint32_t)v`. -/
def lo32 (v : BitVec 64) : BitVec 32 := v.setWidth 32

/-- A 0/1 comparison result. -/
def ofBool (b : Bool) : BitVec 64 := if b then 1 else 0

/-! ## Bit-manipulation helpers -/

def bmMask (bits : Nat) : BitVec 64 :=
  if 64 ≤ bits then BitVec.allOnes 64 else (1#64 <<< (bits % 64)) - 1

/-- Leading zeros below bit `i`. -/
def bmClz (v : BitVec 64) : Nat → Nat
  | 0 => 0
  | i + 1 => if v.getLsbD i then 0 else bmClz v i + 1

/-- Trailing zeros from bit `i` on, with `n` bits left to look at. -/
def bmCtzFrom (v : BitVec 64) (i : Nat) : Nat → Nat
  | 0 => 0
  | n + 1 => if v.getLsbD i then 0 else bmCtzFrom v (i + 1) n + 1

def bmCtz (v : BitVec 64) (bits : Nat) : Nat := bmCtzFrom v 0 bits

def bmCpop (v : BitVec 64) : Nat → Nat
  | 0 => 0
  | i + 1 => bmCpop v i + (v.getLsbD i).toNat

/-- Rotate the low `bits` bits right by `sh` (masked to `bits - 1`). -/
def bmRor (v : BitVec 64) (sh : BitVec 32) (bits : Nat) : BitVec 64 :=
  let v := v &&& bmMask bits
  let sh := (sh &&& BitVec.ofNat 32 (bits - 1)).toNat
  if sh = 0 then v else ((v >>> sh) ||| (v <<< (bits - sh))) &&& bmMask bits

/-- Rotate the low `bits` bits left by `sh` (masked to `bits - 1`). -/
def bmRol (v : BitVec 64) (sh : BitVec 32) (bits : Nat) : BitVec 64 :=
  let v := v &&& bmMask bits
  let sh := (sh &&& BitVec.ofNat 32 (bits - 1)).toNat
  if sh = 0 then v else ((v <<< sh) ||| (v >>> (bits - sh))) &&& bmMask bits

/-- Each of the low `n` bytes becomes 0xff if any of its bits is set. -/
def bmOrcb (v : BitVec 64) (bits : Nat) : BitVec 64 :=
  (List.range (bits / 8)).foldl
    (fun r i => if (v >>> (8 * i)) &&& 0xff#64 ≠ 0#64 then r ||| (0xff#64 <<< (8 * i)) else r) 0

/-- Reverse the byte order of the low `bits` bits. -/
def bmRev8 (v : BitVec 64) (bits : Nat) : BitVec 64 :=
  (List.range (bits / 8)).foldl
    (fun r i => r ||| (((v >>> (i * 8)) &&& 0xff#64) <<< ((bits / 8 - 1 - i) * 8))) 0

/-- One round of the carry-less product: add `a << i` into `(hi, lo)` when bit `i` of `b` is set. -/
def bmClmulStep (a b : BitVec 64) (r : BitVec 64 × BitVec 64) (i : Nat) : BitVec 64 × BitVec 64 :=
  if b.getLsbD i then (if 0 < i then r.1 ^^^ (a >>> (64 - i)) else r.1, r.2 ^^^ (a <<< i)) else r

/-- The carry-less product of the low `bits` bits of `a` and `b`, as `(hi, lo)`. -/
def bmClmul128 (a b : BitVec 64) (bits : Nat) : BitVec 64 × BitVec 64 :=
  (List.range (min bits 64)).foldl (bmClmulStep (a &&& bmMask bits) (b &&& bmMask bits)) (0, 0)

/-- The `width`-bit field of the 128-bit `(hi, lo)` starting at bit `pos`. -/
def bmBits128 (p : BitVec 64 × BitVec 64) (pos width : Nat) : BitVec 64 :=
  let v :=
    if pos = 0 then p.2
    else if pos < 64 then (p.2 >>> pos) ||| (p.1 <<< (64 - pos))
    else if pos < 128 then p.1 >>> (pos - 64)
    else 0
  v &&& bmMask width

/-! ## Bit-manipulation rows -/

/-- `exec_bitmanip_op`: Zba, Zbb, Zbs and Zbc in the OP opcode. -/
def bitmanipOp (xlen : Xlen) (inst : BitVec 32) (a b : BitVec 64) : Option (BitVec 64) :=
  let bits := xlen.bits
  let idx := (lo32 b &&& BitVec.ofNat 32 (bits - 1)).toNat
  match funct7 inst with
  | 0x10#7 =>
    match funct3 inst with
    | 0x2#3 => some ((a <<< 1) + b)
    | 0x4#3 => some ((a <<< 2) + b)
    | 0x6#3 => some ((a <<< 3) + b)
    | _ => none
  | 0x20#7 =>
    match funct3 inst with
    | 0x7#3 => some (a &&& ~~~b)
    | 0x6#3 => some (a ||| ~~~b)
    | 0x4#3 => some (~~~(a ^^^ b))
    | _ => none
  | 0x30#7 =>
    match funct3 inst with
    | 0x1#3 => some (bmRol a (lo32 b) bits)
    | 0x5#3 => some (bmRor a (lo32 b) bits)
    | _ => none
  | 0x05#7 =>
    match funct3 inst with
    | 0x1#3 => some (bmBits128 (bmClmul128 a b bits) 0 bits)
    | 0x2#3 => some (bmBits128 (bmClmul128 a b bits) (bits - 1) bits)
    | 0x3#3 => some (bmBits128 (bmClmul128 a b bits) bits bits)
    | 0x4#3 => some (if a.slt b then a else b)
    | 0x5#3 => some (if a.ult b then a else b)
    | 0x6#3 => some (if a.slt b then b else a)
    | 0x7#3 => some (if a.ult b then b else a)
    | _ => none
  | 0x24#7 =>
    match funct3 inst with
    | 0x1#3 => some (a &&& ~~~(1#64 <<< idx))
    | 0x5#3 => some ((a >>> idx) &&& 1#64)
    | _ => none
  | 0x14#7 => if funct3 inst ≠ 0x1#3 then none else some (a ||| (1#64 <<< idx))
  | 0x34#7 => if funct3 inst ≠ 0x1#3 then none else some (a ^^^ (1#64 <<< idx))
  | 0x04#7 =>
    if xlen ≠ .rv32 ∨ funct3 inst ≠ 0x4#3 ∨ rs2 inst ≠ 0 then none else some (a &&& 0xffff#64)
  | _ => none

/-- The shift amount of the OP-IMM encodings. -/
def immShamt (xlen : Xlen) (inst : BitVec 32) : Nat := ((inst >>> 20) &&& xlen.shmask).toNat

/-- `exec_bitmanip_imm`: the Zbb scans, the Zbs immediates, `rori`, `orc.b` and `rev8`. -/
def bitmanipImm (xlen : Xlen) (inst : BitVec 32) (a : BitVec 64) : Option (BitVec 64) :=
  let bits := xlen.bits
  let shamt := immShamt xlen inst
  match funct3 inst with
  | 0x1#3 =>
    if funct7 inst = 0x30#7 then
      match rs2 inst with
      | 0x00#5 => some (BitVec.ofNat 64 (bmClz a bits))
      | 0x01#5 => some (BitVec.ofNat 64 (bmCtz a bits))
      | 0x02#5 => some (BitVec.ofNat 64 (bmCpop a bits))
      | 0x04#5 => some ((a.setWidth 8).signExtend 64)
      | 0x05#5 => some ((a.setWidth 16).signExtend 64)
      | _ => none
    else if funct6 inst = 0x12#6 then some (a &&& ~~~(1#64 <<< shamt))
    else if funct6 inst = 0x1a#6 then some (a ^^^ (1#64 <<< shamt))
    else if funct6 inst = 0x0a#6 then some (a ||| (1#64 <<< shamt))
    else none
  | 0x5#3 =>
    if funct6 inst = 0x18#6 then some (bmRor a (BitVec.ofNat 32 shamt) bits)
    else if funct6 inst = 0x12#6 then some ((a >>> shamt) &&& 1#64)
    else if funct7 inst = 0x14#7 ∧ rs2 inst = 0x07#5 then some (bmOrcb a bits)
    else if (funct7 inst = 0x34#7 ∨ funct7 inst = 0x35#7) ∧ rs2 inst = 0x18#5 then some (bmRev8 a bits)
    else none
  | _ => none

/-- `exec_bitmanip_op32`: Zba `.uw`, the RV64 `zext.h` and the word rotates. -/
def bitmanipOp32 (inst : BitVec 32) (a b : BitVec 64) : Option (BitVec 64) :=
  let auw := a &&& 0xffffffff#64
  match funct7 inst with
  | 0x04#7 =>
    if funct3 inst = 0x0#3 then some (auw + b)
    else if funct3 inst = 0x4#3 ∧ rs2 inst = 0 then some (a &&& 0xffff#64)
    else none
  | 0x10#7 =>
    match funct3 inst with
    | 0x2#3 => some ((auw <<< 1) + b)
    | 0x4#3 => some ((auw <<< 2) + b)
    | 0x6#3 => some ((auw <<< 3) + b)
    | _ => none
  | 0x30#7 =>
    match funct3 inst with
    | 0x1#3 => some (sext (lo32 (bmRol a (lo32 b) 32)))
    | 0x5#3 => some (sext (lo32 (bmRor a (lo32 b) 32)))
    | _ => none
  | _ => none

/-- `exec_bitmanip_imm32`: `slli.uw`, the word scans and `roriw`. -/
def bitmanipImm32 (inst : BitVec 32) (a : BitVec 64) : Option (BitVec 64) :=
  match funct3 inst with
  | 0x1#3 =>
    if funct6 inst = 0x02#6 then
      some ((a &&& 0xffffffff#64) <<< ((inst >>> 20) &&& 0x3f#32).toNat)
    else if funct7 inst = 0x30#7 then
      match rs2 inst with
      | 0x00#5 => some (BitVec.ofNat 64 (bmClz ((lo32 a).setWidth 64) 32))
      | 0x01#5 => some (BitVec.ofNat 64 (bmCtz ((lo32 a).setWidth 64) 32))
      | 0x02#5 => some (BitVec.ofNat 64 (bmCpop ((lo32 a).setWidth 64) 32))
      | _ => none
    else none
  | 0x5#3 =>
    if funct7 inst = 0x30#7 then some (sext (lo32 (bmRor a ((inst >>> 20) &&& 0x1f#32) 32)))
    else none
  | _ => none

/-! ## The base rows -/

/-- Arithmetic right shift at the architectural width. -/
def sraXlen (xlen : Xlen) (a : BitVec 64) (shamt : Nat) : BitVec 64 :=
  match xlen with
  | .rv64 => a.sshiftRight shamt
  | .rv32 => sext ((lo32 a).sshiftRight shamt)

/-- Logical right shift at the architectural width. -/
def srlXlen (xlen : Xlen) (a : BitVec 64) (shamt : Nat) : BitVec 64 :=
  match xlen with
  | .rv64 => a >>> shamt
  | .rv32 => ((lo32 a) >>> shamt).setWidth 64

/-- The base OP-IMM row of `exec_op_imm`. -/
def opImm (xlen : Xlen) (inst : BitVec 32) (a : BitVec 64) : BitVec 64 :=
  let imm := sext (immI inst)
  let shamt := (immI inst &&& xlen.shmask).toNat
  match funct3 inst with
  | 0x0#3 => a + imm
  | 0x2#3 => ofBool (a.slt imm)
  | 0x3#3 => ofBool (a.ult imm)
  | 0x4#3 => a ^^^ imm
  | 0x6#3 => a ||| imm
  | 0x7#3 => a &&& imm
  | 0x1#3 => a <<< shamt
  | _ => if inst.getLsbD 30 then sraXlen xlen a shamt else srlXlen xlen a shamt

/-- The base OP row of `exec_op` (funct7 = 0x20 selects SUB and SRA). -/
def opReg (xlen : Xlen) (inst : BitVec 32) (a b : BitVec 64) : BitVec 64 :=
  let shamt := (lo32 b &&& xlen.shmask).toNat
  let alt := decide (funct7 inst = 0x20#7)
  match funct3 inst with
  | 0x0#3 => if alt then a - b else a + b
  | 0x1#3 => a <<< shamt
  | 0x2#3 => ofBool (a.slt b)
  | 0x3#3 => ofBool (a.ult b)
  | 0x4#3 => a ^^^ b
  | 0x5#3 => if alt then sraXlen xlen a shamt else srlXlen xlen a shamt
  | 0x6#3 => a ||| b
  | _ => a &&& b

/-! ## Multiply and divide -/

/-- The high 64 bits of the unsigned product, from 32-bit partials. -/
def mulhu64 (a b : BitVec 64) : BitVec 64 :=
  let alo := (lo32 a).setWidth 64
  let ahi := a >>> 32
  let blo := (lo32 b).setWidth 64
  let bhi := b >>> 32
  let loLo := alo * blo
  let loHi := alo * bhi
  let hiLo := ahi * blo
  let hiHi := ahi * bhi
  let cross := (loLo >>> 32) + (lo32 loHi).setWidth 64 + (lo32 hiLo).setWidth 64
  hiHi + (loHi >>> 32) + (hiLo >>> 32) + (cross >>> 32)

/-- RV64M, `exec_muldiv64`. -/
def muldiv64 (inst : BitVec 32) (a b : BitVec 64) : BitVec 64 :=
  match funct3 inst with
  | 0x0#3 => a * b
  | 0x1#3 => mulhu64 a b - (if a.slt 0 then b else 0) - (if b.slt 0 then a else 0)
  | 0x2#3 => mulhu64 a b - (if a.slt 0 then b else 0)
  | 0x3#3 => mulhu64 a b
  | 0x4#3 =>
    if b = 0 then BitVec.allOnes 64
    else if a = BitVec.intMin 64 ∧ b = BitVec.allOnes 64 then BitVec.intMin 64
    else a.sdiv b
  | 0x5#3 => if b = 0 then BitVec.allOnes 64 else a / b
  | 0x6#3 =>
    if b = 0 then a
    else if a = BitVec.intMin 64 ∧ b = BitVec.allOnes 64 then 0
    else a.srem b
  | _ => if b = 0 then a else a % b

/-- RV32M, the RV32 half of `exec_muldiv`: 32-bit operands and result. -/
def muldiv32 (inst : BitVec 32) (a b : BitVec 32) : BitVec 32 :=
  match funct3 inst with
  | 0x0#3 => (a.setWidth 64 * b.setWidth 64).setWidth 32
  | 0x1#3 => ((sext a * sext b).sshiftRight 32).setWidth 32
  | 0x2#3 => ((sext a * b.setWidth 64).sshiftRight 32).setWidth 32
  | 0x3#3 => ((a.setWidth 64 * b.setWidth 64) >>> 32).setWidth 32
  | 0x4#3 =>
    if b = 0 then BitVec.allOnes 32
    else if a = BitVec.intMin 32 ∧ b = BitVec.allOnes 32 then BitVec.intMin 32
    else a.sdiv b
  | 0x5#3 => if b = 0 then BitVec.allOnes 32 else a / b
  | 0x6#3 =>
    if b = 0 then a
    else if a = BitVec.intMin 32 ∧ b = BitVec.allOnes 32 then 0
    else a.srem b
  | _ => if b = 0 then a else a % b

/-- `exec_muldiv`: RV64M or RV32M by `xlen`. -/
def muldiv (xlen : Xlen) (inst : BitVec 32) (a b : BitVec 64) : BitVec 64 :=
  match xlen with
  | .rv64 => muldiv64 inst a b
  | .rv32 => (muldiv32 inst (lo32 a) (lo32 b)).setWidth 64

/-- The 32-bit row of `exec_op_imm32`; `none` is the illegal-instruction default. -/
def opImm32 (inst : BitVec 32) (a : BitVec 32) : Option (BitVec 32) :=
  let shamt := (immI inst &&& 0x1f#32).toNat
  match funct3 inst with
  | 0x0#3 => some (a + immI inst)
  | 0x1#3 => some (a <<< shamt)
  | 0x5#3 => some (if inst.getLsbD 30 then a.sshiftRight shamt else a >>> shamt)
  | _ => none

/-- `exec_muldivw`; `none` is the illegal-instruction default. -/
def muldivw (inst : BitVec 32) (a b : BitVec 32) : Option (BitVec 32) :=
  match funct3 inst with
  | 0x0#3 => some (a * b)
  | 0x4#3 => some (
      if b = 0 then BitVec.allOnes 32
      else if a = BitVec.intMin 32 ∧ b = BitVec.allOnes 32 then BitVec.intMin 32
      else a.sdiv b)
  | 0x5#3 => some (if b = 0 then BitVec.allOnes 32 else a / b)
  | 0x6#3 => some (
      if b = 0 then a
      else if a = BitVec.intMin 32 ∧ b = BitVec.allOnes 32 then 0
      else a.srem b)
  | 0x7#3 => some (if b = 0 then a else a % b)
  | _ => none

/-- The 32-bit row of `exec_op32`; `none` is the illegal-instruction default. -/
def op32 (inst : BitVec 32) (a b : BitVec 32) : Option (BitVec 32) :=
  let shamt := (b &&& 0x1f#32).toNat
  let alt := decide (funct7 inst = 0x20#7)
  match funct3 inst with
  | 0x0#3 => some (if alt then a - b else a + b)
  | 0x1#3 => some (a <<< shamt)
  | 0x5#3 => some (if alt then a.sshiftRight shamt else a >>> shamt)
  | _ => none

/-! ## Branches and atomics -/

/-- `exec_branch`'s decision; the reserved funct3 values are not taken. -/
def branchTaken (inst : BitVec 32) (a b : BitVec 64) : Bool :=
  match funct3 inst with
  | 0x0#3 => a == b
  | 0x1#3 => a != b
  | 0x4#3 => a.slt b
  | 0x5#3 => !a.slt b
  | 0x6#3 => a.ult b
  | 0x7#3 => !a.ult b
  | _ => false

/-- The AMO operation of `exec_amo` at width `w`; `none` is a reserved funct5. -/
def amoOp {w : Nat} (f5 : BitVec 5) (old b : BitVec w) : Option (BitVec w) :=
  match f5 with
  | 0x01#5 => some b
  | 0x00#5 => some (old + b)
  | 0x04#5 => some (old ^^^ b)
  | 0x0c#5 => some (old &&& b)
  | 0x08#5 => some (old ||| b)
  | 0x10#5 => some (if old.slt b then old else b)
  | 0x14#5 => some (if b.slt old then old else b)
  | 0x18#5 => some (if old.ult b then old else b)
  | 0x1c#5 => some (if b.ult old then old else b)
  | _ => none

end Quanta
