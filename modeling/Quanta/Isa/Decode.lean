/-
Instruction decoding: the field extractors, immediates, opcode map and CSR addresses of
`decode.h`, and the compressed-instruction expander of `rvc.c`. An instruction word is a
`BitVec 32`; a field is the `BitVec` of its own width, an immediate the 32-bit value the C code
assembles (callers sign-extend it to 64 bits, as the `(uint64_t)` casts do).
-/

namespace Quanta

/-! ## Fields -/

def rd (inst : BitVec 32) : BitVec 5 := inst.extractLsb' 7 5
def funct3 (inst : BitVec 32) : BitVec 3 := inst.extractLsb' 12 3
def rs1 (inst : BitVec 32) : BitVec 5 := inst.extractLsb' 15 5
def rs2 (inst : BitVec 32) : BitVec 5 := inst.extractLsb' 20 5
def funct7 (inst : BitVec 32) : BitVec 7 := inst.extractLsb' 25 7
/-- The top six bits, which discriminate the shift and Zbs immediates. -/
def funct6 (inst : BitVec 32) : BitVec 6 := inst.extractLsb' 26 6
/-- The top five bits: the AMO operation, the OP-FP operation and `rs3`. -/
def funct5 (inst : BitVec 32) : BitVec 5 := inst.extractLsb' 27 5
/-- The 12-bit CSR address, and the `funct12` selector of SYSTEM. -/
def csrField (inst : BitVec 32) : BitVec 12 := inst.extractLsb' 20 12

/-! ## Immediates -/

/-- I-type: the arithmetic right shift of the word. -/
def immI (inst : BitVec 32) : BitVec 32 := inst.sshiftRight 20

/-- S-type. -/
def immS (inst : BitVec 32) : BitVec 32 :=
  let imm := (((inst >>> 25) &&& 0x7f#32) <<< 5) ||| ((inst >>> 7) &&& 0x1f#32)
  if imm &&& 0x800#32 ≠ 0#32 then imm ||| 0xfffff000#32 else imm

/-- B-type: a multiple of two. -/
def immB (inst : BitVec 32) : BitVec 32 :=
  let imm := (((inst >>> 31) &&& 0x1#32) <<< 12) ||| (((inst >>> 7) &&& 0x1#32) <<< 11) |||
    (((inst >>> 25) &&& 0x3f#32) <<< 5) ||| (((inst >>> 8) &&& 0xf#32) <<< 1)
  if imm &&& 0x1000#32 ≠ 0#32 then imm ||| 0xffffe000#32 else imm

/-- U-type: the high twenty bits in place. -/
def immU (inst : BitVec 32) : BitVec 32 := inst &&& 0xfffff000#32

/-- J-type: a multiple of two. -/
def immJ (inst : BitVec 32) : BitVec 32 :=
  let imm := (((inst >>> 31) &&& 0x1#32) <<< 20) ||| (((inst >>> 12) &&& 0xff#32) <<< 12) |||
    (((inst >>> 20) &&& 0x1#32) <<< 11) ||| (((inst >>> 21) &&& 0x3ff#32) <<< 1)
  if imm &&& 0x100000#32 ≠ 0#32 then imm ||| 0xffe00000#32 else imm

/-- `(uint64_t)(int64_t)(int32_t)v` of a 32-bit value. -/
def sext (v : BitVec 32) : BitVec 64 := v.signExtend 64

/-! ## The opcode map -/

/-- The major opcodes `cpu_step` dispatches on; `other` is its `default`. -/
inductive Opcode
  | lui | auipc | jal | jalr | branch | load | store | fence | imm | imm32 | reg | reg32
  | amo | loadFp | storeFp | madd | msub | nmsub | nmadd | fp | system | other
  deriving DecidableEq, Repr

def opcode (inst : BitVec 32) : Opcode :=
  match inst.extractLsb' 0 7 with
  | 0x37#7 => .lui
  | 0x17#7 => .auipc
  | 0x6f#7 => .jal
  | 0x67#7 => .jalr
  | 0x63#7 => .branch
  | 0x03#7 => .load
  | 0x23#7 => .store
  | 0x0f#7 => .fence
  | 0x13#7 => .imm
  | 0x1b#7 => .imm32
  | 0x33#7 => .reg
  | 0x3b#7 => .reg32
  | 0x2f#7 => .amo
  | 0x07#7 => .loadFp
  | 0x27#7 => .storeFp
  | 0x43#7 => .madd
  | 0x47#7 => .msub
  | 0x4b#7 => .nmsub
  | 0x4f#7 => .nmadd
  | 0x53#7 => .fp
  | 0x73#7 => .system
  | _ => .other

/-! ## CSR addresses -/

abbrev CSR_FFLAGS : BitVec 12 := 0x001
abbrev CSR_FRM : BitVec 12 := 0x002
abbrev CSR_FCSR : BitVec 12 := 0x003
abbrev CSR_CYCLE : BitVec 12 := 0xc00
abbrev CSR_TIME : BitVec 12 := 0xc01
abbrev CSR_INSTRET : BitVec 12 := 0xc02
abbrev CSR_CYCLEH : BitVec 12 := 0xc80
abbrev CSR_TIMEH : BitVec 12 := 0xc81
abbrev CSR_INSTRETH : BitVec 12 := 0xc82
abbrev CSR_SSTATUS : BitVec 12 := 0x100
abbrev CSR_SIE : BitVec 12 := 0x104
abbrev CSR_STVEC : BitVec 12 := 0x105
abbrev CSR_SEPC : BitVec 12 := 0x141
abbrev CSR_SCAUSE : BitVec 12 := 0x142
abbrev CSR_STVAL : BitVec 12 := 0x143
abbrev CSR_SIP : BitVec 12 := 0x144
abbrev CSR_STIMECMP : BitVec 12 := 0x14d
abbrev CSR_STIMECMPH : BitVec 12 := 0x15d
abbrev CSR_SATP : BitVec 12 := 0x180
abbrev CSR_MHARTID : BitVec 12 := 0xf14
abbrev CSR_MSTATUS : BitVec 12 := 0x300
abbrev CSR_MISA : BitVec 12 := 0x301
abbrev CSR_MEDELEG : BitVec 12 := 0x302
abbrev CSR_MIDELEG : BitVec 12 := 0x303
abbrev CSR_MIE : BitVec 12 := 0x304
abbrev CSR_MTVEC : BitVec 12 := 0x305
abbrev CSR_MSTATUSH : BitVec 12 := 0x310
abbrev CSR_MENVCFG : BitVec 12 := 0x30a
abbrev CSR_MENVCFGH : BitVec 12 := 0x31a
abbrev CSR_MEPC : BitVec 12 := 0x341
abbrev CSR_MCAUSE : BitVec 12 := 0x342
abbrev CSR_MTVAL : BitVec 12 := 0x343
abbrev CSR_MIP : BitVec 12 := 0x344
abbrev CSR_STOPI : BitVec 12 := 0xdb0
abbrev CSR_MTOPI : BitVec 12 := 0xfb0

/-! ## Compressed instructions -/

/-- The expansion of a reserved encoding: the all-zero word. -/
abbrev RVC_ILLEGAL : BitVec 32 := 0

namespace Rvc

/-- `BIT(c, n)`. -/
def bit (c : BitVec 16) (n : Nat) : BitVec 32 := (c.setWidth 32 >>> n) &&& 1#32

/-- `BITS(c, hi, lo)`. -/
def bits (c : BitVec 16) (hi lo : Nat) : BitVec 32 :=
  (c.setWidth 32 >>> lo) &&& ((1#32 <<< (hi - lo + 1)) - 1#32)

/-- Sign-extend the low `n` bits of `v`. -/
def sext (v : BitVec 32) (n : Nat) : BitVec 32 :=
  let m := 1#32 <<< (n - 1)
  (v ^^^ m) - m

abbrev OPC_LOAD : BitVec 32 := 0x03
abbrev OPC_IMM : BitVec 32 := 0x13
abbrev OPC_STORE : BitVec 32 := 0x23
abbrev OPC_OP : BitVec 32 := 0x33
abbrev OPC_LUI : BitVec 32 := 0x37
abbrev OPC_BRANCH : BitVec 32 := 0x63
abbrev OPC_JALR : BitVec 32 := 0x67
abbrev OPC_JAL : BitVec 32 := 0x6f
abbrev OPC_SYSTEM : BitVec 32 := 0x73
abbrev OPC_IMM_32 : BitVec 32 := 0x1b
abbrev OPC_OP_32 : BitVec 32 := 0x3b
abbrev OPC_LOAD_FP : BitVec 32 := 0x07
abbrev OPC_STORE_FP : BitVec 32 := 0x27

def rType (f7 rs2 rs1 f3 rd op : BitVec 32) : BitVec 32 :=
  (f7 <<< 25) ||| (rs2 <<< 20) ||| (rs1 <<< 15) ||| (f3 <<< 12) ||| (rd <<< 7) ||| op

def iType (imm rs1 f3 rd op : BitVec 32) : BitVec 32 :=
  ((imm &&& 0xfff#32) <<< 20) ||| (rs1 <<< 15) ||| (f3 <<< 12) ||| (rd <<< 7) ||| op

def sType (imm rs2 rs1 f3 op : BitVec 32) : BitVec 32 :=
  (((imm >>> 5) &&& 0x7f#32) <<< 25) ||| (rs2 <<< 20) ||| (rs1 <<< 15) ||| (f3 <<< 12) |||
    ((imm &&& 0x1f#32) <<< 7) ||| op

def bType (imm rs2 rs1 f3 op : BitVec 32) : BitVec 32 :=
  (((imm >>> 12) &&& 1#32) <<< 31) ||| (((imm >>> 5) &&& 0x3f#32) <<< 25) ||| (rs2 <<< 20) |||
    (rs1 <<< 15) ||| (f3 <<< 12) ||| (((imm >>> 1) &&& 0xf#32) <<< 8) |||
    (((imm >>> 11) &&& 1#32) <<< 7) ||| op

def uType (imm20 rd op : BitVec 32) : BitVec 32 :=
  ((imm20 &&& 0xfffff#32) <<< 12) ||| (rd <<< 7) ||| op

def jType (imm rd op : BitVec 32) : BitVec 32 :=
  (((imm >>> 20) &&& 1#32) <<< 31) ||| (((imm >>> 1) &&& 0x3ff#32) <<< 21) |||
    (((imm >>> 11) &&& 1#32) <<< 20) ||| (((imm >>> 12) &&& 0xff#32) <<< 12) ||| (rd <<< 7) ||| op

/-- The three-bit register fields name `x8 … x15`. -/
def rdp (c : BitVec 16) : BitVec 32 := bits c 4 2 + 8
def rs1p (c : BitVec 16) : BitVec 32 := bits c 9 7 + 8

/-- The offset of the doubleword forms of quadrant 0. -/
def immD (c : BitVec 16) : BitVec 32 := (bits c 12 10 <<< 3) ||| (bits c 6 5 <<< 6)
/-- The offset of the word forms of quadrant 0. -/
def immW (c : BitVec 16) : BitVec 32 := (bits c 12 10 <<< 3) ||| (bit c 6 <<< 2) ||| (bit c 5 <<< 6)

/-- Quadrant 0: `C.ADDI4SPN` and the base+offset loads and stores. -/
def expandQ0 (c : BitVec 16) (rv64 : Bool) : BitVec 32 :=
  match (bits c 15 13).toNat with
  | 0 =>
    let imm := (bits c 12 11 <<< 4) ||| (bits c 10 7 <<< 6) ||| (bit c 6 <<< 2) ||| (bit c 5 <<< 3)
    if imm = 0 then RVC_ILLEGAL else iType imm 2 0x0 (rdp c) OPC_IMM
  | 1 => iType (immD c) (rs1p c) 0x3 (rdp c) OPC_LOAD_FP
  | 2 => iType (immW c) (rs1p c) 0x2 (rdp c) OPC_LOAD
  | 3 =>
    if rv64 then iType (immD c) (rs1p c) 0x3 (rdp c) OPC_LOAD
    else iType (immW c) (rs1p c) 0x2 (rdp c) OPC_LOAD_FP
  | 5 => sType (immD c) (rdp c) (rs1p c) 0x3 OPC_STORE_FP
  | 6 => sType (immW c) (rdp c) (rs1p c) 0x2 OPC_STORE
  | 7 =>
    if rv64 then sType (immD c) (rdp c) (rs1p c) 0x3 OPC_STORE
    else sType (immW c) (rdp c) (rs1p c) 0x2 OPC_STORE_FP
  | _ => RVC_ILLEGAL

/-- The six-bit signed immediate of quadrant 1. -/
def imm6 (c : BitVec 16) : BitVec 32 := sext ((bit c 12 <<< 5) ||| bits c 6 2) 6

/-- The jump offset of `C.J` and `C.JAL`. -/
def immCJ (c : BitVec 16) : BitVec 32 :=
  sext ((bit c 12 <<< 11) ||| (bit c 11 <<< 4) ||| (bits c 10 9 <<< 8) ||| (bit c 8 <<< 10) |||
    (bit c 7 <<< 6) ||| (bit c 6 <<< 7) ||| (bits c 5 3 <<< 1) ||| (bit c 2 <<< 5)) 12

/-- Quadrant 1's register ALU row. -/
def expandAlu (c : BitVec 16) (rv64 : Bool) : BitVec 32 :=
  let rp := rs1p c
  let shamt := (bit c 12 <<< 5) ||| bits c 6 2
  match (bits c 11 10).toNat with
  | 0 => if !rv64 && bit c 12 ≠ 0 then RVC_ILLEGAL else iType shamt rp 0x5 rp OPC_IMM
  | 1 =>
    if !rv64 && bit c 12 ≠ 0 then RVC_ILLEGAL
    else iType (0x400#32 ||| (shamt &&& 0x3f#32)) rp 0x5 rp OPC_IMM
  | 2 => iType (imm6 c) rp 0x7 rp OPC_IMM
  | _ =>
    let rs2 := rdp c
    if bit c 12 ≠ 0 then
      if !rv64 then RVC_ILLEGAL
      else match (bits c 6 5).toNat with
        | 0 => rType 0x20 rs2 rp 0x0 rp OPC_OP_32
        | 1 => rType 0x00 rs2 rp 0x0 rp OPC_OP_32
        | _ => RVC_ILLEGAL
    else match (bits c 6 5).toNat with
      | 0 => rType 0x20 rs2 rp 0x0 rp OPC_OP
      | 1 => rType 0x00 rs2 rp 0x4 rp OPC_OP
      | 2 => rType 0x00 rs2 rp 0x6 rp OPC_OP
      | _ => rType 0x00 rs2 rp 0x7 rp OPC_OP

/-- Quadrant 1: immediate arithmetic, the register ALU operations, jumps and branches. -/
def expandQ1 (c : BitVec 16) (rv64 : Bool) : BitVec 32 :=
  let rd := bits c 11 7
  match (bits c 15 13).toNat with
  | 0 => iType (imm6 c) rd 0x0 rd OPC_IMM
  | 1 =>
    if rv64 then (if rd = 0 then RVC_ILLEGAL else iType (imm6 c) rd 0x0 rd OPC_IMM_32)
    else jType (immCJ c) 1 OPC_JAL
  | 2 => iType (imm6 c) 0 0x0 rd OPC_IMM
  | 3 =>
    if rd = 2 then
      let imm := sext ((bit c 12 <<< 9) ||| (bits c 4 3 <<< 7) ||| (bit c 5 <<< 6) |||
        (bit c 2 <<< 5) ||| (bit c 6 <<< 4)) 10
      if imm = 0 then RVC_ILLEGAL else iType imm 2 0x0 2 OPC_IMM
    else if imm6 c = 0 then RVC_ILLEGAL else uType (imm6 c) rd OPC_LUI
  | 4 => expandAlu c rv64
  | 5 => jType (immCJ c) 0 OPC_JAL
  | _ =>
    let imm := sext ((bit c 12 <<< 8) ||| (bits c 6 5 <<< 6) ||| (bit c 2 <<< 5) |||
      (bits c 11 10 <<< 3) ||| (bits c 4 3 <<< 1)) 9
    let f3 : BitVec 32 := if bits c 15 13 = 6 then 0x0 else 0x1
    bType imm 0 (rs1p c) f3 OPC_BRANCH

/-- Quadrant 2: stack-pointer loads and stores, shifts, and the jr/mv/add family. -/
def expandQ2 (c : BitVec 16) (rv64 : Bool) : BitVec 32 :=
  let rd := bits c 11 7
  let rs2 := bits c 6 2
  let immLD := (bit c 12 <<< 5) ||| (bits c 6 5 <<< 3) ||| (bits c 4 2 <<< 6)
  let immLW := (bit c 12 <<< 5) ||| (bits c 6 4 <<< 2) ||| (bits c 3 2 <<< 6)
  let immSD := (bits c 12 10 <<< 3) ||| (bits c 9 7 <<< 6)
  let immSW := (bits c 12 9 <<< 2) ||| (bits c 8 7 <<< 6)
  match (bits c 15 13).toNat with
  | 0 =>
    if !rv64 && bit c 12 ≠ 0 then RVC_ILLEGAL
    else iType ((bit c 12 <<< 5) ||| rs2) rd 0x1 rd OPC_IMM
  | 1 => iType immLD 2 0x3 rd OPC_LOAD_FP
  | 2 => if rd = 0 then RVC_ILLEGAL else iType immLW 2 0x2 rd OPC_LOAD
  | 3 =>
    if rv64 then (if rd = 0 then RVC_ILLEGAL else iType immLD 2 0x3 rd OPC_LOAD)
    else iType immLW 2 0x2 rd OPC_LOAD_FP
  | 4 =>
    if bit c 12 = 0 then
      if rs2 = 0 then (if rd = 0 then RVC_ILLEGAL else iType 0 rd 0x0 0 OPC_JALR)
      else rType 0x00 rs2 0 0x0 rd OPC_OP
    else if rd = 0 ∧ rs2 = 0 then iType 1 0 0x0 0 OPC_SYSTEM
    else if rs2 = 0 then iType 0 rd 0x0 1 OPC_JALR
    else rType 0x00 rs2 rd 0x0 rd OPC_OP
  | 5 => sType immSD rs2 2 0x3 OPC_STORE_FP
  | 6 => sType immSW rs2 2 0x2 OPC_STORE
  | _ =>
    if rv64 then sType immSD rs2 2 0x3 OPC_STORE
    else sType immSW rs2 2 0x2 OPC_STORE_FP

end Rvc

def rvcExpand (c : BitVec 16) (rv64 : Bool) : BitVec 32 :=
  match c.extractLsb' 0 2 with
  | 0#2 => Rvc.expandQ0 c rv64
  | 1#2 => Rvc.expandQ1 c rv64
  | 2#2 => Rvc.expandQ2 c rv64
  | _ => RVC_ILLEGAL

-- `c.li a0, 5` is `addi a0, x0, 5`; the all-zero halfword is illegal
example : rvcExpand 0x4515#16 true = 0x00500513#32 := by decide
example : rvcExpand 0x0000#16 false = RVC_ILLEGAL := by decide

end Quanta
