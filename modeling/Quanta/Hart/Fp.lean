/-
The F and D executors of `cpu.c`: the NaN-boxed register accessors, the rounding-mode and
exception-flag plumbing, OP-FP, the fused multiply-adds, and the FP loads and stores. An OP-FP
instruction either is illegal, writes an f register, or writes an x register; the last two also
accrue flags.
-/
import Quanta.Hart.Exec
import Quanta.Float.Softfloat

namespace Quanta

open Softfloat

namespace CPU

/-- `mark_fs_dirty`: FS = Dirty and the SD summary bit. -/
def markFsDirty (c : CPU) : CPU :=
  c.setCsr CSR_MSTATUS (c.csr CSR_MSTATUS ||| MSTATUS_FS ||| (1#64 <<< (c.xlen.bits - 1)))

def setFreg (c : CPU) (i : BitVec 5) (v : BitVec 64) : CPU :=
  { c with fregs := Function.update c.fregs i v }

/-- `fread_s`: an improperly boxed single reads as the canonical NaN. -/
def freadS (c : CPU) (i : BitVec 5) : BitVec 32 :=
  if c.fregs i >>> 32 = 0xffffffff then lo32 (c.fregs i) else F32_QNAN

def fwriteS (c : CPU) (i : BitVec 5) (v : BitVec 32) : CPU :=
  (c.setFreg i (0xffffffff00000000 ||| v.setWidth 64)).markFsDirty

def freadD (c : CPU) (i : BitVec 5) : BitVec 64 := c.fregs i

def fwriteD (c : CPU) (i : BitVec 5) (v : BitVec 64) : CPU := (c.setFreg i v).markFsDirty

/-- `fread_s` or `fread_d`; a single is zero-extended. -/
def fread (c : CPU) (wide : Bool) (i : BitVec 5) : BitVec 64 :=
  if wide then c.freadD i else (c.freadS i).setWidth 64

/-- `fwrite_s` or `fwrite_d`; a single is the low half. -/
def fwrite (c : CPU) (wide : Bool) (i : BitVec 5) (v : BitVec 64) : CPU :=
  if wide then c.fwriteD i v else c.fwriteS i (lo32 v)

def faccrue (c : CPU) (fl : BitVec 32) : CPU :=
  c.setCsr CSR_FCSR (c.csr CSR_FCSR ||| (fl &&& 0x1f).setWidth 64)

/-- `resolve_rm`: the rm field, or `fcsr.frm` when it is dynamic. -/
def resolveRm (c : CPU) (inst : BitVec 32) : BitVec 3 :=
  if funct3 inst = 7 then (c.csr CSR_FCSR >>> 5).setWidth 3 else funct3 inst

end CPU

/-- Modes above 4 are reserved. -/
def rmBad (rm : BitVec 3) : Bool := (4#3).ult rm

/-- The format descriptor of an OP-FP instruction. -/
def fmtOf (wide : Bool) : Fmt := if wide then F64 else F32

/-- What an OP-FP instruction does. -/
inductive FpOut
  | illegal
  | writeF (v : BitVec 64) (fl : BitVec 32)
  | writeX (v : BitVec 64) (fl : BitVec 32)

/-- `if (bad) illegal`, else write the f register. -/
def roundedF (rm : BitVec 3) (r : Res) : FpOut := if rmBad rm then .illegal else .writeF r.1 r.2

/-- The sign-injection row: the sign by funct3, the rest of `a`. -/
def signInject (wide : Bool) (f3 : BitVec 3) (a b : BitVec 64) : BitVec 64 :=
  let top := if wide then 63 else 31
  let s := if f3 = 0 then b.getLsbD top else if f3 = 1 then !b.getLsbD top else (a ^^^ b).getLsbD top
  (a &&& ((1#64 <<< top) - 1)) ||| (bit01 s <<< top)

/-- FCVT to an integer: W, WU, L or LU by the rs2 field. -/
def fpToX (f : Fmt) (sel : BitVec 5) (a : BitVec 64) (rm : BitVec 3) : Res :=
  match sel with
  | 0#5 => (sext (lo32 (fpToInt f a true 32 rm).1), (fpToInt f a true 32 rm).2)
  | 1#5 => (sext (lo32 (fpToInt f a false 32 rm).1), (fpToInt f a false 32 rm).2)
  | 2#5 => fpToInt f a true 64 rm
  | _ => fpToInt f a false 64 rm

/-- FCVT from an integer: W, WU, L or LU by the rs2 field. -/
def fpOfX (f : Fmt) (sel : BitVec 5) (x : BitVec 64) (rm : BitVec 3) : Res :=
  match sel with
  | 0#5 => signedToFp f (sext (lo32 x)) rm
  | 1#5 => intToFp f ((lo32 x).setWidth 64) false rm
  | 2#5 => signedToFp f x rm
  | _ => intToFp f x false rm

/-- The comparison row by funct3: FEQ, FLT, else FLE. -/
def fpCompareSel (f : Fmt) (f3 : BitVec 3) (a b : BitVec 64) : Bool × BitVec 32 :=
  if f3 = 2 then fpEq f a b else if f3 = 1 then fpLt f a b else fpLe f a b

/-- The L and LU conversions exist on RV64 only. -/
def longOnRv32 (c : CPU) (inst : BitVec 32) : Bool :=
  (rs2 inst == 2 || rs2 inst == 3) && c.xlen != .rv64

/-- `exec_fp`'s operation by funct5, for a supported format. -/
def fpResult (c : CPU) (inst : BitVec 32) (wide : Bool) : FpOut :=
  let f := fmtOf wide
  let rm := c.resolveRm inst
  let f3 := funct3 inst
  let a := c.fread wide (rs1 inst)
  let b := c.fread wide (rs2 inst)
  match funct5 inst with
  | 0x00#5 => roundedF rm (fpAdd f a b false rm)
  | 0x01#5 => roundedF rm (fpAdd f a b true rm)
  | 0x02#5 => roundedF rm (fpMul f a b rm)
  | 0x03#5 => roundedF rm (fpDiv f a b rm)
  | 0x0b#5 => roundedF rm (fpSqrt f a rm)
  | 0x04#5 => .writeF (signInject wide f3 a b) 0
  | 0x05#5 => .writeF (fpMinmax f a b (f3 ≠ 0)).1 (fpMinmax f a b (f3 ≠ 0)).2
  | 0x08#5 =>
    if wide then .writeF (f32ToF64 (c.freadS (rs1 inst))).1 (f32ToF64 (c.freadS (rs1 inst))).2
    else
      let r := f64ToF32 (c.freadD (rs1 inst)) rm
      roundedF rm (r.1.setWidth 64, r.2)
  | 0x14#5 => .writeX (ofBool (fpCompareSel f f3 a b).1) (fpCompareSel f f3 a b).2
  | 0x1c#5 =>
    if f3 = 0 then
      if !wide then .writeX (sext (lo32 (c.fregs (rs1 inst)))) 0
      else if c.xlen ≠ .rv64 then .illegal
      else .writeX (c.fregs (rs1 inst)) 0
    else .writeX ((fpClassify f a).setWidth 64) 0
  | 0x1e#5 =>
    if wide ∧ c.xlen ≠ .rv64 then .illegal else .writeF (c.regRead (rs1 inst)) 0
  | 0x18#5 =>
    if rmBad rm || longOnRv32 c inst then .illegal
    else .writeX (fpToX f (rs2 inst) a rm).1 (fpToX f (rs2 inst) a rm).2
  | 0x1a#5 =>
    if rmBad rm || longOnRv32 c inst then .illegal
    else .writeF (fpOfX f (rs2 inst) (c.regRead (rs1 inst)) rm).1 (fpOfX f (rs2 inst) (c.regRead (rs1 inst)) rm).2
  | _ => .illegal

/-- The 2-bit format field: 0 single, 1 double. -/
def fpFmt (inst : BitVec 32) : BitVec 2 := inst.extractLsb' 25 2

namespace Machine

def execFp (m : Machine) (inst : BitVec 32) : Machine :=
  if (1#2).ult (fpFmt inst) then m.illegal inst
  else
    let wide := decide (fpFmt inst = 1#2)
    match fpResult m.cpu inst wide with
    | .illegal => m.illegal inst
    | .writeF v fl => m.setCpu ((m.cpu.fwrite wide (rd inst) v).faccrue fl)
    | .writeX v fl => m.setCpu ((m.cpu.regWrite (rd inst) v).faccrue fl)

/-- A fused operand, with its sign bit flipped when asked. -/
def flipSign (wide flip : Bool) (a : BitVec 64) : BitVec 64 :=
  if flip then a ^^^ (if wide then 0x8000000000000000 else 0x80000000) else a

/-- `exec_fmadd`: the four fused forms by which operand's sign is flipped. -/
def execFmadd (m : Machine) (inst : BitVec 32) (flipA flipC : Bool) : Machine :=
  let c := m.cpu
  let rm := c.resolveRm inst
  if (1#2).ult (fpFmt inst) || rmBad rm then m.illegal inst
  else
    let wide := decide (fpFmt inst = 1#2)
    let a := flipSign wide flipA (c.fread wide (rs1 inst))
    let b := c.fread wide (rs2 inst)
    let d := flipSign wide flipC (c.fread wide (funct5 inst))
    let r := fpMuladd (fmtOf wide) a b d rm
    m.setCpu ((c.fwrite wide (rd inst) r.1).faccrue r.2)

def execLoadFp (m : Machine) (inst : BitVec 32) : Machine :=
  let va := m.loadVa inst
  match m.translate va .load with
  | (.error cause, m) => m.raiseTrap cause va
  | (.ok pa, m) =>
    let m := m.cacheAccess pa false
    match funct3 inst with
    | 0x2#3 =>
      let (v, b) := memRead32 m.bus pa
      (m.setBus b).setCpu (m.cpu.fwriteS (rd inst) v)
    | 0x3#3 =>
      let (v, b) := memRead64 m.bus pa
      (m.setBus b).setCpu (m.cpu.fwriteD (rd inst) v)
    | _ => m.illegal inst

def execStoreFp (m : Machine) (inst : BitVec 32) : Machine :=
  let va := m.storeVa inst
  match m.translate va .store with
  | (.error cause, m) => m.raiseTrap cause va
  | (.ok pa, m) =>
    let m := (m.breakReservation pa).cacheAccess pa true
    match funct3 inst with
    | 0x2#3 => m.setBus (memWrite32 m.bus pa (lo32 (m.cpu.fregs (rs2 inst))))
    | 0x3#3 => m.setBus (memWrite64 m.bus pa (m.cpu.fregs (rs2 inst)))
    | _ => m.illegal inst

end Machine
end Quanta
