/-
The software floating point of `softfloat.c`: one generic core over a format descriptor, with the
two-word and four-word helpers it computes through. Every operation takes a rounding mode and
returns the result bits with the exception flags it raised. C `int` exponents are `Int`; the
`uint64_t` words wrap.
-/

namespace Quanta.Softfloat

/-! ## Rounding modes and flags -/

def SF_RNE : BitVec 3 := 0
def SF_RTZ : BitVec 3 := 1
def SF_RDN : BitVec 3 := 2
def SF_RUP : BitVec 3 := 3
def SF_RMM : BitVec 3 := 4

def SF_NX : BitVec 32 := 0x01
def SF_UF : BitVec 32 := 0x02
def SF_OF : BitVec 32 := 0x04
def SF_DZ : BitVec 32 := 0x08
def SF_NV : BitVec 32 := 0x10

def F32_QNAN : BitVec 32 := 0x7fc00000
def F64_QNAN : BitVec 64 := 0x7ff8000000000000

/-- A result and the flags it raised. -/
abbrev Res := BitVec 64 × BitVec 32

/-! ## Two-word helpers -/

structure U128 where
  hi : BitVec 64
  lo : BitVec 64
  deriving DecidableEq, Repr

def is0128 (a : U128) : Bool := a.hi ||| a.lo == 0

/-- One halving step of the leading-zero count. -/
def clzStep (bound : BitVec 64) (k : Nat) (s : Nat × BitVec 64) : Nat × BitVec 64 :=
  if s.2.ule bound then (s.1 + k, s.2 <<< k) else s

def clz64 (x : BitVec 64) : Nat :=
  if x = 0 then 64
  else
    let s := clzStep 0x00000000FFFFFFFF 32 (0, x)
    let s := clzStep 0x0000FFFFFFFFFFFF 16 s
    let s := clzStep 0x00FFFFFFFFFFFFFF 8 s
    let s := clzStep 0x0FFFFFFFFFFFFFFF 4 s
    let s := clzStep 0x3FFFFFFFFFFFFFFF 2 s
    (clzStep 0x7FFFFFFFFFFFFFFF 1 s).1

def clz128 (a : U128) : Nat := if a.hi ≠ 0 then clz64 a.hi else 64 + clz64 a.lo

def msb128 (a : U128) : Int := 127 - (clz128 a : Int)

def getBit128 (a : U128) (i : Nat) : BitVec 64 :=
  if 127 < i then 0 else (if 64 ≤ i then a.hi >>> (i - 64) else a.lo >>> i) &&& 1

/-- -1, 0 or 1. -/
def cmp128 (a b : U128) : Int :=
  if a.hi ≠ b.hi then (if a.hi.ult b.hi then -1 else 1)
  else if a.lo ≠ b.lo then (if a.lo.ult b.lo then -1 else 1)
  else 0

def bit01 (p : Bool) : BitVec 64 := if p then 1 else 0

def add128 (a b : U128) : U128 :=
  let lo := a.lo + b.lo
  ⟨a.hi + b.hi + bit01 (lo.ult a.lo), lo⟩

def sub128 (a b : U128) : U128 :=
  ⟨a.hi - b.hi - bit01 (a.lo.ult b.lo), a.lo - b.lo⟩

def shl128 (a : U128) (n : Int) : U128 :=
  if n ≤ 0 then a
  else
    let n := n.toNat
    if 64 ≤ n then ⟨a.lo <<< (n - 64), 0⟩
    else ⟨(a.hi <<< n) ||| (a.lo >>> (64 - n)), a.lo <<< n⟩

/-- The low `n` bits. -/
def lowMask (n : Nat) : BitVec 64 := (1#64 <<< n) - 1

/-- Right shift, with whether a 1 bit fell off. -/
def shr128Jam (a : U128) (n : Int) : U128 × Bool :=
  if n ≤ 0 then (a, false)
  else
    let n := n.toNat
    if 128 ≤ n then (⟨0, 0⟩, !is0128 a)
    else if 64 ≤ n then
      let m := n - 64
      (⟨0, a.hi >>> m⟩, a.lo ||| (if m ≠ 0 then a.hi &&& lowMask m else 0) != 0)
    else
      (⟨a.hi >>> n, (a.lo >>> n) ||| (a.hi <<< (64 - n))⟩, a.lo &&& lowMask n != 0)

def mul64 (a b : BitVec 64) : U128 :=
  let al := (a.setWidth 32).setWidth 64
  let ah := a >>> 32
  let bl := (b.setWidth 32).setWidth 64
  let bh := b >>> 32
  let ll := al * bl
  let lh := al * bh
  let hl := ah * bl
  let hh := ah * bh
  let cross := (ll >>> 32) + (lh.setWidth 32).setWidth 64 + (hl.setWidth 32).setWidth 64
  ⟨hh + (lh >>> 32) + (hl >>> 32) + (cross >>> 32), (ll &&& 0xffffffff) ||| (cross <<< 32)⟩

/-- The last `n` rounds of the long division: `(q, r)`. -/
def udivRounds (lo den : BitVec 64) (s : BitVec 64 × BitVec 64) : Nat → BitVec 64 × BitVec 64
  | 0 => s
  | i + 1 =>
    let carry := s.2.getLsbD 63
    let r := (s.2 <<< 1) ||| ((lo >>> i) &&& 1)
    let s := if carry || den.ule r then (s.1 ||| (1#64 <<< i), r - den) else (s.1, r)
    udivRounds lo den s i

/-- Quotient and remainder of a 128-bit number by a 64-bit one. -/
def udiv128by64 (num : U128) (den : BitVec 64) : BitVec 64 × BitVec 64 :=
  udivRounds num.lo den (0, num.hi) 64

/-- The last `n` rounds of the digit-by-digit square root: `(root, rem)`. -/
def isqrtRounds (x : U128) (s : BitVec 64 × U128) : Nat → BitVec 64 × U128
  | 0 => s
  | i + 1 =>
    let rem := shl128 s.2 2
    let rem := add128 rem ⟨0, (getBit128 x (2 * i + 1) <<< 1) ||| getBit128 x (2 * i)⟩
    let trial := add128 (shl128 ⟨0, s.1⟩ 2) ⟨0, 1⟩
    let s := if 0 ≤ cmp128 rem trial then ((s.1 <<< 1) ||| 1, sub128 rem trial) else (s.1 <<< 1, rem)
    isqrtRounds x s i

/-- The integer square root, with whether the radicand is not a perfect square. -/
def isqrt128 (x : U128) : BitVec 64 × Bool :=
  let s := isqrtRounds x (0, ⟨0, 0⟩) 64
  (s.1, !is0128 s.2)

def srjam64 (a : BitVec 64) (dist : Nat) : BitVec 64 :=
  if dist = 0 then a
  else if 64 ≤ dist then bit01 (a != 0)
  else (a >>> dist) ||| bit01 (a &&& lowMask dist != 0)

/-! ## Formats and unpacking -/

structure Fmt where
  mantbits : Nat
  expbits : Nat
  bias : Int
  width : Nat

def F32 : Fmt := ⟨23, 8, 127, 32⟩
def F64 : Fmt := ⟨52, 11, 1023, 64⟩

inductive Cls
  | zero | normal | inf | nan
  deriving DecidableEq, Repr

/-- A magnitude `sig * 2^exp2` with its sign and class. -/
structure Up where
  sign : Bool
  cls : Cls
  snan : Bool
  sig : U128
  exp2 : Int

def Fmt.qnanBits (f : Fmt) : BitVec 64 := if f.width = 32 then F32_QNAN.setWidth 64 else F64_QNAN

def Fmt.signBit (f : Fmt) : BitVec 64 := 1#64 <<< (f.width - 1)

def Fmt.expOnes (f : Fmt) : BitVec 64 := lowMask f.expbits

def packRaw (f : Fmt) (sign : Bool) (expfield frac : BitVec 64) : BitVec 64 :=
  (bit01 sign <<< (f.width - 1)) ||| (expfield <<< f.mantbits) ||| frac

def makeInf (f : Fmt) (sign : Bool) : BitVec 64 := packRaw f sign f.expOnes 0

def makeZero (f : Fmt) (sign : Bool) : BitVec 64 := if sign then f.signBit else 0

/-- `unpack`; the significand and exponent of an infinity or NaN, unset in the source, are 0. -/
def unpack (f : Fmt) (bits : BitVec 64) : Up :=
  let sign := bits.getLsbD (f.width - 1)
  let exp := (bits >>> f.mantbits) &&& f.expOnes
  let frac := bits &&& lowMask f.mantbits
  if exp = 0 then
    if frac = 0 then ⟨sign, .zero, false, ⟨0, 0⟩, 0⟩
    else ⟨sign, .normal, false, ⟨0, frac⟩, (1 - f.bias) - f.mantbits⟩
  else if exp = f.expOnes then
    if frac = 0 then ⟨sign, .inf, false, ⟨0, 0⟩, 0⟩
    else ⟨sign, .nan, !frac.getLsbD (f.mantbits - 1), ⟨0, 0⟩, 0⟩
  else ⟨sign, .normal, false, ⟨0, (1#64 <<< f.mantbits) ||| frac⟩, ((exp.toNat : Int) - f.bias) - f.mantbits⟩

/-! ## Round and pack -/

/-- The number of round bits `roundpack` expects below the fraction. -/
def Fmt.roundBits (f : Fmt) : Nat := if f.width = 32 then 7 else 10

def Fmt.overflowBit (f : Fmt) : BitVec 64 := if f.width = 32 then 0x80000000 else 0x8000000000000000

/-- What is added before the round bits are dropped. -/
def roundInc (f : Fmt) (sign : Bool) (rm : BitVec 3) : BitVec 64 :=
  if rm ≠ SF_RNE ∧ rm ≠ SF_RMM then
    if rm = (if sign then SF_RDN else SF_RUP) then lowMask f.roundBits else 0
  else 1#64 <<< (f.roundBits - 1)

/-- The tail of `roundpack`, once the exponent is in range. -/
def packRounded (f : Fmt) (sign : Bool) (exp : Int) (sigp : BitVec 64) (rm : BitVec 3)
    (flags : BitVec 32) : Res :=
  let bits := sigp &&& lowMask f.roundBits
  let flags := if bits ≠ 0 then flags ||| SF_NX else flags
  let sig := (sigp + roundInc f sign rm) >>> f.roundBits
  let sig := if rm = SF_RNE ∧ bits = 1#64 <<< (f.roundBits - 1) then sig &&& ~~~1#64 else sig
  let exp := if sig = 0 then 0 else exp
  ((bit01 sign <<< (f.width - 1)) + (BitVec.ofInt 64 exp <<< f.mantbits) + sig, flags)

def roundpack (f : Fmt) (sign : Bool) (exp : Int) (sigp : BitVec 64) (rm : BitVec 3) : Res :=
  let inc := roundInc f sign rm
  let infExp : Int := f.expOnes.toNat
  if exp < 0 then
    let isTiny := exp < -1 ∨ (sigp + inc).ult f.overflowBit
    let sigp := srjam64 sigp (-exp).toNat
    let flags := if isTiny ∧ sigp &&& lowMask f.roundBits ≠ 0 then SF_UF else 0
    packRounded f sign 0 sigp rm flags
  else if infExp - 2 ≤ exp ∧ (infExp - 2 < exp ∨ f.overflowBit.ule (sigp + inc)) then
    (if inc ≠ 0 then makeInf f sign else makeInf f sign - 1, SF_OF ||| SF_NX)
  else packRounded f sign exp sigp rm 0

/-- Normalise a nonzero magnitude with its sticky bit and round it. -/
def roundMag (f : Fmt) (sign : Bool) (mant : U128) (exp2 : Int) (sticky : Bool) (rm : BitVec 3) : Res :=
  if is0128 mant then (makeZero f sign, 0)
  else
    let leadpos : Int := if f.width = 32 then 30 else 62
    let mb := msb128 mant
    let expB := exp2 + mb + f.bias
    let shift := leadpos - mb
    let sigp :=
      if 0 ≤ shift then (shl128 mant shift).lo ||| bit01 sticky
      else
        let (r, lost) := shr128Jam mant (-shift)
        r.lo ||| bit01 (lost || sticky)
    roundpack f sign (expB - 1) sigp rm

/-! ## The four-word accumulator -/

/-- Words 0 to 3, least significant first. -/
abbrev U256 := Nat → BitVec 64

def u256From128 (a : U128) : U256
  | 0 => a.lo
  | 1 => a.hi
  | _ => 0

def is0256 (a : U256) : Bool := a 0 ||| a 1 ||| a 2 ||| a 3 == 0

/-- The top set bit among the low `n` words, or -1. -/
def msbWords (a : U256) : Nat → Int
  | 0 => -1
  | i + 1 => if a i ≠ 0 then i * 64 + (63 - (clz64 (a i) : Int)) else msbWords a i

def msb256 (a : U256) : Int := msbWords a 4

/-- Compare the low `n` words, most significant first. -/
def cmpWords (a b : U256) : Nat → Int
  | 0 => 0
  | i + 1 => if a i ≠ b i then (if (a i).ult (b i) then -1 else 1) else cmpWords a b i

def cmp256 (a b : U256) : Int := cmpWords a b 4

/-- One word of an addition: sum and carry. -/
def addWord (a b carry : BitVec 64) : BitVec 64 × BitVec 64 :=
  let s := a + carry
  let c1 := bit01 (s.ult carry)
  let s := s + b
  (s, c1 + bit01 (s.ult b))

def carry256 (a b : U256) : Nat → BitVec 64
  | 0 => 0
  | i + 1 => (addWord (a i) (b i) (carry256 a b i)).2

def add256 (a b : U256) : U256 :=
  fun i => if i < 4 then (addWord (a i) (b i) (carry256 a b i)).1 else 0

/-- One word of a subtraction: difference and borrow. -/
def subWordBorrow (a b borrow : BitVec 64) : BitVec 64 × BitVec 64 :=
  let bi := b + borrow
  (a - bi, bit01 (bi.ult borrow) + bit01 (a.ult bi))

def borrow256 (a b : U256) : Nat → BitVec 64
  | 0 => 0
  | i + 1 => (subWordBorrow (a i) (b i) (borrow256 a b i)).2

def sub256 (a b : U256) : U256 :=
  fun i => if i < 4 then (subWordBorrow (a i) (b i) (borrow256 a b i)).1 else 0

def shl128to256 (a : U128) (n : Int) : U256 :=
  let s := u256From128 a
  let n := n.toNat
  let word := n / 64
  let bit := n % 64
  fun i =>
    if 256 ≤ n ∨ 4 ≤ i ∨ i < word then 0
    else (s (i - word) <<< bit) |||
      (if bit ≠ 0 ∧ 1 ≤ i - word then s (i - word - 1) >>> (64 - bit) else 0)

def shr256Jam (a : U256) (n : Int) : U256 × Bool :=
  if n ≤ 0 then (a, false)
  else
    let n := n.toNat
    if 256 ≤ n then (fun _ => 0, !is0256 a)
    else
      let word := n / 64
      let bit := n % 64
      let lost := (List.range word).any (fun i => a i != 0) || (bit != 0 && a word &&& lowMask bit != 0)
      (fun i =>
        if i + word < 4 then
          (a (i + word) >>> bit) |||
            (if bit ≠ 0 ∧ i + word + 1 < 4 then a (i + word + 1) <<< (64 - bit) else 0)
        else 0, lost)

/-! ## Addition -/

/-- The signed sum in the window: magnitude, sign and sticky; `none` is exact cancellation. -/
def addWindow (sX sY : Bool) (A B : U256) (stickyY : Bool) : Option (U256 × Bool × Bool) :=
  if sX = sY then some (add256 A B, sX, stickyY)
  else if 0 < cmp256 A B then
    if stickyY then some (sub256 (sub256 A B) (u256From128 ⟨0, 1⟩), sX, true)
    else some (sub256 A B, sX, false)
  else if cmp256 A B < 0 then some (sub256 B A, sY, stickyY)
  else none

/-- `add_core` once X is the higher-leading operand. -/
def addOrdered (f : Fmt) (sX : Bool) (sigX : U128) (eX : Int) (sY : Bool) (sigY : U128) (eY : Int)
    (rm : BitVec 3) : Res :=
  let wbot := eX + msb128 sigX - 253
  let A := shl128to256 sigX (eX - wbot)
  let shY := eY - wbot
  let (B, stickyY) :=
    if 0 ≤ shY then (shl128to256 sigY shY, false) else shr256Jam (u256From128 sigY) (-shY)
  match addWindow sX sY A B stickyY with
  | none => (makeZero f (rm = SF_RDN), 0)
  | some (M, sign, sticky) =>
    if is0256 M && !sticky then (makeZero f (rm = SF_RDN), 0)
    else
      let mb := msb256 M
      if mb ≤ 127 then roundMag f sign ⟨M 1, M 0⟩ wbot sticky rm
      else
        let (red, lost) := shr256Jam M (mb - 127)
        roundMag f sign ⟨red 1, red 0⟩ (wbot + (mb - 127)) (sticky || lost) rm

def addCore (f : Fmt) (sX : Bool) (sigX : U128) (eX : Int) (sY : Bool) (sigY : U128) (eY : Int)
    (rm : BitVec 3) : Res :=
  if eX + msb128 sigX < eY + msb128 sigY then addOrdered f sY sigY eY sX sigX eX rm
  else addOrdered f sX sigX eX sY sigY eY rm

/-! ## The arithmetic operations -/

/-- NV when an operand is a signalling NaN. -/
def nanFlags (snan : Bool) : BitVec 32 := if snan then SF_NV else 0

def fpAdd (f : Fmt) (a b : BitVec 64) (sub : Bool) (rm : BitVec 3) : Res :=
  let ua := unpack f a
  let ub := unpack f b
  let ub := { ub with sign := ub.sign ^^ sub }
  if ua.cls = .nan ∨ ub.cls = .nan then (f.qnanBits, nanFlags (ua.snan || ub.snan))
  else if ua.cls = .inf ∨ ub.cls = .inf then
    if ua.cls = .inf ∧ ub.cls = .inf then
      if ua.sign ≠ ub.sign then (f.qnanBits, SF_NV) else (makeInf f ua.sign, 0)
    else (makeInf f (if ua.cls = .inf then ua.sign else ub.sign), 0)
  else if ua.cls = .zero ∧ ub.cls = .zero then
    (makeZero f (if ua.sign = ub.sign then ua.sign else rm = SF_RDN), 0)
  else if ua.cls = .zero then (if sub then b ^^^ f.signBit else b, 0)
  else if ub.cls = .zero then (a, 0)
  else addCore f ua.sign ua.sig ua.exp2 ub.sign ub.sig ub.exp2 rm

def fpMul (f : Fmt) (a b : BitVec 64) (rm : BitVec 3) : Res :=
  let ua := unpack f a
  let ub := unpack f b
  let sign := ua.sign ^^ ub.sign
  if ua.cls = .nan ∨ ub.cls = .nan then (f.qnanBits, nanFlags (ua.snan || ub.snan))
  else if ua.cls = .inf ∨ ub.cls = .inf then
    if ua.cls = .zero ∨ ub.cls = .zero then (f.qnanBits, SF_NV) else (makeInf f sign, 0)
  else if ua.cls = .zero ∨ ub.cls = .zero then (makeZero f sign, 0)
  else roundMag f sign (mul64 ua.sig.lo ub.sig.lo) (ua.exp2 + ub.exp2) false rm

/-- Left-align a significand so its top bit sits at `mantbits`. -/
def normOperand (u : Up) (f : Fmt) : Up :=
  if u.cls ≠ .normal ∨ is0128 u.sig then u
  else
    let shift := (f.mantbits : Int) - msb128 u.sig
    if 0 < shift then { u with sig := shl128 u.sig shift, exp2 := u.exp2 - shift } else u

def fpDiv (f : Fmt) (a b : BitVec 64) (rm : BitVec 3) : Res :=
  let ua := unpack f a
  let ub := unpack f b
  let sign := ua.sign ^^ ub.sign
  if ua.cls = .nan ∨ ub.cls = .nan then (f.qnanBits, nanFlags (ua.snan || ub.snan))
  else if ua.cls = .inf then
    if ub.cls = .inf then (f.qnanBits, SF_NV) else (makeInf f sign, 0)
  else if ub.cls = .inf then (makeZero f sign, 0)
  else if ub.cls = .zero then
    if ua.cls = .zero then (f.qnanBits, SF_NV) else (makeInf f sign, SF_DZ)
  else if ua.cls = .zero then (makeZero f sign, 0)
  else
    let ua := normOperand ua f
    let ub := normOperand ub f
    let P : Int := if f.width = 32 then 28 else 61
    let (q, rem) := udiv128by64 (shl128 ua.sig P) ub.sig.lo
    roundMag f sign ⟨0, q⟩ (ua.exp2 - ub.exp2 - P) (rem != 0) rm

def fpSqrt (f : Fmt) (a : BitVec 64) (rm : BitVec 3) : Res :=
  let ua := unpack f a
  if ua.cls = .nan then (f.qnanBits, nanFlags ua.snan)
  else if ua.cls = .zero then (a, 0)
  else if ua.sign then (f.qnanBits, SF_NV)
  else if ua.cls = .inf then (makeInf f false, 0)
  else
    let ua := normOperand ua f
    let odd := ua.exp2 % 2 ≠ 0
    let s := if odd then shl128 ua.sig 1 else ua.sig
    let e := if odd then ua.exp2 - 1 else ua.exp2
    let P : Int := if f.width = 32 then 28 else 35
    let (root, remNz) := isqrt128 (shl128 s (2 * P))
    roundMag f false ⟨0, root⟩ (e / 2 - P) remNz rm

def fpMuladd (f : Fmt) (a b c : BitVec 64) (rm : BitVec 3) : Res :=
  let ua := unpack f a
  let ub := unpack f b
  let uc := unpack f c
  let psign := ua.sign ^^ ub.sign
  let prodInvalid := (ua.cls = .inf ∧ ub.cls = .zero) ∨ (ua.cls = .zero ∧ ub.cls = .inf)
  if ua.cls = .nan ∨ ub.cls = .nan ∨ uc.cls = .nan ∨ prodInvalid then
    (f.qnanBits, nanFlags (ua.snan || ub.snan || uc.snan || prodInvalid))
  else if ua.cls = .inf ∨ ub.cls = .inf then
    if uc.cls = .inf ∧ uc.sign ≠ psign then (f.qnanBits, SF_NV) else (makeInf f psign, 0)
  else if uc.cls = .inf then (makeInf f uc.sign, 0)
  else if ua.cls = .zero ∨ ub.cls = .zero then
    if uc.cls = .zero then (makeZero f (if psign = uc.sign then psign else rm = SF_RDN), 0) else (c, 0)
  else
    let sigP := mul64 ua.sig.lo ub.sig.lo
    let eP := ua.exp2 + ub.exp2
    if uc.cls = .zero then roundMag f psign sigP eP false rm
    else addCore f psign sigP eP uc.sign uc.sig uc.exp2 rm

/-! ## Comparisons, min/max, classify -/

/-- Numeric order of two non-NaN operands, -0 equal to +0. -/
def fcmp (f : Fmt) (a b : BitVec 64) : Int :=
  let ua := unpack f a
  let ub := unpack f b
  if ua.cls = .zero ∧ ub.cls = .zero then 0
  else if ua.sign ≠ ub.sign then (if ua.sign then -1 else 1)
  else
    let mag : Int :=
      if ua.cls = .inf ∨ ub.cls = .inf then
        (if ua.cls = .inf then 1 else 0) - (if ub.cls = .inf then 1 else 0)
      else
        let la := ua.exp2 + (if ua.cls = .zero then -100000 else msb128 ua.sig)
        let lb := ub.exp2 + (if ub.cls = .zero then -100000 else msb128 ub.sig)
        if la ≠ lb then (if la < lb then -1 else 1)
        else cmp128 (shl128 ua.sig (127 - msb128 ua.sig)) (shl128 ub.sig (127 - msb128 ub.sig))
    if ua.sign then -mag else mag

/-- The comparison result and its flags: `quiet` raises NV for a signalling NaN only. -/
def fpCompare (f : Fmt) (quiet : Bool) (holds : Int → Bool) (a b : BitVec 64) : Bool × BitVec 32 :=
  let ua := unpack f a
  let ub := unpack f b
  if ua.cls = .nan ∨ ub.cls = .nan then
    (false, if quiet then nanFlags (ua.snan || ub.snan) else SF_NV)
  else (holds (fcmp f a b), 0)

def fpEq (f : Fmt) : BitVec 64 → BitVec 64 → Bool × BitVec 32 := fpCompare f true (· == 0)
def fpLt (f : Fmt) : BitVec 64 → BitVec 64 → Bool × BitVec 32 := fpCompare f false (· < 0)
def fpLe (f : Fmt) : BitVec 64 → BitVec 64 → Bool × BitVec 32 := fpCompare f false (· ≤ 0)

def fpMinmax (f : Fmt) (a b : BitVec 64) (wantMax : Bool) : Res :=
  let ua := unpack f a
  let ub := unpack f b
  if ua.cls = .nan ∨ ub.cls = .nan then
    (if ua.cls = .nan ∧ ub.cls = .nan then f.qnanBits else if ua.cls = .nan then b else a,
      nanFlags (ua.snan || ub.snan))
  else
    let c := fcmp f a b
    if c = 0 then (if ua.sign = !wantMax then a else b, 0)
    else if wantMax then (if 0 < c then a else b, 0)
    else (if c < 0 then a else b, 0)

def fpClassify (f : Fmt) (a : BitVec 64) : BitVec 32 :=
  let u := unpack f a
  match u.cls with
  | .inf => if u.sign then 1 <<< 0 else 1 <<< 7
  | .zero => if u.sign then 1 <<< 3 else 1 <<< 4
  | .nan => if u.snan then 1 <<< 8 else 1 <<< 9
  | .normal =>
    if (a >>> f.mantbits) &&& f.expOnes = 0 then (if u.sign then 1 <<< 2 else 1 <<< 5)
    else if u.sign then 1 <<< 1 else 1 <<< 6

/-! ## Conversions -/

def f32ToF64 (a : BitVec 32) : Res :=
  let u := unpack F32 (a.setWidth 64)
  match u.cls with
  | .nan => (F64_QNAN, nanFlags u.snan)
  | .inf => (makeInf F64 u.sign, 0)
  | .zero => (makeZero F64 u.sign, 0)
  | .normal => roundMag F64 u.sign u.sig u.exp2 false SF_RNE

def f64ToF32 (a : BitVec 64) (rm : BitVec 3) : BitVec 32 × BitVec 32 :=
  let u := unpack F64 a
  match u.cls with
  | .nan => (F32_QNAN, nanFlags u.snan)
  | .inf => ((makeInf F32 u.sign).setWidth 32, 0)
  | .zero => ((makeZero F32 u.sign).setWidth 32, 0)
  | .normal =>
    let (r, fl) := roundMag F32 u.sign u.sig u.exp2 false rm
    (r.setWidth 32, fl)

/-- `to_int_mag`: the rounded magnitude, or `none` on overflow, with inexactness. -/
def toIntMag (sig : BitVec 64) (exp2 : Int) (sign : Bool) (rm : BitVec 3) : Option (BitVec 64) × Bool :=
  if sig = 0 then (some 0, false)
  else if 0 ≤ exp2 then
    if 63 < 63 - (clz64 sig : Int) + exp2 then (none, false) else (some (sig <<< exp2.toNat), false)
  else
    let rsh := (-exp2).toNat
    let floorv := if 64 ≤ rsh then 0 else sig >>> rsh
    let roundbit := rsh ≤ 64 && sig.getLsbD (rsh - 1)
    let belowmask := if 64 ≤ rsh - 1 then BitVec.allOnes 64 else lowMask (rsh - 1)
    let sticky := sig &&& belowmask != 0
    let inexact := roundbit || sticky
    let inc :=
      match rm with
      | 0x0#3 => roundbit && (sticky || floorv.getLsbD 0)
      | 0x2#3 => sign && inexact
      | 0x3#3 => !sign && inexact
      | 0x4#3 => roundbit
      | _ => false
    (some (floorv + bit01 inc), inexact)

/-- The low `intbits` bits. -/
def intMask (intbits : Nat) : BitVec 64 := if 64 ≤ intbits then BitVec.allOnes 64 else lowMask intbits

def fpToInt (f : Fmt) (a : BitVec 64) (isSigned : Bool) (intbits : Nat) (rm : BitVec 3) : Res :=
  let u := unpack f a
  let maxpos := if isSigned then (1#64 <<< (intbits - 1)) - 1 else intMask intbits
  let minneg := if isSigned then 1#64 <<< (intbits - 1) else 0
  match u.cls with
  | .nan => (maxpos, SF_NV)
  | .zero => (0, 0)
  | .inf => (if u.sign then minneg else maxpos, SF_NV)
  | .normal =>
    match toIntMag u.sig.lo u.exp2 u.sign rm with
    | (none, _) => (if u.sign then minneg else maxpos, SF_NV)
    | (some mag, inexact) =>
      let nx := if inexact then SF_NX else 0
      if u.sign then
        if minneg.ult mag then (minneg, SF_NV)
        else if !isSigned ∧ mag ≠ 0 then (0, SF_NV)
        else (-mag &&& intMask intbits, nx)
      else if maxpos.ult mag then (maxpos, SF_NV)
      else (mag, nx)

def intToFp (f : Fmt) (mag : BitVec 64) (sign : Bool) (rm : BitVec 3) : Res :=
  if mag = 0 then (0, 0) else roundMag f sign ⟨0, mag⟩ 0 false rm

/-- A signed integer's magnitude and sign, converted. -/
def signedToFp (f : Fmt) (a : BitVec 64) (rm : BitVec 3) : Res :=
  intToFp f (if a.slt 0 then -a else a) (a.slt 0) rm

end Quanta.Softfloat
