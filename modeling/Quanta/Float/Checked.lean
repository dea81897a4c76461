/-
`softfloat.c` once more, with C's rules for its integers: every `int` operation, shift distance and
stated precondition is checked, and the fields of an operand that `unpack` leaves unset are unset.
`none` is undefined behaviour.
-/
import Quanta.Float.Softfloat
import Quanta.Lib.CArith

namespace Quanta.Softfloat.Checked

open CArith

/-! ## Two-word helpers -/

/-- One halving step of the leading-zero count: `n += k; x <<= k`. -/
def clzStep (bound : BitVec 64) (k : Int) (s : Int × BitVec 64) : Option (Int × BitVec 64) :=
  if s.2.ule bound then do
    let n ← int (s.1 + k)
    let x ← shl s.2 k
    return (n, x)
  else some s

def clz64 (x : BitVec 64) : Option Int :=
  if x = 0 then some 64
  else do
    let s ← clzStep 0x00000000FFFFFFFF 32 (0, x)
    let s ← clzStep 0x0000FFFFFFFFFFFF 16 s
    let s ← clzStep 0x00FFFFFFFFFFFFFF 8 s
    let s ← clzStep 0x0FFFFFFFFFFFFFFF 4 s
    let s ← clzStep 0x3FFFFFFFFFFFFFFF 2 s
    if s.2.ule 0x7FFFFFFFFFFFFFFF then int (s.1 + 1) else some s.1

def clz128 (a : U128) : Option Int :=
  if a.hi ≠ 0 then clz64 a.hi
  else do
    let n ← clz64 a.lo
    int (64 + n)

def msb128 (a : U128) : Option Int := do
  let n ← clz128 a
  int (127 - n)

def getBit128 (a : U128) (i : Int) : Option (BitVec 64) :=
  if i < 0 ∨ 127 < i then some 0
  else if 64 ≤ i then do
    let k ← int (i - 64)
    let v ← shr a.hi k
    return v &&& 1
  else do
    let v ← shr a.lo i
    return v &&& 1

def shl128 (a : U128) (n : Int) : Option U128 :=
  if n ≤ 0 then some a
  else if 64 ≤ n then do
    let k ← int (n - 64)
    let hi ← shl a.lo k
    return ⟨hi, 0⟩
  else do
    let k ← int (64 - n)
    let hi ← shl a.hi n
    let carried ← shr a.lo k
    let lo ← shl a.lo n
    return ⟨hi ||| carried, lo⟩

/-- `((uint64_t)1 << n) - 1`. -/
def lowMask (n : Int) : Option (BitVec 64) := do
  let one ← shl 1#64 n
  return one - 1

def shr128Jam (a : U128) (n : Int) : Option (U128 × Bool) :=
  if n ≤ 0 then some (a, false)
  else if 128 ≤ n then some (⟨0, 0⟩, !is0128 a)
  else if 64 ≤ n then do
    let m ← int (n - 64)
    if m ≠ 0 then
      let mask ← lowMask m
      let lo ← shr a.hi m
      return (⟨0, lo⟩, a.lo ||| (a.hi &&& mask) != 0)
    else return (⟨0, a.hi⟩, a.lo ||| 0 != 0)
  else do
    let mask ← lowMask n
    let k ← int (64 - n)
    let hi ← shr a.hi n
    let lo ← shr a.lo n
    let carried ← shl a.hi k
    return (⟨hi, lo ||| carried⟩, a.lo &&& mask != 0)

def udivRounds (lo den : BitVec 64) (s : BitVec 64 × BitVec 64) : Nat → Option (BitVec 64 × BitVec 64)
  | 0 => some s
  | i + 1 => do
    let top ← shr s.2 63
    let r ← shl s.2 1
    let b ← shr lo i
    let r := r ||| (b &&& 1)
    if top ≠ 0 ∨ den.ule r then
      let one ← shl 1#64 i
      udivRounds lo den (s.1 ||| one, r - den) i
    else udivRounds lo den (s.1, r) i

/-- `udiv128by64`, which requires `num.hi < den`. -/
def udiv128by64 (num : U128) (den : BitVec 64) : Option (BitVec 64 × BitVec 64) := do
  requires (num.hi.ult den)
  udivRounds num.lo den (0, num.hi) 64

def isqrtRounds (x : U128) (s : BitVec 64 × U128) : Nat → Option (BitVec 64 × U128)
  | 0 => some s
  | i + 1 => do
    let rem ← shl128 s.2 2
    let even ← int (2 * i)
    let odd ← int (even + 1)
    let hi ← getBit128 x odd
    let hi ← shl hi 1
    let lo ← getBit128 x even
    let rem := add128 rem ⟨0, hi ||| lo⟩
    let root4 ← shl128 ⟨0, s.1⟩ 2
    let trial := add128 root4 ⟨0, 1⟩
    let root2 ← shl s.1 1
    if 0 ≤ cmp128 rem trial then isqrtRounds x (root2 ||| 1, sub128 rem trial) i
    else isqrtRounds x (root2, rem) i

/-- `isqrt128`, for a radicand below `2^126`. -/
def isqrt128 (x : U128) : Option (BitVec 64 × Bool) := do
  requires (x.hi.ult 0x4000000000000000)
  let s ← isqrtRounds x (0, ⟨0, 0⟩) 64
  return (s.1, !is0128 s.2)

def srjam64 (a : BitVec 64) (dist : Int) : Option (BitVec 64) :=
  if dist = 0 then some a
  else if 64 ≤ dist then some (bit01 (a != 0))
  else do
    let v ← shr a dist
    let mask ← lowMask dist
    return v ||| bit01 (a &&& mask != 0)

/-! ## Unpacking and packing -/

/-- An operand; `sig` and `exp2` of an infinity or NaN stay unset. -/
structure Up where
  sign : Bool
  cls : Cls
  snan : Bool
  sig : Option U128
  exp2 : Option Int

def signBit (f : Fmt) : Option (BitVec 64) := do
  let n ← int (f.width - 1)
  shl 1#64 n

def packRaw (f : Fmt) (sign : Bool) (expfield frac : BitVec 64) : Option (BitVec 64) := do
  let n ← int (f.width - 1)
  let s ← shl (bit01 sign) n
  let e ← shl expfield f.mantbits
  return s ||| e ||| frac

def makeInf (f : Fmt) (sign : Bool) : Option (BitVec 64) := do
  let ones ← lowMask f.expbits
  packRaw f sign ones 0

def makeZero (f : Fmt) (sign : Bool) : Option (BitVec 64) := if sign then signBit f else some 0

def unpack (f : Fmt) (bits : BitVec 64) : Option Up := do
  let ones ← lowMask f.expbits
  let fracmask ← lowMask f.mantbits
  let n ← int (f.width - 1)
  let top ← shr bits n
  let sign := top.getLsbD 0
  let e ← shr bits f.mantbits
  let exp := e &&& ones
  let frac := bits &&& fracmask
  if exp = 0 then
    if frac = 0 then return ⟨sign, .zero, false, some ⟨0, 0⟩, some 0⟩
    else
      let emin ← int (1 - f.bias)
      let e2 ← int (emin - f.mantbits)
      return ⟨sign, .normal, false, some ⟨0, frac⟩, some e2⟩
  else if exp = ones then
    if frac = 0 then return ⟨sign, .inf, false, none, none⟩
    else
      let n ← int (f.mantbits - 1)
      let quiet ← shr frac n
      return ⟨sign, .nan, !quiet.getLsbD 0, none, none⟩
  else
    let one ← shl 1#64 f.mantbits
    let field ← int exp.toNat
    let unbiased ← int (field - f.bias)
    let e2 ← int (unbiased - f.mantbits)
    return ⟨sign, .normal, false, some ⟨0, one ||| frac⟩, some e2⟩

/-! ## Round and pack -/

/-- The tail of `roundpack`, with `mask`, `half` and `inc` as computed before. -/
def packRounded (f : Fmt) (sign : Bool) (exp : Int) (sigp mask half inc : BitVec 64) (rm : BitVec 3)
    (flags : BitVec 32) : Option Res := do
  let bits := sigp &&& mask
  let flags := if bits ≠ 0 then flags ||| SF_NX else flags
  let sig ← shr (sigp + inc) f.roundBits
  let sig := if rm = SF_RNE ∧ bits = half then sig &&& ~~~1#64 else sig
  let exp := if sig = 0 then 0 else exp
  let n ← int (f.width - 1)
  let s ← shl (bit01 sign) n
  let e ← shl (BitVec.ofInt 64 exp) f.mantbits
  return (s + e + sig, flags)

/-- What is added before the round bits are dropped. -/
def chooseInc (mask half : BitVec 64) (sign : Bool) (rm : BitVec 3) : BitVec 64 :=
  if rm ≠ SF_RNE ∧ rm ≠ SF_RMM then (if rm = (if sign then SF_RDN else SF_RUP) then mask else 0) else half

def roundpack (f : Fmt) (sign : Bool) (exp : Int) (sigp : BitVec 64) (rm : BitVec 3) : Option Res := do
  let mask ← lowMask f.roundBits
  let n ← int (f.roundBits - 1)
  let half ← shl 1#64 n
  let inc := chooseInc mask half sign rm
  let ones ← lowMask f.expbits
  let infExp ← int ones.toNat
  let limit ← int (infExp - 2)
  -- `(unsigned)exp >= (unsigned)(infExp - 2)`
  if (BitVec.ofInt 32 limit).ule (BitVec.ofInt 32 exp) then
    if exp < 0 then
      let isTiny := exp < -1 ∨ (sigp + inc).ult f.overflowBit
      let dist ← int (-exp)
      let sigp ← srjam64 sigp dist
      packRounded f sign 0 sigp mask half inc rm (if isTiny ∧ sigp &&& mask ≠ 0 then SF_UF else 0)
    else if limit < exp ∨ f.overflowBit.ule (sigp + inc) then
      let inf ← makeInf f sign
      return (if inc ≠ 0 then inf else inf - 1, SF_OF ||| SF_NX)
    else packRounded f sign exp sigp mask half inc rm 0
  else packRounded f sign exp sigp mask half inc rm 0

def roundMag (f : Fmt) (sign : Bool) (mant : U128) (exp2 : Int) (sticky : Bool) (rm : BitVec 3) : Option Res :=
  if is0128 mant then do
    let z ← makeZero f sign
    return (z, 0)
  else do
    let leadpos : Int := if f.width = 32 then 30 else 62
    let mb ← msb128 mant
    let top ← int (exp2 + mb)
    let expB ← int (top + f.bias)
    let shift ← int (leadpos - mb)
    let exp ← int (expB - 1)
    if 0 ≤ shift then
      let s ← shl128 mant shift
      roundpack f sign exp (s.lo ||| bit01 sticky) rm
    else
      let n ← int (-shift)
      let r ← shr128Jam mant n
      roundpack f sign exp (r.1.lo ||| bit01 (r.2 || sticky)) rm

/-! ## The four-word accumulator -/

def msbWords (a : U256) : Nat → Option Int
  | 0 => some (-1)
  | i + 1 =>
    if a i ≠ 0 then do
      let base ← int (i * 64)
      let n ← clz64 (a i)
      let top ← int (63 - n)
      int (base + top)
    else msbWords a i

def msb256 (a : U256) : Option Int := msbWords a 4

/-- `sub256`, which requires `a >= b`. -/
def sub256 (a b : U256) : Option U256 := do
  requires (0 ≤ cmp256 a b)
  return Softfloat.sub256 a b

/-- Four words, each computed if `word` says so. -/
def words (word : Nat → Option (BitVec 64)) : Option U256 := do
  let w ← (List.range 4).mapM word
  return fun i => w.getD i 0

/-- `shl128_256`; a negative distance would index outside the words. -/
def shl128to256 (a : U128) (n : Int) : Option U256 :=
  if 256 ≤ n then some fun _ => 0
  else do
    requires (0 ≤ n)
    let s := u256From128 a
    let word := n.toNat / 64
    let bit := n.toNat % 64
    words fun i =>
      if i < word then some 0
      else do
        let v ← shl (s (i - word)) bit
        if bit ≠ 0 ∧ 1 ≤ i - word then
          let k ← int (64 - bit)
          let carried ← shr (s (i - word - 1)) k
          return v ||| carried
        else return v ||| 0

def shr256Jam (a : U256) (n : Int) : Option (U256 × Bool) :=
  if n ≤ 0 then some (a, false)
  else if 256 ≤ n then some (fun _ => 0, !is0256 a)
  else do
    let word := n.toNat / 64
    let bit := n.toNat % 64
    let low := (List.range word).any fun i => a i != 0
    let mask ← lowMask bit
    let lost := low || (bit != 0 && a word &&& mask != 0)
    let r ← words fun i =>
      if i + word < 4 then do
        let v ← shr (a (i + word)) bit
        if bit ≠ 0 ∧ i + word + 1 < 4 then
          let k ← int (64 - bit)
          let carried ← shl (a (i + word + 1)) k
          return v ||| carried
        else return v ||| 0
      else some 0
    return (r, lost)

/-! ## Addition -/

/-- The signed sum in the window: magnitude, sign and sticky; an inner `none` is exact cancellation. -/
def addWindow (sX sY : Bool) (A B : U256) (stickyY : Bool) : Option (Option (U256 × Bool × Bool)) :=
  if sX = sY then some (some (add256 A B, sX, stickyY))
  else if 0 < cmp256 A B then do
    let M ← sub256 A B
    if stickyY then
      let M ← sub256 M (u256From128 ⟨0, 1⟩)
      return some (M, sX, true)
    else return some (M, sX, false)
  else if cmp256 A B < 0 then do
    let M ← sub256 B A
    return some (M, sY, stickyY)
  else some none

/-- Operand Y in the window, `shY` above its bottom or below it. -/
def placeLower (sigY : U128) (shY : Int) : Option (U256 × Bool) :=
  if 0 ≤ shY then do
    let B ← shl128to256 sigY shY
    return (B, false)
  else do
    let n ← int (-shY)
    shr256Jam (u256From128 sigY) n

/-- `add_core` once X is the higher-leading operand, at `lX`. -/
def addOrdered (f : Fmt) (lX : Int) (sX : Bool) (sigX : U128) (eX : Int) (sY : Bool) (sigY : U128) (eY : Int)
    (rm : BitVec 3) : Option Res := do
  let wbot ← int (lX - 253)
  let shX ← int (eX - wbot)
  let A ← shl128to256 sigX shX
  let shY ← int (eY - wbot)
  let (B, stickyY) ← placeLower sigY shY
  let sum ← addWindow sX sY A B stickyY
  match sum with
  | none => do
    let z ← makeZero f (rm = SF_RDN)
    return (z, 0)
  | some (M, sign, sticky) =>
    if is0256 M && !sticky then do
      let z ← makeZero f (rm = SF_RDN)
      return (z, 0)
    else do
      let mb ← msb256 M
      if mb ≤ 127 then roundMag f sign ⟨M 1, M 0⟩ wbot sticky rm
      else
        let n ← int (mb - 127)
        let (red, lost) ← shr256Jam M n
        let exp2 ← int (wbot + n)
        roundMag f sign ⟨red 1, red 0⟩ exp2 (sticky || lost) rm

def addCore (f : Fmt) (sX : Bool) (sigX : U128) (eX : Int) (sY : Bool) (sigY : U128) (eY : Int)
    (rm : BitVec 3) : Option Res := do
  let mX ← msb128 sigX
  let lX ← int (eX + mX)
  let mY ← msb128 sigY
  let lY ← int (eY + mY)
  if lX < lY then addOrdered f lY sY sigY eY sX sigX eX rm else addOrdered f lX sX sigX eX sY sigY eY rm

/-! ## The arithmetic operations -/

def fpAdd (f : Fmt) (a b : BitVec 64) (sub : Bool) (rm : BitVec 3) : Option Res := do
  let ua ← unpack f a
  let ub ← unpack f b
  let ub := { ub with sign := ub.sign ^^ sub }
  if ua.cls = .nan ∨ ub.cls = .nan then return (f.qnanBits, nanFlags (ua.snan || ub.snan))
  else if ua.cls = .inf ∨ ub.cls = .inf then
    if ua.cls = .inf ∧ ub.cls = .inf then
      if ua.sign ≠ ub.sign then return (f.qnanBits, SF_NV)
      else
        let r ← makeInf f ua.sign
        return (r, 0)
    else
      let r ← makeInf f (if ua.cls = .inf then ua.sign else ub.sign)
      return (r, 0)
  else if ua.cls = .zero ∧ ub.cls = .zero then
    let r ← makeZero f (if ua.sign = ub.sign then ua.sign else rm = SF_RDN)
    return (r, 0)
  else if ua.cls = .zero then
    if sub then
      let s ← signBit f
      return (b ^^^ s, 0)
    else return (b, 0)
  else if ub.cls = .zero then return (a, 0)
  else
    let sigX ← ua.sig
    let eX ← ua.exp2
    let sigY ← ub.sig
    let eY ← ub.exp2
    addCore f ua.sign sigX eX ub.sign sigY eY rm

def fpMul (f : Fmt) (a b : BitVec 64) (rm : BitVec 3) : Option Res := do
  let ua ← unpack f a
  let ub ← unpack f b
  let sign := ua.sign ^^ ub.sign
  if ua.cls = .nan ∨ ub.cls = .nan then return (f.qnanBits, nanFlags (ua.snan || ub.snan))
  else if ua.cls = .inf ∨ ub.cls = .inf then
    if ua.cls = .zero ∨ ub.cls = .zero then return (f.qnanBits, SF_NV)
    else
      let r ← makeInf f sign
      return (r, 0)
  else if ua.cls = .zero ∨ ub.cls = .zero then
    let r ← makeZero f sign
    return (r, 0)
  else
    let sigX ← ua.sig
    let sigY ← ub.sig
    let eX ← ua.exp2
    let eY ← ub.exp2
    let e ← int (eX + eY)
    roundMag f sign (mul64 sigX.lo sigY.lo) e false rm

def normOperand (u : Up) (f : Fmt) : Option Up :=
  if u.cls ≠ .normal then some u
  else do
    let sig ← u.sig
    if is0128 sig then return u
    else
      let mb ← msb128 sig
      let shift ← int (f.mantbits - mb)
      if 0 < shift then
        let sig ← shl128 sig shift
        let e ← u.exp2
        let e ← int (e - shift)
        return { u with sig := some sig, exp2 := some e }
      else return u

def fpDiv (f : Fmt) (a b : BitVec 64) (rm : BitVec 3) : Option Res := do
  let ua ← unpack f a
  let ub ← unpack f b
  let sign := ua.sign ^^ ub.sign
  if ua.cls = .nan ∨ ub.cls = .nan then return (f.qnanBits, nanFlags (ua.snan || ub.snan))
  else if ua.cls = .inf then
    if ub.cls = .inf then return (f.qnanBits, SF_NV)
    else
      let r ← makeInf f sign
      return (r, 0)
  else if ub.cls = .inf then
    let r ← makeZero f sign
    return (r, 0)
  else if ub.cls = .zero then
    if ua.cls = .zero then return (f.qnanBits, SF_NV)
    else
      let r ← makeInf f sign
      return (r, SF_DZ)
  else if ua.cls = .zero then
    let r ← makeZero f sign
    return (r, 0)
  else
    let ua ← normOperand ua f
    let ub ← normOperand ub f
    let P : Int := if f.width = 32 then 28 else 61
    let sigX ← ua.sig
    let num ← shl128 sigX P
    let sigY ← ub.sig
    let (q, rem) ← udiv128by64 num sigY.lo
    let eX ← ua.exp2
    let eY ← ub.exp2
    let e ← int (eX - eY)
    let e ← int (e - P)
    roundMag f sign ⟨0, q⟩ e (rem != 0) rm

/-- The significand of `fp_sqrt` with its exponent made even. -/
def evenExponent (sig : U128) (e : Int) : Option (U128 × Int) :=
  if e % 2 ≠ 0 then do
    let s ← shl128 sig 1
    let e ← int (e - 1)
    return (s, e)
  else some (sig, e)

def fpSqrt (f : Fmt) (a : BitVec 64) (rm : BitVec 3) : Option Res := do
  let ua ← unpack f a
  if ua.cls = .nan then return (f.qnanBits, nanFlags ua.snan)
  else if ua.cls = .zero then return (a, 0)
  else if ua.sign then return (f.qnanBits, SF_NV)
  else if ua.cls = .inf then
    let r ← makeInf f false
    return (r, 0)
  else
    let ua ← normOperand ua f
    let e ← ua.exp2
    let sig ← ua.sig
    let (s, e) ← evenExponent sig e
    let P : Int := if f.width = 32 then 28 else 35
    let P2 ← int (2 * P)
    let rad ← shl128 s P2
    let (root, remNz) ← isqrt128 rad
    let e ← int (e / 2 - P)
    roundMag f false ⟨0, root⟩ e remNz rm

def fpMuladd (f : Fmt) (a b c : BitVec 64) (rm : BitVec 3) : Option Res := do
  let ua ← unpack f a
  let ub ← unpack f b
  let uc ← unpack f c
  let psign := ua.sign ^^ ub.sign
  let prodInvalid := (ua.cls = .inf ∧ ub.cls = .zero) ∨ (ua.cls = .zero ∧ ub.cls = .inf)
  if ua.cls = .nan ∨ ub.cls = .nan ∨ uc.cls = .nan ∨ prodInvalid then
    return (f.qnanBits, nanFlags (ua.snan || ub.snan || uc.snan || prodInvalid))
  else if ua.cls = .inf ∨ ub.cls = .inf then
    if uc.cls = .inf ∧ uc.sign ≠ psign then return (f.qnanBits, SF_NV)
    else
      let r ← makeInf f psign
      return (r, 0)
  else if uc.cls = .inf then
    let r ← makeInf f uc.sign
    return (r, 0)
  else if ua.cls = .zero ∨ ub.cls = .zero then
    if uc.cls = .zero then
      let r ← makeZero f (if psign = uc.sign then psign else rm = SF_RDN)
      return (r, 0)
    else return (c, 0)
  else
    let sigX ← ua.sig
    let sigY ← ub.sig
    let sigP := mul64 sigX.lo sigY.lo
    let eX ← ua.exp2
    let eY ← ub.exp2
    let eP ← int (eX + eY)
    if uc.cls = .zero then roundMag f psign sigP eP false rm
    else
      let sigZ ← uc.sig
      let eZ ← uc.exp2
      addCore f psign sigP eP uc.sign sigZ eZ rm

/-! ## Comparisons, min/max, classify -/

/-- The place of the leading bit in `fcmp`, with a zero below everything. -/
def leading (u : Up) : Option Int := do
  let e ← u.exp2
  if u.cls = .zero then int (e + -100000)
  else
    let sig ← u.sig
    let mb ← msb128 sig
    int (e + mb)

/-- The significand in `fcmp`, aligned to the top of two words. -/
def aligned (u : Up) : Option U128 := do
  let sig ← u.sig
  let mb ← msb128 sig
  let n ← int (127 - mb)
  shl128 sig n

/-- The order of the magnitudes in `fcmp`. -/
def cmpMagnitude (ua ub : Up) : Option Int :=
  if ua.cls = .inf ∨ ub.cls = .inf then
    int ((if ua.cls = .inf then 1 else 0) - (if ub.cls = .inf then 1 else 0))
  else do
    let la ← leading ua
    let lb ← leading ub
    if la ≠ lb then return if la < lb then -1 else 1
    else
      let x ← aligned ua
      let y ← aligned ub
      return cmp128 x y

def fcmp (f : Fmt) (a b : BitVec 64) : Option Int := do
  let ua ← unpack f a
  let ub ← unpack f b
  if ua.cls = .zero ∧ ub.cls = .zero then return 0
  else if ua.sign ≠ ub.sign then return (if ua.sign then -1 else 1)
  else
    let mag ← cmpMagnitude ua ub
    if ua.sign then int (-mag) else return mag

def fpCompare (f : Fmt) (quiet : Bool) (holds : Int → Bool) (a b : BitVec 64) : Option (Bool × BitVec 32) := do
  let ua ← unpack f a
  let ub ← unpack f b
  if ua.cls = .nan ∨ ub.cls = .nan then
    return (false, if quiet then nanFlags (ua.snan || ub.snan) else SF_NV)
  else
    let c ← fcmp f a b
    return (holds c, 0)

def fpMinmax (f : Fmt) (a b : BitVec 64) (wantMax : Bool) : Option Res := do
  let ua ← unpack f a
  let ub ← unpack f b
  if ua.cls = .nan ∨ ub.cls = .nan then
    return (if ua.cls = .nan ∧ ub.cls = .nan then f.qnanBits else if ua.cls = .nan then b else a,
      nanFlags (ua.snan || ub.snan))
  else
    let c ← fcmp f a b
    if c = 0 then return (if ua.sign = !wantMax then a else b, 0)
    else if wantMax then return (if 0 < c then a else b, 0)
    else return (if c < 0 then a else b, 0)

def fpClassify (f : Fmt) (a : BitVec 64) : Option (BitVec 32) := do
  let u ← unpack f a
  match u.cls with
  | .inf => return if u.sign then 1 <<< 0 else 1 <<< 7
  | .zero => return if u.sign then 1 <<< 3 else 1 <<< 4
  | .nan => return if u.snan then 1 <<< 8 else 1 <<< 9
  | .normal =>
    let e ← shr a f.mantbits
    let ones ← lowMask f.expbits
    return if e &&& ones = 0 then (if u.sign then 1 <<< 2 else 1 <<< 5) else if u.sign then 1 <<< 1 else 1 <<< 6

/-! ## Conversions -/

def f32ToF64 (a : BitVec 32) : Option Res := do
  let u ← unpack F32 (a.setWidth 64)
  match u.cls with
  | .nan => return (F64_QNAN, nanFlags u.snan)
  | .inf =>
    let r ← makeInf F64 u.sign
    return (r, 0)
  | .zero =>
    let r ← makeZero F64 u.sign
    return (r, 0)
  | .normal =>
    let sig ← u.sig
    let e ← u.exp2
    roundMag F64 u.sign sig e false SF_RNE

def f64ToF32 (a : BitVec 64) (rm : BitVec 3) : Option (BitVec 32 × BitVec 32) := do
  let u ← unpack F64 a
  match u.cls with
  | .nan => return (F32_QNAN, nanFlags u.snan)
  | .inf =>
    let r ← makeInf F32 u.sign
    return (r.setWidth 32, 0)
  | .zero =>
    let r ← makeZero F32 u.sign
    return (r.setWidth 32, 0)
  | .normal =>
    let sig ← u.sig
    let e ← u.exp2
    let (r, fl) ← roundMag F32 u.sign sig e false rm
    return (r.setWidth 32, fl)

/-- The bit of `to_int_mag` below the last integer one. -/
def roundBit (sig : BitVec 64) (rsh : Int) : Option Bool :=
  if 1 ≤ rsh ∧ rsh ≤ 64 then do
    let n ← int (rsh - 1)
    let v ← shr sig n
    return v.getLsbD 0
  else some false

/-- The integer digits in `to_int_mag`. -/
def integerPart (sig : BitVec 64) (rsh : Int) : Option (BitVec 64) := if 64 ≤ rsh then some 0 else shr sig rsh

/-- The mask in `to_int_mag` of what is below the round bit. -/
def belowMask (rsh : Int) : Option (BitVec 64) := do
  let below ← int (rsh - 1)
  if 64 ≤ below then return BitVec.allOnes 64 else if 1 ≤ rsh then lowMask below else return 0

def toIntMag (sig : BitVec 64) (exp2 : Int) (sign : Bool) (rm : BitVec 3) : Option (Option (BitVec 64) × Bool) :=
  if sig = 0 then some (some 0, false)
  else if 0 ≤ exp2 then do
    let n ← clz64 sig
    let top ← int (63 - n)
    let reach ← int (top + exp2)
    if 63 < reach then return (none, false)
    else
      let v ← shl sig exp2
      return (some v, false)
  else do
    let rsh ← int (-exp2)
    let floorv ← integerPart sig rsh
    let roundbit ← roundBit sig rsh
    let belowmask ← belowMask rsh
    let sticky := sig &&& belowmask != 0
    let inexact := roundbit || sticky
    let inc :=
      match rm with
      | 0x0#3 => roundbit && (sticky || floorv.getLsbD 0)
      | 0x2#3 => sign && inexact
      | 0x3#3 => !sign && inexact
      | 0x4#3 => roundbit
      | _ => false
    return (some (floorv + bit01 inc), inexact)

/-- The low `intbits` bits. -/
def intMask (intbits : Nat) : Option (BitVec 64) := if 64 ≤ intbits then some (BitVec.allOnes 64) else lowMask intbits

/-- The largest value of an integer type. -/
def maxPos (isSigned : Bool) (intbits : Nat) : Option (BitVec 64) :=
  if isSigned then do
    let n ← int (intbits - 1)
    lowMask n
  else intMask intbits

/-- The magnitude of the least value. -/
def minNeg (isSigned : Bool) (intbits : Nat) : Option (BitVec 64) :=
  if isSigned then do
    let n ← int (intbits - 1)
    shl 1#64 n
  else some 0

/-- `fp_to_int`, with `-(int64_t)mag` the negation of a signed integer. -/
def fpToInt (f : Fmt) (a : BitVec 64) (isSigned : Bool) (intbits : Nat) (rm : BitVec 3) : Option Res := do
  let u ← unpack f a
  let maxpos ← maxPos isSigned intbits
  let minneg ← minNeg isSigned intbits
  match u.cls with
  | .nan => return (maxpos, SF_NV)
  | .zero => return (0, 0)
  | .inf => return (if u.sign then minneg else maxpos, SF_NV)
  | .normal =>
    let sig ← u.sig
    let e ← u.exp2
    let r ← toIntMag sig.lo e u.sign rm
    match r with
    | (none, _) => return (if u.sign then minneg else maxpos, SF_NV)
    | (some mag, inexact) =>
      let nx := if inexact then SF_NX else 0
      if u.sign then
        if minneg.ult mag then return (minneg, SF_NV)
        else if !isSigned ∧ mag ≠ 0 then return (0, SF_NV)
        else
          let v ← neg mag
          let mask ← intMask intbits
          return (v &&& mask, nx)
      else if maxpos.ult mag then return (maxpos, SF_NV)
      else return (mag, nx)

def intToFp (f : Fmt) (mag : BitVec 64) (sign : Bool) (rm : BitVec 3) : Option Res :=
  if mag = 0 then some (0, 0) else roundMag f sign ⟨0, mag⟩ 0 false rm

/-- A signed integer's magnitude and sign, converted; the magnitude is negated as unsigned. -/
def signedToFp (f : Fmt) (a : BitVec 64) (rm : BitVec 3) : Option Res :=
  intToFp f (if a.slt 0 then -a else a) (a.slt 0) rm

end Quanta.Softfloat.Checked
