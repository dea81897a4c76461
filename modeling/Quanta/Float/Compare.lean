/-
Comparisons, minimum and maximum of `softfloat.c`. `fcmp` orders two operands by sign, then by the
place of their leading bit, then by their significands aligned to it; this is the order of the
extended reals they stand for, and everything else follows from that.
-/
import Mathlib
import Quanta.Float.Operand

namespace Quanta.Ieee

/-- The extended real of a datum; a NaN has none. -/
noncomputable def Datum.extended : Datum → Option EReal
  | .nan _ => none
  | .inf neg => some (if neg then ⊥ else ⊤)
  | .finite _ v => some v

/-- The sign of a number. -/
def Datum.isNeg : Datum → Bool
  | .nan _ => false
  | .inf neg => neg
  | .finite neg _ => neg

end Quanta.Ieee

namespace Quanta.Softfloat

open Ieee

/-! ## Three-way results -/

/-- `c` is negative, zero or positive as `x` is below, equal to or above `y`. -/
structure Orders {α : Type*} [LinearOrder α] (c : ℤ) (x y : α) : Prop where
  lt : c < 0 ↔ x < y
  eq : c = 0 ↔ x = y

namespace Orders

variable {α : Type*} [LinearOrder α] {c : ℤ} {x y : α}

theorem of_eq (hc : c = 0) (h : x = y) : Orders c x y := ⟨iff_of_false hc.not_lt h.not_lt, iff_of_true hc h⟩

theorem le (h : Orders c x y) : c ≤ 0 ↔ x ≤ y := by
  rw [le_iff_lt_or_eq, le_iff_lt_or_eq, h.lt, h.eq]

theorem gt (h : Orders c x y) : 0 < c ↔ y < x := by
  rw [← not_le, ← not_le, h.le]

end Orders

/-- Negation turns the order of the extended reals around. -/
theorem Orders.neg {c : ℤ} {x y : EReal} (h : Orders c x y) : Orders (-c) (-x) (-y) where
  lt := by rw [EReal.neg_lt_neg_iff, Int.neg_lt_zero_iff, h.gt]
  eq := by rw [neg_inj, Int.neg_eq_zero, h.eq]

/-- The magnitude of an unpacked number. -/
noncomputable def Up.magnitude (u : Up) : EReal :=
  if u.cls = .inf then ⊤ else ((u.sig.toNat * (2 : ℕ) ^ u.exp2 : ℝ) : EReal)

theorem Up.magnitude_eq (u : Up) :
    u.magnitude = if u.cls = .inf then ⊤ else ((u.sig.toNat * 2 ^ u.exp2 : ℝ) : EReal) := by
  rw [Up.magnitude, Nat.cast_ofNat]

/-- The comparison of magnitudes within `fcmp`. -/
def cmpMagnitude (ua ub : Up) : Int :=
  if ua.cls = .inf ∨ ub.cls = .inf then
    (if ua.cls = .inf then 1 else 0) - (if ub.cls = .inf then 1 else 0)
  else
    let la := ua.exp2 + (if ua.cls = .zero then -100000 else msb128 ua.sig)
    let lb := ub.exp2 + (if ub.cls = .zero then -100000 else msb128 ub.sig)
    if la ≠ lb then (if la < lb then -1 else 1)
    else cmp128 (shl128 ua.sig (127 - msb128 ua.sig)) (shl128 ub.sig (127 - msb128 ub.sig))

theorem fcmp_eq (f : Fmt) (a b : BitVec 64) : fcmp f a b =
    if (unpack f a).cls = .zero ∧ (unpack f b).cls = .zero then 0
    else if (unpack f a).sign ≠ (unpack f b).sign then (if (unpack f a).sign then -1 else 1)
    else if (unpack f a).sign then -cmpMagnitude (unpack f a) (unpack f b)
    else cmpMagnitude (unpack f a) (unpack f b) := rfl

/-- A significand aligned to the top of two words, scaled by the place of its leading bit. -/
theorem aligned {s : U128} (hs : s.toNat ≠ 0) (e : ℤ) :
    (s.toNat * 2 ^ e : ℝ) = (shl128 s (127 - msb128 s)).toNat * 2 ^ (e + msb128 s - 127) := by
  obtain ⟨k, hk, hle, hlo, hhi⟩ := msb128_spec hs
  have hfit : s.toNat * 2 ^ (127 - k) < 2 ^ 128 := by
    calc s.toNat * 2 ^ (127 - k) < 2 ^ (k + 1) * 2 ^ (127 - k) := Nat.mul_lt_mul_of_pos_right hhi (Nat.two_pow_pos _)
      _ = 2 ^ 128 := by rw [← Nat.pow_add]; congr 1; omega
  rw [hk, show (127 - k : ℤ) = (127 - k : ℕ) by omega, toNat_shl128 s (by omega), Nat.mod_eq_of_lt hfit]
  push_cast
  rw [mul_assoc, ← zpow_natCast, ← zpow_add₀ two_ne_zero]
  congr 2
  omega

section Order

variable {f : Fmt} {d e : Datum} {ua ub : Up}

/-- What a number's parts say about its extended real. -/
theorem Unpacks.extended (h : Unpacks f d ua) (hn : ua.cls ≠ .nan) :
    d.extended = some (if ua.sign then -ua.magnitude else ua.magnitude) ∧ d.isNeg = ua.sign := by
  cases h with
  | nan => exact absurd rfl hn
  | inf neg => cases neg <;> simp [Datum.extended, Datum.isNeg, Up.magnitude_eq]
  | zero neg => cases neg <;> simp [Datum.extended, Datum.isNeg, Up.magnitude_eq, U128.toNat]
  | normal neg => cases neg <;> simp [Datum.extended, Datum.isNeg, Up.magnitude_eq, U128.toNat, signed]

end Order

/-! ## What the operations are for -/

/-- The datum of an encoding. -/
noncomputable def Fmt.datum (f : Fmt) (bits : BitVec 64) : Datum := f.format.decode bits.toNat

/-- The minimum (or the maximum, if wanted) of two encodings, with its flags. -/
structure Selects (f : Fmt) (a b : BitVec 64) (wantMax : Bool) : Prop where
  operand : ∀ x y, (f.datum a).extended = some x → (f.datum b).extended = some y →
    ((fpMinmax f a b wantMax).1 = a ∨ (fpMinmax f a b wantMax).1 = b) ∧
      (f.datum (fpMinmax f a b wantMax).1).extended = some (if wantMax then max x y else min x y)
  zeros : (f.datum a).extended = some 0 → (f.datum b).extended = some 0 →
    (f.datum (fpMinmax f a b wantMax).1).isNeg =
      if wantMax then (f.datum a).isNeg && (f.datum b).isNeg else (f.datum a).isNeg || (f.datum b).isNeg
  one_nan : ((f.datum a).extended = none → (f.datum b).extended ≠ none → (fpMinmax f a b wantMax).1 = b) ∧
    ((f.datum a).extended ≠ none → (f.datum b).extended = none → (fpMinmax f a b wantMax).1 = a)
  both_nan : (f.datum a).extended = none → (f.datum b).extended = none → (fpMinmax f a b wantMax).1 = f.qnanBits
  flags : (fpMinmax f a b wantMax).2 = nanFlags ((f.datum a).signaling || (f.datum b).signaling)
  comm : fpMinmax f a b wantMax = fpMinmax f b a wantMax

section Operations

variable {f : Fmt} (hf : f.Standard) {a b : BitVec 64}
include hf

end Operations

end Quanta.Softfloat
