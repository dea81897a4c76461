/-
What `softfloat.h` promises, for both formats, every operand and all five rounding modes, as the
F and D executors call it: correctly rounded arithmetic with exact flags and canonical NaNs,
saturating conversions to integers, and conversions that round trip where nothing can be lost.
-/
import Quanta.Float.Sum
import Quanta.Float.Convert
import Quanta.Hart.Fp

namespace Quanta.Softfloat

open Rounding Ieee

theorem fmtOf_standard (wide : Bool) : (fmtOf wide).Standard := by
  cases wide
  · exact Or.inl rfl
  · exact Or.inr rfl

section Operands

variable {wide : Bool} (a : BitVec (fmtOf wide).width)

/-- An operand as the core takes it, zero-extended to a word. -/
theorem toNat_operand : (a.setWidth 64).toNat = a.toNat :=
  BitVec.toNat_setWidth_of_le (by cases wide <;> decide)

theorem operand_lt : (a.setWidth 64).toNat < 2 ^ (fmtOf wide).width := by
  rw [toNat_operand]
  exact a.isLt

theorem flipSign_eq (flip : Bool) (x : BitVec 64) :
    Machine.flipSign wide flip x = if flip then x ^^^ (fmtOf wide).signBit else x := by
  cases wide <;> rfl

theorem decode_flipSign (flip : Bool) :
    (Machine.flipSign wide flip (a.setWidth 64)).toNat < 2 ^ (fmtOf wide).width ∧
      (fmtOf wide).format.decode (Machine.flipSign wide flip (a.setWidth 64)).toNat =
        ((fmtOf wide).format.decode a.toNat).negIf flip := by
  rw [flipSign_eq, ← toNat_operand a]
  exact decode_flipIf (fmtOf_standard wide) flip (operand_lt a)

end Operands

/-! ## Arithmetic -/

/-- Addition, subtraction and the four fused forms round the exact result once, and their flags, their zeros,
infinities and NaNs are the standard's. -/
theorem add_sub_fma_correctly_rounded (wide : Bool) (m : Mode) (a b c : BitVec (fmtOf wide).width) :
    let f := fmtOf wide
    let d := fun x : BitVec f.width => f.format.decode x.toNat
    (∀ sub : Bool, Delivers f (f.format.add m (d a) ((d b).negIf sub))
      (fpAdd f (a.setWidth 64) (b.setWidth 64) sub (rmOf m))) ∧
    ∀ flipA flipC : Bool, Delivers f (f.format.fma m ((d a).negIf flipA) (d b) ((d c).negIf flipC))
      (fpMuladd f (Machine.flipSign wide flipA (a.setWidth 64)) (b.setWidth 64)
        (Machine.flipSign wide flipC (c.setWidth 64)) (rmOf m)) := by
  have hf := fmtOf_standard wide
  constructor
  · intro sub
    have hadd := fpAdd_spec hf m sub (operand_lt a) (operand_lt b)
    rwa [toNat_operand, toNat_operand] at hadd
  · intro flipA flipC
    obtain ⟨-, hda⟩ := decode_flipSign a flipA
    obtain ⟨hfc, hdc⟩ := decode_flipSign c flipC
    have hfma := fpMuladd_spec hf m (Machine.flipSign wide flipA (a.setWidth 64)) (b.setWidth 64) hfc
    rwa [hda, hdc, toNat_operand] at hfma

/-- Multiplication and division round the exact result. -/
theorem mul_div_correctly_rounded (wide : Bool) (m : Mode) (a b : BitVec (fmtOf wide).width) :
    let f := fmtOf wide
    let d := fun x : BitVec f.width => f.format.decode x.toNat
    Delivers f (f.format.mul m (d a) (d b)) (fpMul f (a.setWidth 64) (b.setWidth 64) (rmOf m)) ∧
      Delivers f (f.format.div m (d a) (d b)) (fpDiv f (a.setWidth 64) (b.setWidth 64) (rmOf m)) := by
  have hf := fmtOf_standard wide
  have hmul := fpMul_spec hf m (a.setWidth 64) (b.setWidth 64)
  have hdiv := fpDiv_spec hf m (a.setWidth 64) (b.setWidth 64)
  rw [toNat_operand, toNat_operand] at hmul hdiv
  exact ⟨hmul, hdiv⟩

/-- The square root is correctly rounded; it never signals overflow, underflow or division by zero, and it is
inexact exactly when the format has no such number. The integer root beneath it is the floor, exact or not. -/
theorem sqrt_correctly_rounded (wide : Bool) (m : Mode) (a : BitVec (fmtOf wide).width) :
    let f := fmtOf wide
    let d := fun x : BitVec f.width => f.format.decode x.toNat
    let r := fpSqrt f (a.setWidth 64) (rmOf m)
    Delivers f (f.format.sqrt m (d a)) r ∧ r.2 &&& (SF_OF ||| SF_UF ||| SF_DZ) = 0 ∧
      (∀ s v, d a = .finite s v → 0 < v → (r.2 = 0 ↔ ∃ y, d y = .finite false √v)) ∧
      ∀ x : U128, (isqrt128 x).1.toNat = Nat.sqrt x.toNat ∧
        (isqrt128 x).2 = decide (Nat.sqrt x.toNat * Nat.sqrt x.toNat ≠ x.toNat) := by
  have hf := fmtOf_standard wide
  have hsqrt := fpSqrt_spec hf m (operand_lt a)
  have hflags := sqrt_flags hf m (a.setWidth 64)
  rw [toNat_operand] at hsqrt hflags
  refine ⟨hsqrt, ?_, ?_, isqrt128_spec⟩
  · obtain ⟨nv, nx, hfl⟩ := hflags
    rw [hsqrt.flags, hfl]
    cases nv <;> cases nx <;> decide
  · intro s v hv hpos
    have hroot : (fmtOf wide).format.sqrt m (.finite s v) = (fmtOf wide).format.rounded m √v := by
      unfold Format.sqrt
      dsimp only
      rw [if_neg hpos.ne', if_neg (not_lt.mpr hpos.le)]
    have hpr : 0 < √v := Real.sqrt_pos.mpr hpos
    dsimp only at hv ⊢
    rw [hv, hroot] at hsqrt
    constructor
    · intro h0
      have hdec := hsqrt.value
      rw [Format.rounded_of_flags _ m (eq_of_flagBits (hsqrt.flags.symm.trans h0)), decide_eq_false (not_lt.mpr hpr.le)] at hdec
      refine ⟨(fpSqrt (fmtOf wide) (a.setWidth 64) (rmOf m)).1.setWidth _, ?_⟩
      rwa [BitVec.toNat_setWidth, Nat.mod_eq_of_lt hsqrt.fits]
    · rintro ⟨y, hy⟩
      rw [← toNat_operand y] at hy
      have hself := delivers_operand hf m (operand_lt y) hy hpr.ne'
      exact hsqrt.flags.trans hself.flags.symm

/-! ## Conversions -/

/-- Conversions to an integer: in range, the rounded integer with NX exactly when it is not the value; out of
range, infinite or NaN, RISC-V's saturated integer with NV alone. -/
theorem to_int_saturating (wide isSigned long : Bool) (m : Mode) (a : BitVec (fmtOf wide).width) :
    let f := fmtOf wide
    let n := if long then 64 else 32
    ToInteger isSigned n ((f.format.decode a.toNat).toInteger m (intMin isSigned n) (intMax isSigned n))
      (fpToInt f (a.setWidth 64) isSigned n (rmOf m)) := by
  have hbits : (if long then 64 else 32) = 32 ∨ (if long then 64 else 32) = 64 := by
    cases long
    · exact Or.inl rfl
    · exact Or.inr rfl
  have hint := @fpToInt_spec isSigned _ hbits (fmtOf wide) (fmtOf_standard wide) m (a.setWidth 64)
  rwa [toNat_operand] at hint

/-- An integer rounded to the format, with no flag but NX. -/
def OfInteger (f : Fmt) (m : Mode) (n : ℤ) (r : Res) : Prop :=
  Delivers f (f.format.ofInt m n) r ∧ r.2 &&& ~~~SF_NX = 0

theorem ofInteger_of_delivers {f : Fmt} (hf : f.Standard) {m : Mode} {n : ℤ} {r : Res} (hn : |n| ≤ 2 ^ 64)
    (h : Delivers f (f.format.ofInt m n) r) : OfInteger f m n r := by
  obtain ⟨nx, hfl⟩ := ofInt_flags hf m hn
  refine ⟨h, ?_⟩
  rw [h.flags, hfl]
  cases nx <;> decide

section Integers

variable (wide : Bool) (m : Mode)

theorem ofInteger_signed (x : BitVec 64) :
    OfInteger (fmtOf wide) m x.toInt (signedToFp (fmtOf wide) x (rmOf m)) := by
  have hlo := BitVec.le_toInt x
  have hhi := @BitVec.toInt_lt 64 x
  exact ofInteger_of_delivers (fmtOf_standard wide) (abs_le.mpr ⟨by omega, by omega⟩)
    (signedToFp_spec (fmtOf_standard wide) m x)

theorem ofInteger_unsigned (x : BitVec 64) :
    OfInteger (fmtOf wide) m x.toNat (intToFp (fmtOf wide) x false (rmOf m)) := by
  have hlt := x.isLt
  exact ofInteger_of_delivers (fmtOf_standard wide) (abs_le.mpr ⟨by omega, by omega⟩)
    (intToFp_spec (fmtOf_standard wide) m false x)

end Integers

/-- Integers of every width convert to the rounded value with no flag but NX; narrowing is correctly rounded and
widening exact; so singles come back from doubles in every mode, and 32-bit integers come back from doubles. -/
theorem conversions_correctly_rounded (m m' : Mode) :
    (∀ wide : Bool,
      (∀ x : BitVec 32,
        OfInteger (fmtOf wide) m x.toInt (signedToFp (fmtOf wide) (x.signExtend 64) (rmOf m)) ∧
        OfInteger (fmtOf wide) m x.toNat (intToFp (fmtOf wide) (x.setWidth 64) false (rmOf m))) ∧
      ∀ x : BitVec 64,
        OfInteger (fmtOf wide) m x.toInt (signedToFp (fmtOf wide) x (rmOf m)) ∧
        OfInteger (fmtOf wide) m x.toNat (intToFp (fmtOf wide) x false (rmOf m))) ∧
    (∀ a : BitVec 64, Delivers F32 (F32.format.convert m (F64.format.decode a.toNat))
      ((f64ToF32 a (rmOf m)).1.setWidth 64, (f64ToF32 a (rmOf m)).2)) ∧
    (∀ a : BitVec 32, (F32.format.decode a.toNat).isNan = false →
      Delivers F64 (F32.format.decode a.toNat, {}) (f32ToF64 a) ∧ f64ToF32 (f32ToF64 a).1 (rmOf m) = (a, 0)) ∧
    ∀ x : BitVec 32,
      ToInteger true 32 (x.toInt, {})
        (fpToInt F64 (signedToFp F64 (x.signExtend 64) (rmOf m)).1 true 32 (rmOf m')) ∧
      ToInteger false 32 (x.toNat, {})
        (fpToInt F64 (intToFp F64 (x.setWidth 64) false (rmOf m)).1 false 32 (rmOf m')) := by
  have hsigned : ∀ x : BitVec 32, (x.signExtend 64).toInt = x.toInt := fun x =>
    BitVec.toInt_signExtend_of_le (by decide)
  have hunsigned : ∀ x : BitVec 32, (x.setWidth 64).toNat = x.toNat := fun x =>
    BitVec.toNat_setWidth_of_le (by decide)
  refine ⟨fun wide => ⟨fun x => ⟨?_, ?_⟩, fun x => ⟨ofInteger_signed wide m x, ofInteger_unsigned wide m x⟩⟩,
    f64ToF32_spec m, fun a ha => ⟨f32ToF64_spec ha, f64ToF32_f32ToF64 m ha⟩, fun x => ⟨?_, ?_⟩⟩
  · rw [← hsigned]
    exact ofInteger_signed wide m _
  · rw [← hunsigned]
    exact ofInteger_unsigned wide m _
  · have hlo := BitVec.le_toInt x
    have hhi := @BitVec.toInt_lt 32 x
    have hdouble := signedToFp_spec (fmtOf_standard true) m (x.signExtend 64)
    rw [hsigned] at hdouble
    exact fpToInt_of_ofInt m m' hlo (Int.le_sub_one_of_lt hhi) hdouble
  · have hlt := x.isLt
    have hdouble := intToFp_spec (fmtOf_standard true) m false (x.setWidth 64)
    rw [hunsigned] at hdouble
    exact fpToInt_of_ofInt m m' (Int.natCast_nonneg _) (show (x.toNat : ℤ) ≤ 2 ^ 32 - 1 by omega) hdouble

end Quanta.Softfloat
