/-
The calls of `softfloat.h`, each run with C's arithmetic checked. All but one conversion to an integer
is defined for every operand; that one negates `INT64_MIN` when the operand is exactly -2^63.
-/
import Quanta.Float.Defined
import Quanta.Float.Contract

namespace Quanta.Softfloat.Checked

open CArith Ieee

/-! ## Conversion to an integer -/

theorem roundBit_eq (sig : BitVec 64) {rsh : Int} (hpos : 1 ≤ rsh) :
    roundBit sig rsh = some (decide (rsh.toNat ≤ 64) && sig.getLsbD (rsh.toNat - 1)) := by
  unfold roundBit
  by_cases hle : rsh ≤ 64
  · have hdist : (rsh - 1).toNat = rsh.toNat - 1 := by omega
    rw [if_pos ⟨hpos, hle⟩, decide_eq_true (by omega : rsh.toNat ≤ 64), Bool.true_and]
    refine andThen (int_eq (by omega) (by omega)) ?_
    refine andThen (shr_eq _ (by omega) (by omega)) ?_
    rw [BitVec.getLsbD_ushiftRight, Nat.add_zero, hdist]
    rfl
  · rw [if_neg fun h => hle h.2, decide_eq_false (by omega : ¬rsh.toNat ≤ 64), Bool.false_and]

theorem integerPart_eq (sig : BitVec 64) {rsh : Int} (hpos : 1 ≤ rsh) :
    integerPart sig rsh = some (if 64 ≤ rsh.toNat then 0 else sig >>> rsh.toNat) := by
  unfold integerPart
  by_cases hbig : 64 ≤ rsh
  · rw [if_pos hbig, if_pos (by omega)]
  · rw [if_neg hbig, if_neg (show ¬64 ≤ rsh.toNat by omega), shr_eq _ (by omega) (by omega)]

theorem belowMask_eq {rsh : Int} (hpos : 1 ≤ rsh) (hle : rsh ≤ 2000) :
    belowMask rsh = some (if 64 ≤ rsh.toNat - 1 then BitVec.allOnes 64 else Softfloat.lowMask (rsh.toNat - 1)) := by
  have hdist : (rsh - 1).toNat = rsh.toNat - 1 := by omega
  unfold belowMask
  refine andThen (int_eq (by omega) (by omega)) ?_
  by_cases hbig : 64 ≤ rsh - 1
  · rw [if_pos hbig, if_pos (by omega)]
    rfl
  · rw [if_neg hbig, if_pos hpos, if_neg (show ¬64 ≤ rsh.toNat - 1 by omega), lowMask_eq (by omega) (by omega), hdist]

theorem toIntMag_eq (sig : BitVec 64) {e : Int} (he : -2000 ≤ e ∧ e ≤ 2000) (sign : Bool) (rm : BitVec 3) :
    toIntMag sig e sign rm = some (Softfloat.toIntMag sig e sign rm) := by
  unfold toIntMag Softfloat.toIntMag
  split
  · rfl
  next hne =>
  split
  next hpos =>
    obtain ⟨hclz, -⟩ := clz64_spec hne
    refine andThen (clz64_eq sig) ?_
    refine andThen (int_eq (by omega) (by omega)) ?_
    refine andThen (int_eq (by omega) (by omega)) ?_
    split
    · rfl
    · exact andThen (shl_eq _ hpos (by omega)) rfl
  next hneg =>
    refine andThen (int_eq (by omega) (by omega)) ?_
    refine andThen (integerPart_eq sig (by omega)) ?_
    refine andThen (roundBit_eq sig (by omega)) ?_
    exact andThen (belowMask_eq (by omega) (by omega)) rfl

theorem succ_ne_intMin {x : BitVec 64} (p : Bool) (hx : x.toNat < 2 ^ 53) : x + bit01 p ≠ BitVec.intMin 64 := by
  have hbit : (bit01 p).toNat ≤ 1 := by cases p <;> decide
  have hmin : (BitVec.intMin 64).toNat = 2 ^ 63 := by decide
  intro h
  have hval := congrArg BitVec.toNat h
  rw [BitVec.toNat_add, hmin] at hval
  omega

/-- A magnitude of exactly 2^63 comes from a significand that was shifted to it, whatever the mode. -/
theorem toIntMag_intMin {sig : BitVec 64} {e : Int} {sign inexact : Bool} {rm : BitVec 3} (hsig : sig.toNat < 2 ^ 53)
    (h : Softfloat.toIntMag sig e sign rm = (some (BitVec.intMin 64), inexact)) : (sig.toNat * 2 ^ e : ℝ) = 2 ^ 63 := by
  have hmin : (BitVec.intMin 64).toNat = 2 ^ 63 := by decide
  unfold Softfloat.toIntMag at h
  split at h
  · exact absurd (Prod.mk.inj h).1 (by decide)
  next hne =>
  split at h
  next hpos =>
    split at h
    · exact absurd (Prod.mk.inj h).1 (by simp)
    next htop =>
    obtain ⟨hclz, -, hlt⟩ := clz64_spec hne
    obtain ⟨n, rfl⟩ := Int.eq_ofNat_of_zero_le hpos
    have hfits : sig.toNat * 2 ^ n < 2 ^ 64 := by
      calc sig.toNat * 2 ^ n < 2 ^ (64 - Softfloat.clz64 sig) * 2 ^ n := Nat.mul_lt_mul_of_pos_right hlt (Nat.two_pow_pos n)
        _ = 2 ^ (64 - Softfloat.clz64 sig + n) := (Nat.pow_add 2 _ _).symm
        _ ≤ 2 ^ 64 := Nat.pow_le_pow_right (by decide) (by omega)
    have hval : (sig <<< n).toNat = 2 ^ 63 := hmin ▸ congrArg BitVec.toNat (Option.some.inj (Prod.mk.inj h).1)
    rw [BitVec.toNat_shiftLeft, Nat.shiftLeft_eq, Nat.mod_eq_of_lt hfits] at hval
    rw [zpow_natCast]
    exact_mod_cast hval
  next hneg =>
    -- below one the significand only loses digits
    have hfloor : ∀ n : Nat, (if 64 ≤ n then 0 else sig >>> n).toNat < 2 ^ 53 := by
      intro n
      split
      · decide
      · rw [BitVec.toNat_ushiftRight, Nat.shiftRight_eq_div_pow]
        exact Nat.lt_of_le_of_lt (Nat.div_le_self _ _) hsig
    exact absurd (Option.some.inj (Prod.mk.inj h).1) (succ_ne_intMin _ (hfloor _))

section Format

variable {f : Fmt} (hf : f.Standard) {intbits : Nat}
include hf

omit hf in
theorem intMask_eq (hbits : intbits = 32 ∨ intbits = 64) : intMask intbits = some (Softfloat.intMask intbits) := by
  rcases hbits with rfl | rfl <;> rfl

omit hf in
theorem maxPos_eq (isSigned : Bool) (hbits : intbits = 32 ∨ intbits = 64) :
    maxPos isSigned intbits = some (if isSigned then (1#64 <<< (intbits - 1)) - 1 else Softfloat.intMask intbits) := by
  rcases hbits with rfl | rfl <;> cases isSigned <;> rfl

omit hf in
theorem minNeg_eq (isSigned : Bool) (hbits : intbits = 32 ∨ intbits = 64) :
    minNeg isSigned intbits = some (if isSigned then 1#64 <<< (intbits - 1) else 0) := by
  rcases hbits with rfl | rfl <;> cases isSigned <;> rfl

/-- The encoding of -2^63. -/
def minI64 (f : Fmt) : BitVec 64 := if f.width = 32 then 0xDF000000 else 0xC3E0000000000000

theorem decode_minI64 : f.format.decode (minI64 f).toNat = .finite true (signed true (2 ^ 63)) ∧ (minI64 f).toNat < 2 ^ f.width := by
  have hcode : Softfloat.unpack f (minI64 f) = ⟨true, .normal, false, ⟨0, 1#64 <<< f.mantbits⟩, 63 - f.mantbits⟩ := by
    rcases hf with rfl | rfl <;> rfl
  have hmant : f.mantbits < 64 := by rcases hf with rfl | rfl <;> decide
  have hpow : ((1#64 <<< f.mantbits).toNat * 2 ^ (63 - f.mantbits : ℤ) : ℝ) = 2 ^ 63 := by
    rw [toNat_one_shl hmant, Nat.cast_pow, Nat.cast_ofNat, ← zpow_natCast, ← zpow_add₀ two_ne_zero]
    norm_num
  refine ⟨?_, by rcases hf with rfl | rfl <;> decide⟩
  have hu := unpack_spec hf (minI64 f)
  rw [hcode] at hu
  generalize f.format.decode (minI64 f).toNat = d at hu
  cases hu with
  | normal => rw [hpow]

/-- An operand whose value is -2^63. -/
theorem eq_minI64 {a : BitVec 64} (ha : a.toNat < 2 ^ f.width) (h : f.format.decode a.toNat = .finite true (signed true (2 ^ 63))) :
    a = minI64 f := by
  have hwidth : f.width = f.format.fracBits + f.format.expBits + 1 := by rcases hf with rfl | rfl <;> rfl
  obtain ⟨hmin, hfit⟩ := decode_minI64 hf
  refine BitVec.eq_of_toNat_eq (f.format.decode_inj (hwidth ▸ ha) (hwidth ▸ hfit) ?_ (h.trans hmin.symm))
  rw [h]
  rfl

/-- An integer conversion is undefined where it negates `INT64_MIN`. -/
theorem fpToInt_eq_none_iff {a : BitVec 64} (ha : a.toNat < 2 ^ f.width) (isSigned : Bool)
    (hbits : intbits = 32 ∨ intbits = 64) (rm : BitVec 3) :
    fpToInt f a isSigned intbits rm = none ↔ isSigned = true ∧ intbits = 64 ∧ a = minI64 f := by
  have hmant : f.mantbits + 1 ≤ 53 := by rcases hf with rfl | rfl <;> decide
  constructor
  · intro h
    have hu := unpack_spec hf a
    have he := unpack_range hf a
    simp only [fpToInt, unpack_eq hf, maxPos_eq isSigned hbits, minNeg_eq isSigned hbits, Option.bind_eq_bind, Option.bind_some,
      Up.of_class] at h
    have hmin := @eq_minI64 f hf a ha
    generalize f.format.decode a.toNat = d at hu hmin
    generalize Softfloat.unpack f a = u at hu he h
    cases hu with
    | @normal neg k e pos prec =>
      have hk : k.toNat < 2 ^ 53 := Nat.lt_of_lt_of_le prec (Nat.pow_le_pow_right (by decide) hmant)
      have hsig : (Up.of ⟨neg, .normal, false, ⟨0, k⟩, e⟩).sig = some ⟨0, k⟩ := rfl
      have hexp : (Up.of ⟨neg, .normal, false, ⟨0, k⟩, e⟩).exp2 = some e := rfl
      simp only [hsig, hexp, Option.bind_some, toIntMag_eq k he] at h
      rcases hmag : Softfloat.toIntMag k e neg rm with ⟨_ | mag, inexact⟩ <;> rw [hmag] at h
      · cases h
      · dsimp only at h
        generalize hminneg : (if isSigned = true then 1#64 <<< (intbits - 1) else 0) = minneg at h
        generalize (if isSigned = true then (1#64 <<< (intbits - 1)) - 1 else Softfloat.intMask intbits) = maxpos at h
        split at h
        next hneg =>
          split at h
          · cases h
          next hrange =>
          split at h
          · cases h
          next hsigned =>
          have hint : mag = BitVec.intMin 64 := by
            by_contra hne
            rw [CArith.neg, if_neg hne, intMask_eq hbits] at h
            cases h
          subst hint
          refine ⟨?_, ?_, hmin (by rw [toIntMag_intMin hk hmag, hneg])⟩
          · cases isSigned
            · exact absurd ⟨rfl, by decide⟩ hsigned
            · rfl
          · rcases hbits with rfl | rfl
            · subst hminneg
              cases isSigned <;> exact absurd (by decide) hrange
            · rfl
        next =>
          split at h <;> cases h
    | _ => simp at h
  · rintro ⟨rfl, rfl, rfl⟩
    rcases hf with rfl | rfl <;> (revert rm; decide)

theorem fpToInt_isSome_iff {a : BitVec 64} (ha : a.toNat < 2 ^ f.width) (isSigned : Bool)
    (hbits : intbits = 32 ∨ intbits = 64) (rm : BitVec 3) :
    (fpToInt f a isSigned intbits rm).isSome = true ↔ ¬(isSigned = true ∧ intbits = 64 ∧ a = minI64 f) := by
  rw [← fpToInt_eq_none_iff hf ha isSigned hbits rm, Option.isSome_iff_ne_none]

end Format

/-! ## The calls -/

/-- A call of `softfloat.h`; `wide` chooses between the `f64` and the `f32` function. -/
inductive Call
  | add (wide : Bool) (a b : BitVec (fmtOf wide).width) (rm : BitVec 3)
  | sub (wide : Bool) (a b : BitVec (fmtOf wide).width) (rm : BitVec 3)
  | mul (wide : Bool) (a b : BitVec (fmtOf wide).width) (rm : BitVec 3)
  | div (wide : Bool) (a b : BitVec (fmtOf wide).width) (rm : BitVec 3)
  | sqrt (wide : Bool) (a : BitVec (fmtOf wide).width) (rm : BitVec 3)
  | muladd (wide : Bool) (a b c : BitVec (fmtOf wide).width) (rm : BitVec 3)
  | eq (wide : Bool) (a b : BitVec (fmtOf wide).width)
  | lt (wide : Bool) (a b : BitVec (fmtOf wide).width)
  | le (wide : Bool) (a b : BitVec (fmtOf wide).width)
  | min (wide : Bool) (a b : BitVec (fmtOf wide).width)
  | max (wide : Bool) (a b : BitVec (fmtOf wide).width)
  | classify (wide : Bool) (a : BitVec (fmtOf wide).width)
  | f32ToF64 (a : BitVec 32)
  | f64ToF32 (a : BitVec 64) (rm : BitVec 3)
  | toI32 (wide : Bool) (a : BitVec (fmtOf wide).width) (rm : BitVec 3)
  | toU32 (wide : Bool) (a : BitVec (fmtOf wide).width) (rm : BitVec 3)
  | toI64 (wide : Bool) (a : BitVec (fmtOf wide).width) (rm : BitVec 3)
  | toU64 (wide : Bool) (a : BitVec (fmtOf wide).width) (rm : BitVec 3)
  | ofI32 (wide : Bool) (a : BitVec 32) (rm : BitVec 3)
  | ofU32 (wide : Bool) (a : BitVec 32) (rm : BitVec 3)
  | ofI64 (wide : Bool) (a : BitVec 64) (rm : BitVec 3)
  | ofU64 (wide : Bool) (a : BitVec 64) (rm : BitVec 3)

/-- Whether the call runs without undefined behaviour and with every precondition kept. -/
def Call.defined : Call → Bool
  | add wide a b rm => (fpAdd (fmtOf wide) (a.setWidth 64) (b.setWidth 64) false rm).isSome
  | sub wide a b rm => (fpAdd (fmtOf wide) (a.setWidth 64) (b.setWidth 64) true rm).isSome
  | mul wide a b rm => (fpMul (fmtOf wide) (a.setWidth 64) (b.setWidth 64) rm).isSome
  | div wide a b rm => (fpDiv (fmtOf wide) (a.setWidth 64) (b.setWidth 64) rm).isSome
  | sqrt wide a rm => (fpSqrt (fmtOf wide) (a.setWidth 64) rm).isSome
  | muladd wide a b c rm => (fpMuladd (fmtOf wide) (a.setWidth 64) (b.setWidth 64) (c.setWidth 64) rm).isSome
  | eq wide a b => (fpCompare (fmtOf wide) true (· == 0) (a.setWidth 64) (b.setWidth 64)).isSome
  | lt wide a b => (fpCompare (fmtOf wide) false (· < 0) (a.setWidth 64) (b.setWidth 64)).isSome
  | le wide a b => (fpCompare (fmtOf wide) false (· ≤ 0) (a.setWidth 64) (b.setWidth 64)).isSome
  | min wide a b => (fpMinmax (fmtOf wide) (a.setWidth 64) (b.setWidth 64) false).isSome
  | max wide a b => (fpMinmax (fmtOf wide) (a.setWidth 64) (b.setWidth 64) true).isSome
  | classify wide a => (fpClassify (fmtOf wide) (a.setWidth 64)).isSome
  | f32ToF64 a => (Checked.f32ToF64 a).isSome
  | f64ToF32 a rm => (Checked.f64ToF32 a rm).isSome
  | toI32 wide a rm => (fpToInt (fmtOf wide) (a.setWidth 64) true 32 rm).isSome
  | toU32 wide a rm => (fpToInt (fmtOf wide) (a.setWidth 64) false 32 rm).isSome
  | toI64 wide a rm => (fpToInt (fmtOf wide) (a.setWidth 64) true 64 rm).isSome
  | toU64 wide a rm => (fpToInt (fmtOf wide) (a.setWidth 64) false 64 rm).isSome
  | ofI32 wide a rm => (signedToFp (fmtOf wide) (a.signExtend 64) rm).isSome
  | ofU32 wide a rm => (intToFp (fmtOf wide) (a.setWidth 64) false rm).isSome
  | ofI64 wide a rm => (signedToFp (fmtOf wide) a rm).isSome
  | ofU64 wide a rm => (intToFp (fmtOf wide) a false rm).isSome

/-- The call converts -2^63 to a signed 64-bit integer. -/
def Call.convertsMinI64 : Call → Bool
  | toI64 wide a _ => a.setWidth 64 = if wide then 0xC3E0000000000000#64 else 0xDF000000#64
  | _ => false

/-- Every call is defined, apart from the conversion of -2^63 to a signed 64-bit integer. -/
theorem defined_iff_not_convertsMinI64 (c : Call) : c.defined = true ↔ c.convertsMinI64 = false := by
  have hf := fmtOf_standard
  cases c with
  | add wide a b rm | sub wide a b rm => exact iff_of_true (by rw [Call.defined, fpAdd_eq (hf wide)]; rfl) rfl
  | mul wide a b rm => exact iff_of_true (by rw [Call.defined, fpMul_eq (hf wide)]; rfl) rfl
  | div wide a b rm => exact iff_of_true (by rw [Call.defined, fpDiv_eq (hf wide)]; rfl) rfl
  | sqrt wide a rm => exact iff_of_true (by rw [Call.defined, fpSqrt_eq (hf wide)]; rfl) rfl
  | muladd wide a b c rm => exact iff_of_true (by rw [Call.defined, fpMuladd_eq (hf wide)]; rfl) rfl
  | eq wide a b | lt wide a b | le wide a b => exact iff_of_true (by rw [Call.defined, fpCompare_eq (hf wide)]; rfl) rfl
  | min wide a b | max wide a b => exact iff_of_true (by rw [Call.defined, fpMinmax_eq (hf wide)]; rfl) rfl
  | classify wide a => exact iff_of_true (by rw [Call.defined, fpClassify_eq (hf wide)]; rfl) rfl
  | f32ToF64 a => exact iff_of_true (by rw [Call.defined, f32ToF64_eq]; rfl) rfl
  | f64ToF32 a rm => exact iff_of_true (by rw [Call.defined, f64ToF32_eq]; rfl) rfl
  | toI32 wide a rm =>
    refine iff_of_true ((fpToInt_isSome_iff (hf wide) (operand_lt a) true (.inl rfl) rm).2 ?_) rfl
    exact fun h => absurd h.2.1 (by decide)
  | toU32 wide a rm =>
    refine iff_of_true ((fpToInt_isSome_iff (hf wide) (operand_lt a) false (.inl rfl) rm).2 ?_) rfl
    exact fun h => absurd h.1 (by decide)
  | toU64 wide a rm =>
    refine iff_of_true ((fpToInt_isSome_iff (hf wide) (operand_lt a) false (.inr rfl) rm).2 ?_) rfl
    exact fun h => absurd h.1 (by decide)
  | toI64 wide a rm =>
    refine (fpToInt_isSome_iff (hf wide) (operand_lt a) true (.inr rfl) rm).trans ?_
    have hmin : minI64 (fmtOf wide) = if wide then 0xC3E0000000000000#64 else 0xDF000000#64 := by cases wide <;> rfl
    rw [hmin, Call.convertsMinI64, decide_eq_false_iff_not]
    exact not_congr ⟨fun h => h.2.2, fun h => ⟨rfl, rfl, h⟩⟩
  | ofI32 wide a rm | ofI64 wide a rm => exact iff_of_true (by rw [Call.defined, signedToFp_eq (hf wide)]; rfl) rfl
  | ofU32 wide a rm | ofU64 wide a rm => exact iff_of_true (by rw [Call.defined, intToFp_eq (hf wide)]; rfl) rfl

/-- `f64_to_i64` and `f32_to_i64` of -2^63, here to nearest, negate `INT64_MIN`. -/
theorem minI64_conversion_undefined :
    (Call.toI64 true 0xC3E0000000000000#64 SF_RNE).defined = false ∧ (Call.toI64 false 0xDF000000#32 SF_RNE).defined = false := by
  decide

end Quanta.Softfloat.Checked
