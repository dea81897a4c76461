/-
The operands of `softfloat.c` and the results that need no rounding: `unpack` recovers the datum of an
encoding, an operand passed on is its own rounding, and infinities, zeros and the canonical NaN are
built as the standard has them.
-/
import Quanta.Float.Round

namespace Quanta.Softfloat

open Rounding Ieee

/-! ## Unpacking -/

/-- What `unpack` gives for each datum; a nonzero number has a significand of the format's precision. -/
inductive Unpacks (f : Fmt) : Datum → Up → Prop
  | nan (neg s : Bool) : Unpacks f (.nan s) ⟨neg, .nan, s, ⟨0, 0⟩, 0⟩
  | inf (neg : Bool) : Unpacks f (.inf neg) ⟨neg, .inf, false, ⟨0, 0⟩, 0⟩
  | zero (neg : Bool) : Unpacks f (.finite neg 0) ⟨neg, .zero, false, ⟨0, 0⟩, 0⟩
  | normal (neg : Bool) {k : BitVec 64} {e : Int} (pos : 0 < k.toNat) (prec : k.toNat < 2 ^ (f.mantbits + 1))
      (lo : 1 - f.bias - f.mantbits ≤ e) (hi : e ≤ f.bias - f.mantbits) :
      Unpacks f (.finite neg (signed neg (k.toNat * 2 ^ e))) ⟨neg, .normal, false, ⟨0, k⟩, e⟩

section Operand

variable {f : Fmt} (hf : f.Standard)
include hf

/-- The fields of an encoding. -/
theorem toNat_fields (bits : BitVec 64) :
    ((bits >>> f.mantbits) &&& f.expOnes).toNat = bits.toNat / 2 ^ f.mantbits % 2 ^ f.expbits ∧
      (bits &&& lowMask f.mantbits).toNat = bits.toNat % 2 ^ f.mantbits := by
  have hexp : f.expbits < 64 := by rcases hf with rfl | rfl <;> decide
  have hmant : f.mantbits < 64 := by rcases hf with rfl | rfl <;> decide
  constructor
  · unfold Fmt.expOnes
    rw [toNat_and_lowMask _ hexp, BitVec.toNat_ushiftRight, Nat.shiftRight_eq_div_pow]
  · exact toNat_and_lowMask _ hmant

omit hf in
/-- The top bit of a fraction. -/
theorem getLsbD_top {x : BitVec 64} {n : Nat} (hn : n ≠ 0) (hx : x.toNat < 2 ^ n) :
    (!x.getLsbD (n - 1)) = decide (x.toNat < 2 ^ (n - 1)) := by
  obtain ⟨j, rfl⟩ := Nat.exists_eq_succ_of_ne_zero hn
  rw [Nat.succ_sub_one, ← BitVec.testBit_toNat, Nat.testBit_eq_decide_div_mod_eq]
  rw [Nat.pow_succ] at hx
  have hpos : 0 < 2 ^ j := Nat.two_pow_pos j
  rcases Nat.lt_or_ge x.toNat (2 ^ j) with hlt | hge
  · rw [Nat.div_eq_of_lt hlt, decide_eq_true hlt]
    rfl
  · rw [Nat.div_eq_of_lt_le (k := 1) (by omega) (by omega), decide_eq_false (Nat.not_lt.mpr hge)]
    rfl

theorem unpack_spec (bits : BitVec 64) : Unpacks f (f.format.decode bits.toNat) (unpack f bits) := by
  obtain ⟨hexp, hfrac⟩ := toNat_fields hf bits
  have hsign : bits.getLsbD (f.width - 1) = bits.toNat.testBit (f.mantbits + f.expbits) := by
    rcases hf with rfl | rfl <;> rfl
  have hones : f.expOnes.toNat = 2 ^ f.expbits - 1 := by rcases hf with rfl | rfl <;> rfl
  have hbias : ((2 ^ f.expbits - 2 : ℕ) : ℤ) = 2 * f.bias := by rcases hf with rfl | rfl <;> rfl
  have hbig : 2 < 2 ^ f.expbits := by rcases hf with rfl | rfl <;> decide
  have hmant : f.mantbits ≠ 0 ∧ f.mantbits + 1 < 64 := by rcases hf with rfl | rfl <;> decide
  have hlt : bits.toNat % 2 ^ f.mantbits < 2 ^ f.mantbits := Nat.mod_lt _ (Nat.two_pow_pos _)
  have helt : bits.toNat / 2 ^ f.mantbits % 2 ^ f.expbits < 2 ^ f.expbits := Nat.mod_lt _ (Nat.two_pow_pos _)
  unfold unpack Format.decode
  dsimp only
  change Unpacks f (if bits.toNat / 2 ^ f.mantbits % 2 ^ f.expbits = 2 ^ f.expbits - 1 then
    (if bits.toNat % 2 ^ f.mantbits = 0 then Datum.inf (bits.toNat.testBit (f.mantbits + f.expbits))
      else .nan (decide (bits.toNat % 2 ^ f.mantbits < 2 ^ (f.mantbits - 1))))
    else .finite (bits.toNat.testBit (f.mantbits + f.expbits)) (signed (bits.toNat.testBit (f.mantbits + f.expbits))
      (f.format.magnitude (bits.toNat / 2 ^ f.mantbits % 2 ^ f.expbits) (bits.toNat % 2 ^ f.mantbits)))) _
  rw [hsign, ← hexp, ← hfrac]
  rw [← hexp] at helt
  rw [← hfrac] at hlt
  generalize bits.toNat.testBit (f.mantbits + f.expbits) = neg
  generalize (bits >>> f.mantbits) &&& f.expOnes = E at *
  generalize bits &&& lowMask f.mantbits = K at *
  have hzero : ∀ {x : BitVec 64}, x = 0 ↔ x.toNat = 0 := fun {x} => BitVec.toNat_eq
  by_cases hE0 : E.toNat = 0
  · rw [if_pos (hzero.mpr hE0), if_neg (by omega), hE0]
    unfold Format.magnitude
    rw [if_pos rfl, emin_format hf]
    by_cases hK0 : K.toNat = 0
    · rw [if_pos (hzero.mpr hK0), hK0, Nat.cast_zero, zero_mul, signed_zero]
      exact .zero neg
    · rw [if_neg (mt hzero.mp hK0)]
      exact .normal neg (Nat.pos_of_ne_zero hK0) (by rw [Nat.pow_succ]; omega) le_rfl
        (by show 1 - f.bias - f.mantbits ≤ f.bias - f.mantbits; omega)
  rw [if_neg (mt hzero.mp hE0)]
  by_cases hE1 : E.toNat = 2 ^ f.expbits - 1
  · rw [if_pos hE1, if_pos (BitVec.eq_of_toNat_eq (hE1.trans hones.symm))]
    by_cases hK0 : K.toNat = 0
    · rw [if_pos hK0, if_pos (hzero.mpr hK0)]
      exact .inf neg
    · rw [if_neg hK0, if_neg (mt hzero.mp hK0), ← getLsbD_top hmant.1 hlt]
      exact .nan neg _
  · have hlead : ((1#64 <<< f.mantbits) ||| K).toNat = 2 ^ f.mantbits + K.toNat := by
      rw [BitVec.toNat_or, toNat_one_shl (by omega), ← Nat.mul_one (2 ^ f.mantbits), ← Nat.two_pow_add_eq_or_of_lt hlt]
    rw [if_neg hE1, if_neg fun h : E = f.expOnes => hE1 (h ▸ hones)]
    unfold Format.magnitude
    rw [if_neg hE0, emax_format hf]
    have hn := @Unpacks.normal f neg ((1#64 <<< f.mantbits) ||| K) (E.toNat - f.bias - f.mantbits)
    rw [hlead] at hn
    exact hn (by omega) (by rw [Nat.pow_succ]; omega) (by omega) (by omega)

/-! ## Results that need no rounding -/

omit hf in
theorem flagBits_invalid (s : Bool) : flagBits { invalid := s } = nanFlags s := by
  cases s <;> decide

omit hf in
theorem flagBits_none : flagBits {} = 0 := by decide

omit hf in
theorem eq_of_flagBits {fl : Flags} (h : flagBits fl = 0) : fl = {} := by
  obtain ⟨nv, dz, ov, uf, nx⟩ := fl
  cases nv <;> cases dz <;> cases ov <;> cases uf <;> cases nx <;> first | rfl | exact absurd h (by decide)

theorem delivers_nan (s : Bool) : Delivers f (.nan false, { invalid := s }) (f.qnanBits, nanFlags s) where
  fits := by
    show f.qnanBits.toNat < 2 ^ f.width
    rcases hf with rfl | rfl <;> decide
  value := by
    have hk : f.qnanBits.toNat % 2 ^ f.format.fracBits = 2 ^ (f.format.fracBits - 1) := by
      rcases hf with rfl | rfl <;> rfl
    have he : f.qnanBits.toNat / 2 ^ f.format.fracBits % 2 ^ f.format.expBits = 2 ^ f.format.expBits - 1 := by
      rcases hf with rfl | rfl <;> rfl
    unfold Format.decode
    dsimp only
    rw [if_pos he, hk, if_neg (Nat.two_pow_pos _).ne', decide_eq_false (Nat.lt_irrefl _)]
  canonical := fun _ => rfl
  flags := (flagBits_invalid s).symm

theorem delivers_nan_of {s t : Bool} (h : t = s) : Delivers f (.nan false, { invalid := s }) (f.qnanBits, nanFlags t) :=
  h ▸ delivers_nan hf t

theorem delivers_invalidOp : Delivers f invalidOp (f.qnanBits, SF_NV) := delivers_nan hf true

theorem delivers_inf (neg : Bool) (fl : Flags) : Delivers f (.inf neg, fl) (makeInf f neg, flagBits fl) where
  fits := (decode_makeInf hf neg).1
  value := (decode_makeInf hf neg).2
  canonical := fun h => absurd h Bool.false_ne_true
  flags := rfl

theorem delivers_zero (neg : Bool) : Delivers f (.finite neg 0, {}) (makeZero f neg, 0) where
  fits := by rcases hf with rfl | rfl <;> cases neg <;> decide
  value := by
    have hbits : (makeZero f neg).toNat = 2 ^ (f.format.fracBits + f.format.expBits) * neg.toNat + 0 := by
      rcases hf with rfl | rfl <;> cases neg <;> rfl
    have hpos : 0 < (2 ^ f.format.expBits - 1) * 2 ^ f.format.fracBits := by rcases hf with rfl | rfl <;> decide
    rw [hbits, f.format.decode_finite neg hpos, Nat.zero_div, Nat.zero_mod]
    unfold Format.magnitude
    rw [if_pos rfl, Nat.cast_zero, zero_mul, signed_zero]
  canonical := fun h => absurd h Bool.false_ne_true
  flags := flagBits_none.symm

/-- A number already in the format is its own rounding, so an operand may be passed on. -/
theorem delivers_operand (m : Mode) {bits : BitVec 64} {neg : Bool} {v : ℝ} (hfit : bits.toNat < 2 ^ f.width)
    (hv : f.format.decode bits.toNat = .finite neg v) (h0 : v ≠ 0) : Delivers f (f.format.rounded m v) (bits, 0) := by
  have hu := unpack_spec hf bits
  rw [hv] at hu
  generalize unpack f bits = u at hu
  cases hu with
  | zero => exact absurd rfl h0
  | normal _ pos prec lo hi =>
    rw [← emin_format hf] at lo
    rw [← emax_format hf] at hi
    rw [f.format.rounded_exact m neg pos prec lo hi]
    exact ⟨hfit, hv, fun h => absurd h Bool.false_ne_true, flagBits_none.symm⟩

/-- A datum and its flags are delivered in one way only. -/
theorem Delivers.unique {d : Datum × Flags} {r r' : Res} (h : Delivers f d r) (h' : Delivers f d r') : r = r' := by
  have hwidth : f.width = f.format.fracBits + f.format.expBits + 1 := by rcases hf with rfl | rfl <;> rfl
  have hbits : r.1 = r'.1 := by
    cases hnan : d.1.isNan with
    | true => rw [h.canonical hnan, h'.canonical hnan]
    | false =>
      refine BitVec.eq_of_toNat_eq (f.format.decode_inj (hwidth ▸ h.fits) (hwidth ▸ h'.fits) ?_ ?_)
      · rwa [h.value]
      · rw [h.value, h'.value]
  exact Prod.ext hbits (h.flags.trans h'.flags.symm)

/-- Flipping the sign bit of an encoding. -/
theorem decode_flip {bits : BitVec 64} (hfit : bits.toNat < 2 ^ f.width) :
    (bits ^^^ f.signBit).toNat < 2 ^ f.width ∧
      f.format.decode (bits ^^^ f.signBit).toNat = (f.format.decode bits.toNat).negIf true := by
  have hwidth : f.width = f.format.fracBits + f.format.expBits + 1 := by rcases hf with rfl | rfl <;> rfl
  have hsign : f.signBit.toNat = 2 ^ (f.format.fracBits + f.format.expBits) := by rcases hf with rfl | rfl <;> rfl
  rw [hwidth] at hfit ⊢
  generalize hW : f.format.fracBits + f.format.expBits = W at *
  obtain ⟨neg, b, hb, hbits⟩ := Format.exists_sign hfit
  have hxor : (bits ^^^ f.signBit).toNat = 2 ^ W * (!neg).toNat + b := by
    rw [BitVec.toNat_xor, hbits, hsign]
    refine Nat.eq_of_testBit_eq fun i => ?_
    rw [Nat.testBit_xor, Nat.testBit_two_pow_mul_add _ hb, Nat.testBit_two_pow_mul_add _ hb, Nat.testBit_two_pow]
    by_cases hi : i < W
    · rw [if_pos hi, if_pos hi, decide_eq_false (by omega), Bool.xor_false]
    · rw [if_neg hi, if_neg hi]
      by_cases heq : W = i
      · subst heq
        cases neg <;> simp
      · obtain ⟨j, hj⟩ : ∃ j, i - W = j + 1 := ⟨i - W - 1, by omega⟩
        rw [decide_eq_false heq, Bool.xor_false, hj]
        cases neg <;> simp [Nat.testBit_succ]
  have hnot := f.format.decode_not neg (b := b) (by rwa [hW])
  rw [hW] at hnot
  rw [hxor, hbits]
  refine ⟨?_, hnot⟩
  rw [Nat.pow_succ]
  cases neg <;> simp <;> omega

theorem decode_flipIf (flip : Bool) {bits : BitVec 64} (hfit : bits.toNat < 2 ^ f.width) :
    (if flip then bits ^^^ f.signBit else bits).toNat < 2 ^ f.width ∧
      f.format.decode (if flip then bits ^^^ f.signBit else bits).toNat = (f.format.decode bits.toNat).negIf flip := by
  cases flip with
  | false => exact ⟨hfit, (Datum.negIf_false _).symm⟩
  | true => exact decode_flip hf hfit

end Operand

end Quanta.Softfloat
