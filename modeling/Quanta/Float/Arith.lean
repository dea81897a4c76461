/-
The arithmetic of `softfloat.c` is that of the standard: multiplication, division, square root,
addition, subtraction and the fused multiply-add are correctly rounded, with the flags of the exact
result, in both formats and all five modes.
-/
import Quanta.Float.Operand

namespace Quanta.Softfloat

open Rounding Ieee

section Arith

variable {f : Fmt} (hf : f.Standard) (m : Mode)
include hf

/-! ## Multiplication -/

/-- An exact significand of one word. -/
theorem roundMag_word (neg : Bool) {k : BitVec 64} (e : ℤ) (hk : 0 < k.toNat) :
    Delivers f (f.format.rounded m (signed neg (k.toNat * 2 ^ e))) (roundMag f neg ⟨0, k⟩ e false (rmOf m)) := by
  have happ := Approx.natCast k.toNat
  rw [← U128.toNat_lo] at happ
  refine roundMag_spec hf happ m neg ?_ ?_ (fun h => absurd h Bool.false_ne_true)
  · rw [U128.toNat_lo]
  · rw [U128.toNat_lo]
    exact hk.ne'

/-- An exact product of two significands. -/
theorem roundMag_mul (neg : Bool) {k l : BitVec 64} {d e : ℤ} (hk : 0 < k.toNat) (hl : 0 < l.toNat) :
    Delivers f (f.format.rounded m (signed neg (k.toNat * 2 ^ d * (l.toNat * 2 ^ e))))
      (roundMag f neg (mul64 k l) (d + e) false (rmOf m)) := by
  have happ := Approx.natCast (k.toNat * l.toNat)
  rw [← toNat_mul64] at happ
  refine roundMag_spec hf happ m neg ?_ ?_ (fun h => absurd h Bool.false_ne_true)
  · rw [toNat_mul64, zpow_add₀ two_ne_zero]
    push_cast
    ring
  · rw [toNat_mul64]
    exact (Nat.mul_pos hk hl).ne'

omit hf in
theorem magnitude_ne_zero {neg : Bool} {k : BitVec 64} {e : ℤ} (hk : 0 < k.toNat) :
    signed neg ((k.toNat : ℝ) * 2 ^ e) ≠ 0 := by
  rw [ne_eq, signed_eq_zero]
  exact mul_ne_zero (Nat.cast_ne_zero.mpr hk.ne') (zpow_ne_zero e two_ne_zero)

theorem fpMul_spec (a b : BitVec 64) :
    Delivers f (f.format.mul m (f.format.decode a.toNat) (f.format.decode b.toNat)) (fpMul f a b (rmOf m)) := by
  have ha := unpack_spec hf a
  have hb := unpack_spec hf b
  unfold fpMul Format.mul
  generalize f.format.decode a.toNat = x at ha ⊢
  generalize f.format.decode b.toNat = y at hb ⊢
  generalize unpack f a = ua at ha ⊢
  generalize unpack f b = ub at hb ⊢
  cases ha with
  | nan n s => cases hb <;> exact delivers_nan hf _
  | inf s =>
    cases hb with
    | nan => exact delivers_nan hf _
    | inf => exact delivers_inf hf _ {}
    | zero =>
      dsimp only
      rw [if_pos (rfl : (0 : ℝ) = 0)]
      exact delivers_invalidOp hf
    | normal t pos =>
      dsimp only
      rw [if_neg (magnitude_ne_zero pos)]
      exact delivers_inf hf _ {}
  | zero s =>
    cases hb with
    | nan => exact delivers_nan hf _
    | inf =>
      dsimp only
      rw [if_pos (rfl : (0 : ℝ) = 0)]
      exact delivers_invalidOp hf
    | zero | normal =>
      dsimp only
      rw [if_pos (zero_mul _)]
      exact delivers_zero hf _
  | normal s pos =>
    cases hb with
    | nan => exact delivers_nan hf _
    | inf =>
      dsimp only
      rw [if_neg (magnitude_ne_zero pos)]
      exact delivers_inf hf _ {}
    | zero =>
      dsimp only
      rw [if_pos (mul_zero _)]
      exact delivers_zero hf _
    | normal t pos' =>
      dsimp only
      rw [if_neg (mul_ne_zero (magnitude_ne_zero pos) (magnitude_ne_zero pos')), signed_mul_signed]
      exact roundMag_mul hf m _ pos pos'

/-! ## Division -/

/-- A left-aligned significand stands for the same number. -/
theorem normOperand_spec (neg : Bool) {k : BitVec 64} (e : ℤ) (hk : 0 < k.toNat) (hprec : k.toNat < 2 ^ (f.mantbits + 1)) :
    ∃ (n : BitVec 64) (d : ℤ), normOperand ⟨neg, .normal, false, ⟨0, k⟩, e⟩ f = ⟨neg, .normal, false, ⟨0, n⟩, d⟩ ∧
      2 ^ f.mantbits ≤ n.toNat ∧ n.toNat < 2 ^ (f.mantbits + 1) ∧ (n.toNat : ℝ) * 2 ^ d = k.toNat * 2 ^ e := by
  have hword : 2 ^ (f.mantbits + 1) < 2 ^ 64 := by rcases hf with rfl | rfl <;> decide
  obtain ⟨j, hj, -, hlo, hhi⟩ := @msb128_spec ⟨0, k⟩ (by rw [U128.toNat_lo]; exact hk.ne')
  rw [U128.toNat_lo] at hlo hhi
  have hjm : j < f.mantbits + 1 :=
    (Nat.pow_lt_pow_iff_right (a := 2) (by decide)).mp (Nat.lt_of_le_of_lt hlo hprec)
  obtain ⟨c, hc⟩ := Nat.exists_eq_add_of_le (Nat.lt_succ_iff.mp hjm)
  have hshift : (f.mantbits : ℤ) - msb128 ⟨0, k⟩ = c := by omega
  have hscale : (k.toNat * 2 ^ c : ℕ) * (2 : ℝ) ^ (e - c) = k.toNat * 2 ^ e := by
    rw [Nat.cast_mul, mul_assoc, two_pow_mul_zpow, add_sub_cancel]
  have hslo : 2 ^ f.mantbits ≤ k.toNat * 2 ^ c := by
    rw [hc, Nat.pow_add]
    exact Nat.mul_le_mul_right _ hlo
  have hshi : k.toNat * 2 ^ c < 2 ^ (f.mantbits + 1) := by
    rw [hc, Nat.add_right_comm, Nat.pow_add]
    exact Nat.mul_lt_mul_of_pos_right hhi (Nat.two_pow_pos c)
  have hnz : is0128 ⟨0, k⟩ = false := by rw [is0128_iff, U128.toNat_lo, decide_eq_false hk.ne']
  have hcode : normOperand ⟨neg, .normal, false, ⟨0, k⟩, e⟩ f =
      if (0 : ℤ) < c then ⟨neg, .normal, false, shl128 ⟨0, k⟩ c, e - c⟩ else ⟨neg, .normal, false, ⟨0, k⟩, e⟩ := by
    unfold normOperand
    dsimp only
    rw [hnz, hshift]
    rfl
  rw [hcode]
  split
  · next hpos =>
    have hbig : c < 128 := by
      have : (2 : ℕ) ^ c < 2 ^ 64 := Nat.lt_of_le_of_lt (Nat.le_mul_of_pos_left _ hk) (hshi.trans hword)
      have := (Nat.pow_lt_pow_iff_right (a := 2) (by decide)).mp this
      omega
    have hval : (shl128 ⟨0, k⟩ c).toNat = k.toNat * 2 ^ c := by
      rw [toNat_shl128 _ hbig, U128.toNat_lo]
      omega
    have hhi0 : (shl128 ⟨0, k⟩ c).hi = 0 := by
      refine BitVec.eq_of_toNat_eq ?_
      rw [← U128.toNat_div, hval]
      exact Nat.div_eq_of_lt (hshi.trans hword)
    have hlow : (shl128 ⟨0, k⟩ c).lo.toNat = k.toNat * 2 ^ c := by
      rw [← U128.toNat_mod, hval]
      exact Nat.mod_eq_of_lt (hshi.trans hword)
    refine ⟨(shl128 ⟨0, k⟩ c).lo, e - c, congrArg (Up.mk neg .normal false · (e - c)) ?_, ?_, ?_, ?_⟩
    · exact congrArg (U128.mk · (shl128 ⟨0, k⟩ c).lo) hhi0
    · rwa [hlow]
    · rwa [hlow]
    · rw [hlow, hscale]
  · next hzero =>
    have hc0 : c = 0 := by omega
    rw [hc0, Nat.pow_zero, Nat.mul_one] at hslo
    exact ⟨k, e, rfl, hslo, hprec, rfl⟩

/-- The quotient has the digits of the format, one more and room to spare. -/
theorem quotient_bits : ∃ P : ℕ, (if f.width = 32 then 28 else 61 : ℤ) = P ∧ f.mantbits + 2 ≤ P ∧ P < 64 := by
  rcases hf with rfl | rfl
  · exact ⟨28, rfl, by decide, by decide⟩
  · exact ⟨61, rfl, by decide, by decide⟩

/-- The scaled dividend is below the divisor's top word. -/
theorem dividend_lt {n p : BitVec 64} {P : ℕ} (hP : P < 64) (hn : n.toNat < 2 ^ (f.mantbits + 1))
    (hp : 2 ^ f.mantbits ≤ p.toNat) :
    (shl128 ⟨0, n⟩ P).toNat = n.toNat * 2 ^ P ∧ (shl128 ⟨0, n⟩ P).hi.toNat < p.toNat := by
  have hscaled : n.toNat * 2 ^ P < 2 ^ f.mantbits * 2 ^ 64 := by
    calc n.toNat * 2 ^ P < 2 ^ (f.mantbits + 1) * 2 ^ P := Nat.mul_lt_mul_of_pos_right hn (Nat.two_pow_pos P)
      _ ≤ 2 ^ (f.mantbits + 1) * 2 ^ 63 := Nat.mul_le_mul_left _ (Nat.pow_le_pow_right (by decide) (by omega))
      _ = 2 ^ f.mantbits * 2 ^ 64 := by ring
  have hword : 2 ^ f.mantbits * 2 ^ 64 ≤ 2 ^ 128 := by rcases hf with rfl | rfl <;> decide
  have hnum : (shl128 ⟨0, n⟩ P).toNat = n.toNat * 2 ^ P := by
    rw [toNat_shl128 _ (by omega), U128.toNat_lo]
    exact Nat.mod_eq_of_lt (Nat.lt_of_lt_of_le hscaled hword)
  refine ⟨hnum, ?_⟩
  rw [← U128.toNat_div, hnum]
  refine Nat.lt_of_lt_of_le ?_ hp
  rwa [Nat.div_lt_iff_lt_mul (Nat.two_pow_pos 64)]

/-- The quotient of two left-aligned significands, with what the remainder leaves. -/
theorem roundMag_div (neg : Bool) {n p : BitVec 64} {d e : ℤ} {P : ℕ} (hP : f.mantbits + 2 ≤ P) (hP' : P < 64)
    (hn : 2 ^ f.mantbits ≤ n.toNat) (hn' : n.toNat < 2 ^ (f.mantbits + 1)) (hp : 2 ^ f.mantbits ≤ p.toNat)
    (hp' : p.toNat < 2 ^ (f.mantbits + 1)) :
    Delivers f (f.format.rounded m (signed neg (n.toNat * 2 ^ d / (p.toNat * 2 ^ e))))
      (roundMag f neg ⟨0, (udiv128by64 (shl128 ⟨0, n⟩ P) p).1⟩ (d - e - P)
        ((udiv128by64 (shl128 ⟨0, n⟩ P) p).2 != 0) (rmOf m)) := by
  have hppos : 0 < p.toNat := Nat.lt_of_lt_of_le (Nat.two_pow_pos _) hp
  obtain ⟨hnum, hhi⟩ := dividend_lt hf hP' hn' hp
  obtain ⟨hq, hr⟩ := udiv128by64_spec hhi
  rw [hnum] at hq hr
  have happ := (Approx.natCast (n.toNat * 2 ^ P)).div hppos
  rw [Bool.false_or, ← hq, ← hr, ← ne_zero_iff, ← U128.toNat_lo (udiv128by64 _ p).1] at happ
  have hlarge : 2 ^ (f.mantbits + 1) ≤ n.toNat * 2 ^ P / p.toNat := by
    rw [Nat.le_div_iff_mul_le hppos]
    calc 2 ^ (f.mantbits + 1) * p.toNat ≤ 2 ^ (f.mantbits + 1) * 2 ^ (f.mantbits + 1) := Nat.mul_le_mul_left _ hp'.le
      _ = 2 ^ f.mantbits * 2 ^ (f.mantbits + 2) := by ring
      _ ≤ n.toNat * 2 ^ P := Nat.mul_le_mul hn (Nat.pow_le_pow_right (by decide) hP)
  refine roundMag_spec hf happ m neg ?_ ?_ fun _ => ?_
  · have hpr : (p.toNat : ℝ) ≠ 0 := Nat.cast_ne_zero.mpr hppos.ne'
    have he : (2 : ℝ) ^ e ≠ 0 := zpow_ne_zero e two_ne_zero
    have hPr : (2 : ℝ) ^ P ≠ 0 := pow_ne_zero P two_ne_zero
    rw [zpow_sub₀ two_ne_zero, zpow_sub₀ two_ne_zero, zpow_natCast]
    push_cast
    field_simp
  · rw [U128.toNat_lo, hq]
    exact (Nat.lt_of_lt_of_le (Nat.two_pow_pos _) hlarge).ne'
  · rwa [U128.toNat_lo, hq]

theorem fpDiv_spec (a b : BitVec 64) :
    Delivers f (f.format.div m (f.format.decode a.toNat) (f.format.decode b.toNat)) (fpDiv f a b (rmOf m)) := by
  have ha := unpack_spec hf a
  have hb := unpack_spec hf b
  unfold fpDiv Format.div
  generalize f.format.decode a.toNat = x at ha ⊢
  generalize f.format.decode b.toNat = y at hb ⊢
  generalize unpack f a = ua at ha ⊢
  generalize unpack f b = ub at hb ⊢
  cases ha with
  | nan n s => cases hb <;> exact delivers_nan hf _
  | inf s =>
    cases hb with
    | nan => exact delivers_nan hf _
    | inf => exact delivers_invalidOp hf
    | zero => exact delivers_inf hf _ {}
    | normal => exact delivers_inf hf _ {}
  | zero s =>
    cases hb with
    | nan => exact delivers_nan hf _
    | inf => exact delivers_zero hf _
    | zero =>
      dsimp only
      rw [if_pos (rfl : (0 : ℝ) = 0), if_pos (rfl : (0 : ℝ) = 0)]
      exact delivers_invalidOp hf
    | normal t pos =>
      dsimp only
      rw [if_neg (magnitude_ne_zero pos), if_pos (rfl : (0 : ℝ) = 0)]
      exact delivers_zero hf _
  | @normal s k e pos prec =>
    cases hb with
    | nan => exact delivers_nan hf _
    | inf => exact delivers_zero hf _
    | zero =>
      dsimp only
      rw [if_pos (rfl : (0 : ℝ) = 0), if_neg (magnitude_ne_zero pos)]
      exact delivers_inf hf _ { divZero := true }
    | @normal t l e' pos' prec' =>
      dsimp only
      rw [if_neg (magnitude_ne_zero pos'), if_neg (magnitude_ne_zero pos), signed_div_signed]
      obtain ⟨n, d, hua, hn, hn', hv⟩ := normOperand_spec hf s e pos prec
      obtain ⟨p, d', hub, hp, hp', hw⟩ := normOperand_spec hf t e' pos' prec'
      obtain ⟨P, hcode, hP, hP'⟩ := quotient_bits hf
      rw [← hv, ← hw, hua, hub, hcode]
      exact roundMag_div hf m (s ^^ t) hP hP' hn hn' hp hp'

/-! ## Square root -/

omit hf in
/-- Moving one power of two into the significand makes the exponent even. -/
theorem even_exponent {n : BitVec 64} (d : ℤ) (hn : 2 ^ f.mantbits ≤ n.toNat) (hn' : n.toNat < 2 ^ (f.mantbits + 1)) :
    ∃ (s : U128) (e : ℤ), (if d % 2 ≠ 0 then shl128 ⟨0, n⟩ 1 else ⟨0, n⟩) = s ∧ (if d % 2 ≠ 0 then d - 1 else d) = e ∧
      e % 2 = 0 ∧ 2 ^ f.mantbits ≤ s.toNat ∧ s.toNat < 2 ^ (f.mantbits + 2) ∧ (s.toNat : ℝ) * 2 ^ e = n.toNat * 2 ^ d := by
  have hword := n.isLt
  have hdouble : 2 ^ (f.mantbits + 2) = 2 ^ (f.mantbits + 1) * 2 := pow_succ 2 _
  by_cases hodd : d % 2 = 0
  · refine ⟨⟨0, n⟩, d, if_neg (not_not.mpr hodd), if_neg (not_not.mpr hodd), hodd, ?_, ?_, ?_⟩ <;> rw [U128.toNat_lo]
    · exact hn
    · omega
  · have hs : (shl128 ⟨0, n⟩ 1).toNat = n.toNat * 2 := by
      have := @toNat_shl128 ⟨0, n⟩ 1 (by decide)
      rw [U128.toNat_lo] at this
      exact this.trans (Nat.mod_eq_of_lt (by omega))
    refine ⟨shl128 ⟨0, n⟩ 1, d - 1, if_pos hodd, if_pos hodd, by omega, by omega, by omega, ?_⟩
    rw [hs, zpow_sub_one₀ two_ne_zero]
    push_cast
    ring

theorem root_bits : ∃ P : ℕ, (if f.width = 32 then 28 else 35 : ℤ) = P ∧ f.mantbits + 2 ≤ 2 * P ∧
    f.mantbits + 2 + 2 * P < 128 := by
  rcases hf with rfl | rfl
  · exact ⟨28, rfl, by decide, by decide⟩
  · exact ⟨35, rfl, by decide, by decide⟩

/-- The root of a significand scaled by an even power of two. -/
theorem roundMag_sqrt {s : U128} {e : ℤ} {P : ℕ} (he : e % 2 = 0) (hP : f.mantbits + 2 ≤ 2 * P)
    (hP' : f.mantbits + 2 + 2 * P < 128) (hs : 2 ^ f.mantbits ≤ s.toNat) (hs' : s.toNat < 2 ^ (f.mantbits + 2)) :
    Delivers f (f.format.rounded m (√(s.toNat * 2 ^ e)))
      (roundMag f false ⟨0, (isqrt128 (shl128 s (2 * P : ℕ))).1⟩ (e / 2 - P) (isqrt128 (shl128 s (2 * P : ℕ))).2 (rmOf m)) := by
  have hfits : s.toNat * 2 ^ (2 * P) < 2 ^ 128 := by
    have hprod : s.toNat * 2 ^ (2 * P) < 2 ^ (f.mantbits + 2) * 2 ^ (2 * P) :=
      Nat.mul_lt_mul_of_pos_right hs' (Nat.two_pow_pos _)
    rw [← Nat.pow_add] at hprod
    exact hprod.trans (Nat.pow_lt_pow_right (by decide) hP')
  have hrad : (shl128 s (2 * P : ℕ)).toNat = s.toNat * 2 ^ (2 * P) := by
    rw [toNat_shl128 _ (by omega), Nat.mod_eq_of_lt hfits]
  obtain ⟨hroot, hflag⟩ := isqrt128_spec (shl128 s (2 * P : ℕ))
  rw [hrad] at hroot hflag
  have happ := approx_sqrt (s.toNat * 2 ^ (2 * P))
  rw [← hflag, ← hroot, ← U128.toNat_lo (isqrt128 _).1] at happ
  have hlarge : 2 ^ (f.mantbits + 1) ≤ Nat.sqrt (s.toNat * 2 ^ (2 * P)) := by
    rw [Nat.le_sqrt]
    calc 2 ^ (f.mantbits + 1) * 2 ^ (f.mantbits + 1) = 2 ^ f.mantbits * 2 ^ (f.mantbits + 2) := by ring
      _ ≤ s.toNat * 2 ^ (2 * P) := Nat.mul_le_mul hs (Nat.pow_le_pow_right (by decide) hP)
  refine roundMag_spec hf happ m false ?_ ?_ fun _ => ?_
  · -- half of the even exponent comes out of the root
    have heven : e = ((2 * P : ℕ) : ℤ) + (e / 2 - P) * (2 : ℕ) := by omega
    have hexp : (2 : ℝ) ^ e = 2 ^ (2 * P) * (2 ^ (e / 2 - P)) ^ 2 := by
      conv_lhs => rw [heven]
      rw [zpow_add₀ two_ne_zero, zpow_mul, zpow_natCast, zpow_natCast]
    have hpos : (0 : ℝ) ≤ 2 ^ (e / 2 - P) := (zpow_pos two_pos _).le
    rw [hexp, ← mul_assoc, Real.sqrt_mul' _ (sq_nonneg _), Real.sqrt_sq hpos]
    push_cast
    rfl
  · rw [U128.toNat_lo, hroot]
    exact (Nat.lt_of_lt_of_le (Nat.two_pow_pos _) hlarge).ne'
  · rwa [U128.toNat_lo, hroot]

theorem fpSqrt_spec {a : BitVec 64} (hfit : a.toNat < 2 ^ f.width) :
    Delivers f (f.format.sqrt m (f.format.decode a.toNat)) (fpSqrt f a (rmOf m)) := by
  have ha := unpack_spec hf a
  obtain ⟨x, hx⟩ : ∃ x, x = f.format.decode a.toNat := ⟨_, rfl⟩
  unfold fpSqrt Format.sqrt
  rw [← hx] at ha ⊢
  generalize unpack f a = ua at ha ⊢
  cases ha with
  | nan n s => exact delivers_nan hf _
  | inf s =>
    cases s
    · exact delivers_inf hf _ {}
    · exact delivers_invalidOp hf
  | zero s =>
    dsimp only
    rw [if_pos (rfl : (0 : ℝ) = 0)]
    exact ⟨hfit, hx.symm, fun h => absurd h Bool.false_ne_true, flagBits_none.symm⟩
  | @normal s k e pos prec =>
    dsimp only
    rw [if_neg (magnitude_ne_zero pos)]
    have hv : (0 : ℝ) < k.toNat * 2 ^ e := mul_pos (Nat.cast_pos.mpr pos) (zpow_pos two_pos e)
    cases s with
    | true =>
      have hneg : signed true ((k.toNat : ℝ) * 2 ^ e) < 0 := neg_lt_zero.mpr hv
      rw [if_pos hneg]
      exact delivers_invalidOp hf
    | false =>
      have hnn : ¬signed false ((k.toNat : ℝ) * 2 ^ e) < 0 := not_lt.mpr hv.le
      rw [if_neg hnn]
      obtain ⟨n, d, hua, hn, hn', hw⟩ := normOperand_spec hf false e pos prec
      obtain ⟨P, hcode, hP, hP'⟩ := root_bits hf
      rw [hua, hcode]
      show Delivers f (f.format.rounded m √(k.toNat * 2 ^ e)) _
      rw [← hw]
      obtain ⟨s, e', hs, he', heven, hlo, hhi, hval⟩ := even_exponent d hn hn'
      have hroot := roundMag_sqrt hf m heven hP hP' hlo hhi
      rw [hval, ← hs, ← he'] at hroot
      exact hroot

/-- Halving the exponent keeps every root well inside the normal range. -/
theorem sqrt_range {k : BitVec 64} {e : ℤ} (pos : 0 < k.toNat) (prec : k.toNat < 2 ^ (f.mantbits + 1))
    (lo : 1 - f.bias - f.mantbits ≤ e) (hi : e ≤ f.bias - f.mantbits) :
    (2 : ℝ) ^ f.format.emin ≤ √(k.toNat * 2 ^ e) ∧ √(k.toNat * 2 ^ e) < 2 ^ f.format.emax := by
  have hbias : (f.mantbits : ℤ) + 1 ≤ f.bias := by rcases hf with rfl | rfl <;> decide
  have hpow : ∀ d : ℤ, (0 : ℝ) < 2 ^ d := zpow_pos two_pos
  rw [emin_format hf, emax_format hf]
  constructor
  · refine Real.le_sqrt_of_sq_le ?_
    rw [← zpow_natCast, ← zpow_mul]
    calc (2 : ℝ) ^ ((1 - f.bias) * (2 : ℕ)) ≤ 2 ^ e := zpow_le_zpow_right₀ one_le_two (by push_cast; omega)
      _ ≤ k.toNat * 2 ^ e := le_mul_of_one_le_left (hpow e).le (by exact_mod_cast pos)
  · rw [Real.sqrt_lt' (hpow _), ← zpow_natCast, ← zpow_mul]
    calc (k.toNat : ℝ) * 2 ^ e < (2 ^ (f.mantbits + 1) : ℕ) * 2 ^ e :=
          mul_lt_mul_of_pos_right (by exact_mod_cast prec) (hpow e)
      _ = 2 ^ ((f.mantbits + 1 : ℕ) + e) := two_pow_mul_zpow _ _
      _ ≤ 2 ^ (f.bias * (2 : ℕ)) := zpow_le_zpow_right₀ one_le_two (by push_cast; omega)

/-- A square root signals an invalid operand, an inexact root, or nothing. -/
theorem sqrt_flags (a : BitVec 64) :
    ∃ nv nx, (f.format.sqrt m (f.format.decode a.toNat)).2 = { invalid := nv, inexact := nx } := by
  have ha := unpack_spec hf a
  generalize unpack f a = u at ha
  unfold Format.sqrt
  generalize f.format.decode a.toNat = x at ha ⊢
  cases ha with
  | nan n s => exact ⟨s, false, rfl⟩
  | inf neg =>
    cases neg
    · exact ⟨false, false, rfl⟩
    · exact ⟨true, false, rfl⟩
  | zero neg =>
    dsimp only
    rw [if_pos (rfl : (0 : ℝ) = 0)]
    exact ⟨false, false, rfl⟩
  | @normal neg k e pos prec lo hi =>
    dsimp only
    rw [if_neg (magnitude_ne_zero pos)]
    cases neg with
    | true =>
      split
      · exact ⟨true, false, rfl⟩
      · next hnn =>
        have hv : (0 : ℝ) < k.toNat * 2 ^ e := mul_pos (Nat.cast_pos.mpr pos) (zpow_pos two_pos e)
        exact absurd (neg_lt_zero.mpr hv) hnn
    | false =>
      obtain ⟨hlo, hhi⟩ := sqrt_range hf pos prec lo hi
      split
      · exact ⟨true, false, rfl⟩
      · show ∃ nv nx, (f.format.rounded m (signed false √(k.toNat * 2 ^ e))).2 = _
        rw [f.format.rounded_normal m false hlo hhi]
        exact ⟨false, _, rfl⟩

end Arith

end Quanta.Softfloat
