/-
The conversions of `softfloat.c`: floating point to integer with RISC-V's saturation, integer to
floating point, and between the two formats.
-/
import Quanta.Float.Arith

namespace Quanta.Softfloat

open Rounding Ieee

/-! ## To an integer -/

section Magnitude

variable {sig : BitVec 64} {neg : Bool} {m : Mode}

/-- `to_int_mag` below the unit: the bits shifted out decide the increment. -/
theorem toIntMag_fraction {n : ℕ} (h0 : 0 < sig.toNat) (hsig : sig.toNat < 2 ^ 63) :
    ∃ mag inexact, toIntMag sig (-(n + 1 : ℕ)) neg (rmOf m) = (some mag, inexact) ∧
      mag.toNat = (along m neg).ofHalves (sig.toNat / 2 ^ n) (decide (sig.toNat % 2 ^ n ≠ 0)) ∧
      (inexact = false ↔ sig.toNat / 2 ^ n % 2 = 0 ∧ sig.toNat % 2 ^ n = 0) := by
  have hne : sig ≠ 0 := fun h => by rw [h] at h0; exact absurd h0 (by decide)
  have hbig : ∀ {k}, 63 ≤ k → sig.toNat < 2 ^ k := fun hk =>
    Nat.lt_of_lt_of_le hsig (Nat.pow_le_pow_right (by decide) hk)
  have hfloor : (if 64 ≤ n + 1 then 0 else sig >>> (n + 1)).toNat = sig.toNat / 2 ^ n / 2 := by
    split
    · rw [Nat.div_eq_of_lt (hbig (by omega))]
      rfl
    · rw [BitVec.toNat_ushiftRight, Nat.shiftRight_eq_div_pow, Nat.pow_succ, Nat.div_div_eq_div_mul]
  have hround : (decide (n + 1 ≤ 64) && sig.getLsbD n) = decide (sig.toNat / 2 ^ n % 2 = 1) := by
    by_cases hn : n + 1 ≤ 64
    · rw [decide_eq_true hn, Bool.true_and, ← BitVec.testBit_toNat, Nat.testBit_eq_decide_div_mod_eq]
    · rw [decide_eq_false hn, Bool.false_and, Nat.div_eq_of_lt (hbig (by omega))]
      rfl
  have hsticky : ((sig &&& (if 64 ≤ n then BitVec.allOnes 64 else lowMask n)) != 0) = decide (sig.toNat % 2 ^ n ≠ 0) := by
    rw [ne_zero_iff]
    split
    · rw [BitVec.and_allOnes, Nat.mod_eq_of_lt (hbig (by omega))]
    · rw [toNat_and_lowMask _ (by omega)]
  have hlow : (if 64 ≤ n + 1 then 0 else sig >>> (n + 1)).getLsbD 0 = decide (sig.toNat / 2 ^ n / 2 % 2 = 1) := by
    rw [← BitVec.testBit_toNat, hfloor, Nat.testBit_eq_decide_div_mod_eq, Nat.pow_zero, Nat.div_one]
  have hsmall : sig.toNat / 2 ^ n / 2 + 1 < 2 ^ 64 := by
    have : sig.toNat / 2 ^ n ≤ sig.toNat := Nat.div_le_self _ _
    omega
  have hneg : ¬(0 : ℤ) ≤ -(n + 1 : ℕ) := by omega
  have hshift : (-(-((n + 1 : ℕ) : ℤ))).toNat = n + 1 := by omega
  unfold toIntMag
  rw [if_neg hne, if_neg hneg, hshift]
  dsimp only
  rw [Nat.add_sub_cancel, hround, hsticky, hlow]
  refine ⟨_, _, rfl, ?_, ?_⟩
  · rw [BitVec.toNat_add, toNat_bit01, hfloor]
    generalize sig.toNat / 2 ^ n = a at hsmall ⊢
    generalize decide (sig.toNat % 2 ^ n ≠ 0) = s
    rw [Nat.mod_eq_of_lt (Nat.lt_of_le_of_lt (Nat.add_le_add_left (Bool.toNat_le _) _) hsmall)]
    rcases Nat.mod_two_eq_zero_or_one a with ha | ha <;> rcases Nat.mod_two_eq_zero_or_one (a / 2) with hb | hb <;>
      cases m <;> cases neg <;> cases s <;>
      simp [ha, hb, rmOf, along, Mode.flip, Mode.ofHalves, SF_RNE, SF_RTZ, SF_RDN, SF_RUP, SF_RMM]
  · rw [Bool.or_eq_false_iff, decide_eq_false_iff_not, decide_eq_false_iff_not, not_not]
    have := Nat.mod_two_eq_zero_or_one (sig.toNat / 2 ^ n)
    omega

/-- `to_int_mag` rounds a magnitude to an integer, or it is too large for any target. -/
theorem toIntMag_spec {e : ℤ} (h0 : 0 < sig.toNat) (hsig : sig.toNat < 2 ^ 63) :
    toIntMag sig e neg (rmOf m) = (none, false) ∧ (2 ^ 64 : ℕ) ≤ (along m neg).toInt (sig.toNat * 2 ^ e) ∨
      ∃ mag inexact, toIntMag sig e neg (rmOf m) = (some mag, inexact) ∧
        (along m neg).toInt (sig.toNat * 2 ^ e) = mag.toNat ∧ (inexact = false ↔ (mag.toNat : ℝ) = sig.toNat * 2 ^ e) := by
  have hne : sig ≠ 0 := fun h => by rw [h] at h0; exact absurd h0 (by decide)
  rcases lt_or_ge e 0 with he | he
  · right
    obtain ⟨n, rfl⟩ : ∃ n : ℕ, e = -(n + 1 : ℕ) := ⟨(-e - 1).toNat, by omega⟩
    obtain ⟨mag, inexact, hcode, hmag, hex⟩ := @toIntMag_fraction sig neg m n h0 hsig
    have happ : Approx (2 * (sig.toNat * 2 ^ (-(n + 1 : ℕ) : ℤ))) (sig.toNat / 2 ^ n) (decide (sig.toNat % 2 ^ n ≠ 0)) := by
      have hdiv := (Approx.natCast sig.toNat).div (Nat.two_pow_pos n)
      rw [Bool.false_or] at hdiv
      convert hdiv using 1
      rw [zpow_neg, zpow_natCast, pow_succ]
      push_cast
      field_simp
    have hround := (along m neg).toInt_of_halves happ
    refine ⟨mag, inexact, hcode, by rw [hround, hmag], ?_⟩
    have hint := happ.div (d := 2) (by decide)
    rw [Nat.cast_ofNat, mul_div_cancel_left₀ _ two_ne_zero] at hint
    have hexact := (along m neg).toInt_exact hint
    rw [hround, Int.cast_natCast, ← hmag] at hexact
    rw [hexact, hex, Bool.or_eq_false_iff, decide_eq_false_iff_not, decide_eq_false_iff_not, not_not, not_not, and_comm]
  · obtain ⟨n, rfl⟩ := Int.eq_ofNat_of_zero_le he
    have hval : (sig.toNat : ℝ) * 2 ^ (n : ℤ) = ((sig.toNat * 2 ^ n : ℕ) : ℤ) := by
      rw [zpow_natCast]
      push_cast
      rfl
    rw [hval, Mode.toInt_intCast]
    obtain ⟨hclz, hlo, hhi⟩ := clz64_spec hne
    have hcode : toIntMag sig n neg (rmOf m) =
        if (63 : ℤ) < 63 - (clz64 sig : ℤ) + n then (none, false) else (some (sig <<< n), false) := by
      unfold toIntMag
      rw [if_neg hne, if_pos (Int.natCast_nonneg n)]
      rfl
    rw [hcode]
    split
    · next htop =>
      left
      refine ⟨rfl, ?_⟩
      have hlarge : 2 ^ 64 ≤ sig.toNat * 2 ^ n := by
        calc 2 ^ 64 ≤ 2 ^ (63 - clz64 sig + n) := Nat.pow_le_pow_right (by decide) (by omega)
          _ = 2 ^ (63 - clz64 sig) * 2 ^ n := Nat.pow_add 2 _ _
          _ ≤ sig.toNat * 2 ^ n := Nat.mul_le_mul_right _ hlo
      exact_mod_cast hlarge
    · next htop =>
      right
      have hfit : sig.toNat * 2 ^ n < 2 ^ 64 := by
        calc sig.toNat * 2 ^ n < 2 ^ (64 - clz64 sig) * 2 ^ n := Nat.mul_lt_mul_of_pos_right hhi (Nat.two_pow_pos n)
          _ = 2 ^ (64 - clz64 sig + n) := (Nat.pow_add 2 _ _).symm
          _ ≤ 2 ^ 64 := Nat.pow_le_pow_right (by decide) (by omega)
      have hmag : (sig <<< n).toNat = sig.toNat * 2 ^ n := by
        rw [BitVec.toNat_shiftLeft, Nat.shiftLeft_eq, Nat.mod_eq_of_lt hfit]
      exact ⟨sig <<< n, false, rfl, by rw [hmag], by rw [hmag]; simp⟩

end Magnitude

/-- The least and the greatest integer of a target. -/
def intMin (isSigned : Bool) (intbits : Nat) : ℤ := if isSigned then -2 ^ (intbits - 1) else 0

def intMax (isSigned : Bool) (intbits : Nat) : ℤ := if isSigned then 2 ^ (intbits - 1) - 1 else 2 ^ intbits - 1

/-- The cast of the typed wrappers: a result word as an integer of the target. -/
def intValue (isSigned : Bool) (intbits : Nat) (r : BitVec 64) : ℤ :=
  if isSigned then (r.setWidth intbits).toInt else (r.setWidth intbits).toNat

section Target

variable {isSigned : Bool} {intbits : Nat} (hbits : intbits = 32 ∨ intbits = 64)
include hbits

/-- A word is the integer it is congruent to, if that is in range. -/
theorem intValue_of_mod {r : BitVec 64} {n : ℤ} (hlo : intMin isSigned intbits ≤ n) (hhi : n ≤ intMax isSigned intbits)
    (hr : (r.toNat : ℤ) % 2 ^ intbits = n % 2 ^ intbits) : intValue isSigned intbits r = n := by
  unfold intValue intMin intMax at *
  rcases hbits with rfl | rfl <;> cases isSigned <;> simp only [if_true, if_false, Bool.false_eq_true] at *
  · rw [BitVec.toNat_setWidth]
    push_cast
    omega
  · rw [BitVec.toInt_setWidth, Int.bmod_def]
    push_cast
    split <;> omega
  · rw [BitVec.toNat_setWidth]
    push_cast
    omega
  · rw [BitVec.toInt_setWidth, Int.bmod_def]
    push_cast
    split <;> omega

/-- The saturated results. -/
theorem toNat_maxpos :
    ((if isSigned then (1#64 <<< (intbits - 1)) - 1 else intMask intbits).toNat : ℤ) = intMax isSigned intbits := by
  rcases hbits with rfl | rfl <;> cases isSigned <;> decide

theorem toNat_minneg :
    ((if isSigned then 1#64 <<< (intbits - 1) else 0).toNat : ℤ) = -intMin isSigned intbits ∧
      intValue isSigned intbits (if isSigned then 1#64 <<< (intbits - 1) else 0) = intMin isSigned intbits := by
  rcases hbits with rfl | rfl <;> cases isSigned <;> decide

theorem toNat_neg_and_intMask (mag : BitVec 64) :
    ((-mag &&& intMask intbits).toNat : ℤ) % 2 ^ intbits = (-(mag.toNat : ℤ)) % 2 ^ intbits := by
  have hmag := mag.isLt
  unfold intMask
  rcases hbits with rfl | rfl
  · rw [if_neg (by decide), toNat_and_lowMask _ (by decide), BitVec.toNat_neg]
    omega
  · rw [if_pos (by decide), BitVec.and_allOnes, BitVec.toNat_neg]
    omega

/-- The integer and the flags of a conversion. -/
def ToInteger (isSigned : Bool) (intbits : Nat) (d : ℤ × Flags) (r : Res) : Prop :=
  intValue isSigned intbits r.1 = d.1 ∧ r.2 = flagBits d.2

theorem fpToInt_spec {f : Fmt} (hf : f.Standard) (m : Mode) (a : BitVec 64) :
    ToInteger isSigned intbits
      ((f.format.decode a.toNat).toInteger m (intMin isSigned intbits) (intMax isSigned intbits))
      (fpToInt f a isSigned intbits (rmOf m)) := by
  have ha := unpack_spec hf a
  have hmax := @toNat_maxpos isSigned intbits hbits
  obtain ⟨hmin, hbot⟩ := @toNat_minneg isSigned intbits hbits
  have hrange : intMin isSigned intbits ≤ 0 ∧ 0 ≤ intMax isSigned intbits ∧ intMax isSigned intbits < 2 ^ 64 ∧
      -2 ^ 64 < intMin isSigned intbits := by
    rcases hbits with rfl | rfl <;> cases isSigned <;> decide
  unfold fpToInt Datum.toInteger
  generalize f.format.decode a.toNat = x at ha ⊢
  generalize unpack f a = ua at ha ⊢
  dsimp only
  generalize (if isSigned then (1#64 <<< (intbits - 1)) - 1 else intMask intbits) = maxpos at hmax ⊢
  generalize (if isSigned then 1#64 <<< (intbits - 1) else 0) = minneg at hmin hbot ⊢
  have htop : intValue isSigned intbits maxpos = intMax isSigned intbits :=
    intValue_of_mod hbits (by omega) le_rfl (by rw [hmax])
  have hnv : SF_NV = flagBits { invalid := true } := (flagBits_invalid true).symm
  cases ha with
  | nan n s => exact ⟨htop, hnv⟩
  | inf neg =>
    cases neg
    · exact ⟨htop, hnv⟩
    · exact ⟨hbot, hnv⟩
  | zero neg =>
    have hzero : m.toInt 0 = 0 := by simpa using m.toInt_intCast 0
    dsimp only
    rw [hzero, if_neg (by omega), if_neg (by omega)]
    refine ⟨intValue_of_mod hbits hrange.1 hrange.2.1 rfl, ?_⟩
    simp [flagBits]
  | @normal neg k e pos prec =>
    have hk : k.toNat < 2 ^ 63 := Nat.lt_of_lt_of_le prec (by rcases hf with rfl | rfl <;> decide)
    dsimp only
    rw [toInt_signed]
    rcases @toIntMag_spec k neg m e pos hk with ⟨hcode, hlarge⟩ | ⟨mag, inexact, hcode, hmag, hex⟩
    · push_cast at hlarge
      rw [hcode]
      cases neg with
      | false =>
        dsimp only
        rw [if_neg Bool.false_ne_true, if_neg (by omega), if_pos (by omega)]
        exact ⟨htop, hnv⟩
      | true =>
        dsimp only
        rw [if_pos rfl, if_pos (by omega)]
        exact ⟨hbot, hnv⟩
    rw [hcode, hmag]
    have hflag : ∀ n : ℤ, (n : ℝ) = signed neg mag.toNat →
        (if inexact then SF_NX else 0) = flagBits { inexact := decide ((n : ℝ) ≠ signed neg (k.toNat * 2 ^ e)) } := by
      intro n hn
      have hiff : (n : ℝ) ≠ signed neg (k.toNat * 2 ^ e) ↔ inexact = true := by
        rw [hn, ne_eq, signed_inj, ← hex, Bool.not_eq_false]
      cases inexact with
      | false => rw [decide_eq_false fun h => Bool.false_ne_true (hiff.mp h)]; decide
      | true => rw [decide_eq_true (hiff.mpr rfl)]; decide
    have hult : ∀ y : BitVec 64, y.ult mag = true ↔ y.toNat < mag.toNat := fun y => by simp [BitVec.ult]
    cases neg with
    | false =>
      dsimp only
      rw [if_neg Bool.false_ne_true, if_neg (by omega)]
      by_cases hover : intMax isSigned intbits < mag.toNat
      · rw [if_pos hover, if_neg Bool.false_ne_true, if_pos ((hult maxpos).mpr (by omega))]
        exact ⟨htop, hnv⟩
      · rw [if_neg hover, if_neg Bool.false_ne_true, if_neg (mt (hult maxpos).mp (by omega))]
        exact ⟨intValue_of_mod hbits (by omega) (by omega) rfl, hflag _ rfl⟩
    | true =>
      dsimp only
      rw [if_pos rfl, if_pos rfl]
      by_cases hover : -(mag.toNat : ℤ) < intMin isSigned intbits
      · rw [if_pos hover, if_pos ((hult minneg).mpr (by omega))]
        exact ⟨hbot, hnv⟩
      · have hunsigned : ¬((!isSigned) = true ∧ mag ≠ 0) := by
          rintro ⟨hs, hm⟩
          refine hm (BitVec.eq_of_toNat_eq ?_)
          rw [Bool.not_eq_true'] at hs
          subst hs
          have : intMin false intbits = 0 := rfl
          simp
          omega
        rw [if_neg hover, if_neg (by omega), if_neg (mt (hult minneg).mp (by omega)), if_neg hunsigned]
        exact ⟨intValue_of_mod hbits (by omega) (by omega) (toNat_neg_and_intMask hbits mag), hflag _ (Int.cast_neg _)⟩

end Target

/-! ## From an integer -/

section OfInt

variable {f : Fmt} (hf : f.Standard)
include hf

theorem intToFp_spec (m : Mode) (neg : Bool) (mag : BitVec 64) :
    Delivers f (f.format.ofInt m (if neg then -(mag.toNat : ℤ) else mag.toNat)) (intToFp f mag neg (rmOf m)) := by
  unfold intToFp Format.ofInt
  by_cases h0 : mag.toNat = 0
  · have hmag : mag = 0 := BitVec.eq_of_toNat_eq h0
    rw [if_pos hmag, h0, if_pos (by cases neg <;> rfl)]
    exact delivers_zero hf false
  · have hmag : mag ≠ 0 := fun h => h0 (by rw [h]; rfl)
    have hval : ((if neg then -(mag.toNat : ℤ) else mag.toNat : ℤ) : ℝ) = signed neg mag.toNat := by
      cases neg <;> simp [signed]
    have hround := roundMag_word hf m neg 0 (Nat.pos_of_ne_zero h0)
    rw [zpow_zero, mul_one] at hround
    rw [if_neg hmag, if_neg (by cases neg <;> simp [h0]), hval]
    exact hround

theorem signedToFp_spec (m : Mode) (a : BitVec 64) : Delivers f (f.format.ofInt m a.toInt) (signedToFp f a (rmOf m)) := by
  have hlt := a.isLt
  have hslt : a.slt 0 = decide (a.toInt < 0) := by simp [BitVec.slt]
  have hspec := intToFp_spec hf m (a.slt 0) (if a.slt 0 then -a else a)
  have hval : (if a.slt 0 then -((if a.slt 0 then -a else a).toNat : ℤ) else (if a.slt 0 then -a else a).toNat) =
      a.toInt := by
    rw [hslt]
    have hint : a.toInt = if 2 * a.toNat < 2 ^ 64 then (a.toNat : ℤ) else a.toNat - 2 ^ 64 := by
      rw [BitVec.toInt_eq_toNat_cond]
      norm_cast
    by_cases hneg : a.toInt < 0
    · simp only [decide_eq_true hneg, if_true]
      rw [BitVec.toNat_neg]
      split at hint <;> omega
    · simp only [decide_eq_false hneg, Bool.false_eq_true, if_false]
      split at hint <;> omega
  rw [hval] at hspec
  exact hspec

omit hf in
theorem intCast_signed (n : ℤ) : (n : ℝ) = signed (decide (n < 0)) |(n : ℝ)| := by
  rcases lt_or_ge n 0 with hlt | hge
  · rw [decide_eq_true hlt, abs_of_neg (by exact_mod_cast hlt)]
    exact (neg_neg _).symm
  · rw [decide_eq_false (not_lt.mpr hge), abs_of_nonneg (by exact_mod_cast hge)]
    rfl

/-- An integer of 64 bits is far inside the range of the formats, so only inexactness can be signaled. -/
theorem ofInt_flags (m : Mode) {n : ℤ} (hn : |n| ≤ 2 ^ 64) : ∃ b, (f.format.ofInt m n).2 = { inexact := b } := by
  unfold Format.ofInt
  split
  · exact ⟨false, rfl⟩
  · next h0 =>
    have hone : (1 : ℝ) ≤ |(n : ℝ)| := by
      rw [← Int.cast_abs]
      exact_mod_cast Int.one_le_abs h0
    have hbig : |(n : ℝ)| ≤ 2 ^ 64 := by
      rw [← Int.cast_abs]
      exact_mod_cast hn
    have hlo : (2 : ℝ) ^ f.format.emin ≤ |(n : ℝ)| := by
      refine le_trans (zpow_le_one_of_nonpos₀ one_le_two ?_) hone
      rw [emin_format hf]
      rcases hf with rfl | rfl <;> decide
    have hhi : |(n : ℝ)| < 2 ^ f.format.emax := by
      refine lt_of_le_of_lt hbig ?_
      rw [← zpow_natCast]
      refine zpow_lt_zpow_right₀ one_lt_two ?_
      rw [emax_format hf]
      rcases hf with rfl | rfl <;> decide
    rw [intCast_signed, f.format.rounded_normal m _ hlo hhi]
    exact ⟨_, rfl⟩

end OfInt

/-! ## Between the formats -/

/-- A single cut to its 32 bits. -/
theorem narrow_delivers {d : Datum × Flags} {r : Res} (h : Delivers F32 d r) :
    Delivers F32 d ((r.1.setWidth 32).setWidth 64, r.2) := by
  have hfits : r.1.toNat < 2 ^ 32 := h.fits
  have heq : (r.1.setWidth 32).setWidth 64 = r.1 := by
    refine BitVec.eq_of_toNat_eq ?_
    rw [BitVec.toNat_setWidth, BitVec.toNat_setWidth, Nat.mod_eq_of_lt hfits]
    omega
  rw [heq]
  exact h

theorem f64ToF32_spec (m : Mode) (a : BitVec 64) :
    Delivers F32 (F32.format.convert m (F64.format.decode a.toNat))
      ((f64ToF32 a (rmOf m)).1.setWidth 64, (f64ToF32 a (rmOf m)).2) := by
  have ha := @unpack_spec F64 (Or.inr rfl) a
  have hf : F32.Standard := Or.inl rfl
  unfold f64ToF32 Format.convert
  generalize F64.format.decode a.toNat = x at ha ⊢
  generalize unpack F64 a = u at ha ⊢
  cases ha with
  | nan n s => exact delivers_nan hf s
  | inf neg => exact narrow_delivers (delivers_inf hf neg {})
  | zero neg =>
    dsimp only
    rw [if_pos (rfl : (0 : ℝ) = 0)]
    exact narrow_delivers (delivers_zero hf neg)
  | @normal neg k e pos =>
    dsimp only
    rw [if_neg (magnitude_ne_zero pos)]
    exact narrow_delivers (roundMag_word hf m neg e pos)

/-- Widening is exact. -/
theorem f32ToF64_spec {a : BitVec 32} (h : (F32.format.decode a.toNat).isNan = false) :
    Delivers F64 (F32.format.decode a.toNat, {}) (f32ToF64 a) := by
  have ha := @unpack_spec F32 (Or.inl rfl) (a.setWidth 64)
  have hf : F64.Standard := Or.inr rfl
  rw [BitVec.toNat_setWidth_of_le (by decide)] at ha
  unfold f32ToF64
  generalize F32.format.decode a.toNat = x at ha h ⊢
  generalize unpack F32 (a.setWidth 64) = u at ha ⊢
  cases ha with
  | nan n s => exact absurd h.symm Bool.false_ne_true
  | inf neg => exact delivers_inf hf neg {}
  | zero neg => exact delivers_zero hf neg
  | @normal neg k e pos prec lo hi =>
    have hround := roundMag_word hf .nearestEven neg e pos
    have hexact := F64.format.rounded_exact .nearestEven neg (e := e) pos (prec.trans (by decide)) ?_ ?_
    · rw [hexact] at hround
      exact hround
    · rw [emin_format hf]
      exact le_trans (by decide) lo
    · rw [emax_format hf]
      exact le_trans hi (by decide)

/-! ## Round trips -/

/-- A datum of the format converts to itself. -/
theorem convert_self {f : Fmt} (hf : f.Standard) (m : Mode) (a : BitVec 64)
    (h : (f.format.decode a.toNat).isNan = false) :
    f.format.convert m (f.format.decode a.toNat) = (f.format.decode a.toNat, {}) := by
  have ha := unpack_spec hf a
  generalize unpack f a = u at ha
  unfold Format.convert
  generalize f.format.decode a.toNat = x at ha h ⊢
  cases ha with
  | nan n s => exact absurd h.symm Bool.false_ne_true
  | inf neg => rfl
  | zero neg => exact if_pos rfl
  | normal neg pos prec lo hi =>
    rw [← emin_format hf] at lo
    rw [← emax_format hf] at hi
    dsimp only
    rw [if_neg (magnitude_ne_zero pos), f.format.rounded_exact m neg pos prec lo hi]

/-- Widening a single and narrowing it again gives it back. -/
theorem f64ToF32_f32ToF64 (m : Mode) {a : BitVec 32} (h : (F32.format.decode a.toNat).isNan = false) :
    f64ToF32 (f32ToF64 a).1 (rmOf m) = (a, 0) := by
  have hwide := f32ToF64_spec h
  have hnarrow := f64ToF32_spec m (f32ToF64 a).1
  have hself := @convert_self F32 (Or.inl rfl) m (a.setWidth 64)
  rw [BitVec.toNat_setWidth_of_le (by decide)] at hself
  rw [hwide.value, hself h] at hnarrow
  have hid : Delivers F32 (F32.format.decode a.toNat, {}) (a.setWidth 64, 0) := by
    refine ⟨?_, ?_, fun hc => absurd (h.symm.trans hc) Bool.false_ne_true, flagBits_none.symm⟩
    · rw [BitVec.toNat_setWidth_of_le (by decide)]
      exact a.isLt
    · rw [BitVec.toNat_setWidth_of_le (by decide)]
  obtain ⟨hbits, hflags⟩ := Prod.mk.inj (hnarrow.unique (Or.inl rfl) hid)
  refine Prod.ext ?_ hflags
  simpa using congrArg (BitVec.setWidth 32) hbits

/-- An integer of the format's precision converts exactly. -/
theorem ofInt_exact {f : Fmt} (hf : f.Standard) (m : Mode) {n : ℤ} (hn : |n| < 2 ^ (f.mantbits + 1)) :
    f.format.ofInt m n = (.finite (decide (n < 0)) n, {}) := by
  unfold Format.ofInt
  split
  · next h0 =>
    subst h0
    simp
  · next h0 =>
    have habs : |(n : ℝ)| = n.natAbs * 2 ^ (0 : ℤ) := by
      rw [zpow_zero, mul_one, Nat.cast_natAbs, Int.cast_abs]
    have hk : 0 < n.natAbs := Int.natAbs_pos.mpr h0
    have hprec : n.natAbs < 2 ^ (f.format.fracBits + 1) := by
      zify
      exact hn
    have hlo : f.format.emin - f.format.fracBits ≤ 0 := by rcases hf with rfl | rfl <;> decide
    have hhi : 0 ≤ f.format.emax - f.format.fracBits := by rcases hf with rfl | rfl <;> decide
    rw [intCast_signed n, habs, f.format.rounded_exact m _ hk hprec hlo hhi]

/-- A 32-bit integer survives the trip through a double. -/
theorem fpToInt_of_ofInt {isSigned : Bool} (m m' : Mode) {n : ℤ} {r : Res} (hlo : intMin isSigned 32 ≤ n)
    (hhi : n ≤ intMax isSigned 32) (h : Delivers F64 (F64.format.ofInt m n) r) :
    ToInteger isSigned 32 (n, {}) (fpToInt F64 r.1 isSigned 32 (rmOf m')) := by
  have hf : F64.Standard := Or.inr rfl
  have hn : |n| < 2 ^ (F64.mantbits + 1) := by
    have hrange : -2 ^ 53 < intMin isSigned 32 ∧ intMax isSigned 32 < 2 ^ 53 := by cases isSigned <;> decide
    exact abs_lt.mpr ⟨hrange.1.trans_le hlo, hhi.trans_lt hrange.2⟩
  have hint := @fpToInt_spec isSigned 32 (Or.inl rfl) F64 hf m' r.1
  rw [h.value, ofInt_exact hf m hn] at hint
  unfold Datum.toInteger at hint
  dsimp only at hint
  rw [Mode.toInt_intCast, if_neg (not_lt.mpr hlo), if_neg (not_lt.mpr hhi)] at hint
  simpa using hint

end Quanta.Softfloat
