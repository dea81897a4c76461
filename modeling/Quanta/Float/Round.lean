/-
The rounding of `softfloat.c`: `roundpack` and `round_mag` deliver the correctly rounded value, with
the flags the standard signals, of every real their significand and sticky bit approximate.
-/
import Quanta.Float.Words
import Quanta.Lib.Bits
import Quanta.Lib.Ieee

namespace Quanta.Softfloat

open Rounding Ieee

/-! ## The standard's terms -/

def rmOf : Mode → BitVec 3
  | .nearestEven => SF_RNE
  | .towardZero => SF_RTZ
  | .down => SF_RDN
  | .up => SF_RUP
  | .nearestAway => SF_RMM

def flagBits (fl : Flags) : BitVec 32 :=
  (if fl.inexact then SF_NX else 0) ||| (if fl.underflow then SF_UF else 0) ||| (if fl.overflow then SF_OF else 0) |||
    (if fl.divZero then SF_DZ else 0) ||| (if fl.invalid then SF_NV else 0)

def Fmt.format (f : Fmt) : Format := ⟨f.mantbits, f.expbits⟩

/-- The descriptor is one of the two the source has. -/
def Fmt.Standard (f : Fmt) : Prop := f = F32 ∨ f = F64

/-- A result is an encoding of the datum, the canonical one for a NaN, with its flags. -/
structure Delivers (f : Fmt) (d : Datum × Flags) (r : Res) : Prop where
  fits : r.1.toNat < 2 ^ f.width
  value : f.format.decode r.1.toNat = d.1
  canonical : d.1.isNan = true → r.1 = f.qnanBits
  flags : r.2 = flagBits d.2

/-! ## Dropping the round bits -/

/-- What is added for a mode before `2 * h` is divided out. -/
def incOf (h : Nat) : Mode → Nat
  | .nearestEven => h
  | .nearestAway => h
  | .up => 2 * h - 1
  | .down => 0
  | .towardZero => 0

/-- A significand with its round bits dropped. -/
abbrev Fmt.drop (f : Fmt) (m : Mode) (n : Nat) : Nat :=
  m.ofHalves (n / 2 ^ (f.roundBits - 1)) (decide (n % 2 ^ (f.roundBits - 1) ≠ 0))

/-- Adding the increment, dropping the round bits and clearing the last bit on a tie rounds. -/
theorem round_drop {h n : Nat} (hh : 0 < h) (m : Mode) :
    (if m = .nearestEven ∧ n % (2 * h) = h then (n + incOf h m) / (2 * h) / 2 * 2 else (n + incOf h m) / (2 * h)) =
      m.ofHalves (n / h) (decide (n % h ≠ 0)) := by
  have hn : n = h * (n / h) + n % h := (Nat.div_add_mod n h).symm
  have hr : n % h < h := Nat.mod_lt n hh
  have hmod : n % (2 * h) = n % h + h * (n / h % 2) := by rw [Nat.mul_comm, Nat.mod_mul]
  -- adding `k` halves moves the number of halves by `k`
  have hadd : ∀ k r, r < h → (h * (n / h) + r + h * k) / (2 * h) = (n / h + k) / 2 := by
    intro k r hrh
    rw [Nat.mul_comm 2 h, ← Nat.div_div_eq_div_mul, show h * (n / h) + r + h * k = h * (n / h + k) + r by ring,
      Nat.mul_add_div hh, Nat.div_eq_of_lt hrh, Nat.add_zero]
  have hzero : n / (2 * h) = n / h / 2 := by rw [Nat.mul_comm 2 h, Nat.div_div_eq_div_mul]
  have hhalf : (n + h) / (2 * h) = (n / h + 1) / 2 := by
    have := hadd 1 (n % h) hr
    rwa [Nat.mul_one, ← hn] at this
  have hup : (n + (2 * h - 1)) / (2 * h) = if n % h = 0 then (n / h + 1) / 2 else (n / h + 2) / 2 := by
    split
    · next h0 =>
      have := hadd 1 (h - 1) (by omega)
      rw [← this]
      congr 1
      omega
    · next h0 =>
      have := hadd 2 (n % h - 1) (by omega)
      rw [← this]
      congr 1
      omega
  have htie : n % (2 * h) = h ↔ n % h = 0 ∧ n / h % 2 = 1 := by
    rw [hmod]
    rcases Nat.mod_two_eq_zero_or_one (n / h) with hp | hp <;> rw [hp] <;> omega
  cases m with
  | down => simpa [incOf, Mode.ofHalves] using hzero
  | towardZero => simpa [incOf, Mode.ofHalves] using hzero
  | up =>
    simp only [incOf, Mode.ofHalves, reduceCtorEq, false_and, if_false, hup, decide_eq_true_eq]
    split_ifs <;> omega
  | nearestAway =>
    simp only [incOf, Mode.ofHalves, reduceCtorEq, false_and, if_false, hhalf]
    split_ifs <;> omega
  | nearestEven =>
    simp only [incOf, Mode.ofHalves, true_and, hhalf, htie, decide_eq_true_eq]
    split_ifs <;> omega

/-! ## Jamming -/

theorem toNat_srjam64 (x : BitVec 64) (d : Nat) :
    (srjam64 x d).toNat = x.toNat / 2 ^ d ||| (decide (x.toNat % 2 ^ d ≠ 0)).toNat := by
  unfold srjam64
  split
  · next h0 =>
    rw [h0, Nat.pow_zero, Nat.div_one, Nat.mod_one]
    simp
  split
  · next h64 =>
    have hlt : x.toNat < 2 ^ d := Nat.lt_of_lt_of_le x.isLt (Nat.pow_le_pow_right (by decide) h64)
    rw [Nat.div_eq_of_lt hlt, Nat.mod_eq_of_lt hlt, toNat_bit01, ne_zero_iff, Nat.zero_or]
  · next h0 h64 =>
    rw [BitVec.toNat_or, BitVec.toNat_ushiftRight, Nat.shiftRight_eq_div_pow, toNat_bit01, ne_zero_iff,
      toNat_and_lowMask _ (by omega)]

theorem or_toNat_div_two (q : Nat) (s : Bool) : (q ||| s.toNat) / 2 = q / 2 := by
  have hdiv := Nat.or_div_two_pow (a := q) (b := s.toNat) (n := 1)
  have hs : s.toNat / 2 ^ 1 = 0 := by cases s <;> rfl
  rwa [hs, Nat.or_zero] at hdiv

theorem or_toNat_mod_two (q : Nat) (s : Bool) : (q ||| s.toNat) % 2 = if s then 1 else q % 2 := by
  have hmod := Nat.or_mod_two_pow (a := q) (b := s.toNat) (n := 1)
  rw [Nat.pow_one] at hmod
  rw [hmod]
  rcases Nat.mod_two_eq_zero_or_one q with hq | hq <;> rw [hq] <;> cases s <;> rfl

/-- Above its last bit a jammed number is the number, and it has a remainder there if either had one. -/
theorem jam_div_mod (q : Nat) (s : Bool) {h : Nat} (hh : h % 2 = 0) :
    (q ||| s.toNat) / h = q / h ∧ ((q ||| s.toNat) % h ≠ 0 ↔ q % h ≠ 0 ∨ s = true) := by
  obtain ⟨k, rfl⟩ : ∃ k, h = 2 * k := ⟨h / 2, by omega⟩
  have hdiv := or_toNat_div_two q s
  have hmod := or_toNat_mod_two q s
  constructor
  · rw [← Nat.div_div_eq_div_mul, hdiv, Nat.div_div_eq_div_mul]
  · rw [Nat.mod_mul, Nat.mod_mul, hdiv, hmod]
    cases s <;> simp

/-- Shifting right with jamming is dividing: the halves of the result are the halves divided, the rest sticky. -/
theorem srjam64_halves (x : BitVec 64) (d : Nat) {h : Nat} (hpos : 0 < h) (hh : h % 2 = 0) :
    (srjam64 x d).toNat / h = x.toNat / h / 2 ^ d ∧
      decide ((srjam64 x d).toNat % h ≠ 0) = (decide (x.toNat % h ≠ 0) || decide (x.toNat / h % 2 ^ d ≠ 0)) := by
  obtain ⟨hdiv, hmod⟩ := jam_div_mod (x.toNat / 2 ^ d) (decide (x.toNat % 2 ^ d ≠ 0)) hh
  rw [toNat_srjam64]
  constructor
  · rw [hdiv, Nat.div_div_eq_div_mul, Nat.div_div_eq_div_mul, Nat.mul_comm]
  · have hswap : x.toNat % 2 ^ d + 2 ^ d * (x.toNat / 2 ^ d % h) = x.toNat % h + h * (x.toNat / h % 2 ^ d) := by
      rw [← Nat.mod_mul, ← Nat.mod_mul, Nat.mul_comm]
    have hzero : x.toNat % 2 ^ d = 0 ∧ x.toNat / 2 ^ d % h = 0 ↔ x.toNat % h = 0 ∧ x.toNat / h % 2 ^ d = 0 := by
      have hleft := Nat.add_eq_zero_iff (m := 2 ^ d * (x.toNat / 2 ^ d % h)) (n := x.toNat % 2 ^ d)
      rw [hswap, Nat.add_eq_zero_iff, Nat.mul_eq_zero, Nat.mul_eq_zero, or_iff_right hpos.ne',
        or_iff_right (Nat.two_pow_pos d).ne'] at hleft
      exact hleft.symm
    rw [← Bool.decide_or]
    refine decide_eq_decide.mpr (hmod.trans ?_)
    rw [decide_eq_true_eq]
    tauto

section Pack

variable {f : Fmt} (hf : f.Standard)
include hf

theorem toNat_roundInc (m : Mode) (neg : Bool) :
    (roundInc f neg (rmOf m)).toNat = incOf (2 ^ (f.roundBits - 1)) (along m neg) := by
  rcases hf with rfl | rfl <;> cases m <;> cases neg <;> rfl

theorem roundInc_ne_zero (m : Mode) (neg : Bool) : roundInc f neg (rmOf m) ≠ 0 ↔ overflowsToInf m neg = true := by
  rcases hf with rfl | rfl <;> cases m <;> cases neg <;> decide

theorem two_pow_roundBits : 2 ^ f.roundBits = 2 * 2 ^ (f.roundBits - 1) := by
  rcases hf with rfl | rfl <;> rfl

omit hf in
theorem rmOf_eq_rne (m : Mode) (neg : Bool) : rmOf m = SF_RNE ↔ along m neg = .nearestEven := by
  cases m <;> cases neg <;> decide

omit hf in
theorem toNat_clear_last (x : BitVec 64) : (x &&& ~~~1#64).toNat = x.toNat / 2 * 2 := by
  rw [Bits.and_not_low x (m := 1#64) (k := 1) (by decide), BitVec.toNat_shiftLeft, BitVec.toNat_ushiftRight]
  have := x.isLt
  omega

/-- The rounded significand. -/
theorem toNat_rounded {m : Mode} {neg : Bool} {sigp : BitVec 64} (hn : sigp.toNat < 2 ^ (f.mantbits + f.roundBits + 1)) :
    (let sig := (sigp + roundInc f neg (rmOf m)) >>> f.roundBits
      if rmOf m = SF_RNE ∧ sigp &&& lowMask f.roundBits = 1#64 <<< (f.roundBits - 1) then sig &&& ~~~1#64 else sig).toNat =
      f.drop (along m neg) sigp.toNat := by
  have hR : f.roundBits < 64 := by rcases hf with rfl | rfl <;> decide
  have hinc : incOf (2 ^ (f.roundBits - 1)) (along m neg) < 2 ^ f.roundBits := by
    rcases hf with rfl | rfl <;> cases m <;> cases neg <;> decide
  have hfit : sigp.toNat + incOf (2 ^ (f.roundBits - 1)) (along m neg) < 2 ^ 64 := by
    have : 2 ^ (f.mantbits + f.roundBits + 1) + 2 ^ f.roundBits ≤ 2 ^ 64 := by rcases hf with rfl | rfl <;> decide
    omega
  have hsig : ((sigp + roundInc f neg (rmOf m)) >>> f.roundBits).toNat =
      (sigp.toNat + incOf (2 ^ (f.roundBits - 1)) (along m neg)) / (2 * 2 ^ (f.roundBits - 1)) := by
    rw [BitVec.toNat_ushiftRight, BitVec.toNat_add, toNat_roundInc hf, Nat.shiftRight_eq_div_pow,
      Nat.mod_eq_of_lt hfit, two_pow_roundBits hf]
  have htie : sigp &&& lowMask f.roundBits = 1#64 <<< (f.roundBits - 1) ↔
      sigp.toNat % (2 * 2 ^ (f.roundBits - 1)) = 2 ^ (f.roundBits - 1) := by
    have hone : (1#64 <<< (f.roundBits - 1)).toNat = 2 ^ (f.roundBits - 1) := by
      rcases hf with rfl | rfl <;> rfl
    rw [← BitVec.toNat_inj, toNat_and_lowMask _ hR, hone, two_pow_roundBits hf]
  rw [Fmt.drop, ← round_drop (Nat.two_pow_pos _)]
  dsimp only
  simp only [rmOf_eq_rne m neg, htie]
  split
  · rw [toNat_clear_last, hsig]
  · rw [hsig]

/-- The tail of `roundpack` adds the rounded significand to the exponent field, and raises NX for round bits. -/
theorem packRounded_spec {m : Mode} {neg : Bool} {e c : Nat} {sigp : BitVec 64} {fl : BitVec 32}
    (hn : sigp.toNat < 2 ^ (f.mantbits + f.roundBits + 1))
    (hc : c = f.drop (along m neg) sigp.toNat)
    (he : e = 0 ∨ c ≠ 0) (hfit : 2 ^ f.mantbits * e + c < 2 ^ (f.mantbits + f.expbits)) :
    (packRounded f neg e sigp (rmOf m) fl).1.toNat = 2 ^ (f.mantbits + f.expbits) * neg.toNat + (2 ^ f.mantbits * e + c) ∧
      (packRounded f neg e sigp (rmOf m) fl).2 = if sigp.toNat % 2 ^ f.roundBits ≠ 0 then fl ||| SF_NX else fl := by
  have hR : f.roundBits < 64 := by rcases hf with rfl | rfl <;> decide
  have hsig := @toNat_rounded f hf m neg sigp hn
  rw [← hc] at hsig
  unfold packRounded
  dsimp only at hsig ⊢
  generalize (if rmOf m = SF_RNE ∧ sigp &&& lowMask f.roundBits = 1#64 <<< (f.roundBits - 1) then
    (sigp + roundInc f neg (rmOf m)) >>> f.roundBits &&& ~~~1#64
    else (sigp + roundInc f neg (rmOf m)) >>> f.roundBits) = sig at hsig ⊢
  constructor
  · -- a zero significand has a zero field already
    have hexp : (if sig = 0 then (0 : Int) else e) = e := by
      split
      · next h0 =>
        rcases he with rfl | hne
        · rfl
        · exact absurd (by rw [← hsig, h0]; rfl) hne
      · rfl
    have hofInt : (BitVec.ofInt 64 (e : Int)).toNat = e % 2 ^ 64 := by
      rw [BitVec.ofInt_natCast, BitVec.toNat_ofNat]
    rw [hexp, BitVec.toNat_add, BitVec.toNat_add, BitVec.toNat_shiftLeft, BitVec.toNat_shiftLeft, hofInt, toNat_bit01,
      Nat.shiftLeft_eq, Nat.shiftLeft_eq, hsig]
    rcases hf with rfl | rfl <;> cases neg <;>
      simp only [F32, F64, Bool.toNat_true, Bool.toNat_false] at hfit ⊢ <;> omega
  · have hbits : sigp &&& lowMask f.roundBits ≠ 0 ↔ sigp.toNat % 2 ^ f.roundBits ≠ 0 := by
      rw [ne_eq, ← BitVec.toNat_inj, toNat_and_lowMask _ hR]
      rfl
    simp only [hbits]

theorem emax_format : f.format.emax = f.bias := by
  rcases hf with rfl | rfl <;> rfl

theorem emin_format : f.format.emin = 1 - f.bias := by
  unfold Format.emin
  rw [emax_format hf]

/-- The encodings of an infinity and of the largest finite number. -/
theorem decode_makeInf (neg : Bool) : (makeInf f neg).toNat < 2 ^ f.width ∧
    f.format.decode (makeInf f neg).toNat = .inf neg := by
  constructor
  · rcases hf with rfl | rfl <;> cases neg <;> decide
  · have hbit : (makeInf f neg).toNat.testBit (f.mantbits + f.expbits) = neg := by
      rcases hf with rfl | rfl <;> cases neg <;> rfl
    have hexp : (makeInf f neg).toNat / 2 ^ f.mantbits % 2 ^ f.expbits = 2 ^ f.expbits - 1 := by
      rcases hf with rfl | rfl <;> cases neg <;> rfl
    have hfrac : (makeInf f neg).toNat % 2 ^ f.mantbits = 0 := by
      rcases hf with rfl | rfl <;> cases neg <;> rfl
    unfold Format.decode Fmt.format
    simp only [hbit, hexp, hfrac, if_true]

theorem decode_maxFinite (neg : Bool) : (makeInf f neg - 1).toNat < 2 ^ f.width ∧
    f.format.decode (makeInf f neg - 1).toNat = .finite neg (signed neg f.format.maxFinite) := by
  constructor
  · rcases hf with rfl | rfl <;> cases neg <;> decide
  · have hbits : (makeInf f neg - 1).toNat =
        2 ^ (f.mantbits + f.expbits) * neg.toNat + (2 ^ f.mantbits * (2 ^ f.expbits - 3) + (2 ^ (f.mantbits + 1) - 1)) := by
      rcases hf with rfl | rfl <;> cases neg <;> rfl
    have hlt : 2 ^ f.mantbits * (2 ^ f.expbits - 3) + (2 ^ (f.mantbits + 1) - 1) < (2 ^ f.expbits - 1) * 2 ^ f.mantbits := by
      rcases hf with rfl | rfl <;> decide
    have hmag := f.format.magnitude_add (e := 2 ^ f.expbits - 3) (c := 2 ^ (f.mantbits + 1) - 1)
      (Or.inr (by rcases hf with rfl | rfl <;> decide)) (Nat.sub_le _ _)
    rw [hbits]
    refine (f.format.decode_finite neg hlt).trans ?_
    have hexp : ((2 ^ f.expbits - 3 : ℕ) : ℤ) + f.format.emin - f.format.fracBits = f.format.emax - f.format.fracBits := by
      rcases hf with rfl | rfl <;> rfl
    rw [hexp] at hmag
    exact congrArg (fun v => Datum.finite neg (signed neg v)) hmag

omit hf in
/-- A significand rounds up to the next power of two when adding the increment carries that far. -/
theorem carry_iff {h n k : Nat} (hh : 0 < h) (m : Mode) :
    m.ofHalves (n / h) (decide (n % h ≠ 0)) < 2 ^ (k + 1) ↔ n + incOf h m < 2 ^ (k + 1) * (2 * h) := by
  have hdrop := Nat.div_lt_iff_lt_mul (x := n + incOf h m) (y := 2 ^ (k + 1)) (k := 2 * h) (by omega)
  rw [← round_drop hh, ← hdrop]
  rw [Nat.pow_succ]
  split <;> omega

omit hf in
theorem round_bits_iff {h : Nat} (hh : 0 < h) (n : Nat) : n % (2 * h) ≠ 0 ↔ ¬(n / h % 2 = 0 ∧ decide (n % h ≠ 0) = false) := by
  rw [Nat.mul_comm, Nat.mod_mul, decide_eq_false_iff_not]
  rcases Nat.mod_two_eq_zero_or_one (n / h) with hp | hp <;> rw [hp] <;> omega

/-- What `roundpack` is given: a significand with its leading bit in place that stands for the real `t`. -/
structure Significand (f : Fmt) (sigp : BitVec 64) (t : ℝ) : Prop where
  lo : 2 ^ (f.mantbits + f.roundBits) ≤ sigp.toNat
  hi : sigp.toNat < 2 ^ (f.mantbits + f.roundBits + 1)
  approx : Approx (t / (2 ^ (f.roundBits - 1) : ℕ)) (sigp.toNat / 2 ^ (f.roundBits - 1))
    (decide (sigp.toNat % 2 ^ (f.roundBits - 1) ≠ 0))

theorem Significand.bounds {sigp : BitVec 64} {t : ℝ} (h : Significand f sigp t) :
    ((2 ^ (f.mantbits + f.roundBits) : ℕ) : ℝ) ≤ t ∧ t < (2 ^ (f.mantbits + f.roundBits + 1) : ℕ) := by
  have hpos : (0 : ℝ) < (2 ^ (f.roundBits - 1) : ℕ) := Nat.cast_pos.mpr (Nat.two_pow_pos _)
  have hle := h.approx.le
  have hlt := h.approx.lt
  have hsplit : 2 ^ (f.mantbits + f.roundBits) = 2 ^ (f.mantbits + 1) * 2 ^ (f.roundBits - 1) := by
    rcases hf with rfl | rfl <;> rfl
  have hlo : 2 ^ (f.mantbits + 1) ≤ sigp.toNat / 2 ^ (f.roundBits - 1) := by
    rw [Nat.le_div_iff_mul_le (Nat.two_pow_pos _), ← hsplit]
    exact h.lo
  have hhi : sigp.toNat / 2 ^ (f.roundBits - 1) + 1 ≤ 2 * 2 ^ (f.mantbits + 1) := by
    refine Nat.div_lt_of_lt_mul ?_
    calc sigp.toNat < 2 ^ (f.mantbits + f.roundBits + 1) := h.hi
      _ = 2 ^ (f.roundBits - 1) * (2 * 2 ^ (f.mantbits + 1)) := by rw [Nat.pow_succ, hsplit]; ring
  rw [le_div_iff₀ hpos] at hle
  rw [div_lt_iff₀ hpos] at hlt
  constructor
  · rw [hsplit, Nat.cast_mul]
    refine le_trans (mul_le_mul_of_nonneg_right ?_ hpos.le) hle
    exact_mod_cast hlo
  · rw [Nat.pow_succ, hsplit, Nat.cast_mul, Nat.cast_mul]
    refine lt_of_lt_of_le hlt ?_
    have : ((sigp.toNat / 2 ^ (f.roundBits - 1) : ℕ) : ℝ) + 1 ≤ 2 * (2 ^ (f.mantbits + 1) : ℕ) := by exact_mod_cast hhi
    calc _ ≤ 2 * ((2 ^ (f.mantbits + 1) : ℕ) : ℝ) * (2 ^ (f.roundBits - 1) : ℕ) := mul_le_mul_of_nonneg_right this hpos.le
      _ = _ := by push_cast; ring

omit hf in
theorem srjam64_lt (x : BitVec 64) (d : Nat) {k : Nat} (hx : x.toNat < 2 ^ (k + 1)) : (srjam64 x d).toNat < 2 ^ (k + 1) := by
  have hhalf := or_toNat_div_two (x.toNat / 2 ^ d) (decide (x.toNat % 2 ^ d ≠ 0))
  rw [← toNat_srjam64] at hhalf
  have hle : x.toNat / 2 ^ d ≤ x.toNat := Nat.div_le_self _ _
  rw [Nat.pow_succ] at hx ⊢
  omega

theorem ofHalves_le {m : Mode} {n : Nat} (hn : n < 2 ^ (f.mantbits + f.roundBits + 1)) :
    f.drop m n ≤ 2 ^ (f.mantbits + 1) := by
  obtain ⟨-, hle⟩ := m.ofHalves_bounds (n / 2 ^ (f.roundBits - 1)) (decide (n % 2 ^ (f.roundBits - 1) ≠ 0))
  have hsplit : 2 ^ (f.mantbits + f.roundBits + 1) = 2 ^ (f.roundBits - 1) * (2 * 2 ^ (f.mantbits + 1)) := by
    rcases hf with rfl | rfl <;> rfl
  have hdiv : n / 2 ^ (f.roundBits - 1) < 2 * 2 ^ (f.mantbits + 1) := Nat.div_lt_of_lt_mul (by rwa [← hsplit])
  unfold Fmt.drop
  omega

/-- A significand packed into its field, with the flags for what it dropped. -/
theorem delivers_packRounded {m : Mode} {neg : Bool} {e : Nat} {sigp : BitVec 64} {q : ℤ} {tiny : Prop} [Decidable tiny]
    (hn : sigp.toNat < 2 ^ (f.mantbits + f.roundBits + 1))
    (he : e = 0 ∨ 2 ^ f.mantbits ≤ f.drop (along m neg) sigp.toNat)
    (hfit : 2 ^ f.mantbits * e + f.drop (along m neg) sigp.toNat < (2 ^ f.expbits - 1) * 2 ^ f.mantbits)
    (hq : q = e + f.format.emin - f.format.fracBits) :
    Delivers f
      (.finite neg (signed neg (f.drop (along m neg) sigp.toNat * 2 ^ q)),
        { underflow := decide (¬(sigp.toNat / 2 ^ (f.roundBits - 1) % 2 = 0 ∧
            decide (sigp.toNat % 2 ^ (f.roundBits - 1) ≠ 0) = false)) && decide tiny
          inexact := decide (¬(sigp.toNat / 2 ^ (f.roundBits - 1) % 2 = 0 ∧
            decide (sigp.toNat % 2 ^ (f.roundBits - 1) ≠ 0) = false)) })
      (packRounded f neg e sigp (rmOf m) (if tiny ∧ sigp &&& lowMask f.roundBits ≠ 0 then SF_UF else 0)) := by
  have hle := @ofHalves_le f hf (along m neg) sigp.toNat hn
  have hR : f.roundBits < 64 := by rcases hf with rfl | rfl <;> decide
  have hpos : 0 < 2 ^ f.mantbits := Nat.two_pow_pos _
  have hfield : 2 ^ f.mantbits * e + f.drop (along m neg) sigp.toNat < 2 ^ (f.mantbits + f.expbits) := by
    rw [Nat.pow_add, Nat.mul_comm (2 ^ f.mantbits) (2 ^ f.expbits)]
    exact Nat.lt_of_lt_of_le hfit (Nat.mul_le_mul_right _ (Nat.sub_le _ _))
  obtain ⟨hbits, hflags⟩ := @packRounded_spec f hf m neg e _ sigp
    (if tiny ∧ sigp &&& lowMask f.roundBits ≠ 0 then SF_UF else 0) hn rfl (he.imp_right fun h => by omega) hfield
  have hwidth : 2 ^ f.width = 2 ^ (f.mantbits + f.expbits) * 2 := by rcases hf with rfl | rfl <;> rfl
  refine ⟨?_, ?_, nofun, ?_⟩
  · rw [hbits, hwidth]
    cases neg <;> simp only [Bool.toNat_true, Bool.toNat_false] <;> omega
  · rw [hbits]
    refine (f.format.decode_finite neg hfit).trans ?_
    rw [hq]
    exact congrArg (fun v => Datum.finite neg (signed neg v)) (f.format.magnitude_add he hle)
  · have hbit : sigp &&& lowMask f.roundBits ≠ 0 ↔ sigp.toNat % 2 ^ f.roundBits ≠ 0 := by
      rw [ne_eq, ← BitVec.toNat_inj, toNat_and_lowMask _ hR]
      rfl
    rw [hflags]
    simp only [← round_bits_iff (Nat.two_pow_pos _), ← two_pow_roundBits hf, hbit]
    by_cases hr : sigp.toNat % 2 ^ f.roundBits = 0 <;> by_cases ht : tiny <;> simp [hr, ht, flagBits, SF_NX, SF_UF]

omit hf in
/-- The halves of a scaled number are those of its significand. -/
theorem two_mul_scaled (t : ℝ) {e e' : ℤ} {k : ℕ} (h : e' = e + 1 + k) : 2 * (t * 2 ^ e / 2 ^ e') = t / (2 ^ k : ℕ) := by
  have hpow : (2 : ℝ) ^ e' = 2 ^ e * 2 * (2 ^ k : ℕ) := by
    rw [h, zpow_add₀ two_ne_zero, zpow_add₀ two_ne_zero, zpow_one, zpow_natCast]
    push_cast
    ring
  have he : (2 : ℝ) ^ e ≠ 0 := (zpow_pos two_pos e).ne'
  have hk : ((2 ^ k : ℕ) : ℝ) ≠ 0 := (Nat.cast_pos.mpr (Nat.two_pow_pos k)).ne'
  rw [hpow]
  field_simp

section Roundpack

variable {m : Mode} {neg : Bool} {exp : ℤ} {sigp : BitVec 64} {t : ℝ} (hs : Significand f sigp t)
include hs

/-- The binade of the number. -/
theorem binade : (2 : ℝ) ^ (exp + 1 - f.bias) ≤ t * 2 ^ (exp + 1 - f.bias - (f.mantbits + f.roundBits)) ∧
    t * 2 ^ (exp + 1 - f.bias - (f.mantbits + f.roundBits)) < 2 ^ (exp + 1 - f.bias + 1) := by
  obtain ⟨hlo, hhi⟩ := hs.bounds hf
  have hpow : (0 : ℝ) < 2 ^ (exp + 1 - f.bias - (f.mantbits + f.roundBits)) := zpow_pos two_pos _
  constructor
  · refine le_of_eq_of_le ?_ (mul_le_mul_of_nonneg_right hlo hpow.le)
    rw [two_pow_mul_zpow]
    congr 1
    push_cast
    ring
  · refine lt_of_lt_of_eq (mul_lt_mul_of_pos_right hhi hpow) ?_
    rw [two_pow_mul_zpow]
    congr 1
    push_cast
    ring

/-- Its halves at the precision of the format. -/
theorem halves : Approx
    (2 * (t * 2 ^ (exp + 1 - f.bias - (f.mantbits + f.roundBits)) / 2 ^ (exp + 1 - f.bias - f.format.fracBits)))
    (sigp.toNat / 2 ^ (f.roundBits - 1)) (decide (sigp.toNat % 2 ^ (f.roundBits - 1) ≠ 0)) := by
  have hR : (f.roundBits : ℤ) = 1 + (f.roundBits - 1 : ℕ) := by rcases hf with rfl | rfl <;> rfl
  rw [two_mul_scaled t (k := f.roundBits - 1) (by rw [hR]; show _ - (f.mantbits : ℤ) = _; ring)]
  exact hs.approx

/-- Its halves at the last place of a subnormal, when it is below the normal range. -/
theorem halves_subnormal (hexp : exp < 0) : Approx
    (2 * (t * 2 ^ (exp + 1 - f.bias - (f.mantbits + f.roundBits)) / 2 ^ (f.format.emin - f.format.fracBits)))
    ((srjam64 sigp (-exp).toNat).toNat / 2 ^ (f.roundBits - 1))
    (decide ((srjam64 sigp (-exp).toNat).toNat % 2 ^ (f.roundBits - 1) ≠ 0)) := by
  obtain ⟨hdiv, hmod⟩ := srjam64_halves sigp (-exp).toNat (h := 2 ^ (f.roundBits - 1)) (Nat.two_pow_pos _)
    (by rcases hf with rfl | rfl <;> rfl)
  have hR : (f.roundBits : ℤ) = 1 + (f.roundBits - 1 : ℕ) := by rcases hf with rfl | rfl <;> rfl
  have hshift := hs.approx.div (d := 2 ^ (-exp).toNat) (Nat.two_pow_pos _)
  rw [hdiv, hmod]
  rw [two_mul_scaled t (k := f.roundBits - 1 + (-exp).toNat)]
  · rw [Nat.pow_add, Nat.cast_mul, ← div_div]
    exact hshift
  · rw [emin_format hf, hR]
    show _ - (f.mantbits : ℤ) = _
    push_cast
    omega

theorem ult_overflowBit : (sigp + roundInc f neg (rmOf m)).ult f.overflowBit = true ↔
    f.drop (along m neg) sigp.toNat <
      2 ^ (f.mantbits + 1) := by
  have hinc : incOf (2 ^ (f.roundBits - 1)) (along m neg) < 2 ^ f.roundBits := by
    rcases hf with rfl | rfl <;> cases m <;> cases neg <;> decide
  have hfit : 2 ^ (f.mantbits + f.roundBits + 1) + 2 ^ f.roundBits ≤ 2 ^ 64 := by rcases hf with rfl | rfl <;> decide
  have hbit : f.overflowBit.toNat = 2 ^ (f.mantbits + 1) * (2 * 2 ^ (f.roundBits - 1)) := by
    rcases hf with rfl | rfl <;> rfl
  have hhi := hs.hi
  rw [Fmt.drop, carry_iff (Nat.two_pow_pos _), BitVec.ult_iff_toNat_lt, BitVec.toNat_add, toNat_roundInc hf, hbit,
    Nat.mod_eq_of_lt (by omega)]

/-- The number is below the normal range: the significand is shifted down to the subnormals' last place. -/
theorem roundpack_subnormal (hexp : exp < 0) :
    Delivers f (f.format.rounded m (signed neg (t * 2 ^ (exp + 1 - f.bias - (f.mantbits + f.roundBits)))))
      (roundpack f neg exp sigp (rmOf m)) := by
  have hbias : 1 ≤ f.bias := by rcases hf with rfl | rfl <;> decide
  have hmax : max (exp + 1 - f.bias) f.format.emin = f.format.emin := by
    rw [emin_format hf]
    exact max_eq_right (by omega)
  obtain ⟨hlo, hhi⟩ := @binade f hf exp sigp t hs
  have hspec := f.format.rounded_of_halves m neg hlo hhi (halves hf hs) (by rw [hmax]; exact halves_subnormal hf hs hexp)
  rw [if_neg (by rw [emax_format hf]; omega), hmax] at hspec
  have htiny : (exp < -1 ∨ (sigp + roundInc f neg (rmOf m)).ult f.overflowBit = true) ↔
      exp + 1 - f.bias < f.format.emin - 1 ∨
        exp + 1 - f.bias = f.format.emin - 1 ∧ f.drop (along m neg) sigp.toNat < 2 ^ (f.mantbits + 1) := by
    rw [ult_overflowBit hf hs, emin_format hf]
    omega
  have hcode : roundpack f neg exp sigp (rmOf m) = packRounded f neg (0 : Nat) (srjam64 sigp (-exp).toNat) (rmOf m)
      (if (exp < -1 ∨ (sigp + roundInc f neg (rmOf m)).ult f.overflowBit = true) ∧
        srjam64 sigp (-exp).toNat &&& lowMask f.roundBits ≠ 0 then SF_UF else 0) := if_pos hexp
  rw [hspec, hcode]
  simp only [htiny]
  have hsig := srjam64_lt sigp (-exp).toNat hs.hi
  refine delivers_packRounded hf hsig (Or.inl rfl) ?_ (by push_cast; ring)
  refine Nat.lt_of_le_of_lt (Nat.add_le_add_left (ofHalves_le hf hsig) _) ?_
  rcases hf with rfl | rfl <;> decide

theorem drop_ge : 2 ^ f.mantbits ≤ f.drop (along m neg) sigp.toNat := by
  obtain ⟨hle, -⟩ := (along m neg).ofHalves_bounds (sigp.toNat / 2 ^ (f.roundBits - 1))
    (decide (sigp.toNat % 2 ^ (f.roundBits - 1) ≠ 0))
  have hsplit : 2 ^ (f.mantbits + f.roundBits) = 2 * 2 ^ f.mantbits * 2 ^ (f.roundBits - 1) := by
    rcases hf with rfl | rfl <;> rfl
  have hdiv : 2 * 2 ^ f.mantbits ≤ sigp.toNat / 2 ^ (f.roundBits - 1) := by
    rw [Nat.le_div_iff_mul_le (Nat.two_pow_pos _), ← hsplit]
    exact hs.lo
  unfold Fmt.drop
  omega

omit hs in
theorem infExp_eq : (f.expOnes.toNat : ℤ) = 2 * f.bias + 1 ∧ ((2 ^ f.expbits : ℕ) : ℤ) = 2 * f.bias + 2 := by
  rcases hf with rfl | rfl <;> exact ⟨by decide, by decide⟩

/-- The exponent is too large, or a carry makes it so: an infinity or the largest finite number. -/
theorem roundpack_overflow (hexp : 0 ≤ exp) (hov : (f.expOnes.toNat : ℤ) - 2 ≤ exp ∧
      ((f.expOnes.toNat : ℤ) - 2 < exp ∨ f.overflowBit.ule (sigp + roundInc f neg (rmOf m)) = true)) :
    Delivers f (f.format.rounded m (signed neg (t * 2 ^ (exp + 1 - f.bias - (f.mantbits + f.roundBits)))))
      (roundpack f neg exp sigp (rmOf m)) := by
  have hbias : 1 ≤ f.bias := by rcases hf with rfl | rfl <;> decide
  have hmax : max (exp + 1 - f.bias) f.format.emin = exp + 1 - f.bias := by
    rw [emin_format hf]
    exact max_eq_left (by omega)
  obtain ⟨hlo, hhi⟩ := @binade f hf exp sigp t hs
  have hspec := f.format.rounded_of_halves m neg hlo hhi (halves hf hs) (by rw [hmax]; exact halves hf hs)
  have hcarry : f.overflowBit.ule (sigp + roundInc f neg (rmOf m)) = true ↔
      f.drop (along m neg) sigp.toNat = 2 ^ (f.mantbits + 1) := by
    have hult := @ult_overflowBit f hf m neg sigp t hs
    have hle := @ofHalves_le f hf (along m neg) sigp.toNat hs.hi
    rw [BitVec.ult_iff_toNat_lt] at hult
    rw [BitVec.ule_iff_toNat_le]
    omega
  have hcode : roundpack f neg exp sigp (rmOf m) =
      (if roundInc f neg (rmOf m) ≠ 0 then makeInf f neg else makeInf f neg - 1, SF_OF ||| SF_NX) :=
    (if_neg (not_lt.mpr hexp)).trans (if_pos hov)
  obtain ⟨hinf, -⟩ := infExp_eq hf
  rw [hcarry] at hov
  rw [if_pos (by rw [emax_format hf]; show _ ∨ _ ∧ f.drop (along m neg) sigp.toNat = 2 ^ (f.mantbits + 1); omega)] at hspec
  have hflags : SF_OF ||| SF_NX = flagBits { overflow := true, inexact := true } := by decide
  rw [hspec, hcode]
  simp only [roundInc_ne_zero hf]
  cases overflowsToInf m neg with
  | true =>
    obtain ⟨hfit, hdec⟩ := decode_makeInf hf neg
    exact ⟨hfit, hdec, nofun, hflags⟩
  | false =>
    obtain ⟨hfit, hdec⟩ := decode_maxFinite hf neg
    exact ⟨hfit, hdec, nofun, hflags⟩

/-- The number is in the normal range and stays there. -/
theorem roundpack_normal (hexp : 0 ≤ exp) (hov : ¬((f.expOnes.toNat : ℤ) - 2 ≤ exp ∧
      ((f.expOnes.toNat : ℤ) - 2 < exp ∨ f.overflowBit.ule (sigp + roundInc f neg (rmOf m)) = true))) :
    Delivers f (f.format.rounded m (signed neg (t * 2 ^ (exp + 1 - f.bias - (f.mantbits + f.roundBits)))))
      (roundpack f neg exp sigp (rmOf m)) := by
  have hbias : 1 ≤ f.bias := by rcases hf with rfl | rfl <;> decide
  have hmax : max (exp + 1 - f.bias) f.format.emin = exp + 1 - f.bias := by
    rw [emin_format hf]
    exact max_eq_left (by omega)
  obtain ⟨hlo, hhi⟩ := @binade f hf exp sigp t hs
  have hspec := f.format.rounded_of_halves m neg hlo hhi (halves hf hs) (by rw [hmax]; exact halves hf hs)
  have hult := @ult_overflowBit f hf m neg sigp t hs
  have hle := @ofHalves_le f hf (along m neg) sigp.toNat hs.hi
  have hge := @drop_ge f hf m neg sigp t hs
  obtain ⟨hinf, hones⟩ := infExp_eq hf
  obtain ⟨e, rfl⟩ := Int.eq_ofNat_of_zero_le hexp
  have hcode : roundpack f neg e sigp (rmOf m) = packRounded f neg e sigp (rmOf m) 0 := by
    unfold roundpack
    dsimp only
    rw [if_neg (not_lt.mpr hexp), if_neg hov]
  rw [BitVec.ult_iff_toNat_lt] at hult
  rw [BitVec.ule_iff_toNat_le] at hov
  rw [if_neg (by rw [emax_format hf]; show ¬(_ ∨ _ ∧ f.drop (along m neg) sigp.toNat = 2 ^ (f.mantbits + 1)); omega),
    hmax] at hspec
  have hnot : ¬((e : ℤ) + 1 - f.bias < f.format.emin - 1 ∨
      (e : ℤ) + 1 - f.bias = f.format.emin - 1 ∧ f.drop (along m neg) sigp.toNat < 2 ^ (f.mantbits + 1)) := by
    rw [emin_format hf]
    omega
  have hfit : 2 ^ f.mantbits * e + f.drop (along m neg) sigp.toNat < (2 ^ f.expbits - 1) * 2 ^ f.mantbits := by
    have hpos : 0 < 2 ^ f.mantbits := Nat.two_pow_pos _
    rw [Nat.pow_succ] at hle hult
    rcases Nat.lt_or_ge (e + 2) (2 ^ f.expbits - 1) with hlt | hlast
    · calc 2 ^ f.mantbits * e + f.drop (along m neg) sigp.toNat < 2 ^ f.mantbits * e + 2 ^ f.mantbits * 3 := by omega
        _ = (e + 3) * 2 ^ f.mantbits := by ring
        _ ≤ (2 ^ f.expbits - 1) * 2 ^ f.mantbits := Nat.mul_le_mul_right _ hlt
    · -- at the largest exponent the carry has been excluded
      have hc : f.drop (along m neg) sigp.toNat < 2 ^ f.mantbits * 2 := by omega
      calc 2 ^ f.mantbits * e + f.drop (along m neg) sigp.toNat < 2 ^ f.mantbits * e + 2 ^ f.mantbits * 2 := by omega
        _ = (e + 2) * 2 ^ f.mantbits := by ring
        _ ≤ (2 ^ f.expbits - 1) * 2 ^ f.mantbits := Nat.mul_le_mul_right _ (by omega)
  have hpack := @delivers_packRounded f hf m neg e sigp (e + 1 - f.bias - f.format.fracBits)
    ((e : ℤ) + 1 - f.bias < f.format.emin - 1 ∨
      (e : ℤ) + 1 - f.bias = f.format.emin - 1 ∧ f.drop (along m neg) sigp.toNat < 2 ^ (f.mantbits + 1)) _
    hs.hi (Or.inr hge) hfit (by rw [emin_format hf]; ring)
  rw [if_neg fun h => hnot h.1] at hpack
  rw [hspec, hcode]
  exact hpack

/-- `roundpack` rounds correctly. -/
theorem roundpack_spec {x : ℝ} (hx : x = t * 2 ^ (exp + 1 - f.bias - (f.mantbits + f.roundBits))) :
    Delivers f (f.format.rounded m (signed neg x)) (roundpack f neg exp sigp (rmOf m)) := by
  rw [hx]
  by_cases hexp : exp < 0
  · exact roundpack_subnormal hf hs hexp
  · by_cases hov : (f.expOnes.toNat : ℤ) - 2 ≤ exp ∧
        ((f.expOnes.toNat : ℤ) - 2 < exp ∨ f.overflowBit.ule (sigp + roundInc f neg (rmOf m)) = true)
    · exact roundpack_overflow hf hs (not_lt.mp hexp) hov
    · exact roundpack_normal hf hs (not_lt.mp hexp) hov

end Roundpack

/-! ## Normalising -/

omit hf in
/-- Jamming the last bit does not leave the binade. -/
theorem or_toNat_binade {q k : Nat} (s : Bool) (hlo : 2 ^ k ≤ q) (hhi : q < 2 ^ (k + 1)) (hk : k ≠ 0) :
    2 ^ k ≤ (q ||| s.toNat) ∧ (q ||| s.toNat) < 2 ^ (k + 1) := by
  have hhalf := or_toNat_div_two q s
  obtain ⟨j, rfl⟩ := Nat.exists_eq_succ_of_ne_zero hk
  rw [Nat.pow_succ] at hlo hhi ⊢
  omega

/-- A word in its binade, jammed, is a significand of what it approximates above the last round bits. -/
theorem significand_jam {q : BitVec 64} {t : ℝ} {s : Bool} (hlo : 2 ^ (f.mantbits + f.roundBits) ≤ q.toNat)
    (hhi : q.toNat < 2 ^ (f.mantbits + f.roundBits + 1))
    (happ : Approx (t / (2 ^ (f.roundBits - 1) : ℕ)) (q.toNat / 2 ^ (f.roundBits - 1))
      (s || decide (q.toNat % 2 ^ (f.roundBits - 1) ≠ 0))) :
    Significand f (q ||| bit01 s) t := by
  have hword : (q ||| bit01 s).toNat = q.toNat ||| s.toNat := by rw [BitVec.toNat_or, toNat_bit01]
  have hne : f.mantbits + f.roundBits ≠ 0 := by rcases hf with rfl | rfl <;> decide
  have heven : 2 ^ (f.roundBits - 1) % 2 = 0 := by rcases hf with rfl | rfl <;> decide
  obtain ⟨hjlo, hjhi⟩ := or_toNat_binade s hlo hhi hne
  obtain ⟨hdiv, hmod⟩ := jam_div_mod q.toNat s heven
  refine ⟨hword ▸ hjlo, hword ▸ hjhi, ?_⟩
  rw [hword, hdiv, decide_eq_decide.mpr hmod, Bool.decide_or, Bool.decide_eq_true, Bool.or_comm]
  exact happ

section Normalise

variable {mant : U128} {y : ℝ} {s : Bool} (hy : Approx y mant.toNat s)
include hy

/-- The significand of a number with more digits than fit. -/
theorem significand_shr {d : Nat} (hlo : 2 ^ (f.mantbits + f.roundBits + d) ≤ mant.toNat)
    (hhi : mant.toNat < 2 ^ (f.mantbits + f.roundBits + d + 1)) :
    Significand f ((shr128Jam mant d).1.lo ||| bit01 ((shr128Jam mant d).2 || s)) (y / (2 ^ d : ℕ)) := by
  obtain ⟨hr, hlost⟩ := shr128Jam_spec mant d
  have hlead : 2 ^ (f.mantbits + f.roundBits + 1) ≤ 2 ^ 64 := by rcases hf with rfl | rfl <;> decide
  have hpos : 0 < 2 ^ d := Nat.two_pow_pos d
  have hdlo : 2 ^ (f.mantbits + f.roundBits) ≤ mant.toNat / 2 ^ d := by
    rwa [Nat.le_div_iff_mul_le hpos, ← Nat.pow_add]
  have hdhi : mant.toNat / 2 ^ d < 2 ^ (f.mantbits + f.roundBits + 1) := by
    rwa [Nat.div_lt_iff_lt_mul hpos, ← Nat.pow_add, Nat.add_right_comm]
  have hlow : (shr128Jam mant d).1.lo.toNat = mant.toNat / 2 ^ d := by
    rw [← hr, ← U128.toNat_mod, hr, Nat.mod_eq_of_lt (Nat.lt_of_lt_of_le hdhi hlead)]
  refine significand_jam hf (hlow ▸ hdlo) (hlow ▸ hdhi) ?_
  have happ := (hy.div hpos).div (Nat.two_pow_pos (f.roundBits - 1))
  rw [hlow, hlost, Bool.or_comm _ s]
  exact happ

/-- The significand of a number with fewer digits; an inexact one has at least the digits of the format and one more. -/
theorem significand_shl {d : Nat} (hlo : 2 ^ (f.mantbits + f.roundBits) ≤ mant.toNat * 2 ^ d)
    (hhi : mant.toNat * 2 ^ d < 2 ^ (f.mantbits + f.roundBits + 1)) (hs : s = true → d ≤ f.roundBits - 1) :
    Significand f ((shl128 mant d).lo ||| bit01 s) (y * (2 ^ d : ℕ)) := by
  have hlead : 2 ^ (f.mantbits + f.roundBits + 1) ≤ 2 ^ 64 := by rcases hf with rfl | rfl <;> decide
  have hpos : 0 < mant.toNat := by
    by_contra hzero
    rw [Nat.eq_zero_of_not_pos hzero, Nat.zero_mul] at hlo
    exact absurd hlo (Nat.not_le.mpr (Nat.two_pow_pos _))
  have hd : d < 64 := by
    have hlt : 2 ^ d < 2 ^ 64 := calc
      2 ^ d ≤ mant.toNat * 2 ^ d := Nat.le_mul_of_pos_left _ hpos
      _ < 2 ^ (f.mantbits + f.roundBits + 1) := hhi
      _ ≤ 2 ^ 64 := hlead
    exact (Nat.pow_lt_pow_iff_right (a := 2) (by decide)).mp hlt
  have hlow : (shl128 mant d).lo.toNat = mant.toNat * 2 ^ d := by
    have hlt := Nat.lt_of_lt_of_le hhi hlead
    rw [← U128.toNat_mod, toNat_shl128 mant (by omega)]
    omega
  refine significand_jam hf (hlow ▸ hlo) (hlow ▸ hhi) ?_
  rw [hlow]
  cases s with
  | false =>
    rw [hy.eq_of_not]
    have happ := (Approx.natCast (mant.toNat * 2 ^ d)).div (Nat.two_pow_pos (f.roundBits - 1))
    rwa [Nat.cast_mul] at happ
  | true =>
    -- what the shift brings in stays below the last round bits
    have hsplit : 2 ^ (f.roundBits - 1) = 2 ^ (f.roundBits - 1 - d) * 2 ^ d := by
      rw [← Nat.pow_add, Nat.sub_add_cancel (hs rfl)]
    have happ := hy.div (Nat.two_pow_pos (f.roundBits - 1 - d))
    have hdr : ((2 ^ d : ℕ) : ℝ) ≠ 0 := Nat.cast_ne_zero.mpr (Nat.two_pow_pos d).ne'
    rw [Bool.true_or] at happ ⊢
    rwa [hsplit, Nat.cast_mul, mul_div_mul_right _ _ hdr, Nat.mul_div_mul_right _ _ (Nat.two_pow_pos d)]

/-- `round_mag` rounds correctly. -/
theorem roundMag_spec (m : Mode) (neg : Bool) {x : ℝ} {exp2 : ℤ} (hx : x = y * 2 ^ exp2) (h0 : mant.toNat ≠ 0)
    (hs : s = true → 2 ^ (f.mantbits + 1) ≤ mant.toNat) :
    Delivers f (f.format.rounded m (signed neg x)) (roundMag f neg mant exp2 s (rmOf m)) := by
  obtain ⟨k, hk, -, hklo, hkhi⟩ := msb128_spec h0
  have hlead : (if f.width = 32 then 30 else 62 : ℤ) = (f.mantbits + f.roundBits : ℕ) := by
    rcases hf with rfl | rfl <;> rfl
  have hnz : is0128 mant = false := by rw [is0128_iff, decide_eq_false h0]
  have hcode : roundMag f neg mant exp2 s (rmOf m) =
      roundpack f neg (exp2 + k + f.bias - 1)
        (if (0 : ℤ) ≤ (f.mantbits + f.roundBits : ℕ) - (k : ℤ) then
          (shl128 mant ((f.mantbits + f.roundBits : ℕ) - (k : ℤ))).lo ||| bit01 s
        else
          (shr128Jam mant (-((f.mantbits + f.roundBits : ℕ) - (k : ℤ)))).1.lo |||
            bit01 ((shr128Jam mant (-((f.mantbits + f.roundBits : ℕ) - (k : ℤ)))).2 || s)) (rmOf m) := by
    unfold roundMag
    rw [hnz, hk, hlead]
    rfl
  rw [hcode]
  rcases Nat.lt_or_ge (f.mantbits + f.roundBits) k with hlt | hle
  · obtain ⟨d, hd⟩ := Nat.exists_eq_add_of_lt hlt
    have hshift : -(((f.mantbits + f.roundBits : ℕ) : ℤ) - k) = (d + 1 : ℕ) := by omega
    rw [if_neg (by omega), hshift]
    refine roundpack_spec hf (significand_shr hf hy (d := d + 1) ?_ ?_) ?_
    · rwa [← Nat.add_assoc, ← hd]
    · rwa [← Nat.add_assoc, ← hd]
    · have hpow : ((2 ^ (d + 1) : ℕ) : ℝ) ≠ 0 := Nat.cast_ne_zero.mpr (Nat.two_pow_pos _).ne'
      rw [hx, div_mul_eq_mul_div, eq_div_iff hpow, mul_assoc, mul_comm _ ((2 ^ (d + 1) : ℕ) : ℝ), two_pow_mul_zpow]
      congr 2
      push_cast at hshift ⊢
      omega
  · obtain ⟨d, hd⟩ := Nat.exists_eq_add_of_le hle
    have hshift : ((f.mantbits + f.roundBits : ℕ) : ℤ) - k = d := by omega
    rw [hshift, if_pos (Int.natCast_nonneg d)]
    refine roundpack_spec hf (significand_shl hf hy (d := d) ?_ ?_ ?_) ?_
    · rw [hd, Nat.pow_add]
      exact Nat.mul_le_mul_right _ hklo
    · rw [hd, Nat.add_right_comm, Nat.pow_add]
      exact Nat.mul_lt_mul_of_pos_right hkhi (Nat.two_pow_pos d)
    · intro hst
      have hmk : f.mantbits + 1 < k + 1 :=
        (Nat.pow_lt_pow_iff_right (a := 2) (by decide)).mp (Nat.lt_of_le_of_lt (hs hst) hkhi)
      omega
    · rw [hx, mul_assoc, two_pow_mul_zpow]
      congr 2
      push_cast at hshift
      omega

end Normalise

end Pack

end Quanta.Softfloat
