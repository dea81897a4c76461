/-
Binary floating point after IEEE 754: interchange formats, the data their encodings stand for,
rounding of an exact real to a format with the exceptions it signals (tininess after rounding), and
the operations as the standard specifies them. Every NaN result is quiet.
-/
import Mathlib.Analysis.Real.Sqrt
import Quanta.Lib.Rounding

namespace Quanta.Ieee

open Rounding

variable (neg : Bool)

/-! ## Data -/

/-- `v` carries the sign of a nonzero finite datum; `neg` is also the sign of a zero. -/
inductive Datum
  | nan (signaling : Bool)
  | inf (neg : Bool)
  | finite (neg : Bool) (v : ℝ)

structure Flags where
  invalid : Bool := false
  divZero : Bool := false
  overflow : Bool := false
  underflow : Bool := false
  inexact : Bool := false
  deriving DecidableEq

/-- A magnitude with a sign. -/
def signed (neg : Bool) (v : ℝ) : ℝ := if neg then -v else v

/-- The default result of an invalid operation. -/
def invalidOp : Datum × Flags := (.nan false, { invalid := true })

def Datum.signaling : Datum → Bool
  | .nan s => s
  | _ => false

def Datum.isNan : Datum → Bool
  | .nan _ => true
  | _ => false

/-- The datum with its sign flipped if asked. -/
def Datum.negIf (flip : Bool) : Datum → Datum
  | .nan s => .nan s
  | .inf neg => .inf (neg ^^ flip)
  | .finite neg v => .finite (neg ^^ flip) (signed flip v)

theorem Datum.negIf_false (d : Datum) : d.negIf false = d := by
  cases d <;> simp [negIf, signed]

/-! ## Formats -/

/-- A binary interchange format, by the widths of its fraction and exponent fields. -/
structure Format where
  fracBits : ℕ
  expBits : ℕ

namespace Format

variable (F : Format)

def emax : ℤ := 2 ^ (F.expBits - 1) - 1

def emin : ℤ := 1 - F.emax

/-- The magnitude of a finite encoding by its exponent and fraction fields. -/
noncomputable def magnitude (e k : ℕ) : ℝ :=
  if e = 0 then k * 2 ^ (F.emin - F.fracBits) else (2 ^ F.fracBits + k : ℕ) * 2 ^ (e - F.emax - F.fracBits)

/-- What an encoding stands for. -/
noncomputable def decode (bits : ℕ) : Datum :=
  let neg := bits.testBit (F.fracBits + F.expBits)
  let e := bits / 2 ^ F.fracBits % 2 ^ F.expBits
  let k := bits % 2 ^ F.fracBits
  if e = 2 ^ F.expBits - 1 then if k = 0 then .inf neg else .nan (decide (k < 2 ^ (F.fracBits - 1)))
  else .finite neg (signed neg (F.magnitude e k))

noncomputable def maxFinite : ℝ := (2 ^ (F.fracBits + 1) - 1 : ℕ) * 2 ^ (F.emax - F.fracBits)

end Format

/-! ## Rounding -/

/-- Rounding to a multiple of `2 ^ e`. -/
noncomputable def roundAt (m : Mode) (e : ℤ) (x : ℝ) : ℝ := m.toInt (x / 2 ^ e) * 2 ^ e

/-- Whether an overflow delivers an infinity, and not the largest finite number. -/
def overflowsToInf : Mode → Bool → Bool
  | .nearestEven, _ => true
  | .nearestAway, _ => true
  | .towardZero, _ => false
  | .down, neg => neg
  | .up, neg => !neg

namespace Format

variable (F : Format)

/-- The exponent of the last place of a number of the size of `x`. -/
noncomputable def lastPlace (x : ℝ) : ℤ := max (Int.log 2 |x|) F.emin - F.fracBits

/-- Rounding to the format, were there no largest exponent. -/
noncomputable def round (m : Mode) (x : ℝ) : ℝ := roundAt m (F.lastPlace x) x

/-- Rounding to the precision of the format, were the exponent range unbounded. -/
noncomputable def roundUnbounded (m : Mode) (x : ℝ) : ℝ := roundAt m (Int.log 2 |x| - F.fracBits) x

open Classical in
/-- A nonzero exact result, rounded, with the exceptions signaled. -/
noncomputable def rounded (m : Mode) (x : ℝ) : Datum × Flags :=
  let neg := decide (x < 0)
  if F.maxFinite < |F.roundUnbounded m x| then
    (if overflowsToInf m neg then .inf neg else .finite neg (signed neg F.maxFinite), { overflow := true, inexact := true })
  else
    let inexact := decide (F.round m x ≠ x)
    (.finite neg (F.round m x), { underflow := inexact && decide (|F.roundUnbounded m x| < 2 ^ F.emin), inexact })

end Format

/-! ## Operations -/

namespace Format

variable (F : Format) (m : Mode)

/-- The sign of an exact zero sum of operands with signs `s` and `t`. -/
def zeroSumSign (s t : Bool) : Bool := if s = t then s else decide (m = .down)

open Classical in
/-- An exact sum of finite operands. -/
noncomputable def sum (s : Bool) (v : ℝ) (t : Bool) (w : ℝ) : Datum × Flags :=
  if v + w = 0 then (.finite (zeroSumSign m s t) 0, {}) else F.rounded m (v + w)

noncomputable def add (x y : Datum) : Datum × Flags :=
  match x, y with
  | .finite s v, .finite t w => F.sum m s v t w
  | .inf s, .inf t => if s = t then (.inf s, {}) else invalidOp
  | .inf s, .finite _ _ => (.inf s, {})
  | .finite _ _, .inf t => (.inf t, {})
  | x, y => (.nan false, { invalid := x.signaling || y.signaling })

open Classical in
noncomputable def mul (x y : Datum) : Datum × Flags :=
  match x, y with
  | .finite s v, .finite t w => if v * w = 0 then (.finite (s ^^ t) 0, {}) else F.rounded m (v * w)
  | .inf s, .inf t => (.inf (s ^^ t), {})
  | .inf s, .finite t w => if w = 0 then invalidOp else (.inf (s ^^ t), {})
  | .finite s v, .inf t => if v = 0 then invalidOp else (.inf (s ^^ t), {})
  | x, y => (.nan false, { invalid := x.signaling || y.signaling })

open Classical in
noncomputable def div (x y : Datum) : Datum × Flags :=
  match x, y with
  | .finite s v, .finite t w =>
    if w = 0 then if v = 0 then invalidOp else (.inf (s ^^ t), { divZero := true })
    else if v = 0 then (.finite (s ^^ t) 0, {})
    else F.rounded m (v / w)
  | .inf _, .inf _ => invalidOp
  | .inf s, .finite t _ => (.inf (s ^^ t), {})
  | .finite s _, .inf t => (.finite (s ^^ t) 0, {})
  | x, y => (.nan false, { invalid := x.signaling || y.signaling })

open Classical in
noncomputable def sqrt (x : Datum) : Datum × Flags :=
  match x with
  | .finite s v => if v = 0 then (.finite s 0, {}) else if v < 0 then invalidOp else F.rounded m √v
  | .inf s => if s then invalidOp else (.inf false, {})
  | .nan s => (.nan false, { invalid := s })

open Classical in
/-- `x * y + z` with one rounding; a zero times an infinity is invalid whatever `z` is. -/
noncomputable def fma (x y z : Datum) : Datum × Flags :=
  match x, y, z with
  | .finite s v, .finite t w, .finite r u => F.sum m (s ^^ t) (v * w) r u
  | .finite _ _, .finite _ _, .inf r => (.inf r, {})
  | .inf s, .inf t, z => infPlus (s ^^ t) z
  | .inf s, .finite t w, z => if w = 0 then invalidOp else infPlus (s ^^ t) z
  | .finite s v, .inf t, z => if v = 0 then invalidOp else infPlus (s ^^ t) z
  | x, y, z => (.nan false, { invalid := x.signaling || y.signaling || z.signaling })
where
  /-- An infinite product and an addend. -/
  infPlus (s : Bool) : Datum → Datum × Flags
    | .finite _ _ => (.inf s, {})
    | .inf r => if s = r then (.inf s, {}) else invalidOp
    | .nan sig => (.nan false, { invalid := sig })

open Classical in
/-- A datum of another format. -/
noncomputable def convert (x : Datum) : Datum × Flags :=
  match x with
  | .finite s v => if v = 0 then (.finite s 0, {}) else F.rounded m v
  | .inf s => (.inf s, {})
  | .nan s => (.nan false, { invalid := s })

/-- An integer; zero is positive. -/
noncomputable def ofInt (n : ℤ) : Datum × Flags := if n = 0 then (.finite false 0, {}) else F.rounded m n

end Format

open Classical in
/-- A datum rounded to an integer from `lo` to `hi`; out of range it saturates and is invalid, as is a NaN,
which goes to the top. -/
noncomputable def Datum.toInteger (m : Mode) (lo hi : ℤ) (x : Datum) : ℤ × Flags :=
  match x with
  | .finite _ v =>
    if m.toInt v < lo then (lo, { invalid := true })
    else if hi < m.toInt v then (hi, { invalid := true })
    else (m.toInt v, { inexact := decide ((m.toInt v : ℝ) ≠ v) })
  | .inf neg => (if neg then lo else hi, { invalid := true })
  | .nan _ => (hi, { invalid := true })

/-! ## Signs and magnitudes -/

/-- The mode that rounds the magnitude of a number with this sign. -/
def along (m : Mode) (neg : Bool) : Mode := if neg then m.flip else m

theorem abs_signed (v : ℝ) : |signed neg v| = |v| := by
  cases neg
  · rfl
  · exact abs_neg v

theorem signed_lt_zero {v : ℝ} (hv : 0 < v) : decide (signed neg v < 0) = neg := by
  cases neg
  · exact decide_eq_false (not_lt.mpr hv.le)
  · exact decide_eq_true (neg_lt_zero.mpr hv)

theorem signed_inj {v w : ℝ} : signed neg v = signed neg w ↔ v = w := by
  cases neg
  · rfl
  · exact neg_inj

theorem signed_add (v w : ℝ) : signed neg (v + w) = signed neg v + signed neg w := by
  cases neg
  · rfl
  · exact neg_add v w

theorem signed_mul (v w : ℝ) : signed neg (v * w) = signed neg v * w := by
  cases neg
  · rfl
  · exact neg_mul_eq_neg_mul v w

theorem signed_not (v : ℝ) : signed (!neg) v = -signed neg v := by
  cases neg <;> simp [signed]

theorem signed_mul_signed (s t : Bool) (v w : ℝ) : signed s v * signed t w = signed (s ^^ t) (v * w) := by
  cases s <;> cases t <;> simp [signed]

theorem signed_div_signed (s t : Bool) (v w : ℝ) : signed s v / signed t w = signed (s ^^ t) (v / w) := by
  cases s <;> cases t <;> simp [signed, neg_div, div_neg]

theorem signed_signed (s t : Bool) (v : ℝ) : signed s (signed t v) = signed (s ^^ t) v := by
  cases s <;> cases t <;> simp [signed]

@[simp] theorem signed_zero : signed neg 0 = 0 := by
  cases neg <;> simp [signed]

@[simp] theorem signed_eq_zero {v : ℝ} : signed neg v = 0 ↔ v = 0 := by
  cases neg <;> simp [signed]

theorem toInt_signed (m : Mode) (neg : Bool) (x : ℝ) :
    m.toInt (signed neg x) = if neg then -(along m neg).toInt x else (along m neg).toInt x := by
  cases neg with
  | false => rfl
  | true => exact m.toInt_neg x

theorem roundAt_signed (m : Mode) (e : ℤ) (neg : Bool) (x : ℝ) :
    roundAt m e (signed neg x) = signed neg (roundAt (along m neg) e x) := by
  cases neg with
  | false => rfl
  | true =>
    show (m.toInt (-x / 2 ^ e) : ℝ) * 2 ^ e = -(m.flip.toInt (x / 2 ^ e) * 2 ^ e)
    rw [neg_div, Mode.toInt_neg]
    push_cast
    ring

theorem roundAt_of_halves (m : Mode) {e : ℤ} {x : ℝ} {a : ℕ} {s : Bool} (h : Approx (2 * (x / 2 ^ e)) a s) :
    roundAt m e x = m.ofHalves a s * 2 ^ e := by
  unfold roundAt
  rw [m.toInt_of_halves h, Int.cast_natCast]

/-- The rounding is exact when no half and nothing less is left over. -/
theorem roundAt_exact (m : Mode) {e : ℤ} {x : ℝ} {a : ℕ} {s : Bool} (h : Approx (2 * (x / 2 ^ e)) a s) :
    roundAt m e x = x ↔ a % 2 = 0 ∧ s = false := by
  have hpow : (0 : ℝ) < 2 ^ e := zpow_pos two_pos e
  have hint := h.div (d := 2) (by decide)
  rw [Nat.cast_ofNat, mul_div_cancel_left₀ _ two_ne_zero] at hint
  unfold roundAt
  rw [← eq_div_iff hpow.ne', m.toInt_exact hint, Bool.or_eq_false_iff, decide_eq_false_iff_not, not_not, and_comm]

/-- The integer root and whether it is exact are what rounding needs of a real root. -/
theorem approx_sqrt (n : ℕ) : Approx (√n) n.sqrt (decide (n.sqrt * n.sqrt ≠ n)) where
  le := Real.nat_sqrt_le_real_sqrt
  lt := Real.real_sqrt_lt_nat_sqrt_succ
  sticky := by
    rw [decide_eq_true_eq, ne_eq, ne_eq, Real.sqrt_eq_iff_mul_self_eq (Nat.cast_nonneg _) (Nat.cast_nonneg _),
      eq_comm, ← Nat.cast_mul, Nat.cast_inj, eq_comm]

theorem two_pow_mul_zpow (k : ℕ) (e : ℤ) : ((2 ^ k : ℕ) : ℝ) * 2 ^ e = 2 ^ (k + e) := by
  push_cast
  rw [← zpow_natCast, ← zpow_add₀ two_ne_zero]

theorem log_eq {x : ℝ} {l : ℤ} (hlo : 2 ^ l ≤ x) (hhi : x < 2 ^ (l + 1)) : Int.log 2 x = l := by
  have hx : 0 < x := lt_of_lt_of_le (zpow_pos two_pos l) hlo
  have hle : l ≤ Int.log 2 x := (Int.zpow_le_iff_le_log (by decide) hx).mp (by exact_mod_cast hlo)
  have hlt : Int.log 2 x < l + 1 := (Int.lt_zpow_iff_log_lt (by decide) hx).mp (by exact_mod_cast hhi)
  omega

namespace Format

variable (F : Format) (m : Mode) (neg : Bool)

theorem round_signed (x : ℝ) : F.round m (signed neg x) = signed neg (F.round (along m neg) x) := by
  unfold round lastPlace
  rw [abs_signed, roundAt_signed]

theorem roundUnbounded_signed (x : ℝ) :
    F.roundUnbounded m (signed neg x) = signed neg (F.roundUnbounded (along m neg) x) := by
  unfold roundUnbounded
  rw [abs_signed, roundAt_signed]

open Classical in
/-- Rounding a magnitude with a sign. -/
theorem rounded_signed {x : ℝ} (hx : 0 < x) : F.rounded m (signed neg x) =
    if F.maxFinite < |F.roundUnbounded (along m neg) x| then
      (if overflowsToInf m neg then .inf neg else .finite neg (signed neg F.maxFinite),
        { overflow := true, inexact := true })
    else
      let inexact := decide (F.round (along m neg) x ≠ x)
      (.finite neg (signed neg (F.round (along m neg) x)),
        { underflow := inexact && decide (|F.roundUnbounded (along m neg) x| < 2 ^ F.emin), inexact }) := by
  unfold rounded
  simp only [roundUnbounded_signed, round_signed, abs_signed, signed_lt_zero neg hx, ne_eq, signed_inj]

/-! ### Sums with a zero -/

theorem sum_comm (s : Bool) (v : ℝ) (t : Bool) (w : ℝ) : F.sum m s v t w = F.sum m t w s v := by
  have hsign : zeroSumSign m s t = zeroSumSign m t s := by
    unfold zeroSumSign
    cases s <;> cases t <;> rfl
  unfold sum
  rw [add_comm v w, hsign]

theorem zero_sum (s t : Bool) {w : ℝ} (hw : w ≠ 0) : F.sum m s 0 t w = F.rounded m w := by
  unfold sum
  rw [zero_add, if_neg hw]

theorem sum_zero (s : Bool) {v : ℝ} (hv : v ≠ 0) (t : Bool) : F.sum m s v t 0 = F.rounded m v := by
  rw [sum_comm, zero_sum F m t s hv]

theorem zero_sum_zero (s t : Bool) : F.sum m s 0 t 0 = (.finite (zeroSumSign m s t) 0, {}) := by
  unfold sum
  rw [zero_add, if_pos rfl]

/-! ### Rounding by significands -/

section Significand

variable {F}

theorem zpow_scale (F : Format) (e : ℤ) : (2 : ℝ) ^ (e + 1) = (2 ^ (F.fracBits + 1) : ℕ) * 2 ^ (e - F.fracBits) := by
  rw [two_pow_mul_zpow]
  congr 1
  push_cast
  ring

theorem zpow_scale_normal (F : Format) (e : ℤ) : (2 : ℝ) ^ e = (2 ^ F.fracBits : ℕ) * 2 ^ (e - F.fracBits) := by
  rw [two_pow_mul_zpow]
  congr 1
  ring

variable {c : ℕ} {l : ℤ} (hlo : 2 ^ F.fracBits ≤ c) (hhi : c ≤ 2 ^ (F.fracBits + 1))
include hlo hhi

/-- A significand of the format's precision is too large by its exponent, or by a carry at the largest one. -/
theorem overflow_iff : F.maxFinite < c * 2 ^ (l - F.fracBits) ↔ F.emax < l ∨ l = F.emax ∧ c = 2 ^ (F.fracBits + 1) := by
  have hpow : ∀ e : ℤ, (0 : ℝ) < 2 ^ e := zpow_pos two_pos
  have hdouble : 2 ^ (F.fracBits + 1) = 2 * 2 ^ F.fracBits := Nat.pow_succ'
  have hone : 1 ≤ 2 ^ F.fracBits := Nat.one_le_two_pow
  unfold maxFinite
  rcases lt_trichotomy l F.emax with hl | hl | hl
  · refine iff_of_false (not_lt.mpr ?_) (by omega)
    have hstep : (2 : ℝ) ^ (l + 1) ≤ 2 ^ F.emax := zpow_le_zpow_right₀ one_le_two (by omega)
    calc (c : ℝ) * 2 ^ (l - F.fracBits)
        ≤ (2 ^ (F.fracBits + 1) : ℕ) * 2 ^ (l - F.fracBits) :=
          mul_le_mul_of_nonneg_right (by exact_mod_cast hhi) (hpow _).le
      _ = 2 ^ (l + 1) := (zpow_scale F l).symm
      _ ≤ 2 ^ F.emax := hstep
      _ = (2 ^ F.fracBits : ℕ) * 2 ^ (F.emax - F.fracBits) := zpow_scale_normal F F.emax
      _ ≤ (2 ^ (F.fracBits + 1) - 1 : ℕ) * 2 ^ (F.emax - F.fracBits) :=
          mul_le_mul_of_nonneg_right (by exact_mod_cast (by omega)) (hpow _).le
  · rw [hl, mul_lt_mul_iff_left₀ (hpow _), Nat.cast_lt]
    omega
  · refine iff_of_true ?_ (Or.inl hl)
    calc ((2 ^ (F.fracBits + 1) - 1 : ℕ) : ℝ) * 2 ^ (F.emax - F.fracBits)
        < (2 ^ (F.fracBits + 1) : ℕ) * 2 ^ (F.emax - F.fracBits) :=
          mul_lt_mul_of_pos_right (by exact_mod_cast (by omega)) (hpow _)
      _ = 2 ^ (F.emax + 1) := (zpow_scale F F.emax).symm
      _ ≤ 2 ^ l := zpow_le_zpow_right₀ one_le_two (by omega)
      _ = (2 ^ F.fracBits : ℕ) * 2 ^ (l - F.fracBits) := zpow_scale_normal F l
      _ ≤ c * 2 ^ (l - F.fracBits) := mul_le_mul_of_nonneg_right (by exact_mod_cast hlo) (hpow _).le

theorem tiny_iff : (c : ℝ) * 2 ^ (l - F.fracBits) < 2 ^ F.emin ↔
    l < F.emin - 1 ∨ l = F.emin - 1 ∧ c < 2 ^ (F.fracBits + 1) := by
  have hpow : ∀ e : ℤ, (0 : ℝ) < 2 ^ e := zpow_pos two_pos
  rcases lt_trichotomy l (F.emin - 1) with hl | hl | hl
  · refine iff_of_true ?_ (Or.inl hl)
    calc (c : ℝ) * 2 ^ (l - F.fracBits)
        ≤ (2 ^ (F.fracBits + 1) : ℕ) * 2 ^ (l - F.fracBits) :=
          mul_le_mul_of_nonneg_right (by exact_mod_cast hhi) (hpow _).le
      _ = 2 ^ (l + 1) := (zpow_scale F l).symm
      _ < 2 ^ F.emin := zpow_lt_zpow_right₀ one_lt_two (by omega)
  · have hmin : (2 : ℝ) ^ F.emin = (2 ^ (F.fracBits + 1) : ℕ) * 2 ^ (l - F.fracBits) := by
      rw [← zpow_scale F l]
      congr 1
      omega
    rw [hmin, mul_lt_mul_iff_left₀ (hpow _), Nat.cast_lt]
    omega
  · refine iff_of_false (not_lt.mpr ?_) (by omega)
    calc (2 : ℝ) ^ F.emin ≤ 2 ^ l := zpow_le_zpow_right₀ one_le_two (by omega)
      _ = (2 ^ F.fracBits : ℕ) * 2 ^ (l - F.fracBits) := zpow_scale_normal F l
      _ ≤ c * 2 ^ (l - F.fracBits) := mul_le_mul_of_nonneg_right (by exact_mod_cast hlo) (hpow _).le

end Significand

/-- Rounding a magnitude in the binade `l`, from its halves at the precision of the format and at its last place. -/
theorem rounded_of_halves {x : ℝ} {l : ℤ} {a a' : ℕ} {s s' : Bool} (hlo : 2 ^ l ≤ x) (hhi : x < 2 ^ (l + 1))
    (h : Approx (2 * (x / 2 ^ (l - F.fracBits))) a s)
    (h' : Approx (2 * (x / 2 ^ (max l F.emin - F.fracBits))) a' s') :
    F.rounded m (signed neg x) =
      if F.emax < l ∨ l = F.emax ∧ (along m neg).ofHalves a s = 2 ^ (F.fracBits + 1) then
        (if overflowsToInf m neg then .inf neg else .finite neg (signed neg F.maxFinite),
          { overflow := true, inexact := true })
      else
        let inexact := decide (¬(a' % 2 = 0 ∧ s' = false))
        (.finite neg (signed neg ((along m neg).ofHalves a' s' * 2 ^ (max l F.emin - F.fracBits))),
          { underflow := inexact &&
              decide (l < F.emin - 1 ∨ l = F.emin - 1 ∧ (along m neg).ofHalves a s < 2 ^ (F.fracBits + 1)), inexact }) := by
  have hx : 0 < x := lt_of_lt_of_le (zpow_pos two_pos l) hlo
  have hpow : (0 : ℝ) < 2 ^ (l - F.fracBits) := zpow_pos two_pos _
  have hlog : Int.log 2 |x| = l := by rw [abs_of_pos hx, log_eq hlo hhi]
  -- the significand at the format's precision is in its binade, or the power of two after it
  have ha : 2 ^ (F.fracBits + 1) ≤ a ∧ a < 2 * 2 ^ (F.fracBits + 1) := by
    have hdouble : ((2 ^ (F.fracBits + 1) : ℕ) : ℝ) = 2 * (2 ^ F.fracBits : ℕ) := by
      push_cast
      ring
    have hxlo : ((2 ^ F.fracBits : ℕ) : ℝ) ≤ x / 2 ^ (l - F.fracBits) := by
      rw [le_div_iff₀ hpow, ← zpow_scale_normal]
      exact hlo
    have hxhi : x / 2 ^ (l - F.fracBits) < (2 ^ (F.fracBits + 1) : ℕ) := by
      rw [div_lt_iff₀ hpow, ← zpow_scale]
      exact hhi
    have hale := h.le
    have halt := h.lt
    constructor
    · have : ((2 ^ (F.fracBits + 1) : ℕ) : ℝ) < a + 1 := by linarith
      exact Nat.lt_succ_iff.mp (by exact_mod_cast this)
    · have : (a : ℝ) < 2 * (2 ^ (F.fracBits + 1) : ℕ) := by linarith
      exact_mod_cast this
  obtain ⟨hc, hc'⟩ := (along m neg).ofHalves_bounds a s
  rw [Nat.pow_succ] at ha
  have hclo : 2 ^ F.fracBits ≤ (along m neg).ofHalves a s := by omega
  have hchi : (along m neg).ofHalves a s ≤ 2 ^ (F.fracBits + 1) := by
    rw [Nat.pow_succ]
    omega
  have hround : F.round (along m neg) x = (along m neg).ofHalves a' s' * 2 ^ (max l F.emin - F.fracBits) := by
    unfold round lastPlace
    rw [hlog, roundAt_of_halves _ h']
  have hexact : F.round (along m neg) x = x ↔ a' % 2 = 0 ∧ s' = false := by
    unfold round lastPlace
    rw [hlog, roundAt_exact _ h']
  have hunbounded : |F.roundUnbounded (along m neg) x| = (along m neg).ofHalves a s * 2 ^ (l - F.fracBits) := by
    unfold roundUnbounded
    rw [hlog, roundAt_of_halves _ h]
    exact abs_of_nonneg (mul_nonneg (Nat.cast_nonneg _) hpow.le)
  rw [hround] at hexact
  rw [rounded_signed F m neg hx]
  simp only [hunbounded, ne_eq, hexact, overflow_iff hclo hchi, tiny_iff hclo hchi, hround]

/-! ### Exact results and results in range -/

/-- A multiple of the last place is its own rounding. -/
theorem roundAt_multiple (m : Mode) {d e : ℤ} (k : ℕ) (h : d ≤ e) : roundAt m d (k * 2 ^ e) = k * 2 ^ e := by
  obtain ⟨n, hn⟩ := Int.le.dest h
  have hpow : (2 : ℝ) ^ d ≠ 0 := zpow_ne_zero d two_ne_zero
  have hquot : (k : ℝ) * 2 ^ e / 2 ^ d = ((k * 2 ^ n : ℕ) : ℤ) := by
    rw [div_eq_iff hpow, ← hn, zpow_add₀ two_ne_zero, zpow_natCast]
    push_cast
    ring
  unfold roundAt
  rw [hquot, Mode.toInt_intCast, ← hquot, div_mul_cancel₀ _ hpow]

/-- A number of the format's precision and range is delivered as it is. -/
theorem rounded_exact {k : ℕ} {e : ℤ} (hk : 0 < k) (hprec : k < 2 ^ (F.fracBits + 1))
    (hlo : F.emin - F.fracBits ≤ e) (hhi : e ≤ F.emax - F.fracBits) :
    F.rounded m (signed neg (k * 2 ^ e)) = (.finite neg (signed neg (k * 2 ^ e)), {}) := by
  have hkr : (0 : ℝ) < k := Nat.cast_pos.mpr hk
  have hpow : (0 : ℝ) < 2 ^ e := zpow_pos two_pos e
  have hx : 0 < (k : ℝ) * 2 ^ e := mul_pos hkr hpow
  have hlt : (k : ℝ) * 2 ^ e < 2 ^ (F.fracBits + 1 + e) := by
    have := two_pow_mul_zpow (F.fracBits + 1) e
    push_cast at this
    rw [← this]
    exact mul_lt_mul_of_pos_right (by exact_mod_cast hprec) hpow
  have hlog : Int.log 2 |(k : ℝ) * 2 ^ e| < F.fracBits + 1 + e := by
    rw [abs_of_pos hx]
    exact (Int.lt_zpow_iff_log_lt (by decide) hx).mp (by exact_mod_cast hlt)
  have hround : F.round (along m neg) (k * 2 ^ e) = k * 2 ^ e := by
    unfold round lastPlace
    exact roundAt_multiple _ k (by omega)
  have hunbounded : F.roundUnbounded (along m neg) (k * 2 ^ e) = k * 2 ^ e := by
    unfold roundUnbounded
    exact roundAt_multiple _ k (by omega)
  have hfit : (k : ℝ) * 2 ^ e ≤ F.maxFinite := by
    unfold maxFinite
    have hle : (2 : ℝ) ^ e ≤ 2 ^ (F.emax - F.fracBits) := zpow_le_zpow_right₀ one_le_two hhi
    exact mul_le_mul (by exact_mod_cast (by omega)) hle hpow.le (Nat.cast_nonneg _)
  rw [rounded_signed F m neg hx]
  simp only [hunbounded, hround, abs_of_pos hx]
  rw [if_neg (not_lt.mpr hfit)]
  simp

/-- Where nothing is signaled nothing was rounded. -/
theorem rounded_of_flags {x : ℝ} (h : (F.rounded m x).2 = {}) : (F.rounded m x).1 = .finite (decide (x < 0)) x := by
  unfold rounded at h ⊢
  dsimp only at h ⊢
  split at h
  · exact absurd (congrArg Flags.overflow h) Bool.false_ne_true.symm
  · next hover =>
    have hexact := congrArg Flags.inexact h
    rw [if_neg hover]
    dsimp only at hexact ⊢
    rw [decide_eq_false_iff_not, not_not] at hexact
    rw [hexact]

/-- A normal number below the largest binade neither overflows nor underflows. -/
theorem rounded_normal {x : ℝ} (hlo : 2 ^ F.emin ≤ x) (hhi : x < 2 ^ F.emax) :
    F.rounded m (signed neg x) = (.finite neg (signed neg (F.round (along m neg) x)),
      { inexact := decide (F.round (along m neg) x ≠ x) }) := by
  have hx : 0 < x := lt_of_lt_of_le (zpow_pos two_pos _) hlo
  obtain ⟨l, hl⟩ : ∃ l, l = Int.log 2 |x| := ⟨_, rfl⟩
  have habs : |x| = x := abs_of_pos hx
  have hloglo : F.emin ≤ l := by
    rw [hl, habs]
    exact (Int.zpow_le_iff_le_log (by decide) hx).mp (by exact_mod_cast hlo)
  have hloghi : l < F.emax := by
    rw [hl, habs]
    exact (Int.lt_zpow_iff_log_lt (by decide) hx).mp (by exact_mod_cast hhi)
  have hbin : (2 : ℝ) ^ l ≤ x ∧ x < 2 ^ (l + 1) := by
    rw [hl, habs]
    exact ⟨by exact_mod_cast Int.zpow_log_le_self (by decide) hx,
      by exact_mod_cast Int.lt_zpow_succ_log_self (by decide) x⟩
  have hpow : (0 : ℝ) < 2 ^ (l - F.fracBits) := zpow_pos two_pos _
  -- the rounding stays between the ends of the binade
  obtain ⟨c, hc, hclo, hchi⟩ : ∃ c : ℕ, (along m neg).toInt (x / 2 ^ (l - F.fracBits)) = c ∧
      2 ^ F.fracBits ≤ c ∧ c ≤ 2 ^ (F.fracBits + 1) := by
    obtain ⟨hfl, hce⟩ := (along m neg).toInt_mem (x / 2 ^ (l - F.fracBits))
    have hqlo : ((2 ^ F.fracBits : ℕ) : ℤ) ≤ ⌊x / 2 ^ (l - F.fracBits)⌋ := by
      rw [Int.le_floor, Int.cast_natCast, le_div_iff₀ hpow, ← zpow_scale_normal]
      exact hbin.1
    have hqhi : ⌈x / 2 ^ (l - F.fracBits)⌉ ≤ ((2 ^ (F.fracBits + 1) : ℕ) : ℤ) := by
      rw [Int.ceil_le, Int.cast_natCast, div_le_iff₀ hpow, ← zpow_scale]
      exact hbin.2.le
    obtain ⟨c, hc⟩ := Int.eq_ofNat_of_zero_le (le_trans (Int.natCast_nonneg _) (hqlo.trans hfl))
    exact ⟨c, hc, by omega, by omega⟩
  have hunbounded : |F.roundUnbounded (along m neg) x| = c * 2 ^ (l - F.fracBits) := by
    unfold roundUnbounded roundAt
    rw [← hl, hc, Int.cast_natCast]
    exact abs_of_nonneg (mul_nonneg (Nat.cast_nonneg _) hpow.le)
  have hover : ¬F.maxFinite < c * 2 ^ (l - F.fracBits) := by
    rw [overflow_iff hclo hchi]
    omega
  have htiny : ¬(c : ℝ) * 2 ^ (l - F.fracBits) < 2 ^ F.emin := by
    rw [tiny_iff hclo hchi]
    omega
  rw [rounded_signed F m neg hx, hunbounded, if_neg hover]
  dsimp only
  rw [decide_eq_false htiny, Bool.and_false]

/-! ### Encodings -/

/-- A word is a sign and the bits below it. -/
theorem exists_sign {W b : ℕ} (hb : b < 2 ^ (W + 1)) : ∃ (neg : Bool) (x : ℕ), x < 2 ^ W ∧ b = 2 ^ W * neg.toNat + x := by
  rw [Nat.pow_succ] at hb
  rcases Nat.lt_or_ge b (2 ^ W) with hlt | hge
  · exact ⟨false, b, hlt, by simp⟩
  · exact ⟨true, b - 2 ^ W, by omega, by simp; omega⟩

/-- The fields of a sign and the bits below it. -/
theorem decode_add {b : ℕ} (hb : b < 2 ^ (F.fracBits + F.expBits)) :
    F.decode (2 ^ (F.fracBits + F.expBits) * neg.toNat + b) =
      if b / 2 ^ F.fracBits = 2 ^ F.expBits - 1 then
        if b % 2 ^ F.fracBits = 0 then .inf neg else .nan (decide (b % 2 ^ F.fracBits < 2 ^ (F.fracBits - 1)))
      else .finite neg (signed neg (F.magnitude (b / 2 ^ F.fracBits) (b % 2 ^ F.fracBits))) := by
  have hpos : 0 < 2 ^ F.fracBits := Nat.two_pow_pos _
  have hdiv : b / 2 ^ F.fracBits < 2 ^ F.expBits := Nat.div_lt_of_lt_mul (by rwa [← Nat.pow_add])
  have hneg : (2 ^ (F.fracBits + F.expBits) * neg.toNat + b).testBit (F.fracBits + F.expBits) = neg := by
    rw [Nat.testBit_two_pow_mul_add _ hb, if_neg (lt_irrefl _), Nat.sub_self]
    cases neg <;> rfl
  have he : (2 ^ (F.fracBits + F.expBits) * neg.toNat + b) / 2 ^ F.fracBits % 2 ^ F.expBits = b / 2 ^ F.fracBits := by
    rw [Nat.pow_add, Nat.mul_assoc, Nat.mul_add_div hpos, Nat.mul_add_mod]
    exact Nat.mod_eq_of_lt hdiv
  have hk : (2 ^ (F.fracBits + F.expBits) * neg.toNat + b) % 2 ^ F.fracBits = b % 2 ^ F.fracBits := by
    rw [Nat.pow_add, Nat.mul_assoc, Nat.mul_add_mod]
  unfold decode
  simp only [hneg, he, hk]

/-- Below the encodings of infinity, the fields of a finite number are its digits. -/
theorem decode_finite {b : ℕ} (hb : b < (2 ^ F.expBits - 1) * 2 ^ F.fracBits) :
    F.decode (2 ^ (F.fracBits + F.expBits) * neg.toNat + b) =
      .finite neg (signed neg (F.magnitude (b / 2 ^ F.fracBits) (b % 2 ^ F.fracBits))) := by
  have hblt : b < 2 ^ (F.fracBits + F.expBits) := by
    rw [Nat.pow_add, Nat.mul_comm]
    exact Nat.lt_of_lt_of_le hb (Nat.mul_le_mul_right _ (Nat.sub_le _ _))
  have hdiv : b / 2 ^ F.fracBits < 2 ^ F.expBits - 1 := Nat.div_lt_of_lt_mul (by rwa [Nat.mul_comm])
  rw [F.decode_add neg hblt, if_neg (by omega)]

/-- The sign bit is apart from the other fields. -/
theorem decode_not {b : ℕ} (hb : b < 2 ^ (F.fracBits + F.expBits)) :
    F.decode (2 ^ (F.fracBits + F.expBits) * (!neg).toNat + b) =
      (F.decode (2 ^ (F.fracBits + F.expBits) * neg.toNat + b)).negIf true := by
  rw [F.decode_add _ hb, F.decode_add _ hb]
  split_ifs
  · simp [Datum.negIf]
  · simp [Datum.negIf]
  · simp [Datum.negIf, signed_signed]

/-- A significand added below an exponent field: its leading bit and a carry move the field up. -/
theorem magnitude_add {e c : ℕ} (hc : e = 0 ∨ 2 ^ F.fracBits ≤ c) (hhi : c ≤ 2 ^ (F.fracBits + 1)) :
    F.magnitude ((2 ^ F.fracBits * e + c) / 2 ^ F.fracBits) ((2 ^ F.fracBits * e + c) % 2 ^ F.fracBits) =
      c * 2 ^ (e + F.emin - F.fracBits) := by
  have hpos : 0 < 2 ^ F.fracBits := Nat.two_pow_pos _
  rw [Nat.mul_add_div hpos, Nat.mul_add_mod]
  rw [Nat.pow_succ] at hhi
  rcases Nat.lt_or_ge c (2 ^ F.fracBits) with hlt | hge
  · have he : e = 0 := hc.resolve_right (by omega)
    subst he
    rw [Nat.div_eq_of_lt hlt, Nat.mod_eq_of_lt hlt]
    unfold magnitude
    rw [if_pos rfl, Nat.cast_zero, zero_add]
  rcases Nat.lt_or_ge c (2 ^ F.fracBits * 2) with hlt | hge2
  · have hdiv : c / 2 ^ F.fracBits = 1 := Nat.div_eq_of_lt_le (by omega) (by omega)
    have hmod : c % 2 ^ F.fracBits = c - 2 ^ F.fracBits := by
      rw [Nat.mod_eq_sub_mod hge, Nat.mod_eq_of_lt (by omega)]
    unfold magnitude
    rw [hdiv, hmod, if_neg (Nat.succ_ne_zero e), Nat.add_sub_cancel' hge]
    congr 2
    unfold emin
    push_cast
    ring
  · have hceq : c = 2 ^ F.fracBits * 2 := by omega
    rw [hceq, Nat.mul_div_cancel_left 2 hpos, Nat.mul_mod_right]
    unfold magnitude
    rw [if_neg (Nat.succ_ne_zero _), Nat.add_zero, Nat.cast_mul, Nat.cast_ofNat, mul_assoc]
    congr 1
    rw [← zpow_one_add₀ two_ne_zero]
    congr 1
    unfold emin
    push_cast
    ring

theorem magnitude_zero_exp (k : ℕ) : F.magnitude 0 k = k * 2 ^ (F.emin - F.fracBits) := if_pos rfl

theorem magnitude_succ_exp (e k : ℕ) :
    F.magnitude (e + 1) k = (2 ^ F.fracBits + k : ℕ) * 2 ^ (e + F.emin - F.fracBits) := by
  unfold magnitude
  rw [if_neg (Nat.succ_ne_zero e)]
  congr 2
  unfold emin
  push_cast
  ring

/-- A larger exponent field is a larger magnitude. -/
theorem magnitude_lt {e e' k k' : ℕ} (h : e < e') (hk : k < 2 ^ F.fracBits) : F.magnitude e k < F.magnitude e' k' := by
  have hpow : ∀ d : ℤ, (0 : ℝ) < 2 ^ d := zpow_pos two_pos
  obtain ⟨d, rfl⟩ := Nat.exists_eq_add_of_lt h
  rw [magnitude_succ_exp]
  have hbase : (2 : ℝ) ^ ((e + d : ℕ) + F.emin) ≤
      (2 ^ F.fracBits + k' : ℕ) * 2 ^ ((e + d : ℕ) + F.emin - F.fracBits) := by
    rw [zpow_scale_normal F]
    exact mul_le_mul_of_nonneg_right (by exact_mod_cast Nat.le_add_right _ _) (hpow _).le
  refine lt_of_lt_of_le ?_ hbase
  cases e with
  | zero =>
    rw [magnitude_zero_exp]
    calc (k : ℝ) * 2 ^ (F.emin - F.fracBits) < (2 ^ F.fracBits : ℕ) * 2 ^ (F.emin - F.fracBits) :=
          mul_lt_mul_of_pos_right (by exact_mod_cast hk) (hpow _)
      _ = 2 ^ F.emin := (zpow_scale_normal F F.emin).symm
      _ ≤ 2 ^ ((0 + d : ℕ) + F.emin) := zpow_le_zpow_right₀ one_le_two (by omega)
  | succ e =>
    rw [magnitude_succ_exp]
    have hdouble : 2 ^ F.fracBits + k < 2 ^ (F.fracBits + 1) := by
      rw [Nat.pow_succ]
      omega
    calc ((2 ^ F.fracBits + k : ℕ) : ℝ) * 2 ^ (e + F.emin - F.fracBits)
        < (2 ^ (F.fracBits + 1) : ℕ) * 2 ^ (e + F.emin - F.fracBits) :=
          mul_lt_mul_of_pos_right (by exact_mod_cast hdouble) (hpow _)
      _ = 2 ^ (e + F.emin + 1) := (zpow_scale F _).symm
      _ ≤ 2 ^ ((e + 1 + d : ℕ) + F.emin) := zpow_le_zpow_right₀ one_le_two (by push_cast; omega)

/-- Different fields are different magnitudes. -/
theorem magnitude_inj {e e' k k' : ℕ} (hk : k < 2 ^ F.fracBits) (hk' : k' < 2 ^ F.fracBits)
    (h : F.magnitude e k = F.magnitude e' k') : e = e' ∧ k = k' := by
  rcases lt_trichotomy e e' with hlt | heq | hgt
  · exact absurd h (F.magnitude_lt hlt hk).ne
  · subst heq
    refine ⟨rfl, ?_⟩
    cases e with
    | zero =>
      rw [magnitude_zero_exp, magnitude_zero_exp] at h
      exact_mod_cast mul_right_cancel₀ (zpow_ne_zero _ two_ne_zero) h
    | succ e =>
      rw [magnitude_succ_exp, magnitude_succ_exp] at h
      have hsum : 2 ^ F.fracBits + k = 2 ^ F.fracBits + k' := by
        exact_mod_cast mul_right_cancel₀ (zpow_ne_zero _ two_ne_zero) h
      omega
  · exact absurd h (F.magnitude_lt hgt hk').ne'

/-- A datum that is not a NaN has one encoding. -/
theorem decode_inj {a b : ℕ} (ha : a < 2 ^ (F.fracBits + F.expBits + 1)) (hb : b < 2 ^ (F.fracBits + F.expBits + 1))
    (hnan : (F.decode a).isNan = false) (h : F.decode a = F.decode b) : a = b := by
  obtain ⟨s, x, hx, rfl⟩ := exists_sign ha
  obtain ⟨t, y, hy, rfl⟩ := exists_sign hb
  have hpos : 0 < 2 ^ F.fracBits := Nat.two_pow_pos _
  have hfields : ∀ {p q : ℕ}, p / 2 ^ F.fracBits = q / 2 ^ F.fracBits → p % 2 ^ F.fracBits = q % 2 ^ F.fracBits → p = q := by
    intro p q hdiv hmod
    rw [← Nat.div_add_mod p (2 ^ F.fracBits), hdiv, hmod, Nat.div_add_mod]
  rw [F.decode_add s hx] at hnan h
  rw [F.decode_add t hy] at h
  split_ifs at hnan h with hex hkx hey hky hey
  · -- both are infinite
    obtain rfl : s = t := Datum.inf.inj h
    rw [hfields (hex.trans hey.symm) (hkx.trans hky.symm)]
  · exact absurd hnan.symm Bool.false_ne_true
  · -- both are finite
    obtain ⟨rfl, hmag⟩ := Datum.finite.inj h
    obtain ⟨hdiv, hmod⟩ := F.magnitude_inj (Nat.mod_lt _ hpos) (Nat.mod_lt _ hpos) ((signed_inj s).mp hmag)
    rw [hfields hdiv hmod]

end Format

end Quanta.Ieee
