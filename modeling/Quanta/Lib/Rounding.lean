/-
Rounding a real to an integer in the five modes of IEEE 754, and what an implementation needs to know
of a real to do it: an integer below it and whether anything is lost (the sticky bit).
-/
import Mathlib.Algebra.Order.Archimedean.Real.Basic
import Mathlib.Data.Int.Log
import Mathlib.Algebra.Order.Floor.Ring
import Mathlib.Algebra.Order.Field.Power
import Mathlib.Tactic.FieldSimp
import Mathlib.Tactic.Linarith
import Mathlib.Tactic.Positivity
import Mathlib.Tactic.Ring
import Mathlib.Tactic.NormNum

namespace Quanta.Rounding

/-! ## The five modes -/

inductive Mode
  | nearestEven | towardZero | down | up | nearestAway
  deriving DecidableEq, Repr

namespace Mode

/-- The mode as the magnitude of a negative number sees it. -/
def flip : Mode → Mode
  | down => up
  | up => down
  | m => m

open Classical in
/-- A real rounded to an integer. -/
noncomputable def toInt (m : Mode) (x : ℝ) : ℤ :=
  match m with
  | nearestEven =>
    if x - ⌊x⌋ < ⌈x⌉ - x then ⌊x⌋ else if ⌈x⌉ - x < x - ⌊x⌋ then ⌈x⌉ else if Even ⌊x⌋ then ⌊x⌋ else ⌈x⌉
  | towardZero => if x < 0 then ⌈x⌉ else ⌊x⌋
  | down => ⌊x⌋
  | up => ⌈x⌉
  | nearestAway =>
    if x - ⌊x⌋ < ⌈x⌉ - x then ⌊x⌋ else if ⌈x⌉ - x < x - ⌊x⌋ then ⌈x⌉ else if x < 0 then ⌊x⌋ else ⌈x⌉

@[simp] theorem toInt_intCast (m : Mode) (n : ℤ) : m.toInt n = n := by
  cases m <;> simp [toInt]

theorem toInt_mem (m : Mode) (x : ℝ) : ⌊x⌋ ≤ m.toInt x ∧ m.toInt x ≤ ⌈x⌉ := by
  have hle : ⌊x⌋ ≤ ⌈x⌉ := Int.floor_le_ceil x
  cases m with
  | down => exact ⟨le_rfl, hle⟩
  | up => exact ⟨hle, le_rfl⟩
  | towardZero | nearestEven | nearestAway =>
    simp only [toInt]
    split_ifs <;> first | exact ⟨hle, le_rfl⟩ | exact ⟨le_rfl, hle⟩

theorem ceil_of_fract {x : ℝ} (h : (⌊x⌋ : ℝ) ≠ x) : ⌈x⌉ = ⌊x⌋ + 1 := by
  have hlt : (⌊x⌋ : ℝ) < x := lt_of_le_of_ne (Int.floor_le x) h
  have hhi := Int.lt_floor_add_one x
  rw [Int.ceil_eq_iff]
  push_cast
  constructor <;> linarith

/-- Rounding the negation is rounding the magnitude with the flipped mode. -/
theorem toInt_neg (m : Mode) (x : ℝ) : m.toInt (-x) = -m.flip.toInt x := by
  by_cases hint : (⌊x⌋ : ℝ) = x
  · rw [← hint, ← Int.cast_neg, toInt_intCast, toInt_intCast]
  have hne : x ≠ 0 := fun h => hint (by rw [h, Int.floor_zero, Int.cast_zero])
  -- the neighbours change places
  have hbelow : -x - (⌊-x⌋ : ℝ) = ⌈x⌉ - x := by
    rw [Int.floor_neg]
    push_cast
    ring
  have habove : (⌈-x⌉ : ℝ) - -x = x - ⌊x⌋ := by
    rw [Int.ceil_neg]
    push_cast
    ring
  have heven : Even ⌈x⌉ ↔ ¬Even ⌊x⌋ := by rw [ceil_of_fract hint, Int.even_add_one]
  have hsign : -x < 0 ↔ ¬x < 0 := by
    constructor
    · intro h
      linarith
    · intro h
      exact neg_lt_zero.mpr (lt_of_le_of_ne (not_lt.mp h) hne.symm)
  cases m with
  | down => exact Int.floor_neg
  | up => exact Int.ceil_neg
  | towardZero =>
    simp only [toInt, flip, hsign]
    split_ifs
    · exact Int.floor_neg
    · exact Int.ceil_neg
  | nearestEven =>
    simp only [toInt, flip, hbelow, habove]
    simp only [Int.floor_neg, Int.ceil_neg, even_neg, heven]
    split_ifs <;> first | rfl | (exfalso; linarith)
  | nearestAway =>
    simp only [toInt, flip, hbelow, habove, hsign]
    simp only [Int.floor_neg, Int.ceil_neg]
    split_ifs <;> first | rfl | (exfalso; linarith)

end Mode

/-! ## Integers with a sticky bit -/

/-- `y` is `q` and a fraction below one, which is not zero exactly when `s`. -/
structure Approx (y : ℝ) (q : ℕ) (s : Bool) : Prop where
  le : (q : ℝ) ≤ y
  lt : y < q + 1
  sticky : s = true ↔ y ≠ q

namespace Approx

theorem natCast (n : ℕ) : Approx n n false where
  le := le_rfl
  lt := by linarith
  sticky := by simp

theorem eq_of_not {y : ℝ} {q : ℕ} (h : Approx y q false) : y = q := by
  by_contra hne
  exact Bool.false_ne_true (h.sticky.mpr hne)

theorem floor {y : ℝ} {q : ℕ} {s : Bool} (h : Approx y q s) : ⌊y⌋ = q := by
  rw [Int.floor_eq_iff]
  exact ⟨mod_cast h.le, mod_cast h.lt⟩

/-- Dividing keeps the quotient of the integer, and the remainder joins the sticky bit. -/
theorem div {y : ℝ} {q : ℕ} {s : Bool} (h : Approx y q s) {d : ℕ} (hd : 0 < d) :
    Approx (y / d) (q / d) (s || decide (q % d ≠ 0)) := by
  have hdr : (0 : ℝ) < d := Nat.cast_pos.mpr hd
  have hq : ((q / d : ℕ) : ℝ) * d + (q % d : ℕ) = q := by exact_mod_cast Nat.div_add_mod' q d
  have hmod : ((q % d : ℕ) : ℝ) + 1 ≤ d := by exact_mod_cast Nat.mod_lt q hd
  have hmod0 : (0 : ℝ) ≤ (q % d : ℕ) := Nat.cast_nonneg _
  have hle := h.le
  have hlt := h.lt
  refine ⟨?_, ?_, ?_⟩
  · rw [le_div_iff₀ hdr]
    linarith
  · rw [div_lt_iff₀ hdr]
    linarith
  · rw [Bool.or_eq_true, decide_eq_true_eq, h.sticky, ne_eq, ne_eq, ne_eq, div_eq_iff hdr.ne']
    constructor
    · rintro (hy | hm) heq
      · -- an exact quotient leaves no room for a fraction
        refine hy (le_antisymm ?_ hle)
        linarith
      · have hpos : (1 : ℝ) ≤ (q % d : ℕ) := by exact_mod_cast Nat.pos_of_ne_zero hm
        linarith
    · intro hne
      by_contra hnot
      rw [not_or, not_not, not_not] at hnot
      obtain ⟨hy, hm⟩ := hnot
      rw [hm, Nat.cast_zero, add_zero] at hq
      exact hne (hy.trans hq.symm)

theorem natCast_add {y : ℝ} {q : ℕ} {s : Bool} (h : Approx y q s) (n : ℕ) : Approx (n + y) (n + q) s := by
  have hle := h.le
  have hlt := h.lt
  refine ⟨?_, ?_, ?_⟩
  · push_cast
    linarith
  · push_cast
    linarith
  · rw [h.sticky, Nat.cast_add, ne_eq, ne_eq, add_right_inj]

/-- What a fraction takes from the last place it gives back as its complement. -/
theorem natCast_sub {y : ℝ} {q : ℕ} (h : Approx y q true) {n : ℕ} (hn : q < n) : Approx (n - y) (n - q - 1) true := by
  have hgt : (q : ℝ) < y := lt_of_le_of_ne h.le (h.sticky.mp rfl).symm
  have hlt := h.lt
  have hcast : ((n - q - 1 : ℕ) : ℝ) = n - q - 1 := by
    rw [Nat.cast_sub (by omega), Nat.cast_sub hn.le, Nat.cast_one]
  refine ⟨?_, ?_, iff_of_true rfl fun heq => ?_⟩ <;> rw [hcast] at * <;> linarith

theorem ceil {y : ℝ} {q : ℕ} {s : Bool} (h : Approx y q s) : ⌈y⌉ = if s then (q : ℤ) + 1 else q := by
  have hle := h.le
  have hlt := h.lt
  rw [Int.ceil_eq_iff]
  cases s with
  | false =>
    rw [h.eq_of_not]
    simp
  | true =>
    have hne : y ≠ q := h.sticky.mp rfl
    have hgt : (q : ℝ) < y := lt_of_le_of_ne hle hne.symm
    simp only [if_true]
    push_cast
    constructor <;> linarith

end Approx

namespace Mode

/-- An integer is its own rounding, and nothing else is. -/
theorem toInt_exact (m : Mode) {y : ℝ} {q : ℕ} {s : Bool} (h : Approx y q s) : (m.toInt y : ℝ) = y ↔ s = false := by
  constructor
  · intro heq
    by_contra hs
    have hne := h.sticky.mp (Bool.eq_true_of_not_eq_false hs)
    have hfl := h.floor
    rw [← heq, Int.floor_intCast] at hfl
    rw [hfl] at heq
    exact hne heq.symm
  · rintro rfl
    rw [h.eq_of_not, ← Int.cast_natCast, toInt_intCast]

/-- Rounding from the number of halves below and whether there is more. -/
def ofHalves (m : Mode) (a : ℕ) (s : Bool) : ℕ :=
  match m with
  | nearestEven => if a % 2 = 1 ∧ (s ∨ a / 2 % 2 = 1) then a / 2 + 1 else a / 2
  | towardZero => a / 2
  | down => a / 2
  | up => if a % 2 = 1 ∨ s then a / 2 + 1 else a / 2
  | nearestAway => if a % 2 = 1 then a / 2 + 1 else a / 2

theorem ofHalves_bounds (m : Mode) (a : ℕ) (s : Bool) : a / 2 ≤ m.ofHalves a s ∧ m.ofHalves a s ≤ a / 2 + 1 := by
  unfold ofHalves
  cases m <;> dsimp only <;> first | omega | (split_ifs <;> omega)

theorem toInt_of_halves (m : Mode) {y : ℝ} {a : ℕ} {s : Bool} (h : Approx (2 * y) a s) :
    m.toInt y = m.ofHalves a s := by
  have hint : Approx y (a / 2) (s || decide (a % 2 ≠ 0)) := by
    have hdiv := h.div (d := 2) (by decide)
    rwa [Nat.cast_ofNat, mul_div_cancel_left₀ y two_ne_zero] at hdiv
  have hparity : a % 2 = 0 ∨ a % 2 = 1 := Nat.mod_two_eq_zero_or_one a
  by_cases hexact : a % 2 = 0 ∧ s = false
  · -- an integer is its own rounding
    obtain ⟨hp, rfl⟩ := hexact
    rw [hp] at hint
    rw [hint.eq_of_not, ← Int.cast_natCast, toInt_intCast]
    cases m <;> simp [ofHalves, hp]
  have hfl := hint.floor
  have hce : ⌈y⌉ = (a / 2 : ℕ) + 1 := by
    rw [hint.ceil, if_pos]
    rcases hparity with hp | hp <;> cases s <;> simp_all
  have ha : (a : ℝ) = 2 * (a / 2 : ℕ) + (a % 2 : ℕ) := by exact_mod_cast (Nat.div_add_mod a 2).symm
  have hlo := h.le
  have hhi := h.lt
  have hy : ¬y < 0 := not_lt.mpr (le_trans (Nat.cast_nonneg _) hint.le)
  -- the floor is nearer when the number of halves is even, the ceiling when it is odd and there is more
  have hbelow : y - (⌊y⌋ : ℝ) < ⌈y⌉ - y ↔ a % 2 = 0 := by
    rw [hfl, hce, Int.cast_add, Int.cast_one, Int.cast_natCast]
    rcases hparity with hp | hp <;> rw [hp] at ha <;> push_cast at ha <;> simp only [hp]
    · exact iff_of_true (by linarith) trivial
    · exact iff_of_false (by linarith) (by decide)
  have habove : (⌈y⌉ : ℝ) - y < y - ⌊y⌋ ↔ a % 2 = 1 ∧ s = true := by
    rw [hfl, hce, h.sticky, Int.cast_add, Int.cast_one, Int.cast_natCast]
    rcases hparity with hp | hp <;> rw [hp] at ha <;> push_cast at ha <;> simp only [hp]
    · exact iff_of_false (by linarith) (fun hc => absurd hc.1 (by decide))
    · constructor
      · intro hgt
        exact ⟨trivial, fun heq => by linarith⟩
      · rintro ⟨-, hne⟩
        have : (a : ℝ) < 2 * y := lt_of_le_of_ne hlo hne.symm
        linarith
  cases m with
  | down => exact hfl
  | towardZero => exact (if_neg hy).trans hfl
  | up =>
    refine hce.trans ?_
    rcases hparity with hp | hp <;> cases s <;> simp_all [ofHalves]
  | nearestEven =>
    simp only [toInt, hbelow, habove]
    simp only [hfl, hce, Int.even_coe_nat, Nat.even_iff, ofHalves]
    rcases hparity with hp | hp <;> cases s <;> simp [hp]
    split_ifs <;> omega
  | nearestAway =>
    simp only [toInt, hbelow, habove, hy]
    rcases hparity with hp | hp <;> cases s <;> simp [ofHalves, hfl, hce, hp]

end Mode

end Quanta.Rounding
