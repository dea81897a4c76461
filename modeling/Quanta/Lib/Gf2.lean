/-
Words as polynomials over the field of two elements, bit `i` the coefficient of `X ^ i`: exclusive
or is addition, a shift that loses nothing is multiplication by a power of `X`, and the sum of
shifted multiplicands over the bits of a multiplier is the product.
-/
import Mathlib

namespace Quanta.Gf2

open Polynomial

variable {w v : Nat}

/-- A bit as a coefficient. -/
def bit (b : Bool) : ZMod 2 := if b then 1 else 0

theorem bit_xor (a b : Bool) : bit (a ^^ b) = bit a + bit b := by
  cases a <;> cases b <;> decide

/-- The polynomial of a word's bits. -/
noncomputable def poly (a : BitVec w) : (ZMod 2)[X] := ∑ i ∈ Finset.range w, C (bit (a.getLsbD i)) * X ^ i

theorem coeff_poly (a : BitVec w) (i : Nat) : (poly a).coeff i = bit (a.getLsbD i) := by
  unfold poly
  rw [finsetSum_coeff]
  simp only [coeff_C_mul_X_pow]
  rw [Finset.sum_ite_eq]
  by_cases hi : i < w
  · rw [if_pos (Finset.mem_range.mpr hi)]
  · rw [if_neg (fun h => hi (Finset.mem_range.mp h)), BitVec.getLsbD_of_ge a i (by omega)]
    rfl

theorem poly_zero : poly 0#w = 0 := by
  ext i
  rw [coeff_poly, BitVec.getLsbD_zero]
  rfl

theorem poly_xor (a b : BitVec w) : poly (a ^^^ b) = poly a + poly b := by
  ext i
  rw [coeff_add, coeff_poly, coeff_poly, coeff_poly, BitVec.getLsbD_xor, bit_xor]

/-- A widened word shifted within its width. -/
theorem poly_shiftLeft (a : BitVec w) {n : Nat} (h : w + n ≤ v) : poly (a.setWidth v <<< n) = poly a * X ^ n := by
  ext i
  rw [coeff_poly, coeff_mul_X_pow', BitVec.getLsbD_shiftLeft, BitVec.getLsbD_setWidth]
  by_cases hn : n ≤ i
  · rw [if_pos hn, coeff_poly]
    by_cases hi : i < v
    · simp [hi, Nat.not_lt.mpr hn, show i - n < v by omega]
    · rw [BitVec.getLsbD_of_ge a (i - n) (by omega)]
      simp [bit]
  · rw [if_neg hn]
    simp [Nat.lt_of_not_le hn, bit]

/-- The polynomial of the low `n` bits. -/
noncomputable def low (a : BitVec w) (n : Nat) : (ZMod 2)[X] := ∑ i ∈ Finset.range n, C (bit (a.getLsbD i)) * X ^ i

theorem low_succ (a : BitVec w) (n : Nat) : low a (n + 1) = low a n + C (bit (a.getLsbD n)) * X ^ n :=
  Finset.sum_range_succ ..

/-- One round of a carry-less product: the multiplicand is added at a set bit of the multiplier. -/
def round (a : BitVec w) (b : BitVec v) (p : BitVec (w + v)) (i : Nat) : BitVec (w + v) :=
  if b.getLsbD i then p ^^^ (a.setWidth (w + v) <<< i) else p

/-- The rounds add up to the product with the low bits of the multiplier. -/
theorem poly_rounds (a : BitVec w) (b : BitVec v) {n : Nat} (hn : n ≤ v) :
    poly ((List.range n).foldl (round a b) 0) = poly a * low b n := by
  induction n with
  | zero =>
    unfold low
    rw [Finset.sum_range_zero, mul_zero]
    exact poly_zero
  | succ n ih =>
    rw [List.range_succ, List.foldl_append, List.foldl_cons, List.foldl_nil, low_succ, mul_add, ← ih (by omega)]
    unfold round
    split
    next hb =>
      rw [poly_xor, poly_shiftLeft a (by omega), hb]
      simp [bit]
    next hb =>
      rw [Bool.not_eq_true] at hb
      rw [hb]
      simp [bit]

theorem poly_product (a : BitVec w) (b : BitVec v) : poly ((List.range v).foldl (round a b) 0) = poly a * poly b :=
  poly_rounds a b (Nat.le_refl v)

end Quanta.Gf2
