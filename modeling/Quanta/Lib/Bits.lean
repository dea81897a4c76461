/-
Single-bit masks, as a library: `1 <<< k` read bit by bit, tested and cleared. Together with the
core lemmas on `&&&`, `|||` and `~~~` they turn a status-register update into a table of bits. At
the end, a word joined from two halves.
-/
import Mathlib.Data.BitVec

namespace Quanta.Bits

variable {w : Nat}

theorem getLsbD_mask {k i : Nat} (hi : i < w) : (1#w <<< k).getLsbD i = decide (i = k) := by
  have h : (1#w <<< k) = BitVec.twoPow w k := rfl
  rw [h, BitVec.getLsbD_twoPow]
  by_cases hk : i = k
  · subst hk
    simp [hi]
  · simp [hk, Ne.symm hk]

/-- Testing a bit with its mask. -/
theorem and_mask_ne_zero (s : BitVec w) {k : Nat} (hk : k < w) : s &&& 1#w <<< k ≠ 0 ↔ s.getLsbD k = true := by
  have h : (1#w <<< k) = BitVec.twoPow w k := rfl
  rw [h, BitVec.and_twoPow]
  constructor
  · intro h
    by_contra hn
    rw [if_neg hn] at h
    exact h rfl
  · intro hs h0
    rw [if_pos hs] at h0
    have hbit := congrArg (·.getLsbD k) h0
    simp [hk] at hbit

theorem getLsbD_not {s : BitVec w} {i : Nat} (hi : i < w) : (~~~s).getLsbD i = !s.getLsbD i := by
  rw [BitVec.getLsbD_not, decide_eq_true hi, Bool.true_and]

/-- Clearing the low `k` bits. -/
theorem and_not_low (x : BitVec w) {m : BitVec w} {k : Nat} (hm : ∀ i < w, m.getLsbD i = decide (i < k)) :
    x &&& ~~~m = x >>> k <<< k := by
  refine BitVec.eq_of_getLsbD_eq fun i hi => ?_
  rw [BitVec.getLsbD_and, getLsbD_not hi, hm i hi, BitVec.getLsbD_shiftLeft, BitVec.getLsbD_ushiftRight]
  by_cases hk : i < k
  · simp [hk]
  · simp [hk, hi, show k + (i - k) = i by omega]

/-- The mask of the low `n` bits. -/
theorem getLsbD_low {n : Nat} (hn : n < w) (i : Nat) : ((1#w <<< n) - 1#w).getLsbD i = decide (i < n) := by
  have hpow : 2 ^ n < 2 ^ w := Nat.pow_lt_pow_right (by decide) hn
  have hpos := Nat.two_pow_pos n
  have hone : (1#w).toNat = 1 := by
    rw [BitVec.toNat_ofNat]
    exact Nat.mod_eq_of_lt (by omega)
  have hsub : ((1#w <<< n) - 1#w).toNat = 2 ^ n - 1 := by
    rw [BitVec.toNat_sub, BitVec.toNat_shiftLeft, hone, Nat.shiftLeft_eq, Nat.one_mul, Nat.mod_eq_of_lt hpow,
      show 2 ^ w - 1 + 2 ^ n = 2 ^ n - 1 + 2 ^ w by omega, Nat.add_mod_right, Nat.mod_eq_of_lt (by omega)]
  rw [← BitVec.testBit_toNat, hsub, Nat.testBit_two_pow_sub_one]

variable {u v : Nat}

/-- Two halves joined by shift and or. -/
theorem shiftLeft_or_eq_append (hi : BitVec u) (lo : BitVec v) :
    (hi.setWidth (u + v) <<< v) ||| lo.setWidth (u + v) = hi ++ lo := by
  refine BitVec.eq_of_getLsbD_eq fun i h => ?_
  rw [BitVec.getLsbD_or, BitVec.getLsbD_shiftLeft, BitVec.getLsbD_setWidth, BitVec.getLsbD_setWidth,
    BitVec.getLsbD_append]
  by_cases hlow : i < v
  · simp [h, hlow]
  · simp [h, hlow, BitVec.getLsbD_of_ge lo i (by omega), show i - v < u + v by omega]

theorem append_eq_iff {hi : BitVec u} {lo : BitVec v} {x : BitVec (u + v)} :
    hi ++ lo = x ↔ x.extractLsb' v u = hi ∧ x.setWidth v = lo := by
  constructor
  · rintro rfl
    constructor
    · exact BitVec.extractLsb'_append_eq_left ..
    · exact BitVec.setWidth_append_eq_right ..
  · rintro ⟨rfl, rfl⟩
    refine BitVec.eq_of_getLsbD_eq fun i h => ?_
    rw [BitVec.getLsbD_append, BitVec.getLsbD_extractLsb', BitVec.getLsbD_setWidth]
    by_cases hlow : i < v
    · simp [hlow]
    · simp [hlow, show v + (i - v) = i by omega, show i - v < u by omega]

end Quanta.Bits
