/-
What the two-word and four-word helpers of `softfloat.c` compute, as arithmetic on the numbers the
words stand for.
-/
import Mathlib.Data.Nat.Log
import Mathlib.Tactic.Ring
import Mathlib.Tactic.Linarith
import Quanta.Float.Softfloat

namespace Quanta.Softfloat

variable (a : U256)

/-! ## Single words -/

theorem toNat_bit01 (p : Bool) : (bit01 p).toNat = p.toNat := by
  cases p <;> rfl

theorem toNat_one_shl {n : Nat} (hn : n < 64) : (1#64 <<< n).toNat = 2 ^ n := by
  rw [BitVec.toNat_shiftLeft, Nat.shiftLeft_eq, show (1#64).toNat = 1 from rfl, Nat.one_mul,
    Nat.mod_eq_of_lt (Nat.pow_lt_pow_right (by decide) hn)]

theorem toNat_lowMask {n : Nat} (hn : n < 64) : (lowMask n).toNat = 2 ^ n - 1 := by
  have hlt : 2 ^ n < 2 ^ 64 := Nat.pow_lt_pow_right (by decide) hn
  have hpos : 0 < 2 ^ n := Nat.two_pow_pos n
  have hshift : (1#64 <<< n).toNat = 2 ^ n := toNat_one_shl hn
  unfold lowMask
  rw [BitVec.toNat_sub, hshift, show (1 : BitVec 64).toNat = 1 from rfl]
  omega

theorem toNat_and_lowMask (x : BitVec 64) {n : Nat} (hn : n < 64) : (x &&& lowMask n).toNat = x.toNat % 2 ^ n := by
  rw [BitVec.toNat_and, toNat_lowMask hn, Nat.and_two_pow_sub_one_eq_mod]

theorem ne_zero_iff (x : BitVec 64) : (x != 0) = decide (x.toNat ≠ 0) := by
  by_cases h : x = 0
  · rw [h]
    rfl
  · have hne : x.toNat ≠ 0 := fun h0 => h (BitVec.eq_of_toNat_eq h0)
    rw [bne_iff_ne.mpr h, decide_eq_true hne]

/-- One step of the count: what is left is the number shifted by the count, with its top bit nearer the top. -/
theorem clzStep_spec {x k : Nat} {s : Nat × BitVec 64} {bound : BitVec 64} (hk : k ≤ 32) (hbound : bound.toNat = 2 ^ (64 - k) - 1)
    (hs : s.2.toNat = x * 2 ^ s.1) (hlow : 2 ^ (64 - 2 * k) ≤ s.2.toNat) :
    (clzStep bound k s).2.toNat = x * 2 ^ (clzStep bound k s).1 ∧ 2 ^ (64 - k) ≤ (clzStep bound k s).2.toNat := by
  have hpos : 0 < 2 ^ (64 - k) := Nat.two_pow_pos _
  unfold clzStep
  split
  · next hle =>
    rw [BitVec.ule_iff_toNat_le, hbound] at hle
    have hfit : s.2.toNat * 2 ^ k < 2 ^ 64 := by
      calc s.2.toNat * 2 ^ k < 2 ^ (64 - k) * 2 ^ k := Nat.mul_lt_mul_of_pos_right (by omega) (Nat.two_pow_pos k)
        _ = 2 ^ 64 := by rw [← Nat.pow_add, Nat.sub_add_cancel (by omega)]
    dsimp only
    rw [BitVec.toNat_shiftLeft, Nat.shiftLeft_eq, Nat.mod_eq_of_lt hfit]
    constructor
    · rw [hs, Nat.pow_add, Nat.mul_assoc]
    · calc 2 ^ (64 - k) = 2 ^ (64 - 2 * k) * 2 ^ k := by rw [← Nat.pow_add]; congr 1; omega
        _ ≤ s.2.toNat * 2 ^ k := Nat.mul_le_mul_right _ hlow
  · next hgt =>
    rw [BitVec.ule_iff_toNat_le, hbound] at hgt
    exact ⟨hs, by omega⟩

/-- `clz64` gives the binade of a nonzero word. -/
theorem clz64_spec {x : BitVec 64} (hx : x ≠ 0) : clz64 x ≤ 63 ∧ 2 ^ (63 - clz64 x) ≤ x.toNat ∧ x.toNat < 2 ^ (64 - clz64 x) := by
  have hpos : 1 ≤ x.toNat := Nat.pos_of_ne_zero fun h => hx (BitVec.eq_of_toNat_eq h)
  unfold clz64
  rw [if_neg hx]
  obtain ⟨e1, l1⟩ := @clzStep_spec x.toNat 32 (0, x) 0x00000000FFFFFFFF (by decide) (by decide) (by simp) hpos
  obtain ⟨e2, l2⟩ := @clzStep_spec x.toNat 16 _ 0x0000FFFFFFFFFFFF (by decide) (by decide) e1 l1
  obtain ⟨e3, l3⟩ := @clzStep_spec x.toNat 8 _ 0x00FFFFFFFFFFFFFF (by decide) (by decide) e2 l2
  obtain ⟨e4, l4⟩ := @clzStep_spec x.toNat 4 _ 0x0FFFFFFFFFFFFFFF (by decide) (by decide) e3 l3
  obtain ⟨e5, l5⟩ := @clzStep_spec x.toNat 2 _ 0x3FFFFFFFFFFFFFFF (by decide) (by decide) e4 l4
  obtain ⟨e6, l6⟩ := @clzStep_spec x.toNat 1 _ 0x7FFFFFFFFFFFFFFF (by decide) (by decide) e5 l5
  dsimp only
  generalize clzStep 0x7FFFFFFFFFFFFFFF 1 _ = s at e6 l6 ⊢
  have hfit : x.toNat * 2 ^ s.1 < 2 ^ 64 := e6 ▸ s.2.isLt
  rw [e6] at l6
  have hn : s.1 ≤ 63 := by
    by_contra hgt
    have : 2 ^ 64 ≤ 2 ^ s.1 := Nat.pow_le_pow_right (by decide) (by omega)
    have : 1 * 2 ^ s.1 ≤ x.toNat * 2 ^ s.1 := Nat.mul_le_mul_right _ hpos
    omega
  refine ⟨hn, ?_, ?_⟩
  · refine Nat.le_of_mul_le_mul_right ?_ (Nat.two_pow_pos s.1)
    rw [← Nat.pow_add, Nat.sub_add_cancel hn]
    exact l6
  · refine Nat.lt_of_mul_lt_mul_right (a := 2 ^ s.1) ?_
    rw [← Nat.pow_add, Nat.sub_add_cancel (by omega)]
    exact hfit

/-! ## Two words -/

namespace U128

def toNat (a : U128) : Nat := a.hi.toNat * 2 ^ 64 + a.lo.toNat

theorem toNat_lt (a : U128) : a.toNat < 2 ^ 128 := by
  have := a.hi.isLt
  have := a.lo.isLt
  unfold toNat
  omega

theorem toNat_lo (x : BitVec 64) : (⟨0, x⟩ : U128).toNat = x.toNat := by
  simp [toNat]

/-- The number modulo and divided by one word. -/
theorem toNat_mod (a : U128) : a.toNat % 2 ^ 64 = a.lo.toNat := by
  have := a.lo.isLt
  unfold toNat
  omega

theorem toNat_div (a : U128) : a.toNat / 2 ^ 64 = a.hi.toNat := by
  have := a.lo.isLt
  unfold toNat
  omega

theorem testBit_toNat (a : U128) (k : Nat) :
    a.toNat.testBit k = if k < 64 then a.lo.getLsbD k else a.hi.getLsbD (k - 64) := by
  unfold toNat
  rw [Nat.mul_comm, Nat.testBit_two_pow_mul_add a.hi.toNat a.lo.isLt]
  rfl

theorem eq_of_testBit {n : Nat} {a : U128} (h : ∀ k, a.toNat.testBit k = n.testBit k) : a.toNat = n :=
  Nat.eq_of_testBit_eq h

end U128

theorem is0128_iff (a : U128) : is0128 a = decide (a.toNat = 0) := by
  unfold is0128 U128.toNat
  by_cases hhi : a.hi = 0
  · by_cases hlo : a.lo = 0
    · simp [hhi, hlo]
    · have hne : a.lo.toNat ≠ 0 := fun h => hlo (BitVec.eq_of_toNat_eq h)
      have hlo0 : ¬a.lo = 0#64 := hlo
      simp [hhi, hlo0, hne]
  · have hne : a.hi.toNat ≠ 0 := fun h => hhi (BitVec.eq_of_toNat_eq h)
    rw [decide_eq_false (by omega), beq_eq_false_iff_ne]
    intro h
    exact hhi (BitVec.or_eq_zero_iff.mp h).1

/-- `msb128` gives the binade of a nonzero number. -/
theorem msb128_spec {a : U128} (ha : a.toNat ≠ 0) :
    ∃ k : Nat, msb128 a = k ∧ k ≤ 127 ∧ 2 ^ k ≤ a.toNat ∧ a.toNat < 2 ^ (k + 1) := by
  have hlo := a.lo.isLt
  unfold msb128 clz128
  split
  · next hhi =>
    obtain ⟨hn, h1, h2⟩ := clz64_spec hhi
    refine ⟨127 - clz64 a.hi, by omega, by omega, ?_, ?_⟩
    · calc 2 ^ (127 - clz64 a.hi) = 2 ^ (63 - clz64 a.hi) * 2 ^ 64 := by rw [← Nat.pow_add]; congr 1; omega
        _ ≤ a.hi.toNat * 2 ^ 64 := Nat.mul_le_mul_right _ h1
        _ ≤ a.toNat := Nat.le_add_right _ _
    · calc a.toNat < (a.hi.toNat + 1) * 2 ^ 64 := by unfold U128.toNat; omega
        _ ≤ 2 ^ (64 - clz64 a.hi) * 2 ^ 64 := Nat.mul_le_mul_right _ h2
        _ = 2 ^ (127 - clz64 a.hi + 1) := by rw [← Nat.pow_add]; congr 1; omega
  · next hhi =>
    have hhi0 : a.hi = 0 := not_not.mp hhi
    have heq : a.toNat = a.lo.toNat := by
      unfold U128.toNat
      simp [hhi0]
    have hlo0 : a.lo ≠ 0 := fun h => ha (by rw [heq, h]; rfl)
    obtain ⟨hn, h1, h2⟩ := clz64_spec hlo0
    refine ⟨63 - clz64 a.lo, by omega, by omega, heq ▸ h1, ?_⟩
    rw [heq, show 63 - clz64 a.lo + 1 = 64 - clz64 a.lo by omega]
    exact h2

theorem toNat_shl128 (a : U128) {n : Nat} (hn : n < 128) : (shl128 a n).toNat = a.toNat * 2 ^ n % 2 ^ 128 := by
  by_cases h0 : n = 0
  · subst h0
    rw [Nat.pow_zero, Nat.mul_one, Nat.mod_eq_of_lt a.toNat_lt]
    rfl
  have hshl : shl128 a n =
      if 64 ≤ n then ⟨a.lo <<< (n - 64), 0⟩ else ⟨(a.hi <<< n) ||| (a.lo >>> (64 - n)), a.lo <<< n⟩ :=
    if_neg (by omega)
  refine U128.eq_of_testBit fun k => ?_
  rw [Nat.testBit_mod_two_pow, Nat.testBit_mul_two_pow, U128.testBit_toNat, U128.testBit_toNat, hshl]
  by_cases hn64 : 64 ≤ n
  · -- a whole word and `n - 64` bits
    rw [if_pos hn64]
    by_cases hk : k < 64
    · simp [hk, show ¬n ≤ k by omega]
    by_cases hkn : n ≤ k
    · by_cases hk2 : k < 128
      · simp [hk, hkn, hk2, show k - n < 64 by omega, show k - 64 < 64 by omega, show ¬k - 64 < n - 64 by omega,
          show k - 64 - (n - 64) = k - n by omega]
      · simp [hk, hk2, show ¬k - 64 < 64 by omega]
    · simp [hk, hkn, show k - 64 < n - 64 by omega]
  · rw [if_neg hn64]
    by_cases hk : k < 64
    · by_cases hkn : k < n
      · simp [hk, hkn]
      · simp [hk, hkn, show k < 128 by omega, show k - n < 64 by omega, show n ≤ k by omega]
    · by_cases hkn : k < 64 + n
      · simp [hk, show k < 128 by omega, show n ≤ k by omega, show k - n < 64 by omega, show k - 64 < n by omega,
          show 64 - n + (k - 64) = k - n by omega]
      · simp [hk, show n ≤ k by omega, show ¬k - n < 64 by omega, show ¬k - 64 < n by omega,
          BitVec.getLsbD_of_ge a.lo (64 - n + (k - 64)) (by omega), show k - 64 - n = k - n - 64 by omega,
          show (k - 64 < 64 ↔ k < 128) by omega]

theorem shr128Jam_of_ge {a : U128} {n : Nat} (h : 64 ≤ n) (hn : n < 128) : shr128Jam a n =
    (⟨0, a.hi >>> (n - 64)⟩, a.lo ||| (if n - 64 ≠ 0 then a.hi &&& lowMask (n - 64) else 0) != 0) := by
  unfold shr128Jam
  rw [if_neg (by omega)]
  dsimp only [Int.toNat_natCast]
  rw [if_neg (by omega), if_pos h]

theorem shr128Jam_of_lt {a : U128} {n : Nat} (h0 : n ≠ 0) (hn : n < 64) : shr128Jam a n =
    (⟨a.hi >>> n, (a.lo >>> n) ||| (a.hi <<< (64 - n))⟩, a.lo &&& lowMask n != 0) := by
  unfold shr128Jam
  rw [if_neg (by omega)]
  dsimp only [Int.toNat_natCast]
  rw [if_neg (by omega), if_neg (by omega)]

/-- The floor of the shift, and whether bits were lost. -/
theorem shr128Jam_spec (a : U128) (n : Nat) :
    (shr128Jam a n).1.toNat = a.toNat / 2 ^ n ∧ (shr128Jam a n).2 = decide (a.toNat % 2 ^ n ≠ 0) := by
  have hlo := a.lo.isLt
  have hhi := a.hi.isLt
  by_cases h0 : n = 0
  · subst h0
    rw [Nat.pow_zero, Nat.div_one, Nat.mod_one]
    exact ⟨rfl, rfl⟩
  by_cases h128 : 128 ≤ n
  · have hlt : a.toNat < 2 ^ n := Nat.lt_of_lt_of_le a.toNat_lt (Nat.pow_le_pow_right (by decide) h128)
    have hall : shr128Jam a n = (⟨0, 0⟩, !is0128 a) := by
      unfold shr128Jam
      rw [if_neg (by omega)]
      exact if_pos h128
    rw [hall, Nat.div_eq_of_lt hlt, Nat.mod_eq_of_lt hlt, is0128_iff]
    exact ⟨by simp [U128.toNat], decide_not.symm⟩
  by_cases h64 : 64 ≤ n
  · rw [shr128Jam_of_ge h64 (by omega)]
    constructor
    · refine U128.eq_of_testBit fun k => ?_
      rw [Nat.testBit_div_two_pow, U128.testBit_toNat, U128.testBit_toNat]
      by_cases hk : k < 64
      · simp [hk, show ¬k + n < 64 by omega, show n - 64 + k = k + n - 64 by omega]
      · simp [hk, show ¬k + n < 64 by omega, BitVec.getLsbD_of_ge a.hi (k + n - 64) (by omega)]
    · -- the low word and the low bits of the high one
      have hmod : a.toNat % 2 ^ n = a.lo.toNat + 2 ^ 64 * (a.hi.toNat % 2 ^ (n - 64)) := by
        rw [show n = 64 + (n - 64) by omega, Nat.pow_add, Nat.mod_mul, a.toNat_mod, a.toNat_div,
          Nat.add_sub_cancel_left]
      have hmask : (if n - 64 ≠ 0 then a.hi &&& lowMask (n - 64) else 0).toNat = a.hi.toNat % 2 ^ (n - 64) := by
        split
        · exact toNat_and_lowMask _ (by omega)
        · next h =>
          rw [show n - 64 = 0 by omega, Nat.pow_zero, Nat.mod_one]
          rfl
      generalize (if n - 64 ≠ 0 then a.hi &&& lowMask (n - 64) else 0) = x at hmask
      rw [hmod, ← hmask, ne_zero_iff]
      refine decide_eq_decide.mpr (not_congr ?_)
      rw [BitVec.toNat_or, Nat.or_eq_zero_iff]
      omega
  · rw [shr128Jam_of_lt h0 (by omega)]
    constructor
    · refine U128.eq_of_testBit fun k => ?_
      rw [Nat.testBit_div_two_pow, U128.testBit_toNat, U128.testBit_toNat]
      by_cases hk : k < 64
      · by_cases hkn : k + n < 64
        · simp [hk, hkn, show k < 64 - n by omega, Nat.add_comm n k]
        · simp [hk, hkn, show ¬k < 64 - n by omega, show k - (64 - n) = k + n - 64 by omega,
            BitVec.getLsbD_of_ge a.lo (n + k) (by omega)]
          exact (BitVec.getLsbD_eq_getElem _).symm
      · simp [hk, show ¬k + n < 64 by omega, show n + (k - 64) = k + n - 64 by omega]
    · rw [ne_zero_iff, toNat_and_lowMask _ (by omega), ← a.toNat_mod,
        Nat.mod_mod_of_dvd _ (Nat.pow_dvd_pow 2 (by omega))]

theorem toNat_add128 (a b : U128) : (add128 a b).toNat = (a.toNat + b.toNat) % 2 ^ 128 := by
  have h1 := a.lo.isLt
  have h2 := b.lo.isLt
  have h3 := a.hi.isLt
  have h4 := b.hi.isLt
  have hcarry : (bit01 ((a.lo + b.lo).ult a.lo)).toNat = (a.lo.toNat + b.lo.toNat) / 2 ^ 64 := by
    rw [toNat_bit01, BitVec.ult_eq_decide, BitVec.toNat_add]
    by_cases h : a.lo.toNat + b.lo.toNat < 2 ^ 64
    · rw [decide_eq_false (by omega)]
      exact (Nat.div_eq_of_lt h).symm
    · rw [decide_eq_true (by omega)]
      show 1 = _
      omega
  simp only [add128, U128.toNat, BitVec.toNat_add, hcarry]
  omega

theorem toNat_sub128 {a b : U128} (h : b.toNat ≤ a.toNat) : (sub128 a b).toNat = a.toNat - b.toNat := by
  have h1 := a.lo.isLt
  have h2 := b.lo.isLt
  have h3 := a.hi.isLt
  have h4 := b.hi.isLt
  have hborrow : (bit01 (a.lo.ult b.lo)).toNat = if a.lo.toNat < b.lo.toNat then 1 else 0 := by
    rw [toNat_bit01, BitVec.ult_eq_decide]
    split
    · next h => rw [decide_eq_true h]; rfl
    · next h => rw [decide_eq_false h]; rfl
  unfold U128.toNat at h
  simp only [sub128, U128.toNat, BitVec.toNat_sub, hborrow]
  split <;> omega

theorem cmp128_nonneg (a b : U128) : 0 ≤ cmp128 a b ↔ b.toNat ≤ a.toNat := by
  have h1 := a.lo.isLt
  have h2 := b.lo.isLt
  unfold cmp128 U128.toNat
  simp only [ne_eq, BitVec.toNat_eq, BitVec.ult_eq_decide, decide_eq_true_eq]
  split_ifs <;> omega

/-- Two disjoint halves of a word. -/
theorem toNat_or_shiftLeft32 {x y : BitVec 64} (hx : x.toNat < 2 ^ 32) :
    (x ||| (y <<< 32)).toNat = 2 ^ 32 * (y.toNat % 2 ^ 32) + x.toNat := by
  have hy : (y <<< 32).toNat = 2 ^ 32 * (y.toNat % 2 ^ 32) := by
    rw [BitVec.toNat_shiftLeft, Nat.shiftLeft_eq]
    omega
  rw [BitVec.toNat_or, Nat.or_comm, hy, ← Nat.two_pow_add_eq_or_of_lt hx]

theorem toNat_low32 (x : BitVec 64) : ((x.setWidth 32).setWidth 64).toNat = x.toNat % 2 ^ 32 := by
  rw [BitVec.toNat_setWidth, BitVec.toNat_setWidth]
  omega

/-- The schoolbook product. -/
theorem toNat_mul64 (a b : BitVec 64) : (mul64 a b).toNat = a.toNat * b.toNat := by
  have hmul : ∀ {x y : Nat}, x < 2 ^ 32 → y < 2 ^ 32 → x * y ≤ (2 ^ 32 - 1) * (2 ^ 32 - 1) := fun hx hy =>
    Nat.mul_le_mul (by omega) (by omega)
  have ha : a.toNat = a.toNat / 2 ^ 32 * 2 ^ 32 + a.toNat % 2 ^ 32 := (Nat.div_add_mod' _ _).symm
  have hb : b.toNat = b.toNat / 2 ^ 32 * 2 ^ 32 + b.toNat % 2 ^ 32 := (Nat.div_add_mod' _ _).symm
  have hsum : a.toNat * b.toNat = a.toNat / 2 ^ 32 * (b.toNat / 2 ^ 32) * 2 ^ 64 +
      (a.toNat % 2 ^ 32 * (b.toNat / 2 ^ 32) + a.toNat / 2 ^ 32 * (b.toNat % 2 ^ 32)) * 2 ^ 32 +
      a.toNat % 2 ^ 32 * (b.toNat % 2 ^ 32) := by
    conv_lhs => rw [ha, hb]
    ring
  have hal : a.toNat % 2 ^ 32 < 2 ^ 32 := Nat.mod_lt _ (by decide)
  have hbl : b.toNat % 2 ^ 32 < 2 ^ 32 := Nat.mod_lt _ (by decide)
  have hah : a.toNat / 2 ^ 32 < 2 ^ 32 := by have := a.isLt; omega
  have hbh : b.toNat / 2 ^ 32 < 2 ^ 32 := by have := b.isLt; omega
  have hll := hmul hal hbl
  have hlh := hmul hal hbh
  have hhl := hmul hah hbl
  have hhh := hmul hah hbh
  have hlow : ∀ x : BitVec 64, (x &&& 0xffffffff#64).toNat = x.toNat % 2 ^ 32 := fun x => by
    rw [BitVec.toNat_and]
    exact Nat.and_two_pow_sub_one_eq_mod x.toNat 32
  rw [hsum]
  simp only [mul64, U128.toNat, BitVec.natCast_eq_ofNat]
  rw [toNat_or_shiftLeft32 (by rw [hlow]; exact Nat.mod_lt _ (by decide)), hlow]
  simp only [BitVec.toNat_add, BitVec.toNat_mul, BitVec.toNat_ushiftRight, toNat_low32, Nat.shiftRight_eq_div_pow]
  generalize a.toNat % 2 ^ 32 * (b.toNat % 2 ^ 32) = ll at *
  generalize a.toNat % 2 ^ 32 * (b.toNat / 2 ^ 32) = lh at *
  generalize a.toNat / 2 ^ 32 * (b.toNat % 2 ^ 32) = hl at *
  generalize a.toNat / 2 ^ 32 * (b.toNat / 2 ^ 32) = hh at *
  omega

/-! ## Long division -/

theorem toNat_bit (x : BitVec 64) (i : Nat) : ((x >>> i) &&& 1).toNat = x.toNat / 2 ^ i % 2 := by
  rw [BitVec.toNat_and, BitVec.toNat_ushiftRight, Nat.shiftRight_eq_div_pow]
  exact Nat.and_one_is_mod _

/-- Appending a bit below a shifted word. -/
theorem toNat_or_bit {x b : BitVec 64} (hb : b.toNat < 2) : ((x <<< 1) ||| b).toNat = 2 * x.toNat % 2 ^ 64 + b.toNat := by
  have hx : (x <<< 1).toNat = 2 ^ 1 * (x.toNat % 2 ^ 63) := by
    rw [BitVec.toNat_shiftLeft, Nat.shiftLeft_eq]
    omega
  rw [BitVec.toNat_or, hx, ← Nat.two_pow_add_eq_or_of_lt (by omega)]
  omega

/-- Setting a bit below all that are set. -/
theorem toNat_or_twoPow {q : BitVec 64} {i : Nat} (hi : i < 64) (hq : q.toNat % 2 ^ (i + 1) = 0) :
    (q ||| (1#64 <<< i)).toNat = q.toNat + 2 ^ i := by
  have hone : (1#64 <<< i).toNat = 2 ^ i := toNat_one_shl hi
  have hmul : q.toNat = 2 ^ (i + 1) * (q.toNat / 2 ^ (i + 1)) := (Nat.mul_div_cancel' (Nat.dvd_of_mod_eq_zero hq)).symm
  rw [BitVec.toNat_or, hone, hmul]
  exact (Nat.two_pow_add_eq_or_of_lt (Nat.pow_lt_pow_right (by decide) (Nat.lt_succ_self i)) _).symm

/-- One more digit of a number. -/
theorem div_two_pow_succ (n i : Nat) : n / 2 ^ i = 2 * (n / 2 ^ (i + 1)) + n / 2 ^ i % 2 := by
  rw [Nat.pow_succ, ← Nat.div_div_eq_div_mul]
  omega

/-- With `n` rounds to go the quotient and remainder are those of the leading digits, the quotient in place. -/
theorem udivRounds_spec {num : Nat} {lo den : BitVec 64} (hlo : lo.toNat = num % 2 ^ 64) {n : Nat} (hn : n ≤ 64)
    {s : BitVec 64 × BitVec 64} (hr : s.2.toNat < den.toNat) (hq : s.1.toNat % 2 ^ n = 0)
    (hs : s.1.toNat * den.toNat + s.2.toNat * 2 ^ n = num / 2 ^ n * 2 ^ n) :
    (udivRounds lo den s n).1.toNat * den.toNat + (udivRounds lo den s n).2.toNat = num ∧
      (udivRounds lo den s n).2.toNat < den.toNat := by
  induction n generalizing s with
  | zero =>
    rw [Nat.pow_zero, Nat.mul_one, Nat.mul_one, Nat.div_one] at hs
    exact ⟨hs, hr⟩
  | succ i ih =>
    have hbit : ((lo >>> i) &&& 1).toNat = num / 2 ^ i % 2 := by
      rw [toNat_bit, hlo, ← Nat.mod_mul_right_div_self, ← Nat.pow_succ,
        Nat.mod_mod_of_dvd _ (Nat.pow_dvd_pow 2 (by omega)), Nat.pow_succ, Nat.mod_mul_right_div_self]
    have hb2 : num / 2 ^ i % 2 < 2 := Nat.mod_lt _ (by decide)
    have hden := den.isLt
    -- the remainder with one more digit, before it is reduced
    have htotal : s.1.toNat * den.toNat + (2 * s.2.toNat + num / 2 ^ i % 2) * 2 ^ i = num / 2 ^ i * 2 ^ i := by
      calc s.1.toNat * den.toNat + (2 * s.2.toNat + num / 2 ^ i % 2) * 2 ^ i
          = s.1.toNat * den.toNat + s.2.toNat * 2 ^ (i + 1) + num / 2 ^ i % 2 * 2 ^ i := by ring
        _ = (2 * (num / 2 ^ (i + 1)) + num / 2 ^ i % 2) * 2 ^ i := by rw [hs]; ring
        _ = num / 2 ^ i * 2 ^ i := by rw [← div_two_pow_succ]
    have hstep := toNat_or_bit (x := s.2) (b := (lo >>> i) &&& 1) (by rw [hbit]; exact hb2)
    have hcarry : s.2.getLsbD 63 = decide (2 ^ 63 ≤ s.2.toNat) := by
      have := s.2.isLt
      rw [BitVec.getLsbD, Nat.testBit_eq_decide_div_mod_eq]
      exact decide_eq_decide.mpr (by omega)
    have hq0 : s.1.toNat % 2 ^ i = 0 :=
      Nat.mod_eq_zero_of_dvd (Nat.dvd_trans (Nat.pow_dvd_pow 2 (Nat.le_succ i)) (Nat.dvd_of_mod_eq_zero hq))
    rw [hbit] at hstep
    unfold udivRounds
    dsimp only
    by_cases hge : den.toNat ≤ 2 * s.2.toNat + num / 2 ^ i % 2
    · rw [if_pos (by
        rw [hcarry, Bool.or_eq_true, decide_eq_true_eq, BitVec.ule_iff_toNat_le, hstep]
        omega)]
      have hrem : ((s.2 <<< 1 ||| (lo >>> i) &&& 1) - den).toNat = 2 * s.2.toNat + num / 2 ^ i % 2 - den.toNat := by
        rw [BitVec.toNat_sub, hstep]
        omega
      have hquo := toNat_or_twoPow (by omega) hq
      refine ih (by omega) (by dsimp only; rw [hrem]; omega) ?_ ?_
      · dsimp only
        rw [hquo, Nat.add_mod, hq0, Nat.mod_self]
        rfl
      · dsimp only
        rw [hquo, hrem, ← htotal]
        obtain ⟨d, hd⟩ := Nat.exists_eq_add_of_le hge
        rw [hd, Nat.add_sub_cancel_left]
        ring
    · rw [if_neg (by
        rw [hcarry, Bool.or_eq_true, decide_eq_true_eq, BitVec.ule_iff_toNat_le, hstep]
        omega)]
      have hrem : (s.2 <<< 1 ||| (lo >>> i) &&& 1).toNat = 2 * s.2.toNat + num / 2 ^ i % 2 := by
        rw [hstep]
        omega
      refine ih (by omega) (by dsimp only; rw [hrem]; omega) hq0 ?_
      dsimp only
      rw [hrem]
      exact htotal

/-- Quotient and remainder, when the quotient fits a word. -/
theorem udiv128by64_spec {num : U128} {den : BitVec 64} (h : num.hi.toNat < den.toNat) :
    (udiv128by64 num den).1.toNat = num.toNat / den.toNat ∧ (udiv128by64 num den).2.toNat = num.toNat % den.toNat := by
  obtain ⟨heq, hlt⟩ := @udivRounds_spec num.toNat num.lo den num.toNat_mod.symm 64 (Nat.le_refl 64) (0, num.hi) h
    (by simp) (by rw [num.toNat_div]; simp)
  unfold udiv128by64
  generalize udivRounds num.lo den (0, num.hi) 64 = s at heq hlt ⊢
  rw [← heq]
  constructor
  · rw [Nat.mul_comm, Nat.mul_add_div (by omega), Nat.div_eq_of_lt hlt, Nat.add_zero]
  · rw [Nat.mul_comm, Nat.mul_add_mod, Nat.mod_eq_of_lt hlt]

/-! ## Square root by digits -/

theorem toNat_getBit128 (x : U128) {k : Nat} (hk : k < 128) : (getBit128 x k).toNat = x.toNat / 2 ^ k % 2 := by
  unfold getBit128
  rw [if_neg (by omega)]
  split
  · next h =>
    rw [toNat_bit, ← x.toNat_div, Nat.div_div_eq_div_mul, ← Nat.pow_add, show 64 + (k - 64) = k by omega]
  · next h =>
    rw [toNat_bit, ← x.toNat_mod, ← Nat.mod_mul_right_div_self, ← Nat.pow_succ,
      Nat.mod_mod_of_dvd _ (Nat.pow_dvd_pow 2 (by omega)), Nat.pow_succ, Nat.mod_mul_right_div_self]

/-- The next two binary digits of the radicand. -/
theorem toNat_digit (x : U128) {i : Nat} (hi : i < 64) :
    ((getBit128 x (2 * i + 1) <<< 1) ||| getBit128 x (2 * i)).toNat = x.toNat / 4 ^ i % 4 := by
  have hpow : 4 ^ i = 2 ^ (2 * i) := by rw [Nat.pow_mul]
  have hb : x.toNat / 2 ^ (2 * i) % 2 < 2 := Nat.mod_lt _ (by decide)
  rw [toNat_or_bit (by rw [toNat_getBit128 x (by omega)]; exact hb), toNat_getBit128 x (by omega),
    toNat_getBit128 x (by omega), hpow, Nat.pow_succ, ← Nat.div_div_eq_div_mul]
  omega

/-- With `n` rounds to go the root is that of the leading digits, and the remainder what its square leaves. -/
theorem isqrtRounds_spec {x : U128} {n : Nat} (hn : n ≤ 64) {s : BitVec 64 × U128}
    (hs : s.1.toNat * s.1.toNat + s.2.toNat = x.toNat / 4 ^ n) (hr : s.2.toNat ≤ 2 * s.1.toNat) :
    (isqrtRounds x s n).1.toNat * (isqrtRounds x s n).1.toNat + (isqrtRounds x s n).2.toNat = x.toNat ∧
      (isqrtRounds x s n).2.toNat ≤ 2 * (isqrtRounds x s n).1.toNat := by
  induction n generalizing s with
  | zero =>
    rw [Nat.pow_zero, Nat.div_one] at hs
    exact ⟨hs, hr⟩
  | succ i ih =>
    -- the root so far is below `2 ^ 63`, so nothing here wraps
    have hroot : s.1.toNat < 2 ^ 63 := by
      by_contra hge
      have hle : x.toNat / 4 ^ (i + 1) ≤ x.toNat / 4 := by
        rw [Nat.pow_succ', ← Nat.div_div_eq_div_mul]
        exact Nat.div_le_self _ _
      have hsq : 2 ^ 63 * 2 ^ 63 ≤ s.1.toNat * s.1.toNat := Nat.mul_le_mul (by omega) (by omega)
      have := x.toNat_lt
      omega
    have hdigit : x.toNat / 4 ^ i = 4 * (x.toNat / 4 ^ (i + 1)) + x.toNat / 4 ^ i % 4 := by
      rw [Nat.pow_succ, ← Nat.div_div_eq_div_mul]
      omega
    have hd4 : x.toNat / 4 ^ i % 4 < 4 := Nat.mod_lt _ (by decide)
    have hrem : (add128 (shl128 s.2 2) ⟨0, (getBit128 x (2 * i + 1) <<< 1) ||| getBit128 x (2 * i)⟩).toNat =
        4 * s.2.toNat + x.toNat / 4 ^ i % 4 := by
      have hshl := toNat_shl128 s.2 (n := 2) (by decide)
      rw [toNat_add128, U128.toNat_lo, toNat_digit x (by omega)]
      rw [show ((2 : Nat) : Int) = 2 from rfl] at hshl
      rw [hshl]
      omega
    have htrial : (add128 (shl128 ⟨0, s.1⟩ 2) ⟨0, 1⟩).toNat = 4 * s.1.toNat + 1 := by
      have hshl := toNat_shl128 ⟨0, s.1⟩ (n := 2) (by decide)
      rw [show ((2 : Nat) : Int) = 2 from rfl, U128.toNat_lo] at hshl
      rw [toNat_add128, U128.toNat_lo, hshl, show (1 : BitVec 64).toNat = 1 from rfl]
      omega
    have hodd := toNat_or_bit (x := s.1) (b := 1) (by decide)
    have heven : (s.1 <<< 1).toNat = 2 * s.1.toNat := by
      rw [BitVec.toNat_shiftLeft, Nat.shiftLeft_eq]
      omega
    rw [show (1 : BitVec 64).toNat = 1 from rfl] at hodd
    rw [hdigit, ← hs] at ih
    unfold isqrtRounds
    dsimp only
    generalize add128 (shl128 s.2 2) ⟨0, (getBit128 x (2 * i + 1) <<< 1) ||| getBit128 x (2 * i)⟩ = rem at hrem ⊢
    generalize add128 (shl128 ⟨0, s.1⟩ 2) ⟨0, 1⟩ = trial at htrial ⊢
    by_cases hge : 4 * s.1.toNat + 1 ≤ 4 * s.2.toNat + x.toNat / 4 ^ i % 4
    · rw [if_pos ((cmp128_nonneg rem trial).mpr (by omega))]
      have hsub := @toNat_sub128 rem trial (by omega)
      rw [hrem, htrial] at hsub
      obtain ⟨d, hd⟩ := Nat.exists_eq_add_of_le hge
      rw [hd, Nat.add_sub_cancel_left] at hsub
      rw [Nat.mod_eq_of_lt (by omega)] at hodd
      refine ih (by omega) ?_ ?_
      · -- `(2r + 1)^2 = 4r^2 + (4r + 1)`
        dsimp only
        rw [hodd, hsub]
        calc (2 * s.1.toNat + 1) * (2 * s.1.toNat + 1) + d
            = 4 * (s.1.toNat * s.1.toNat) + (4 * s.1.toNat + 1 + d) := by ring
          _ = 4 * (s.1.toNat * s.1.toNat + s.2.toNat) + x.toNat / 4 ^ i % 4 := by rw [← hd]; ring
      · dsimp only
        rw [hodd, hsub]
        omega
    · rw [if_neg (fun h => absurd ((cmp128_nonneg rem trial).mp h) (by omega))]
      refine ih (by omega) ?_ ?_
      · dsimp only
        rw [hrem, heven]
        ring
      · dsimp only
        rw [hrem, heven]
        omega

/-- The floor of the square root, and whether the radicand is a square. -/
theorem isqrt128_spec (x : U128) : (isqrt128 x).1.toNat = Nat.sqrt x.toNat ∧
    (isqrt128 x).2 = decide (Nat.sqrt x.toNat * Nat.sqrt x.toNat ≠ x.toNat) := by
  obtain ⟨heq, hle⟩ := @isqrtRounds_spec x 64 (Nat.le_refl 64) (0, ⟨0, 0⟩)
    (by rw [Nat.div_eq_of_lt (Nat.lt_of_lt_of_le x.toNat_lt (by decide))]; simp [U128.toNat]) (by simp [U128.toNat])
  unfold isqrt128
  dsimp only
  generalize isqrtRounds x (0, ⟨0, 0⟩) 64 = s at heq hle ⊢
  have hsqrt : s.1.toNat = Nat.sqrt x.toNat := by
    rw [Nat.eq_sqrt]
    constructor
    · omega
    · have : (s.1.toNat + 1) * (s.1.toNat + 1) = s.1.toNat * s.1.toNat + 2 * s.1.toNat + 1 := by ring
      omega
  refine ⟨hsqrt, ?_⟩
  rw [← hsqrt, is0128_iff, ← decide_not]
  exact decide_eq_decide.mpr (by omega)

/-! ## Four words -/

/-- The number the low `n` words stand for. -/
def valueWords (a : U256) : Nat → Nat
  | 0 => 0
  | n + 1 => 2 ^ (64 * n) * (a n).toNat + valueWords a n

def U256.toNat (a : U256) : Nat := valueWords a 4

theorem valueWords_lt (n : Nat) : valueWords a n < 2 ^ (64 * n) := by
  induction n with
  | zero => exact Nat.one_pos
  | succ n ih =>
    have hw : (a n).toNat + 1 ≤ 2 ^ 64 := (a n).isLt
    calc valueWords a (n + 1) < 2 ^ (64 * n) * (a n).toNat + 2 ^ (64 * n) := Nat.add_lt_add_left ih _
      _ = 2 ^ (64 * n) * ((a n).toNat + 1) := by ring
      _ ≤ 2 ^ (64 * n) * 2 ^ 64 := Nat.mul_le_mul_left _ hw
      _ = 2 ^ (64 * (n + 1)) := by rw [← Nat.pow_add, Nat.mul_succ]

theorem valueWords_congr {a b : U256} {n : Nat} (h : ∀ i < n, a i = b i) : valueWords a n = valueWords b n := by
  induction n with
  | zero => rfl
  | succ n ih =>
    unfold valueWords
    rw [h n (Nat.lt_succ_self n), ih fun i hi => h i (Nat.lt_succ_of_lt hi)]

theorem testBit_valueWords (n k : Nat) :
    (valueWords a n).testBit k = (decide (k < 64 * n) && (a (k / 64)).getLsbD (k % 64)) := by
  induction n with
  | zero => simp [valueWords]
  | succ n ih =>
    unfold valueWords
    rw [Nat.testBit_two_pow_mul_add _ (valueWords_lt a n), ih]
    by_cases hk : k < 64 * n
    · simp [hk, show k < 64 * (n + 1) by omega]
    · by_cases hk' : k < 64 * (n + 1)
      · rw [if_neg hk, decide_eq_true hk', Bool.true_and, show k / 64 = n by omega, show k % 64 = k - 64 * n by omega]
        rfl
      · rw [if_neg hk, decide_eq_false hk', Bool.false_and]
        exact Nat.testBit_lt_two_pow (Nat.lt_of_lt_of_le (a n).isLt (Nat.pow_le_pow_right (by decide) (by omega)))

theorem testBit_toNat256 (k : Nat) :
    (U256.toNat a).testBit k = (decide (k < 256) && (a (k / 64)).getLsbD (k % 64)) :=
  testBit_valueWords a 4 k

theorem toNat256_lt : U256.toNat a < 2 ^ 256 := valueWords_lt a 4

theorem toNat_u256From128 (a : U128) : U256.toNat (u256From128 a) = a.toNat := by
  simp only [U256.toNat, valueWords, u256From128, U128.toNat]
  simp
  omega

/-- The two low words, when nothing is above them. -/
theorem toNat_lowWords {a : U256} (h : U256.toNat a < 2 ^ 128) : (⟨a 1, a 0⟩ : U128).toNat = U256.toNat a := by
  have h0 := (a 0).isLt
  have h1 := (a 1).isLt
  simp only [U256.toNat, valueWords, U128.toNat] at h ⊢
  omega

theorem is0256_iff : is0256 a = decide (U256.toNat a = 0) := by
  have hor : is0256 a = true ↔ U256.toNat a = 0 := by
    unfold is0256
    rw [beq_iff_eq]
    constructor
    · intro h
      obtain ⟨h, h3⟩ := BitVec.or_eq_zero_iff.mp h
      obtain ⟨h, h2⟩ := BitVec.or_eq_zero_iff.mp h
      obtain ⟨h0, h1⟩ := BitVec.or_eq_zero_iff.mp h
      simp [U256.toNat, valueWords, h0, h1, h2, h3]
    · intro h
      simp only [U256.toNat, valueWords] at h
      have hz : ∀ i : Nat, (a i).toNat = 0 → a i = 0 := fun i hi => BitVec.eq_of_toNat_eq hi
      rw [hz 0 (by omega), hz 1 (by omega), hz 2 (by omega), hz 3 (by omega)]
      rfl
  rw [Bool.eq_iff_iff, hor, decide_eq_true_eq]

/-- `msb256` gives the binade of a nonzero number. -/
theorem msbWords_spec {a : U256} {n : Nat} (h : valueWords a n ≠ 0) :
    ∃ k : Nat, msbWords a n = k ∧ k < 64 * n ∧ 2 ^ k ≤ valueWords a n ∧ valueWords a n < 2 ^ (k + 1) := by
  induction n with
  | zero => exact absurd rfl h
  | succ n ih =>
    have hlt := valueWords_lt a n
    unfold valueWords at h ⊢
    unfold msbWords
    split
    · next hw =>
      obtain ⟨hc, h1, h2⟩ := clz64_spec hw
      refine ⟨64 * n + (63 - clz64 (a n)), by omega, by omega, ?_, ?_⟩
      · rw [Nat.pow_add]
        exact Nat.le_add_right_of_le (Nat.mul_le_mul_left _ h1)
      · calc 2 ^ (64 * n) * (a n).toNat + valueWords a n < 2 ^ (64 * n) * ((a n).toNat + 1) := by
              rw [Nat.mul_succ]
              omega
          _ ≤ 2 ^ (64 * n) * 2 ^ (64 - clz64 (a n)) := Nat.mul_le_mul_left _ h2
          _ = 2 ^ (64 * n + (63 - clz64 (a n)) + 1) := by rw [← Nat.pow_add]; congr 1; omega
    · next hw =>
      have hz : (a n).toNat = 0 := by rw [not_not.mp hw]; rfl
      rw [hz, Nat.mul_zero, Nat.zero_add] at h ⊢
      obtain ⟨k, hk, hlt, hlo, hhi⟩ := ih h
      exact ⟨k, hk, by omega, hlo, hhi⟩

/-- A word of a sum and the carry out of it. -/
theorem addWord_spec {a b c : BitVec 64} (hc : c.toNat ≤ 1) :
    (addWord a b c).1.toNat + 2 ^ 64 * (addWord a b c).2.toNat = a.toNat + b.toNat + c.toNat ∧
      (addWord a b c).2.toNat ≤ 1 := by
  have ha := a.isLt
  have hb := b.isLt
  simp only [addWord, BitVec.toNat_add, toNat_bit01, BitVec.ult_eq_decide]
  by_cases h1 : (a.toNat + c.toNat) % 2 ^ 64 < c.toNat <;>
    by_cases h2 : ((a.toNat + c.toNat) % 2 ^ 64 + b.toNat) % 2 ^ 64 < b.toNat <;>
    simp only [h1, h2, decide_true, decide_false, Bool.toNat_true, Bool.toNat_false] <;> omega

theorem carry256_spec (a b : U256) (n : Nat) :
    valueWords (fun i => (addWord (a i) (b i) (carry256 a b i)).1) n + 2 ^ (64 * n) * (carry256 a b n).toNat =
      valueWords a n + valueWords b n ∧ (carry256 a b n).toNat ≤ 1 := by
  induction n with
  | zero => exact ⟨rfl, Nat.zero_le 1⟩
  | succ n ih =>
    obtain ⟨hsum, hc⟩ := ih
    obtain ⟨hword, hc'⟩ := @addWord_spec (a n) (b n) _ hc
    refine ⟨?_, hc'⟩
    unfold valueWords
    dsimp only [carry256]
    rw [show 64 * (n + 1) = 64 * n + 64 by ring, Nat.pow_add]
    generalize (addWord (a n) (b n) (carry256 a b n)).1.toNat = r at hword ⊢
    generalize (addWord (a n) (b n) (carry256 a b n)).2.toNat = c' at hword ⊢
    generalize valueWords (fun i => (addWord (a i) (b i) (carry256 a b i)).1) n = v at hsum ⊢
    calc 2 ^ (64 * n) * r + v + 2 ^ (64 * n) * 2 ^ 64 * c'
        = 2 ^ (64 * n) * (r + 2 ^ 64 * c') + v := by ring
      _ = 2 ^ (64 * n) * ((a n).toNat + (b n).toNat) + (v + 2 ^ (64 * n) * (carry256 a b n).toNat) := by rw [hword]; ring
      _ = _ := by rw [hsum]; ring

theorem toNat_add256 {a b : U256} (h : U256.toNat a + U256.toNat b < 2 ^ 256) :
    U256.toNat (add256 a b) = U256.toNat a + U256.toNat b := by
  obtain ⟨hsum, -⟩ := carry256_spec a b 4
  have hval : U256.toNat (add256 a b) = valueWords (fun i => (addWord (a i) (b i) (carry256 a b i)).1) 4 :=
    valueWords_congr fun i hi => if_pos hi
  unfold U256.toNat at *
  rw [hval]
  omega

/-- A word of a difference and the borrow out of it. -/
theorem subWordBorrow_spec {a b c : BitVec 64} (hc : c.toNat ≤ 1) :
    (subWordBorrow a b c).1.toNat + b.toNat + c.toNat = a.toNat + 2 ^ 64 * (subWordBorrow a b c).2.toNat ∧
      (subWordBorrow a b c).2.toNat ≤ 1 := by
  have ha := a.isLt
  have hb := b.isLt
  simp only [subWordBorrow, BitVec.toNat_add, BitVec.toNat_sub, toNat_bit01, BitVec.ult_eq_decide]
  by_cases h1 : (b.toNat + c.toNat) % 2 ^ 64 < c.toNat <;>
    by_cases h2 : a.toNat < (b.toNat + c.toNat) % 2 ^ 64 <;>
    simp only [h1, h2, decide_true, decide_false, Bool.toNat_true, Bool.toNat_false] <;> omega

theorem borrow256_spec (a b : U256) (n : Nat) :
    valueWords (fun i => (subWordBorrow (a i) (b i) (borrow256 a b i)).1) n + valueWords b n =
      valueWords a n + 2 ^ (64 * n) * (borrow256 a b n).toNat ∧ (borrow256 a b n).toNat ≤ 1 := by
  induction n with
  | zero => exact ⟨rfl, Nat.zero_le 1⟩
  | succ n ih =>
    obtain ⟨hdiff, hc⟩ := ih
    obtain ⟨hword, hc'⟩ := @subWordBorrow_spec (a n) (b n) _ hc
    refine ⟨?_, hc'⟩
    unfold valueWords
    dsimp only [borrow256]
    rw [show 64 * (n + 1) = 64 * n + 64 by ring, Nat.pow_add]
    generalize (subWordBorrow (a n) (b n) (borrow256 a b n)).1.toNat = r at hword ⊢
    generalize (subWordBorrow (a n) (b n) (borrow256 a b n)).2.toNat = c' at hword ⊢
    generalize valueWords (fun i => (subWordBorrow (a i) (b i) (borrow256 a b i)).1) n = v at hdiff ⊢
    have hscaled : 2 ^ (64 * n) * (r + (b n).toNat + (borrow256 a b n).toNat) =
        2 ^ (64 * n) * ((a n).toNat + 2 ^ 64 * c') := by rw [hword]
    linarith

theorem toNat_sub256 {a b : U256} (h : U256.toNat b ≤ U256.toNat a) :
    U256.toNat (sub256 a b) = U256.toNat a - U256.toNat b := by
  obtain ⟨hdiff, hc⟩ := borrow256_spec a b 4
  have hval : U256.toNat (sub256 a b) = valueWords (fun i => (subWordBorrow (a i) (b i) (borrow256 a b i)).1) 4 :=
    valueWords_congr fun i hi => if_pos hi
  have hlt := valueWords_lt (fun i => (subWordBorrow (a i) (b i) (borrow256 a b i)).1) 4
  unfold U256.toNat at *
  rw [hval]
  omega

theorem cmpWords_spec (a b : U256) (n : Nat) :
    (0 < cmpWords a b n ↔ valueWords b n < valueWords a n) ∧ (cmpWords a b n < 0 ↔ valueWords a n < valueWords b n) := by
  induction n with
  | zero => simp [cmpWords, valueWords]
  | succ n ih =>
    have ha := valueWords_lt a n
    have hb := valueWords_lt b n
    -- a difference in the top word outweighs everything below
    have htop : ∀ {x y u v : Nat}, u < 2 ^ (64 * n) → x < y → 2 ^ (64 * n) * x + u < 2 ^ (64 * n) * y + v := by
      intro x y u v hu hxy
      calc 2 ^ (64 * n) * x + u < 2 ^ (64 * n) * (x + 1) := by rw [Nat.mul_succ]; omega
        _ ≤ 2 ^ (64 * n) * y := Nat.mul_le_mul_left _ hxy
        _ ≤ 2 ^ (64 * n) * y + v := Nat.le_add_right _ _
    unfold cmpWords valueWords
    by_cases heq : a n = b n
    · rw [if_neg (not_not_intro heq), heq]
      omega
    · rw [if_pos heq]
      rcases Nat.lt_or_gt_of_ne fun h => heq (BitVec.eq_of_toNat_eq h) with hlt | hgt
      · have hv := @htop _ _ (valueWords a n) (valueWords b n) ha hlt
        rw [if_pos (by rwa [BitVec.ult_iff_toNat_lt])]
        omega
      · have hv := @htop _ _ (valueWords b n) (valueWords a n) hb hgt
        rw [if_neg (by rw [BitVec.ult_iff_toNat_lt]; omega)]
        omega

/-- A bit of a word shifted left with the top of the next lower word `y` moved in, if there is one. -/
theorem getLsbD_shiftIn_left (x y : BitVec 64) (p : Prop) [Decidable p] {s b : Nat} (hs : s < 64) (hb : b < 64) :
    ((x <<< s) ||| (if s ≠ 0 ∧ p then y >>> (64 - s) else 0)).getLsbD b =
      if s ≤ b then x.getLsbD (b - s) else decide p && y.getLsbD (64 - s + b) := by
  rw [BitVec.getLsbD_or, BitVec.getLsbD_shiftLeft, decide_eq_true hb, Bool.true_and]
  by_cases hsb : s ≤ b
  · have hy : y.getLsbD (64 - s + b) = false := BitVec.getLsbD_of_ge _ _ (by omega)
    rw [if_pos hsb, decide_eq_false (by omega)]
    split <;> simp [hy]
  · rw [if_neg hsb, decide_eq_true (by omega)]
    by_cases hp : p
    · rw [if_pos ⟨by omega, hp⟩]
      simp [hp]
    · rw [if_neg fun h => hp h.2]
      simp [hp]

/-- The same to the right, with the bottom of the next higher word. -/
theorem getLsbD_shiftIn_right (x y : BitVec 64) (p : Prop) [Decidable p] {s b : Nat} (hs : s < 64) (hb : b < 64) :
    ((x >>> s) ||| (if s ≠ 0 ∧ p then y <<< (64 - s) else 0)).getLsbD b =
      if b + s < 64 then x.getLsbD (b + s) else decide p && y.getLsbD (b + s - 64) := by
  rw [BitVec.getLsbD_or, BitVec.getLsbD_ushiftRight, Nat.add_comm s b]
  by_cases hsb : b + s < 64
  · rw [if_pos hsb]
    split
    · rw [BitVec.getLsbD_shiftLeft, decide_eq_true (show b < 64 - s by omega)]
      simp
    · simp
  · have hx : x.getLsbD (b + s) = false := BitVec.getLsbD_of_ge _ _ (by omega)
    rw [if_neg hsb, hx, Bool.false_or]
    by_cases hp : p
    · rw [if_pos ⟨by omega, hp⟩, BitVec.getLsbD_shiftLeft, decide_eq_true hb, decide_eq_false (by omega),
        show b - (64 - s) = b + s - 64 by omega]
      simp [hp]
    · rw [if_neg fun h => hp h.2]
      simp [hp]

theorem toNat_shl128to256 (a : U128) {n : Nat} (hn : n < 256) :
    U256.toNat (shl128to256 a n) = a.toNat * 2 ^ n % 2 ^ 256 := by
  refine Nat.eq_of_testBit_eq fun k => ?_
  rw [testBit_toNat256, Nat.testBit_mod_two_pow, Nat.testBit_mul_two_pow, ← toNat_u256From128, testBit_toNat256]
  by_cases hk : k < 256
  swap
  · rw [decide_eq_false hk, Bool.false_and, Bool.false_and]
  simp only [shl128to256, Int.toNat_natCast, hk, decide_true, Bool.true_and]
  generalize u256From128 a = s
  by_cases hword : k / 64 < n / 64
  · rw [if_pos (Or.inr (Or.inr hword)), decide_eq_false (by omega), Bool.false_and]
    exact BitVec.getLsbD_zero
  rw [if_neg (by omega), getLsbD_shiftIn_left _ _ _ (Nat.mod_lt _ (by decide)) (Nat.mod_lt _ (by decide))]
  split
  · next hbit =>
    rw [decide_eq_true (show n ≤ k by omega), decide_eq_true (show k - n < 256 by omega),
      show (k - n) / 64 = k / 64 - n / 64 by omega, show (k - n) % 64 = k % 64 - n % 64 by omega]
    rfl
  · next hbit =>
    by_cases hnk : n ≤ k
    · rw [decide_eq_true hnk, decide_eq_true (show k - n < 256 by omega), decide_eq_true (by omega),
        show (k - n) / 64 = k / 64 - n / 64 - 1 by omega, show (k - n) % 64 = 64 - n % 64 + k % 64 by omega]
      rfl
    · rw [decide_eq_false hnk, decide_eq_false (by omega), Bool.false_and, Bool.false_and]

theorem valueWords_ne_zero_iff (n : Nat) :
    valueWords a n ≠ 0 ↔ (List.range n).any (fun i => a i != 0) = true := by
  induction n with
  | zero => simp [valueWords]
  | succ n ih =>
    have hpow : 2 ^ (64 * n) ≠ 0 := (Nat.two_pow_pos _).ne'
    unfold valueWords
    rw [List.range_succ, List.any_append, Bool.or_eq_true, ← ih, List.any_cons, List.any_nil, Bool.or_false,
      ne_zero_iff, decide_eq_true_eq, ne_eq, Nat.add_eq_zero_iff, Nat.mul_eq_zero]
    tauto

/-- The low words are the number modulo what they hold. -/
theorem valueWords_mod {w n : Nat} (h : w ≤ n) : valueWords a n % 2 ^ (64 * w) = valueWords a w := by
  refine Nat.eq_of_testBit_eq fun k => ?_
  rw [Nat.testBit_mod_two_pow, testBit_valueWords, testBit_valueWords]
  by_cases hk : k < 64 * w
  · rw [decide_eq_true hk, decide_eq_true (show k < 64 * n by omega)]
    rfl
  · rw [decide_eq_false hk, Bool.false_and, Bool.false_and]

theorem shr256Jam_of_lt {a : U256} {n : Nat} (h0 : n ≠ 0) (hn : n < 256) : shr256Jam a n =
    (fun i =>
      if i + n / 64 < 4 then
        (a (i + n / 64) >>> (n % 64)) |||
          (if n % 64 ≠ 0 ∧ i + n / 64 + 1 < 4 then a (i + n / 64 + 1) <<< (64 - n % 64) else 0)
      else 0,
      (List.range (n / 64)).any (fun i => a i != 0) || (n % 64 != 0 && a (n / 64) &&& lowMask (n % 64) != 0)) := by
  unfold shr256Jam
  rw [if_neg (by omega)]
  dsimp only [Int.toNat_natCast]
  rw [if_neg (by omega)]

theorem shr256Jam_spec (n : Nat) :
    U256.toNat (shr256Jam a n).1 = U256.toNat a / 2 ^ n ∧ (shr256Jam a n).2 = decide (U256.toNat a % 2 ^ n ≠ 0) := by
  by_cases h0 : n = 0
  · subst h0
    rw [Nat.pow_zero, Nat.div_one, Nat.mod_one]
    exact ⟨rfl, rfl⟩
  by_cases h256 : 256 ≤ n
  · have hlt : U256.toNat a < 2 ^ n := Nat.lt_of_lt_of_le (toNat256_lt a) (Nat.pow_le_pow_right (by decide) h256)
    have hall : shr256Jam a n = (fun _ => 0, !is0256 a) := by
      unfold shr256Jam
      rw [if_neg (by omega)]
      exact if_pos h256
    rw [hall, Nat.div_eq_of_lt hlt, Nat.mod_eq_of_lt hlt, is0256_iff]
    exact ⟨by simp [U256.toNat, valueWords], decide_not.symm⟩
  rw [shr256Jam_of_lt h0 (by omega)]
  constructor
  · refine Nat.eq_of_testBit_eq fun k => ?_
    rw [testBit_toNat256, Nat.testBit_div_two_pow, testBit_toNat256]
    dsimp only
    split
    · next hword =>
      rw [getLsbD_shiftIn_right _ _ _ (Nat.mod_lt _ (by decide)) (Nat.mod_lt _ (by decide)),
        decide_eq_true (show k < 256 by omega), Bool.true_and]
      split
      · next hbit =>
        rw [decide_eq_true (show k + n < 256 by omega), show (k + n) / 64 = k / 64 + n / 64 by omega,
          show (k + n) % 64 = k % 64 + n % 64 by omega]
        rfl
      · next hbit =>
        rw [show (k + n) / 64 = k / 64 + n / 64 + 1 by omega, show (k + n) % 64 = k % 64 + n % 64 - 64 by omega]
        exact congrArg (· && _) (decide_eq_decide.mpr (by omega))
    · next hword =>
      rw [decide_eq_false (show ¬k + n < 256 by omega), Bool.false_and]
      exact Bool.and_eq_false_iff.mpr (Or.inr BitVec.getLsbD_zero)
  · -- the words below, and the low bits of the word the shift ends in
    have hmod : U256.toNat a % 2 ^ n = valueWords a (n / 64) + 2 ^ (64 * (n / 64)) * ((a (n / 64)).toNat % 2 ^ (n % 64)) := by
      have hsucc := valueWords_mod a (show n / 64 + 1 ≤ 4 by omega)
      have hle : 2 ^ n ∣ 2 ^ (64 * (n / 64 + 1)) := Nat.pow_dvd_pow 2 (by omega)
      have hn : 2 ^ n = 2 ^ (64 * (n / 64)) * 2 ^ (n % 64) := by rw [← Nat.pow_add]; congr 1; omega
      have hlt := valueWords_lt a (n / 64)
      unfold U256.toNat
      rw [← Nat.mod_mod_of_dvd _ hle, hsucc, hn, Nat.mod_mul, valueWords, Nat.mul_add_mod, Nat.mod_eq_of_lt hlt,
        Nat.mul_add_div (Nat.two_pow_pos _), Nat.div_eq_of_lt hlt, Nat.add_zero]
    have hpow : 2 ^ (64 * (n / 64)) ≠ 0 := (Nat.two_pow_pos _).ne'
    rw [hmod, Bool.eq_iff_iff, Bool.or_eq_true, ← valueWords_ne_zero_iff, Bool.and_eq_true, ne_zero_iff,
      toNat_and_lowMask _ (Nat.mod_lt _ (by decide)), decide_eq_true_eq, decide_eq_true_eq, bne_iff_ne, ne_eq, ne_eq,
      ne_eq, ne_eq, Nat.add_eq_zero_iff, Nat.mul_eq_zero]
    by_cases hz : n % 64 = 0
    · simp [hz, Nat.mod_one]
    · tauto

end Quanta.Softfloat
