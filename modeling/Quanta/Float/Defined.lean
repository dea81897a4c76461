/-
`softfloat.c` is defined C: on every operand, in both formats and all rounding modes, the checked
operations return what the unchecked ones compute. The one exception is the negation of a rounded
magnitude of `2^63` when `-2^63` is converted to a signed 64-bit integer.
-/
import Quanta.Float.Checked
import Quanta.Float.Compare
import Quanta.Float.Convert
import Quanta.Float.Arith

namespace Quanta.Softfloat.Checked

open CArith

variable (a : U128)

/-! ## Words -/

theorem clzStep_eq {bound : BitVec 64} {k : Nat} {s : Nat × BitVec 64} (hk : k < 64) (hn : s.1 ≤ 64) :
    clzStep bound k (s.1, s.2) =
      some (((Softfloat.clzStep bound k s).1 : Int), (Softfloat.clzStep bound k s).2) := by
  unfold clzStep Softfloat.clzStep
  split
  · simp (disch := omega) only [int_eq, shl_eq, Option.bind_eq_bind, Option.bind_some]
    rfl
  · rfl

theorem clzStep_le (bound : BitVec 64) (k : Nat) (s : Nat × BitVec 64) : (Softfloat.clzStep bound k s).1 ≤ s.1 + k := by
  unfold Softfloat.clzStep
  split
  · exact le_rfl
  · exact Nat.le_add_right _ _

theorem clz64_eq (x : BitVec 64) : clz64 x = some (Softfloat.clz64 x : Int) := by
  unfold clz64 Softfloat.clz64
  split
  · rfl
  · -- each step is defined as long as the count is small
    dsimp only
    generalize h1 : Softfloat.clzStep 0x00000000FFFFFFFF 32 (0, x) = s1
    generalize h2 : Softfloat.clzStep 0x0000FFFFFFFFFFFF 16 s1 = s2
    generalize h3 : Softfloat.clzStep 0x00FFFFFFFFFFFFFF 8 s2 = s3
    generalize h4 : Softfloat.clzStep 0x0FFFFFFFFFFFFFFF 4 s3 = s4
    generalize h5 : Softfloat.clzStep 0x3FFFFFFFFFFFFFFF 2 s4 = s5
    have b1 : s1.1 ≤ 0 + 32 := h1 ▸ clzStep_le _ _ _
    have b2 : s2.1 ≤ s1.1 + 16 := h2 ▸ clzStep_le _ _ _
    have b3 : s3.1 ≤ s2.1 + 8 := h3 ▸ clzStep_le _ _ _
    have b4 : s4.1 ≤ s3.1 + 4 := h4 ▸ clzStep_le _ _ _
    have b5 : s5.1 ≤ s4.1 + 2 := h5 ▸ clzStep_le _ _ _
    have e1 : clzStep 0x00000000FFFFFFFF 32 (0, x) = some ((s1.1 : Int), s1.2) :=
      h1 ▸ clzStep_eq (k := 32) (s := (0, x)) (by decide) (Nat.zero_le _)
    have e2 : clzStep 0x0000FFFFFFFFFFFF 16 (s1.1, s1.2) = some ((s2.1 : Int), s2.2) :=
      h2 ▸ clzStep_eq (k := 16) (by decide) (by omega)
    have e3 : clzStep 0x00FFFFFFFFFFFFFF 8 (s2.1, s2.2) = some ((s3.1 : Int), s3.2) :=
      h3 ▸ clzStep_eq (k := 8) (by decide) (by omega)
    have e4 : clzStep 0x0FFFFFFFFFFFFFFF 4 (s3.1, s3.2) = some ((s4.1 : Int), s4.2) :=
      h4 ▸ clzStep_eq (k := 4) (by decide) (by omega)
    have e5 : clzStep 0x3FFFFFFFFFFFFFFF 2 (s4.1, s4.2) = some ((s5.1 : Int), s5.2) :=
      h5 ▸ clzStep_eq (k := 2) (by decide) (by omega)
    simp only [e1, e2, e3, e4, e5, Option.bind_eq_bind, Option.bind_some]
    unfold Softfloat.clzStep
    split
    · exact int_eq (by omega) (by omega)
    · rfl

/-- No more than 64 zeros. -/
theorem clz64_le (x : BitVec 64) : Softfloat.clz64 x ≤ 64 := by
  by_cases hx : x = 0
  · simp [hx, Softfloat.clz64]
  · have := (clz64_spec hx).1
    omega

theorem clz128_eq : clz128 a = some (Softfloat.clz128 a : Int) := by
  unfold clz128 Softfloat.clz128
  have hlo := clz64_le a.lo
  split
  · exact clz64_eq a.hi
  · rw [clz64_eq, Option.bind_eq_bind, Option.bind_some, int_eq (by omega) (by omega), Nat.cast_add]
    rfl

theorem clz128_le : Softfloat.clz128 a ≤ 128 := by
  have hhi := clz64_le a.hi
  have hlo := clz64_le a.lo
  unfold Softfloat.clz128
  split <;> omega

theorem msb128_eq : msb128 a = some (Softfloat.msb128 a) := by
  have h := clz128_le a
  unfold msb128 Softfloat.msb128
  rw [clz128_eq]
  exact int_eq (by omega) (by omega)

/-- A leading bit is one of the 128, or there is none. -/
theorem msb128_range : -1 ≤ Softfloat.msb128 a ∧ Softfloat.msb128 a ≤ 127 := by
  have h := clz128_le a
  unfold Softfloat.msb128
  omega

theorem getBit128_eq {i : Nat} (hi : i < 128) : getBit128 a i = some (Softfloat.getBit128 a i) := by
  unfold getBit128 Softfloat.getBit128
  rw [if_neg (show ¬((i : Int) < 0 ∨ 127 < (i : Int)) by omega), if_neg (show ¬127 < i by omega)]
  by_cases h : 64 ≤ i
  · rw [if_pos (show 64 ≤ (i : Int) by omega), if_pos h]
    simp (disch := omega) only [int_eq, shr_eq, Option.bind_eq_bind, Option.bind_some]
    rw [show ((i : Int) - 64).toNat = i - 64 by omega]
    rfl
  · rw [if_neg (show ¬64 ≤ (i : Int) by omega), if_neg h]
    simp (disch := omega) only [shr_eq, Option.bind_eq_bind, Option.bind_some]
    rfl

theorem shl128_eq {n : Int} (hn : n < 128) : shl128 a n = some (Softfloat.shl128 a n) := by
  unfold shl128 Softfloat.shl128
  split
  · rfl
  · dsimp only
    by_cases h : 64 ≤ n
    · rw [if_pos h, if_pos (show 64 ≤ n.toNat by omega)]
      simp (disch := omega) only [int_eq, shl_eq, Option.bind_eq_bind, Option.bind_some]
      rw [show (n - 64).toNat = n.toNat - 64 by omega]
      rfl
    · rw [if_neg h, if_neg (show ¬64 ≤ n.toNat by omega)]
      simp (disch := omega) only [int_eq, shl_eq, shr_eq, Option.bind_eq_bind, Option.bind_some]
      rw [show (64 - n).toNat = 64 - n.toNat by omega]
      rfl

theorem lowMask_eq {n : Int} (hlo : 0 ≤ n) (hhi : n < 64) : lowMask n = some (Softfloat.lowMask n.toNat) := by
  unfold lowMask Softfloat.lowMask
  rw [shl_eq _ hlo hhi]
  rfl

theorem shr128Jam_eq (n : Int) : shr128Jam a n = some (Softfloat.shr128Jam a n) := by
  unfold shr128Jam Softfloat.shr128Jam
  split
  · rfl
  · dsimp only
    by_cases h128 : 128 ≤ n
    · rw [if_pos h128, if_pos (show 128 ≤ n.toNat by omega)]
    · rw [if_neg h128, if_neg (show ¬128 ≤ n.toNat by omega)]
      by_cases h64 : 64 ≤ n
      · rw [if_pos h64, if_pos (show 64 ≤ n.toNat by omega)]
        have hm : (n - 64).toNat = n.toNat - 64 := by omega
        by_cases h0 : n - 64 = 0
        · have hz : n.toNat - 64 = 0 := by omega
          simp (disch := omega) only [int_eq, Option.bind_eq_bind, Option.bind_some, h0, hz]
          simp
        · have hz : n.toNat - 64 ≠ 0 := by omega
          simp (disch := omega) only [int_eq, shr_eq, lowMask_eq, Option.bind_eq_bind, Option.bind_some, hm]
          rw [if_pos h0, if_pos hz]
          rfl
      · rw [if_neg h64, if_neg (show ¬64 ≤ n.toNat by omega)]
        simp (disch := omega) only [int_eq, shl_eq, shr_eq, lowMask_eq, Option.bind_eq_bind, Option.bind_some]
        rw [show (64 - n).toNat = 64 - n.toNat by omega]
        rfl

theorem shr_63_ne_zero (x : BitVec 64) : x >>> 63 ≠ 0 ↔ x.getLsbD 63 = true := by
  have hmsb : x.getLsbD 63 = decide (2 ^ 63 ≤ x.toNat) := BitVec.msb_eq_getLsbD_last x ▸ BitVec.msb_eq_decide x
  rw [hmsb, decide_eq_true_iff, ne_eq, ← BitVec.toNat_inj, BitVec.toNat_ushiftRight, Nat.shiftRight_eq_div_pow]
  have := x.isLt
  simp only [BitVec.ofNat_eq_ofNat, BitVec.toNat_ofNat]
  omega

theorem udivRounds_eq (lo den : BitVec 64) {n : Nat} (hn : n ≤ 64) (s : BitVec 64 × BitVec 64) :
    udivRounds lo den s n = some (Softfloat.udivRounds lo den s n) := by
  induction n generalizing s with
  | zero => rfl
  | succ i ih =>
    have hcarry : s.2 >>> 63 ≠ 0 ∨ den.ule ((s.2 <<< 1) ||| ((lo >>> i) &&& 1)) = true ↔
        (s.2.getLsbD 63 || den.ule ((s.2 <<< 1) ||| ((lo >>> i) &&& 1))) = true := by
      rw [shr_63_ne_zero, Bool.or_eq_true]
    have htop : shr s.2 63 = some (s.2 >>> 63) := shr_eq _ (by decide) (by decide)
    have hnext : shl s.2 1 = some (s.2 <<< 1) := shl_eq _ (by decide) (by decide)
    have hbit : shr lo i = some (lo >>> i) := shr_eq _ (by omega) (by omega)
    have hone : shl 1#64 i = some (1#64 <<< i) := shl_eq _ (by omega) (by omega)
    unfold udivRounds
    refine andThen htop (andThen hnext (andThen hbit ?_))
    rw [Softfloat.udivRounds]
    dsimp only
    by_cases hc : (s.2.getLsbD 63 || den.ule ((s.2 <<< 1) ||| ((lo >>> i) &&& 1))) = true
    · rw [if_pos (hcarry.2 hc), if_pos hc]
      exact andThen hone (ih (Nat.le_of_succ_le hn) _)
    · rw [if_neg (mt hcarry.1 hc), if_neg hc]
      exact ih (Nat.le_of_succ_le hn) _

theorem udiv128by64_eq {num : U128} {den : BitVec 64} (h : num.hi.toNat < den.toNat) :
    udiv128by64 num den = some (Softfloat.udiv128by64 num den) := by
  unfold udiv128by64
  rw [requires_eq (BitVec.ult_iff_lt.2 h)]
  exact udivRounds_eq _ _ le_rfl _

theorem isqrtRounds_eq (x : U128) {n : Nat} (hn : n ≤ 64) (s : BitVec 64 × U128) :
    isqrtRounds x s n = some (Softfloat.isqrtRounds x s n) := by
  induction n generalizing s with
  | zero => rfl
  | succ i ih =>
    have heven : int (2 * i) = some ((2 * i : Nat) : Int) := int_eq (by omega) (by omega)
    have hodd : int (((2 * i : Nat) : Int) + 1) = some ((2 * i + 1 : Nat) : Int) := int_eq (by omega) (by omega)
    have hshl : ∀ v : BitVec 64, shl v 1 = some (v <<< 1) := fun v => shl_eq v (by decide) (by decide)
    have htwo : ∀ a : U128, shl128 a 2 = some (Softfloat.shl128 a 2) := fun a => shl128_eq a (by decide)
    have hhi := getBit128_eq x (show 2 * i + 1 < 128 by omega)
    have hlo := getBit128_eq x (show 2 * i < 128 by omega)
    unfold isqrtRounds
    refine andThen (htwo s.2) ?_
    refine andThen heven ?_
    refine andThen hodd ?_
    refine andThen hhi ?_
    refine andThen (hshl _) ?_
    refine andThen hlo ?_
    refine andThen (htwo ⟨0, s.1⟩) ?_
    refine andThen (hshl s.1) ?_
    rw [Softfloat.isqrtRounds]
    split
    · exact ih (Nat.le_of_succ_le hn) _
    · exact ih (Nat.le_of_succ_le hn) _

theorem isqrt128_eq {x : U128} (h : x.toNat < 2 ^ 126) : isqrt128 x = some (Softfloat.isqrt128 x) := by
  have hhi : x.hi.ult 0x4000000000000000 = true := by
    rw [BitVec.ult_iff_lt, BitVec.lt_def, ← U128.toNat_div]
    simp only [BitVec.ofNat_eq_ofNat, BitVec.toNat_ofNat]
    omega
  unfold isqrt128
  rw [requires_eq hhi, Option.bind_eq_bind, Option.bind_some, isqrtRounds_eq x le_rfl]
  rfl

theorem srjam64_eq (a : BitVec 64) {dist : Int} (h : 0 ≤ dist) : srjam64 a dist = some (Softfloat.srjam64 a dist.toNat) := by
  unfold srjam64 Softfloat.srjam64
  by_cases h0 : dist = 0
  · rw [if_pos h0, if_pos (show dist.toNat = 0 by omega)]
  · rw [if_neg h0, if_neg (show ¬dist.toNat = 0 by omega)]
    by_cases h64 : 64 ≤ dist
    · rw [if_pos h64, if_pos (show 64 ≤ dist.toNat by omega)]
    · rw [if_neg h64, if_neg (show ¬64 ≤ dist.toNat by omega)]
      simp (disch := omega) only [shr_eq, lowMask_eq, Option.bind_eq_bind, Option.bind_some]
      rfl

/-! ## The four-word accumulator -/

theorem msbWords_range (a : U256) : ∀ n : Nat, -1 ≤ Softfloat.msbWords a n ∧ Softfloat.msbWords a n < 64 * n
  | 0 => by simp [Softfloat.msbWords]
  | n + 1 => by
    have hclz := clz64_le (a n)
    have ih := msbWords_range a n
    unfold Softfloat.msbWords
    split
    · omega
    · omega

theorem msbWords_eq (a : U256) : ∀ {n : Nat}, n ≤ 4 → msbWords a n = some (Softfloat.msbWords a n)
  | 0, _ => rfl
  | n + 1, h => by
    have hclz := clz64_le (a n)
    unfold msbWords Softfloat.msbWords
    split
    · refine andThen (int_eq (by omega) (by omega)) ?_
      refine andThen (clz64_eq (a n)) ?_
      refine andThen (int_eq (by omega) (by omega)) ?_
      exact int_eq (by omega) (by omega)
    · exact msbWords_eq a (by omega)

theorem msb256_eq (a : U256) : msb256 a = some (Softfloat.msb256 a) := msbWords_eq a (Nat.le_refl 4)

theorem msb256_range (a : U256) : -1 ≤ Softfloat.msb256 a ∧ Softfloat.msb256 a < 256 := msbWords_range a 4

theorem sub256_eq {a b : U256} (h : U256.toNat b ≤ U256.toNat a) : sub256 a b = some (Softfloat.sub256 a b) := by
  have hcmp : 0 ≤ cmp256 a b := by
    have hspec := (cmpWords_spec a b 4).2
    unfold U256.toNat at h
    unfold cmp256
    omega
  unfold sub256
  rw [requires_eq hcmp]
  rfl

/-- Four words that are each defined. -/
theorem words_eq {word : Nat → Option (BitVec 64)} {a : U256} (h : ∀ i < 4, word i = some (a i)) (h4 : ∀ i, 4 ≤ i → a i = 0) :
    words word = some a := by
  have hmap : (List.range 4).mapM word = some [a 0, a 1, a 2, a 3] := by
    simp [List.range, List.range.loop, h]
  refine Option.bind_eq_some_iff.2 ⟨_, hmap, congrArg some (funext fun i => ?_)⟩
  match i with
  | 0 => rfl
  | 1 => rfl
  | 2 => rfl
  | 3 => rfl
  | i + 4 => exact (h4 (i + 4) (by omega)).symm

theorem shl128to256_eq {n : Int} (hn : 0 ≤ n) : shl128to256 a n = some (Softfloat.shl128to256 a n) := by
  unfold shl128to256 Softfloat.shl128to256
  dsimp only
  by_cases h256 : 256 ≤ n
  · rw [if_pos h256]
    congr 1
    funext i
    rw [if_pos (.inl (show 256 ≤ n.toNat by omega))]
  · rw [if_neg h256, requires_eq hn]
    have hbit : n.toNat % 64 < 64 := Nat.mod_lt _ (by decide)
    have hrest : (64 - ((n.toNat % 64 : Nat) : Int)).toNat = 64 - n.toNat % 64 := by omega
    refine words_eq (fun i hi => ?_) fun i hi => if_pos (.inr (.inl hi))
    by_cases hword : i < n.toNat / 64
    · rw [if_pos hword, if_pos (.inr (.inr hword))]
    · rw [if_neg hword, if_neg (show ¬(256 ≤ n.toNat ∨ 4 ≤ i ∨ i < n.toNat / 64) by omega)]
      refine andThen (shl_eq _ (by omega) (by omega)) ?_
      by_cases hin : n.toNat % 64 ≠ 0 ∧ 1 ≤ i - n.toNat / 64
      · rw [if_pos hin, if_pos hin]
        refine andThen (int_eq (by omega) (by omega)) ?_
        refine andThen (shr_eq _ (by omega) (by omega)) ?_
        rw [hrest]
        rfl
      · rw [if_neg hin, if_neg hin]
        rfl

theorem shr256Jam_eq (a : U256) (n : Int) : shr256Jam a n = some (Softfloat.shr256Jam a n) := by
  unfold shr256Jam Softfloat.shr256Jam
  dsimp only
  by_cases h0 : n ≤ 0
  · rw [if_pos h0, if_pos h0]
  rw [if_neg h0, if_neg h0]
  by_cases h256 : 256 ≤ n
  · rw [if_pos h256, if_pos (show 256 ≤ n.toNat by omega)]
  rw [if_neg h256, if_neg (show ¬256 ≤ n.toNat by omega)]
  have hbit : n.toNat % 64 < 64 := Nat.mod_lt _ (by decide)
  have hrest : (64 - ((n.toNat % 64 : Nat) : Int)).toNat = 64 - n.toNat % 64 := by omega
  refine andThen (lowMask_eq (by omega) (by omega)) ?_
  refine andThen (words_eq (fun i hi => ?_) (fun i hi => if_neg (by omega))) rfl
  by_cases hin : i + n.toNat / 64 < 4
  · rw [if_pos hin, if_pos hin]
    refine andThen (shr_eq _ (by omega) (by omega)) ?_
    by_cases hnext : n.toNat % 64 ≠ 0 ∧ i + n.toNat / 64 + 1 < 4
    · rw [if_pos hnext, if_pos hnext]
      refine andThen (int_eq (by omega) (by omega)) ?_
      refine andThen (shl_eq _ (by omega) (by omega)) ?_
      rw [hrest]
      rfl
    · rw [if_neg hnext, if_neg hnext]
      rfl
  · rw [if_neg hin, if_neg hin]

/-- The subtractions of the window are of the smaller from the larger. -/
theorem addWindow_eq (sX sY : Bool) (A B : U256) (stickyY : Bool) :
    addWindow sX sY A B stickyY = some (Softfloat.addWindow sX sY A B stickyY) := by
  obtain ⟨hpos, hneg⟩ := cmpWords_spec A B 4
  unfold addWindow Softfloat.addWindow
  by_cases hs : sX = sY
  · rw [if_pos hs, if_pos hs]
  rw [if_neg hs, if_neg hs]
  by_cases hgt : 0 < cmp256 A B
  · rw [if_pos hgt, if_pos hgt]
    have hlt : U256.toNat B < U256.toNat A := hpos.1 hgt
    refine andThen (sub256_eq hlt.le) ?_
    cases stickyY with
    | false => rfl
    | true =>
      -- the difference is at least the one it loses to the sticky tail
      have hone : U256.toNat (u256From128 ⟨0, 1⟩) ≤ U256.toNat (Softfloat.sub256 A B) := by
        rw [toNat_u256From128, toNat_sub256 hlt.le]
        change 1 ≤ _
        omega
      exact andThen (sub256_eq hone) rfl
  · rw [if_neg hgt, if_neg hgt]
    by_cases hlt : cmp256 A B < 0
    · rw [if_pos hlt, if_pos hlt]
      have hle : U256.toNat A ≤ U256.toNat B := (hneg.1 hlt).le
      exact andThen (sub256_eq hle) rfl
    · rw [if_neg hlt, if_neg hlt]

theorem placeLower_eq (sigY : U128) {shY : Int} (hlo : -1000000 ≤ shY) :
    placeLower sigY shY = some (if 0 ≤ shY then (Softfloat.shl128to256 sigY shY, false)
      else Softfloat.shr256Jam (u256From128 sigY) (-shY)) := by
  unfold placeLower
  split
  · next h => exact andThen (shl128to256_eq sigY h) rfl
  · refine andThen (int_eq (by omega) (by omega)) ?_
    exact shr256Jam_eq _ _

/-! ## Packing and unpacking -/

/-- The unsigned comparison of `roundpack` sorts out both ends of the exponent range. -/
theorem limit_ule_iff {exp : Int} (hlo : -2147483648 ≤ exp) (hhi : exp < 2147483648) {limit : Int} (hlimit : 0 ≤ limit)
    (hlimit' : limit < 2147483648) :
    (BitVec.ofInt 32 limit).ule (BitVec.ofInt 32 exp) = true ↔ exp < 0 ∨ limit ≤ exp := by
  rw [BitVec.ule_iff_le, BitVec.le_def, BitVec.toNat_ofInt, BitVec.toNat_ofInt]
  omega

section Format

variable {f : Fmt} (hf : f.Standard) (sign : Bool) (a b : BitVec 64)
include hf

/-- The widths of a format, as far as shifts and exponents depend on them. -/
theorem format_range : (1 ≤ f.width ∧ f.width ≤ 64) ∧ (1 ≤ f.mantbits ∧ f.mantbits ≤ 52) ∧ f.expbits < 12 ∧
    (0 ≤ f.bias ∧ f.bias ≤ 1023) ∧ (1 ≤ f.roundBits ∧ f.roundBits ≤ 10) := by
  rcases hf with rfl | rfl <;> decide

theorem signBit_eq : signBit f = some f.signBit := by
  rcases hf with rfl | rfl <;> rfl

theorem makeInf_eq : makeInf f sign = some (Softfloat.makeInf f sign) := by
  rcases hf with rfl | rfl <;> cases sign <;> rfl

theorem makeZero_eq : makeZero f sign = some (Softfloat.makeZero f sign) := by
  cases sign with
  | true => exact signBit_eq hf
  | false => rfl

/-- The operand with the fields the source sets. -/
def Up.of (u : Softfloat.Up) : Up :=
  if u.cls = .zero ∨ u.cls = .normal then ⟨u.sign, u.cls, u.snan, some u.sig, some u.exp2⟩
  else ⟨u.sign, u.cls, u.snan, none, none⟩

omit hf in
theorem Up.of_class (u : Softfloat.Up) : (Up.of u).sign = u.sign ∧ (Up.of u).cls = u.cls ∧ (Up.of u).snan = u.snan := by
  unfold Up.of
  split <;> exact ⟨rfl, rfl, rfl⟩

omit hf in
theorem Up.of_finite {u : Softfloat.Up} (hn : u.cls ≠ .nan) (hi : u.cls ≠ .inf) :
    (Up.of u).sig = some u.sig ∧ (Up.of u).exp2 = some u.exp2 := by
  have h : u.cls = .zero ∨ u.cls = .normal := by
    cases hc : u.cls with
    | zero => exact .inl rfl
    | normal => exact .inr rfl
    | inf => exact absurd hc hi
    | nan => exact absurd hc hn
  unfold Up.of
  rw [if_pos h]
  exact ⟨rfl, rfl⟩

theorem unpack_eq (bits : BitVec 64) : unpack f bits = some (Up.of (Softfloat.unpack f bits)) := by
  obtain ⟨⟨hw, hw'⟩, ⟨hm, hm'⟩, he, ⟨hb, hb'⟩, -⟩ := format_range hf
  have hones : lowMask f.expbits = some f.expOnes := lowMask_eq (by omega) (by omega)
  have hmask : lowMask f.mantbits = some (Softfloat.lowMask f.mantbits) := lowMask_eq (by omega) (by omega)
  have hsign : ((f.width : Int) - 1).toNat = f.width - 1 := by omega
  have hquiet : ((f.mantbits : Int) - 1).toNat = f.mantbits - 1 := by omega
  have hexp : shr bits f.mantbits = some (bits >>> f.mantbits) := shr_eq _ (by omega) (by omega)
  have hone : shl 1#64 f.mantbits = some (1#64 <<< f.mantbits) := shl_eq _ (by omega) (by omega)
  have hfield : ((bits >>> f.mantbits) &&& f.expOnes).toNat < 2048 := by
    unfold Fmt.expOnes
    rw [toNat_and_lowMask _ (by omega)]
    exact Nat.lt_of_lt_of_le (Nat.mod_lt _ (Nat.two_pow_pos _))
      (Nat.pow_le_pow_right (n := 2) (by decide) (by omega : f.expbits ≤ 11))
  unfold unpack Softfloat.unpack
  refine andThen hones (andThen hmask ?_)
  refine andThen (int_eq (by omega) (by omega)) (andThen (shr_eq _ (by omega) (by omega)) (andThen hexp ?_))
  dsimp only
  rw [hsign, BitVec.getLsbD_ushiftRight, Nat.add_zero]
  split
  · split
    · rfl
    · exact andThen (int_eq (by omega) (by omega)) (andThen (int_eq (by omega) (by omega)) rfl)
  split
  · split
    · rfl
    · refine andThen (int_eq (by omega) (by omega)) (andThen (shr_eq _ (by omega) (by omega)) ?_)
      rw [hquiet, BitVec.getLsbD_ushiftRight, Nat.add_zero]
      rfl
  · refine andThen hone (andThen (int_eq (by omega) (by omega)) ?_)
    exact andThen (int_eq (by omega) (by omega)) (andThen (int_eq (by omega) (by omega)) rfl)

/-! ## Rounding -/

theorem packRounded_eq (exp : Int) (sigp : BitVec 64) (rm : BitVec 3) (fl : BitVec 32) :
    packRounded f sign exp sigp (Softfloat.lowMask f.roundBits) (1#64 <<< (f.roundBits - 1)) (roundInc f sign rm) rm fl =
      some (Softfloat.packRounded f sign exp sigp rm fl) := by
  obtain ⟨⟨hw, hw'⟩, ⟨hm, hm'⟩, -, -, hr, hr'⟩ := format_range hf
  have hwidth : ((f.width : Int) - 1).toNat = f.width - 1 := by omega
  unfold packRounded
  simp (disch := omega) only [int_eq, shl_eq, shr_eq, Option.bind_eq_bind, Option.bind_some, Int.toNat_natCast, hwidth]
  rfl

theorem roundpack_eq {exp : Int} (hlo : -2147483648 < exp) (hhi : exp < 2147483648) (sigp : BitVec 64)
    (rm : BitVec 3) : roundpack f sign exp sigp rm = some (Softfloat.roundpack f sign exp sigp rm) := by
  obtain ⟨-, -, he, -, hr, hr'⟩ := format_range hf
  have hhalf : ((f.roundBits : Int) - 1).toNat = f.roundBits - 1 := by omega
  have hinf : 3 ≤ f.expOnes.toNat ∧ f.expOnes.toNat < 2048 := by rcases hf with rfl | rfl <;> decide
  have hmask : lowMask f.roundBits = some (Softfloat.lowMask f.roundBits) := lowMask_eq (by omega) (by omega)
  have hshl : shl 1#64 ((f.roundBits : Int) - 1) = some (1#64 <<< (f.roundBits - 1)) := by
    rw [shl_eq _ (by omega) (by omega), hhalf]
  have hones : lowMask f.expbits = some f.expOnes := lowMask_eq (by omega) (by omega)
  unfold roundpack
  refine andThen hmask ?_
  refine andThen (int_eq (by omega) (by omega)) ?_
  refine andThen hshl ?_
  refine andThen hones ?_
  refine andThen (int_eq (by omega) (by omega)) ?_
  refine andThen (int_eq (by omega) (by omega)) ?_
  have hinc : chooseInc (Softfloat.lowMask f.roundBits) (1#64 <<< (f.roundBits - 1)) sign rm = roundInc f sign rm := rfl
  rw [hinc, packRounded_eq hf]
  unfold Softfloat.roundpack
  dsimp only
  by_cases hneg : exp < 0
  · rw [if_pos ((limit_ule_iff hlo.le hhi (by omega) (by omega)).2 (.inl hneg)), if_pos hneg, if_pos hneg]
    refine andThen (int_eq (by omega) (by omega)) ?_
    refine andThen (srjam64_eq sigp (by omega)) ?_
    exact packRounded_eq hf _ _ _ _ _
  · simp only [if_neg hneg]
    by_cases hlim : (f.expOnes.toNat : Int) - 2 ≤ exp
    · rw [if_pos ((limit_ule_iff hlo.le hhi (by omega) (by omega)).2 (.inr hlim))]
      by_cases hov : (f.expOnes.toNat : Int) - 2 < exp ∨ f.overflowBit.ule (sigp + roundInc f sign rm) = true
      · rw [if_pos hov, if_pos ⟨hlim, hov⟩]
        exact andThen (makeInf_eq hf sign) rfl
      · rw [if_neg hov, if_neg fun h => hov h.2]
    · rw [if_neg fun h => ((limit_ule_iff hlo.le hhi (by omega) (by omega)).1 h).elim hneg hlim,
        if_neg (not_and_of_not_left _ hlim)]

/-- `round_mag` is defined for an exponent that is not huge. -/
theorem roundMag_eq (mant : U128) {exp2 : Int} (hlo : -1000000 ≤ exp2) (hhi : exp2 ≤ 1000000)
    (sticky : Bool) (rm : BitVec 3) :
    roundMag f sign mant exp2 sticky rm = some (Softfloat.roundMag f sign mant exp2 sticky rm) := by
  obtain ⟨-, -, -, ⟨hb, hb'⟩, -⟩ := format_range hf
  obtain ⟨hm, hm'⟩ := msb128_range mant
  unfold roundMag Softfloat.roundMag
  split
  · exact andThen (makeZero_eq hf sign) rfl
  · have hlead : (if f.width = 32 then 30 else 62 : Int) = 30 ∨ (if f.width = 32 then 30 else 62 : Int) = 62 := by
      split <;> simp
    dsimp only
    generalize (if f.width = 32 then 30 else 62 : Int) = leadpos at hlead ⊢
    refine andThen (msb128_eq mant) ?_
    refine andThen (int_eq (by omega) (by omega)) ?_
    refine andThen (int_eq (by omega) (by omega)) ?_
    refine andThen (int_eq (by omega) (by omega)) ?_
    refine andThen (int_eq (by omega) (by omega)) ?_
    by_cases hshift : 0 ≤ leadpos - Softfloat.msb128 mant
    · rw [if_pos hshift, if_pos hshift]
      refine andThen (shl128_eq mant (by omega)) ?_
      exact roundpack_eq hf sign (by omega) (by omega) _ rm
    · rw [if_neg hshift, if_neg hshift]
      refine andThen (int_eq (by omega) (by omega)) ?_
      refine andThen (shr128Jam_eq mant _) ?_
      exact roundpack_eq hf sign (by omega) (by omega) _ rm

/-! ## Addition -/

theorem makeZero_res : (do
    let z ← makeZero f sign
    return (z, 0) : Option Res) = some (Softfloat.makeZero f sign, 0) :=
  Option.bind_eq_some_iff.2 ⟨_, makeZero_eq hf sign, rfl⟩

theorem addOrdered_eq (sX : Bool) (sigX : U128) {eX : Int} (hX : -10000 ≤ eX ∧ eX ≤ 10000) (sY : Bool) (sigY : U128) {eY : Int}
    (hY : -10000 ≤ eY ∧ eY ≤ 10000) (rm : BitVec 3) :
    addOrdered f (eX + Softfloat.msb128 sigX) sX sigX eX sY sigY eY rm =
      some (Softfloat.addOrdered f sX sigX eX sY sigY eY rm) := by
  obtain ⟨hm, hm'⟩ := msb128_range sigX
  unfold addOrdered Softfloat.addOrdered
  dsimp only
  generalize hw : eX + Softfloat.msb128 sigX - 253 = wbot
  refine andThen (int_eq (by omega) (by omega)) ?_
  refine andThen (int_eq (by omega) (by omega)) ?_
  refine andThen (shl128to256_eq sigX (by omega)) ?_
  refine andThen (int_eq (by omega) (by omega)) ?_
  refine andThen (placeLower_eq sigY (by omega)) ?_
  generalize (if 0 ≤ eY - wbot then (Softfloat.shl128to256 sigY (eY - wbot), false)
    else Softfloat.shr256Jam (u256From128 sigY) (-(eY - wbot))) = p
  obtain ⟨B, stickyY⟩ := p
  refine andThen (addWindow_eq sX sY _ B stickyY) ?_
  cases Softfloat.addWindow sX sY (Softfloat.shl128to256 sigX (eX - wbot)) B stickyY with
  | none => exact makeZero_res hf _
  | some w =>
    obtain ⟨M, sign, sticky⟩ := w
    dsimp only
    split
    · exact makeZero_res hf _
    · have hmb := msb256_range M
      refine andThen (msb256_eq M) ?_
      split
      · exact roundMag_eq hf _ _ (by omega) (by omega) _ _
      · refine andThen (int_eq (by omega) (by omega)) ?_
        refine andThen (shr256Jam_eq M _) ?_
        refine andThen (int_eq (by omega) (by omega)) ?_
        exact roundMag_eq hf _ _ (by omega) (by omega) _ _

theorem addCore_eq (sX : Bool) (sigX : U128) {eX : Int} (hX : -10000 ≤ eX ∧ eX ≤ 10000) (sY : Bool) (sigY : U128) {eY : Int}
    (hY : -10000 ≤ eY ∧ eY ≤ 10000) (rm : BitVec 3) :
    addCore f sX sigX eX sY sigY eY rm = some (Softfloat.addCore f sX sigX eX sY sigY eY rm) := by
  have hmX := msb128_range sigX
  have hmY := msb128_range sigY
  unfold addCore Softfloat.addCore
  refine andThen (msb128_eq sigX) ?_
  refine andThen (int_eq (by omega) (by omega)) ?_
  refine andThen (msb128_eq sigY) ?_
  refine andThen (int_eq (by omega) (by omega)) ?_
  split
  · exact addOrdered_eq hf sY sigY hY sX sigX hX rm
  · exact addOrdered_eq hf sX sigX hX sY sigY hY rm

/-! ## The arithmetic operations -/

theorem makeInf_res (fl : BitVec 32) : (do
    let r ← makeInf f sign
    return (r, fl) : Option Res) = some (Softfloat.makeInf f sign, fl) :=
  Option.bind_eq_some_iff.2 ⟨_, makeInf_eq hf sign, rfl⟩

/-- The exponents of operands are small. -/
theorem unpack_range (bits : BitVec 64) : -2000 ≤ (Softfloat.unpack f bits).exp2 ∧ (Softfloat.unpack f bits).exp2 ≤ 2000 := by
  obtain ⟨-, ⟨hm, hm'⟩, -, ⟨hb, hb'⟩, -⟩ := format_range hf
  have hu := unpack_spec hf bits
  generalize f.format.decode bits.toNat = d at hu
  generalize Softfloat.unpack f bits = u at hu ⊢
  cases hu with
  | normal neg pos prec lo hi => exact ⟨by dsimp only; omega, by dsimp only; omega⟩
  | _ => simp

theorem fpAdd_eq (sub : Bool) (rm : BitVec 3) :
    fpAdd f a b sub rm = some (Softfloat.fpAdd f a b sub rm) := by
  unfold fpAdd Softfloat.fpAdd
  refine andThen (unpack_eq hf a) ?_
  refine andThen (unpack_eq hf b) ?_
  have ha := unpack_range hf a
  have hb := unpack_range hf b
  generalize Softfloat.unpack f a = ua at ha ⊢
  generalize Softfloat.unpack f b = ub at hb ⊢
  dsimp only
  simp only [Up.of_class]
  split
  · rfl
  next hnan =>
  split
  · split
    · split
      · rfl
      · exact makeInf_res hf _ _
    · exact makeInf_res hf _ _
  next hinf =>
  split
  · exact makeZero_res hf _
  split
  · split
    · exact andThen (signBit_eq hf) rfl
    · rfl
  split
  · rfl
  obtain ⟨hsa, hea⟩ := @Up.of_finite ua (fun h => hnan (.inl h)) (fun h => hinf (.inl h))
  obtain ⟨hsb, heb⟩ := @Up.of_finite ub (fun h => hnan (.inr h)) (fun h => hinf (.inr h))
  refine andThen hsa ?_
  refine andThen hea ?_
  refine andThen hsb ?_
  refine andThen heb ?_
  exact addCore_eq hf _ _ (by omega) _ _ (by omega) rm

theorem fpMul_eq (rm : BitVec 3) : fpMul f a b rm = some (Softfloat.fpMul f a b rm) := by
  unfold fpMul Softfloat.fpMul
  refine andThen (unpack_eq hf a) ?_
  refine andThen (unpack_eq hf b) ?_
  have ha := unpack_range hf a
  have hb := unpack_range hf b
  generalize Softfloat.unpack f a = ua at ha ⊢
  generalize Softfloat.unpack f b = ub at hb ⊢
  dsimp only
  simp only [Up.of_class]
  split
  · rfl
  next hnan =>
  split
  · split
    · rfl
    · exact makeInf_res hf _ _
  next hinf =>
  split
  · exact makeZero_res hf _
  obtain ⟨hsa, hea⟩ := @Up.of_finite ua (fun h => hnan (.inl h)) (fun h => hinf (.inl h))
  obtain ⟨hsb, heb⟩ := @Up.of_finite ub (fun h => hnan (.inr h)) (fun h => hinf (.inr h))
  refine andThen hsa ?_
  refine andThen hsb ?_
  refine andThen hea ?_
  refine andThen heb ?_
  refine andThen (int_eq (by omega) (by omega)) ?_
  exact roundMag_eq hf _ _ (by omega) (by omega) _ rm

theorem normOperand_normal (k : BitVec 64) {e : Int} (he : -2000 ≤ e ∧ e ≤ 2000) :
    normOperand (Up.of ⟨sign, .normal, false, ⟨0, k⟩, e⟩) f =
        some (Up.of (Softfloat.normOperand ⟨sign, .normal, false, ⟨0, k⟩, e⟩ f)) ∧
      -2100 ≤ (Softfloat.normOperand ⟨sign, .normal, false, ⟨0, k⟩, e⟩ f).exp2 ∧
      (Softfloat.normOperand ⟨sign, .normal, false, ⟨0, k⟩, e⟩ f).exp2 ≤ 2000 := by
  obtain ⟨-, ⟨hm, hm'⟩, -⟩ := format_range hf
  have hmb := msb128_range ⟨0, k⟩
  have hcls : (Up.of ⟨sign, .normal, false, ⟨0, k⟩, e⟩).cls = .normal := rfl
  unfold normOperand Softfloat.normOperand
  rw [if_neg (not_not_intro hcls)]
  dsimp only
  by_cases hzero : is0128 ⟨0, k⟩ = true
  · rw [if_pos (.inr hzero)]
    refine ⟨Option.bind_eq_some_iff.2 ⟨⟨0, k⟩, rfl, ?_⟩, by dsimp only; omega, by dsimp only; omega⟩
    rw [if_pos hzero]
    rfl
  · rw [if_neg (by rintro (h | h); exacts [h rfl, hzero h])]
    by_cases hshift : 0 < (f.mantbits : Int) - Softfloat.msb128 ⟨0, k⟩
    · rw [if_pos hshift]
      refine ⟨Option.bind_eq_some_iff.2 ⟨⟨0, k⟩, rfl, ?_⟩, by dsimp only; omega, by dsimp only; omega⟩
      rw [if_neg hzero]
      refine andThen (msb128_eq _) ?_
      refine andThen (int_eq (by omega) (by omega)) ?_
      rw [if_pos hshift]
      refine andThen (shl128_eq _ (by omega)) ?_
      refine Option.bind_eq_some_iff.2 ⟨e, rfl, ?_⟩
      exact andThen (int_eq (by omega) (by omega)) rfl
    · rw [if_neg hshift]
      refine ⟨Option.bind_eq_some_iff.2 ⟨⟨0, k⟩, rfl, ?_⟩, by dsimp only; omega, by dsimp only; omega⟩
      rw [if_neg hzero]
      refine andThen (msb128_eq _) ?_
      refine andThen (int_eq (by omega) (by omega)) ?_
      rw [if_neg hshift]
      rfl

/-- A finite operand other than zero has a significand of the format's precision. -/
theorem unpack_normal {bits : BitVec 64} (hn : (Softfloat.unpack f bits).cls ≠ .nan)
    (hi : (Softfloat.unpack f bits).cls ≠ .inf) (hz : (Softfloat.unpack f bits).cls ≠ .zero) :
    ∃ s k e, Softfloat.unpack f bits = ⟨s, .normal, false, ⟨0, k⟩, e⟩ ∧ 0 < k.toNat ∧ k.toNat < 2 ^ (f.mantbits + 1) := by
  have hu := unpack_spec hf bits
  generalize f.format.decode bits.toNat = x at hu
  generalize Softfloat.unpack f bits = u at hu hn hi hz ⊢
  cases hu with
  | nan => exact absurd rfl hn
  | inf => exact absurd rfl hi
  | zero => exact absurd rfl hz
  | normal s pos prec => exact ⟨s, _, _, rfl, pos, prec⟩

/-- Left-aligned, its significand has all the digits of the format. -/
theorem normOperand_eq {bits : BitVec 64} (hn : (Softfloat.unpack f bits).cls ≠ .nan)
    (hi : (Softfloat.unpack f bits).cls ≠ .inf) (hz : (Softfloat.unpack f bits).cls ≠ .zero) :
    ∃ (sign : Bool) (n : BitVec 64) (d : Int), Softfloat.normOperand (Softfloat.unpack f bits) f =
        ⟨sign, .normal, false, ⟨0, n⟩, d⟩ ∧
      normOperand (Up.of (Softfloat.unpack f bits)) f = some (Up.of ⟨sign, .normal, false, ⟨0, n⟩, d⟩) ∧
      (2 ^ f.mantbits ≤ n.toNat ∧ n.toNat < 2 ^ (f.mantbits + 1)) ∧ -2100 ≤ d ∧ d ≤ 2000 := by
  have hrange := unpack_range hf bits
  obtain ⟨s, k, e, heq, pos, prec⟩ := unpack_normal hf hn hi hz
  rw [heq] at hrange ⊢
  obtain ⟨n, d, hnorm, hlow, hhigh, -⟩ := normOperand_spec hf s e pos prec
  have hcode := normOperand_normal hf s k hrange
  rw [hnorm] at hcode
  exact ⟨s, n, d, hnorm, hcode.1, ⟨hlow, hhigh⟩, hcode.2⟩

theorem fpDiv_eq (rm : BitVec 3) : fpDiv f a b rm = some (Softfloat.fpDiv f a b rm) := by
  unfold fpDiv Softfloat.fpDiv
  refine andThen (unpack_eq hf a) ?_
  refine andThen (unpack_eq hf b) ?_
  dsimp only
  simp only [Up.of_class]
  split
  · rfl
  next hnan =>
  split
  · split
    · rfl
    · exact makeInf_res hf _ _
  next hia =>
  split
  · exact makeZero_res hf _
  next hib =>
  split
  · split
    · rfl
    · exact makeInf_res hf _ _
  next hzb =>
  split
  · exact makeZero_res hf _
  next hza =>
  obtain ⟨s, n, d, heq, hnorm, ⟨hn, hn'⟩, hd⟩ := normOperand_eq hf (fun h => hnan (.inl h)) hia hza
  obtain ⟨t, p, d', heq', hnorm', ⟨hp, hp'⟩, hd'⟩ := normOperand_eq hf (fun h => hnan (.inr h)) hib hzb
  obtain ⟨P, hcode, hP, hP'⟩ := quotient_bits hf
  rw [heq, heq', hcode]
  refine andThen hnorm ?_
  refine andThen hnorm' ?_
  refine Option.bind_eq_some_iff.2 ⟨⟨0, n⟩, rfl, ?_⟩
  refine andThen (shl128_eq _ (by omega)) ?_
  refine Option.bind_eq_some_iff.2 ⟨⟨0, p⟩, rfl, ?_⟩
  refine andThen (udiv128by64_eq (dividend_lt hf hP' hn' hp).2) ?_
  refine Option.bind_eq_some_iff.2 ⟨d, rfl, ?_⟩
  refine Option.bind_eq_some_iff.2 ⟨d', rfl, ?_⟩
  refine andThen (int_eq (by omega) (by omega)) ?_
  refine andThen (int_eq (by omega) (by omega)) ?_
  exact roundMag_eq hf _ _ (by omega) (by omega) _ rm

omit hf in
theorem evenExponent_eq (n : BitVec 64) {d : Int} (hd : -2100 ≤ d ∧ d ≤ 2000) :
    evenExponent ⟨0, n⟩ d = some (if d % 2 ≠ 0 then Softfloat.shl128 ⟨0, n⟩ 1 else ⟨0, n⟩, if d % 2 ≠ 0 then d - 1 else d) := by
  unfold evenExponent
  split
  · refine andThen (shl128_eq _ (by omega)) ?_
    exact andThen (int_eq (by omega) (by omega)) rfl
  · rfl

/-- The radicand keeps clear of the root's top two bits. -/
theorem radicand_lt {s : U128} (hs : s.toNat < 2 ^ (f.mantbits + 2)) :
    (Softfloat.shl128 s (2 * if f.width = 32 then 28 else 35)).toNat < 2 ^ 126 := by
  rcases hf with rfl | rfl
  · have hshl : (Softfloat.shl128 s 56).toNat = s.toNat * 2 ^ 56 % 2 ^ 128 := toNat_shl128 s (by decide)
    have hsmall : s.toNat < 2 ^ 25 := hs
    refine hshl.trans_lt (Nat.lt_of_le_of_lt (Nat.mod_le _ _) ?_)
    omega
  · have hshl : (Softfloat.shl128 s 70).toNat = s.toNat * 2 ^ 70 % 2 ^ 128 := toNat_shl128 s (by decide)
    have hsmall : s.toNat < 2 ^ 54 := hs
    refine hshl.trans_lt (Nat.lt_of_le_of_lt (Nat.mod_le _ _) ?_)
    omega

theorem fpSqrt_eq (a : BitVec 64) (rm : BitVec 3) : fpSqrt f a rm = some (Softfloat.fpSqrt f a rm) := by
  unfold fpSqrt Softfloat.fpSqrt
  refine andThen (unpack_eq hf a) ?_
  dsimp only
  simp only [Up.of_class]
  split
  · rfl
  next hnan =>
  split
  · rfl
  next hzero =>
  split
  · rfl
  split
  · exact makeInf_res hf _ _
  next hinf =>
  obtain ⟨s, n, d, heq, hnorm, ⟨hn, hn'⟩, hd⟩ := normOperand_eq hf hnan hinf hzero
  have hP : (if f.width = 32 then 28 else 35 : Int) = 28 ∨ (if f.width = 32 then 28 else 35 : Int) = 35 := by split <;> simp
  rw [heq]
  refine andThen hnorm ?_
  refine Option.bind_eq_some_iff.2 ⟨d, rfl, ?_⟩
  refine Option.bind_eq_some_iff.2 ⟨⟨0, n⟩, rfl, ?_⟩
  refine andThen (evenExponent_eq n hd) ?_
  obtain ⟨s, e, hs, he, -, -, hsmall, -⟩ := even_exponent d hn hn'
  have hrange : -2101 ≤ e ∧ e ≤ 2000 := by split at he <;> omega
  have hrad := radicand_lt hf hsmall
  dsimp only
  rw [hs, he]
  generalize (if f.width = 32 then 28 else 35 : Int) = P at hP hrad ⊢
  refine andThen (int_eq (by omega) (by omega)) ?_
  refine andThen (shl128_eq _ (by omega)) ?_
  refine andThen (isqrt128_eq hrad) ?_
  refine andThen (int_eq (by omega) (by omega)) ?_
  exact roundMag_eq hf _ _ (by omega) (by omega) _ rm

theorem fpMuladd_eq (a b c : BitVec 64) (rm : BitVec 3) : fpMuladd f a b c rm = some (Softfloat.fpMuladd f a b c rm) := by
  unfold fpMuladd Softfloat.fpMuladd
  refine andThen (unpack_eq hf a) ?_
  refine andThen (unpack_eq hf b) ?_
  refine andThen (unpack_eq hf c) ?_
  have ha := unpack_range hf a
  have hb := unpack_range hf b
  have hc := unpack_range hf c
  generalize Softfloat.unpack f a = ua at ha ⊢
  generalize Softfloat.unpack f b = ub at hb ⊢
  generalize Softfloat.unpack f c = uc at hc ⊢
  dsimp only
  simp only [Up.of_class]
  split
  · rfl
  next hnan =>
  split
  · split
    · rfl
    · exact makeInf_res hf _ _
  next hinf =>
  split
  · exact makeInf_res hf _ _
  next hinf' =>
  split
  · split
    · exact makeZero_res hf _
    · rfl
  obtain ⟨hsa, hea⟩ := @Up.of_finite ua (fun h => hnan (.inl h)) (fun h => hinf (.inl h))
  obtain ⟨hsb, heb⟩ := @Up.of_finite ub (fun h => hnan (.inr (.inl h))) (fun h => hinf (.inr h))
  obtain ⟨hsc, hec⟩ := @Up.of_finite uc (fun h => hnan (.inr (.inr (.inl h)))) hinf'
  refine andThen hsa ?_
  refine andThen hsb ?_
  refine andThen hea ?_
  refine andThen heb ?_
  refine andThen (int_eq (by omega) (by omega)) ?_
  split
  · exact roundMag_eq hf _ _ (by omega) (by omega) _ rm
  · refine andThen hsc ?_
    refine andThen hec ?_
    exact addCore_eq hf _ _ (by omega) _ _ (by omega) rm

/-! ## Comparisons, min/max, classify -/

omit hf in
theorem leading_eq {u : Softfloat.Up} (hn : u.cls ≠ .nan) (hi : u.cls ≠ .inf) (he : -2000 ≤ u.exp2 ∧ u.exp2 ≤ 2000) :
    leading (Up.of u) = some (u.exp2 + (if u.cls = .zero then -100000 else Softfloat.msb128 u.sig)) := by
  have hmb := msb128_range u.sig
  obtain ⟨hsig, hexp⟩ := Up.of_finite hn hi
  unfold leading
  refine andThen hexp ?_
  simp only [Up.of_class]
  by_cases hz : u.cls = .zero
  · rw [if_pos hz, if_pos hz]
    exact int_eq (by omega) (by omega)
  · rw [if_neg hz, if_neg hz]
    refine andThen hsig ?_
    refine andThen (msb128_eq _) ?_
    exact int_eq (by omega) (by omega)

omit hf in
theorem aligned_eq {u : Softfloat.Up} (hn : u.cls ≠ .nan) (hi : u.cls ≠ .inf) (hsig : u.sig.toNat ≠ 0) :
    aligned (Up.of u) = some (Softfloat.shl128 u.sig (127 - Softfloat.msb128 u.sig)) := by
  have hmb := msb128_range u.sig
  obtain ⟨j, hj, -⟩ := msb128_spec hsig
  unfold aligned
  refine andThen ((Up.of_finite hn hi).1) ?_
  refine andThen (msb128_eq _) ?_
  refine andThen (int_eq (by omega) (by omega)) ?_
  exact shl128_eq _ (by omega)

/-- A zero leads far below every other operand, so only significands other than zero are aligned. -/
theorem cmpMagnitude_eq {a b : BitVec 64} (ha : (Softfloat.unpack f a).cls ≠ .nan) (hb : (Softfloat.unpack f b).cls ≠ .nan)
    (hz : ¬((Softfloat.unpack f a).cls = .zero ∧ (Softfloat.unpack f b).cls = .zero)) :
    cmpMagnitude (Up.of (Softfloat.unpack f a)) (Up.of (Softfloat.unpack f b)) =
      some (Softfloat.cmpMagnitude (Softfloat.unpack f a) (Softfloat.unpack f b)) := by
  have hsig : ∀ {x : BitVec 64}, (Softfloat.unpack f x).cls ≠ .nan → (Softfloat.unpack f x).cls ≠ .inf →
      (Softfloat.unpack f x).cls ≠ .zero → (Softfloat.unpack f x).sig.toNat ≠ 0 := by
    intro x hn hi hz
    obtain ⟨_, k, _, heq, pos, _⟩ := unpack_normal hf hn hi hz
    rw [heq, U128.toNat_lo]
    exact pos.ne'
  have hsa := @hsig a ha
  have hsb := @hsig b hb
  clear hsig
  have hea := unpack_range hf a
  have heb := unpack_range hf b
  generalize Softfloat.unpack f a = ua at *
  generalize Softfloat.unpack f b = ub at *
  have hma := msb128_range ua.sig
  have hmb := msb128_range ub.sig
  unfold cmpMagnitude Softfloat.cmpMagnitude
  simp only [Up.of_class]
  split
  · exact int_eq (by split_ifs <;> omega) (by split_ifs <;> omega)
  next hinf =>
  have hia : ua.cls ≠ .inf := fun h => hinf (.inl h)
  have hib : ub.cls ≠ .inf := fun h => hinf (.inr h)
  refine andThen (leading_eq ha hia hea) ?_
  refine andThen (leading_eq hb hib heb) ?_
  generalize hla : ua.exp2 + (if ua.cls = .zero then -100000 else Softfloat.msb128 ua.sig) = la
  generalize hlb : ub.exp2 + (if ub.cls = .zero then -100000 else Softfloat.msb128 ub.sig) = lb
  split
  · rfl
  next hlead =>
  have hza : ua.cls ≠ .zero := by
    intro h
    rw [if_pos h] at hla
    rw [if_neg fun h' => hz ⟨h, h'⟩] at hlb
    omega
  have hzb : ub.cls ≠ .zero := by
    intro h
    rw [if_neg hza] at hla
    rw [if_pos h] at hlb
    omega
  refine andThen (aligned_eq ha hia (hsa hia hza)) ?_
  exact andThen (aligned_eq hb hib (hsb hib hzb)) rfl

omit hf in
theorem cmpMagnitude_range (ua ub : Softfloat.Up) : -1 ≤ Softfloat.cmpMagnitude ua ub ∧ Softfloat.cmpMagnitude ua ub ≤ 1 := by
  have hcmp : ∀ x y : U128, -1 ≤ cmp128 x y ∧ cmp128 x y ≤ 1 := by
    intro x y
    unfold cmp128
    split_ifs <;> decide
  unfold Softfloat.cmpMagnitude
  dsimp only
  split_ifs <;> first | decide | exact hcmp _ _

theorem fcmp_eq {a b : BitVec 64} (ha : (Softfloat.unpack f a).cls ≠ .nan) (hb : (Softfloat.unpack f b).cls ≠ .nan) :
    fcmp f a b = some (Softfloat.fcmp f a b) := by
  have hmag := cmpMagnitude_range (Softfloat.unpack f a) (Softfloat.unpack f b)
  rw [Softfloat.fcmp_eq]
  unfold fcmp
  refine andThen (unpack_eq hf a) ?_
  refine andThen (unpack_eq hf b) ?_
  simp only [Up.of_class]
  split
  · rfl
  next hz =>
  split
  · rfl
  refine andThen (cmpMagnitude_eq hf ha hb hz) ?_
  split
  · exact int_eq (by omega) (by omega)
  · rfl

theorem fpCompare_eq (quiet : Bool) (holds : Int → Bool) (a b : BitVec 64) :
    fpCompare f quiet holds a b = some (Softfloat.fpCompare f quiet holds a b) := by
  unfold fpCompare Softfloat.fpCompare
  refine andThen (unpack_eq hf a) ?_
  refine andThen (unpack_eq hf b) ?_
  dsimp only
  simp only [Up.of_class]
  split
  · rfl
  next hnan => exact andThen (fcmp_eq hf (fun h => hnan (.inl h)) (fun h => hnan (.inr h))) rfl

theorem fpMinmax_eq (wantMax : Bool) :
    fpMinmax f a b wantMax = some (Softfloat.fpMinmax f a b wantMax) := by
  unfold fpMinmax Softfloat.fpMinmax
  refine andThen (unpack_eq hf a) ?_
  refine andThen (unpack_eq hf b) ?_
  dsimp only
  simp only [Up.of_class]
  split
  · rfl
  next hnan =>
  refine andThen (fcmp_eq hf (fun h => hnan (.inl h)) (fun h => hnan (.inr h))) ?_
  split
  · rfl
  split <;> rfl

theorem fpClassify_eq (a : BitVec 64) : fpClassify f a = some (Softfloat.fpClassify f a) := by
  obtain ⟨-, ⟨hm, hm'⟩, he, -⟩ := format_range hf
  unfold fpClassify Softfloat.fpClassify
  refine andThen (unpack_eq hf a) ?_
  dsimp only
  simp only [Up.of_class]
  cases (Softfloat.unpack f a).cls with
  | normal =>
    refine andThen (shr_eq _ (by omega) (by omega)) ?_
    exact andThen (lowMask_eq (by omega) (by omega)) rfl
  | _ => rfl

/-! ## Conversions -/

omit hf in
theorem f32ToF64_eq (a : BitVec 32) : f32ToF64 a = some (Softfloat.f32ToF64 a) := by
  have he := unpack_range (.inl rfl) (a.setWidth 64)
  unfold f32ToF64 Softfloat.f32ToF64
  refine andThen (unpack_eq (.inl rfl) _) ?_
  generalize Softfloat.unpack F32 (a.setWidth 64) = u at he ⊢
  dsimp only
  simp only [Up.of_class]
  cases hc : u.cls with
  | nan => rfl
  | inf => exact makeInf_res (.inr rfl) _ _
  | zero => exact makeZero_res (.inr rfl) _
  | normal =>
    obtain ⟨hsig, hexp⟩ := @Up.of_finite u (by simp [hc]) (by simp [hc])
    refine andThen hsig ?_
    refine andThen hexp ?_
    exact roundMag_eq (.inr rfl) _ _ (by omega) (by omega) _ _

omit hf in
theorem f64ToF32_eq (a : BitVec 64) (rm : BitVec 3) : f64ToF32 a rm = some (Softfloat.f64ToF32 a rm) := by
  have he := unpack_range (.inr rfl) a
  unfold f64ToF32 Softfloat.f64ToF32
  refine andThen (unpack_eq (.inr rfl) _) ?_
  generalize Softfloat.unpack F64 a = u at he ⊢
  dsimp only
  simp only [Up.of_class]
  cases hc : u.cls with
  | nan => rfl
  | inf => exact andThen (makeInf_eq (.inl rfl) _) rfl
  | zero => exact andThen (makeZero_eq (.inl rfl) _) rfl
  | normal =>
    obtain ⟨hsig, hexp⟩ := @Up.of_finite u (by simp [hc]) (by simp [hc])
    refine andThen hsig ?_
    refine andThen hexp ?_
    exact andThen (roundMag_eq (.inl rfl) _ _ (by omega) (by omega) _ rm) rfl

theorem intToFp_eq (mag : BitVec 64) (sign : Bool) (rm : BitVec 3) :
    intToFp f mag sign rm = some (Softfloat.intToFp f mag sign rm) := by
  unfold intToFp Softfloat.intToFp
  split
  · rfl
  · exact roundMag_eq hf _ _ (by decide) (by decide) _ rm

theorem signedToFp_eq (a : BitVec 64) (rm : BitVec 3) : signedToFp f a rm = some (Softfloat.signedToFp f a rm) :=
  intToFp_eq hf _ _ rm

end Format

end Quanta.Softfloat.Checked
