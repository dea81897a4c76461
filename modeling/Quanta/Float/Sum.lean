/-
Addition, subtraction and the fused multiply-add of `softfloat.c`: the sum of two numbers at any
distance is formed in a 256-bit window under the leading bit of the larger one, with a sticky bit
for what falls below it, and that is enough to round it correctly.
-/
import Quanta.Float.Arith

namespace Quanta.Softfloat

open Rounding Ieee

/-! ## Signed sums in the window -/

section Window

variable {sX sY s : Bool} {A B : U256} {b : ℝ}

/-- What `add_core` forms from the operands in the window: nothing when they cancel, else the sum's sign,
its integer part and whether it has a fraction. -/
theorem addWindow_spec (hb : Approx b (U256.toNat B) s) (hA : U256.toNat A < 2 ^ 254) (hB : U256.toNat B < 2 ^ 254)
    (hA0 : 0 < U256.toNat A) (hs : s = true → U256.toNat B + 2 ^ 252 < U256.toNat A) :
    addWindow sX sY A B s = none ∧ sX ≠ sY ∧ signed sX (U256.toNat A) + signed sY b = 0 ∨
      ∃ M neg t y, addWindow sX sY A B s = some (M, neg, t) ∧ signed sX (U256.toNat A) + signed sY b = signed neg y ∧
        Approx y (U256.toNat M) t ∧ 0 < U256.toNat M ∧ (t = true → 2 ^ 252 ≤ U256.toNat M) := by
  obtain ⟨hgt, hlt⟩ := cmpWords_spec A B 4
  have hgt : 0 < cmp256 A B ↔ U256.toNat B < U256.toNat A := hgt
  have hlt : cmp256 A B < 0 ↔ U256.toNat A < U256.toNat B := hlt
  unfold addWindow
  by_cases hsign : sX = sY
  · right
    have hsum : U256.toNat (add256 A B) = U256.toNat A + U256.toNat B := toNat_add256 (by omega)
    refine ⟨add256 A B, sX, s, U256.toNat A + b, if_pos hsign, ?_, ?_, ?_, ?_⟩
    · rw [← hsign]
      exact (signed_add sX _ _).symm
    · rw [hsum]
      exact hb.natCast_add _
    · omega
    · intro h
      have := hs h
      omega
  rw [if_neg hsign]
  -- the operands have opposite signs, so the larger one gives the sign
  obtain rfl : sY = !sX := by cases sX <;> cases sY <;> simp_all
  rw [signed_not]
  rcases Nat.lt_trichotomy (U256.toNat B) (U256.toNat A) with h | h | h
  · right
    rw [if_pos (hgt.mpr h)]
    have hdiff : U256.toNat (sub256 A B) = U256.toNat A - U256.toNat B := toNat_sub256 h.le
    have hval : signed sX (U256.toNat A) + -signed sX b = signed sX (U256.toNat A - b) := by
      cases sX <;> simp [signed] <;> ring
    cases s with
    | true =>
      have hfar := hs rfl
      have hone : U256.toNat (u256From128 ⟨0, 1⟩) = 1 := by rw [toNat_u256From128]; simp [U128.toNat]
      have hless : U256.toNat (sub256 (sub256 A B) (u256From128 ⟨0, 1⟩)) = U256.toNat A - U256.toNat B - 1 := by
        rw [toNat_sub256 (by rw [hone, hdiff]; omega), hdiff, hone]
      refine ⟨_, sX, true, U256.toNat A - b, rfl, hval, ?_, ?_, ?_⟩
      · rw [hless]
        exact hb.natCast_sub h
      · omega
      · omega
    | false =>
      refine ⟨sub256 A B, sX, false, U256.toNat A - b, rfl, hval, ?_, ?_, ?_⟩
      · rw [hb.eq_of_not, hdiff, ← Nat.cast_sub h.le]
        exact Approx.natCast _
      · omega
      · exact fun hc => absurd hc Bool.false_ne_true
  · left
    have hs0 : s = false := by
      by_contra hc
      have := hs (Bool.eq_true_of_not_eq_false hc)
      omega
    subst hs0
    rw [if_neg (by rw [hgt]; omega), if_neg (by rw [hlt]; omega), hb.eq_of_not, h]
    exact ⟨rfl, hsign, add_neg_cancel _⟩
  · right
    have hs0 : s = false := by
      by_contra hc
      have := hs (Bool.eq_true_of_not_eq_false hc)
      omega
    subst hs0
    have hdiff : U256.toNat (sub256 B A) = U256.toNat B - U256.toNat A := toNat_sub256 h.le
    rw [if_neg (by rw [hgt]; omega), if_pos (hlt.mpr h)]
    refine ⟨sub256 B A, !sX, false, b - U256.toNat A, rfl, ?_, ?_, ?_, ?_⟩
    · cases sX <;> simp [signed] <;> ring
    · rw [hb.eq_of_not, hdiff, ← Nat.cast_sub h.le]
      exact Approx.natCast _
    · omega
    · exact fun hc => absurd hc Bool.false_ne_true

end Window

section Sum

variable {f : Fmt} (hf : f.Standard) (m : Mode)
include hf

/-- The rounding of a sum in the window, cut down to 128 bits first. -/
theorem roundMag_window (neg : Bool) {M : U256} {t : Bool} {y : ℝ} {w : ℤ} (hy : Approx y (U256.toNat M) t)
    (h0 : 0 < U256.toNat M) (ht : t = true → 2 ^ 252 ≤ U256.toNat M) :
    Delivers f (f.format.rounded m (signed neg (y * 2 ^ w)))
      (if msb256 M ≤ 127 then roundMag f neg ⟨M 1, M 0⟩ w t (rmOf m)
      else roundMag f neg ⟨(shr256Jam M (msb256 M - 127)).1 1, (shr256Jam M (msb256 M - 127)).1 0⟩
        (w + (msb256 M - 127)) (t || (shr256Jam M (msb256 M - 127)).2) (rmOf m)) := by
  obtain ⟨k, hk, hk4, hlo, hhi⟩ := @msbWords_spec M 4 h0.ne'
  have hk : msb256 M = k := hk
  have hlo : 2 ^ k ≤ U256.toNat M := hlo
  have hhi : U256.toNat M < 2 ^ (k + 1) := hhi
  rw [hk]
  split
  · next hle =>
    have hsmall : U256.toNat M < 2 ^ 128 :=
      Nat.lt_of_lt_of_le hhi (Nat.pow_le_pow_right (by decide) (by omega))
    have ht0 : t = false := by
      by_contra hc
      have := ht (Bool.eq_true_of_not_eq_false hc)
      omega
    subst ht0
    rw [← toNat_lowWords hsmall] at hy h0
    exact roundMag_spec hf hy m neg rfl h0.ne' fun hc => absurd hc Bool.false_ne_true
  · next hgt =>
    obtain ⟨d, hd⟩ : ∃ d : ℕ, k = 127 + d := ⟨k - 127, by omega⟩
    have hshift : (k : ℤ) - 127 = d := by omega
    rw [hshift]
    obtain ⟨hr, hlost⟩ := shr256Jam_spec M d
    have hpos : 0 < 2 ^ d := Nat.two_pow_pos d
    have hdlo : 2 ^ 127 ≤ U256.toNat M / 2 ^ d := by rwa [Nat.le_div_iff_mul_le hpos, ← Nat.pow_add, ← hd]
    have hdhi : U256.toNat M / 2 ^ d < 2 ^ 128 := by
      rwa [Nat.div_lt_iff_lt_mul hpos, ← Nat.pow_add, show 128 + d = k + 1 by omega]
    have hmant : (⟨(shr256Jam M d).1 1, (shr256Jam M d).1 0⟩ : U128).toNat = U256.toNat M / 2 ^ d := by
      rw [toNat_lowWords (by rwa [hr]), hr]
    have happ := hy.div hpos
    rw [← hmant, ← hlost] at happ
    refine roundMag_spec hf happ m neg ?_ ?_ fun _ => ?_
    · have hpow : ((2 ^ d : ℕ) : ℝ) ≠ 0 := Nat.cast_ne_zero.mpr hpos.ne'
      rw [zpow_add₀ two_ne_zero, zpow_natCast]
      push_cast at hpow ⊢
      field_simp
    · rw [hmant]
      omega
    · rw [hmant]
      refine Nat.le_trans ?_ hdlo
      rcases hf with rfl | rfl <;> decide

/-! ## Aligning the operands -/

omit hf in
/-- The larger operand, aligned with its leading bit at 253. -/
theorem window_upper {sig : U128} {e : ℤ} {k : ℕ} (hk : k ≤ 127) (hlo : 2 ^ k ≤ sig.toNat) (hhi : sig.toNat < 2 ^ (k + 1)) :
    2 ^ 253 ≤ U256.toNat (shl128to256 sig (e - (e + k - 253))) ∧
      U256.toNat (shl128to256 sig (e - (e + k - 253))) < 2 ^ 254 ∧
      (sig.toNat : ℝ) * 2 ^ e = U256.toNat (shl128to256 sig (e - (e + k - 253))) * 2 ^ (e + k - 253) := by
  obtain ⟨n, hn⟩ : ∃ n : ℕ, k + n = 253 := ⟨253 - k, by omega⟩
  have hshift : e - (e + k - 253) = (n : ℤ) := by omega
  have hslo : 2 ^ 253 ≤ sig.toNat * 2 ^ n := by
    rw [← hn, Nat.pow_add]
    exact Nat.mul_le_mul_right _ hlo
  have hshi : sig.toNat * 2 ^ n < 2 ^ 254 := by
    rw [show 254 = k + 1 + n by omega, Nat.pow_add]
    exact Nat.mul_lt_mul_of_pos_right hhi (Nat.two_pow_pos n)
  have hval : U256.toNat (shl128to256 sig n) = sig.toNat * 2 ^ n := by
    rw [toNat_shl128to256 _ (by omega)]
    omega
  rw [hshift, hval]
  refine ⟨hslo, hshi, ?_⟩
  rw [Nat.cast_mul, mul_assoc, two_pow_mul_zpow]
  congr 2
  omega

omit hf in
/-- The smaller operand in the same window: exact when all of it lies there, else far below the larger one. -/
theorem window_lower {sig : U128} {e w : ℤ} {k : ℕ} (hhi : sig.toNat < 2 ^ (k + 1)) (hw : e + k ≤ w + 253) :
    ∃ (B : U256) (s : Bool) (b : ℝ),
      (if 0 ≤ e - w then (shl128to256 sig (e - w), false) else shr256Jam (u256From128 sig) (-(e - w))) = (B, s) ∧
      Approx b (U256.toNat B) s ∧ U256.toNat B < 2 ^ 254 ∧ (s = true → U256.toNat B < 2 ^ 128) ∧
      (sig.toNat : ℝ) * 2 ^ e = b * 2 ^ w := by
  by_cases hpos : 0 ≤ e - w
  · obtain ⟨n, hn⟩ := Int.eq_ofNat_of_zero_le hpos
    have hshi : sig.toNat * 2 ^ n < 2 ^ 254 := by
      calc sig.toNat * 2 ^ n < 2 ^ (k + 1) * 2 ^ n := Nat.mul_lt_mul_of_pos_right hhi (Nat.two_pow_pos n)
        _ = 2 ^ (k + 1 + n) := (Nat.pow_add 2 _ _).symm
        _ ≤ 2 ^ 254 := Nat.pow_le_pow_right (by decide) (by omega)
    have hval : U256.toNat (shl128to256 sig n) = sig.toNat * 2 ^ n := by
      rw [toNat_shl128to256 _ (by omega)]
      omega
    refine ⟨shl128to256 sig n, false, (sig.toNat * 2 ^ n : ℕ), ?_, ?_, ?_, ?_, ?_⟩
    · rw [hn]
      exact if_pos (Int.natCast_nonneg n)
    · rw [hval]
      exact Approx.natCast _
    · rwa [hval]
    · exact fun hc => absurd hc Bool.false_ne_true
    · rw [Nat.cast_mul, mul_assoc, two_pow_mul_zpow]
      congr 2
      omega
  · obtain ⟨n, hn⟩ := Int.eq_ofNat_of_zero_le (show 0 ≤ -(e - w) by omega)
    obtain ⟨hr, hlost⟩ := shr256Jam_spec (u256From128 sig) n
    rw [toNat_u256From128] at hr hlost
    have hsmall : sig.toNat / 2 ^ n < 2 ^ 128 := Nat.lt_of_le_of_lt (Nat.div_le_self _ _) sig.toNat_lt
    have happ := (Approx.natCast sig.toNat).div (Nat.two_pow_pos n)
    rw [Bool.false_or, ← hr, ← hlost] at happ
    refine ⟨(shr256Jam (u256From128 sig) n).1, (shr256Jam (u256From128 sig) n).2, _, ?_, happ, ?_, ?_, ?_⟩
    · rw [if_neg hpos, hn]
    · rw [hr]
      omega
    · intro
      rwa [hr]
    · have hpow : ((2 ^ n : ℕ) : ℝ) ≠ 0 := Nat.cast_ne_zero.mpr (Nat.two_pow_pos n).ne'
      rw [show w = e + n by omega, zpow_add₀ two_ne_zero, zpow_natCast]
      push_cast at hpow ⊢
      field_simp

omit hf in
theorem rmOf_eq_rdn : decide (rmOf m = SF_RDN) = decide (m = .down) := by
  cases m <;> rfl

/-- `add_core` on operands in order of their leading bits. -/
theorem addOrdered_spec (sX sY : Bool) {sigX sigY : U128} {eX eY : ℤ} (hX : sigX.toNat ≠ 0)
    (hY : sigY.toNat ≠ 0) (hlead : eY + msb128 sigY ≤ eX + msb128 sigX) :
    Delivers f (f.format.sum m sX (signed sX (sigX.toNat * 2 ^ eX)) sY (signed sY (sigY.toNat * 2 ^ eY)))
      (addOrdered f sX sigX eX sY sigY eY (rmOf m)) := by
  obtain ⟨k, hk, hk127, hklo, hkhi⟩ := msb128_spec hX
  obtain ⟨j, hj, -, -, hjhi⟩ := msb128_spec hY
  rw [hk, hj] at hlead
  obtain ⟨hAlo, hAhi, hAval⟩ := @window_upper sigX eX k hk127 hklo hkhi
  obtain ⟨B, s, b, hB, hb, hBhi, hfar, hBval⟩ := @window_lower sigY eY (eX + k - 253) j hjhi (by omega)
  have hpow : (2 : ℝ) ^ (eX + k - 253) ≠ 0 := zpow_ne_zero _ two_ne_zero
  unfold addOrdered
  simp only [hk, hB]
  rw [hAval, hBval, signed_mul, signed_mul]
  generalize shl128to256 sigX (eX - (eX + k - 253)) = A at hAlo hAhi ⊢
  unfold Format.sum
  rw [← add_mul]
  have hsticky : s = true → U256.toNat B + 2 ^ 252 < U256.toNat A := by
    intro hs
    have := hfar hs
    omega
  rcases @addWindow_spec sX sY s A B b hb hAhi hBhi (by omega) hsticky with
    ⟨hnone, hsign, hzero⟩ | ⟨M, neg, t, y, hsome, hval, hy, hM, ht⟩
  · have hdown : decide (rmOf m = SF_RDN) = Format.zeroSumSign m sX sY := by
      unfold Format.zeroSumSign
      rw [if_neg hsign, rmOf_eq_rdn]
    rw [hnone, hzero, zero_mul, if_pos rfl]
    dsimp only
    rw [hdown]
    exact delivers_zero hf _
  · have hne : signed neg (y * 2 ^ (eX + k - 253)) ≠ 0 := by
      have hle := hy.le
      have hMr : (0 : ℝ) < U256.toNat M := Nat.cast_pos.mpr hM
      rw [ne_eq, signed_eq_zero]
      exact mul_ne_zero (by linarith) hpow
    have hnz : (is0256 M && !t) = false := by rw [is0256_iff, decide_eq_false hM.ne', Bool.false_and]
    rw [hsome, hval, ← signed_mul, if_neg hne]
    dsimp only
    rw [hnz]
    exact roundMag_window hf m neg hy hM ht

/-- `add_core` rounds the exact sum of two nonzero numbers at any distance. -/
theorem addCore_spec (sX sY : Bool) {sigX sigY : U128} (eX eY : ℤ) (hX : sigX.toNat ≠ 0)
    (hY : sigY.toNat ≠ 0) :
    Delivers f (f.format.sum m sX (signed sX (sigX.toNat * 2 ^ eX)) sY (signed sY (sigY.toNat * 2 ^ eY)))
      (addCore f sX sigX eX sY sigY eY (rmOf m)) := by
  unfold addCore
  split
  · next hlt =>
    rw [Format.sum_comm]
    exact addOrdered_spec hf m sY sX hY hX hlt.le
  · next hge => exact addOrdered_spec hf m sX sY hX hY (not_lt.mp hge)

/-! ## Addition and subtraction -/

/-- A zero and a zero. -/
theorem delivers_zeros (s t : Bool) {v : ℝ} (hv : v = 0) :
    Delivers f (f.format.sum m s v t 0) (makeZero f (if s = t then s else decide (rmOf m = SF_RDN)), 0) := by
  rw [hv, Format.zero_sum_zero, rmOf_eq_rdn]
  exact delivers_zero hf _

/-- A zero leaves the other operand. -/
theorem delivers_addend (s : Bool) {t : Bool} {v w : ℝ} {bits : BitVec 64} (hv : v = 0) (hw : w ≠ 0)
    (hfit : bits.toNat < 2 ^ f.width) (hdec : f.format.decode bits.toNat = .finite t w) :
    Delivers f (f.format.sum m s v t w) (bits, 0) := by
  rw [hv, Format.zero_sum _ m s t hw]
  exact delivers_operand hf m hfit hdec hw

theorem fpAdd_spec (sub : Bool) {a b : BitVec 64} (hfa : a.toNat < 2 ^ f.width) (hfb : b.toNat < 2 ^ f.width) :
    Delivers f (f.format.add m (f.format.decode a.toNat) ((f.format.decode b.toNat).negIf sub))
      (fpAdd f a b sub (rmOf m)) := by
  have ha := unpack_spec hf a
  have hb := unpack_spec hf b
  obtain ⟨hflip, hdec⟩ := decode_flipIf hf sub hfb
  obtain ⟨x, hx⟩ : ∃ x, f.format.decode a.toNat = x := ⟨_, rfl⟩
  unfold fpAdd Format.add
  rw [hx] at ha ⊢
  generalize unpack f a = ua at ha ⊢
  generalize unpack f b = ub at hb ⊢
  generalize f.format.decode b.toNat = y at hb hdec ⊢
  cases ha with
  | nan n s => cases hb <;> exact delivers_nan hf _
  | inf s =>
    cases hb with
    | nan => exact delivers_nan hf _
    | inf t =>
      cases s <;> cases t <;> cases sub <;> first | exact delivers_inf hf _ {} | exact delivers_invalidOp hf
    | zero => exact delivers_inf hf _ {}
    | normal => exact delivers_inf hf _ {}
  | zero s =>
    cases hb with
    | nan => exact delivers_nan hf _
    | inf => exact delivers_inf hf _ {}
    | zero t =>
      dsimp only [Datum.negIf]
      rw [signed_zero]
      exact delivers_zeros hf m s (t ^^ sub) rfl
    | @normal t l d pos =>
      have hne : signed sub (signed t (l.toNat * 2 ^ d)) ≠ 0 := mt (signed_eq_zero sub).mp (magnitude_ne_zero pos)
      exact delivers_addend hf m s rfl hne hflip hdec
  | @normal s k e pos =>
    cases hb with
    | nan => exact delivers_nan hf _
    | inf => exact delivers_inf hf _ {}
    | zero t =>
      dsimp only [Datum.negIf]
      rw [signed_zero, Format.sum_zero _ m s (magnitude_ne_zero pos)]
      exact delivers_operand hf m hfa hx (magnitude_ne_zero pos)
    | @normal t l d pos' =>
      have hsum := @addCore_spec f hf m s (t ^^ sub) ⟨0, k⟩ ⟨0, l⟩ e d (by rw [U128.toNat_lo]; exact pos.ne')
        (by rw [U128.toNat_lo]; exact pos'.ne')
      dsimp only [Datum.negIf]
      rw [signed_signed, Bool.xor_comm sub t]
      rw [U128.toNat_lo, U128.toNat_lo] at hsum
      exact hsum

/-! ## The fused multiply-add -/

/-- An infinite product, whatever is added to it. -/
theorem delivers_infPlus (s : Bool) {z : Datum} {u : Up} (hz : Unpacks f z u) {p : Prop} [Decidable p] {t : Bool}
    (hp : p ↔ u.cls = .nan) (ht : t = u.snan) :
    Delivers f (Format.fma.infPlus s z)
      (if p then (f.qnanBits, nanFlags t)
      else if u.cls = .inf ∧ u.sign ≠ s then (f.qnanBits, SF_NV) else (makeInf f s, 0)) := by
  subst ht
  simp only [hp]
  cases hz with
  | nan n sig => exact delivers_nan hf _
  | inf t =>
    cases s <;> cases t <;> first | exact delivers_inf hf _ {} | exact delivers_invalidOp hf
  | zero => exact delivers_inf hf _ {}
  | normal => exact delivers_inf hf _ {}

theorem fpMuladd_spec (a b : BitVec 64) {c : BitVec 64} (hfc : c.toNat < 2 ^ f.width) :
    Delivers f (f.format.fma m (f.format.decode a.toNat) (f.format.decode b.toNat) (f.format.decode c.toNat))
      (fpMuladd f a b c (rmOf m)) := by
  have ha := unpack_spec hf a
  have hb := unpack_spec hf b
  have hc := unpack_spec hf c
  obtain ⟨z, hz⟩ : ∃ z, f.format.decode c.toNat = z := ⟨_, rfl⟩
  unfold fpMuladd Format.fma
  rw [hz] at hc ⊢
  generalize f.format.decode a.toNat = x at ha ⊢
  generalize f.format.decode b.toNat = y at hb ⊢
  generalize unpack f a = ua at ha ⊢
  generalize unpack f b = ub at hb ⊢
  generalize unpack f c = uc at hc ⊢
  cases ha with
  | nan n s => cases hb <;> cases hc <;> exact delivers_nan_of hf (Bool.or_false _)
  | inf s =>
    cases hb with
    | nan => cases hc <;> exact delivers_nan_of hf (Bool.or_false _)
    | inf t => exact delivers_infPlus hf (s ^^ t) hc (by simp) (by simp)
    | zero =>
      dsimp only
      rw [if_pos (rfl : (0 : ℝ) = 0)]
      cases hc <;> exact delivers_nan_of hf (Bool.or_true _)
    | normal t pos =>
      dsimp only
      rw [if_neg (magnitude_ne_zero pos)]
      exact delivers_infPlus hf (s ^^ t) hc (by simp) (by simp)
  | zero s =>
    cases hb with
    | nan => cases hc <;> exact delivers_nan_of hf (Bool.or_false _)
    | inf t =>
      dsimp only
      rw [if_pos (rfl : (0 : ℝ) = 0)]
      cases hc <;> exact delivers_nan_of hf (Bool.or_true _)
    | zero t | normal t =>
      cases hc with
      | nan => exact delivers_nan_of hf (Bool.or_false _)
      | inf => exact delivers_inf hf _ {}
      | zero r => exact delivers_zeros hf m (s ^^ t) r (zero_mul _)
      | normal r pos => exact delivers_addend hf m (s ^^ t) (zero_mul _) (magnitude_ne_zero pos) hfc hz
  | @normal s k e pos =>
    cases hb with
    | nan => cases hc <;> exact delivers_nan_of hf (Bool.or_false _)
    | inf t =>
      dsimp only
      rw [if_neg (magnitude_ne_zero pos)]
      exact delivers_infPlus hf (s ^^ t) hc (by simp) (by simp)
    | zero t =>
      cases hc with
      | nan => exact delivers_nan_of hf (Bool.or_false _)
      | inf => exact delivers_inf hf _ {}
      | zero r => exact delivers_zeros hf m (s ^^ t) r (mul_zero _)
      | normal r pos' => exact delivers_addend hf m (s ^^ t) (mul_zero _) (magnitude_ne_zero pos') hfc hz
    | @normal t l d pos' =>
      have hprod : signed s ((k.toNat : ℝ) * 2 ^ e) * signed t (l.toNat * 2 ^ d) =
          signed (s ^^ t) ((mul64 k l).toNat * 2 ^ (e + d)) := by
        rw [signed_mul_signed, toNat_mul64, zpow_add₀ two_ne_zero, Nat.cast_mul]
        congr 1
        ring
      have hne : (mul64 k l).toNat ≠ 0 := by
        rw [toNat_mul64]
        exact (Nat.mul_pos pos pos').ne'
      cases hc with
      | nan => exact delivers_nan_of hf (Bool.or_false _)
      | inf => exact delivers_inf hf _ {}
      | zero r =>
        dsimp only
        rw [Format.sum_zero _ m (s ^^ t) (mul_ne_zero (magnitude_ne_zero pos) (magnitude_ne_zero pos')) r,
          signed_mul_signed]
        exact roundMag_mul hf m (s ^^ t) pos pos'
      | @normal r n c' pos'' =>
        have hsum := @addCore_spec f hf m (s ^^ t) r (mul64 k l) ⟨0, n⟩ (e + d) c' hne (by rw [U128.toNat_lo]; exact pos''.ne')
        rw [U128.toNat_lo] at hsum
        dsimp only
        rw [hprod]
        exact hsum

end Sum

end Quanta.Softfloat
