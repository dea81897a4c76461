/-
RV64 Zbb and Zbc: the scans count bits, the rotates permute them, `rev8` and `orc.b` act on bytes,
and the carry-less products are words of a product of polynomials. The `bm_*` helpers take the
width as a parameter, so most facts are proved once for the word and the doubleword forms.
-/
import Mathlib.Data.Finset.Card
import Mathlib.Order.Interval.Finset.Nat
import Quanta.Lib.Gf2
import Quanta.Rv64.Words

namespace Quanta

variable (a : BitVec 64) {bits i : Nat}

/-! ## What the instructions are for -/

namespace Rv64

variable {w : Nat}

/-- `n` is the number of leading zeros, which is the width when no bit is set. -/
structure LeadingZeros (a : BitVec w) (n : Nat) : Prop where
  le : n ≤ w
  clear : ∀ i, i < n → a.getLsbD (w - 1 - i) = false
  set : n < w → a.getLsbD (w - 1 - n) = true

/-- `n` is the number of trailing zeros. -/
structure TrailingZeros (a : BitVec w) (n : Nat) : Prop where
  le : n ≤ w
  clear : ∀ i, i < n → a.getLsbD i = false
  set : n < w → a.getLsbD n = true

/-- The number of set bits. -/
def popcount (a : BitVec w) : Nat := ((Finset.range w).filter fun i => a.getLsbD i = true).card

/-- Bit `i` of `a` is bit `i + s` of `r`, modulo the width. -/
def RotatesLeft (a : BitVec w) (s : Nat) (r : BitVec w) : Prop :=
  ∀ i, i < w → r.getLsbD ((i + s) % w) = a.getLsbD i

/-- Bit `i + s` of `a`, modulo the width, is bit `i` of `r`. -/
def RotatesRight (a : BitVec w) (s : Nat) (r : BitVec w) : Prop :=
  ∀ i, i < w → r.getLsbD i = a.getLsbD ((i + s) % w)

def byte (a : BitVec w) (k : Nat) : BitVec 8 := a.extractLsb' (8 * k) 8

/-- The bytes in the opposite order. -/
def ReversesBytes (a r : BitVec 64) : Prop := ∀ k, k < 8 → byte r k = byte a (7 - k)

/-- Every byte all zeros or all ones. -/
def CombinesBytes (a r : BitVec 64) : Prop := ∀ k, k < 8 → byte r k = if byte a k = 0 then 0 else 0xff

theorem LeadingZeros.of_zero {n : Nat} (h : LeadingZeros (0 : BitVec w) n) : n = w := by
  by_contra hne
  have hset := h.set (by have := h.le; omega)
  simp at hset

theorem TrailingZeros.of_zero {n : Nat} (h : TrailingZeros (0 : BitVec w) n) : n = w := by
  by_contra hne
  have hset := h.set (by have := h.le; omega)
  simp at hset

/-- Rotating back. -/
theorem RotatesLeft.cancel {a r q : BitVec w} {s : Nat} (hr : RotatesLeft a s r) (hq : RotatesRight r s q) :
    q = a := by
  apply BitVec.eq_of_getLsbD_eq
  intro i hi
  rw [hq i hi, hr i hi]

theorem RotatesRight.cancel {a r q : BitVec w} {s : Nat} (hr : RotatesRight a s r) (hq : RotatesLeft r s q) :
    q = a := by
  apply BitVec.eq_of_getLsbD_eq
  intro i hi
  -- `i` is where the bit at `i - s` ends up
  obtain ⟨j, hj, rfl⟩ : ∃ j, j < w ∧ (j + s) % w = i := by
    have hs := Nat.mod_lt s (Nat.zero_lt_of_lt hi)
    refine ⟨(i + (w - s % w)) % w, Nat.mod_lt _ (by omega), ?_⟩
    rw [Nat.mod_add_mod, ← Nat.add_mod_mod, show i + (w - s % w) + s % w = i + w by omega, Nat.add_mod_right,
      Nat.mod_eq_of_lt hi]
  rw [hq j hj, hr j hj]

theorem getLsbD_byte (a : BitVec w) (k : Nat) {j : Nat} (hj : j < 8) : (byte a k).getLsbD j = a.getLsbD (8 * k + j) := by
  unfold byte
  rw [BitVec.getLsbD_extractLsb', decide_eq_true hj, Bool.true_and]

theorem eq_of_bytes {a r : BitVec 64} (h : ∀ k, k < 8 → byte r k = byte a k) : r = a := by
  apply BitVec.eq_of_getLsbD_eq
  intro i hi
  rw [← Nat.div_add_mod i 8, ← getLsbD_byte r (i / 8) (by omega), ← getLsbD_byte a (i / 8) (by omega), h (i / 8) (by omega)]

end Rv64

open Rv64

/-! ## Scans -/

section Scans

variable {w : Nat} {a : BitVec w} {v : BitVec 64}

theorem leadingZeros_bmClz (hv : ∀ i, i < w → v.getLsbD i = a.getLsbD i) : LeadingZeros a (bmClz v w) := by
  have hscan : ∀ n, bmClz v n ≤ n ∧ (∀ i, i < bmClz v n → v.getLsbD (n - 1 - i) = false) ∧
      (bmClz v n < n → v.getLsbD (n - 1 - bmClz v n) = true) := by
    intro n
    induction n with
    | zero => simp [bmClz]
    | succ n ih =>
      obtain ⟨hle, hclear, hset⟩ := ih
      rw [bmClz_succ]
      split
      · next h => exact ⟨by omega, fun i hi => absurd hi (by omega), fun _ => h⟩
      · next h =>
        refine ⟨by omega, fun i hi => ?_, fun hlt => ?_⟩
        · rcases i with _ | i
          · simpa using h
          · rw [show n + 1 - 1 - (i + 1) = n - 1 - i by omega]
            exact hclear i (by omega)
        · rw [show n + 1 - 1 - (bmClz v n + 1) = n - 1 - bmClz v n by omega]
          exact hset (by omega)
  obtain ⟨hle, hclear, hset⟩ := hscan w
  refine ⟨hle, fun i hi => ?_, fun hlt => ?_⟩
  · rw [← hv _ (by omega)]
    exact hclear i hi
  · rw [← hv _ (by omega)]
    exact hset hlt

theorem trailingZeros_bmCtz (hv : ∀ i, i < w → v.getLsbD i = a.getLsbD i) : TrailingZeros a (bmCtz v w) := by
  have hscan : ∀ n s, bmCtzFrom v s n ≤ n ∧ (∀ i, i < bmCtzFrom v s n → v.getLsbD (s + i) = false) ∧
      (bmCtzFrom v s n < n → v.getLsbD (s + bmCtzFrom v s n) = true) := by
    intro n
    induction n with
    | zero => simp [bmCtzFrom]
    | succ n ih =>
      intro s
      obtain ⟨hle, hclear, hset⟩ := ih (s + 1)
      rw [bmCtzFrom_succ]
      split
      · next h => exact ⟨by omega, fun i hi => absurd hi (by omega), fun _ => h⟩
      · next h =>
        refine ⟨by omega, fun i hi => ?_, fun hlt => ?_⟩
        · rcases i with _ | i
          · simpa using h
          · rw [show s + (i + 1) = s + 1 + i by omega]
            exact hclear i (by omega)
        · rw [show s + (bmCtzFrom v (s + 1) n + 1) = s + 1 + bmCtzFrom v (s + 1) n by omega]
          exact hset (by omega)
  obtain ⟨hle, hclear, hset⟩ := hscan w 0
  unfold bmCtz
  refine ⟨hle, fun i hi => ?_, fun hlt => ?_⟩
  · rw [← hv _ (by omega), ← Nat.zero_add i]
    exact hclear i hi
  · rw [← hv _ hlt, ← Nat.zero_add (bmCtzFrom v 0 w)]
    exact hset hlt

theorem bmCpop_eq_popcount (hv : ∀ i, i < w → v.getLsbD i = a.getLsbD i) : bmCpop v w = popcount a := by
  have hscan : ∀ n, bmCpop v n = ((Finset.range n).filter fun i => v.getLsbD i = true).card := by
    intro n
    induction n with
    | zero => rfl
    | succ n ih =>
      rw [bmCpop_succ, ih, Finset.range_add_one, Finset.filter_insert]
      by_cases h : v.getLsbD n = true
      · rw [if_pos h, Finset.card_insert_of_notMem (by simp), h]
        rfl
      · rw [if_neg h, Bool.eq_false_iff.mpr h]
        rfl
  rw [hscan w]
  unfold popcount
  congr 1
  apply Finset.filter_congr
  intro i hi
  rw [hv i (Finset.mem_range.mp hi)]

end Scans

/-! ## Rotates -/

/-- The two widths the helpers are called with. -/
def IsWidth (bits : Nat) : Prop := bits = 32 ∨ bits = 64

theorem getLsbD_bmMask (hb : IsWidth bits) (hi : i < 64) : (bmMask bits).getLsbD i = decide (i < bits) := by
  rcases hb with rfl | rfl
  · exact getLsbD_bmMask_32 hi
  · rw [show bmMask 64 = BitVec.allOnes 64 from rfl, BitVec.getLsbD_allOnes]

theorem toNat_and_width {bits : Nat} (hb : IsWidth bits) (s : BitVec 32) :
    (s &&& BitVec.ofNat 32 (bits - 1)).toNat = s.toNat % bits := by
  rcases hb with rfl | rfl
  · exact and_31_toNat s
  · rw [BitVec.toNat_and]
    exact Nat.and_two_pow_sub_one_eq_mod s.toNat 6

theorem IsWidth.pos {bits : Nat} (hb : IsWidth bits) : 0 < bits ∧ bits ≤ 64 := by
  rcases hb with rfl | rfl <;> decide

/-- A masked operand bit by bit. -/
theorem getLsbD_and_bmMask (hb : IsWidth bits) (v : BitVec 64) (hi : i < bits) :
    (v &&& bmMask bits).getLsbD i = v.getLsbD i := by
  rw [BitVec.getLsbD_and, getLsbD_bmMask hb (by have := hb.pos; omega), decide_eq_true hi, Bool.and_true]

theorem getLsbD_and_bmMask_of_ge (hb : IsWidth bits) (v : BitVec 64) (hi : bits ≤ i) :
    (v &&& bmMask bits).getLsbD i = false := by
  by_cases h : i < 64
  · rw [BitVec.getLsbD_and, getLsbD_bmMask hb h, decide_eq_false (by omega), Bool.and_false]
  · exact BitVec.getLsbD_of_ge _ _ (by omega)

theorem getLsbD_bmRor (hb : IsWidth bits) (v : BitVec 64) (s : BitVec 32) (hi : i < bits) :
    (bmRor v s bits).getLsbD i = v.getLsbD ((i + s.toNat) % bits) := by
  obtain ⟨hpos, hle⟩ := hb.pos
  have hs := Nat.mod_lt s.toNat hpos
  unfold bmRor
  dsimp only
  rw [toNat_and_width hb, ← Nat.add_mod_mod]
  generalize s.toNat % bits = k at hs
  by_cases h0 : k = 0
  · rw [if_pos h0, getLsbD_and_bmMask hb v hi, h0, Nat.add_zero, Nat.mod_eq_of_lt hi]
  rw [if_neg h0, getLsbD_and_bmMask hb _ hi, BitVec.getLsbD_or, BitVec.getLsbD_ushiftRight, BitVec.getLsbD_shiftLeft]
  -- the part shifted right ends where the part shifted left begins
  by_cases hlt : i < bits - k
  · rw [getLsbD_and_bmMask hb v (by omega), Nat.mod_eq_of_lt (show i + k < bits by omega), Nat.add_comm k i]
    simp [hlt]
  · rw [getLsbD_and_bmMask_of_ge hb v (by omega), getLsbD_and_bmMask hb v (by omega),
      Nat.mod_eq_sub_mod (by omega), Nat.mod_eq_of_lt (by omega), show i + k - bits = i - (bits - k) by omega]
    simp [hlt, show i < 64 by omega]

theorem getLsbD_bmRol (hb : IsWidth bits) (v : BitVec 64) (s : BitVec 32) (hi : i < bits) :
    (bmRol v s bits).getLsbD ((i + s.toNat) % bits) = v.getLsbD i := by
  obtain ⟨hpos, hle⟩ := hb.pos
  have hs := Nat.mod_lt s.toNat hpos
  unfold bmRol
  dsimp only
  rw [toNat_and_width hb, ← Nat.add_mod_mod]
  generalize s.toNat % bits = k at hs
  have hj := Nat.mod_lt (i + k) hpos
  by_cases h0 : k = 0
  · rw [if_pos h0, getLsbD_and_bmMask hb v hj, h0, Nat.add_zero, Nat.mod_eq_of_lt hi]
  rw [if_neg h0, getLsbD_and_bmMask hb _ hj, BitVec.getLsbD_or, BitVec.getLsbD_ushiftRight, BitVec.getLsbD_shiftLeft]
  by_cases hlt : i + k < bits
  · rw [Nat.mod_eq_of_lt hlt, getLsbD_and_bmMask_of_ge hb v (show bits ≤ bits - k + (i + k) by omega),
      getLsbD_and_bmMask hb v (by omega), Nat.add_sub_cancel]
    simp [show i + k < 64 by omega]
  · rw [Nat.mod_eq_sub_mod (by omega), Nat.mod_eq_of_lt (show i + k - bits < bits by omega),
      show bits - k + (i + k - bits) = i by omega, getLsbD_and_bmMask hb v hi]
    simp [show i + k - bits < k by omega]

theorem rotatesRight_bmRor (s : BitVec 32) : RotatesRight a s.toNat (bmRor a s 64) :=
  fun _ hi => getLsbD_bmRor (.inr rfl) a s hi

theorem rotatesLeft_bmRol (s : BitVec 32) : RotatesLeft a s.toNat (bmRol a s 64) :=
  fun _ hi => getLsbD_bmRol (.inr rfl) a s hi

theorem rotatesRight_bmRor_word (s : BitVec 32) : RotatesRight (lo32 a) s.toNat (lo32 (bmRor a s 32)) := by
  intro i hi
  rw [getLsbD_lo32 _ hi, getLsbD_bmRor (.inl rfl) a s hi, getLsbD_lo32 _ (Nat.mod_lt _ (by decide))]

theorem rotatesLeft_bmRol_word (s : BitVec 32) : RotatesLeft (lo32 a) s.toNat (lo32 (bmRol a s 32)) := by
  intro i hi
  rw [getLsbD_lo32 _ (Nat.mod_lt _ (by decide)), getLsbD_bmRol (.inl rfl) a s hi, getLsbD_lo32 _ hi]

/-! ## Bytes -/

theorem containerByte_eq_zero_iff (v : BitVec 64) (k : Nat) : containerByte v k = 0#64 ↔ byte v k = 0 := by
  constructor
  · intro h
    apply BitVec.eq_of_getLsbD_eq
    intro i hi
    have hbit := congrArg (·.getLsbD i) h
    rw [getLsbD_containerByte v k (by omega), decide_eq_true hi, Bool.and_true] at hbit
    rw [Rv64.getLsbD_byte v k hi, hbit]
    simp
  · intro h
    apply BitVec.eq_of_getLsbD_eq
    intro i hi
    rw [getLsbD_containerByte v k hi]
    by_cases h8 : i < 8
    · rw [← Rv64.getLsbD_byte v k h8, h]
      simp
    · simp [h8]

theorem combinesBytes_bmOrcb : CombinesBytes a (bmOrcb a 64) := by
  intro k hk
  apply BitVec.eq_of_getLsbD_eq
  intro j hj
  have hff : ∀ j : Fin 8, (0xff : BitVec 8).getLsbD j = true := by decide
  rw [Rv64.getLsbD_byte _ k hj]
  unfold bmOrcb
  rw [getLsbD_orcb a _ (by omega), show (8 * k + j) / 8 = k by omega, decide_eq_true (by omega), Bool.true_and]
  simp only [ne_eq, containerByte_eq_zero_iff]
  split
  · next h => simp [h]
  · next h => rw [hff ⟨j, hj⟩, decide_eq_true h]

theorem reversesBytes_bmRev8 : ReversesBytes a (bmRev8 a 64) := by
  intro k hk
  apply BitVec.eq_of_getLsbD_eq
  intro j hj
  rw [Rv64.getLsbD_byte _ k hj, Rv64.getLsbD_byte _ _ hj]
  -- after `n` rounds the upper `n` bytes are in place
  have hfold : ∀ n, n ≤ 8 → ((List.range n).foldl
      (fun r i => r ||| (((a >>> (i * 8)) &&& 0xff#64) <<< ((64 / 8 - 1 - i) * 8))) 0).getLsbD (8 * k + j) =
      (decide (7 - k < n) && a.getLsbD (8 * (7 - k) + j)) := by
    intro n hn
    induction n with
    | zero => simp
    | succ n ih =>
      rw [List.range_succ, List.foldl_append, List.foldl_cons, List.foldl_nil, BitVec.getLsbD_or, ih (by omega),
        Nat.mul_comm n 8]
      change (_ || (containerByte a n <<< ((64 / 8 - 1 - n) * 8)).getLsbD (8 * k + j)) = _
      rw [BitVec.getLsbD_shiftLeft, getLsbD_containerByte a n (by omega), decide_eq_true (show 8 * k + j < 64 by omega),
        Bool.true_and]
      rcases Nat.lt_trichotomy n (7 - k) with h | h | h
      · simp [show ¬7 - k < n by omega, show ¬7 - k < n + 1 by omega, show 8 * k + j < (7 - n) * 8 by omega]
      · simp [h, show ¬8 * k + j < (7 - (7 - k)) * 8 by omega, show 8 * k + j - (7 - (7 - k)) * 8 = j by omega, hj]
      · simp [show 7 - k < n by omega, show 7 - k < n + 1 by omega, show ¬8 * k + j - (7 - n) * 8 < 8 by omega]
  have := hfold 8 (Nat.le_refl 8)
  rw [decide_eq_true (show 7 - k < 8 by omega), Bool.true_and] at this
  exact this

/-! ## Carry-less products -/

/-- The pair `(hi, lo)` as one word. -/
def wide (p : BitVec 64 × BitVec 64) : BitVec (64 + 64) := p.1 ++ p.2

theorem getLsbD_wide (p : BitVec 64 × BitVec 64) (i : Nat) :
    (wide p).getLsbD i = if i < 64 then p.2.getLsbD i else p.1.getLsbD (i - 64) := by
  unfold wide
  rw [BitVec.getLsbD_append]

/-- A round on the halves is a round on the double word. -/
theorem wide_bmClmulStep (a b : BitVec 64) (p : BitVec 64 × BitVec 64) {i : Nat} (hi : i < 64) :
    wide (bmClmulStep a b p i) = Gf2.round a b (wide p) i := by
  unfold bmClmulStep Gf2.round
  split
  · apply BitVec.eq_of_getLsbD_eq
    intro j hj
    rw [BitVec.getLsbD_xor, getLsbD_wide, getLsbD_wide, BitVec.getLsbD_shiftLeft, BitVec.getLsbD_setWidth,
      decide_eq_true hj, Bool.true_and, decide_eq_true (show j - i < 64 + 64 by omega), Bool.true_and]
    by_cases hlo : j < 64
    · rw [if_pos hlo, if_pos hlo, BitVec.getLsbD_xor, BitVec.getLsbD_shiftLeft, decide_eq_true hlo, Bool.true_and]
    · rw [if_neg hlo, if_neg hlo, decide_eq_false (show ¬j < i by omega), Bool.not_false, Bool.true_and]
      by_cases h0 : 0 < i
      · rw [if_pos h0, BitVec.getLsbD_xor, BitVec.getLsbD_ushiftRight, show 64 - i + (j - 64) = j - i by omega]
      · rw [if_neg h0, BitVec.getLsbD_of_ge a (j - i) (by omega), Bool.xor_false]
  · rfl

theorem wide_bmClmul128 (a b : BitVec 64) : wide (bmClmul128 a b 64) = (List.range 64).foldl (Gf2.round a b) 0 := by
  have hfold : ∀ n, n ≤ 64 → wide ((List.range n).foldl (bmClmulStep a b) (0, 0)) =
      (List.range n).foldl (Gf2.round a b) 0 := by
    intro n hn
    induction n with
    | zero =>
      change wide (0, 0) = 0
      decide
    | succ n ih =>
      rw [List.range_succ, List.foldl_append, List.foldl_append, List.foldl_cons, List.foldl_nil, List.foldl_cons,
        List.foldl_nil, wide_bmClmulStep a b _ (by omega), ih (by omega)]
  unfold bmClmul128
  rw [show bmMask 64 = BitVec.allOnes 64 from rfl, BitVec.and_allOnes, BitVec.and_allOnes]
  exact hfold 64 (Nat.le_refl 64)

/-- A window of the double word, wherever it starts. -/
theorem getLsbD_bmBits128 (p : BitVec 64 × BitVec 64) {pos i : Nat} (hpos : pos ≤ 64) (hi : i < 64) :
    (bmBits128 p pos 64).getLsbD i = (wide p).getLsbD (pos + i) := by
  unfold bmBits128
  dsimp only
  rw [getLsbD_and_bmMask (.inr rfl) _ hi, getLsbD_wide]
  by_cases h0 : pos = 0
  · subst h0
    rw [if_pos rfl, if_pos (by omega), Nat.zero_add]
  by_cases h64 : pos < 64
  · rw [if_neg h0, if_pos h64, BitVec.getLsbD_or, BitVec.getLsbD_ushiftRight, BitVec.getLsbD_shiftLeft]
    by_cases hlt : pos + i < 64
    · simp [hlt, show i < 64 - pos by omega]
    · rw [if_neg hlt, BitVec.getLsbD_of_ge p.2 _ (by omega), show i - (64 - pos) = pos + i - 64 by omega]
      simp [hi, show ¬i < 64 - pos by omega]
  · obtain rfl : pos = 64 := by omega
    rw [if_neg h0, if_neg h64, if_pos (by decide), if_neg (by omega), BitVec.getLsbD_ushiftRight]
    congr 1
    omega

/-- The window of the product at `pos` holds its coefficients from `pos` on. -/
theorem bit_bmBits128 (a b : BitVec 64) {pos i : Nat} (hpos : pos ≤ 64) (hi : i < 64) :
    Gf2.bit ((bmBits128 (bmClmul128 a b 64) pos 64).getLsbD i) = (Gf2.poly a * Gf2.poly b).coeff (pos + i) := by
  rw [getLsbD_bmBits128 _ hpos hi, ← Gf2.coeff_poly, wide_bmClmul128, Gf2.poly_product]

/-! ## The rows -/

section Rows

variable {inst : BitVec 32} (a b : BitVec 64)

theorem opResult_rol (h7 : funct7 inst = 0x30#7) (h3 : funct3 inst = 0x1#3) :
    opResult .rv64 inst a b = bmRol a (lo32 b) 64 := by
  simp [opResult, bitmanipOp, h7, h3, Xlen.bits]

theorem opResult_ror (h7 : funct7 inst = 0x30#7) (h3 : funct3 inst = 0x5#3) :
    opResult .rv64 inst a b = bmRor a (lo32 b) 64 := by
  simp [opResult, bitmanipOp, h7, h3, Xlen.bits]

theorem opImmResult_orcb (h3 : funct3 inst = 0x5#3) (h7 : funct7 inst = 0x14#7) (h2 : rs2 inst = 0x07#5) :
    opImmResult .rv64 inst a = bmOrcb a 64 := by
  simp [opImmResult, bitmanipImm, h7, h3, h2, funct6_eq, Xlen.bits]

theorem opImmResult_rev8 (h3 : funct3 inst = 0x5#3) (h7 : funct7 inst = 0x35#7) (h2 : rs2 inst = 0x18#5) :
    opImmResult .rv64 inst a = bmRev8 a 64 := by
  simp [opImmResult, bitmanipImm, h7, h3, h2, funct6_eq, Xlen.bits]

theorem op32Result_rolw (h7 : funct7 inst = 0x30#7) (h3 : funct3 inst = 0x1#3) :
    op32Result .rv64 inst a b = some (sext (lo32 (bmRol a (lo32 b) 32))) := by
  simp [op32Result, bitmanipOp32, h7, h3]

theorem op32Result_rorw (h7 : funct7 inst = 0x30#7) (h3 : funct3 inst = 0x5#3) :
    op32Result .rv64 inst a b = some (sext (lo32 (bmRor a (lo32 b) 32))) := by
  simp [op32Result, bitmanipOp32, h7, h3]

theorem opImm32Result_roriw (h3 : funct3 inst = 0x5#3) (h7 : funct7 inst = 0x30#7) :
    opImm32Result .rv64 inst a = some (sext (lo32 (bmRor a ((inst >>> 20) &&& 0x1f#32) 32))) := by
  simp [opImm32Result, bitmanipImm32, h7, h3]

/-- The register amount of a rotate counts modulo the width only, so its upper half is idle. -/
theorem lo32_mod (i : Nat) : (i + (lo32 b).toNat) % 64 = (i + b.toNat) % 64 := by
  unfold lo32
  rw [BitVec.toNat_setWidth]
  omega

end Rows

/-- What the Zbc and Zbb rows of an RV64 hart compute from `a` (in rs1) and `b` (in rs2). -/
structure BitmanipExact (inst : BitVec 32) (a b : BitVec 64) : Prop where
  clmul : funct7 inst = 0x05#7 → funct3 inst = 0x1#3 → ∀ i, i < 64 →
    Gf2.bit ((opResult .rv64 inst a b).getLsbD i) = (Gf2.poly a * Gf2.poly b).coeff i
  clmulh : funct7 inst = 0x05#7 → funct3 inst = 0x3#3 → ∀ i, i < 64 →
    Gf2.bit ((opResult .rv64 inst a b).getLsbD i) = (Gf2.poly a * Gf2.poly b).coeff (64 + i)
  clmulr : funct7 inst = 0x05#7 → funct3 inst = 0x2#3 → ∀ i, i < 64 →
    Gf2.bit ((opResult .rv64 inst a b).getLsbD i) = (Gf2.poly a * Gf2.poly b).coeff (63 + i)
  rol : funct7 inst = 0x30#7 → funct3 inst = 0x1#3 → RotatesLeft a b.toNat (opResult .rv64 inst a b)
  ror : funct7 inst = 0x30#7 → funct3 inst = 0x5#3 → RotatesRight a b.toNat (opResult .rv64 inst a b)
  rori : funct6 inst = 0x18#6 → funct3 inst = 0x5#3 →
    RotatesRight a (inst.extractLsb' 20 6).toNat (opImmResult .rv64 inst a)
  clz : funct7 inst = 0x30#7 → funct3 inst = 0x1#3 → rs2 inst = 0x00#5 →
    ∃ n, opImmResult .rv64 inst a = BitVec.ofNat 64 n ∧ LeadingZeros a n
  ctz : funct7 inst = 0x30#7 → funct3 inst = 0x1#3 → rs2 inst = 0x01#5 →
    ∃ n, opImmResult .rv64 inst a = BitVec.ofNat 64 n ∧ TrailingZeros a n
  cpop : funct7 inst = 0x30#7 → funct3 inst = 0x1#3 → rs2 inst = 0x02#5 →
    opImmResult .rv64 inst a = BitVec.ofNat 64 (popcount a)
  rev8 : funct7 inst = 0x35#7 → funct3 inst = 0x5#3 → rs2 inst = 0x18#5 →
    ReversesBytes a (opImmResult .rv64 inst a) ∧ opImmResult .rv64 inst (opImmResult .rv64 inst a) = a
  orcb : funct7 inst = 0x14#7 → funct3 inst = 0x5#3 → rs2 inst = 0x07#5 →
    CombinesBytes a (opImmResult .rv64 inst a) ∧
      opImmResult .rv64 inst (opImmResult .rv64 inst a) = opImmResult .rv64 inst a
  rolw : funct7 inst = 0x30#7 → funct3 inst = 0x1#3 →
    ∃ r, op32Result .rv64 inst a b = some (sext r) ∧ RotatesLeft (lo32 a) (lo32 b).toNat r
  rorw : funct7 inst = 0x30#7 → funct3 inst = 0x5#3 →
    ∃ r, op32Result .rv64 inst a b = some (sext r) ∧ RotatesRight (lo32 a) (lo32 b).toNat r
  roriw : funct7 inst = 0x30#7 → funct3 inst = 0x5#3 →
    ∃ r, opImm32Result .rv64 inst a = some (sext r) ∧ RotatesRight (lo32 a) (inst.extractLsb' 20 5).toNat r
  clzw : funct7 inst = 0x30#7 → funct3 inst = 0x1#3 → rs2 inst = 0x00#5 →
    ∃ n, opImm32Result .rv64 inst a = some (BitVec.ofNat 64 n) ∧ LeadingZeros (lo32 a) n
  ctzw : funct7 inst = 0x30#7 → funct3 inst = 0x1#3 → rs2 inst = 0x01#5 →
    ∃ n, opImm32Result .rv64 inst a = some (BitVec.ofNat 64 n) ∧ TrailingZeros (lo32 a) n
  cpopw : funct7 inst = 0x30#7 → funct3 inst = 0x1#3 → rs2 inst = 0x02#5 →
    opImm32Result .rv64 inst a = some (BitVec.ofNat 64 (popcount (lo32 a)))

/-- The rotates undo each other, whichever comes first. -/
structure RotatesUndo (rol ror : BitVec 32) (a b : BitVec 64) : Prop where
  rol_ror : opResult .rv64 ror (opResult .rv64 rol a b) b = a
  ror_rol : opResult .rv64 rol (opResult .rv64 ror a b) b = a
  rolw_rorw : ((op32Result .rv64 rol a b).bind fun r => op32Result .rv64 ror r b) = some (sext (lo32 a))
  rorw_rolw : ((op32Result .rv64 ror a b).bind fun r => op32Result .rv64 rol r b) = some (sext (lo32 a))

theorem reversesBytes_cancel {a r q : BitVec 64} (hr : ReversesBytes a r) (hq : ReversesBytes r q) : q = a := by
  apply eq_of_bytes
  intro k hk
  rw [hq k hk, hr (7 - k) (by omega), show 7 - (7 - k) = k by omega]

theorem combinesBytes_idem {a r q : BitVec 64} (hr : CombinesBytes a r) (hq : CombinesBytes r q) : q = r := by
  apply eq_of_bytes
  intro k hk
  rw [hq k hk, hr k hk]
  split <;> simp

theorem bitmanipExact (inst : BitVec 32) (a b : BitVec 64) : BitmanipExact inst a b where
  clmul h7 h3 i hi := by
    rw [← Nat.zero_add i, ← bit_bmBits128 a b (by decide) hi, Nat.zero_add]
    simp [opResult, bitmanipOp, h7, h3, Xlen.bits]
  clmulh h7 h3 i hi := by
    rw [← bit_bmBits128 a b (by decide) hi]
    simp [opResult, bitmanipOp, h7, h3, Xlen.bits]
  clmulr h7 h3 i hi := by
    rw [← bit_bmBits128 a b (by decide) hi]
    simp [opResult, bitmanipOp, h7, h3, Xlen.bits]
  rol h7 h3 i hi := by
    rw [opResult_rol a b h7 h3, ← lo32_mod]
    exact rotatesLeft_bmRol a (lo32 b) i hi
  ror h7 h3 i hi := by
    rw [opResult_ror a b h7 h3, ← lo32_mod]
    exact rotatesRight_bmRor a (lo32 b) i hi
  rori h6 h3 := by
    have hrow : opImmResult .rv64 inst a = bmRor a (BitVec.ofNat 32 (immShamt .rv64 inst)) 64 := by
      simp [opImmResult, bitmanipImm, h6, h3, Xlen.bits]
    have hamount : (BitVec.ofNat 32 (immShamt .rv64 inst)).toNat = (inst.extractLsb' 20 6).toNat := by
      unfold immShamt Xlen.shmask
      dsimp only
      rw [BitVec.ofNat_toNat, BitVec.setWidth_eq, BitVec.toNat_and, BitVec.toNat_ushiftRight, BitVec.extractLsb'_toNat]
      exact Nat.and_two_pow_sub_one_eq_mod _ 6
    rw [hrow, ← hamount]
    exact rotatesRight_bmRor a _
  clz h7 h3 h2 := by
    refine ⟨bmClz a 64, ?_, leadingZeros_bmClz fun _ _ => rfl⟩
    simp [opImmResult, bitmanipImm, h7, h3, h2, Xlen.bits]
  ctz h7 h3 h2 := by
    refine ⟨bmCtz a 64, ?_, trailingZeros_bmCtz fun _ _ => rfl⟩
    simp [opImmResult, bitmanipImm, h7, h3, h2, Xlen.bits]
  cpop h7 h3 h2 := by
    rw [← @bmCpop_eq_popcount 64 a a fun _ _ => rfl]
    simp [opImmResult, bitmanipImm, h7, h3, h2, Xlen.bits]
  rev8 h7 h3 h2 := by
    rw [opImmResult_rev8 _ h3 h7 h2, opImmResult_rev8 _ h3 h7 h2]
    exact ⟨reversesBytes_bmRev8 a, reversesBytes_cancel (reversesBytes_bmRev8 a) (reversesBytes_bmRev8 _)⟩
  orcb h7 h3 h2 := by
    rw [opImmResult_orcb _ h3 h7 h2, opImmResult_orcb _ h3 h7 h2]
    exact ⟨combinesBytes_bmOrcb a, combinesBytes_idem (combinesBytes_bmOrcb a) (combinesBytes_bmOrcb _)⟩
  rolw h7 h3 := ⟨_, op32Result_rolw a b h7 h3, rotatesLeft_bmRol_word a (lo32 b)⟩
  rorw h7 h3 := ⟨_, op32Result_rorw a b h7 h3, rotatesRight_bmRor_word a (lo32 b)⟩
  roriw h7 h3 := by
    have hamount : ((inst >>> 20) &&& 0x1f#32).toNat = (inst.extractLsb' 20 5).toNat := by
      rw [BitVec.toNat_and, BitVec.toNat_ushiftRight, BitVec.extractLsb'_toNat]
      exact Nat.and_two_pow_sub_one_eq_mod _ 5
    rw [← hamount]
    exact ⟨_, opImm32Result_roriw a h3 h7, rotatesRight_bmRor_word a _⟩
  clzw h7 h3 h2 := by
    refine ⟨bmClz ((lo32 a).setWidth 64) 32, ?_, leadingZeros_bmClz fun i hi => ?_⟩
    · simp [opImm32Result, bitmanipImm32, h7, h3, h2, funct6_eq]
    · rw [BitVec.getLsbD_setWidth, decide_eq_true (by omega), Bool.true_and]
  ctzw h7 h3 h2 := by
    refine ⟨bmCtz ((lo32 a).setWidth 64) 32, ?_, trailingZeros_bmCtz fun i hi => ?_⟩
    · simp [opImm32Result, bitmanipImm32, h7, h3, h2, funct6_eq]
    · rw [BitVec.getLsbD_setWidth, decide_eq_true (by omega), Bool.true_and]
  cpopw h7 h3 h2 := by
    have hbits : ∀ i, i < 32 → ((lo32 a).setWidth 64).getLsbD i = (lo32 a).getLsbD i := by
      intro i hi
      rw [BitVec.getLsbD_setWidth, decide_eq_true (by omega), Bool.true_and]
    rw [← bmCpop_eq_popcount hbits]
    simp [opImm32Result, bitmanipImm32, h7, h3, h2, funct6_eq]

theorem rotatesUndo {rol ror : BitVec 32} (hl7 : funct7 rol = 0x30#7) (hl3 : funct3 rol = 0x1#3)
    (hr7 : funct7 ror = 0x30#7) (hr3 : funct3 ror = 0x5#3) (a b : BitVec 64) : RotatesUndo rol ror a b where
  rol_ror := by
    rw [opResult_rol a b hl7 hl3, opResult_ror _ b hr7 hr3]
    exact (rotatesLeft_bmRol a _).cancel (rotatesRight_bmRor _ _)
  ror_rol := by
    rw [opResult_ror a b hr7 hr3, opResult_rol _ b hl7 hl3]
    exact (rotatesRight_bmRor a _).cancel (rotatesLeft_bmRol _ _)
  rolw_rorw := by
    rw [op32Result_rolw a b hl7 hl3, Option.bind_some, op32Result_rorw _ b hr7 hr3]
    have hback := rotatesRight_bmRor_word (sext (lo32 (bmRol a (lo32 b) 32))) (lo32 b)
    rw [lo32_sext] at hback
    rw [(rotatesLeft_bmRol_word a _).cancel hback]
  rorw_rolw := by
    rw [op32Result_rorw a b hr7 hr3, Option.bind_some, op32Result_rolw _ b hl7 hl3]
    have hback := rotatesLeft_bmRol_word (sext (lo32 (bmRor a (lo32 b) 32))) (lo32 b)
    rw [lo32_sext] at hback
    rw [(rotatesRight_bmRor_word a _).cancel hback]

/-- The word rows of Zbb read the low words of their operands only. -/
theorem wordRows_lo32 {inst : BitVec 32} (h7 : funct7 inst = 0x30#7) {a a' b b' : BitVec 64} (ha : lo32 a = lo32 a')
    (hb : lo32 b = lo32 b') : op32Result .rv64 inst a b = op32Result .rv64 inst a' b' ∧
      opImm32Result .rv64 inst a = opImm32Result .rv64 inst a' := by
  by_cases h1 : funct3 inst = 0x1#3
  · refine ⟨?_, ?_⟩
    · rw [op32Result_rolw _ _ h7 h1, op32Result_rolw _ _ h7 h1, lo32_rol, lo32_rol, ha, hb]
    · have hslli : funct6 inst ≠ 0x02#6 := by
        rw [funct6_eq, h7]
        decide
      simp only [opImm32Result, bitmanipImm32, h1, ha, if_neg hslli]
  by_cases h5 : funct3 inst = 0x5#3
  · refine ⟨?_, ?_⟩
    · rw [op32Result_rorw _ _ h7 h5, op32Result_rorw _ _ h7 h5, lo32_ror, lo32_ror, ha, hb]
    · rw [opImm32Result_roriw _ h5 h7, opImm32Result_roriw _ h5 h7, lo32_ror, lo32_ror, ha]
  · -- the other rows are the base ones
    have hop : ∀ x y, bitmanipOp32 inst x y = none := by
      intro x y
      unfold bitmanipOp32
      simp only [h7]
    have himm : ∀ x, bitmanipImm32 inst x = none := by
      intro x
      unfold bitmanipImm32
      split
      · next h => exact absurd h h1
      · next h => exact absurd h h5
      · rfl
    unfold op32Result opImm32Result
    rw [hop, hop, himm, himm, ha, hb]
    exact ⟨rfl, rfl⟩

/-- RV64 bit manipulation. For all operands the rows compute the products, counts and permutations
they are named for, the rotates undo each other, and the word forms read low words only. -/
theorem bitmanip_64_exact (inst : BitVec 32) (a b : BitVec 64) :
    BitmanipExact inst a b ∧
      (∀ rol ror, funct7 rol = 0x30#7 → funct3 rol = 0x1#3 → funct7 ror = 0x30#7 → funct3 ror = 0x5#3 →
        RotatesUndo rol ror a b) ∧
      (funct7 inst = 0x30#7 → ∀ a' b', lo32 a = lo32 a' → lo32 b = lo32 b' →
        op32Result .rv64 inst a b = op32Result .rv64 inst a' b' ∧
          opImm32Result .rv64 inst a = opImm32Result .rv64 inst a') ∧
      (∀ n, LeadingZeros (0 : BitVec 64) n ∨ TrailingZeros (0 : BitVec 64) n → n = 64) ∧
      (∀ n, LeadingZeros (0 : BitVec 32) n ∨ TrailingZeros (0 : BitVec 32) n → n = 32) := by
  refine ⟨bitmanipExact inst a b, fun _ _ hl7 hl3 hr7 hr3 => rotatesUndo hl7 hl3 hr7 hr3 a b,
    fun h7 _ _ ha hb => wordRows_lo32 h7 ha hb, ?_, ?_⟩
  · rintro n (h | h)
    · exact h.of_zero
    · exact h.of_zero
  · rintro n (h | h)
    · exact h.of_zero
    · exact h.of_zero

end Quanta
