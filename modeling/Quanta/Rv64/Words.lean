/-
Low words. A 32-bit value is kept sign-extended in a 64-bit register, and the `bm_*` helpers work on
the low `bits` bits of one: bit by bit at 32 bits, they are the operation on the low word.
-/
import Mathlib.Algebra.Order.Ring.Int
import Quanta.Hart.Exec

namespace Quanta

variable (v : BitVec 64)

/-! ## The low word -/

theorem SignExtend.setWidth_signExtend {w v : Nat} (h : w ≤ v) (x : BitVec w) : (x.signExtend v).setWidth w = x := by
  apply BitVec.eq_of_getLsbD_eq
  intro i hi
  have hv : i < v := by omega
  rw [BitVec.getLsbD_setWidth, BitVec.getLsbD_signExtend, if_pos hi, decide_eq_true hi, decide_eq_true hv,
    Bool.true_and, Bool.true_and]

@[simp] theorem lo32_sext (a : BitVec 32) : lo32 (sext a) = a := SignExtend.setWidth_signExtend (by decide) a

@[simp] theorem lo32_setWidth (a : BitVec 32) : lo32 (a.setWidth 64) = a := by
  unfold lo32
  rw [BitVec.setWidth_setWidth_of_le a (by decide), BitVec.setWidth_eq]

theorem CPU.lo32_sextXlen (xlen : Xlen) (v : BitVec 64) : lo32 (sextXlen xlen v) = lo32 v := by
  cases xlen
  · exact lo32_sext _
  · rfl

theorem getLsbD_lo32 {i : Nat} (hi : i < 32) : (lo32 v).getLsbD i = v.getLsbD i := by
  unfold lo32
  rw [BitVec.getLsbD_setWidth, decide_eq_true hi, Bool.true_and]

theorem funct6_eq (inst : BitVec 32) : funct6 inst = (funct7 inst).extractLsb' 1 6 := by
  apply BitVec.eq_of_getLsbD_eq
  intro i hi
  unfold funct6 funct7
  rw [BitVec.getLsbD_extractLsb', BitVec.getLsbD_extractLsb', BitVec.getLsbD_extractLsb',
    decide_eq_true (by omega : 1 + i < 7), Bool.true_and]
  congr 2
  omega

/-! ## Scans -/

theorem bmClz_succ (i : Nat) :
    bmClz v (i + 1) = if v.getLsbD i then 0 else bmClz v i + 1 := rfl

theorem bmCtzFrom_succ (i n : Nat) :
    bmCtzFrom v i (n + 1) = if v.getLsbD i then 0 else bmCtzFrom v (i + 1) n + 1 := rfl

theorem bmCpop_succ (i : Nat) : bmCpop v (i + 1) = bmCpop v i + (v.getLsbD i).toNat := rfl

/-! ## Rotates -/

theorem getLsbD_bmMask_32 {i : Nat} (hi : i < 64) : (bmMask 32).getLsbD i = decide (i < 32) := by
  have h : ∀ i : Fin 64, (bmMask 32).getLsbD i = decide (i.val < 32) := by decide
  exact h ⟨i, hi⟩

/-- The masked operand of the rotates. -/
theorem getLsbD_masked {i : Nat} (hi : i < 64) :
    (v &&& bmMask 32).getLsbD i = (v.getLsbD i && decide (i < 32)) := by
  rw [BitVec.getLsbD_and, getLsbD_bmMask_32 hi]

theorem and_31_toNat (b : BitVec 32) : (b &&& BitVec.ofNat 32 (32 - 1)).toNat = b.toNat % 32 := by
  rw [BitVec.toNat_and]
  exact Nat.and_two_pow_sub_one_eq_mod b.toNat 5

theorem lo32_masked : lo32 (v &&& bmMask 32) = lo32 v := by
  apply BitVec.eq_of_getLsbD_eq
  intro i hi
  rw [getLsbD_lo32 _ hi, getLsbD_lo32 _ hi, getLsbD_masked _ (by omega), decide_eq_true hi, Bool.and_true]

theorem lo32_masked_ushiftRight (s : Nat) : lo32 ((v &&& bmMask 32) >>> s) = lo32 v >>> s := by
  apply BitVec.eq_of_getLsbD_eq
  intro i hi
  rw [getLsbD_lo32 _ hi, BitVec.getLsbD_ushiftRight, BitVec.getLsbD_ushiftRight]
  by_cases h : s + i < 32
  · rw [getLsbD_masked _ (by omega), decide_eq_true h, Bool.and_true, getLsbD_lo32 _ h]
  · rw [BitVec.getLsbD_of_ge (lo32 v) _ (by omega), BitVec.getLsbD_and]
    by_cases h64 : s + i < 64
    · rw [getLsbD_bmMask_32 h64, decide_eq_false h, Bool.and_false]
    · rw [BitVec.getLsbD_of_ge _ _ (by omega), Bool.false_and]

theorem lo32_shiftLeft (s : Nat) : lo32 (v <<< s) = lo32 v <<< s := by
  apply BitVec.eq_of_getLsbD_eq
  intro i hi
  rw [getLsbD_lo32 _ hi, BitVec.getLsbD_shiftLeft, BitVec.getLsbD_shiftLeft, getLsbD_lo32 _ (by omega),
    decide_eq_true hi, decide_eq_true (show i < 64 by omega)]

theorem lo32_ror (sh : BitVec 32) : lo32 (bmRor v sh 32) = (lo32 v).rotateRight (sh.toNat % 32) := by
  unfold bmRor
  dsimp only
  rw [and_31_toNat, BitVec.rotateRight_def, Nat.mod_mod]
  split
  · next h0 =>
    rw [h0, lo32_masked]
    simp
  · rw [lo32_masked, lo32, BitVec.setWidth_or, ← lo32, ← lo32, lo32_masked_ushiftRight, lo32_shiftLeft, lo32_masked]

theorem lo32_rol (sh : BitVec 32) : lo32 (bmRol v sh 32) = (lo32 v).rotateLeft (sh.toNat % 32) := by
  unfold bmRol
  dsimp only
  rw [and_31_toNat, BitVec.rotateLeft_def, Nat.mod_mod]
  split
  · next h0 =>
    rw [h0, lo32_masked, BitVec.ushiftRight_eq_zero le_rfl]
    simp
  · rw [lo32_masked, lo32, BitVec.setWidth_or, ← lo32, ← lo32, lo32_masked_ushiftRight, lo32_shiftLeft, lo32_masked]

/-! ## Bytes -/

/-- One byte of the container. -/
def containerByte (v : BitVec 64) (k : Nat) : BitVec 64 := (v >>> (8 * k)) &&& 0xff#64

theorem getLsbD_containerByte (k : Nat) {i : Nat} (hi : i < 64) :
    (containerByte v k).getLsbD i = (v.getLsbD (8 * k + i) && decide (i < 8)) := by
  have hff : ∀ i : Fin 64, (0xff#64).getLsbD i = decide (i.val < 8) := by decide
  unfold containerByte
  rw [BitVec.getLsbD_and, BitVec.getLsbD_ushiftRight, hff ⟨i, hi⟩]

/-- `orc.b` after `n` bytes. -/
theorem getLsbD_orcb (n : Nat) {i : Nat} (hi : i < 64) :
    ((List.range n).foldl (fun r k => if (v >>> (8 * k)) &&& 0xff#64 ≠ 0#64 then r ||| (0xff#64 <<< (8 * k)) else r)
      0).getLsbD i = (decide (i / 8 < n) && decide (containerByte v (i / 8) ≠ 0#64)) := by
  have hff : ∀ i : Fin 64, (0xff#64).getLsbD i = decide (i.val < 8) := by decide
  induction n with
  | zero => simp
  | succ n ih =>
    rw [List.range_succ, List.foldl_append, List.foldl_cons, List.foldl_nil]
    have hb : (v >>> (8 * n)) &&& 0xff#64 = containerByte v n := rfl
    rw [hb]
    have hshift : (0xff#64 <<< (8 * n)).getLsbD i = decide (i / 8 = n) := by
      rw [BitVec.getLsbD_shiftLeft, decide_eq_true hi, Bool.true_and]
      by_cases hlt : i < 8 * n
      · have : i / 8 ≠ n := by omega
        simp [hlt, this]
      · rw [hff ⟨i - 8 * n, by omega⟩, decide_eq_false hlt, Bool.not_false, Bool.true_and]
        have : i - 8 * n < 8 ↔ i / 8 = n := by constructor <;> intro h <;> omega
        simp only [this]
    by_cases hz : containerByte v n ≠ 0#64
    · rw [if_pos hz, BitVec.getLsbD_or, ih, hshift]
      by_cases hn : i / 8 = n
      · subst hn
        simp [hz]
      · simp only [hn, decide_false, Bool.or_false]
        congr 2
        apply propext
        constructor <;> intro h <;> omega
    · rw [if_neg hz, ih]
      by_cases hn : i / 8 = n
      · subst hn
        simp [hz]
      · congr 2
        apply propext
        constructor <;> intro h <;> omega

end Quanta
