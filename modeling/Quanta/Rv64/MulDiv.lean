/-
RV64M: the multiply and divide rows of `cpu.c` give the exact products, quotients and remainders of
the architecture, at 64 bits and in the word forms. The high product assembled from 32-bit partials
is that of the softfloat words; the signed ones are corrections of it. Read as C, no row divides by
zero or overflows.
-/
import Quanta.Float.Words
import Quanta.Hart.Exec

namespace Quanta

variable (a b : BitVec 64) (inst : BitVec 32)

/-! ## The architecture's rows -/

namespace Rv64

variable {w : Nat}

/-- The truncating quotient; all ones when the divisor is zero. -/
def div (a b : BitVec w) : BitVec w := if b = 0 then BitVec.allOnes w else BitVec.ofInt w (a.toInt.tdiv b.toInt)

/-- The remainder of the truncating quotient; the dividend when the divisor is zero. -/
def rem (a b : BitVec w) : BitVec w := if b = 0 then a else BitVec.ofInt w (a.toInt.tmod b.toInt)

def divu (a b : BitVec w) : BitVec w := if b = 0 then BitVec.allOnes w else BitVec.ofNat w (a.toNat / b.toNat)

def remu (a b : BitVec w) : BitVec w := if b = 0 then a else BitVec.ofNat w (a.toNat % b.toNat)

/-- The M rows on 64-bit registers. -/
def mulDiv (f3 : BitVec 3) (a b : BitVec 64) : BitVec 64 :=
  match f3 with
  | 0x0#3 => BitVec.ofNat 64 (a.toNat * b.toNat)
  | 0x1#3 => BitVec.ofInt 64 (a.toInt * b.toInt / 2 ^ 64)
  | 0x2#3 => BitVec.ofInt 64 (a.toInt * b.toNat / 2 ^ 64)
  | 0x3#3 => BitVec.ofNat 64 (a.toNat * b.toNat / 2 ^ 64)
  | 0x4#3 => div a b
  | 0x5#3 => divu a b
  | 0x6#3 => rem a b
  | _ => remu a b

/-- The word rows, which have no high products. -/
def mulDivW (f3 : BitVec 3) (a b : BitVec 32) : Option (BitVec 32) :=
  match f3 with
  | 0x0#3 => some (BitVec.ofNat 32 (a.toNat * b.toNat))
  | 0x4#3 => some (div a b)
  | 0x5#3 => some (divu a b)
  | 0x6#3 => some (rem a b)
  | 0x7#3 => some (remu a b)
  | _ => none

/-- What quotients and remainders have to do with each other. -/
structure Divides (a b : BitVec w) : Prop where
  signed : a = div a b * b + rem a b
  unsigned : a = divu a b * b + remu a b
  rem_lt : b ≠ 0 → |(rem a b).toInt| < |b.toInt|
  remu_lt : b ≠ 0 → (remu a b).toNat < b.toNat
  overflow : a = BitVec.intMin w → b = BitVec.allOnes w → div a b = a ∧ rem a b = 0

end Rv64

/-! ## The rows read as C -/

section
variable {w : Nat}

/-- `/` on signed operands, undefined if the divisor is zero or the quotient overflows. -/
def cDiv (a b : BitVec w) : Option (BitVec w) :=
  if b = 0 ∨ a = BitVec.intMin w ∧ b = BitVec.allOnes w then none else some (a.sdiv b)

/-- `%` on signed operands, undefined where `/` is. -/
def cRem (a b : BitVec w) : Option (BitVec w) :=
  if b = 0 ∨ a = BitVec.intMin w ∧ b = BitVec.allOnes w then none else some (a.srem b)

/-- `/` on unsigned operands. -/
def cDivu (a b : BitVec w) : Option (BitVec w) := if b = 0 then none else some (a / b)

/-- `%` on unsigned operands. -/
def cRemu (a b : BitVec w) : Option (BitVec w) := if b = 0 then none else some (a % b)

end

/-- `exec_muldiv64` with C's division; the products are unsigned and never undefined. -/
def muldiv64Checked (inst : BitVec 32) (a b : BitVec 64) : Option (BitVec 64) :=
  match funct3 inst with
  | 0x4#3 =>
    if b = 0 then some (BitVec.allOnes 64)
    else if a = BitVec.intMin 64 ∧ b = BitVec.allOnes 64 then some (BitVec.intMin 64)
    else cDiv a b
  | 0x5#3 => if b = 0 then some (BitVec.allOnes 64) else cDivu a b
  | 0x6#3 =>
    if b = 0 then some a
    else if a = BitVec.intMin 64 ∧ b = BitVec.allOnes 64 then some 0
    else cRem a b
  | 0x7#3 => if b = 0 then some a else cRemu a b
  | _ => some (muldiv64 inst a b)

/-- `exec_muldivw` with C's division; a reserved row has no result. -/
def muldivwChecked (inst : BitVec 32) (a b : BitVec 32) : Option (Option (BitVec 32)) :=
  match funct3 inst with
  | 0x4#3 =>
    (if b = 0 then some (BitVec.allOnes 32)
    else if a = BitVec.intMin 32 ∧ b = BitVec.allOnes 32 then some (BitVec.intMin 32)
    else cDiv a b).map some
  | 0x5#3 => (if b = 0 then some (BitVec.allOnes 32) else cDivu a b).map some
  | 0x6#3 =>
    (if b = 0 then some a
    else if a = BitVec.intMin 32 ∧ b = BitVec.allOnes 32 then some 0
    else cRem a b).map some
  | 0x7#3 => (if b = 0 then some a else cRemu a b).map some
  | _ => some (muldivw inst a b)

/-! ## Products -/

theorem toNat_mulhu64 : (mulhu64 a b).toNat = a.toNat * b.toNat / 2 ^ 64 := by
  have hwords : mulhu64 a b = (Softfloat.mul64 a b).hi := rfl
  rw [hwords, ← Softfloat.toNat_mul64, Softfloat.U128.toNat_div]

/-- What the sign adds to a word: its value is its bits less `sign * 2^64`. -/
def sign (a : BitVec 64) : Int := if a.slt 0 then 1 else 0

theorem toInt_sign (a : BitVec 64) : a.toInt = a.toNat - sign a * 2 ^ 64 := by
  have hmsb : a.slt 0 = a.msb := BitVec.slt_zero_eq_msb
  unfold sign
  rw [BitVec.toInt_eq_msb_cond, hmsb]
  cases a.msb <;> simp

theorem ofInt_sign : BitVec.ofInt 64 (sign a * b.toNat) = if a.slt 0 then b else 0 := by
  unfold sign
  split
  · rw [Int.one_mul, BitVec.ofInt_natCast, BitVec.ofNat_toNat, BitVec.setWidth_eq]
  · rw [Int.zero_mul]
    rfl

theorem ofInt_mulhu64 : BitVec.ofInt 64 ((a.toNat : Int) * b.toNat / 2 ^ 64) = mulhu64 a b := by
  apply BitVec.eq_of_toNat_eq
  have hlt := (mulhu64 a b).isLt
  rw [toNat_mulhu64] at hlt ⊢
  have hcast : ((a.toNat : Int) * b.toNat / 2 ^ 64) = ((a.toNat * b.toNat / 2 ^ 64 : Nat) : Int) := by
    push_cast
    rfl
  rw [hcast, BitVec.ofInt_natCast, BitVec.toNat_ofNat, Nat.mod_eq_of_lt hlt]

/-- A product whose factors differ from the bits by `s * 2^64` and `t * 2^64`: the corrections go
into the high word. -/
theorem high_corrected (x y s t : Int) :
    (x - s * 2 ^ 64) * (y - t * 2 ^ 64) / 2 ^ 64 = x * y / 2 ^ 64 + -(s * y) + -(t * x) + s * t * 2 ^ 64 := by
  have hexpand : (x - s * 2 ^ 64) * (y - t * 2 ^ 64) = x * y + (-(s * y) + -(t * x) + s * t * 2 ^ 64) * 2 ^ 64 := by ring
  rw [hexpand, Int.add_mul_ediv_right _ _ (by decide)]
  ring

theorem mulhsu64_exact :
    mulhu64 a b - (if a.slt 0 then b else 0) = BitVec.ofInt 64 (a.toInt * b.toNat / 2 ^ 64) := by
  have h := high_corrected a.toNat b.toNat (sign a) 0
  rw [← toInt_sign, Int.zero_mul, Int.sub_zero] at h
  rw [h, BitVec.ofInt_add, BitVec.ofInt_add, BitVec.ofInt_add, ofInt_mulhu64, BitVec.ofInt_neg, ofInt_sign]
  simp [BitVec.sub_eq_add_neg]

theorem mulh64_exact :
    mulhu64 a b - (if a.slt 0 then b else 0) - (if b.slt 0 then a else 0) = BitVec.ofInt 64 (a.toInt * b.toInt / 2 ^ 64) := by
  have h := high_corrected a.toNat b.toNat (sign a) (sign b)
  rw [← toInt_sign, ← toInt_sign] at h
  -- the term of both signs is a multiple of 2^64
  have hboth : BitVec.ofInt 64 (sign a * sign b * 2 ^ 64) = 0#64 := by
    rw [BitVec.ofInt_mul]
    exact BitVec.mul_zero
  rw [h, BitVec.ofInt_add, BitVec.ofInt_add, BitVec.ofInt_add, ofInt_mulhu64, BitVec.ofInt_neg, BitVec.ofInt_neg,
    ofInt_sign, ofInt_sign, hboth, BitVec.add_zero, BitVec.sub_eq_add_neg, BitVec.sub_eq_add_neg]

/-! ## Quotients and remainders -/

section
variable {w : Nat} (a b : BitVec w)

theorem sdiv_eq_ofInt : a.sdiv b = BitVec.ofInt w (a.toInt.tdiv b.toInt) := by
  apply BitVec.eq_of_toInt_eq
  rw [BitVec.toInt_sdiv, BitVec.toInt_ofInt]

theorem srem_eq_ofInt : a.srem b = BitVec.ofInt w (a.toInt.tmod b.toInt) := by
  rw [← BitVec.toInt_srem, BitVec.ofInt_toInt]

theorem udiv_eq_ofNat : a / b = BitVec.ofNat w (a.toNat / b.toNat) := by
  rw [← BitVec.toNat_udiv, BitVec.ofNat_toNat, BitVec.setWidth_eq]

theorem umod_eq_ofNat : a % b = BitVec.ofNat w (a.toNat % b.toNat) := by
  rw [← BitVec.toNat_umod, BitVec.ofNat_toNat, BitVec.setWidth_eq]

/-- The guards of a signed quotient or remainder `q` leave C's division defined. -/
theorem guarded_defined (q x y : BitVec w) :
    (if b = 0 then some x else if a = BitVec.intMin w ∧ b = BitVec.allOnes w then some y
      else if b = 0 ∨ (a = BitVec.intMin w ∧ b = BitVec.allOnes w) then none else some q) =
      some (if b = 0 then x else if a = BitVec.intMin w ∧ b = BitVec.allOnes w then y else q) := by
  by_cases hb : b = 0
  · rw [if_pos hb, if_pos hb]
  · rw [if_neg hb, if_neg hb]
    by_cases ho : a = BitVec.intMin w ∧ b = BitVec.allOnes w
    · rw [if_pos ho, if_pos ho]
    · rw [if_neg ho, if_neg ho, if_neg (not_or.mpr ⟨hb, ho⟩)]

theorem cDivu_guarded (x : BitVec w) :
    (if b = 0 then some x else cDivu a b) = some (if b = 0 then x else a / b) := by
  unfold cDivu
  split <;> rfl

theorem cRemu_guarded (x : BitVec w) :
    (if b = 0 then some x else cRemu a b) = some (if b = 0 then x else a % b) := by
  unfold cRemu
  split <;> rfl

/-- The overflow the code spells out is what two's-complement division gives. -/
theorem div_guarded (hmin : (BitVec.intMin w).sdiv (BitVec.allOnes w) = BitVec.intMin w) :
    (if b = 0 then BitVec.allOnes w
      else if a = BitVec.intMin w ∧ b = BitVec.allOnes w then BitVec.intMin w else a.sdiv b) = Rv64.div a b := by
  unfold Rv64.div
  by_cases ho : a = BitVec.intMin w ∧ b = BitVec.allOnes w
  · rw [if_pos ho, ← sdiv_eq_ofInt, ho.1, ho.2, hmin]
  · rw [if_neg ho, sdiv_eq_ofInt]

theorem rem_guarded (hmin : (BitVec.intMin w).srem (BitVec.allOnes w) = 0) :
    (if b = 0 then a
      else if a = BitVec.intMin w ∧ b = BitVec.allOnes w then 0 else a.srem b) = Rv64.rem a b := by
  unfold Rv64.rem
  by_cases ho : a = BitVec.intMin w ∧ b = BitVec.allOnes w
  · rw [if_pos ho, ← srem_eq_ofInt, ho.1, ho.2, hmin]
  · rw [if_neg ho, srem_eq_ofInt]

theorem divu_guarded : (if b = 0 then BitVec.allOnes w else a / b) = Rv64.divu a b := by
  unfold Rv64.divu
  rw [udiv_eq_ofNat]

theorem remu_guarded : (if b = 0 then a else a % b) = Rv64.remu a b := by
  unfold Rv64.remu
  rw [umod_eq_ofNat]

theorem mul_eq_ofNat : a * b = BitVec.ofNat w (a.toNat * b.toNat) := by
  rw [BitVec.ofNat_mul, BitVec.ofNat_toNat, BitVec.ofNat_toNat, BitVec.setWidth_eq, BitVec.setWidth_eq]

theorem divides (hdiv : (BitVec.intMin w).sdiv (BitVec.allOnes w) = BitVec.intMin w)
    (hrem : (BitVec.intMin w).srem (BitVec.allOnes w) = 0) (hone : BitVec.allOnes w ≠ 0) : Rv64.Divides a b := by
  constructor
  case signed =>
    unfold Rv64.div Rv64.rem
    by_cases hb : b = 0
    · rw [if_pos hb, if_pos hb, hb]
      simp
    · rw [if_neg hb, if_neg hb]
      -- the identity of integers, read modulo 2^w
      have h := congrArg (BitVec.ofInt w) (Int.tdiv_mul_add_tmod a.toInt b.toInt)
      rw [BitVec.ofInt_add, BitVec.ofInt_mul, BitVec.ofInt_toInt, BitVec.ofInt_toInt] at h
      exact h.symm
  case unsigned =>
    unfold Rv64.divu Rv64.remu
    by_cases hb : b = 0
    · rw [if_pos hb, if_pos hb, hb]
      simp
    · rw [if_neg hb, if_neg hb]
      have h := congrArg (BitVec.ofNat w) (Nat.div_add_mod' a.toNat b.toNat)
      rw [BitVec.ofNat_add, BitVec.ofNat_mul, BitVec.ofNat_toNat, BitVec.ofNat_toNat, BitVec.setWidth_eq,
        BitVec.setWidth_eq] at h
      exact h.symm
  case rem_lt =>
    intro hb
    have hb0 : b.toInt ≠ 0 := fun h0 => hb (BitVec.eq_of_toInt_eq (h0.trans BitVec.toInt_zero.symm))
    unfold Rv64.rem
    rw [if_neg hb, ← srem_eq_ofInt, BitVec.toInt_srem]
    have h := Nat.mod_lt a.toInt.natAbs (Int.natAbs_pos.mpr hb0)
    rw [← Int.natAbs_tmod] at h
    rw [Int.abs_eq_natAbs, Int.abs_eq_natAbs]
    exact_mod_cast h
  case remu_lt =>
    intro hb
    have hpos : 0 < b.toNat := BitVec.toNat_pos_of_ne_zero hb
    unfold Rv64.remu
    rw [if_neg hb, ← umod_eq_ofNat, BitVec.toNat_umod]
    exact Nat.mod_lt _ hpos
  case overflow =>
    rintro rfl rfl
    unfold Rv64.div Rv64.rem
    rw [if_neg hone, if_neg hone, ← sdiv_eq_ofInt, ← srem_eq_ofInt]
    exact ⟨hdiv, hrem⟩

end

/-! ## The instructions -/

theorem muldiv64Checked_eq (a b : BitVec 64) :
    muldiv64Checked inst a b = some (muldiv64 inst a b) := by
  unfold muldiv64Checked muldiv64
  generalize funct3 inst = f3
  match f3 with
  | 0x0#3 | 0x1#3 | 0x2#3 | 0x3#3 => rfl
  | 0x4#3 => exact guarded_defined a b _ _ _
  | 0x5#3 => exact cDivu_guarded a b _
  | 0x6#3 => exact guarded_defined a b _ _ _
  | 0x7#3 => exact cRemu_guarded a b _

theorem muldivwChecked_eq (a b : BitVec 32) :
    muldivwChecked inst a b = some (muldivw inst a b) := by
  unfold muldivwChecked muldivw
  generalize funct3 inst = f3
  match f3 with
  | 0x0#3 | 0x1#3 | 0x2#3 | 0x3#3 => rfl
  | 0x4#3 => exact congrArg (Option.map some) (guarded_defined a b _ _ _)
  | 0x5#3 => exact congrArg (Option.map some) (cDivu_guarded a b _)
  | 0x6#3 => exact congrArg (Option.map some) (guarded_defined a b _ _ _)
  | 0x7#3 => exact congrArg (Option.map some) (cRemu_guarded a b _)

theorem muldiv64_eq (a b : BitVec 64) : muldiv64 inst a b = Rv64.mulDiv (funct3 inst) a b := by
  unfold muldiv64 Rv64.mulDiv
  generalize funct3 inst = f3
  match f3 with
  | 0x0#3 => exact mul_eq_ofNat a b
  | 0x1#3 => exact mulh64_exact a b
  | 0x2#3 => exact mulhsu64_exact a b
  | 0x3#3 =>
    change mulhu64 a b = BitVec.ofNat 64 (a.toNat * b.toNat / 2 ^ 64)
    rw [← toNat_mulhu64, BitVec.ofNat_toNat, BitVec.setWidth_eq]
  | 0x4#3 => exact div_guarded a b (by decide)
  | 0x5#3 => exact divu_guarded a b
  | 0x6#3 => exact rem_guarded a b (by decide)
  | 0x7#3 => exact remu_guarded a b

theorem muldivw_eq (a b : BitVec 32) : muldivw inst a b = Rv64.mulDivW (funct3 inst) a b := by
  unfold muldivw Rv64.mulDivW
  generalize funct3 inst = f3
  match f3 with
  | 0x0#3 => exact congrArg some (mul_eq_ofNat a b)
  | 0x1#3 | 0x2#3 | 0x3#3 => rfl
  | 0x4#3 => exact congrArg some (div_guarded a b (by decide))
  | 0x5#3 => exact congrArg some (divu_guarded a b)
  | 0x6#3 => exact congrArg some (rem_guarded a b (by decide))
  | 0x7#3 => exact congrArg some (remu_guarded a b)

/-- RV64M. Whatever the operands, C's arithmetic is defined in every row, the rows give the
architecture's products, quotients and remainders (the word forms on the low words, sign-extended),
and quotients and remainders recompose the dividend. -/
theorem mul_div_64_exact (inst : BitVec 32) (a b : BitVec 64) :
    muldiv64Checked inst a b = some (muldiv64 inst a b) ∧
      muldivwChecked inst (lo32 a) (lo32 b) = some (muldivw inst (lo32 a) (lo32 b)) ∧
      (funct7 inst = 0x01#7 → opResult .rv64 inst a b = Rv64.mulDiv (funct3 inst) a b ∧
        op32Result .rv64 inst a b = (Rv64.mulDivW (funct3 inst) (lo32 a) (lo32 b)).map sext) ∧
      Rv64.Divides a b ∧ Rv64.Divides (lo32 a) (lo32 b) := by
  refine ⟨muldiv64Checked_eq inst a b, muldivwChecked_eq inst _ _, fun h7 => ⟨?_, ?_⟩, ?_, ?_⟩
  · unfold opResult
    rw [if_pos h7]
    exact muldiv64_eq inst a b
  · unfold op32Result
    rw [if_neg (by decide), if_pos h7, muldivw_eq]
  · exact divides a b (by decide) (by decide) (by decide)
  · exact divides (lo32 a) (lo32 b) (by decide) (by decide) (by decide)

end Quanta
