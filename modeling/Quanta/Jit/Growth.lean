/-
How long emitted code is. Each emitter has a bound on the bytes it appends; together they keep a
block of 128 instructions below the size of the scratch buffer, and every short jump within its
reach, so the overflow flag is never set.
-/
import Quanta.Jit.Translate

namespace Quanta.Jit

/-- From `c` to `c'` at most `n` bytes were appended, and if there was room for `n` the flag is still
clear. -/
structure Code.Grows (c c' : Code) (n : Nat) : Prop where
  fail : c.fail = false → c.buf.length + n ≤ JIT_CODE_MAX → c'.fail = false
  le : c.buf.length ≤ c'.buf.length
  length : c'.buf.length ≤ c.buf.length + n

namespace Code

variable {c c' c'' : Code} {k n : Nat}

theorem Grows.refl (c : Code) : c.Grows c 0 := ⟨fun h _ => h, Nat.le_refl _, Nat.le_refl _⟩

theorem Grows.trans (h : c.Grows c' k) (h' : c'.Grows c'' n) : c.Grows c'' (k + n) where
  fail hf hroom := h'.fail (h.fail hf (by omega)) (by have := h.length; omega)
  le := Nat.le_trans h.le h'.le
  length := by
    have := h.length
    have := h'.length
    omega

theorem Grows.mono (h : c.Grows c' k) (hkn : k ≤ n) : c.Grows c' n where
  fail hf hroom := h.fail hf (by omega)
  le := h.le
  length := by
    have := h.length
    omega

theorem Grows.ite {p : Prop} [Decidable p] {c1 c2 : Code} (h1 : c.Grows c1 n) (h2 : c.Grows c2 n) :
    c.Grows (if p then c1 else c2) n := by
  split
  · exact h1
  · exact h2

theorem grows_eb (c : Code) (b : Byte) : c.Grows (c.eb b) 1 := by
  unfold eb
  split
  · exact ⟨fun h _ => h, by simp, by simp⟩
  · next hfull => exact ⟨fun _ hroom => absurd (show c.buf.length < JIT_CODE_MAX by omega) hfull, Nat.le_refl _, by simp⟩

theorem grows_ebs (c : Code) (bs : List Byte) : c.Grows (c.ebs bs) bs.length := by
  induction bs generalizing c with
  | nil => exact .refl c
  | cons b bs ih => exact ((grows_eb c b).trans (ih (c.eb b))).mono (by simp; omega)

theorem grows_e32 (c : Code) (v : BitVec 32) : c.Grows (c.e32 v) 4 := grows_ebs c (bytes32 v)

theorem grows_e64 (c : Code) (v : BitVec 64) : c.Grows (c.e64 v) 8 := grows_ebs c (bytes64 v)

/-! ## Instruction forms -/

theorem grows_xLd (c : Code) (r : HostReg) (off : BitVec 32) : c.Grows (c.xLd r off) 7 :=
  (grows_ebs c _).trans (grows_e32 _ off)

theorem grows_xLd32 (c : Code) (r : HostReg) (off : BitVec 32) : c.Grows (c.xLd32 r off) 6 :=
  (grows_ebs c _).trans (grows_e32 _ off)

theorem grows_xSt (c : Code) (off : BitVec 32) (r : HostReg) : c.Grows (c.xSt off r) 7 :=
  (grows_ebs c _).trans (grows_e32 _ off)

theorem grows_xImm64 (c : Code) (r : HostReg) (v : BitVec 64) : c.Grows (c.xImm64 r v) 10 :=
  (grows_ebs c _).trans (grows_e64 _ v)

theorem grows_xAlu (c : Code) (op : Byte) (dst src : HostReg) : c.Grows (c.xAlu op dst src) 3 := grows_ebs c _

theorem grows_xAlu32 (c : Code) (op : Byte) (dst src : HostReg) : c.Grows (c.xAlu32 op dst src) 2 := grows_ebs c _

theorem grows_xAlui (c : Code) (n : Byte) (r : HostReg) (imm : BitVec 32) : c.Grows (c.xAlui n r imm) 7 :=
  (grows_ebs c _).trans (grows_e32 _ imm)

theorem grows_xAlui32 (c : Code) (n : Byte) (r : HostReg) (imm : BitVec 32) : c.Grows (c.xAlui32 n r imm) 6 :=
  (grows_ebs c _).trans (grows_e32 _ imm)

theorem grows_rex (c : Code) (w64 : Bool) : c.Grows (if w64 then c.eb 0x48 else c) 1 :=
  .ite (grows_eb c _) ((Grows.refl c).mono (by omega))

theorem grows_xShifti (c : Code) (n : Byte) (r : HostReg) (w64 : Bool) (sh : BitVec 32) :
    c.Grows (c.xShifti n r w64 sh) 4 := (grows_rex c w64).trans (grows_ebs _ _)

theorem grows_xShiftcl (c : Code) (n : Byte) (r : HostReg) (w64 : Bool) : c.Grows (c.xShiftcl n r w64) 3 :=
  (grows_rex c w64).trans (grows_ebs _ _)

theorem grows_xSext32 (c : Code) : c.Grows c.xSext32 3 := grows_ebs c _

theorem grows_xSetcc (c : Code) (cc : Byte) : c.Grows (c.xSetcc cc) 6 := grows_ebs c _

theorem grows_xCmov (c : Code) (cc : Byte) (dst src : HostReg) : c.Grows (c.xCmov cc dst src) 4 := grows_ebs c _

theorem grows_xRetire (c : Code) (n : BitVec 32) : c.Grows (c.xRetire n) 11 := by
  unfold xRetire
  exact .ite ((Grows.refl c).mono (by omega)) (((grows_ebs c _).trans (grows_e32 _ _)).trans (grows_e32 _ _))

theorem grows_xRetSteps (c : Code) (n : BitVec 32) : c.Grows (c.xRetSteps n) 5 :=
  (grows_eb c _).trans (grows_e32 _ n)

theorem grows_xJmpEpi (c : Code) : c.Grows c.xJmpEpi 5 := (grows_eb c _).trans (grows_e32 _ _)

theorem grows_exitWith (c : Code) (retired steps : BitVec 32) : c.Grows (c.exitWith retired steps) 21 :=
  ((grows_xRetire c retired).trans (grows_xRetSteps _ steps)).trans (grows_xJmpEpi _)

theorem grows_xCall (c : Code) (fn : BitVec 64) (inst : BitVec 32) (pc : BitVec 64) : c.Grows (c.xCall fn inst pc) 40 := by
  unfold xCall
  exact ((((((((grows_xImm64 c _ _).trans (grows_xSt _ _ _)).trans (grows_ebs _ _)).trans (grows_eb _ _)).trans
    (grows_e32 _ _)).trans (grows_ebs _ _)).trans (grows_e64 _ _)).trans (grows_ebs _ _)).trans (grows_ebs _ _)

/-! ## Short jumps -/

theorem grows_xJe8 (c : Code) : c.Grows c.xJe8.2 2 := (grows_eb c _).trans (grows_eb _ _)

theorem eb_of_room (b : Byte) (hroom : c.buf.length < JIT_CODE_MAX) : c.eb b = { c with buf := c.buf ++ [b] } :=
  if_pos hroom

theorem xJe8_of_room (hroom : c.buf.length + 2 ≤ JIT_CODE_MAX) :
    c.xJe8.1 = c.buf.length + 1 ∧ c.xJe8.2.buf.length = c.buf.length + 2 := by
  have hroom' : (c.eb 0x74).buf.length < JIT_CODE_MAX := by
    have := (grows_eb c 0x74).length
    omega
  unfold xJe8
  dsimp only
  rw [eb_of_room 0 hroom', eb_of_room 0x74 (by omega)]
  simp

theorem length_xPatch8 (pos : Nat) : (c.xPatch8 pos).buf.length = c.buf.length := by
  unfold xPatch8
  dsimp only
  split <;> simp

/-- A jump over at most 127 bytes is patched. -/
theorem grows_patched {pos : Nat} {c1 : Code} (hje : c.xJe8 = (pos, c1)) (h : c1.Grows c' n) (hn : n ≤ 127) :
    c.Grows (c'.xPatch8 pos) (2 + n) where
  fail hf hroom := by
    have hpos := @xJe8_of_room c (by omega)
    have hf1 := (grows_xJe8 c).fail hf (by omega)
    rw [hje] at hpos hf1
    obtain ⟨hpos, hlen⟩ := hpos
    dsimp only at hpos hlen hf1
    have hf' := h.fail hf1 (by omega)
    have hle := h.le
    have hlength := h.length
    have hdist : (BitVec.ofNat 32 c'.buf.length - BitVec.ofNat 32 (c.buf.length + 1 + 1)).toNat =
        c'.buf.length - (c.buf.length + 2) := by
      rw [BitVec.toNat_sub, BitVec.toNat_ofNat, BitVec.toNat_ofNat]
      omega
    unfold xPatch8
    dsimp only
    rw [hpos, if_neg (by rw [hdist]; omega)]
    exact hf'
  le := by
    have hje2 := (grows_xJe8 c).le
    rw [hje] at hje2
    rw [length_xPatch8]
    exact Nat.le_trans hje2 h.le
  length := by
    have hje2 := (grows_xJe8 c).length
    rw [hje] at hje2
    have hlength := h.length
    rw [length_xPatch8]
    dsimp only at hje2
    omega

theorem grows_glueAlu (c : Code) (k : BitVec 32) : c.Grows (c.glueAlu k) 23 := by
  unfold glueAlu
  rcases hje : c.xJe8 with ⟨cont, c1⟩
  dsimp only
  exact grows_patched hje (grows_exitWith c1 k (k + 1)) (by decide)

theorem grows_glueMem (c : Code) (k : BitVec 32) : c.Grows (c.glueMem k) 49 := by
  unfold glueMem
  rcases hje : c.xJe8 with ⟨cont, c1⟩
  dsimp only
  rcases hje' : (c1.ebs [0x83, 0xF8, 0x03]).xJe8 with ⟨abort, c2⟩
  dsimp only
  have hcmp := grows_ebs c1 [0x83, 0xF8, 0x03]
  have habort := grows_patched hje' (grows_exitWith c2 k (k + 1)) (by decide)
  exact grows_patched hje ((hcmp.trans habort).trans (grows_exitWith _ k k)) (by decide)

theorem grows_putRd (c : Code) (xlen : Xlen) (rdn : BitVec 5) (needsSext : Bool) :
    c.Grows (c.putRd xlen rdn needsSext) 10 := by
  have hsext : c.Grows (if xlen = .rv32 ∧ needsSext then c.xSext32 else c) 3 :=
    .ite (grows_xSext32 c) ((Grows.refl c).mono (by omega))
  exact .ite (hsext.trans (grows_xSt _ _ _)) (hsext.mono (by omega))

/-- An inlined operation stays below the size of a call. -/
theorem Grows.inlined (h : c.Grows c' n) (hn : n ≤ 53) (xlen : Xlen) (rdn : BitVec 5) (needsSext : Bool) :
    c.Grows (c'.putRd xlen rdn needsSext) 63 :=
  (h.trans (grows_putRd c' xlen rdn needsSext)).mono (by omega)

end Code

/-! ## One instruction -/

section
variable (fns : Fns) (c : Code) (xlen : Xlen) (inst : BitVec 32) (vs va : BitVec 64) (ilen k : BitVec 32)

open Code

theorem grows_emitAluCall : c.Grows (emitAluCall fns c inst vs k) 63 :=
  (grows_xCall c _ _ _).trans (grows_glueAlu _ k)

theorem grows_emitOpImm : c.Grows (emitOpImm fns c xlen inst vs k) 63 := by
  unfold emitOpImm
  have hld := grows_xLd c .rax (ROFF (rs1 inst))
  dsimp only
  split
  · split
    · exact (hld.trans (grows_xAlui _ _ _ _)).inlined (by decide) _ _ _
    · exact ((hld.trans (grows_xAlui _ _ _ _)).trans (grows_xSetcc _ _)).inlined (by decide) _ _ _
    · exact ((hld.trans (grows_xAlui _ _ _ _)).trans (grows_xSetcc _ _)).inlined (by decide) _ _ _
    · exact (hld.trans (grows_xAlui _ _ _ _)).inlined (by decide) _ _ _
    · exact (hld.trans (grows_xAlui _ _ _ _)).inlined (by decide) _ _ _
    · exact (hld.trans (grows_xAlui _ _ _ _)).inlined (by decide) _ _ _
    · exact (hld.trans (grows_xShifti _ _ _ _ _)).inlined (by decide) _ _ _
    · exact (hld.trans (grows_xShifti _ _ _ _ _)).inlined (by decide) _ _ _
  · exact grows_emitAluCall fns c inst vs k

theorem grows_emitOp : c.Grows (emitOp fns c xlen inst vs k) 63 := by
  unfold emitOp
  have hld := (grows_xLd c .rax (ROFF (rs1 inst))).trans (grows_xLd _ .rcx (ROFF (rs2 inst)))
  dsimp only
  split
  · split
    · exact (hld.trans (grows_xAlu _ _ _ _)).inlined (by decide) _ _ _
    · exact (hld.trans (grows_xShiftcl _ _ _ _)).inlined (by decide) _ _ _
    · exact ((hld.trans (grows_xAlu _ _ _ _)).trans (grows_xSetcc _ _)).inlined (by decide) _ _ _
    · exact ((hld.trans (grows_xAlu _ _ _ _)).trans (grows_xSetcc _ _)).inlined (by decide) _ _ _
    · exact (hld.trans (grows_xAlu _ _ _ _)).inlined (by decide) _ _ _
    · exact (hld.trans (grows_xShiftcl _ _ _ _)).inlined (by decide) _ _ _
    · exact (hld.trans (grows_xAlu _ _ _ _)).inlined (by decide) _ _ _
    · exact (hld.trans (grows_xAlu _ _ _ _)).inlined (by decide) _ _ _
  · exact grows_emitAluCall fns c inst vs k

theorem grows_putWord (rdn : BitVec 5) : c.Grows (putWord c rdn) 10 :=
  .ite ((grows_xSext32 c).trans (grows_xSt _ _ _)) ((grows_xSext32 c).mono (by decide))

theorem grows_emitOpImm32 : c.Grows (emitOpImm32 fns c inst vs k) 63 := by
  unfold emitOpImm32
  have hld := grows_xLd32 c .rax (ROFF (rs1 inst))
  dsimp only
  split
  · refine (Grows.trans (n := 10) (k := 12) ?_ (grows_putWord _ _)).mono (by decide)
    exact .ite (hld.trans (grows_xAlui32 _ _ _ _)) (.ite ((hld.trans (grows_xShifti _ _ _ _ _)).mono (by decide))
      ((hld.trans (grows_xShifti _ _ _ _ _)).mono (by decide)))
  · exact grows_emitAluCall fns c inst vs k

theorem grows_emitOp32 : c.Grows (emitOp32 fns c inst vs k) 63 := by
  unfold emitOp32
  have hld := (grows_xLd32 c .rax (ROFF (rs1 inst))).trans (grows_xLd32 _ .rcx (ROFF (rs2 inst)))
  dsimp only
  split
  · refine (Grows.trans (n := 10) (k := 15) ?_ (grows_putWord _ _)).mono (by decide)
    exact .ite ((hld.trans (grows_xAlu32 _ _ _ _)).mono (by decide)) (.ite (hld.trans (grows_xShiftcl _ _ _ _))
      (hld.trans (grows_xShiftcl _ _ _ _)))
  · exact grows_emitAluCall fns c inst vs k

theorem grows_emitConst (r : HostReg) (rdn : BitVec 5) (v : BitVec 64) : c.Grows (emitConst c r rdn v) 17 :=
  .ite ((grows_xImm64 c r v).trans (grows_xSt _ _ _)) ((Grows.refl c).mono (by decide))

theorem grows_emitTransfer : c.Grows (emitTransfer c k) 28 := (grows_xSt c _ _).trans (grows_exitWith _ _ _)

theorem grows_emitMem : c.Grows ((c.xCall fns.mem inst vs).glueMem k) 89 := by
  have hcall := grows_xCall c fns.mem inst vs
  exact hcall.trans (grows_glueMem _ k)

/-- No instruction takes more than 89 bytes: those of a load or store. -/
theorem grows_emitInsn : c.Grows (emitInsn fns c xlen inst va ilen k).2 89 := by
  unfold emitInsn
  dsimp only
  split
  · dsimp only
    exact (grows_emitConst c _ _ _).mono (by decide)
  · dsimp only
    exact (grows_emitConst c _ _ _).mono (by decide)
  · dsimp only
    exact (grows_emitOpImm fns c xlen inst _ k).mono (by decide)
  · dsimp only
    exact (grows_emitOp fns c xlen inst _ k).mono (by decide)
  · split
    · exact (grows_emitOpImm32 fns c inst _ k).mono (by decide)
    · exact (Grows.refl c).mono (by decide)
  · split
    · exact (grows_emitOp32 fns c inst _ k).mono (by decide)
    · exact (Grows.refl c).mono (by decide)
  · dsimp only
    exact grows_emitMem fns c inst _ k
  · dsimp only
    exact grows_emitMem fns c inst _ k
  · dsimp only
    refine (Grows.trans (n := 28) (k := 41) ?_ (grows_emitTransfer _ k)).mono (by decide)
    have hld := (grows_xLd c .rax (ROFF (rs1 inst))).trans (grows_xLd _ .rcx (ROFF (rs2 inst)))
    exact .ite ((grows_xImm64 c _ _).mono (by decide))
      (((((hld.trans (grows_xAlu _ _ _ _)).trans (grows_xImm64 _ _ _)).trans (grows_xImm64 _ _ _)).trans
        (grows_xCmov _ _ _ _)).mono (by decide))
  · dsimp only
    exact (((grows_emitConst c _ _ _).trans (grows_xImm64 _ _ _)).trans (grows_emitTransfer _ k)).mono (by decide)
  · dsimp only
    refine (Grows.trans (n := 28) (k := 38) ?_ (grows_emitTransfer _ k)).mono (by decide)
    refine (Grows.trans (n := 17) (k := 21) ?_ (grows_emitConst _ _ _ _)).mono (by decide)
    have htarget := ((grows_xLd c .rax (ROFF (rs1 inst))).trans (grows_xAlui _ 0 .rax (immI inst))).trans
      (grows_ebs _ [0x48, 0x83, 0xE0, 0xFE])
    exact .ite ((htarget.trans (grows_xSext32 _)).mono (by decide)) (htarget.mono (by decide))
  · split <;> exact (Grows.refl c).mono (by decide)
  · dsimp only
    exact (Grows.refl c).mono (by decide)

end

/-! ## A block -/

section
variable (fns : Fns) (b : Bus) (xlen : Xlen) (va0 pa : BitVec 64)

/-- `k` more instructions take at most `89 * k` bytes, whichever way the loop ends. -/
theorem grows_translateLoop (k : Nat) (s : Block) :
    s.code.Grows (translateLoop fns b xlen va0 pa k s).code (89 * k) := by
  induction k generalizing s with
  | zero => exact .refl _
  | succ k ih =>
    unfold translateLoop
    dsimp only
    split
    · exact (Code.Grows.refl _).mono (by omega)
    · next inst ilen _ =>
      have hinsn := grows_emitInsn fns s.code xlen inst (va0 + s.off) ilen (BitVec.ofNat 32 s.n)
      split
      · next c hc =>
        rw [hc] at hinsn
        exact hinsn.mono (by omega)
      · next c hc =>
        rw [hc] at hinsn
        exact (hinsn.trans (ih ⟨c, s.n + 1, s.off + ilen.setWidth 64, false⟩)).mono (by omega)
      · next c hc =>
        rw [hc] at hinsn
        exact hinsn.mono (by omega)

end

theorem prologue_eq : prologue = ⟨[0x53, 0x48, 0x89, 0xFB, 0xEB, 0x02, 0x5B, 0xC3], false⟩ := by decide

/-- The code of a block fits the buffer, and no jump in it was out of reach. -/
theorem grows_blockCode (fns : Fns) (m : Machine) (pa : BitVec 64) :
    prologue.Grows (blockCode fns m pa).1 (89 * JIT_MAX_INSNS + 38) := by
  have hloop := fun va0 => grows_translateLoop fns m.bus m.xlen va0 pa JIT_MAX_INSNS ⟨prologue, 0, 0, false⟩
  unfold blockCode
  dsimp only
  generalize (if m.xlen = .rv64 then m.cpu.pc else m.cpu.pc &&& 0xffffffff) = va0
  have hloop := hloop va0
  split
  · exact hloop.mono (Nat.le_add_right _ _)
  · split
    · exact hloop.mono (Nat.le_add_right _ _)
    · dsimp only
      exact (((hloop.trans (Code.grows_xImm64 _ _ _)).trans (Code.grows_xSt _ _ _)).trans
        (Code.grows_exitWith _ _ _)).mono (by decide)

theorem blockCode_fits (fns : Fns) (m : Machine) (pa : BitVec 64) :
    (blockCode fns m pa).1.fail = false ∧ 8 ≤ (blockCode fns m pa).1.buf.length ∧
      (blockCode fns m pa).1.buf.length ≤ JIT_CODE_MAX := by
  have hgrows := grows_blockCode fns m pa
  have hle := hgrows.le
  have hlength := hgrows.length
  have hpro : prologue.buf.length = 8 := by rw [prologue_eq]; rfl
  have hfail : prologue.fail = false := by rw [prologue_eq]
  refine ⟨hgrows.fail hfail ?_, by omega, ?_⟩
  · rw [hpro]
    decide
  · rw [hpro] at hlength
    exact Nat.le_trans hlength (by decide)

end Quanta.Jit
