/-
Privilege confinement. Below M a hart's acts keep its privilege or lower it and leave the machine
CSRs alone but for what the supervisor windows show, the dirty state of the float unit, MPRV on
its way down, and the interrupt bits software and devices share (`Quiet`). Only a trap entry
raises the privilege, and it goes through the vector the hart held before the step.
-/
import Quanta.Privilege.Bypass

namespace Quanta

open Relation Run

variable (xlen : Xlen) (x : BitVec 64)

/-! ## Quiet changes -/

/-- `y` is `x` outside the bits `free` allows. -/
def SameBits (free : Nat → Bool) (x y : BitVec 64) : Prop :=
  ∀ i, i < 64 → free i = false → y.getLsbD i = x.getLsbD i

theorem SameBits.refl (free : Nat → Bool) (x : BitVec 64) : SameBits free x x := fun _ _ _ => rfl

theorem SameBits.trans {free : Nat → Bool} {x y z : BitVec 64} (h : SameBits free x y)
    (h' : SameBits free y z) : SameBits free x z :=
  fun i hi hf => (h' i hi hf).trans (h i hi hf)

/-- The `mstatus` bits of the `sstatus` window, and SD. -/
def statusWindow (xlen : Xlen) (i : Nat) : Bool := SSTATUS_MASK.getLsbD i || decide (i = xlen.bits - 1)

/-- The supervisor-interrupt and the device-driven bits of `mip`. -/
def mipShared (i : Nat) : Bool := S_INT_MASK.getLsbD i || MIP_DEVICE.getLsbD i

/-- The `mip` bits that change below M; those above 31 do only by being cleared. -/
structure QuietMip (x y : BitVec 64) : Prop where
  same : SameBits (fun i => mipShared i || decide (32 ≤ i)) x y
  high : ∀ i, 32 ≤ i → y.getLsbD i = true → x.getLsbD i = true

/-- The `mstatus` bits that change below M without a trap; MPRV does only by being cleared. -/
structure QuietStatus (xlen : Xlen) (x y : BitVec 64) : Prop where
  same : SameBits (fun i => statusWindow xlen i || decide (i = 17)) x y
  mprv : y.getLsbD 17 = true → x.getLsbD 17 = true

/-- What the acts of a hart below M may do to it. -/
structure Quiet (c c' : CPU) : Prop where
  priv : c'.priv.toNat ≤ c.priv.toNat
  xlen : c'.xlen = c.xlen
  machine : ∀ a, csrPriv a = 3 → a ≠ CSR_MSTATUS → a ≠ CSR_MIE → a ≠ CSR_MIP → c'.csr a = c.csr a
  mie : SameBits S_INT_MASK.getLsbD (c.csr CSR_MIE) (c'.csr CSR_MIE)
  mip : QuietMip (c.csr CSR_MIP) (c'.csr CSR_MIP)
  mstatus : QuietStatus c.xlen (c.csr CSR_MSTATUS) (c'.csr CSR_MSTATUS)
  supervisor : c.priv = PRIV_U → ∀ a, csrPriv a = 1 → c'.csr a = c.csr a

theorem QuietMip.refl : QuietMip x x := ⟨.refl _ x, fun _ _ h => h⟩

theorem QuietStatus.refl : QuietStatus xlen x x := ⟨.refl _ x, fun h => h⟩

namespace Quiet

variable {c c' c'' : CPU}

/-- A change of nothing the relation looks at. -/
theorem of_eq (hp : c'.priv = c.priv) (hx : c'.xlen = c.xlen) (hc : c'.csr = c.csr) : Quiet c c' where
  priv := by rw [hp]
  xlen := hx
  machine a _ _ _ _ := by rw [hc]
  mie := by rw [hc]; exact .refl _ _
  mip := by rw [hc]; exact .refl _
  mstatus := by rw [hc]; exact .refl _ _
  supervisor _ a _ := by rw [hc]

theorem refl (c : CPU) : Quiet c c := of_eq rfl rfl rfl

theorem trans (h : Quiet c c') (h' : Quiet c' c'') : Quiet c c'' where
  priv := le_trans h'.priv h.priv
  xlen := h'.xlen.trans h.xlen
  machine a hp h1 h2 h3 := (h'.machine a hp h1 h2 h3).trans (h.machine a hp h1 h2 h3)
  mie := h.mie.trans h'.mie
  mip := ⟨h.mip.same.trans h'.mip.same, fun i hi hy => h.mip.high i hi (h'.mip.high i hi hy)⟩
  mstatus := by
    have h2 := h'.mstatus
    rw [h.xlen] at h2
    exact ⟨h.mstatus.same.trans h2.same, fun hy => h.mstatus.mprv (h2.mprv hy)⟩
  supervisor hu a ha := by
    have hu' : c'.priv = PRIV_U := by
      have := h.priv
      rw [hu] at this
      exact BitVec.eq_of_toNat_eq (Nat.le_zero.mp this)
    rw [h'.supervisor hu' a ha, h.supervisor hu a ha]

/-- A write of `mip` alone. -/
theorem of_mip (hp : c'.priv = c.priv) (hx : c'.xlen = c.xlen)
    (hc : ∀ a, a ≠ CSR_MIP → c'.csr a = c.csr a) (hm : QuietMip (c.csr CSR_MIP) (c'.csr CSR_MIP)) :
    Quiet c c' where
  priv := by rw [hp]
  xlen := hx
  machine a _ _ _ h := hc a h
  mie := by rw [hc _ (by decide)]; exact .refl _ _
  mip := hm
  mstatus := by rw [hc _ (by decide)]; exact .refl _ _
  supervisor _ a ha := hc a (by rintro rfl; exact absurd ha (by decide))

/-- A write of `mstatus` alone, with the privilege kept or lowered. -/
theorem of_status (hp : c'.priv.toNat ≤ c.priv.toNat) (hx : c'.xlen = c.xlen)
    (hc : ∀ a, a ≠ CSR_MSTATUS → c'.csr a = c.csr a)
    (hm : QuietStatus c.xlen (c.csr CSR_MSTATUS) (c'.csr CSR_MSTATUS)) : Quiet c c' where
  priv := hp
  xlen := hx
  machine a _ h _ _ := hc a h
  mie := by rw [hc _ (by decide)]; exact .refl _ _
  mip := by rw [hc _ (by decide)]; exact .refl _
  mstatus := hm
  supervisor _ a ha := hc a (by rintro rfl; exact absurd ha (by decide))

/-- A write of one register below the machine level, and of no supervisor register from U. -/
theorem of_low (b : BitVec 12) (hb : csrPriv b ≠ 3) (hu : c.priv = PRIV_U → csrPriv b ≠ 1)
    (hp : c'.priv = c.priv) (hx : c'.xlen = c.xlen) (hc : ∀ a, a ≠ b → c'.csr a = c.csr a) : Quiet c c' where
  priv := by rw [hp]
  xlen := hx
  machine a ha _ _ _ := hc a (by rintro rfl; exact hb ha)
  mie := by rw [hc _ (by rintro rfl; exact hb (by decide))]; exact .refl _ _
  mip := by rw [hc _ (by rintro rfl; exact hb (by decide))]; exact .refl _
  mstatus := by rw [hc _ (by rintro rfl; exact hb (by decide))]; exact .refl _ _
  supervisor hpriv a ha := hc a (by rintro rfl; exact hu hpriv ha)

/-- A write of the supervisor bits of `mie`. -/
theorem of_mie (hp : c'.priv = c.priv) (hx : c'.xlen = c.xlen) (hc : ∀ a, a ≠ CSR_MIE → c'.csr a = c.csr a)
    (hm : SameBits S_INT_MASK.getLsbD (c.csr CSR_MIE) (c'.csr CSR_MIE)) : Quiet c c' where
  priv := by rw [hp]
  xlen := hx
  machine a _ _ h _ := hc a h
  mie := hm
  mip := by rw [hc _ (by decide)]; exact .refl _
  mstatus := by rw [hc _ (by decide)]; exact .refl _ _
  supervisor _ a ha := hc a (by rintro rfl; exact absurd ha (by decide))

end Quiet

/-! ## The quiet values -/

theorem sameBits_window (mask x v : BitVec 64) : SameBits mask.getLsbD x (CPU.window mask x v) := by
  intro i hi hf
  rw [CPU.getLsbD_window _ _ _ hi, hf]
  rfl

/-- Weakening the free bits. -/
theorem SameBits.mono {free free' : Nat → Bool} {x y : BitVec 64} (h : SameBits free x y)
    (hle : ∀ i, i < 64 → free i = true → free' i = true) : SameBits free' x y := by
  intro i hi hf
  refine h i hi (Bool.eq_false_iff.mpr fun ht => ?_)
  rw [hle i hi ht] at hf
  cases hf

theorem sIntMask_high {i : Nat} (hi : 32 ≤ i) : S_INT_MASK.getLsbD i = false := by
  have h : S_INT_MASK = (0x222#32).setWidth 64 := by decide
  rw [h, BitVec.getLsbD_setWidth, BitVec.getLsbD_of_ge _ _ hi, Bool.and_false]

theorem quietMip_window (x v : BitVec 64) : QuietMip x (CPU.window S_INT_MASK x v) where
  same := (sameBits_window S_INT_MASK x v).mono fun i _ h => by
    simp only [mipShared, h, Bool.true_or]
  high i hi h := by
    by_cases h64 : i < 64
    · rw [CPU.getLsbD_window _ _ _ h64, sIntMask_high hi] at h
      exact h
    · rw [BitVec.getLsbD_of_ge _ _ (by omega)] at h
      cases h

theorem mipShared_eq {i : Nat} (hi : i < 64) :
    mipShared i = decide (i = 1 ∨ i = 3 ∨ i = 5 ∨ i = 7 ∨ i = 9 ∨ i = 11) := by
  have h : ∀ i : Fin 64, mipShared i = decide (i.val = 1 ∨ i.val = 3 ∨ i.val = 5 ∨ i.val = 7 ∨
    i.val = 9 ∨ i.val = 11) := by decide
  exact h ⟨i, hi⟩

/-- The timer relays set STIP, or clear it with a 32-bit mask. -/
theorem quietMip_timer {x v : BitVec 64} (h : v = x ||| 0x20 ∨ v = x &&& 0xffffffdf) : QuietMip x v := by
  have hset : ∀ i : Fin 64, (0x20#64).getLsbD i = decide (i.val = 5) := by decide
  have hclear : ∀ i : Fin 64, (0xffffffdf#64).getLsbD i = decide (i.val < 32 ∧ i.val ≠ 5) := by decide
  rcases h with rfl | rfl
  · constructor
    · intro i hi hf
      have h5 := hset ⟨i, hi⟩
      dsimp only at hf h5
      rw [mipShared_eq hi] at hf
      rw [BitVec.getLsbD_or]
      grind
    · intro i hi hb
      by_cases h64 : i < 64
      · have h5 := hset ⟨i, h64⟩
        rw [BitVec.getLsbD_or] at hb
        grind
      · rw [BitVec.getLsbD_of_ge _ _ (by omega)] at hb
        cases hb
  · constructor
    · intro i hi hf
      have h5 := hclear ⟨i, hi⟩
      dsimp only at hf h5
      rw [mipShared_eq hi] at hf
      rw [BitVec.getLsbD_and]
      grind
    · intro i _ hb
      rw [BitVec.getLsbD_and, Bool.and_eq_true] at hb
      exact hb.1

/-- The refresh recomputes the device bits and keeps 32 bits. -/
theorem quietMip_refresh (c : CPU) (b : Bus) : QuietMip (c.csr CSR_MIP) ((c.liveMip b).setWidth 64) := by
  have hlow : ∀ i, i < 32 → mipShared i = false → (c.liveMip b).getLsbD i = (c.csr CSR_MIP).getLsbD i := by
    intro i hi hf
    unfold mipShared at hf
    rw [Bool.or_eq_false_iff] at hf
    exact c.liveMip_getLsbD b hi hf.2
  constructor
  · intro i hi hf
    rw [Bool.or_eq_false_iff, decide_eq_false_iff_not] at hf
    rw [BitVec.getLsbD_setWidth, decide_eq_true hi, Bool.true_and]
    exact hlow i (by omega) hf.1
  · intro i hi hb
    rw [BitVec.getLsbD_setWidth, BitVec.getLsbD_of_ge _ _ hi, Bool.and_false] at hb
    cases hb

theorem quietStatus_window (x v : BitVec 64) :
    QuietStatus xlen x (CPU.window SSTATUS_MASK x v) where
  same := (sameBits_window SSTATUS_MASK x v).mono fun i _ h => by
    simp only [statusWindow, h, Bool.true_or]
  mprv h := by
    rw [CPU.getLsbD_window _ _ _ (by decide), sstatusMask_mprv] at h
    exact h

theorem quietStatus_dirty :
    QuietStatus xlen x (x ||| MSTATUS_FS ||| 1#64 <<< (xlen.bits - 1)) := by
  have hfs : ∀ i : Fin 64, MSTATUS_FS.getLsbD i = true → SSTATUS_MASK.getLsbD i = true := by decide
  constructor
  · intro i hi hf
    rw [Bool.or_eq_false_iff] at hf
    unfold statusWindow at hf
    rw [Bool.or_eq_false_iff] at hf
    have hno : MSTATUS_FS.getLsbD i = false := by
      refine Bool.eq_false_iff.mpr fun h => ?_
      rw [hfs ⟨i, hi⟩ h] at hf
      cases hf.1.1
    rw [BitVec.getLsbD_or, BitVec.getLsbD_or, Bits.getLsbD_mask hi, hno, hf.1.2, Bool.or_false, Bool.or_false]
  · intro h
    have hno : MSTATUS_FS.getLsbD 17 = false := by decide
    rw [BitVec.getLsbD_or, BitVec.getLsbD_or, Bits.getLsbD_mask (by decide), hno, Bool.or_false] at h
    cases xlen <;> simpa [Xlen.bits] using h

theorem sstatusMask_eq {i : Nat} (hi : i < 64) : SSTATUS_MASK.getLsbD i =
    decide (i = 1 ∨ i = 5 ∨ i = 8 ∨ i = 13 ∨ i = 14 ∨ i = 18 ∨ i = 19) := by
  have h : ∀ i : Fin 64, SSTATUS_MASK.getLsbD i = decide (i.val = 1 ∨ i.val = 5 ∨ i.val = 8 ∨
    i.val = 13 ∨ i.val = 14 ∨ i.val = 18 ∨ i.val = 19) := by decide
  exact h ⟨i, hi⟩

theorem quietStatus_popS : QuietStatus xlen x (CPU.popS x) := by
  constructor
  · intro i hi hf
    unfold statusWindow at hf
    dsimp only at hf
    rw [sstatusMask_eq hi] at hf
    rw [CPU.getLsbD_popS _ hi]
    grind
  · intro h
    rw [CPU.getLsbD_popS _ (by decide)] at h
    cases h

theorem quietStatus_clearSie : QuietStatus xlen x (x &&& ~~~2#64) := by
  constructor
  · intro i hi hf
    unfold statusWindow at hf
    dsimp only at hf
    rw [sstatusMask_eq hi] at hf
    rw [show (2#64) = 1#64 <<< 1 from rfl, CPU.getLsbD_clear _ hi]
    grind
  · intro h
    rw [BitVec.getLsbD_and, Bool.and_eq_true] at h
    exact h.1

/-! ## Acts below M are quiet -/

theorem toNat_PRIV_M : PRIV_M.toNat = 3 := rfl

/-- A CSR write the privilege check lets through below M. -/
theorem quiet_csrWrite {c : CPU} {a : BitVec 12} (v : BitVec 64) (hp : ¬c.priv.ult (csrPriv a))
    (hlow : c.priv.toNat ≤ 1) : Quiet c (c.csrWrite a v) := by
  have hle : (csrPriv a).toNat ≤ c.priv.toNat := by
    rw [BitVec.ult, decide_eq_true_iff] at hp
    omega
  have hcsr : ∀ b, b ≠ csrTarget a → (c.csrWrite a v).csr b = c.csr b := by
    intro b hb
    rw [c.csrWrite_csr, if_neg hb]
  have hval : (c.csrWrite a v).csr (csrTarget a) = c.csrStored a v := by
    rw [c.csrWrite_csr, if_pos rfl]
  by_cases hs : a = CSR_SSTATUS
  · subst hs
    refine .of_status (by rw [c.csrWrite_priv]) (c.csrWrite_xlen ..) hcsr ?_
    have h : (c.csrWrite CSR_SSTATUS v).csr CSR_MSTATUS = _ := hval
    rw [h]
    exact quietStatus_window _ _ _
  by_cases he : a = CSR_SIE
  · subst he
    refine .of_mie (c.csrWrite_priv ..) (c.csrWrite_xlen ..) hcsr ?_
    have h : (c.csrWrite CSR_SIE v).csr CSR_MIE = _ := hval
    rw [h]
    exact sameBits_window _ _ _
  by_cases hi : a = CSR_SIP
  · subst hi
    refine .of_mip (c.csrWrite_priv ..) (c.csrWrite_xlen ..) hcsr ?_
    have h : (c.csrWrite CSR_SIP v).csr CSR_MIP = _ := hval
    rw [h]
    exact quietMip_window _ _
  -- what is left writes a register of the user or supervisor level under its own address
  have htarget : csrTarget a = a ∨ csrTarget a = CSR_FCSR := by
    unfold csrTarget
    rw [if_neg hs, if_neg he, if_neg hi]
    split
    · exact Or.inr rfl
    · exact Or.inl rfl
  refine .of_low (csrTarget a) ?_ (fun hu => ?_) (c.csrWrite_priv ..) (c.csrWrite_xlen ..) hcsr
  · rcases htarget with ht | ht
    · rw [ht]
      intro h3
      rw [h3] at hle
      have : (3 : BitVec 32).toNat = 3 := rfl
      omega
    · rw [ht]
      decide
  · rcases htarget with ht | ht
    · rw [ht]
      intro h1
      rw [h1, hu] at hle
      exact absurd hle (by decide)
    · rw [ht]
      decide

theorem quiet_hsmEnter {c : CPU} (pc a : BitVec 64) (hp : c.priv = PRIV_S) :
    Quiet c (Machine.hsmEnter c pc a) := by
  have hcsr : ∀ b, (Machine.hsmEnter c pc a).csr b =
      if b = CSR_MSTATUS then c.csr CSR_MSTATUS &&& ~~~2#64 else if b = CSR_SATP then 0 else c.csr b := by
    intro b
    simp [Machine.hsmEnter, CPU.setCsr_apply]
  have hx : (Machine.hsmEnter c pc a).xlen = c.xlen := by simp [Machine.hsmEnter]
  have h1 : Quiet c (c.setCsr CSR_SATP 0) := by
    refine .of_low CSR_SATP (by decide) (fun hu => ?_) rfl rfl fun b hb => c.setCsr_csr_ne _ hb
    rw [hp] at hu
    cases hu
  refine h1.trans (.of_status ?_ hx ?_ ?_)
  · rw [CPU.hsmEnter_priv, CPU.setCsr_priv, hp]
  · intro b hb
    rw [hcsr, if_neg hb, CPU.setCsr_apply]
  · rw [hcsr, if_pos rfl, CPU.setCsr_csr_ne _ _ (by decide)]
    exact quietStatus_clearSie _ _

theorem quiet_act {ok : Guard} {c c' : CPU} (ha : HartAct ok c c') (hlow : c.priv.toNat ≤ 1) :
    Quiet c c' := by
  cases ha with
  | regWrite i v => exact .of_eq (by simp) (by simp) (by simp)
  | fwrite i v =>
    refine .of_status le_rfl rfl (fun a h => CPU.setCsr_csr_ne _ _ h) ?_
    have h : (c.fwriteD i v).csr CSR_MSTATUS =
        c.csr CSR_MSTATUS ||| MSTATUS_FS ||| 1#64 <<< (c.xlen.bits - 1) := CPU.setCsr_csr ..
    rw [h]
    exact quietStatus_dirty _ _
  | faccrue fl =>
    exact .of_low CSR_FCSR (by decide) (fun _ => by decide) rfl rfl fun a h => c.setCsr_csr_ne _ h
  | csrWrite a v hp _ => exact quiet_csrWrite v hp hlow
  | translate b va acc _ =>
    obtain ⟨t, ht⟩ := mmuTranslate_cpu c b va acc
    rw [ht]
    exact .of_eq rfl rfl rfl
  | mret hp _ =>
    refine absurd ?_ hp
    rw [BitVec.ult, decide_eq_true_iff, toNat_PRIV_M]
    omega
  | sret hp =>
    refine .of_status ?_ rfl (fun a h => c.setCsr_csr_ne _ h) ?_
    · have h1 : 1 ≤ c.priv.toNat := by
        rw [BitVec.ult, decide_eq_true_iff] at hp
        exact Nat.le_of_not_lt hp
      dsimp only
      rcases CPU.sppOf_cases (c.csr CSR_MSTATUS) with h | h <;> rw [h]
      · exact Nat.zero_le _
      · exact h1
    · have h : (c.setCsr CSR_MSTATUS (CPU.popS (c.csr CSR_MSTATUS))).csr CSR_MSTATUS = _ := c.setCsr_csr ..
      dsimp only
      rw [h]
      exact quietStatus_popS _ _
  | resume pc a hp _ => exact quiet_hsmEnter pc a hp
  | timer v armed hv _ =>
    refine .of_mip rfl rfl (fun a h => c.setCsr_csr_ne _ h) ?_
    have h : (c.setCsr CSR_MIP v).csr CSR_MIP = v := c.setCsr_csr ..
    dsimp only
    rw [h]
    exact quietMip_timer hv
  | refreshMip b hb =>
    refine .of_mip rfl rfl (fun a h => c.setCsr_csr_ne _ h) ?_
    rw [CPU.setCsr_csr]
    exact quietMip_refresh c b
  | _ => exact .of_eq rfl rfl rfl

/-- An act of the machine, seen from the hart that steps. -/
theorem quiet_machineAct {ok : Guard} {m m' : Machine} (ha : Act ok m m')
    (hlow : m.cpu.priv.toNat ≤ 1) : m'.self = m.self ∧ Quiet m.cpu m'.cpu := by
  cases ha with
  | hart c hc =>
    rw [Machine.cpu_setCpu]
    exact ⟨rfl, quiet_act hc hlow⟩
  | bus b _ => exact ⟨rfl, .refl _⟩
  | cache k => exact ⟨rfl, .refl _⟩
  | report d => exact ⟨rfl, .refl _⟩
  | breakReservation addr =>
    have hone : ∀ w, Quiet m.cpu (Machine.breakOne w m.cpu) := by
      intro w
      unfold Machine.breakOne
      split
      · exact .of_eq rfl rfl rfl
      · exact .refl _
    unfold Machine.breakReservation
    dsimp only
    split
    · refine ⟨rfl, ?_⟩
      unfold Machine.cpu
      dsimp only
      split
      · exact hone _
      · exact .refl _
    · rw [Machine.cpu_setCpu]
      exact ⟨rfl, hone _⟩
  | start t pc a hp _ hs =>
    refine ⟨rfl, ?_⟩
    by_cases ht : t = m.self
    · subst ht
      have h : (m.setHart m.self (Machine.hsmEnter (m.harts m.self) pc a)).cpu =
          Machine.hsmEnter m.cpu pc a := m.harts_setHart_self _ _
      rw [h]
      exact quiet_hsmEnter pc a hp
    · rw [m.cpu_setHart_of_ne _ ht]
      exact .refl _

/-- A run of acts below M is quiet. -/
theorem quiet_acts {ok : Guard} {m m' : Machine} (ha : Acts ok m m')
    (hlow : m.cpu.priv.toNat ≤ 1) : m'.self = m.self ∧ Quiet m.cpu m'.cpu := by
  refine Run.within (P := fun m => m.cpu.priv.toNat ≤ 1)
    (S := fun m m' => m'.self = m.self ∧ Quiet m.cpu m'.cpu) ?_ ?_ ?_ ?_ ha hlow
  · exact fun _ => ⟨rfl, .refl _⟩
  · rintro x y z ⟨hs, hq⟩ ⟨hs', hq'⟩
    exact ⟨hs'.trans hs, hq.trans hq'⟩
  · rintro x y ⟨_, hq⟩ hx
    exact le_trans hq.priv hx
  · intro x y hx hxy
    exact quiet_machineAct hxy hx

/-! ## Confinement -/

/-- The hart after the step entered a trap into M. -/
def TrappedIntoM (c : CPU) : Prop := c.trapped = true ∧ c.priv = PRIV_M

instance (c : CPU) : Decidable (TrappedIntoM c) := inferInstanceAs (Decidable (_ ∧ _))

/-- The MIE, MPIE and MPP bits of `mstatus`. -/
def mStatusBit (i : Nat) : Bool := decide (i = 3 ∨ i = 7 ∨ i = 11 ∨ i = 12)

/-- What a step from U or S may do to the hart that makes it. -/
structure Confined (c c' : CPU) : Prop where
  raised : c.priv.toNat < c'.priv.toNat → c'.trapped = true ∧
    ((c'.priv = PRIV_S ∧ c'.pc = CPU.trapPc c.xlen (c.csr CSR_STVEC) (c'.csr CSR_SCAUSE)) ∨
     (c'.priv = PRIV_M ∧ c'.pc = CPU.trapPc c.xlen (c.csr CSR_MTVEC) (c'.csr CSR_MCAUSE)))
  machine : ∀ a, csrPriv a = 3 → a ≠ CSR_MSTATUS → a ≠ CSR_MIE → a ≠ CSR_MIP → c'.csr a = c.csr a ∨
    (TrappedIntoM c' ∧ (a = CSR_MEPC ∨ a = CSR_MCAUSE ∨ a = CSR_MTVAL))
  mstatus : SameBits (fun i => statusWindow c.xlen i || decide (i = 17) ||
    (decide (TrappedIntoM c') && mStatusBit i)) (c.csr CSR_MSTATUS) (c'.csr CSR_MSTATUS)
  mprv : (c'.csr CSR_MSTATUS).getLsbD 17 = true → (c.csr CSR_MSTATUS).getLsbD 17 = true
  mie : SameBits S_INT_MASK.getLsbD (c.csr CSR_MIE) (c'.csr CSR_MIE)
  mip : QuietMip (c.csr CSR_MIP) (c'.csr CSR_MIP)
  supervisor : c.priv = PRIV_U → ∀ a, csrPriv a = 1 → c'.csr a = c.csr a ∨
    (c'.trapped = true ∧ c'.priv = PRIV_S)

theorem Quiet.confined {c c' : CPU} (h : Quiet c c') : Confined c c' where
  raised hlt := absurd h.priv (Nat.not_le.mpr hlt)
  machine a h3 h1 h2 hm := Or.inl (h.machine a h3 h1 h2 hm)
  mstatus := h.mstatus.same.mono fun i _ hf => by rw [hf, Bool.true_or]
  mprv := h.mstatus.mprv
  mie := h.mie
  mip := h.mip
  supervisor hu a ha := Or.inl (h.supervisor hu a ha)

/-- A trap into S after quiet acts. -/
theorem confined_enterS {c c1 : CPU} (h : Quiet c c1) (cause tval : BitVec 64) :
    Confined c (c1.enterTrap cause tval true) := by
  have hcsr := c1.enterTrap_csr_S cause tval
  have hsame : ∀ a, csrPriv a = 3 → a ≠ CSR_MSTATUS → (c1.enterTrap cause tval true).csr a = c1.csr a := by
    intro a ha hne
    rw [hcsr, if_neg hne, if_neg (by rintro rfl; exact absurd ha (by decide)),
      if_neg (by rintro rfl; exact absurd ha (by decide)), if_neg (by rintro rfl; exact absurd ha (by decide))]
  constructor
  case raised =>
    intro hlt
    refine ⟨rfl, Or.inl ⟨rfl, ?_⟩⟩
    have hu : c.priv = PRIV_U := by
      rw [c1.enterTrap_priv, if_pos rfl] at hlt
      exact BitVec.eq_of_toNat_eq (Nat.lt_one_iff.mp hlt)
    rw [c1.enterTrap_pc_S, h.xlen, h.supervisor hu CSR_STVEC (by decide)]
    rfl
  case machine =>
    intro a ha h1 h2 h3
    rw [hsame a ha h1]
    exact Or.inl (h.machine a ha h1 h2 h3)
  case mstatus =>
    rw [hcsr, if_pos rfl]
    refine SameBits.trans (h.mstatus.same.mono fun i _ hf => by rw [hf, Bool.true_or]) ?_
    intro i hi hf
    unfold statusWindow at hf
    dsimp only at hf
    rw [sstatusMask_eq hi] at hf
    rw [CPU.getLsbD_pushS _ _ hi]
    grind
  case mprv =>
    rw [hcsr, if_pos rfl, CPU.getLsbD_pushS _ _ (by decide)]
    exact h.mstatus.mprv
  case mie =>
    rw [hsame _ (by decide) (by decide)]
    exact h.mie
  case mip =>
    rw [hsame _ (by decide) (by decide)]
    exact h.mip
  case supervisor => exact fun _ _ _ => Or.inr ⟨rfl, rfl⟩

/-- A trap into M after quiet acts. -/
theorem confined_enterM {c c1 : CPU} (h : Quiet c c1) (hlow : c1.priv.toNat ≤ 1) (cause tval : BitVec 64) :
    Confined c (c1.enterTrap cause tval false) := by
  have hcsr := c1.enterTrap_csr_M cause tval
  have htrap : TrappedIntoM (c1.enterTrap cause tval false) := ⟨rfl, rfl⟩
  constructor
  case raised =>
    intro _
    refine ⟨rfl, Or.inr ⟨rfl, ?_⟩⟩
    rw [c1.enterTrap_pc_M, h.xlen, h.machine CSR_MTVEC (by decide) (by decide) (by decide) (by decide)]
    rfl
  case machine =>
    intro a ha h1 h2 h3
    by_cases hrec : a = CSR_MEPC ∨ a = CSR_MCAUSE ∨ a = CSR_MTVAL
    · exact Or.inr ⟨htrap, hrec⟩
    · push Not at hrec
      rw [hcsr, if_neg h1, if_neg hrec.2.2, if_neg hrec.2.1, if_neg hrec.1]
      exact Or.inl (h.machine a ha h1 h2 h3)
  case mstatus =>
    rw [hcsr, if_pos rfl]
    refine SameBits.trans (h.mstatus.same.mono fun i _ hf => by rw [hf, Bool.true_or]) ?_
    intro i hi hf
    dsimp only at hf
    rw [decide_eq_true htrap, Bool.true_and, Bool.or_eq_false_iff] at hf
    have hm := hf.2
    unfold mStatusBit at hm
    rw [CPU.getLsbD_pushM _ (by omega) hi]
    grind
  case mprv =>
    rw [hcsr, if_pos rfl, CPU.getLsbD_pushM _ (by omega) (by decide)]
    exact h.mstatus.mprv
  case mie =>
    rw [hcsr, if_neg (by decide), if_neg (by decide), if_neg (by decide), if_neg (by decide)]
    exact h.mie
  case mip =>
    rw [hcsr, if_neg (by decide), if_neg (by decide), if_neg (by decide), if_neg (by decide)]
    exact h.mip
  case supervisor =>
    intro hu a ha
    refine Or.inl ?_
    rw [hcsr, if_neg (by rintro rfl; exact absurd ha (by decide)), if_neg (by rintro rfl; exact absurd ha (by decide)),
      if_neg (by rintro rfl; exact absurd ha (by decide)), if_neg (by rintro rfl; exact absurd ha (by decide))]
    exact h.supervisor hu a ha

/-- A step from U or S is confined, whatever it executes and whatever interrupt is pending; and an
SRET from S returns to U or S. -/
theorem privilege_confined (dc : Option DecodeCache) (m : Machine)
    (hp : m.cpu.priv = PRIV_U ∨ m.cpu.priv = PRIV_S) :
    Confined m.cpu ((m.step dc).2.harts m.self) ∧
    (m.cpu.priv = PRIV_S → m.execSret.1.cpu.priv = PRIV_U ∨ m.execSret.1.cpu.priv = PRIV_S) := by
  have hlow : m.cpu.priv.toNat ≤ 1 := by
    rcases hp with h | h <;> rw [h] <;> decide
  refine ⟨?_, fun hs => ?_⟩
  · have hstep : StepOut .free m.beginStep (m.step dc).2 := 
      Machine.stepOut_free dc m
    obtain ⟨m1, hacts, hend⟩ := hstep
    obtain ⟨hself, hquiet⟩ := quiet_acts (m.acts_beginStep.trans hacts) hlow
    rw [← hself]
    rcases hend with hend | hend
    · rw [hend]
      exact hquiet.confined
    · generalize (m.step dc).2 = m' at hend
      cases hend with
      | mk cause tval toS _ _ =>
        rw [m1.harts_setCpu_self]
        cases toS with
        | false => exact confined_enterM hquiet (le_trans hquiet.priv hlow) cause tval
        | true => exact confined_enterS hquiet cause tval
  · unfold Machine.execSret
    dsimp only
    rw [if_neg (by rw [hs]; decide), Machine.cpu_setCpu]
    exact CPU.sppOf_cases _

/-- A hart in S about to execute a NOP, with bit 40 of `mip` set. -/
def highMipMachine : Machine :=
  let m := Machine.load .rv64 1 0x80000000 0x1000 0x80000000 [0x00000013]
  m.setCpu ({ m.cpu with priv := PRIV_S }.setCsr CSR_MIP (1#64 <<< 40))

theorem privilege_confined_highMip :
    Confined highMipMachine.cpu ((highMipMachine.step none).2.harts highMipMachine.self) :=
  (privilege_confined none highMipMachine (Or.inr (by decide +kernel))).1

/-- The prologue's refresh of `mip` keeps 32 bits: bit 40, neither a supervisor-interrupt nor a
device-driven bit, is lost in a step from S that traps on nothing. -/
theorem highMip_cleared :
    highMipMachine.cpu.priv = PRIV_S ∧ mipShared 40 = false ∧
    (highMipMachine.cpu.csr CSR_MIP).getLsbD 40 = true ∧
    ((highMipMachine.step none).2.harts highMipMachine.self).trapped = false ∧
    (((highMipMachine.step none).2.harts highMipMachine.self).csr CSR_MIP).getLsbD 40 = false := by
  decide +kernel

end Quanta
