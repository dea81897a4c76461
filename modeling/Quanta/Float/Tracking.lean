/-
Tracking of the floating-point state. Writing an f register marks `mstatus.FS` dirty and sets the
summary bit SD; accruing flags into `fcsr` and writing `fcsr` through its CSRs do not, and a write
of `mstatus` or `sstatus` stores FS and SD as they come. An instruction that avoids these leaves the
FP state with its marks or leaves it marked, so SD summarises FS along every run of such steps.
-/
import Quanta.Privilege.Levels

namespace Quanta

open Relation Run

/-! ## The marks -/

namespace CPU

/-- `mstatus.FS` is Dirty. -/
def fsDirty (c : CPU) : Bool := (c.csr CSR_MSTATUS).getLsbD 13 && (c.csr CSR_MSTATUS).getLsbD 14

/-- `mstatus.SD`, the top bit of XLEN. -/
def sd (c : CPU) : Bool := (c.csr CSR_MSTATUS).getLsbD (c.xlen.bits - 1)

/-- FS is Dirty and SD says so. -/
structure Dirty (c : CPU) : Prop where
  fs : c.fsDirty = true
  sd : c.sd = true

/-- SD is set exactly when FS is Dirty. -/
def Summarised (c : CPU) : Prop := c.sd = c.fsDirty

/-- The f registers, `fcsr` and the marks are the same. -/
structure SameFp (c c' : CPU) : Prop where
  fregs : c'.fregs = c.fregs
  fcsr : c'.csr CSR_FCSR = c.csr CSR_FCSR
  fs : c'.fsDirty = c.fsDirty
  sd : c'.sd = c.sd

/-- The FP state is kept with its marks, or is marked dirty. -/
def Tracked (c c' : CPU) : Prop := c.SameFp c' ∨ c'.Dirty

variable {c c' c'' : CPU}

theorem SameFp.refl (c : CPU) : c.SameFp c := ⟨rfl, rfl, rfl, rfl⟩

theorem SameFp.trans (h : c.SameFp c') (h' : c'.SameFp c'') : c.SameFp c'' :=
  ⟨h'.fregs.trans h.fregs, h'.fcsr.trans h.fcsr, h'.fs.trans h.fs, h'.sd.trans h.sd⟩

theorem SameFp.dirty (h : c.SameFp c') (hd : c.Dirty) : c'.Dirty := ⟨h.fs.trans hd.fs, h.sd.trans hd.sd⟩

theorem Dirty.summarised (h : c.Dirty) : c.Summarised := h.sd.trans h.fs.symm

namespace Tracked

theorem refl (c : CPU) : c.Tracked c := Or.inl (.refl c)

theorem summarised (h : c.Tracked c') (hs : c.Summarised) : c'.Summarised := by
  rcases h with hsame | hdirty
  · exact hsame.sd.trans (hs.trans hsame.fs.symm)
  · exact hdirty.summarised

/-- A change of the FP state leaves it marked. -/
theorem marked (h : c.Tracked c') (hch : c'.fregs ≠ c.fregs ∨ c'.csr CSR_FCSR ≠ c.csr CSR_FCSR) : c'.Dirty := by
  rcases h with hsame | hdirty
  · rcases hch with hf | hf
    · exact absurd hsame.fregs hf
    · exact absurd hsame.fcsr hf
  · exact hdirty

end Tracked

/-! ## Updates of one hart -/

/-- The marks are four bits of `mstatus`. -/
theorem sameFp_of_status (hf : c'.fregs = c.fregs) (hc : c'.csr CSR_FCSR = c.csr CSR_FCSR) (hx : c'.xlen = c.xlen)
    (hs : ∀ i ∈ [13, 14, 31, 63], (c'.csr CSR_MSTATUS).getLsbD i = (c.csr CSR_MSTATUS).getLsbD i) :
    c.SameFp c' where
  fregs := hf
  fcsr := hc
  fs := by
    unfold fsDirty
    rw [hs 13 (by decide), hs 14 (by decide)]
  sd := by
    unfold sd
    rw [hx]
    cases c.xlen with
    | rv32 => exact hs 31 (by decide)
    | rv64 => exact hs 63 (by decide)

theorem sameFp_setCsr (c : CPU) {a : BitVec 12} (ha : a ≠ CSR_FCSR) (hm : a ≠ CSR_MSTATUS) (v : BitVec 64) :
    c.SameFp (c.setCsr a v) := by
  have hst : (c.setCsr a v).csr CSR_MSTATUS = c.csr CSR_MSTATUS := c.setCsr_csr_ne v hm.symm
  refine sameFp_of_status rfl (c.setCsr_csr_ne v ha.symm) rfl fun i _ => ?_
  rw [hst]

theorem sameFp_regWrite (c : CPU) (i : BitVec 5) (v : BitVec 64) : c.SameFp (c.regWrite i v) := by
  unfold regWrite
  split <;> exact ⟨rfl, rfl, rfl, rfl⟩

theorem dirty_markFsDirty (c : CPU) : c.markFsDirty.Dirty := by
  have hst : c.markFsDirty.csr CSR_MSTATUS = c.csr CSR_MSTATUS ||| MSTATUS_FS ||| (1#64 <<< (c.xlen.bits - 1)) := by
    unfold markFsDirty
    rw [setCsr_apply, if_pos rfl]
  constructor
  · unfold fsDirty
    rw [hst]
    simp [MSTATUS_FS]
  · unfold sd
    rw [hst, show c.markFsDirty.xlen = c.xlen from rfl, BitVec.getLsbD_or]
    cases c.xlen <;> exact Bool.or_true _

theorem dirty_fwrite (c : CPU) (wide : Bool) (i : BitVec 5) (v : BitVec 64) : (c.fwrite wide i v).Dirty := by
  unfold fwrite
  split <;> exact dirty_markFsDirty _

theorem sameFp_setStatus (c : CPU) {v : BitVec 64}
    (h : ∀ i ∈ [13, 14, 31, 63], v.getLsbD i = (c.csr CSR_MSTATUS).getLsbD i) : c.SameFp (c.setCsr CSR_MSTATUS v) := by
  refine sameFp_of_status rfl (c.setCsr_csr_ne v (show CSR_FCSR ≠ CSR_MSTATUS by decide)) rfl fun i hi => ?_
  rw [setCsr_apply, if_pos rfl]
  exact h i hi

theorem marks_popM (s : BitVec 64) : ∀ i ∈ [13, 14, 31, 63], (popM s).getLsbD i = s.getLsbD i := by
  intro i hi
  simp only [List.mem_cons, List.not_mem_nil, or_false] at hi
  rcases hi with rfl | rfl | rfl | rfl <;> exact getLsbD_popM _ (by decide)

theorem marks_popS (s : BitVec 64) : ∀ i ∈ [13, 14, 31, 63], (popS s).getLsbD i = s.getLsbD i := by
  intro i hi
  simp only [List.mem_cons, List.not_mem_nil, or_false] at hi
  rcases hi with rfl | rfl | rfl | rfl <;> exact getLsbD_popS _ (by decide)

/-- A trap entry keeps the marks; MPP has room for the privilege of any reachable state. -/
theorem sameFp_enterTrap (hp : c.priv.toNat < 4) (cause tval : BitVec 64) (toS : Bool) :
    c.SameFp (c.enterTrap cause tval toS) := by
  cases toS with
  | true =>
    refine sameFp_of_status (enterTrap_fregs ..) (c.enterTrap_csr_S cause tval _) (enterTrap_xlen ..) fun i hi => ?_
    rw [enterTrap_csr_S, if_pos rfl]
    simp only [List.mem_cons, List.not_mem_nil, or_false] at hi
    rcases hi with rfl | rfl | rfl | rfl <;> exact getLsbD_pushS _ _ (by decide)
  | false =>
    refine sameFp_of_status (enterTrap_fregs ..) (c.enterTrap_csr_M cause tval _) (enterTrap_xlen ..) fun i hi => ?_
    rw [enterTrap_csr_M, if_pos rfl]
    simp only [List.mem_cons, List.not_mem_nil, or_false] at hi
    rcases hi with rfl | rfl | rfl | rfl <;> exact getLsbD_pushM _ hp (by decide)

theorem sameFp_hsmEnter (c : CPU) (pc a : BitVec 64) : c.SameFp (Machine.hsmEnter c pc a) := by
  let t : CPU := { c with pc := pc, priv := PRIV_S }
  let d : CPU := (t.regWrite Machine.REG_A0 (t.hartid.setWidth 64)).regWrite Machine.REG_A1 a
  have hargs : c.SameFp d :=
    (show c.SameFp t from ⟨rfl, rfl, rfl, rfl⟩).trans ((sameFp_regWrite _ _ _).trans (sameFp_regWrite _ _ _))
  have hsatp : d.SameFp (d.setCsr CSR_SATP 0) := d.sameFp_setCsr (by decide) (by decide) 0
  have hmask : ∀ i ∈ [13, 14, 31, 63], (2#64).getLsbD i = false := by decide
  have hsie := (d.setCsr CSR_SATP 0).sameFp_setStatus (v := (d.setCsr CSR_SATP 0).csr CSR_MSTATUS &&& ~~~2#64)
    fun i hi => by
      rw [BitVec.getLsbD_and, BitVec.getLsbD_not, hmask i hi, Bool.not_false, Bool.and_true]
      simp only [List.mem_cons, List.not_mem_nil, or_false] at hi
      rw [decide_eq_true (by omega), Bool.and_true]
  have hall := hargs.trans (hsatp.trans hsie)
  exact ⟨hall.fregs, hall.fcsr, hall.fs, hall.sd⟩

/-! ## CSR writes -/

/-- What the architecture asks of an instruction that takes `c` to `c'`: a changed FP state is marked,
and SD summarises FS. -/
structure Marks (c c' : CPU) : Prop where
  marked : c'.fregs ≠ c.fregs ∨ c'.csr CSR_FCSR ≠ c.csr CSR_FCSR → c'.Dirty
  summary : c'.Summarised

theorem Tracked.marks (h : c.Tracked c') (hs : c.Summarised) : c.Marks c' := ⟨h.marked, h.summarised hs⟩

/-- What happens after keeps the FP state, so it changes nothing. -/
theorem SameFp.marks_iff {d : CPU} (h : c'.SameFp d) : c.Marks d ↔ c.Marks c' := by
  have hdirty : d.Dirty ↔ c'.Dirty :=
    ⟨fun hd => ⟨h.fs.symm.trans hd.fs, h.sd.symm.trans hd.sd⟩, h.dirty⟩
  have hsum : d.Summarised ↔ c'.Summarised := by
    unfold Summarised
    rw [h.fs, h.sd]
  constructor
  · rintro ⟨hm, hs⟩
    rw [h.fregs, h.fcsr] at hm
    exact ⟨fun hch => hdirty.mp (hm hch), hsum.mp hs⟩
  · rintro ⟨hm, hs⟩
    refine ⟨fun hch => hdirty.mpr (hm ?_), hsum.mpr hs⟩
    rw [h.fregs, h.fcsr] at hch
    exact hch

/-- What happened before kept the FP state, so it is judged from there. -/
theorem SameFp.marks_from {d : CPU} (h : c.SameFp c') : c.Marks d ↔ c'.Marks d := by
  constructor
  · rintro ⟨hm, hs⟩
    refine ⟨fun hch => hm ?_, hs⟩
    rw [h.fregs, h.fcsr] at hch
    exact hch
  · rintro ⟨hm, hs⟩
    refine ⟨fun hch => hm ?_, hs⟩
    rw [h.fregs, h.fcsr]
    exact hch

/-- The CSR writes that keep the tracking right: `fcsr` and its windows change only when FS is already
Dirty, a value for `mstatus` has SD set exactly when its FS is Dirty, and one for `sstatus` has a
Dirty FS exactly when SD, which the window leaves alone, is set. -/
structure CsrSafe (c : CPU) (a : BitVec 12) (v : BitVec 64) : Prop where
  fcsr : csrTarget a = CSR_FCSR → c.csrStored a v = c.csr CSR_FCSR ∨ c.Dirty
  mstatus : a = CSR_MSTATUS → v.getLsbD (c.xlen.bits - 1) = (v.getLsbD 13 && v.getLsbD 14)
  sstatus : a = CSR_SSTATUS → c.sd = (v.getLsbD 13 && v.getLsbD 14)

theorem csrTarget_status {a : BitVec 12} (h : csrTarget a = CSR_MSTATUS) : a = CSR_MSTATUS ∨ a = CSR_SSTATUS := by
  unfold csrTarget at h
  split at h
  · cases h
  split at h
  · exact Or.inr ‹_›
  split at h
  · cases h
  split at h
  · cases h
  · exact Or.inl h

/-- A change of `fcsr` alone is marked only if the FP state was dirty before. -/
theorem marks_iff_of_fcsr (hs : c.Summarised) (hfregs : c'.fregs = c.fregs) (hfs : c'.fsDirty = c.fsDirty)
    (hsd : c'.sd = c.sd) : c.Marks c' ↔ c'.csr CSR_FCSR = c.csr CSR_FCSR ∨ c.Dirty := by
  constructor
  · rintro ⟨hm, _⟩
    by_cases heq : c'.csr CSR_FCSR = c.csr CSR_FCSR
    · exact Or.inl heq
    · have hd := hm (Or.inr heq)
      exact Or.inr ⟨hfs.symm.trans hd.fs, hsd.symm.trans hd.sd⟩
  · intro h
    refine ⟨?_, hsd.trans (hs.trans hfs.symm)⟩
    rintro (hch | hch)
    · exact absurd hfregs hch
    · rcases h with heq | hd
      · exact absurd heq hch
      · exact ⟨hfs.trans hd.fs, hsd.trans hd.sd⟩

theorem marks_csrWrite_fcsr (hs : c.Summarised) {a : BitVec 12} (h : csrTarget a = CSR_FCSR) (v : BitVec 64) :
    c.Marks (c.csrWrite a v) ↔ c.csrStored a v = c.csr CSR_FCSR ∨ c.Dirty := by
  have hf : (c.csrWrite a v).csr CSR_FCSR = c.csrStored a v := by rw [csrWrite_csr, if_pos h.symm]
  have hst : (c.csrWrite a v).csr CSR_MSTATUS = c.csr CSR_MSTATUS := by
    rw [csrWrite_csr, if_neg (by rw [h]; decide)]
  rw [← hf]
  refine marks_iff_of_fcsr hs ?_ ?_ ?_
  · rw [csrWrite_eq]
    rfl
  · unfold fsDirty
    rw [hst]
  · unfold sd
    rw [hst, csrWrite_xlen]

/-- A write that lands in `mstatus` is judged by the marks it leaves there. -/
theorem marks_csrWrite_status {a : BitVec 12} (h : csrTarget a = CSR_MSTATUS) (v : BitVec 64) :
    c.Marks (c.csrWrite a v) ↔
      (c.csrStored a v).getLsbD (c.xlen.bits - 1) = ((c.csrStored a v).getLsbD 13 && (c.csrStored a v).getLsbD 14) := by
  have hst : (c.csrWrite a v).csr CSR_MSTATUS = c.csrStored a v := by rw [csrWrite_csr, if_pos h.symm]
  have hf : (c.csrWrite a v).csr CSR_FCSR = c.csr CSR_FCSR := by
    rw [csrWrite_csr, if_neg (by rw [h]; decide)]
  have hfregs : (c.csrWrite a v).fregs = c.fregs := by
    rw [csrWrite_eq]
    rfl
  have hsum : (c.csrWrite a v).Summarised ↔
      (c.csrStored a v).getLsbD (c.xlen.bits - 1) = ((c.csrStored a v).getLsbD 13 && (c.csrStored a v).getLsbD 14) := by
    unfold Summarised fsDirty sd
    rw [hst, csrWrite_xlen]
  rw [← hsum]
  constructor
  · exact Marks.summary
  · intro hs
    refine ⟨?_, hs⟩
    rintro (hch | hch)
    · exact absurd hfregs hch
    · exact absurd hf hch

/-- `sstatus` shows FS but not SD. -/
theorem getLsbD_sstatus (xlen : Xlen) (s v : BitVec 64) :
    (window SSTATUS_MASK s v).getLsbD (xlen.bits - 1) = s.getLsbD (xlen.bits - 1) ∧
    (window SSTATUS_MASK s v).getLsbD 13 = v.getLsbD 13 ∧ (window SSTATUS_MASK s v).getLsbD 14 = v.getLsbD 14 := by
  refine ⟨?_, getLsbD_window s _ v (by decide), getLsbD_window s _ v (by decide)⟩
  cases xlen <;> exact getLsbD_window s _ v (by decide)

/-- A CSR write keeps the tracking right exactly when it is one of the safe ones. -/
theorem marks_csrWrite (hs : c.Summarised) (a : BitVec 12) (v : BitVec 64) :
    c.Marks (c.csrWrite a v) ↔ c.CsrSafe a v := by
  by_cases hfc : csrTarget a = CSR_FCSR
  · have hm : a ≠ CSR_MSTATUS := by rintro rfl; exact absurd hfc (by decide)
    have hss : a ≠ CSR_SSTATUS := by rintro rfl; exact absurd hfc (by decide)
    rw [marks_csrWrite_fcsr hs hfc]
    exact ⟨fun h => ⟨fun _ => h, fun h' => absurd h' hm, fun h' => absurd h' hss⟩, fun h => h.fcsr hfc⟩
  by_cases hst : csrTarget a = CSR_MSTATUS
  · rw [marks_csrWrite_status hst]
    rcases csrTarget_status hst with rfl | rfl
    · exact ⟨fun h => ⟨fun h' => absurd h' (by decide), fun _ => h, fun h' => absurd h' (by decide)⟩,
        fun h => h.mstatus rfl⟩
    · have hstored : c.csrStored CSR_SSTATUS v = window SSTATUS_MASK (c.csr CSR_MSTATUS) v := rfl
      obtain ⟨htop, h13, h14⟩ := getLsbD_sstatus c.xlen (c.csr CSR_MSTATUS) v
      rw [hstored, htop, h13, h14]
      exact ⟨fun h => ⟨fun h' => absurd h' (by decide), fun h' => absurd h' (by decide), fun _ => h⟩,
        fun h => h.sstatus rfl⟩
  · have hm : a ≠ CSR_MSTATUS := by rintro rfl; exact hst (by decide)
    have hss : a ≠ CSR_SSTATUS := by rintro rfl; exact hst (by decide)
    have hsame : c.SameFp (c.csrWrite a v) := by
      refine sameFp_of_status ?_ ?_ (csrWrite_xlen ..) fun i _ => ?_
      · rw [csrWrite_eq]
        rfl
      · rw [csrWrite_csr, if_neg (Ne.symm hfc)]
      · rw [csrWrite_csr, if_neg (Ne.symm hst)]
    exact iff_of_true (Tracked.marks (Or.inl hsame) hs)
      ⟨fun h => absurd h hfc, fun h => absurd h hm, fun h => absurd h hss⟩

end CPU

/-! ## What keeps the FP state -/

/-- A privilege that fits MPP. -/
def LowPriv (c : CPU) : Prop := c.priv.toNat < 4

/-- Whatever software does, the privilege fits MPP. -/
theorem lowPriv_inv (ok : Guard) : HartInv ok LowPriv LowPriv where
  act c c' h hc := by
    unfold LowPriv at hc ⊢
    rcases h.priv_cases with heq | ⟨_, heq⟩ | heq | heq
    · rw [heq]
      exact hc
    · rw [heq]
      exact mppOf_lt _
    · rw [heq]
      decide
    · rw [heq]
      decide
  unreserve _ h := h
  start c pc a _ _ _ := by
    unfold LowPriv
    rw [CPU.hsmEnter_priv]
    decide
  startSelf c pc a _ _ _ := by
    unfold LowPriv
    rw [CPU.hsmEnter_priv]
    decide
  begin _ _ h := h
  enter c cause tval toS _ _ := by
    unfold LowPriv
    rw [CPU.enterTrap_priv]
    cases toS <;> decide
  rest _ h := h

/-- No FP instruction, and every write of a CSR or of the timer latch keeps the FP state. -/
def fpQuiet : Guard := { Guard.free with fp := False, edit := CPU.SameFp }

theorem fpQuiet_ticks : fpQuiet.Ticks := by
  intro c v armed
  have h := c.sameFp_setCsr (a := CSR_MIP) (by decide) (by decide) v
  exact ⟨h.fregs, h.fcsr, h.fs, h.sd⟩

theorem keeps_sameFp : Keeps fpQuiet CPU.SameFp where
  refl := .refl
  trans := .trans
  act c c' h := by
    cases h with
    | regWrite i v => exact c.sameFp_regWrite i v
    | fwrite i v hfp => exact hfp.elim
    | faccrue fl hfp => exact hfp.elim
    | csrWrite addr v _ hok => exact hok
    | translate b va acc _ =>
      obtain ⟨t, ht⟩ := mmuTranslate_cpu c b va acc
      rw [ht]
      exact ⟨rfl, rfl, rfl, rfl⟩
    | mret _ _ =>
      have h := c.sameFp_setStatus (CPU.marks_popM (c.csr CSR_MSTATUS))
      exact ⟨h.fregs, h.fcsr, h.fs, h.sd⟩
    | sret _ =>
      have h := c.sameFp_setStatus (CPU.marks_popS (c.csr CSR_MSTATUS))
      exact ⟨h.fregs, h.fcsr, h.fs, h.sd⟩
    | resume pc a _ _ => exact c.sameFp_hsmEnter pc a
    | timer v armed _ hok => exact hok
    | refreshMip b _ hok => exact hok
    | _ => exact ⟨rfl, rfl, rfl, rfl⟩
  start := CPU.sameFp_hsmEnter

namespace Machine

variable {m m' : Machine}

/-- The stepped hart keeps its FP state and the marks. -/
def KeepsFp (m m' : Machine) : Prop := m.cpu.SameFp m'.cpu

theorem keepsFp_stepOut (hp : LowPriv m.cpu) (h : StepOut fpQuiet m m') : KeepsFp m m' := by
  refine keeps_sameFp.stepOut h fun x hx y he => ?_
  have hlow : LowPriv x.cpu := (lowPriv_inv fpQuiet).acts_cpu hx hp
  cases he with
  | mk cause tval toS _ _ =>
    rw [cpu_setCpu]
    exact CPU.sameFp_enterTrap hlow cause tval toS

theorem keepsFp_out (hp : LowPriv m.cpu) (h : Out fpQuiet m m') : KeepsFp m m' := by
  obtain ⟨m1, hacts, hend⟩ := h
  exact keepsFp_stepOut hp ⟨m1, hacts, hend.imp_right And.right⟩

theorem keepsFp_illegal (hf : m.bus.mem.fault = false) (hp : LowPriv m.cpu) (inst : BitVec 32) :
    KeepsFp m (m.illegal inst) :=
  keepsFp_out hp (out_illegal hf inst)

/-- Everything but the FP instructions that write, and the Zicsr ones. -/
theorem keepsFp_dispatch (hf : m.bus.mem.fault = false) (hp : LowPriv m.cpu) {inst : BitVec 32}
    (hfp : writesFp inst = false) (hsys : opcode inst = .system → funct3 inst = 0x0#3) (ilen : BitVec 32) :
    KeepsFp m (m.dispatch inst ilen).1 := by
  refine keepsFp_out hp (out_dispatch hf (fun _ _ _ => trivial) ilen
    ⟨fun _ _ => trivial, fun _ => trivial, fun _ _ => trivial, fun h => ?_⟩
    ⟨fun hop h3 => absurd (hsys hop) h3, fun _ _ => fpQuiet_ticks ..⟩)
  rw [hfp] at h
  cases h

/-- An FP load writes its f register, whatever it read. -/
theorem tracked_loadFp (hf : m.bus.mem.fault = false) (hp : LowPriv m.cpu) {inst : BitVec 32}
    (hop : opcode inst = .loadFp) (ilen : BitVec 32) : m.cpu.Tracked (m.dispatch inst ilen).1.cpu := by
  have htr : m.translation inst = some (m.loadVa inst, .load) := by
    unfold translation
    rw [hop]
  cases ht : m.translate (m.loadVa inst) .load with
  | mk r m1 =>
    rw [dispatch_translated htr ht]
    cases r with
    | error cause => exact Or.inl (keepsFp_out hp (out_pageFault hf trivial ht))
    | ok pa =>
      have hacts : Acts fpQuiet m (m1.cacheAccess pa false) :=
        (acts_translate_eq trivial ht).trans (m1.acts_cacheAccess pa false)
      have hf1 : (m1.cacheAccess pa false).bus.mem.fault = false := by
        rw [bus_cacheAccess]
        exact translate_fault hf ht
      unfold continueAt accessAt
      rw [hop]
      dsimp only
      split
      · rw [cpu_setCpu]
        exact Or.inr (CPU.dirty_markFsDirty _)
      · rw [cpu_setCpu]
        exact Or.inr (CPU.dirty_markFsDirty _)
      · exact Or.inl (keepsFp_out hp (.after hacts (out_illegal hf1 inst)))

theorem dirty_faccrue {c : CPU} (h : c.Dirty) (fl : BitVec 32) : (c.faccrue fl).Dirty := ⟨h.fs, h.sd⟩

theorem tracked_execFmadd (hf : m.bus.mem.fault = false) (hp : LowPriv m.cpu) (inst : BitVec 32) (flipA flipC : Bool) :
    m.cpu.Tracked (m.execFmadd inst flipA flipC).cpu := by
  unfold execFmadd
  dsimp only
  split
  · exact Or.inl (keepsFp_illegal hf hp inst)
  · rw [cpu_setCpu]
    exact Or.inr (dirty_faccrue (CPU.dirty_fwrite ..) _)

/-! ## One instruction -/

/-- The value a Zicsr instruction writes. -/
def csrValue (m : Machine) (inst : BitVec 32) : BitVec 64 :=
  csrNew inst (if csrReads inst then m.cpu.csrRead m.bus (csrField inst) else 0) (csrSrc m.cpu inst)

/-- The instruction keeps the tracking right: an OP-FP instruction that only writes an x register
raises no new flag unless FS is already Dirty, and a CSR write is a safe one. -/
structure FpSafe (m : Machine) (inst : BitVec 32) : Prop where
  accrue : opcode inst = .fp → (1#2).ult (fpFmt inst) = false →
    ∀ v fl, fpResult m.cpu inst (decide (fpFmt inst = 1#2)) = .writeX v fl →
      (m.cpu.faccrue fl).csr CSR_FCSR = m.cpu.csr CSR_FCSR ∨ m.cpu.Dirty
  csr : opcode inst = .system → funct3 inst ≠ 0x0#3 → funct3 inst ≠ 0x4#3 → csrDenied m.cpu inst = false →
    csrWrites inst = true → m.cpu.CsrSafe (csrField inst) (m.csrValue inst)

section Instruction

variable {inst : BitVec 32}

theorem fpSafe_of_opcode (hfp : opcode inst ≠ .fp) (hsys : opcode inst ≠ .system) : FpSafe m inst :=
  ⟨fun h => absurd h hfp, fun h => absurd h hsys⟩

theorem KeepsFp.marks (h : KeepsFp m m') (hs : m.cpu.Summarised) : m.cpu.Marks m'.cpu :=
  CPU.Tracked.marks (Or.inl h) hs

theorem marks_execFp (hs : m.cpu.Summarised) (hf : m.bus.mem.fault = false) (hp : LowPriv m.cpu)
    (hop : opcode inst = .fp) :
    m.cpu.Marks (m.execFp inst).cpu ↔ FpSafe m inst := by
  have hsys : opcode inst ≠ .system := by rw [hop]; decide
  unfold execFp
  cases hfmt : (1#2).ult (fpFmt inst) with
  | true =>
    rw [if_pos rfl]
    exact iff_of_true ((keepsFp_illegal hf hp inst).marks hs)
      ⟨fun _ h => absurd hfmt (by rw [h]; decide), fun h => absurd h hsys⟩
  | false =>
    rw [if_neg (by decide)]
    dsimp only
    cases hr : fpResult m.cpu inst (decide (fpFmt inst = 1#2)) with
    | illegal =>
      refine iff_of_true ((keepsFp_illegal hf hp inst).marks hs) ⟨fun _ _ v fl h => ?_, fun h => absurd h hsys⟩
      rw [hr] at h
      cases h
    | writeF v fl =>
      dsimp only
      rw [cpu_setCpu]
      refine iff_of_true (CPU.Tracked.marks (Or.inr (dirty_faccrue (CPU.dirty_fwrite ..) _)) hs)
        ⟨fun _ _ v fl h => ?_, fun h => absurd h hsys⟩
      rw [hr] at h
      cases h
    | writeX v fl =>
      dsimp only
      rw [cpu_setCpu]
      have hsame := m.cpu.sameFp_regWrite (rd inst) v
      have hf : ((m.cpu.regWrite (rd inst) v).faccrue fl).csr CSR_FCSR = (m.cpu.faccrue fl).csr CSR_FCSR := by
        unfold CPU.faccrue
        rw [CPU.setCsr_apply, CPU.setCsr_apply, if_pos rfl, if_pos rfl, hsame.fcsr]
      have hiff : m.cpu.Marks ((m.cpu.regWrite (rd inst) v).faccrue fl) ↔
          ((m.cpu.regWrite (rd inst) v).faccrue fl).csr CSR_FCSR = m.cpu.csr CSR_FCSR ∨ m.cpu.Dirty :=
        CPU.marks_iff_of_fcsr hs hsame.fregs hsame.fs hsame.sd
      rw [hiff, hf]
      constructor
      · intro h
        refine ⟨fun _ _ v' fl' h' => ?_, fun h' => absurd h' hsys⟩
        rw [hr] at h'
        cases h'
        exact h
      · intro h
        exact h.accrue hop hfmt v fl hr

theorem marks_execCsr (hs : m.cpu.Summarised) (hf : m.bus.mem.fault = false) (hp : LowPriv m.cpu)
    (hop : opcode inst = .system) (h0 : funct3 inst ≠ 0x0#3) (h4 : funct3 inst ≠ 0x4#3) :
    m.cpu.Marks (m.execCsr inst).cpu ↔ FpSafe m inst := by
  have hfp : opcode inst ≠ .fp := by rw [hop]; decide
  unfold execCsr
  dsimp only
  cases hd : csrDenied m.cpu inst with
  | true =>
    rw [if_pos rfl]
    refine iff_of_true ((keepsFp_illegal hf hp inst).marks hs) ⟨fun h => absurd h hfp, fun _ _ _ h => ?_⟩
    rw [hd] at h
    cases h
  | false =>
    rw [if_neg (by decide), cpu_setCpu, (CPU.sameFp_regWrite _ _ _).marks_iff]
    cases hw : csrWrites inst with
    | false =>
      rw [if_neg (by decide)]
      refine iff_of_true (CPU.Tracked.marks (.refl _) hs) ⟨fun h => absurd h hfp, fun _ _ _ _ h => ?_⟩
      rw [hw] at h
      cases h
    | true =>
      rw [if_pos rfl]
      have hsafe := CPU.marks_csrWrite hs (csrField inst) (m.csrValue inst)
      exact ⟨fun h => ⟨fun h' => absurd h' hfp, fun _ _ _ _ _ => hsafe.mp h⟩,
        fun h => hsafe.mpr (h.csr hop h0 h4 hd hw)⟩

/-- An executor keeps the tracking right exactly when its instruction is safe. -/
theorem marks_dispatch (hs : m.cpu.Summarised) (hf : m.bus.mem.fault = false) (hp : LowPriv m.cpu) (ilen : BitVec 32) :
    m.cpu.Marks (m.dispatch inst ilen).1.cpu ↔ FpSafe m inst := by
  have htrack : m.cpu.Tracked (m.dispatch inst ilen).1.cpu → opcode inst ≠ .fp → opcode inst ≠ .system →
      (m.cpu.Marks (m.dispatch inst ilen).1.cpu ↔ FpSafe m inst) :=
    fun h hfp hsys => iff_of_true (h.marks hs) (fpSafe_of_opcode hfp hsys)
  have hkeep := @keepsFp_dispatch m hf hp inst
  have hload := fun h => @tracked_loadFp m hf hp inst h ilen
  unfold writesFp at hkeep
  cases hop : opcode inst with
  | fp =>
    unfold dispatch
    rw [hop]
    exact marks_execFp hs hf hp hop
  | loadFp => exact htrack (hload hop) (by rw [hop]; decide) (by rw [hop]; decide)
  | madd | msub | nmsub | nmadd =>
    refine htrack ?_ (by rw [hop]; decide) (by rw [hop]; decide)
    unfold dispatch
    rw [hop]
    exact tracked_execFmadd hf hp inst _ _
  | system =>
    by_cases h0 : funct3 inst = 0x0#3
    · rw [hop] at hkeep
      exact iff_of_true (KeepsFp.marks (hkeep rfl (fun _ => h0) ilen) hs)
        ⟨fun h => absurd h (by rw [hop]; decide), fun _ h => absurd h0 h⟩
    unfold dispatch execSystem
    rw [hop]
    dsimp only
    rw [if_neg h0]
    by_cases h4 : funct3 inst = 0x4#3
    · rw [if_pos h4]
      exact iff_of_true ((keepsFp_illegal hf hp inst).marks hs)
        ⟨fun h => absurd h (by rw [hop]; decide), fun _ _ h => absurd h4 h⟩
    · rw [if_neg h4]
      exact marks_execCsr hs hf hp hop h0 h4
  | _ =>
    rw [hop] at hkeep
    exact htrack (Or.inl (hkeep rfl nofun ilen)) (by rw [hop]; decide) (by rw [hop]; decide)

end Instruction

/-! ## One step -/

theorem lowPriv_dispatch (hf : m.bus.mem.fault = false) (hp : LowPriv m.cpu) (inst ilen : BitVec 32) :
    LowPriv (m.dispatch inst ilen).1.cpu := by
  obtain ⟨m1, hacts, hend⟩ :=
    out_dispatch hf (fun _ _ _ => trivial) ilen (Guard.free_admits m inst) (Guard.free_lax.edits m inst)
  have h1 : LowPriv m1.cpu := (lowPriv_inv _).acts_cpu hacts hp
  generalize (m.dispatch inst ilen).1 = m2 at hend
  rcases hend with rfl | ⟨_, hent⟩
  · exact h1
  · cases hent with
    | mk cause tval toS hs _ =>
      rw [cpu_setCpu]
      exact (lowPriv_inv .free).enter _ _ _ _ hs h1

theorem marks_execute (hf : m.bus.mem.fault = false) (hs : m.cpu.Summarised) (hp : LowPriv m.cpu)
    (inst ilen : BitVec 32) : m.cpu.Marks (m.execute inst ilen).cpu ↔ FpSafe m inst := by
  have hcommit := keepsFp_stepOut (lowPriv_dispatch hf hp inst ilen) (stepOut_commit _ inst (m.dispatch inst ilen).2)
  rw [← marks_dispatch hs hf hp ilen]
  exact CPU.SameFp.marks_iff hcommit

/-- A step that executes nothing keeps the FP state. -/
theorem keepsFp_step {dc : Option DecodeCache} (hp : LowPriv m.cpu) (h : m.dispatching dc = none) :
    KeepsFp m (m.step dc).2 := by
  have hbegin := keeps_sameFp.acts m.acts_beginStep
  refine hbegin.trans (keepsFp_stepOut ?_ (stepOut_of_execute fpQuiet_ticks dc m (fun _ _ _ _ => trivial) ?_))
  · exact (lowPriv_inv fpQuiet).acts_cpu m.acts_beginStep hp
  · intro inst ilen m' hd
    rw [h] at hd
    cases hd

/-- The step keeps the tracking right exactly when the instruction it executes, if any, is safe. -/
def StepSafe (dc : Option DecodeCache) (m : Machine) : Prop :=
  ∀ inst ilen m', m.dispatching dc = some ((inst, ilen), m') → FpSafe m' inst

theorem marks_step (hs : m.cpu.Summarised) (hp : LowPriv m.cpu) (dc : Option DecodeCache) :
    m.cpu.Marks (m.step dc).2.cpu ↔ StepSafe dc m := by
  cases hd : m.dispatching dc with
  | none =>
    refine iff_of_true ((keepsFp_step hp hd).marks hs) fun inst ilen m' h => ?_
    rw [hd] at h
    cases h
  | some r =>
    obtain ⟨⟨inst, ilen⟩, m'⟩ := r
    have hat := atDispatch_of_dispatching hd
    have hsame : m.cpu.SameFp m'.cpu := by
      refine CPU.sameFp_of_status ?_ (hat.csr _ (by decide)) ?_ fun i _ => ?_
      · rw [hat.cpu]
      · rw [hat.cpu]
      · rw [hat.csr _ (by decide)]
    have hs' : m'.cpu.Summarised := CPU.Tracked.summarised (Or.inl hsame) hs
    have hp' : LowPriv m'.cpu := by
      rw [LowPriv, hat.cpu]
      exact hp
    rw [step_of_dispatching hd, hsame.marks_from, marks_execute hat.fault hs' hp']
    constructor
    · intro h inst' ilen' m'' hd'
      rw [hd] at hd'
      cases hd'
      exact h
    · intro h
      exact h inst ilen m' hd

end Machine

/-! ## Runs -/

theorem lowPriv_reachable {P : Option DecodeCache → Machine → Prop} {m : Machine} (h : Reachable P m) (i : Nat) :
    LowPriv (m.harts i) := by
  refine Reachable.harts (lowPriv_inv .free) Guard.free_lax (fun _ _ _ _ => trivial) (fun _ _ _ _ _ _ => Guard.free_admits _ _) ?_ h i
  intro tlb pc xlen j regs
  refine CPU.boot_induction (J := LowPriv) (fun _ _ _ _ => show PRIV_M.toNat < 4 by decide) (fun c k v hc => ?_)
    tlb pc xlen j regs
  unfold CPU.regWrite
  split <;> exact hc

/-- In every run of safe steps SD summarises FS on every hart. -/
theorem summarised_reachable {m : Machine} (h : Reachable Machine.StepSafe m) (i : Nat) :
    (m.harts i).Summarised := by
  obtain ⟨m0, h0, hrun⟩ := h
  induction hrun generalizing i with
  | refl =>
    obtain ⟨tlb, pc, xlen, regs, hi⟩ := h0 i
    rw [hi]
    refine CPU.boot_induction (J := CPU.Summarised) (fun _ _ x _ => ?_) (fun c k v hc => ?_) tlb pc xlen i regs
    · unfold CPU.Summarised CPU.sd CPU.fsDirty
      rw [show ∀ t p j, (CPU.start t p x j).csr CSR_MSTATUS = 0#64 from fun _ _ _ => rfl, BitVec.getLsbD_zero]
      rfl
    · exact CPU.Tracked.summarised (Or.inl (c.sameFp_regWrite k v)) hc
  | @tail m1 m2 hpre hstep ih =>
    cases hstep with
    | env b => exact ih i
    | hart j dc _ hsafe =>
      have hlow : LowPriv (m1.onHart j).cpu := lowPriv_reachable ⟨m0, h0, hpre⟩ j
      by_cases hij : i = j
      · subst hij
        have hself : ((m1.onHart i).step dc).2.self = i := (Machine.step_frame dc (m1.onHart i)).2
        have hmarks := (Machine.marks_step (m := m1.onHart i) (ih i) hlow dc).mpr hsafe
        have hsum := hmarks.summary
        unfold Machine.cpu at hsum
        rw [hself] at hsum
        exact hsum
      · exact CPU.Tracked.summarised (Or.inl (keeps_sameFp.step_other (m := m1.onHart j) dc hij)) (ih i)

/-- Along every run whose steps are safe, SD is set exactly when FS is Dirty, on every hart and in
every state reached. From such a state the next step of a hart marks what it changes and keeps the
summary exactly when it is safe too. -/
theorem fp_state_tracked (m : Machine) (h : Reachable Machine.StepSafe m) (i : Nat) :
    (m.harts i).Summarised ∧
    ∀ dc, (m.harts i).Marks ((m.onHart i).step dc).2.cpu ↔ Machine.StepSafe dc (m.onHart i) :=
  ⟨summarised_reachable h i, fun dc =>
    Machine.marks_step (m := m.onHart i) (summarised_reachable h i) (lowPriv_reachable h i) dc⟩

/-- A booted RV64 hart. -/
def fpMachine (words : List (BitVec 32)) : Machine := .load .rv64 1 0x80000000 0x1000 0x80000000 words

/-- The first step of `flw f1, -16(sp)`. -/
theorem flw_tracked :
    (fpMachine [0xff012087]).cpu.Summarised ∧
    ((fpMachine [0xff012087]).step none).2.cpu.fregs 1 ≠ (fpMachine [0xff012087]).cpu.fregs 1 ∧
    (fpMachine [0xff012087]).cpu.Marks ((fpMachine [0xff012087]).step none).2.cpu := by
  have htrack := fp_state_tracked (fpMachine [0xff012087]) (Machine.load_reachable ..) 0
  refine ⟨htrack.1, by decide +kernel, (htrack.2 none).mpr fun inst ilen m' hd => ?_⟩
  have hfetched : (fpMachine [0xff012087]).fetched none = some (0xff012087, 4) := by decide +kernel
  have hdisp : (fpMachine [0xff012087]).dispatching none = some ((inst, ilen), m') := hd
  rw [Machine.fetched_eq, hdisp] at hfetched
  cases hfetched
  exact Machine.fpSafe_of_opcode (by decide) (by decide)

/-- From boot, `csrrwi x0, fcsr, 1` and `flt.s x1, f0, f0` change `fcsr` and leave FS Off; and `mstatus`
takes a Dirty FS without SD. -/
theorem fp_state_untracked :
    (((fpMachine [0x0030d073]).step none).2.cpu.csr CSR_FCSR = 1 ∧
      ((fpMachine [0x0030d073]).step none).2.cpu.csr CSR_MSTATUS = 0) ∧
    (((fpMachine [0xa00010d3]).step none).2.cpu.csr CSR_FCSR = 0x10 ∧
      ((fpMachine [0xa00010d3]).step none).2.cpu.csr CSR_MSTATUS = 0) ∧
    Reachable (fun _ _ => True) (Machine.cpuStep^[2] (fpMachine [0x000060b7, 0x30009073])) ∧
    (Machine.cpuStep^[2] (fpMachine [0x000060b7, 0x30009073])).cpu.fsDirty = true ∧
    (Machine.cpuStep^[2] (fpMachine [0x000060b7, 0x30009073])).cpu.sd = false := by
  refine ⟨by decide +kernel, by decide +kernel, (Machine.load_reachable ..).iterate 2 ?_ fun _ _ => trivial, ?_⟩
  · decide +kernel
  · decide +kernel

end Quanta
