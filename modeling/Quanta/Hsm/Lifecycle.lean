/-
The hart state management life cycle over every interleaving. A step changes a sibling hart only
by breaking its reservation or by a successful `hart_start`, and its own `hsm_state` only by
`hart_stop`; so a stopped hart stays as it was until it is started, and for each hart stops and
starts alternate.
-/
import Mathlib.Data.List.Chain
import Quanta.Engine.Runs
import Quanta.Hsm.Calls
import Quanta.Rv64.Words

namespace Quanta

open Relation Run

/-! ## What a step does to siblings -/

/-- `c'` is `c`, or `c` without its reservation. -/
def CPU.Shed (c c' : CPU) : Prop := c' = c ∨ c' = { c with reserveValid := false }

theorem CPU.Shed.refl (c : CPU) : c.Shed c := Or.inl rfl

theorem CPU.Shed.trans {c c' c'' : CPU} (h : c.Shed c') (h' : c'.Shed c'') : c.Shed c'' := by
  rcases h with rfl | rfl
  · exact h'
  · rcases h' with rfl | rfl <;> exact Or.inr rfl

/-- What a step does to the harts when it makes no HSM call: siblings may lose their reservation,
and the stepped hart keeps its state. -/
structure HsmQuiet (m m' : Machine) : Prop where
  self : m'.self = m.self
  others : ∀ t, t ≠ m.self → (m.harts t).Shed (m'.harts t)
  state : m'.cpu.hsmState = m.cpu.hsmState

namespace HsmQuiet

variable {m m' m'' : Machine}

theorem refl (m : Machine) : HsmQuiet m m := ⟨rfl, fun _ _ => .refl _, rfl⟩

theorem trans (h : HsmQuiet m m') (h' : HsmQuiet m' m'') : HsmQuiet m m'' where
  self := h'.self.trans h.self
  others t ht := (h.others t ht).trans (h'.others t (by rw [h.self]; exact ht))
  state := h'.state.trans h.state

theorem setCpu (m : Machine) {c : CPU} (h : c.hsmState = m.cpu.hsmState) : HsmQuiet m (m.setCpu c) where
  self := rfl
  others t ht := Or.inl (m.harts_setCpu_of_ne c ht)
  state := by rw [Machine.cpu_setCpu]; exact h

theorem setBus (m : Machine) (b : Bus) : HsmQuiet m (m.setBus b) := ⟨rfl, fun _ _ => .refl _, rfl⟩

theorem regWrite (m : Machine) (i : BitVec 5) (v : BitVec 64) : HsmQuiet m (m.regWrite i v) :=
  setCpu m (m.cpu.regWrite_hsmState i v)

/-- No call of the HSM extension. -/
def noHsm : Guard := { Guard.free with hsm := False }

/-- Then a hart's state is its own, and its siblings at most lose their reservation. -/
theorem inv (c0 : CPU) (s : HsmState) : ActInv noHsm c0.Shed (fun c => c.hsmState = s) where
  act c c' h hc := by
    refine Eq.trans ?_ hc
    cases h with
    | regWrite i v => exact c.regWrite_hsmState i v
    | csrWrite addr v _ _ => exact c.csrWrite_hsmState addr v
    | translate b va acc =>
      obtain ⟨t, ht⟩ := mmuTranslate_cpu c b va acc
      rw [ht]
    | stop _ hs => exact hs.elim
    | resume pc a _ hs => exact hs.elim
    | _ => rfl
  unreserve _ h := h.trans (Or.inr rfl)
  start _ _ _ hs := hs.elim
  startSelf _ _ _ hs := hs.elim

theorem stepOut (h : StepOut noHsm m m') : HsmQuiet m m' := by
  obtain ⟨m1, hacts, hend⟩ := h
  have h1 : HsmQuiet m m1 := ⟨Machine.acts_self hacts,
    fun t ht => (inv (m.harts t) m.cpu.hsmState).acts_other hacts ht (.refl _), (inv m.cpu _).acts_cpu hacts rfl⟩
  rcases hend with rfl | hend
  · exact h1
  · cases hend with
    | mk cause tval toS _ _ => exact h1.trans (setCpu m1 (CPU.enterTrap_hsmState ..))

theorem sbiReturn (m : Machine) (e v : BitVec 32) : HsmQuiet m (m.sbiReturn e v) :=
  (regWrite m _ _).trans (regWrite _ _ _)

theorem raiseTrap_misaligned (m : Machine) (tval : BitVec 64) :
    HsmQuiet m (m.raiseTrap CAUSE_INSN_MISALIGNED tval) := by
  unfold Machine.raiseTrap
  split
  · exact setCpu m (CPU.enterTrap_hsmState ..)
  · exact setCpu m rfl

theorem returned (m : Machine) : HsmQuiet m m.returned := by
  unfold Machine.returned
  split
  · exact refl m
  split
  · exact raiseTrap_misaligned m _
  · exact setCpu m rfl

theorem atDispatch (h : Machine.AtDispatch m m') : HsmQuiet m m' where
  self := h.self
  others t ht := Or.inl (h.others t ht)
  state := by rw [h.cpu]

end HsmQuiet

/-- The step makes an HSM call, in `m'`. -/
structure HsmCallAt (dc : Option DecodeCache) (m m' : Machine) : Prop where
  call : Machine.SbiCallAt dc m m'
  hsm : lo32 (m'.regRead Machine.REG_A7) = Machine.EXT_HSM

/-- A step makes an HSM call or leaves every hart's state alone. -/
theorem Machine.step_hsm (dc : Option DecodeCache) (m : Machine) :
    (∃ m', HsmCallAt dc m m') ∨ HsmQuiet m (m.step dc).2 := by
  by_cases hs : ∃ m', HsmCallAt dc m m'
  · exact Or.inl hs
  · have hbegin : HsmQuiet m m.beginStep := (HsmQuiet.setBus m _).trans (.setCpu _ rfl)
    refine Or.inr (hbegin.trans (.stepOut ?_))
    refine stepOut_of_execute (fun _ _ _ => trivial) dc m (fun _ _ _ _ => trivial) fun inst ilen m' hd hsee => ?_
    refine stepOut_execute (atDispatch_of_dispatching hd).fault hsee ilen
      ⟨fun _ _ => trivial, fun _ => trivial, fun hc ha => hs ⟨m', ?_, ha⟩, fun _ => trivial⟩
      ⟨fun _ _ _ _ => trivial, fun _ _ => trivial⟩
    exact ⟨⟨inst, ilen, hd, hc.1⟩, hc.2.1, hc.2.2⟩

/-! ## A stopped hart is halted -/

/-- The two states a hart is ever in: started, or stopped and halted. -/
def CPU.Managed (c : CPU) : Prop := c.hsmState = .started ∨ (c.hsmState = .stopped ∧ c.halted = true)

theorem CPU.Managed.of_eq {c c' : CPU} (h : c.Managed) (hs : c'.hsmState = c.hsmState) (hh : c'.halted = c.halted) :
    c'.Managed := by
  unfold Managed
  rw [hs, hh]
  exact h

theorem managed_act {ok : Guard} {c c' : CPU} (ha : HartAct ok c c') (h : c.Managed) : c'.Managed := by
  cases ha with
  | regWrite i v => exact h.of_eq (c.regWrite_hsmState i v) (c.regWrite_halted i v)
  | csrWrite addr v _ => exact h.of_eq (c.csrWrite_hsmState addr v) (c.csrWrite_halted addr v)
  | translate b va acc =>
    obtain ⟨t, ht⟩ := mmuTranslate_cpu c b va acc
    rw [ht]
    exact h
  | halt r e => exact h.imp id fun hs => ⟨hs.1, rfl⟩
  | stop _ _ => exact Or.inr ⟨rfl, rfl⟩
  | resume pc a _ _ => exact Or.inl rfl
  | _ => exact h

theorem managed_inv (ok : Guard) : HartInv ok CPU.Managed CPU.Managed where
  act _ _ ha h := managed_act ha h
  unreserve _ h := h
  start _ _ _ _ _ _ := Or.inl rfl
  startSelf _ _ _ _ _ _ := Or.inl rfl
  begin _ _ h := h
  enter c _ _ _ _ h := h.of_eq (c.enterTrap_hsmState ..) (c.enterTrap_halted ..)
  rest _ h := h

/-- A hart that runs is started. -/
theorem CPU.Managed.started {c : CPU} (h : c.Managed) (hrun : c.halted = false) : c.hsmState = .started := by
  rcases h with h | ⟨_, hh⟩
  · exact h
  · rw [hh] at hrun
    cases hrun

/-! ## The HSM calls -/

namespace HsmCallAt

open Machine

variable {dc : Option DecodeCache} {m m' : Machine}

theorem step_eq (h : HsmCallAt dc m m') : (m.step dc).2 = (m'.sbiHsm (lo32 (m'.regRead REG_A6))).returned := by
  rw [step_of_sbiCallAt h.call, sbiCall_of_isHsm ⟨h.hsm, rfl⟩]

theorem self (h : HsmCallAt dc m m') : m'.self = m.self := h.call.atDispatch.self

/-- A call that neither stops nor starts a hart leaves every state alone: the calling hart, which
runs and so is started, is at most entered again by a suspend. -/
theorem quiet (h : HsmCallAt dc m m') (hstarted : m.cpu.hsmState = .started) (hstop : ¬m'.Stops)
    (hstart : ∀ t, ¬m'.Starts t) : HsmQuiet m (m.step dc).2 := by
  have hat := HsmQuiet.atDispatch h.call.atDispatch
  have hfid : ∀ k : Nat, (lo32 (m'.regRead REG_A6)).toNat = k → m'.IsHsm (BitVec.ofNat 32 k) := by
    intro k hk
    refine ⟨h.hsm, ?_⟩
    rw [← hk, BitVec.ofNat_toNat, BitVec.setWidth_eq]
  rw [h.step_eq]
  refine hat.trans (HsmQuiet.trans ?_ (.returned _))
  unfold sbiHsm
  split
  · next h0 =>
    unfold hartStart
    dsimp only
    split
    · exact .sbiReturn m' _ _
    · next t ht =>
      split
      · exact .sbiReturn m' _ _
      · next hs => exact absurd ⟨hfid 0 h0, ht, hs⟩ (hstart t)
      · exact .sbiReturn m' _ _
  · next h1 => exact absurd (hfid 1 h1) hstop
  · unfold hartGetStatus
    split <;> exact .sbiReturn m' _ _
  · unfold hartSuspend
    dsimp only
    split
    · exact .sbiReturn m' _ _
    split
    · exact .setCpu m' (hat.state.trans hstarted).symm
    · exact .sbiReturn m' _ _
  · exact .sbiReturn m' _ _

/-- `hart_stop`: the calling hart is halted and stopped, and nothing else changes. -/
theorem step_of_stops (h : HsmCallAt dc m m') (hs : m'.Stops) : (m.step dc).2 = m'.hartStop := by
  rw [step_of_sbiCallAt h.call, sbiCall_of_isHsm hs]
  refine returned_of_halted ?_
  show m'.hartStop.cpu.halted = true
  unfold hartStop
  rw [cpu_setCpu]
  rfl

/-- A successful `hart_start` of another hart enters it; the caller is told so and keeps its state. -/
theorem harts_of_starts (h : HsmCallAt dc m m') {t : Nat} (hs : m'.Starts t) (ht : t ≠ m.self) :
    (m.step dc).2.harts t = hsmEnter (m.harts t) (m'.regRead REG_A1) (m'.regRead REG_A2) ∧
    (∀ j, j ≠ t → j ≠ m.self → (m.step dc).2.harts j = m.harts j) ∧
    ((m.step dc).2.harts m.self).hsmState = m.cpu.hsmState := by
  have hat := h.call.atDispatch
  have ht' : t ≠ m'.self := by rw [hat.self]; exact ht
  rw [step_of_sbiCallAt h.call, sbiCall_of_starts hs]
  generalize he : m'.setHart t (hsmEnter (m'.harts t) (m'.regRead REG_A1) (m'.regRead REG_A2)) = m1
  have hself : m1.self = m'.self := by rw [← he]; rfl
  have hquiet : HsmQuiet m1 (m1.sbiReturn SBI_SUCCESS 0).returned := (HsmQuiet.sbiReturn m1 _ _).trans (.returned _)
  have hsib : ∀ j, j ≠ m'.self → (m1.sbiReturn SBI_SUCCESS 0).returned.harts j = m1.harts j := by
    intro j hj
    rw [harts_returned _ (by show j ≠ m1.self; rw [hself]; exact hj)]
    unfold sbiReturn regWrite
    rw [harts_setCpu_of_ne _ _ (by rw [self_setCpu, hself]; exact hj), harts_setCpu_of_ne _ _ (by rw [hself]; exact hj)]
  refine ⟨?_, fun j hjt hj => ?_, ?_⟩
  · rw [hsib t ht', ← he, harts_setHart_self, hat.others t ht]
  · rw [hsib j (by rw [hat.self]; exact hj), ← he, harts_setHart_of_ne _ _ hjt, hat.others j hj]
  · have hstate := hquiet.state
    have hcpu : m1.cpu = m'.cpu := by
      rw [← he]
      exact m'.cpu_setHart_of_ne _ ht'
    unfold cpu at hstate
    rw [hquiet.self, hself, hat.self] at hstate
    rw [hstate, ← hat.self, ← hself]
    show m1.cpu.hsmState = _
    rw [hcpu, hat.cpu]

end HsmCallAt

/-! ## Events -/

/-- A successful start of a hart, or a hart stopping itself. -/
inductive HsmEvent
  | start (t : Nat)
  | stop (t : Nat)
  deriving DecidableEq, Repr

def HsmEvent.hart : HsmEvent → Nat
  | .start t => t
  | .stop t => t

open Machine in
/-- The event of a step, from the call it makes. -/
def Machine.hsmEvent (dc : Option DecodeCache) (m : Machine) : Option HsmEvent :=
  match m.sbiCalling dc with
  | none => none
  | some m' =>
    if m'.IsHsm 1 then some (.stop m'.self)
    else if m'.IsHsm 0 then
      match m'.named with
      | some t => if (m'.harts t).hsmState = .stopped then some (.start t) else none
      | none => none
    else none

namespace HsmEvent

open Machine

variable {dc : Option DecodeCache} {m : Machine}

theorem cases_of_hsmEvent (dc : Option DecodeCache) (m : Machine) :
    (m.hsmEvent dc = none ∧ ∀ m', HsmCallAt dc m m' → ¬m'.Stops ∧ ∀ t, ¬m'.Starts t) ∨
    (∃ m', m.hsmEvent dc = some (.stop m.self) ∧ HsmCallAt dc m m' ∧ m'.Stops) ∨
    (∃ m' t, m.hsmEvent dc = some (.start t) ∧ HsmCallAt dc m m' ∧ m'.Starts t) := by
  unfold hsmEvent
  cases hc : m.sbiCalling dc with
  | none =>
    refine Or.inl ⟨rfl, fun m' h => ?_⟩
    rw [h.call.sbiCalling] at hc
    cases hc
  | some m' =>
    have hcall := sbiCallAt_of_sbiCalling hc
    have honly : ∀ m1, HsmCallAt dc m m1 → m1 = m' := by
      intro m1 h1
      rw [h1.call.sbiCalling] at hc
      exact Option.some.inj hc
    dsimp only
    by_cases h1 : m'.IsHsm 1
    · rw [if_pos h1, hcall.atDispatch.self]
      exact Or.inr (Or.inl ⟨m', rfl, ⟨hcall, h1.1⟩, h1⟩)
    · rw [if_neg h1]
      by_cases h0 : m'.IsHsm 0
      · rw [if_pos h0]
        cases hn : m'.named with
        | none =>
          refine Or.inl ⟨rfl, fun m1 h => ?_⟩
          rw [honly m1 h]
          exact ⟨h1, fun t ht => by rw [ht.target] at hn; cases hn⟩
        | some t =>
          dsimp only
          by_cases hs : (m'.harts t).hsmState = .stopped
          · rw [if_pos hs]
            exact Or.inr (Or.inr ⟨m', t, rfl, ⟨hcall, h0.1⟩, h0, hn, hs⟩)
          · rw [if_neg hs]
            refine Or.inl ⟨rfl, fun m1 h => ?_⟩
            rw [honly m1 h]
            refine ⟨h1, fun t' ht => hs ?_⟩
            have hsame : t' = t := Option.some.inj (ht.target.symm.trans hn)
            rw [← hsame]
            exact ht.stopped
      · rw [if_neg h0]
        refine Or.inl ⟨rfl, fun m1 h => ?_⟩
        rw [honly m1 h]
        exact ⟨h1, fun t ht => h0 ht.call⟩

/-- What an event says about hart `t`: it was started, it stopped, or the event is not its own and
a sibling at most loses its reservation. -/
inductive Effect (e : Option HsmEvent) (m m' : Machine) (t : Nat) : Prop
  | started (h : e = some (.start t)) (hpre : (m.harts t).hsmState = .stopped)
      (hpost : (m'.harts t).hsmState = .started)
  | stopped (h : e = some (.stop t)) (hself : t = m.self) (hpre : (m.harts t).hsmState = .started)
      (hpost : (m'.harts t).hsmState = .stopped)
  | other (h : ∀ e', e = some e' → e'.hart ≠ t) (hstate : (m'.harts t).hsmState = (m.harts t).hsmState)
      (hshed : t ≠ m.self → (m.harts t).Shed (m'.harts t))

theorem effect_of_quiet {e : Option HsmEvent} {m m' : Machine} (h : HsmQuiet m m') {t : Nat}
    (he : ∀ e', e = some e' → e'.hart ≠ t) : Effect e m m' t := by
  refine .other he ?_ (h.others t)
  by_cases ht : t = m.self
  · subst ht
    have hs := h.state
    unfold cpu at hs
    rw [h.self] at hs
    exact hs
  · rcases h.others t ht with hsame | hsame <;> rw [hsame]

/-- The effect of a step of a running hart on each hart. -/
theorem effect_step (hm : m.cpu.Managed) (hrun : m.cpu.halted = false) (t : Nat) :
    Effect (m.hsmEvent dc) m (m.step dc).2 t := by
  have hstarted := hm.started hrun
  rcases cases_of_hsmEvent dc m with ⟨he, hnone⟩ | ⟨m', he, hcall, hstop⟩ | ⟨m', t', he, hcall, hstart⟩
  · rw [he]
    refine effect_of_quiet ?_ fun e' h => by cases h
    rcases step_hsm dc m with ⟨m', hcall⟩ | hquiet
    · exact hcall.quiet hstarted (hnone m' hcall).1 (hnone m' hcall).2
    · exact hquiet
  · have hstep := hcall.step_of_stops hstop
    rw [he]
    by_cases ht : t = m.self
    · subst ht
      refine .stopped rfl rfl hstarted ?_
      rw [hstep, ← hcall.self, hartStop, harts_setCpu_self]
    · refine .other (fun e' h => by cases h; exact Ne.symm ht) ?_ fun _ => Or.inl ?_
      · rw [hstep, hartStop, harts_setCpu_of_ne _ _ (by rw [hcall.self]; exact ht), hcall.call.atDispatch.others t ht]
      · rw [hstep, hartStop, harts_setCpu_of_ne _ _ (by rw [hcall.self]; exact ht), hcall.call.atDispatch.others t ht]
  · -- the target is stopped, so it is not the hart that runs
    have hne : t' ≠ m.self := by
      rintro rfl
      have hs := hstart.stopped
      rw [← hcall.self] at hs
      have hcpu := hcall.call.atDispatch.cpu
      unfold cpu at hcpu
      rw [hcpu] at hs
      change m.cpu.hsmState = .stopped at hs
      rw [hstarted] at hs
      cases hs
    obtain ⟨htarget, hothers, hself⟩ := hcall.harts_of_starts hstart hne
    rw [he]
    by_cases ht : t = t'
    · subst ht
      refine .started rfl ?_ ?_
      · rw [← hcall.call.atDispatch.others t hne]
        exact hstart.stopped
      · rw [htarget]
        rfl
    · refine .other (fun e' h => by cases h; exact Ne.symm ht) ?_ fun hts => Or.inl (hothers t ht hts)
      by_cases hts : t = m.self
      · rw [hts]
        exact hself
      · rw [hothers t ht hts]

end HsmEvent

/-! ## Results of the calls -/

namespace Machine

/-- The (error, value) pair a call left in a0 and a1. -/
def sbiResult (m : Machine) : BitVec 32 × BitVec 32 := (lo32 (m.regRead REG_A0), lo32 (m.regRead REG_A1))

theorem sbiResult_sbiReturn (m : Machine) (e v : BitVec 32) : (m.sbiReturn e v).sbiResult = (e, v) := by
  unfold sbiResult sbiReturn regWrite regRead CPU.regRead
  simp only [cpu_setCpu, setCpu_setCpu, CPU.regWrite_regs, CPU.regWrite_xlen]
  refine Prod.ext ?_ ?_
  · exact (CPU.lo32_sextXlen _ _).trans (lo32_sext e)
  · exact (CPU.lo32_sextXlen _ _).trans (lo32_setWidth v)

theorem sbiResult_setCpu {m : Machine} {c : CPU} (h : c.regs = m.cpu.regs) : (m.setCpu c).sbiResult = m.sbiResult := by
  unfold sbiResult regRead CPU.regRead
  rw [cpu_setCpu, h]

theorem sbiResult_returned (m : Machine) : m.returned.sbiResult = m.sbiResult := by
  unfold returned
  split
  · rfl
  split
  · unfold raiseTrap
    split
    · exact sbiResult_setCpu (CPU.enterTrap_regs ..)
    · exact sbiResult_setCpu rfl
  · exact sbiResult_setCpu rfl

/-- The hart array is wired to the platform, as it is on every loaded machine. -/
structure Smp (m : Machine) : Prop where
  plat : m.bus.mem.plat = true
  harts : m.bus.plat.harts = true

theorem Smp.of_shape {m m' : Machine} (h : m.Smp) (hb : m.bus.Shape m'.bus) : m'.Smp :=
  ⟨hb.plat.trans h.plat, hb.wired.harts.trans h.harts⟩

/-- The index a call names: the low 32 bits of a0. -/
def index (m : Machine) : Nat := (lo32 (m.regRead REG_A0)).toNat

theorem named_of_smp {m : Machine} (h : m.Smp) :
    m.named = if m.index < m.bus.plat.nharts then some m.index else none := by
  unfold named hsmHart
  rw [h.plat, h.harts]
  simp only [Bool.not_true, Bool.or_false, Bool.false_eq_true, if_false]
  unfold index
  split <;> split <;> first | rfl | omega

/-- `hart_start`'s answer, from the state of the hart it names. -/
def startResult (m : Machine) : BitVec 32 :=
  if m.index < m.bus.plat.nharts then
    match (m.harts m.index).hsmState with
    | .started => SBI_ERR_ALREADY_AVAILABLE
    | .stopped => SBI_SUCCESS
    | _ => SBI_ERR_FAILED
  else SBI_ERR_INVALID_PARAM

theorem sbiResult_hartStart {m : Machine} (h : m.Smp) : m.hartStart.sbiResult = (m.startResult, 0) := by
  unfold hartStart startResult
  have hn : m.hsmHart (lo32 (m.regRead REG_A0)) = _ := named_of_smp h
  rw [hn]
  by_cases hlt : m.index < m.bus.plat.nharts
  · rw [if_pos hlt, if_pos hlt]
    cases hs : (m.harts m.index).hsmState <;> simp only [hs] <;> exact sbiResult_sbiReturn ..
  · rw [if_neg hlt, if_neg hlt]
    exact sbiResult_sbiReturn ..

theorem sbiResult_hartGetStatus {m : Machine} (h : m.Smp) :
    m.hartGetStatus.sbiResult =
      if m.index < m.bus.plat.nharts then (SBI_SUCCESS, (m.harts m.index).hsmState.code)
      else (SBI_ERR_INVALID_PARAM, 0) := by
  unfold hartGetStatus
  have hn : m.hsmHart (lo32 (m.regRead REG_A0)) = _ := named_of_smp h
  rw [hn]
  by_cases hlt : m.index < m.bus.plat.nharts
  · rw [if_pos hlt, if_pos hlt]
    exact sbiResult_sbiReturn ..
  · rw [if_neg hlt, if_neg hlt]
    exact sbiResult_sbiReturn ..

end Machine

/-! ## Runs with their events -/

/-- The runs from `m0`, with the events in order: any hart that is not halted steps, or the devices
change under the harts. -/
inductive Trace (m0 : Machine) : List HsmEvent → Machine → Prop
  | nil : Trace m0 [] m0
  | hart {es : List HsmEvent} {m : Machine} (h : Trace m0 es m) (i : Nat) (dc : Option DecodeCache)
      (hi : i < m.bus.plat.nharts) (hrun : (m.harts i).halted = false) :
      Trace m0 (es ++ ((m.onHart i).hsmEvent dc).toList) ((m.onHart i).step dc).2
  | env {es : List HsmEvent} {m : Machine} (h : Trace m0 es m) (b : Bus) (hb : m.bus.Shape b) :
      Trace m0 es (m.setBus b)

namespace Trace

open Machine

variable {m0 m : Machine} {es : List HsmEvent}

theorem shape (h : Trace m0 es m) : m0.bus.Shape m.bus := by
  induction h with
  | nil => exact .refl _
  | hart _ i dc _ _ ih => exact ih.trans (Machine.step_shape dc (Machine.onHart _ i))
  | env _ b hb ih => exact ih.trans hb

/-- A hart managed at the start of a run stays so. -/
theorem managed (hm : ∀ i, (m0.harts i).Managed) (h : Trace m0 es m) (i : Nat) : (m.harts i).Managed := by
  induction h generalizing i with
  | nil => exact hm i
  | @hart es m _ j dc _ hrun ih =>
    have hrun' : (m.onHart j).cpu.halted = false := hrun
    exact (managed_inv .free).step_free dc hrun' ih i
  | env _ b _ ih => exact ih i

/-- A hart that is stopped, and that no event starts, is left alone but for its reservation. -/
theorem frozen (hm : ∀ i, (m0.harts i).Managed) (h : Trace m0 es m) {t : Nat}
    (hstop : (m0.harts t).hsmState = .stopped) (hes : HsmEvent.start t ∉ es) :
    (m0.harts t).Shed (m.harts t) := by
  induction h with
  | nil => exact .refl _
  | @hart es m h i dc _ hrun ih =>
    have hsofar := ih fun hmem => hes (List.mem_append_left _ hmem)
    have hstopped : (m.harts t).hsmState = .stopped := by
      rcases hsofar with hsame | hsame <;> rw [hsame] <;> exact hstop
    have hrun' : (m.onHart i).cpu.halted = false := hrun
    have hmi : (m.onHart i).cpu.Managed := h.managed hm i
    -- a stopped hart is halted, so it is not the one stepped
    have hne : t ≠ i := by
      rintro rfl
      rcases h.managed hm t with hs | hs
      · rw [hs] at hstopped
        cases hstopped
      · rw [hs.2] at hrun
        cases hrun
    refine hsofar.trans ?_
    rcases HsmEvent.effect_step hmi hrun' t with ⟨he, _, _⟩ | ⟨_, _, hpre, _⟩ | ⟨_, _, hshed⟩
    · exact absurd (List.mem_append_right _ (by rw [he]; exact List.mem_singleton.mpr rfl)) hes
    · change (m.harts t).hsmState = .started at hpre
      rw [hstopped] at hpre
      cases hpre
    · exact hshed hne
  | env _ b _ ih => exact ih hes

/-- Hart `t`'s own events. -/
def ownEvents (t : Nat) (es : List HsmEvent) : List HsmEvent := es.filter fun e => e.hart = t

theorem ownEvents_own {e : HsmEvent} {t : Nat} (h : e.hart = t) (es : List HsmEvent) :
    ownEvents t (es ++ (some e).toList) = ownEvents t es ++ [e] := by
  unfold ownEvents
  rw [List.filter_append, Option.toList_some, List.filter_cons_of_pos (by simpa using h), List.filter_nil]

theorem ownEvents_other {o : Option HsmEvent} {t : Nat} (h : ∀ e, o = some e → e.hart ≠ t) (es : List HsmEvent) :
    ownEvents t (es ++ o.toList) = ownEvents t es := by
  unfold ownEvents
  have hnil : o.toList.filter (fun e => e.hart = t) = [] := by
    rw [List.filter_eq_nil_iff]
    intro e he
    rw [Option.mem_toList] at he
    simpa using h e he
  rw [List.filter_append, hnil, List.append_nil]

theorem isChain_snoc {l : List HsmEvent} {e : HsmEvent} (h : l.IsChain (· ≠ ·)) (he : l.getLast? ≠ some e) :
    (l ++ [e]).IsChain (· ≠ ·) := by
  refine List.isChain_append.mpr ⟨h, .singleton e, fun x hx y hy => ?_⟩
  rintro rfl
  cases hy
  exact he hx

/-- From a boot, a hart's events alternate, and it is stopped exactly when the last is a stop. -/
theorem alternates (hboot : ∀ i, (m0.harts i).hsmState = .started) (h : Trace m0 es m) (t : Nat) :
    (ownEvents t es).IsChain (· ≠ ·) ∧
    (m.harts t).hsmState = if (ownEvents t es).getLast? = some (.stop t) then .stopped else .started := by
  have hm : ∀ i, (m0.harts i).Managed := fun i => Or.inl (hboot i)
  induction h with
  | nil => exact ⟨.nil, hboot t⟩
  | @hart es m h i dc _ hrun ih =>
    obtain ⟨hchain, hstate⟩ := ih
    have hrun' : (m.onHart i).cpu.halted = false := hrun
    have hmi : (m.onHart i).cpu.Managed := h.managed hm i
    rcases HsmEvent.effect_step hmi hrun' t with ⟨he, hpre, hpost⟩ | ⟨he, _, hpre, hpost⟩ | ⟨hne, hsame, _⟩
    · -- a start: the hart was stopped, so the last event was a stop
      change (m.harts t).hsmState = .stopped at hpre
      have hlast : (ownEvents t es).getLast? = some (.stop t) := by
        by_contra hl
        rw [if_neg hl, hpre] at hstate
        cases hstate
      rw [he, ownEvents_own (e := .start t) (t := t) rfl, hpost]
      refine ⟨isChain_snoc hchain (by rw [hlast]; simp), ?_⟩
      rw [List.getLast?_concat, if_neg (by simp)]
    · -- a stop: the hart was started, so the last event was not a stop
      change (m.harts t).hsmState = .started at hpre
      have hlast : (ownEvents t es).getLast? ≠ some (.stop t) := by
        intro hl
        rw [if_pos hl, hpre] at hstate
        cases hstate
      rw [he, ownEvents_own (e := .stop t) (t := t) rfl, hpost]
      refine ⟨isChain_snoc hchain hlast, ?_⟩
      rw [List.getLast?_concat, if_pos rfl]
    · rw [ownEvents_other hne]
      exact ⟨hchain, hsame.trans hstate⟩
  | env _ b _ ih => exact ih

end Trace

/-- The machine of a reachable handle is reached by a trace: the scheduler's interleaving is one of
those considered here. -/
theorem Handle.Reachable.trace {q : Handle} (h : q.Reachable) :
    ∃ m0 es, m0.Booted ∧ m0.Smp ∧ Trace m0 es q.machine := by
  obtain ⟨q0, h0, hrun⟩ := h
  have hP : q.Sound ∧ ∃ es, Trace q0.machine es q.machine := by
    refine Run.preserves (P := fun q : Handle => q.Sound ∧ ∃ es, Trace q0.machine es q.machine) ?_ hrun
      ⟨h0.sound, [], .nil⟩
    intro q q' hcall hq
    refine Handle.HostCall.preserves (P := fun q : Handle => q.Sound ∧ ∃ es, Trace q0.machine es q.machine) ?_ ?_
      hcall hq
    · rintro q ⟨hs, es, ht⟩
      have htick : Trace q0.machine es q.tick.machine := by
        unfold Handle.tick
        split
        · exact .env ht _ ⟨rfl, rfl, rfl, ⟨rfl, rfl, rfl, rfl, rfl, .refl _⟩⟩
        · exact ht
      refine ⟨hs.slot, ?_⟩
      rw [Handle.machine_slot]
      unfold Handle.stepHart
      split
      · exact ⟨es, htick⟩
      · next hrun =>
        refine ⟨_, .hart htick q.tick.sched _ ?_ (Bool.eq_false_iff.mpr hrun)⟩
        have hn : q.tick.machine.bus.plat.nharts = q.nharts := by
          unfold Handle.tick
          split <;> exact hs.nharts
        rw [hn, Handle.sched_tick]
        exact hs.sched_lt
    · rintro q b hb ⟨hs, es, ht⟩
      exact ⟨hs.setMachine hb rfl rfl hs.sched_lt, es, .env ht b hb⟩
  obtain ⟨_, es, ht⟩ := hP
  exact ⟨q0.machine, es, h0.booted, ⟨h0.sound.attached, h0.sound.harts⟩, ht⟩

/-! ## The life cycle -/

namespace Machine

theorem Booted.started {m : Machine} (h : m.Booted) (i : Nat) : (m.harts i).hsmState = .started := by
  obtain ⟨tlb, pc, xlen, regs, hi⟩ := h i
  rw [hi]
  exact CPU.boot_induction (J := fun c => c.hsmState = .started) (fun _ _ _ _ => rfl)
    (fun c i v hc => (c.regWrite_hsmState i v).trans hc) tlb pc xlen i regs

section Dispatch

variable {m m' : Machine} (h : AtDispatch m m')
include h

theorem AtDispatch.index_eq : m'.index = m.index := by
  unfold index regRead CPU.regRead
  rw [h.cpu]

theorem AtDispatch.state_eq (t : Nat) : (m'.harts t).hsmState = (m.harts t).hsmState := by
  by_cases ht : t = m.self
  · have hcpu : m'.cpu.hsmState = m.cpu.hsmState := by rw [h.cpu]
    unfold Machine.cpu at hcpu
    rw [h.self] at hcpu
    rw [ht]
    exact hcpu
  · rw [h.others t ht]

theorem AtDispatch.nharts_eq : m'.bus.plat.nharts = m.bus.plat.nharts := h.shape.wired.nharts

end Dispatch

/-- `hart_start` on an SMP machine: what it answers and whether it is a start. -/
theorem start_result {dc : Option DecodeCache} {m m' : Machine} (hs : m.Smp) (h : SbiCallAt dc m m')
    (h0 : m'.IsHsm 0) :
    (m.step dc).2.sbiResult = (m.startResult, 0) ∧
    ∀ t, m.hsmEvent dc = some (.start t) ↔
      t = m.index ∧ t < m.bus.plat.nharts ∧ (m.harts t).hsmState = .stopped := by
  have hat := h.atDispatch
  have hs' : m'.Smp := hs.of_shape hat.shape
  have hresult : m'.startResult = m.startResult := by
    unfold startResult
    rw [hat.index_eq, hat.nharts_eq, hat.state_eq]
  refine ⟨?_, fun t => ?_⟩
  · rw [step_of_sbiCallAt h, sbiCall_of_isHsm h0, sbiResult_returned, ← hresult]
    exact sbiResult_hartStart hs'
  · unfold hsmEvent
    rw [h.sbiCalling]
    dsimp only
    rw [if_neg (fun h1 => absurd (h1.2.symm.trans h0.2) (by decide)), if_pos h0, named_of_smp hs', hat.index_eq,
      hat.nharts_eq]
    by_cases hlt : m.index < m.bus.plat.nharts
    · rw [if_pos hlt]
      dsimp only
      rw [hat.state_eq]
      by_cases hst : (m.harts m.index).hsmState = .stopped
      · rw [if_pos hst]
        constructor
        · intro he
          cases he
          exact ⟨rfl, hlt, hst⟩
        · rintro ⟨rfl, _, _⟩
          rfl
      · rw [if_neg hst]
        refine ⟨fun he => (by cases he), ?_⟩
        rintro ⟨rfl, _, hst'⟩
        exact absurd hst' hst
    · rw [if_neg hlt]
      refine ⟨fun he => (by cases he), ?_⟩
      rintro ⟨rfl, hlt', _⟩
      exact absurd hlt' hlt

theorem status_result {dc : Option DecodeCache} {m m' : Machine} (hs : m.Smp) (h : SbiCallAt dc m m')
    (h2 : m'.IsHsm 2) (ht : m.index < m.bus.plat.nharts) :
    (m.step dc).2.sbiResult = (SBI_SUCCESS, (m.harts m.index).hsmState.code) := by
  have hat := h.atDispatch
  rw [step_of_sbiCallAt h, sbiCall_of_isHsm h2, sbiResult_returned]
  have hget := sbiResult_hartGetStatus (hs.of_shape hat.shape)
  rw [hat.index_eq, hat.nharts_eq, if_pos ht, hat.state_eq] at hget
  exact hget

end Machine

open Machine in
/-- The HSM life cycle on every run of an SMP machine: a stopped hart is halted, and unchanged but
for its reservation until it is started; `hart_start` succeeds exactly on an existing stopped hart,
and tells a started one so; `hart_get_status` answers the current state; and for each hart stops
and successful starts alternate, and its state is the one the last of them left. -/
theorem hsm_life_cycle {m0 m : Machine} {es : List HsmEvent} (hboot : m0.Booted) (hsmp : m0.Smp)
    (h : Trace m0 es m) :
    (∀ t, (m.harts t).hsmState = .stopped → (m.harts t).halted = true) ∧
    (∀ t, (m.harts t).hsmState = .stopped → ∀ es' m', Trace m es' m' → HsmEvent.start t ∉ es' →
      (m.harts t).Shed (m'.harts t)) ∧
    (∀ i dc m', SbiCallAt dc (m.onHart i) m' → m'.IsHsm 0 →
      ((m.onHart i).step dc).2.sbiResult = ((m.onHart i).startResult, 0) ∧
      ∀ t, (m.onHart i).hsmEvent dc = some (.start t) ↔
        t = (m.onHart i).index ∧ t < m.bus.plat.nharts ∧ (m.harts t).hsmState = .stopped) ∧
    (∀ i dc m', SbiCallAt dc (m.onHart i) m' → m'.IsHsm 2 → (m.onHart i).index < m.bus.plat.nharts →
      ((m.onHart i).step dc).2.sbiResult = (SBI_SUCCESS, (m.harts (m.onHart i).index).hsmState.code)) ∧
    (∀ t, (Trace.ownEvents t es).IsChain (· ≠ ·) ∧ (m.harts t).hsmState =
      if (Trace.ownEvents t es).getLast? = some (.stop t) then .stopped else .started) := by
  have hm : ∀ i, (m.harts i).Managed := h.managed fun i => Or.inl (hboot.started i)
  have hs : ∀ i, (m.onHart i).Smp := fun i => hsmp.of_shape h.shape
  refine ⟨fun t ht => ?_, fun t ht es' m' h' hes => h'.frozen hm ht hes, fun i dc m' hc h0 => start_result (hs i) hc h0,
    fun i dc m' hc h2 ht => status_result (hs i) hc h2 ht, h.alternates hboot.started⟩
  rcases hm t with hst | hst
  · rw [hst] at ht
    cases ht
  · exact hst.2

/-- Every hart drops to S-mode, its id in x15 and the HSM extension in a7. -/
def toSupervisor : List (BitVec 32) :=
  [0xf14027f3, 0x00000297, 0x01c28293, 0x34129073, 0x00001337, 0x00135313, 0x30031073, 0x30200073, 0x004858b7,
    0x34d88893]

/-- Hart 0 stops itself; hart 1 starts it again at `0x80000050` with argument 7. -/
def startProgram : List (BitVec 32) :=
  toSupervisor ++ [0x00079663, 0x00100813, 0x00000073, 0x00000813, 0x00000513, 0x00000597, 0x01458593, 0x00700613,
    0x00000073, 0x0000006f, 0x0000006f]

/-- Hart 0 is stopped, and hart 1 is about to start it. -/
def starting : Handle :=
  (fun q : Handle => q.quantaStep.2)^[33] (Handle.load .rv64 2 0x80000000 0x1000 0x80000000 startProgram)

theorem starting_reachable : starting.Reachable :=
  Handle.Reachable.iterate ⟨_, Handle.load_fresh .rv64 (by decide) (by decide) .., ReflTransGen.refl⟩ 33

theorem hsm_life_cycle_start : (starting.machine.harts 0).halted = true ∧
    ((starting.machine.onHart 1).step none).2.sbiResult = (Machine.SBI_SUCCESS, 0) := by
  obtain ⟨m0, es, hboot, hsmp, htrace⟩ := starting_reachable.trace
  obtain ⟨hhalted, _, hstart, _, _⟩ := hsm_life_cycle hboot hsmp htrace
  refine ⟨hhalted 0 (by decide +kernel), ?_⟩
  obtain ⟨m', hcall, h0⟩ : ∃ m', Machine.SbiCallAt none (starting.machine.onHart 1) m' ∧ decide (m'.IsHsm 0) = true :=
    Machine.exists_sbiCallAt (by decide +kernel)
  rw [(hstart 1 none m' hcall (of_decide_eq_true h0)).1]
  decide +kernel

end Quanta
