/-
`cpu_step` as a run of acts. The prologue that lets the step go on changes nothing but `mip`, the
timer latch and the trap flag; a fetch that succeeds changes nothing but the TLB and the bus; so
the instruction executes in the privilege and `mstatus` the step began with.
-/
import Quanta.Effects.Acts

namespace Quanta

open Relation Run

/-! ## The prologue -/

namespace CPU

/-- `c` up to what an untaken prologue writes. -/
structure SamePre (c c' : CPU) : Prop where
  csr : ∀ a, a ≠ CSR_MIP → c'.csr a = c.csr a
  rest : c' = { c with csr := c'.csr, sbiTimerArmed := c'.sbiTimerArmed }

theorem SamePre.refl (c : CPU) : SamePre c c := ⟨fun _ _ => rfl, rfl⟩

theorem SamePre.trans {c c' c'' : CPU} (h : SamePre c c') (h' : SamePre c' c'') : SamePre c c'' where
  csr a ha := (h'.csr a ha).trans (h.csr a ha)
  rest := by
    have h2 := h'.rest
    rw [h.rest] at h2
    exact h2

theorem samePre_setMip (c : CPU) (v : BitVec 64) : SamePre c (c.setCsr CSR_MIP v) :=
  ⟨fun _ ha => c.setCsr_csr_ne v ha, rfl⟩

theorem samePre_firmwareTimerTick (c : CPU) (b : Bus) : SamePre c (c.firmwareTimerTick b) := by
  unfold firmwareTimerTick
  split
  · exact .refl c
  split
  · exact ⟨fun _ ha => c.setCsr_csr_ne _ ha, rfl⟩
  · exact .refl c

theorem samePre_sstcTick (c : CPU) : SamePre c c.sstcTick := by
  unfold sstcTick
  split
  · exact .refl c
  split
  · exact c.samePre_setMip _
  · exact c.samePre_setMip _

theorem samePre_effectiveMip (c : CPU) (b : Bus) : SamePre c (c.effectiveMip b).2 := by
  unfold effectiveMip
  split
  · exact c.samePre_setMip _
  · exact .refl c

/-- `take_interrupt` refreshes `mip`, and enters a trap exactly when it reports one. -/
theorem takeInterrupt_cases (c : CPU) (b : Bus) :
    c.takeInterrupt b = (false, (c.effectiveMip b).2) ∨
    ∃ i, i ∈ irqOrder ∧ (c.effectiveMip b).2.deliverable
        ((c.effectiveMip b).1 &&& lo32 ((c.effectiveMip b).2.csr CSR_MIE)) i = true ∧
      c.takeInterrupt b = (true, (c.effectiveMip b).2.enterTrap
        (causeInterrupt c.xlen ||| BitVec.ofNat 64 i) 0 ((c.effectiveMip b).2.delegated i)) := by
  have hx : (c.effectiveMip b).2.xlen = c.xlen := by rw [(c.samePre_effectiveMip b).rest]
  unfold takeInterrupt
  dsimp only
  split
  · next i hi =>
    rw [hx]
    exact Or.inr ⟨i, List.mem_of_find?_eq_some hi, List.find?_some hi, rfl⟩
  · exact Or.inl rfl

/-- An untaken prologue leaves the hart as it was but for `mip` and the timer latch. -/
theorem samePre_preStep {c c' : CPU} {b : Bus} (h : c.preStep b = (false, c')) : SamePre c c' := by
  unfold preStep at h
  split at h
  · cases h
    exact .refl c
  split at h
  · cases h
  · have hticks := (c.samePre_firmwareTimerTick b).trans (samePre_sstcTick _)
    rcases ((c.firmwareTimerTick b).sstcTick).takeInterrupt_cases b with hn | ⟨i, _, _, hi⟩
    · rw [hn] at h
      cases h
      exact hticks.trans (samePre_effectiveMip _ b)
    · rw [hi] at h
      cases h

end CPU

namespace Machine

variable {ok : Guard} {m : Machine} (dc : Option DecodeCache) {m' : Machine}

theorem acts_timerTicks (htick : ok.Ticks) (m : Machine) :
    Acts ok m (m.setCpu ((m.cpu.firmwareTimerTick m.bus).sstcTick)) := by
  have h1 : Acts ok m (m.setCpu (m.cpu.firmwareTimerTick m.bus)) := by
    unfold CPU.firmwareTimerTick
    split
    · rw [setCpu_cpu]
    split
    · exact m.acts_hart (.timer _ _ false (Or.inl rfl) (htick _ _ _))
    · rw [setCpu_cpu]
  refine h1.trans ?_
  have h2 : ∀ m : Machine, Acts ok m (m.setCpu m.cpu.sstcTick) := by
    intro m
    unfold CPU.sstcTick
    split
    · rw [setCpu_cpu]
    split
    · exact m.acts_hart (.timer _ _ m.cpu.sbiTimerArmed (Or.inl rfl) (htick _ _ _))
    · exact m.acts_hart (.timer _ _ m.cpu.sbiTimerArmed (Or.inr rfl) (htick _ _ _))
  have h3 := h2 (m.setCpu (m.cpu.firmwareTimerTick m.bus))
  rw [cpu_setCpu, setCpu_setCpu] at h3
  exact h3

theorem sOn_priv {c : CPU} (h : c.sOn = true) : c.priv.ule PRIV_S = true := by
  unfold CPU.sOn at h
  simp only [Bool.or_eq_true, Bool.and_eq_true, beq_iff_eq] at h
  rcases h with h | ⟨h, _⟩
  · rw [BitVec.ult_iff_lt] at h
    exact BitVec.ule_iff_le.mpr (BitVec.le_of_lt h)
  · rw [h]
    decide

theorem enter_setCpu (m : Machine) {c : CPU} (cause tval : BitVec 64) (toS : Bool)
    (h : toS = true → c.priv.ule PRIV_S = true) (hc : cause ≠ 10) :
    Enter (m.setCpu c) (m.setCpu (c.enterTrap cause tval toS)) := by
  have he := Enter.mk (m.setCpu c) cause tval toS
  rw [cpu_setCpu, setCpu_setCpu] at he
  exact he h fun h => absurd h hc

/-- No interrupt has cause 10. -/
theorem interrupt_cause_ne (xlen : Xlen) {i : Nat} (hi : i ∈ CPU.irqOrder) :
    causeInterrupt xlen ||| BitVec.ofNat 64 i ≠ 10 := by
  have h : ∀ i ∈ CPU.irqOrder, causeInterrupt xlen ||| BitVec.ofNat 64 i ≠ 10 := by
    cases xlen <;> decide
  exact h i hi

theorem acts_effectiveMip (htick : ok.Ticks) (m : Machine) (hp : m.bus.mem.plat = true) :
    Acts ok m (m.setCpu (m.cpu.effectiveMip m.bus).2) := by
  unfold CPU.effectiveMip
  rw [if_pos hp]
  exact m.acts_hart (.refreshMip _ m.bus hp (htick _ _ _))

/-- `take_interrupt`: the refresh of `mip`, then possibly the entry. -/
theorem stepOut_takeInterrupt (htick : ok.Ticks) (m : Machine) (hp : m.bus.mem.plat = true) :
    StepOut ok m (m.setCpu (m.cpu.takeInterrupt m.bus).2) := by
  rcases m.cpu.takeInterrupt_cases m.bus with hn | ⟨i, hmem, hd, hi⟩
  · rw [hn]
    exact .of_run (acts_effectiveMip htick m hp)
  · rw [hi]
    refine .after (acts_effectiveMip htick m hp) (.of_end (enter_setCpu m _ _ _ (fun hs => ?_) (interrupt_cause_ne _ hmem)))
    unfold CPU.deliverable at hd
    rw [hs, if_pos rfl, Bool.and_eq_true] at hd
    exact sOn_priv hd.2

theorem acts_takeInterrupt (htick : ok.Ticks) {c : CPU} (hp : m.bus.mem.plat = true) (h : m.cpu.takeInterrupt m.bus = (false, c)) :
    Acts ok m (m.setCpu c) := by
  rcases m.cpu.takeInterrupt_cases m.bus with hn | ⟨i, _, _, hi⟩
  · rw [hn] at h
    cases h
    exact acts_effectiveMip htick m hp
  · rw [hi] at h
    cases h

/-- The prologue when it does not consume the step. -/
theorem acts_preStep (htick : ok.Ticks) (h : m.preStep = (false, m')) : Acts ok m m' := by
  unfold preStep CPU.preStep at h
  dsimp only at h
  split at h
  · cases h
    rw [setCpu_cpu]
  · next hp =>
    have hp : m.bus.mem.plat = true := by simpa using hp
    split at h
    · cases h
    · obtain ⟨h1, rfl⟩ := Prod.mk.inj h
      have ht : Acts ok (m.setCpu ((m.cpu.firmwareTimerTick m.bus).sstcTick)) _ :=
        acts_takeInterrupt htick hp (by rw [cpu_setCpu]; exact Prod.ext h1 rfl)
      rw [setCpu_setCpu] at ht
      exact (acts_timerTicks htick m).trans ht

theorem stepOut_preStep (htick : ok.Ticks) (m : Machine) : StepOut ok m m.preStep.2 := by
  unfold preStep CPU.preStep
  dsimp only
  split
  · rw [setCpu_cpu]
    exact .refl m
  · next hp =>
    have hp : m.bus.mem.plat = true := by simpa using hp
    split
    · exact .of_run (m.acts_hart (.halt ..))
    · refine .after (acts_timerTicks htick m) ?_
      have h : StepOut ok _ _ := stepOut_takeInterrupt htick (m.setCpu ((m.cpu.firmwareTimerTick m.bus).sstcTick)) hp
      rw [cpu_setCpu, setCpu_setCpu] at h
      exact h

theorem acts_beginStep (m : Machine) : Acts ok m m.beginStep :=
  (m.acts_bus (clearFault_shape m.bus)).trans (acts_hart _ (.untrap _))

/-! ## Fetch -/

/-- `m'` is `m` up to the hart's TLB and the bus. -/
def SameFetch (m m' : Machine) : Prop := ∃ t b, m' = (m.setCpu { m.cpu with tlb := t }).setBus b

namespace SameFetch

variable {m' m'' : Machine}

theorem setBus (m : Machine) (b : Bus) : SameFetch m (m.setBus b) :=
  ⟨m.cpu.tlb, b, by rw [setCpu_cpu]⟩

theorem cpu (h : SameFetch m m') : ∃ t, m'.cpu = { m.cpu with tlb := t } := by
  obtain ⟨t, b, rfl⟩ := h
  exact ⟨t, by rw [cpu_setBus, cpu_setCpu]⟩

theorem trans (h : SameFetch m m') (h' : SameFetch m' m'') : SameFetch m m'' := by
  obtain ⟨t, b, rfl⟩ := h
  obtain ⟨t', b', rfl⟩ := h'
  refine ⟨t', b', ?_⟩
  rw [cpu_setBus, cpu_setCpu, ← setCpu_setCpu m { m.cpu with tlb := t } { m.cpu with tlb := t' }]
  rfl

end SameFetch

theorem sameFetch_translate {va : BitVec 64} {acc : AccessType} {r : Except (BitVec 32) (BitVec 64)}
    (h : m.translate va acc = (r, m')) : SameFetch m m' := by
  obtain ⟨t, ht⟩ := mmuTranslate_cpu m.cpu m.bus va acc
  have hm : m' = (m.translate va acc).2 := by rw [h]
  refine ⟨t, (mmuTranslate m.cpu m.bus va acc).bus, ?_⟩
  rw [hm, ← ht]
  rfl

/-- The guard admits the translation of the high halfword, if there is one. -/
def SeesHigh (ok : Guard) (m : Machine) (loPa : BitVec 64) : Prop :=
  (memRead16 m.bus loPa).2.mem.fault = false → (memRead16 m.bus loPa).1.setWidth 2 = 3#2 →
    ok.sees m.cpu (memRead16 m.bus loPa).2 (m.cpu.pc + 2) .fetch

theorem stepOut_fetchMiss (m : Machine) {loPa : BitVec 64} (hsee : SeesHigh ok m loPa) :
    StepOut ok m (m.fetchMiss loPa).2 := by
  unfold fetchMiss
  dsimp only
  refine .after (m.acts_bus (memRead_shape m.bus loPa 2)) ?_
  split
  · exact stepOut_raiseTrap _ _ (raisedAt_const _ (by decide) (by decide))
  next hlo =>
  split
  · split
    · exact stepOut_raiseTrap _ _ (raisedAt_const _ (by decide) (by decide))
    · exact .refl _
  · next hlong =>
    have hsee := hsee (Bool.eq_false_iff.mpr hlo) (not_not.mp hlong)
    split
    · next ht =>
      exact .after (acts_translate_eq hsee ht) (stepOut_raiseTrap _ _ (pageFault_raisedAt ht _))
    · next hiPa m' ht =>
      refine .after ((acts_translate_eq hsee ht).trans (m'.acts_bus (memRead_shape m'.bus hiPa 2))) ?_
      split
      · exact stepOut_raiseTrap _ _ (raisedAt_const _ (by decide) (by decide))
      · exact .refl _

/-- A miss that delivers an instruction. -/
theorem fetchMiss_some {loPa : BitVec 64} (hsee : SeesHigh ok m loPa) {f : Fetched}
    (h : m.fetchMiss loPa = (some f, m')) : Acts ok m m' ∧ SameFetch m m' ∧ m'.bus.mem.fault = false := by
  unfold fetchMiss at h
  dsimp only at h
  split at h
  · cases h
  next hlo =>
  split at h
  · split at h
    · cases h
    · cases h
      exact ⟨m.acts_bus (memRead_shape ..), .setBus m _, Bool.eq_false_iff.mpr hlo⟩
  · next hlong =>
    have hsee := hsee (Bool.eq_false_iff.mpr hlo) (not_not.mp hlong)
    split at h
    · cases h
    · next hiPa m1 ht =>
      split at h
      · cases h
      · next hhi =>
        cases h
        exact ⟨(m.acts_bus (memRead_shape ..)).trans ((acts_translate_eq hsee ht).trans (m1.acts_bus (memRead_shape ..))),
          ((SameFetch.setBus m _).trans (sameFetch_translate ht)).trans (.setBus m1 _),
          Bool.eq_false_iff.mpr hhi⟩

/-- The guard admits the translations of a fetch. -/
structure SeesFetch (ok : Guard) (dc : Option DecodeCache) (m : Machine) : Prop where
  lo : ok.sees m.cpu m.bus m.cpu.pc .fetch
  hi : ∀ pa m', m.translate m.cpu.pc .fetch = (.ok pa, m') → dc.bind (·.lookup pa) = none → SeesHigh ok m' pa

theorem SeesFetch.of_all (h : ∀ c b va acc, ok.sees c b va acc) (dc : Option DecodeCache) (m : Machine) :
    SeesFetch ok dc m :=
  ⟨h _ _ _ _, fun _ _ _ _ _ _ => h _ _ _ _⟩

theorem stepOut_fetch (m : Machine) (hsee : SeesFetch ok dc m) : StepOut ok m (m.fetch dc).2.2 := by
  unfold fetch
  dsimp only
  split
  · next ht =>
    exact .after (acts_translate_eq hsee.lo ht) (stepOut_raiseTrap _ _ (pageFault_raisedAt ht _))
  · next loPa m1 ht =>
    refine .after (acts_translate_eq hsee.lo ht) ?_
    split
    · exact .refl m1
    · next hmiss =>
      have hout : StepOut ok m1 (m1.fetchMiss loPa).2 := m1.stepOut_fetchMiss (hsee.hi _ _ ht hmiss)
      split
      · next hm =>
        rw [hm] at hout
        exact hout
      · next hm =>
        rw [hm] at hout
        exact hout

theorem fetch_some {dc dc' : Option DecodeCache} {i : BitVec 32 × BitVec 32}
    (hf : m.bus.mem.fault = false) (hsee : SeesFetch ok dc m) (h : m.fetch dc = (some i, dc', m')) :
    Acts ok m m' ∧ SameFetch m m' ∧ m'.bus.mem.fault = false := by
  unfold fetch at h
  dsimp only at h
  split at h
  · cases h
  · next loPa m1 ht =>
    split at h
    · cases h
      exact ⟨acts_translate_eq hsee.lo ht, sameFetch_translate ht, translate_fault hf ht⟩
    · next hmiss =>
      split at h
      · cases h
      · next hm =>
        cases h
        obtain ⟨ha, hs, hf'⟩ := fetchMiss_some (hsee.hi _ _ ht hmiss) hm
        exact ⟨(acts_translate_eq hsee.lo ht).trans ha, (sameFetch_translate ht).trans hs, hf'⟩

/-! ## The step -/

/-- The instruction a step executes, with its length, if it gets that far. -/
def fetched (dc : Option DecodeCache) (m : Machine) : Option (BitVec 32 × BitVec 32) :=
  match m.beginStep.preStep with
  | (true, _) => none
  | (false, m) => (m.fetch dc).1

/-- An untaken prologue: the machine up to the hart's `mip`, timer latch and trap flag. -/
theorem preStep_untaken (h : m.beginStep.preStep = (false, m')) :
    ∃ c, CPU.SamePre { m.cpu with trapped := false } c ∧ m' = (m.setBus m.bus.clearFault).setCpu c := by
  unfold preStep at h
  cases hp : m.beginStep.cpu.preStep m.beginStep.bus with
  | mk taken c =>
    rw [hp] at h
    cases h
    refine ⟨c, ?_, ?_⟩
    · have hs := CPU.samePre_preStep hp
      rw [beginStep, cpu_setCpu] at hs
      exact hs
    · rw [beginStep, setCpu_setCpu]

/-- The translations a step of `m` makes, with the states it makes them in: of the pc after the
prologue, of the address of the high halfword once the low one has been read, and of the address of
the instruction's own access after the fetch. -/
inductive Translates (dc : Option DecodeCache) (m : Machine) : Machine → BitVec 64 → AccessType → Prop
  | fetchLo {m1 : Machine} (h : m.beginStep.preStep = (false, m1)) : Translates dc m m1 m1.cpu.pc .fetch
  | fetchHi {m1 m2 : Machine} {pa : BitVec 64} (h : m.beginStep.preStep = (false, m1))
      (ht : m1.translate m1.cpu.pc .fetch = (.ok pa, m2)) (hmiss : dc.bind (·.lookup pa) = none)
      (hread : (memRead16 m2.bus pa).2.mem.fault = false) (hlong : (memRead16 m2.bus pa).1.setWidth 2 = 3#2) :
      Translates dc m (m2.setBus (memRead16 m2.bus pa).2) (m2.cpu.pc + 2) .fetch
  | data {m1 m2 : Machine} {dc' : Option DecodeCache} {inst ilen : BitVec 32} {va : BitVec 64} {acc : AccessType}
      (h : m.beginStep.preStep = (false, m1)) (hf : m1.fetch dc = (some (inst, ilen), dc', m2))
      (ha : m2.translation inst = some (va, acc)) : Translates dc m m2 va acc

/-! ## The instruction a step executes -/

/-- The instruction a step executes, with its length, and the machine it executes in. -/
def dispatching (dc : Option DecodeCache) (m : Machine) : Option ((BitVec 32 × BitVec 32) × Machine) :=
  match m.beginStep.preStep with
  | (true, _) => none
  | (false, m) =>
    match m.fetch dc with
    | (some i, _, m) => some (i, m)
    | (none, _, _) => none

theorem fetched_eq (m : Machine) : m.fetched dc = (m.dispatching dc).map Prod.fst := by
  unfold fetched dispatching
  split
  · rfl
  · split <;> simp [*]

theorem step_of_dispatching {dc : Option DecodeCache} {inst ilen : BitVec 32}
    (h : m.dispatching dc = some ((inst, ilen), m')) : (m.step dc).2 = m'.execute inst ilen := by
  unfold dispatching at h
  unfold step
  generalize m.beginStep.preStep = p at h ⊢
  obtain ⟨taken, m1⟩ := p
  cases taken with
  | true => cases h
  | false =>
    dsimp only at h ⊢
    generalize fetch dc m1 = q at h ⊢
    obtain ⟨_ | i, dc', m2⟩ := q
    · cases h
    · cases h
      rfl

/-- The machine at dispatch, up to the TLB, `mip`, the timer latch and the bus. -/
structure AtDispatch (m m' : Machine) : Prop where
  self : m'.self = m.self
  others : ∀ i, i ≠ m.self → m'.harts i = m.harts i
  csr : ∀ a, a ≠ CSR_MIP → m'.cpu.csr a = m.cpu.csr a
  cpu : m'.cpu = { m.cpu with trapped := false, csr := m'.cpu.csr, sbiTimerArmed := m'.cpu.sbiTimerArmed, tlb := m'.cpu.tlb }
  fault : m'.bus.mem.fault = false
  shape : m.bus.Shape m'.bus

theorem atDispatch_of_dispatching {dc : Option DecodeCache} {i : BitVec 32 × BitVec 32}
    (h : m.dispatching dc = some (i, m')) : AtDispatch m m' := by
  unfold dispatching at h
  split at h
  · cases h
  · next m1 h1 =>
    obtain ⟨c, hc, rfl⟩ := preStep_untaken h1
    split at h
    · next h2 =>
      cases h
      obtain ⟨ha, ⟨t, b, hm⟩, hf⟩ := @fetch_some .free _ _ _ _ _ rfl (.of_all (fun _ _ _ _ => trivial) ..) h2
      have hshape := acts_shape ha
      subst hm
      refine ⟨rfl, fun i hi => ?_, fun a ha => ?_, ?_, hf, (clearFault_shape m.bus).trans hshape⟩
      · rw [harts_setBus, setCpu_setCpu, (m.setBus m.bus.clearFault).harts_setCpu_of_ne _ hi]
        rfl
      · rw [cpu_setBus, cpu_setCpu, cpu_setCpu]
        exact hc.csr a ha
      · rw [cpu_setBus, cpu_setCpu, cpu_setCpu]
        have hrest := hc.rest
        rw [hrest]
    · cases h

/-! ## The step as a run of acts -/

/-- After an untaken prologue the step is a run of acts, possibly ended by a trap entry, if its
instruction's execution is. -/
theorem stepOut_untaken {dc : Option DecodeCache} {m m1 : Machine} (h1 : m.beginStep.preStep = (false, m1))
    (hsee : ∀ m' va acc, Translates dc m m' va acc → ok.sees m'.cpu m'.bus va acc)
    (hexec : ∀ inst ilen m', m.dispatching dc = some ((inst, ilen), m') → SeesData ok m' inst →
      StepOut ok m' (m'.execute inst ilen)) : StepOut ok m1 (m.step dc).2 := by
  have hseeF : SeesFetch ok dc m1 :=
    ⟨hsee _ _ _ (.fetchLo h1), fun _ _ ht hmiss hread hlong => hsee _ _ _ (.fetchHi h1 ht hmiss hread hlong)⟩
  have hfetch : StepOut ok _ _ := stepOut_fetch dc m1 hseeF
  have hf : m1.bus.mem.fault = false := by
    obtain ⟨c, _, rfl⟩ := preStep_untaken h1
    rfl
  unfold dispatching at hexec
  unfold step
  rw [h1] at hexec ⊢
  dsimp only at hexec ⊢
  split
  · next h2 =>
    rw [h2] at hfetch
    exact hfetch
  · next inst ilen dc' m2 h2 =>
    rw [h2] at hexec
    exact .after (fetch_some hf hseeF h2).1 (hexec inst ilen m2 rfl fun _ _ ha => hsee _ _ _ (.data h1 h2 ha))

/-- And so is the whole of `cpu_step`. -/
theorem stepOut_of_execute (htick : ok.Ticks) (dc : Option DecodeCache) (m : Machine)
    (hsee : ∀ m' va acc, Translates dc m m' va acc → ok.sees m'.cpu m'.bus va acc)
    (hexec : ∀ inst ilen m', m.dispatching dc = some ((inst, ilen), m') → SeesData ok m' inst →
      StepOut ok m' (m'.execute inst ilen)) : StepOut ok m.beginStep (m.step dc).2 := by
  cases h1 : m.beginStep.preStep with
  | mk taken m1 =>
    cases taken with
    | false => exact .after (acts_preStep htick h1) (stepOut_untaken h1 hsee hexec)
    | true =>
      have hpre : StepOut ok m.beginStep m.beginStep.preStep.2 := stepOut_preStep htick m.beginStep
      unfold step
      rw [h1] at hpre ⊢
      exact hpre

/-- An MRET or a call of the firmware sees the hart as the step began with it. -/
theorem AtDispatch.admits {inst : BitVec 32} (h : AtDispatch m m') (hok : ok.Admits m inst) :
    ok.Admits m' inst where
  mret hm hp := by
    rw [h.csr _ (by decide)]
    rw [h.cpu] at hp
    exact hok.mret hm hp
  lr := hok.lr
  hsm hc ha := by
    have hcpu := h.cpu
    have hvec : m'.cpu.handlerInstalled CAUSE_ECALL_S = m.cpu.handlerInstalled CAUSE_ECALL_S := by
      have hp : m'.cpu.priv = m.cpu.priv := by rw [hcpu]
      unfold CPU.handlerInstalled CPU.trapVector CPU.trapToS
      rw [h.csr _ (by decide), h.csr _ (by decide), h.csr _ (by decide), hp]
    obtain ⟨he, hp, hn⟩ := hc
    refine hok.hsm ⟨he, ?_, hvec.symm.trans hn⟩ ?_
    · rw [hcpu] at hp
      exact hp
    · unfold regRead CPU.regRead at ha
      rw [hcpu] at ha
      exact ha
  fp := hok.fp

theorem stepOut_step (hlax : ok.Lax) (dc : Option DecodeCache) (m : Machine)
    (hsee : ∀ m' va acc, Translates dc m m' va acc → ok.sees m'.cpu m'.bus va acc)
    (hok : ∀ inst ilen, m.fetched dc = some (inst, ilen) → ok.Admits m inst) :
    StepOut ok m.beginStep (m.step dc).2 := by
  refine stepOut_of_execute hlax.ticks dc m hsee fun inst ilen m' hd hseeD => ?_
  have hat := atDispatch_of_dispatching hd
  exact stepOut_execute hat.fault hseeD ilen (hat.admits (hok inst ilen (by rw [fetched_eq, hd]; rfl))) (hlax.edits _ _)

/-- What a step does when nothing is known of it. -/
theorem stepOut_free (m : Machine) : StepOut .free m.beginStep (m.step dc).2 :=
  stepOut_step Guard.free_lax dc m (fun _ _ _ _ => trivial) fun _ _ _ => Guard.free_admits _ _

/-! ## What a step never moves -/

/-- A step does not move the RAM or the devices, and stays on its hart. -/
theorem step_frame (m : Machine) :
    m.bus.Shape (m.step dc).2.bus ∧ (m.step dc).2.self = m.self := by
  obtain ⟨m1, hacts, hend⟩ := stepOut_free dc m
  have hall := m.acts_beginStep.trans hacts
  have hshape : m.bus.Shape m1.bus := acts_shape hall
  have hself : m1.self = m.self := acts_self hall
  generalize (m.step dc).2 = m' at hend
  rcases hend with rfl | hend
  · exact ⟨hshape, hself⟩
  · cases hend
    exact ⟨hshape, hself⟩

theorem step_shape (m : Machine) : m.bus.Shape (m.step dc).2.bus := (step_frame dc m).1

theorem self_step (m : Machine) : (m.step dc).2.self = m.self := (step_frame dc m).2

end Machine
end Quanta
