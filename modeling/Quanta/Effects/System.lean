/-
Runs of the whole system. A booted machine moves by stepping any hart that is not halted, with
any decode cache, or by any change of the bus under the harts (a timer tick, host input). An
invariant of one hart that every act keeps holds of every hart in every reachable state.
-/
import Mathlib.Logic.Function.Iterate
import Quanta.Effects.Step

namespace Quanta

open Relation Run

variable {P : Option DecodeCache → Machine → Prop}

/-- `start_at` on hart `i`: `cpu_init`, then its id. -/
def CPU.start (tlb : BitVec 4 → TlbEntry) (entryPc : BitVec 64) (xlen : Xlen) (i : Nat) : CPU :=
  { CPU.init tlb entryPc xlen with hartid := BitVec.ofNat 32 i }.setCsr CSR_MHARTID (BitVec.ofNat 64 i)

/-- The hart with the registers the boot handoff writes (sp, and a0 and a1 for a kernel). -/
def CPU.boot (tlb : BitVec 4 → TlbEntry) (entryPc : BitVec 64) (xlen : Xlen) (i : Nat)
    (regs : List (BitVec 5 × BitVec 64)) : CPU :=
  regs.foldl (fun c r => c.regWrite r.1 r.2) (CPU.start tlb entryPc xlen i)

/-- Every hart has just been brought up. -/
def Machine.Booted (m : Machine) : Prop :=
  ∀ i, ∃ tlb entryPc xlen regs, m.harts i = CPU.boot tlb entryPc xlen i regs

/-- The machine about to step hart `i`. -/
def Machine.onHart (m : Machine) (i : Nat) : Machine := { m with self := i }

/-- One move of the system, with the steps that satisfy `P`. A halted hart's slot is a no-op. -/
inductive SysStep (P : Option DecodeCache → Machine → Prop) : Machine → Machine → Prop
  | hart (m : Machine) (i : Nat) (dc : Option DecodeCache) (hrun : (m.harts i).halted = false)
      (h : P dc (m.onHart i)) : SysStep P m ((m.onHart i).step dc).2
  | env (m : Machine) (b : Bus) : SysStep P m (m.setBus b)

/-- The states of the runs from a boot whose steps all satisfy `P`. -/
def Reachable (P : Option DecodeCache → Machine → Prop) (m : Machine) : Prop :=
  ∃ m0 : Machine, m0.Booted ∧ ReflTransGen (SysStep P) m0 m

theorem Reachable.step {m : Machine} (h : Reachable P m) (i : Nat)
    (dc : Option DecodeCache) (hrun : (m.harts i).halted = false) (hP : P dc (m.onHart i)) :
    Reachable P ((m.onHart i).step dc).2 := by
  obtain ⟨m0, h0, hr⟩ := h
  exact ⟨m0, h0, hr.tail (.hart m i dc hrun hP)⟩

/-! ## Loading a program -/

/-- Byte `i` of an image of instruction words. -/
def imageByte (words : List (BitVec 32)) (i : Nat) : Byte :=
  (words.getD (i / 4) 0 >>> (8 * (i % 4))).setWidth 8

/-- `quanta_load_image` and `start_at`: RAM holding the image, the devices attached, every hart at
the entry with sp at the top of RAM. -/
def Machine.load (xlen : Xlen) (nharts : Nat) (base size entry : BitVec 64) (words : List (BitVec 32)) :
    Machine where
  harts := fun i => CPU.boot (fun _ => .empty) entry xlen i [(2, (base + size) &&& ~~~0xf#64)]
  self := 0
  bus :=
    { mem := { memInit base size with data := imageByte words, plat := true }
      plat := platSetHarts (platAttachRam platInit base size) nharts
      out := [] }
  cache := none
  err := []

theorem Machine.load_booted (xlen : Xlen) (nharts : Nat) (base size entry : BitVec 64)
    (words : List (BitVec 32)) : (load xlen nharts base size entry words).Booted :=
  fun _ => ⟨_, entry, xlen, _, rfl⟩

theorem Machine.load_reachable (P : Option DecodeCache → Machine → Prop) (xlen : Xlen) (nharts : Nat)
    (base size entry : BitVec 64) (words : List (BitVec 32)) :
    Reachable P (load xlen nharts base size entry words) :=
  ⟨_, load_booted xlen nharts base size entry words, ReflTransGen.refl⟩

/-- Stepping a lone hart `n` times stays reachable as long as it does not halt. -/
theorem Reachable.iterate {m : Machine} (h : Reachable P m) (n : Nat)
    (hrun : ∀ k < n, (Machine.cpuStep^[k] m).self = 0 ∧ (Machine.cpuStep^[k] m).cpu.halted = false)
    (hP : ∀ k < n, P none (Machine.cpuStep^[k] m)) : Reachable P (Machine.cpuStep^[n] m) := by
  induction n with
  | zero => exact h
  | succ n ih =>
    rw [Function.iterate_succ_apply']
    have hn := ih (fun k hk => hrun k (by omega)) (fun k hk => hP k (by omega))
    obtain ⟨hself, hrun'⟩ := hrun n (by omega)
    have h0 : (Machine.cpuStep^[n] m).onHart 0 = Machine.cpuStep^[n] m := by
      unfold Machine.onHart
      rw [← hself]
    have hs := hn.step 0 none (by rw [← hself]; exact hrun') (by rw [h0]; exact hP n (by omega))
    rw [h0] at hs
    exact hs

/-! ## Invariants of one hart -/

/-- Acts keep `K` of the hart that acts and `J` of its siblings. -/
structure ActInv (ok : Guard) (J K : CPU → Prop) : Prop where
  act : ∀ c c', HartAct ok c c' → K c → K c'
  unreserve : ∀ c, J c → J { c with reserveValid := false }
  start : ∀ (c : CPU) pc a, ok.hsm → c.hsmState = .stopped → J c → J (Machine.hsmEnter c pc a)
  startSelf : ∀ (c : CPU) pc a, ok.hsm → c.hsmState = .stopped → K c → K (Machine.hsmEnter c pc a)

/-- A hart invariant in two phases: `J` between steps and `K` while the hart acts. -/
structure HartInv (ok : Guard) (J K : CPU → Prop) : Prop extends ActInv ok J K where
  begin : ∀ c : CPU, c.halted = false → J c → K c
  enter : ∀ (c : CPU) cause tval toS, (toS = true → c.priv.ule PRIV_S = true) → K c →
    J (c.enterTrap cause tval toS)
  rest : ∀ c, K c → J c

namespace ActInv

variable {ok : Guard} {J K : CPU → Prop} {m m' : Machine}

/-- The stepped hart is acting, the others rest. -/
structure Acting (J K : CPU → Prop) (m : Machine) : Prop where
  self : K m.cpu
  others : ∀ i, i ≠ m.self → J (m.harts i)

theorem unreserved (hI : ActInv ok J K) (w : BitVec 64) {c : CPU} (h : J c) : J (Machine.breakOne w c) := by
  unfold Machine.breakOne
  split
  · exact hI.unreserve c h
  · exact h

theorem unreserved_self (hI : ActInv ok J K) (w : BitVec 64) {c : CPU} (h : K c) : K (Machine.breakOne w c) := by
  unfold Machine.breakOne
  split
  · exact hI.act _ _ (.unreserve c) h
  · exact h

/-- An act keeps what holds of the hart that acts. -/
theorem act_self (hI : ActInv ok J K) (ha : Act ok m m') (h : K m.cpu) : K m'.cpu := by
  cases ha with
  | hart c hc =>
    rw [Machine.cpu_setCpu]
    exact hI.act _ _ hc h
  | breakReservation addr =>
    unfold Machine.breakReservation
    dsimp only
    split
    · unfold Machine.cpu
      dsimp only
      split
      · exact hI.unreserved_self _ h
      · exact h
    · rw [Machine.cpu_setCpu]
      exact hI.unreserved_self _ h
  | start t pc a _ hok hs =>
    by_cases ht : t = m.self
    · subst ht
      exact (m.cpu_setCpu _).symm ▸ hI.startSelf _ pc a hok hs h
    · rw [m.cpu_setHart_of_ne _ ht]
      exact h
  | _ => exact h

/-- An act keeps what holds of a hart that rests. -/
theorem act_other (hI : ActInv ok J K) (ha : Act ok m m') {i : Nat} (hi : i ≠ m.self) (h : J (m.harts i)) :
    J (m'.harts i) := by
  cases ha with
  | hart c _ =>
    rw [m.harts_setCpu_of_ne c hi]
    exact h
  | breakReservation addr =>
    unfold Machine.breakReservation
    dsimp only
    split
    · dsimp only
      split
      · exact hI.unreserved _ h
      · exact h
    · rw [m.harts_setCpu_of_ne _ hi]
      exact h
  | start t pc a _ hok hs =>
    by_cases hit : i = t
    · subst hit
      rw [m.harts_setHart_self]
      exact hI.start _ pc a hok hs h
    · rw [m.harts_setHart_of_ne _ hit]
      exact h
  | _ => exact h

theorem acts_other (hI : ActInv ok J K) (ha : Acts ok m m') {i : Nat} (hi : i ≠ m.self) (h : J (m.harts i)) :
    J (m'.harts i) :=
  (Run.preserves (P := fun m => i ≠ m.self ∧ J (m.harts i))
    (fun _ _ ha h => ⟨Machine.acts_self (ReflTransGen.single ha) ▸ h.1, hI.act_other ha h.1 h.2⟩) ha ⟨hi, h⟩).2

theorem acts_cpu (hI : ActInv ok J K) (ha : Acts ok m m') (h : K m.cpu) : K m'.cpu :=
  Run.preserves (P := fun m => K m.cpu) (fun _ _ => hI.act_self) ha h

theorem acts (hI : ActInv ok J K) (ha : Acts ok m m') (h : Acting J K m) : Acting J K m' where
  self := hI.acts_cpu ha h.self
  others i hi := by
    rw [Machine.acts_self ha] at hi
    exact hI.acts_other ha hi (h.others i hi)

/-- A step keeps what holds of its hart's siblings. -/
theorem step_other (hI : ActInv ok J K) (hlax : ok.Lax) (dc : Option DecodeCache)
    (hsee : ∀ m' va acc, Machine.Translates dc m m' va acc → ok.sees m'.cpu m'.bus va acc)
    (hok : ∀ inst ilen, m.fetched dc = some (inst, ilen) → ok.Admits m inst)
    {i : Nat} (hi : i ≠ m.self) (h : J (m.harts i)) : J ((m.step dc).2.harts i) := by
  obtain ⟨m1, hacts, hend⟩ := Machine.stepOut_step hlax dc m hsee hok
  have hall := m.acts_beginStep.trans hacts
  have h1 : J (m1.harts i) := hI.acts_other hall hi h
  rw [← Machine.acts_self hall] at hi
  generalize (m.step dc).2 = m' at hend
  rcases hend with rfl | hend
  · exact h1
  · cases hend
    rw [m1.harts_setCpu_of_ne _ hi]
    exact h1

theorem step_other_free (hI : ActInv .free J K) (dc : Option DecodeCache) {i : Nat} (hi : i ≠ m.self)
    (h : J (m.harts i)) : J ((m.step dc).2.harts i) :=
  hI.step_other Guard.free_lax dc (fun _ _ _ _ => trivial) (fun _ _ _ => Guard.free_admits _ _) hi h

end ActInv

/-- A relation between states of a hart that its acts keep, and that starting it does. -/
structure Keeps (ok : Guard) (R : CPU → CPU → Prop) : Prop where
  refl : ∀ c, R c c
  trans : ∀ {c c' c''}, R c c' → R c' c'' → R c c''
  act : ∀ c c', HartAct ok c c' → R c c'
  start : ∀ (c : CPU) pc a, R c (Machine.hsmEnter c pc a)

namespace Keeps

variable {ok : Guard} {R : CPU → CPU → Prop} {m m' : Machine}

theorem inv (h : Keeps ok R) (c0 c1 : CPU) : ActInv ok (R c0) (R c1) where
  act _ _ ha hc := h.trans hc (h.act _ _ ha)
  unreserve c hc := h.trans hc (h.act _ _ (.unreserve c))
  start c pc a _ _ hc := h.trans hc (h.start c pc a)
  startSelf c pc a _ _ hc := h.trans hc (h.start c pc a)

theorem acts (h : Keeps ok R) (ha : Acts ok m m') : R m.cpu m'.cpu := (h.inv m.cpu m.cpu).acts_cpu ha (h.refl _)

theorem harts (h : Keeps ok R) (ha : Acts ok m m') (i : Nat) : R (m.harts i) (m'.harts i) := by
  by_cases hi : i = m.self
  · have hcpu := h.acts ha
    unfold Machine.cpu at hcpu
    rw [Machine.acts_self ha] at hcpu
    rw [hi]
    exact hcpu
  · exact (h.inv _ m.cpu).acts_other ha hi (h.refl _)

theorem stepOut_harts (h : Keeps ok R) (hs : StepOut ok m m')
    (henter : ∀ (c : CPU) cause tval toS, R c (c.enterTrap cause tval toS)) (i : Nat) : R (m.harts i) (m'.harts i) := by
  obtain ⟨m1, ha, rfl | he⟩ := hs
  · exact h.harts ha i
  · refine h.trans (h.harts ha i) ?_
    cases he
    by_cases hi : i = m1.self
    · rw [hi, show (m1.setCpu _).harts m1.self = _ from Function.update_self ..]
      exact henter ..
    · rw [m1.harts_setCpu_of_ne _ hi]
      exact h.refl _

/-- The relation along a step, if a trap entry keeps it too. -/
theorem stepOut (h : Keeps ok R) (hs : StepOut ok m m') (hacts : ∀ x, Acts ok m x → ∀ y, Enter x y → R x.cpu y.cpu) :
    R m.cpu m'.cpu := by
  obtain ⟨m1, ha, rfl | he⟩ := hs
  · exact h.acts ha
  · exact h.trans (h.acts ha) (hacts m1 ha _ he)

/-- Whatever a step does, it keeps the relation for the harts it does not step. -/
theorem step_other (h : Keeps ok R) (dc : Option DecodeCache) {i : Nat} (hi : i ≠ m.self) :
    R (m.harts i) ((m.step dc).2.harts i) := by
  have hI : ActInv .free (R (m.harts i)) fun _ => True :=
    ⟨fun _ _ _ _ => trivial, (h.inv _ (m.harts i)).unreserve, fun c pc a _ _ hc => h.trans hc (h.start c pc a),
      fun _ _ _ _ _ _ => trivial⟩
  exact hI.step_other_free dc hi (h.refl _)

end Keeps

namespace HartInv

variable {ok : Guard} {J K : CPU → Prop} {m : Machine}

theorem step_self (hI : HartInv ok J K) (hlax : ok.Lax) (dc : Option DecodeCache) (hrun : m.cpu.halted = false)
    (hsee : ∀ m' va acc, Machine.Translates dc m m' va acc → ok.sees m'.cpu m'.bus va acc)
    (hok : ∀ inst ilen, m.fetched dc = some (inst, ilen) → ok.Admits m inst) (h : J m.cpu) : J (m.step dc).2.cpu := by
  obtain ⟨m1, hacts, hend⟩ := Machine.stepOut_step hlax dc m hsee hok
  have hact : K m1.cpu := hI.acts_cpu (m.acts_beginStep.trans hacts) (hI.begin _ hrun h)
  generalize (m.step dc).2 = m' at hend
  rcases hend with rfl | hend
  · exact hI.rest _ hact
  · cases hend with
    | mk cause tval toS hs _ =>
      rw [Machine.cpu_setCpu]
      exact hI.enter _ _ _ _ hs hact

/-- A step that satisfies the MRET side condition keeps the invariant of every hart. -/
theorem step (hI : HartInv ok J K) (hlax : ok.Lax) (dc : Option DecodeCache) (hrun : m.cpu.halted = false)
    (hsee : ∀ m' va acc, Machine.Translates dc m m' va acc → ok.sees m'.cpu m'.bus va acc)
    (hok : ∀ inst ilen, m.fetched dc = some (inst, ilen) → ok.Admits m inst)
    (h : ∀ i, J (m.harts i)) (i : Nat) : J ((m.step dc).2.harts i) := by
  by_cases hi : i = m.self
  · have hself := hI.step_self hlax dc hrun hsee hok (h m.self)
    rw [hi, ← Machine.self_step dc m]
    exact hself
  · exact hI.step_other hlax dc hsee hok hi (h i)

theorem step_free (hI : HartInv .free J K) (dc : Option DecodeCache) (hrun : m.cpu.halted = false)
    (h : ∀ i, J (m.harts i)) (i : Nat) : J ((m.step dc).2.harts i) :=
  hI.step Guard.free_lax dc hrun (fun _ _ _ _ => trivial) (fun _ _ _ => Guard.free_admits _ _) h i

end HartInv

theorem CPU.boot_induction {J : CPU → Prop} (hstart : ∀ tlb pc xlen i, J (CPU.start tlb pc xlen i))
    (hreg : ∀ c i v, J c → J (CPU.regWrite c i v)) (tlb : BitVec 4 → TlbEntry) (pc : BitVec 64)
    (xlen : Xlen) (i : Nat) (regs : List (BitVec 5 × BitVec 64)) : J (CPU.boot tlb pc xlen i regs) := by
  have hfold : ∀ (regs : List (BitVec 5 × BitVec 64)) (c : CPU), J c →
      J (regs.foldl (fun c r => c.regWrite r.1 r.2) c) := by
    intro regs
    induction regs with
    | nil => exact fun c h => h
    | cons r regs ih => exact fun c h => ih _ (hreg c r.1 r.2 h)
  exact hfold regs _ (hstart tlb pc xlen i)

/-- An invariant that holds at boot and that every act keeps holds of every hart in every
reachable state. -/
theorem Reachable.harts {ok : Guard}
    {J K : CPU → Prop} (hI : HartInv ok J K) (hlax : ok.Lax) (hsee : ∀ c b va acc, ok.sees c b va acc)
    (hP : ∀ dc m, P dc m → ∀ inst ilen, m.fetched dc = some (inst, ilen) → ok.Admits m inst)
    (hboot : ∀ tlb pc xlen i regs, J (CPU.boot tlb pc xlen i regs)) {m : Machine} (h : Reachable P m)
    (i : Nat) : J (m.harts i) := by
  obtain ⟨m0, h0, hrun⟩ := h
  refine Run.preserves (P := fun m => ∀ i, J (m.harts i)) ?_ hrun ?_ i
  · intro x y hxy hx
    cases hxy with
    | hart i dc hrun hp => exact hI.step hlax dc hrun (fun _ _ _ _ => hsee _ _ _ _) (hP dc _ hp) hx
    | env b => exact hx
  · intro i
    obtain ⟨tlb, pc, xlen, regs, hi⟩ := h0 i
    rw [hi]
    exact hboot tlb pc xlen i regs

end Quanta
