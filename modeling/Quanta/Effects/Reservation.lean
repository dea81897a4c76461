/-
LR/SC over interleaved harts. What a step does to memory is described apart from the code, as the
span of bytes an LR read, a store, AMO or successful SC wrote; a run leaves a log of these events.
SC is exclusive when nothing has written the bytes of the LR it answers since that LR. A reservation
is one address, compared with the first word of a write: so this holds as long as every write that
meets the bytes of an outstanding reservation starts in its first word, and fails for a store to the
upper half of a doubleword.
-/
import Quanta.Effects.Faults

namespace Quanta

open Relation Run

/-! ## Events -/

/-- A range of physical addresses. -/
structure Footprint where
  addr : BitVec 64
  size : Nat
  deriving DecidableEq

/-- The spans share a byte. -/
def Footprint.Overlaps (s t : Footprint) : Prop :=
  ∃ i < s.size, ∃ j < t.size, s.addr + BitVec.ofNat 64 i = t.addr + BitVec.ofNat 64 j

instance (s t : Footprint) : Decidable (s.Overlaps t) :=
  inferInstanceAs (Decidable (∃ i < s.size, ∃ j < t.size, _))

/-- What an instruction does to memory, as far as reservations go. -/
inductive MemEvent
  | reserve (s : Footprint)
  | write (s : Footprint)
  | conditional (s : Footprint)
  | quiet
  deriving DecidableEq

/-- The bytes written. -/
def MemEvent.written : MemEvent → Option Footprint
  | .write s => some s
  | .conditional s => some s
  | _ => none

namespace Machine

/-- The bytes of an instruction's access, if it goes through. -/
def accessed (m : Machine) (inst : BitVec 32) : Option Footprint :=
  (m.dataAccess inst).bind fun a =>
    match (m.translate a.va a.acc).1 with
    | .error _ => none
    | .ok pa => if m.bus.mapped pa a.size then some ⟨pa, a.size⟩ else none

/-- Between `m`, about to execute an SC whose access goes through, and `after` the SC succeeded: it
left 0 in rd, or what its bytes read as has changed since the translation. An SC to x0 leaves no
status; it also counts when it had its reservation, in case it wrote what was there. -/
def scSucceeded (m after : Machine) (inst : BitVec 32) (s : Footprint) : Bool :=
  (if rd inst = 0 then scHeld m.cpu s.addr else after.regRead (rd inst) == 0) ||
    (memRead after.bus s.addr s.size).1 != (memRead (m.translate (m.regRead (rs1 inst)) .store).2.bus s.addr s.size).1

/-- The event of an instruction whose step ends in `after`. A reserved AMO writes nothing. -/
def event (m : Machine) (inst : BitVec 32) (after : Machine) : MemEvent :=
  match m.accessed inst with
  | none => .quiet
  | some s =>
    match opcode inst with
    | .store => .write s
    | .storeFp => .write s
    | .amo =>
      if isLr inst then .reserve s
      else if isSc inst then (if m.scSucceeded after inst s then .conditional s else .quiet)
      else if (amoResult inst (amoWide inst) 0 0).isSome then .write s
      else .quiet
    | _ => .quiet

/-- The event of a step. -/
def stepEvent (dc : Option DecodeCache) (m : Machine) : MemEvent :=
  match m.dispatching dc with
  | none => .quiet
  | some ((inst, _), m') => m'.event inst (m.step dc).2

end Machine

/-- The events of a run with the harts that made them, newest first. -/
abbrev EventLog := List (Nat × MemEvent)

/-- The bytes of a hart's most recent LR, and what was logged since. -/
def lastLr (h : Nat) : EventLog → Option (Footprint × EventLog)
  | [] => none
  | x :: log =>
    match x with
    | (j, .reserve s) => if j = h then some (s, []) else (lastLr h log).map fun p => (p.1, x :: p.2)
    | _ => (lastLr h log).map fun p => (p.1, x :: p.2)

/-- Every successful SC answers the hart's last LR, at the same address, and nothing has written the
bytes of that LR since. -/
def Exclusive (log : EventLog) : Prop :=
  ∀ h s older, (h, .conditional s) :: older <:+ log →
    ∃ r since, lastLr h older = some (r, since) ∧ r.addr = s.addr ∧
      ∀ x ∈ since, ∀ w, x.2.written = some w → ¬w.Overlaps r

/-! ## Runs -/

/-- Several harts share the platform. -/
structure Machine.Contended (m : Machine) : Prop where
  plat : m.bus.mem.plat = true
  harts : m.bus.plat.harts = true
  nharts : 1 < m.bus.plat.nharts

/-- The runs of an SMP machine from a state without reservations: any hart that is not halted takes
the next step, or the bus changes under the harts. -/
inductive Traced (P : EventLog → Option DecodeCache → Machine → Prop) : Machine → EventLog → Prop
  | start (m : Machine) (hs : m.Contended) (h : ∀ i, (m.harts i).reserveValid = false) : Traced P m []
  | hart (m : Machine) (log : EventLog) (i : Nat) (dc : Option DecodeCache) (h : Traced P m log)
      (hi : i < m.bus.plat.nharts) (hrun : (m.harts i).halted = false) (hP : P log dc (m.onHart i)) :
      Traced P ((m.onHart i).step dc).2 ((i, (m.onHart i).stepEvent dc) :: log)
  | env (m : Machine) (log : EventLog) (b : Bus) (h : Traced P m log) (hb : m.bus.Shape b) : Traced P (m.setBus b) log

/-- A write that meets the bytes of an outstanding reservation starts in its first word. -/
def MeetsFirstWord (log : EventLog) (dc : Option DecodeCache) (m : Machine) : Prop :=
  ∀ w, (m.stepEvent dc).written = some w → ∀ j < m.bus.plat.nharts, (m.harts j).reserveValid = true →
    ∀ r since, lastLr j log = some (r, since) → w.Overlaps r → w.addr &&& ~~~3#64 = r.addr

theorem meetsFirstWord_iff (log : EventLog) (dc : Option DecodeCache) (m : Machine) :
    MeetsFirstWord log dc m ↔
      (m.stepEvent dc).written.all fun w => (List.range m.bus.plat.nharts).all fun j =>
        !(m.harts j).reserveValid || (lastLr j log).all fun p =>
          !decide (w.Overlaps p.1) || w.addr &&& ~~~3#64 == p.1.addr := by
  unfold MeetsFirstWord
  cases (m.stepEvent dc).written with
  | none => simp
  | some w =>
    simp only [Option.some.injEq, forall_eq', Option.all_some, List.all_eq_true, List.mem_range]
    refine forall₂_congr fun j _ => ?_
    obtain _ | ⟨r, since⟩ := lastLr j log
    · simp
    · cases (m.harts j).reserveValid <;> simp [or_iff_not_imp_left]

instance (log : EventLog) (dc : Option DecodeCache) (m : Machine) : Decidable (MeetsFirstWord log dc m) :=
  decidable_of_iff' _ (meetsFirstWord_iff log dc m)

/-- Steps the harts in the given order, with no decode cache, as long as they run and meet `P`. -/
def replay (P : EventLog → Option DecodeCache → Machine → Prop) [∀ log dc m, Decidable (P log dc m)] :
    List Nat → Machine → EventLog → Option (Machine × EventLog)
  | [], m, log => some (m, log)
  | i :: is, m, log =>
    if i < m.bus.plat.nharts ∧ (m.harts i).halted = false ∧ P log none (m.onHart i) then
      replay P is ((m.onHart i).step none).2 ((i, (m.onHart i).stepEvent none) :: log)
    else none

theorem Traced.replay {P : EventLog → Option DecodeCache → Machine → Prop} [∀ log dc m, Decidable (P log dc m)]
    (is : List Nat) {m m' : Machine} {log log' : EventLog} (h : Traced P m log)
    (hr : Quanta.replay P is m log = some (m', log')) : Traced P m' log' := by
  induction is generalizing m log with
  | nil =>
    cases hr
    exact h
  | cons i is ih =>
    unfold Quanta.replay at hr
    split at hr
    · next hi => exact ih (.hart m log i none h hi.1 hi.2.1 hi.2.2) hr
    · cases hr

/-! ## Reservations only go away, but for LR -/

/-- No LR is executed. -/
def noLr : Guard := { Guard.free with lr := False }

theorem noLr_lax : noLr.Lax := fun _ _ => trivial

/-- A reservation of `c'` is one of `c`. -/
def CPU.Lapses (c c' : CPU) : Prop :=
  c'.reserveValid = true → c.reserveValid = true ∧ c'.reserveAddr = c.reserveAddr

theorem CPU.Lapses.trans {c c' c'' : CPU} (h : c.Lapses c') (h' : c'.Lapses c'') : c.Lapses c'' := by
  intro hv
  obtain ⟨hv', ha'⟩ := h' hv
  obtain ⟨hv, ha⟩ := h hv'
  exact ⟨hv, ha'.trans ha⟩

/-- Every reservation of `m'` is one of `m`. -/
def Shrinks (m m' : Machine) : Prop := ∀ j, (m.harts j).Lapses (m'.harts j)

theorem Shrinks.refl (m : Machine) : Shrinks m m := fun _ h => ⟨h, rfl⟩

theorem Shrinks.trans {m m' m'' : Machine} (h : Shrinks m m') (h' : Shrinks m' m'') : Shrinks m m'' :=
  fun j => (h j).trans (h' j)

/-- An update of a hart other than an LR keeps its reservation or drops it. -/
theorem HartAct.lapses {c c' : CPU} (h : HartAct noLr c c') : c.Lapses c' := by
  intro hv
  cases h with
  | regWrite i v =>
    rw [CPU.regWrite_reserveValid] at hv
    rw [CPU.regWrite_reserveAddr]
    exact ⟨hv, rfl⟩
  | csrWrite addr v hp _ =>
    rw [CPU.csrWrite_eq] at hv ⊢
    exact ⟨hv, rfl⟩
  | translate b va acc _ =>
    obtain ⟨t, ht⟩ := mmuTranslate_cpu c b va acc
    rw [ht] at hv ⊢
    exact ⟨hv, rfl⟩
  | reserve a hlr => exact hlr.elim
  | unreserve => cases hv
  | resume pc a _ _ => cases hv
  | _ => exact ⟨hv, rfl⟩

theorem keeps_lapses : Keeps noLr CPU.Lapses where
  refl _ h := ⟨h, rfl⟩
  trans := CPU.Lapses.trans
  act _ _ := HartAct.lapses
  start c pc a hv := by cases hv

namespace Machine

variable {m m' : Machine} {inst : BitVec 32} {pa : BitVec 64} {s : Footprint} {m1 : Machine}

theorem shrinks_stepOut (h : StepOut noLr m m') : Shrinks m m' := by
  refine keeps_lapses.stepOut_harts h fun c cause tval toS hv => ?_
  rw [CPU.enterTrap_reserveValid] at hv
  rw [CPU.enterTrap_reserveAddr]
  exact ⟨hv, rfl⟩

theorem shape_stepOut {ok : Guard} (h : StepOut ok m m') : m.bus.Shape m'.bus := by
  obtain ⟨m1, hacts, rfl | henter⟩ := h
  · exact acts_shape hacts
  · have hshape := acts_shape hacts
    cases henter
    exact hshape

/-- A step that executes no LR. -/
theorem shrinks_step (dc : Option DecodeCache) (m : Machine)
    (h : ∀ inst ilen, m.fetched dc = some (inst, ilen) → isLr inst = false) : Shrinks m (m.step dc).2 := by
  refine (shrinks_stepOut (.of_run m.acts_beginStep)).trans
    (shrinks_stepOut (stepOut_step noLr_lax dc m (fun _ _ _ _ => trivial) fun inst ilen hf => ?_))
  refine ⟨fun _ _ => trivial, fun hlr => ?_, fun _ _ => trivial, fun _ => trivial⟩
  rw [h inst ilen hf] at hlr
  cases hlr

theorem shrinks_commit (m : Machine) (inst : BitVec 32) (next : BitVec 64) : Shrinks m (m.commit inst next) :=
  shrinks_stepOut (stepOut_commit m inst next)

/-! ## A write breaks the reservations on its first word -/

/-- No hart of the platform holds a reservation on the word of `pa`. -/
def Broken (m : Machine) (pa : BitVec 64) : Prop :=
  ∀ j < m.bus.plat.nharts, (m.harts j).reserveValid = true → (m.harts j).reserveAddr ≠ pa &&& ~~~3#64

theorem Broken.shrinks (h : m.Broken pa) (hs : Shrinks m m')
    (hn : m'.bus.plat.nharts = m.bus.plat.nharts) : m'.Broken pa := by
  intro j hj hv
  obtain ⟨hv', ha⟩ := hs j hv
  rw [ha]
  rw [hn] at hj
  exact h j hj hv'

theorem broken_breakReservation (hs : m.Contended) (pa : BitVec 64) : (m.breakReservation pa).Broken pa := by
  intro j hj hv
  rw [bus_breakReservation] at hj
  unfold breakReservation at hv ⊢
  dsimp only at hv ⊢
  have hsmp : (m.bus.mem.plat = true ∧ m.bus.plat.harts = true ∧ 1 < m.bus.plat.nharts) := ⟨hs.plat, hs.harts, hs.nharts⟩
  rw [if_pos hsmp] at hv ⊢
  dsimp only at hv ⊢
  rw [if_pos hj] at hv ⊢
  unfold breakOne at hv ⊢
  split at hv
  · cases hv
  · next hn =>
    rw [if_neg hn]
    exact fun ha => hn ⟨hv, ha⟩

theorem Contended.shape (hs : m.Contended) (h : m.bus.Shape m'.bus) : m'.Contended where
  plat := h.plat.trans hs.plat
  harts := h.wired.harts.trans hs.harts
  nharts := by
    rw [h.wired.nharts]
    exact hs.nharts

/-- The instruction's access goes through at `s`: it goes on from `m1`, where its translation left off. -/
structure GoesThrough (m : Machine) (inst : BitVec 32) (s : Footprint) (a : MemAccess) (m1 : Machine) : Prop where
  access : m.dataAccess inst = some a
  translate : m.translate a.va a.acc = (.ok s.addr, m1)
  fault : m1.bus.mem.fault = false
  mapped : m1.bus.mapped s.addr a.size = true
  dispatch : ∀ ilen, (m.dispatch inst ilen).1 = m1.accessAt inst s.addr

theorem goesThrough (hf : m.bus.mem.fault = false) (h : m.accessed inst = some s) :
    ∃ a m1, m.GoesThrough inst s a m1 := by
  unfold accessed at h
  obtain ⟨a, ha, h⟩ := Option.bind_eq_some_iff.mp h
  cases ht : m.translate a.va a.acc with
  | mk r m1 =>
    rw [ht] at h
    cases r with
    | error cause => cases h
    | ok pa =>
      dsimp only at h
      split at h
      · next hm =>
        cases h
        refine ⟨a, m1, ha, ht, translate_fault hf ht, ((translate_frame hf ht).mapped _ _).trans hm, fun ilen => ?_⟩
        rw [dispatch_translated (dataAccess_translation ha) ht]
        rfl
      · cases h

theorem accessed_eq {a : MemAccess} (ha : m.dataAccess inst = some a)
    (ht : m.translate a.va a.acc = (.ok pa, m1)) :
    m.accessed inst = if m.bus.mapped pa a.size then some ⟨pa, a.size⟩ else none := by
  unfold accessed
  rw [ha, Option.bind_some, ht]

theorem contended_translate (hs : m.Contended) {va : BitVec 64} {acc : AccessType} {r : Except (BitVec 32) (BitVec 64)}
    (ht : m.translate va acc = (r, m')) : m'.Contended :=
  hs.shape (@acts_shape .free m m' (acts_translate_eq trivial ht))

theorem amoWrite_mapped {b : Bus} (h : b.mapped pa (amoSize inst) = true)
    (v : BitVec 64) : (amoWrite b (amoWide inst) pa v).mem.fault = b.mem.fault := by
  unfold amoSize at h
  unfold amoWrite
  split
  · next hw =>
    rw [if_pos hw] at h
    exact (memWrite_of_mapped h v).fault
  · next hw =>
    rw [if_neg hw] at h
    exact (memWrite_of_mapped h _).fault

theorem amoRead_mapped {b : Bus} (h : b.mapped pa (amoSize inst) = true) :
    b.Frame (amoRead b (amoWide inst) pa).2 := by
  unfold amoSize at h
  unfold amoRead
  split
  · next hw =>
    rw [if_pos hw] at h
    exact (memRead_of_mapped h).2
  · next hw =>
    rw [if_neg hw] at h
    exact (memRead_of_mapped h).2

theorem broken_execSc (hs : m.Contended) (hf : m.bus.mem.fault = false)
    (hm : m.bus.mapped pa (amoSize inst) = true) (hh : scHeld m.cpu pa = true) :
    (m.execSc inst (amoWide inst) pa).Broken pa := by
  have hshape := amoWrite_shape m.bus (amoWide inst) pa (m.regRead (rs2 inst))
  have hfault : (amoWrite m.bus (amoWide inst) pa (m.regRead (rs2 inst))).mem.fault = false :=
    (amoWrite_mapped hm _).trans hf
  unfold execSc
  dsimp only
  rw [if_pos hh, bus_setBus, if_neg (by rw [hfault]; decide)]
  generalize amoWrite m.bus (amoWide inst) pa (m.regRead (rs2 inst)) = b at hshape hfault
  have hb := @broken_breakReservation (m.setBus b) (hs.shape hshape) pa
  refine hb.shrinks ?_ rfl
  exact shrinks_stepOut (.of_run (acts_scRelease ..))

/-- Whether an AMO combines at all does not depend on the operands. -/
theorem amoResult_some {wide : Bool} (h : (amoResult inst wide 0 0).isSome = true) (old v : BitVec 64) :
    ∃ r, amoResult inst wide old v = some r := by
  have hop : ∀ {w : Nat} (a b c d : BitVec w), (amoOp (funct5 inst) a b).isSome = true →
      ∃ r, amoOp (funct5 inst) c d = some r := by
    intro w a b c d hs
    unfold amoOp at hs ⊢
    split at hs <;> first | exact ⟨_, rfl⟩ | cases hs
  unfold amoResult at h ⊢
  split at h
  · next hw =>
    rw [if_pos hw]
    exact hop _ _ _ _ h
  · next hw =>
    rw [if_neg hw]
    rw [Option.isSome_map] at h
    obtain ⟨r, hr⟩ := hop _ _ (lo32 old) (lo32 v) h
    exact ⟨_, by rw [hr]; rfl⟩

theorem broken_execAmoOp (hs : m.Contended) (hf : m.bus.mem.fault = false)
    (hm : m.bus.mapped pa (amoSize inst) = true) (hr : (amoResult inst (amoWide inst) 0 0).isSome = true) :
    (m.execAmoOp inst (amoWide inst) pa).Broken pa := by
  have hframe := amoRead_mapped hm
  unfold execAmoOp
  dsimp only
  generalize amoRead m.bus (amoWide inst) pa = old at hframe
  obtain ⟨r, hr⟩ := amoResult_some hr old.1 (m.regRead (rs2 inst))
  have hfault : old.2.mem.fault = false := hframe.fault.trans hf
  have hm' : old.2.mapped pa (amoSize inst) = true := (hframe.mapped pa _).trans hm
  have hfault' : (amoWrite old.2 (amoWide inst) pa r).mem.fault = false := (amoWrite_mapped hm' r).trans hfault
  have hshape := amoWrite_shape old.2 (amoWide inst) pa r
  rw [bus_setBus, if_neg (by rw [hfault]; decide), hr]
  dsimp only
  rw [bus_setBus, if_neg (by rw [hfault']; decide)]
  generalize amoWrite old.2 (amoWide inst) pa r = b at hshape hfault'
  have hb := @broken_breakReservation ((m.setBus old.2).setBus b) (hs.shape (hframe.shape.trans hshape)) pa
  exact hb.shrinks (shrinks_stepOut (.of_run (acts_regWrite ..))) rfl

/-- The access of an atomic. -/
theorem GoesThrough.amo {a : MemAccess} (hg : m.GoesThrough inst s a m1) (hop : opcode inst = .amo) :
    m.translate (m.regRead (rs1 inst)) (amoAccess inst) = (.ok s.addr, m1) ∧
    (m1.cacheAccess s.addr true).bus.mem.fault = false ∧
    (m1.cacheAccess s.addr true).bus.mapped s.addr (amoSize inst) = true ∧
    ∀ ilen, (m.dispatch inst ilen).1 = (m1.cacheAccess s.addr true).execAmoAt inst (amoWide inst) s.addr := by
  have ha := hg.access
  have htr := dataAccess_translation ha
  have hdisp := hg.dispatch
  unfold accessAt at hdisp
  unfold dataAccess at ha
  unfold translation at htr
  rw [hop] at ha htr hdisp
  dsimp only at ha htr
  split at ha
  · next hex =>
    rw [hex.1, if_neg (by decide), if_neg (not_not.mpr hex.2)] at htr
    obtain ⟨hva, hacc⟩ := Prod.mk.inj (Option.some.inj htr)
    cases ha
    rw [bus_cacheAccess]
    exact ⟨by rw [hva, hacc]; exact hg.translate, hg.fault, hg.mapped, hdisp⟩
  · cases ha

theorem isLr_amo (hop : opcode inst = .amo) : isLr inst = decide (funct5 inst = 0x02#5) := by
  unfold isLr
  rw [hop]
  rfl

theorem isSc_amo (hop : opcode inst = .amo) : isSc inst = decide (funct5 inst = 0x03#5) := by
  unfold isSc
  rw [hop]
  rfl

/-- The instructions that make an event, each with what makes it. -/
inductive EventOf (m : Machine) (inst : BitVec 32) (after : Machine) : MemEvent → Prop
  | quiet : EventOf m inst after .quiet
  | store {s : Footprint} (hacc : m.accessed inst = some s) (hop : opcode inst = .store) : EventOf m inst after (.write s)
  | storeFp {s : Footprint} (hacc : m.accessed inst = some s) (hop : opcode inst = .storeFp) :
      EventOf m inst after (.write s)
  | lr {s : Footprint} (hacc : m.accessed inst = some s) (hop : opcode inst = .amo) (h5 : funct5 inst = 0x02#5) :
      EventOf m inst after (.reserve s)
  | sc {s : Footprint} (hacc : m.accessed inst = some s) (hop : opcode inst = .amo) (h5 : funct5 inst = 0x03#5)
      (hdone : m.scSucceeded after inst s = true) : EventOf m inst after (.conditional s)
  | amo {s : Footprint} (hacc : m.accessed inst = some s) (hop : opcode inst = .amo) (hlr : funct5 inst ≠ 0x02#5)
      (hsc : funct5 inst ≠ 0x03#5) (hr : (amoResult inst (amoWide inst) 0 0).isSome = true) :
      EventOf m inst after (.write s)

theorem eventOf (m : Machine) (inst : BitVec 32) (after : Machine) : EventOf m inst after (m.event inst after) := by
  unfold event
  split
  · exact .quiet
  next hacc =>
  split
  · next hop => exact .store hacc hop
  · next hop => exact .storeFp hacc hop
  · next hop =>
    rw [isLr_amo hop, isSc_amo hop]
    simp only [decide_eq_true_eq]
    split
    · next hlr => exact .lr hacc hop hlr
    next hlr =>
    split
    · next hsc =>
      split
      · next hdone => exact .sc hacc hop hsc hdone
      · exact .quiet
    next hsc =>
    split
    · next hr => exact .amo hacc hop hlr hsc hr
    · exact .quiet
  · exact .quiet

/-- The commit tail of an access that went through leaves memory and the registers alone. -/
theorem commit_regs (hf : m.bus.mem.fault = false) (inst : BitVec 32) (next : BitVec 64) :
    (m.commit inst next).bus = m.bus ∧ (m.commit inst next).cpu.regs = m.cpu.regs := by
  unfold commit
  rw [hf, if_neg (by decide)]
  split
  · exact ⟨rfl, rfl⟩
  split
  · exact ⟨rfl, rfl⟩
  split
  · unfold raiseTrap
    split
    · rw [cpu_setCpu]
      exact ⟨rfl, CPU.enterTrap_regs ..⟩
    · unfold legacyTrap
      rw [if_neg (by decide), if_neg (by decide), if_neg (by decide), if_pos (by decide), cpu_setCpu]
      exact ⟨rfl, rfl⟩
  · rw [cpu_setCpu]
    exact ⟨rfl, rfl⟩

/-- An SC that fails leaves 1 in rd and its bytes alone: one that succeeds had its reservation. -/
theorem held_of_succeeded (hf : m.bus.mem.fault = false) (hop : opcode inst = .amo)
    (h5 : funct5 inst = 0x03#5) (hacc : m.accessed inst = some s) {ilen : BitVec 32}
    (h : m.scSucceeded (m.execute inst ilen) inst s = true) : scHeld m.cpu s.addr = true := by
  by_contra hheld
  obtain ⟨a, m1, hg⟩ := goesThrough hf hacc
  obtain ⟨ht, _, _, hdisp⟩ := hg.amo hop
  have hexec : (m.dispatch inst ilen).1 = (m1.cacheAccess s.addr true).scRelease inst 1 := by
    rw [hdisp]
    unfold execAmoAt execSc
    rw [if_neg (by rw [h5]; decide), if_pos h5, if_neg]
    rw [cpu_cacheAccess, scHeld_translate ht]
    exact hheld
  have hbus : (m.dispatch inst ilen).1.bus = m1.bus := by
    rw [hexec]
    exact m1.bus_cacheAccess s.addr true
  obtain ⟨hb, hregs⟩ := @commit_regs (m.dispatch inst ilen).1 (by rw [hbus]; exact hg.fault) inst
    (m.dispatch inst ilen).2
  unfold scSucceeded at h
  rw [amoAccess, if_neg (by rw [h5]; decide)] at ht
  rw [Bool.or_eq_true] at h
  obtain h | h := h
  · split at h
    · exact hheld h
    · next hrd =>
      rw [beq_iff_eq] at h
      unfold execute regRead CPU.regRead at h
      rw [hregs, hexec] at h
      unfold scRelease regWrite at h
      rw [cpu_setCpu, if_neg hrd, CPU.regWrite_regs, if_pos ⟨hrd, rfl⟩] at h
      revert h
      generalize CPU.xlen _ = x
      cases x <;> decide
  · unfold execute at h
    rw [hb, hbus, ht, bne_self_eq_false] at h
    cases h

/-- The executor of a write leaves no reservation on its first word. -/
theorem broken_dispatch (hs : m.Contended) (hf : m.bus.mem.fault = false) {w : Footprint}
    {ilen : BitVec 32} (h : (m.event inst (m.execute inst ilen)).written = some w) :
    (m.dispatch inst ilen).1.Broken w.addr := by
  have hev := m.eventOf inst (m.execute inst ilen)
  generalize m.event inst (m.execute inst ilen) = e at h hev
  cases hev with
  | quiet | lr => cases h
  | store hacc hop =>
    cases h
    obtain ⟨a, m1, hg⟩ := goesThrough hf hacc
    rw [hg.dispatch]
    unfold accessAt
    rw [hop]
    exact (broken_breakReservation (contended_translate hs hg.translate) _).shrinks (.refl _)
      (storeValue_shape ..).wired.nharts
  | storeFp hacc hop =>
    cases h
    obtain ⟨a, m1, hg⟩ := goesThrough hf hacc
    have hb := broken_breakReservation (contended_translate hs hg.translate) w.addr
    have ha := hg.access
    rw [hg.dispatch]
    unfold accessAt
    unfold dataAccess at ha
    rw [hop] at ha ⊢
    obtain ⟨n, hn, _⟩ := Option.map_eq_some_iff.mp ha
    dsimp only
    obtain ⟨h3, _⟩ | ⟨h3, _⟩ := fpSize_cases hn
    · rw [h3]
      exact hb.shrinks (.refl _) (memWrite_shape ..).wired.nharts
    · rw [h3]
      exact hb.shrinks (.refl _) (memWrite_shape ..).wired.nharts
  | sc hacc hop h5 hdone =>
    cases h
    obtain ⟨a, m1, hg⟩ := goesThrough hf hacc
    obtain ⟨ht, hf1, hm1, hdisp⟩ := hg.amo hop
    rw [hdisp]
    unfold execAmoAt
    rw [if_neg (by rw [h5]; decide), if_pos h5]
    refine broken_execSc ((contended_translate hs ht).shape (.refl _)) hf1 hm1 ?_
    rw [cpu_cacheAccess, scHeld_translate ht]
    exact held_of_succeeded hf hop h5 hacc hdone
  | amo hacc hop hlr hsc hr =>
    cases h
    obtain ⟨a, m1, hg⟩ := goesThrough hf hacc
    obtain ⟨ht, hf1, hm1, hdisp⟩ := hg.amo hop
    rw [hdisp]
    unfold execAmoAt
    rw [if_neg hlr, if_neg hsc]
    exact broken_execAmoOp ((contended_translate hs ht).shape (.refl _)) hf1 hm1 hr

/-! ## LR -/

/-- An LR whose read goes through leaves its reservation on the hart and changes no other. -/
theorem execLr_eq (hf : m.bus.mem.fault = false)
    (hm : m.bus.mapped pa (amoSize inst) = true) :
    ∃ c, (m.execLr inst (amoWide inst) pa).harts = Function.update m.harts m.self c ∧ c.reserveAddr = pa := by
  have hframe := amoRead_mapped hm
  unfold execLr
  dsimp only
  generalize amoRead m.bus (amoWide inst) pa = old at hframe
  have hfault : old.2.mem.fault = false := hframe.fault.trans hf
  rw [bus_setBus, if_neg (by rw [hfault]; decide)]
  refine ⟨_, Function.update_idem .., ?_⟩
  rw [cpu_setCpu, CPU.regWrite_reserveAddr]

/-- The LR's own reservation is the address it read; the others are as they were. -/
theorem reserve_dispatch (hf : m.bus.mem.fault = false) {after : Machine}
    (h : m.event inst after = .reserve s) (ilen : BitVec 32) :
    ∃ c, (m.dispatch inst ilen).1.harts = Function.update m.harts m.self c ∧ c.reserveAddr = s.addr := by
  have hev := m.eventOf inst after
  rw [h] at hev
  cases hev with
  | lr hacc hop h5 =>
    obtain ⟨a, m1, hg⟩ := goesThrough hf hacc
    obtain ⟨ht, hf1, hm1, hdisp⟩ := hg.amo hop
    obtain ⟨c, he, hc⟩ := execLr_eq hf1 hm1
    obtain ⟨t, b', hm'⟩ := sameFetch_translate ht
    refine ⟨c, ?_, hc⟩
    rw [hdisp]
    unfold execAmoAt
    rw [if_pos h5, he, hm']
    exact Function.update_idem ..

/-! ## One step -/

/-- What a step with event `e` on hart `i` does to the reservations. -/
structure ReserveStep (i : Nat) (e : MemEvent) (m m' : Machine) : Prop where
  kept : ∀ j, (m'.harts j).reserveValid = true →
    (j = i ∧ ∃ r, e = .reserve r ∧ (m'.harts j).reserveAddr = r.addr) ∨
    ((m.harts j).reserveValid = true ∧ (m'.harts j).reserveAddr = (m.harts j).reserveAddr ∧
      (j = i → ∀ r, e ≠ .reserve r))
  broken : ∀ w, e.written = some w → m'.Broken w.addr
  held : ∀ s, e = .conditional s → (m.harts i).reserveValid = true ∧ (m.harts i).reserveAddr = s.addr

theorem reserveStep_of_shrinks {i : Nat} {e : MemEvent} (h : Shrinks m m') (hr : ∀ r, e ≠ .reserve r)
    (hb : ∀ w, e.written = some w → m'.Broken w.addr)
    (hh : ∀ s, e = .conditional s → (m.harts i).reserveValid = true ∧ (m.harts i).reserveAddr = s.addr) :
    ReserveStep i e m m' where
  kept j hv := by
    obtain ⟨hv', ha⟩ := h j hv
    exact Or.inr ⟨hv', ha, fun _ => hr⟩
  broken := hb
  held := hh

theorem AtDispatch.shrinks (h : AtDispatch m m') : Shrinks m m' := by
  intro j hv
  by_cases hj : j = m.self
  · have hcpu := h.cpu
    have hself : m'.harts j = m'.cpu := by rw [hj, ← h.self]; rfl
    have hself' : m.harts j = m.cpu := by rw [hj]; rfl
    rw [hself, hcpu] at hv
    rw [hself, hself', hcpu]
    exact ⟨hv, rfl⟩
  · rw [h.others j hj] at hv ⊢
    exact ⟨hv, rfl⟩

theorem conditional_held (hf : m.bus.mem.fault = false) {inst ilen : BitVec 32}
    (h : m.event inst (m.execute inst ilen) = .conditional s) :
    m.cpu.reserveValid = true ∧ m.cpu.reserveAddr = s.addr := by
  have hev := m.eventOf inst (m.execute inst ilen)
  rw [h] at hev
  cases hev with
  | sc hacc hop h5 hdone =>
    have hh := held_of_succeeded hf hop h5 hacc hdone
    unfold scHeld at hh
    rw [Bool.and_eq_true, beq_iff_eq] at hh
    exact hh

/-- An LR whose access does not go through reserves nothing. -/
theorem shrinks_lr (hf : m.bus.mem.fault = false) (hop : opcode inst = .amo)
    (hlr : funct5 inst = 0x02#5) (h : m.accessed inst = none) : Shrinks m (m.execAmo inst) := by
  have hraise : ∀ (m : Machine) {cause : BitVec 32} (tval : BitVec 64), cause ≠ CAUSE_ECALL_S → cause ≠ 10 →
      Shrinks m (m.raiseTrap cause tval) := fun m _ tval h9 h10 =>
    shrinks_stepOut (m.stepOut_raiseTrap tval (raisedAt_const m h9 h10))
  unfold execAmo
  dsimp only
  split
  · exact hraise m _ (by decide) (by decide)
  next hex =>
  rw [Bool.not_eq_true, Bool.not_eq_false'] at hex
  split
  · rw [amoMisaligned, if_pos hlr]
    exact hraise m _ (by decide) (by decide)
  next halign =>
  have ha : m.dataAccess inst = some ⟨amoAccess inst, m.regRead (rs1 inst), amoSize inst⟩ := by
    unfold dataAccess
    rw [hop]
    dsimp only
    have hisLr : isLr inst = true := by
      rw [isLr_amo hop]
      exact decide_eq_true hlr
    rw [if_pos ⟨hex, not_not.mp halign⟩, if_pos hisLr, amoAccess, if_pos hlr]
  cases ht : m.translate (m.regRead (rs1 inst)) (amoAccess inst) with
  | mk r m1 =>
    have hs1 : Shrinks m m1 := shrinks_stepOut (.of_run (acts_translate_eq trivial ht))
    cases r with
    | error cause =>
      dsimp only
      have hcause : cause = pfCause .load := by
        rw [translate_error ht, amoAccess, if_pos hlr]
      rw [hcause]
      exact hs1.trans (hraise m1 _ (by decide) (by decide))
    | ok pa =>
      have hm : m.bus.mapped pa (amoSize inst) = false := by
        rw [accessed_eq ha ht] at h
        by_contra hm
        rw [if_pos (Bool.not_eq_false _ ▸ hm)] at h
        cases h
      dsimp only
      -- the read faults, and the reservation is not made
      refine hs1.trans ?_
      unfold execAmoAt
      rw [if_pos hlr]
      unfold execLr
      dsimp only
      have hfault : (amoRead (m1.cacheAccess pa true).bus (amoWide inst) pa).2.mem.fault = true := by
        rw [amoRead_unmapped]
        · rfl
        · rw [bus_cacheAccess, (translate_frame hf ht).mapped]
          exact hm
      rw [bus_setBus, if_pos hfault]
      exact .refl _

theorem isLr_elim (h : isLr inst = true) : opcode inst = .amo ∧ funct5 inst = 0x02#5 := by
  unfold isLr at h
  simpa only [Bool.and_eq_true, decide_eq_true_eq] using h

/-- What a step does to the reservations. -/
theorem reserveStep_step (hs : m.Contended) (dc : Option DecodeCache) : ReserveStep m.self (m.stepEvent dc) m (m.step dc).2 := by
  unfold stepEvent
  have hfetched := fetched_eq dc m
  cases hd : m.dispatching dc with
  | none =>
    rw [hd] at hfetched
    refine reserveStep_of_shrinks (m.shrinks_step dc ?_) nofun nofun nofun
    intro inst ilen hf
    rw [hfetched] at hf
    cases hf
  | some p =>
    obtain ⟨⟨inst, ilen⟩, m'⟩ := p
    dsimp only
    have hat := atDispatch_of_dispatching hd
    have hs' : m'.Contended := hs.shape hat.shape
    have hstep : (m.step dc).2 = m'.execute inst ilen := step_of_dispatching hd
    have hcommit : Shrinks (m'.dispatch inst ilen).1 (m'.execute inst ilen) := shrinks_commit _ _ _
    have hshrinks := m.shrinks_step dc
    rw [hstep] at hshrinks ⊢
    have hbroken : ∀ w, (m'.event inst (m'.execute inst ilen)).written = some w → (m'.execute inst ilen).Broken w.addr :=
      fun w hw => (broken_dispatch hs' hat.fault hw).shrinks hcommit
        (@shape_stepOut _ _ .free (stepOut_commit ..)).wired.nharts
    have hheld : ∀ s, m'.event inst (m'.execute inst ilen) = .conditional s →
        (m.harts m.self).reserveValid = true ∧ (m.harts m.self).reserveAddr = s.addr := by
      intro s he
      have hh := conditional_held hat.fault he
      rw [hat.cpu] at hh
      exact hh
    by_cases hr : ∃ r, m'.event inst (m'.execute inst ilen) = .reserve r
    · obtain ⟨r, hr⟩ := hr
      refine ⟨fun j hv => ?_, hbroken, hheld⟩
      obtain ⟨hv', ha⟩ := hcommit j hv
      obtain ⟨c, hharts, hc⟩ := reserve_dispatch hat.fault hr ilen
      rw [hharts, hat.self] at hv' ha
      by_cases hj : j = m.self
      · rw [hj, Function.update_self] at ha
        exact Or.inl ⟨hj, r, hr, by rw [hj, ha, hc]⟩
      · rw [Function.update_of_ne hj, hat.others j hj] at hv' ha
        exact Or.inr ⟨hv', ha, fun h => absurd h hj⟩
    · refine reserveStep_of_shrinks ?_ (fun r h => hr ⟨r, h⟩) hbroken hheld
      cases hlr : isLr inst with
      | false =>
        refine hshrinks fun inst' ilen' hf => ?_
        rw [hfetched, hd] at hf
        cases hf
        exact hlr
      | true =>
        obtain ⟨hop, h5⟩ := isLr_elim hlr
        have hacc : m'.accessed inst = none := by
          cases ha : m'.accessed inst with
          | none => rfl
          | some s =>
            refine absurd ⟨s, ?_⟩ hr
            unfold event
            rw [ha, hop]
            dsimp only
            rw [if_pos hlr]
        refine (hat.shrinks.trans ?_).trans hcommit
        unfold dispatch
        rw [hop]
        exact shrinks_lr hat.fault hop h5 hacc

end Machine

/-! ## Whole runs -/

/-- Every outstanding reservation is that of the hart's last LR, whose bytes nothing has written
since. -/
def Held (m : Machine) (log : EventLog) : Prop :=
  ∀ j < m.bus.plat.nharts, (m.harts j).reserveValid = true →
    ∃ r since, lastLr j log = some (r, since) ∧ r.addr = (m.harts j).reserveAddr ∧
      ∀ x ∈ since, ∀ w, x.2.written = some w → ¬w.Overlaps r

theorem lastLr_reserve (i : Nat) (r : Footprint) (log : EventLog) :
    lastLr i ((i, .reserve r) :: log) = some (r, []) :=
  if_pos rfl

theorem lastLr_cons {i j : Nat} {e : MemEvent} (h : j = i → ∀ r, e ≠ .reserve r) (log : EventLog) :
    lastLr j ((i, e) :: log) = (lastLr j log).map fun p => (p.1, (i, e) :: p.2) := by
  cases e with
  | reserve r =>
    have hij : i ≠ j := fun hij => h hij.symm r rfl
    rw [lastLr]
    exact if_neg hij
  | write s => rfl
  | conditional s => rfl
  | quiet => rfl

/-- What one step preserves. -/
theorem Held.step {m m' : Machine} {log : EventLog} {i : Nat} {e : MemEvent} (h : Held m log)
    (hn : m'.bus.plat.nharts = m.bus.plat.nharts) (hs : Machine.ReserveStep i e m m')
    (hmeets : ∀ w, e.written = some w → ∀ j < m.bus.plat.nharts, (m.harts j).reserveValid = true →
      ∀ r since, lastLr j log = some (r, since) → w.Overlaps r → w.addr &&& ~~~3#64 = r.addr) :
    Held m' ((i, e) :: log) := by
  intro j hj hv
  obtain ⟨rfl, r, rfl, ha⟩ | ⟨hv', ha, hne⟩ := hs.kept j hv
  · exact ⟨r, [], lastLr_reserve j r log, ha.symm, fun x hx => nomatch hx⟩
  · obtain ⟨r, since, hlast, hr, hsince⟩ := h j (hn ▸ hj) hv'
    refine ⟨r, (i, e) :: since, ?_, hr.trans ha.symm, fun x hx w hw => ?_⟩
    · rw [lastLr_cons hne, hlast]
      rfl
    · obtain rfl | hx := List.mem_cons.mp hx
      · -- the write would start in the first word, and that reservation is gone
        intro hover
        have hword := hmeets w hw j (hn ▸ hj) hv' r since hlast hover
        refine hs.broken w hw j hj hv ?_
        rw [hword, ha, hr]
      · exact hsince x hx w hw

theorem contended_traced {P : EventLog → Option DecodeCache → Machine → Prop} {m : Machine} {log : EventLog}
    (h : Traced P m log) : m.Contended := by
  induction h with
  | start m hs _ => exact hs
  | hart m log i dc _ _ _ _ ih =>
    have hi : (m.onHart i).Contended := ⟨ih.plat, ih.harts, ih.nharts⟩
    exact hi.shape (Machine.step_shape dc (m.onHart i))
  | env m log b _ hb ih => exact ih.shape hb

theorem held_traced {m : Machine} {log : EventLog} (h : Traced MeetsFirstWord m log) : Held m log ∧ Exclusive log := by
  induction h with
  | start m _ hnone =>
    constructor
    · intro j _ hv
      rw [hnone j] at hv
      cases hv
    · intro h s older hold
      cases List.suffix_nil.mp hold
  | hart m log i dc ht hi _ hP ih =>
    obtain ⟨hheld, hex⟩ := ih
    have hsmp : (m.onHart i).Contended :=
      ⟨(contended_traced ht).plat, (contended_traced ht).harts, (contended_traced ht).nharts⟩
    have hstep := Machine.reserveStep_step hsmp dc
    have hheld' : Held (m.onHart i) log := hheld
    constructor
    · exact hheld'.step (Machine.step_shape dc (m.onHart i)).wired.nharts hstep hP
    · intro h s older hold
      obtain he | hold := List.suffix_cons_iff.mp hold
      · obtain ⟨hx, rfl⟩ := List.cons.inj he
        obtain ⟨rfl, hs⟩ := Prod.mk.inj hx
        obtain ⟨hv, ha⟩ := hstep.held s hs.symm
        obtain ⟨r, since, hlast, hr, hsince⟩ := hheld' h hi hv
        exact ⟨r, since, hlast, hr.trans ha, hsince⟩
      · exact hex h s older hold
  | env m log b _ hb ih =>
    refine ⟨fun j hj hv => ih.1 j ?_ hv, ih.2⟩
    rw [← hb.wired.nharts]
    exact hj

/-- In every run of an SMP machine in which each write that meets the bytes of an outstanding
reservation starts in its first word, SC is exclusive. -/
theorem sc_exclusive {m : Machine} {log : EventLog} (h : Traced MeetsFirstWord m log) : Exclusive log :=
  (held_traced h).2

/-- Two harts. The first does an LR.D and SC.D of the doubleword at 0x80001000, an ADDI apart; the
second executes the given store to it. -/
def contended (sw : BitVec 32) : Machine :=
  .load .rv64 2 0x80000000 0x2000 0x80000000
    [0x00001297,  -- auipc x5, 1
     0xf1402473,  -- csrr x8, mhartid
     0x00041863,  -- bne x8, x0, 16
     0x1002b32f,  -- lr.d x6, (x5)
     0x00100393,  -- addi x7, x0, 1
     0x1862b3af,  -- sc.d x7, x6, (x5)
     sw]

theorem traced_contended (P : EventLog → Option DecodeCache → Machine → Prop) (sw : BitVec 32) :
    Traced P (contended sw) [] :=
  .start _ ⟨rfl, rfl, Nat.one_lt_two⟩ fun _ => rfl

/-- The first hart's SC succeeds, and then the second writes the low word. -/
theorem uncontended_exclusive :
    Exclusive [(1, .write ⟨0x80001000, 4⟩), (1, .quiet), (1, .quiet), (1, .quiet),
      (0, .conditional ⟨0x80001000, 8⟩), (0, .quiet), (0, .reserve ⟨0x80001000, 8⟩),
      (0, .quiet), (0, .quiet), (0, .quiet)] := by
  have hrun : (replay MeetsFirstWord [0, 0, 0, 0, 0, 0, 1, 1, 1, 1] (contended 0x0002a023) []).map Prod.snd =
      some [(1, .write ⟨0x80001000, 4⟩), (1, .quiet), (1, .quiet), (1, .quiet),
        (0, .conditional ⟨0x80001000, 8⟩), (0, .quiet), (0, .reserve ⟨0x80001000, 8⟩),
        (0, .quiet), (0, .quiet), (0, .quiet)] := by
    decide +kernel
  obtain ⟨⟨m, log⟩, hm, rfl⟩ := Option.map_eq_some_iff.mp hrun
  exact sc_exclusive ((traced_contended _ _).replay _ hm)

/-- The second hart writes the upper word between the first one's LR and SC, and the SC succeeds. -/
theorem upper_word_missed :
    ∃ m log, Traced (fun _ _ _ => True) m log ∧ (m.harts 0).regRead 7 = 0 ∧
      lastLr 0 log = some (⟨0x80001000, 8⟩, [(0, .conditional ⟨0x80001000, 8⟩), (0, .quiet),
        (1, .write ⟨0x80001004, 4⟩), (1, .quiet), (1, .quiet), (1, .quiet)]) ∧ ¬Exclusive log := by
  have hrun : (replay (fun _ _ _ => True) [0, 0, 0, 0, 1, 1, 1, 1, 0, 0] (contended 0x0002a223) []).map
      (fun r => ((r.1.harts 0).regRead 7, r.2)) =
      some (0, [(0, .conditional ⟨0x80001000, 8⟩), (0, .quiet),
        (1, .write ⟨0x80001004, 4⟩), (1, .quiet), (1, .quiet), (1, .quiet),
        (0, .reserve ⟨0x80001000, 8⟩), (0, .quiet), (0, .quiet), (0, .quiet)]) := by
    decide +kernel
  obtain ⟨⟨m, log⟩, hm, hlog⟩ := Option.map_eq_some_iff.mp hrun
  obtain ⟨hx, rfl⟩ := Prod.mk.inj hlog
  refine ⟨m, _, (traced_contended _ _).replay _ hm, hx, by decide, fun hex => ?_⟩
  obtain ⟨r, since, hlast, _, hsince⟩ := hex 0 ⟨0x80001000, 8⟩ _ List.suffix_rfl
  cases hlast
  refine hsince (1, .write ⟨0x80001004, 4⟩) ?_ _ rfl (by decide)
  simp

end Quanta
