/-
No translation bypass. Below M a hart never has `mstatus.MPRV` set: only M-mode software can set
it, MRET to a lower level and SRET clear it, the `sstatus` window does not show it, and a stopped
hart that HSM brings back in S stopped itself in S. A step reads its instruction and reads or writes
its operand where its translations say. With paging on, the answer a hart below M gets is that of a
page-table walk at its own privilege, or of a TLB entry that such a walk of the hart, earlier on the
run, has filled.
-/
import Quanta.Paging.Tlb
import Quanta.Privilege.Levels

namespace Quanta

open Relation Run

/-! ## MPRV below M -/

/-- MPRV is clear. -/
def MprvClear (c : CPU) : Prop := (c.csr CSR_MSTATUS).getLsbD 17 = false

/-- While the hart acts: MPRV is clear below M, and a hart that has stopped is still below M. -/
structure MprvAct (c : CPU) : Prop where
  below : c.priv.ult PRIV_M = true → MprvClear c
  stopped : c.hsmState = .stopped → c.halted = true ∧ c.priv.ult PRIV_M = true

theorem sstatusMask_mprv : SSTATUS_MASK.getLsbD 17 = false := by decide

theorem MprvAct.congr {c c' : CPU} (h : MprvAct c) (hm : MprvClear c → MprvClear c')
    (hp : c'.priv = c.priv) (hs : c'.hsmState = c.hsmState) (hh : c'.halted = c.halted) : MprvAct c' where
  below hb := hm (h.below (hp ▸ hb))
  stopped ht := by
    rw [hp, hh]
    exact h.stopped (hs ▸ ht)

/-- A walk of the scheme `satp` selects, from this hart and bus, puts this entry in the TLB. -/
def FilledAt (c : CPU) (b : Bus) (va : BitVec 64) (acc : AccessType) (s : Scheme) (e : TlbEntry) : Prop :=
  PagedBy c s ∧ ∃ ppn pte b',
    walkPage s (c.csr CSR_MSTATUS) (effPriv c acc) b (vaOf c.xlen va) acc = (some (ppn, pte), b') ∧
    e = ⟨true, vaOf c.xlen va >>> 12, s.asid.setWidth 32, ppn, (pte &&& 0xff).setWidth 32⟩

/-- Every valid TLB entry is as `P` says, for the scheme `satp` selects. -/
def TlbFrom (P : Scheme → TlbEntry → Prop) (c : CPU) : Prop :=
  ∀ i, (c.tlb i).valid = true → ∃ s, PagedBy c s ∧ P s (c.tlb i)

section
variable {P : Scheme → TlbEntry → Prop} {c c' : CPU}

theorem TlbFrom.mono {P' : Scheme → TlbEntry → Prop} (h : TlbFrom P c) (hP : ∀ s e, P s e → P' s e) : TlbFrom P' c := by
  intro i hv
  obtain ⟨s, hs, hp⟩ := h i hv
  exact ⟨s, hs, hP s _ hp⟩

theorem TlbFrom.congr (h : TlbFrom P c) (ht : c'.tlb = c.tlb) (hx : c'.xlen = c.xlen)
    (hs : c'.csr CSR_SATP = c.csr CSR_SATP) : TlbFrom P c' := by
  intro i hv
  unfold PagedBy
  rw [ht] at hv ⊢
  rw [hx, hs]
  exact h i hv

end

/-- The walk that filled the entry is one hart `i` made in an earlier step of a run that led to `m`. -/
def WalkedBefore (m : Machine) (i : Nat) (s : Scheme) (e : TlbEntry) : Prop :=
  ∃ m1 dc m' va acc, Reachable (fun _ _ => True) m1 ∧ (m1.harts i).halted = false ∧
    ReflTransGen (SysStep fun _ _ => True) ((m1.onHart i).step dc).2 m ∧
    Machine.Translates dc (m1.onHart i) m' va acc ∧ FilledAt m'.cpu m'.bus va acc s e

/-- Or it is one of the step that hart `i` makes from `m`. -/
def Walked (dc : Option DecodeCache) (m : Machine) (i : Nat) (s : Scheme) (e : TlbEntry) : Prop :=
  WalkedBefore m i s e ∨
    ∃ m' va acc, Machine.Translates dc (m.onHart i) m' va acc ∧ FilledAt m'.cpu m'.bus va acc s e

theorem WalkedBefore.tail {m m' : Machine} {i : Nat} {s : Scheme} {e : TlbEntry} (h : WalkedBefore m i s e)
    (hs : SysStep (fun _ _ => True) m m') : WalkedBefore m' i s e := by
  obtain ⟨m1, dc, m2, va, acc, hm, hrun, hto, ht, hfill⟩ := h
  exact ⟨m1, dc, m2, va, acc, hm, hrun, hto.tail hs, ht, hfill⟩

namespace Machine

theorem Translates.acts {ok : Guard} (htick : ok.Ticks) {dc : Option DecodeCache} {m m' : Machine} {va : BitVec 64}
    {acc : AccessType} (hsee : ∀ m' va acc, Translates dc m m' va acc → ok.sees m'.cpu m'.bus va acc)
    (h : Translates dc m m' va acc) : Acts ok m m' ∧ m'.bus.mem.fault = false := by
  cases h with
  | fetchLo h =>
    obtain ⟨c, _, rfl⟩ := preStep_untaken h
    exact ⟨m.acts_beginStep.trans (acts_preStep htick h), rfl⟩
  | fetchHi h ht hmiss hread hlong =>
    have hlo := acts_translate_eq (hsee _ _ _ (.fetchLo h)) ht
    exact ⟨m.acts_beginStep.trans ((acts_preStep htick h).trans (hlo.trans (acts_bus _ (memRead_shape ..)))), hread⟩
  | @data m1 _ _ _ _ _ _ h hf ha =>
    have hseeF : SeesFetch ok dc m1 :=
      ⟨hsee _ _ _ (.fetchLo h), fun _ _ ht hmiss hread hlong => hsee _ _ _ (.fetchHi h ht hmiss hread hlong)⟩
    have hf0 : m1.bus.mem.fault = false := by
      obtain ⟨c, _, rfl⟩ := preStep_untaken h
      rfl
    obtain ⟨hacts, _, hfault⟩ := fetch_some hf0 hseeF hf
    exact ⟨m.acts_beginStep.trans ((acts_preStep htick h).trans hacts), hfault⟩

end Machine

/-! ## Every access is checked -/

/-- What a translation of `va` in `m'`, in hart `i`'s step from `m`, may answer: a page fault; the
walk's address at the hart's own privilege; or that of a TLB entry which a walk of the hart filled,
checked against the hart's own privilege, and which is the walk's address too while the TLB is
coherent. -/
def Checked (dc : Option DecodeCache) (m : Machine) (i : Nat) (s : Scheme) (m' : Machine) (va : BitVec 64)
    (acc : AccessType) (r : Except (BitVec 32) (BitVec 64)) : Prop :=
  let c := m'.cpu
  let va := vaOf c.xlen va
  let e := c.tlb (tlbIndex (va >>> 12))
  r = .error (pfCause acc) ∨
  (∃ ppn pte b', walkPage s (c.csr CSR_MSTATUS) c.priv m'.bus va acc = (some (ppn, pte), b') ∧
    r = .ok (pageAddr ppn va)) ∨
  (Walked dc m i s e ∧ tlbHit e (va >>> 12) s.asid acc = true ∧
    permOk (c.csr CSR_MSTATUS) (e.pteFlags.setWidth 64) acc c.priv = true ∧ r = .ok (pageAddr e.ppn va) ∧
    (Coherent c m'.bus → ∃ pte, walkPage s (c.csr CSR_MSTATUS) c.priv m'.bus va acc = (some (e.ppn, pte), m'.bus)))

end Quanta
