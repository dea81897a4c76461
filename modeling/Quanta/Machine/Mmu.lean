/-
Virtual memory (`mmu.c`): Sv32 and Sv39 as one page-table walk at different sizes, with the
direct-mapped TLB in front of it. A translation reads one hart and the bus; it changes the bus
(the walker maintains A and D in memory) and the hart's TLB, nothing else.
-/
import Quanta.Machine.State

namespace Quanta

/-! ## Paging schemes -/

/-- What `satp.MODE` selects. -/
inductive PtMode
  | bare | sv32 | sv39 | unsupported
  deriving DecidableEq, Repr

def satpMode (xlen : Xlen) (satp : BitVec 64) : PtMode :=
  match xlen with
  | .rv32 => if satp.getLsbD 31 then .sv32 else .bare
  | .rv64 =>
    match (satp >>> 60).setWidth 4 with
    | 0x0#4 => .bare
    | 0x8#4 => .sv39
    | _ => .unsupported

def mmuSatpSupported (xlen : Xlen) (val : BitVec 64) : Bool := satpMode xlen val ≠ .unsupported

/-- The differences between the two walks, and what they take from `satp`. -/
structure Scheme where
  levels : Nat
  ptesize : Nat
  vpnbits : Nat
  ppnmask : BitVec 64
  asid : BitVec 64
  satp : BitVec 64

def sv32 (satp : BitVec 64) : Scheme :=
  { levels := 2, ptesize := 4, vpnbits := 10, ppnmask := 0x3fffff
    asid := (satp >>> 22) &&& 0x1ff, satp := satp }

def sv39 (satp : BitVec 64) : Scheme :=
  { levels := 3, ptesize := 8, vpnbits := 9, ppnmask := 0xfffffffffff
    asid := (satp >>> 44) &&& 0xffff, satp := satp }

/-- The root table, `(satp & ppnmask) << 12`. -/
def Scheme.root (s : Scheme) : BitVec 64 := (s.satp &&& s.ppnmask) <<< 12

/-! ## Permissions -/

def PTE_V : Nat := 0
def PTE_R : Nat := 1
def PTE_W : Nat := 2
def PTE_X : Nat := 3
def PTE_U : Nat := 4
def PTE_A : BitVec 64 := 1 <<< 6
def PTE_D : BitVec 64 := 1 <<< 7

def pfCause : AccessType → BitVec 32
  | .fetch => CAUSE_INSN_PAGE_FAULT
  | .load => CAUSE_LOAD_PAGE_FAULT
  | .store => CAUSE_STORE_PAGE_FAULT

/-- The MPP field of an `mstatus` value. -/
def mppOf (s : BitVec 64) : BitVec 32 := ((s &&& MSTATUS_MPP) >>> MSTATUS_MPP_SHIFT).setWidth 32

/-- The privilege a translation runs at: MPP for a load or store under MPRV. -/
def effPriv (c : CPU) (acc : AccessType) : BitVec 32 :=
  if acc ≠ .fetch ∧ c.csr CSR_MSTATUS &&& MSTATUS_MPRV ≠ 0 then mppOf (c.csr CSR_MSTATUS) else c.priv

/-- Does a leaf PTE permit this access at this privilege, under this `mstatus`? -/
def permOk (mstatus : BitVec 64) (pte : BitVec 64) (acc : AccessType) (priv : BitVec 32) : Bool :=
  let user :=
    if priv = PRIV_U then pte.getLsbD PTE_U
    else !pte.getLsbD PTE_U || (acc ≠ .fetch && mstatus &&& MSTATUS_SUM ≠ 0)
  user &&
    match acc with
    | .fetch => pte.getLsbD PTE_X
    | .load => pte.getLsbD PTE_R || (mstatus &&& MSTATUS_MXR ≠ 0 && pte.getLsbD PTE_X)
    | .store => pte.getLsbD PTE_W

/-! ## The walk -/

/-- A leaf PTE, where it was read and at which level. -/
structure Leaf where
  pte : BitVec 64
  pteAddr : BitVec 64
  level : Nat

/-- Where the walk reads its PTE in the table at `a`. -/
def Scheme.pteAddr (s : Scheme) (va a : BitVec 64) (level : Nat) : BitVec 64 :=
  a + ((va >>> (12 + level * s.vpnbits)) &&& ((1#64 <<< s.vpnbits) - 1)) * BitVec.ofNat 64 s.ptesize

/-- Invalid, or writable without being readable. -/
def pteBad (pte : BitVec 64) : Bool :=
  !pte.getLsbD PTE_V || (!pte.getLsbD PTE_R && pte.getLsbD PTE_W)

def pteLeaf (pte : BitVec 64) : Bool := pte.getLsbD PTE_R || pte.getLsbD PTE_X

/-- The page number a PTE holds. -/
def Scheme.ppn (s : Scheme) (pte : BitVec 64) : BitVec 64 := (pte >>> 10) &&& s.ppnmask

/-- Read a PTE; `none` when it is unmapped, invalid, or writable without being readable. -/
def readPte (s : Scheme) (b : Bus) (pteAddr : BitVec 64) : Option (BitVec 64) × Bus :=
  let r := memRead b pteAddr s.ptesize
  if r.2.mem.fault then (none, r.2.clearFault)
  else if pteBad r.1 then (none, r.2)
  else (some r.1, r.2)

/-- Descend from the table at `a` to a leaf; `none` is a page fault. -/
def walk (s : Scheme) (va a : BitVec 64) (b : Bus) (level : Nat) : Option Leaf × Bus :=
  let pteAddr := s.pteAddr va a level
  match readPte s b pteAddr with
  | (none, b) => (none, b)
  | (some pte, b) =>
    if pteLeaf pte then (some ⟨pte, pteAddr, level⟩, b)
    else
      match level with
      | 0 => (none, b)
      | level + 1 => walk s va (s.ppn pte <<< 12) b level

/-- The page number of a leaf, with a superpage's low bits taken from the address; `none` is a
misaligned superpage. -/
def Scheme.resolve (s : Scheme) (va : BitVec 64) (l : Leaf) : Option (BitVec 64) :=
  let ppn := s.ppn l.pte
  if 0 < l.level then
    let low := (1#64 <<< (l.level * s.vpnbits)) - 1
    if ppn &&& low ≠ 0 then none else some ((ppn &&& ~~~low) ||| ((va >>> 12) &&& low))
  else some ppn

/-- The leaf PTE after the access: A on any access, D on a store. -/
def touchPte (pte : BitVec 64) (acc : AccessType) : BitVec 64 :=
  pte ||| PTE_A ||| (if acc = .store then PTE_D else 0)

/-- The walk from the root with its checks and the A/D update: the page number and the updated
PTE, or `none` for a page fault. -/
def walkPage (s : Scheme) (mstatus : BitVec 64) (priv : BitVec 32) (b : Bus) (va : BitVec 64)
    (acc : AccessType) : Option (BitVec 64 × BitVec 64) × Bus :=
  match walk s va s.root b (s.levels - 1) with
  | (none, b) => (none, b)
  | (some l, b) =>
    if !permOk mstatus l.pte acc priv then (none, b)
    else
      match s.resolve va l with
      | none => (none, b)
      | some ppn =>
        let newpte := touchPte l.pte acc
        (some (ppn, newpte), if newpte ≠ l.pte then memWrite b l.pteAddr s.ptesize newpte else b)

/-! ## Translation -/

/-- A translation's outcome: the physical address or the page-fault cause, and the state after. -/
structure Trans where
  res : Except (BitVec 32) (BitVec 64)
  cpu : CPU
  bus : Bus

/-- The direct-mapped slot of a virtual page. -/
def tlbIndex (vpn : BitVec 64) : BitVec 4 := vpn.setWidth 4

/-- May this entry serve the access? A store needs the cached dirty bit. -/
def tlbHit (e : TlbEntry) (vpn asid : BitVec 64) (acc : AccessType) : Bool :=
  e.valid && e.vpn == vpn && e.asid.setWidth 64 == asid && (acc ≠ .store || e.pteFlags.getLsbD 7)

/-- The physical address of `va` in page `ppn`. -/
def pageAddr (ppn va : BitVec 64) : BitVec 64 := (ppn <<< 12) ||| (va &&& 0xfff)

/-- Paged translation: the TLB, then the walk and the fill. -/
def translatePaged (s : Scheme) (priv : BitVec 32) (c : CPU) (b : Bus) (va : BitVec 64)
    (acc : AccessType) : Trans :=
  let mstatus := c.csr CSR_MSTATUS
  let vpn := va >>> 12
  let e := c.tlb (tlbIndex vpn)
  if tlbHit e vpn s.asid acc then
    if !permOk mstatus (e.pteFlags.setWidth 64) acc priv then ⟨.error (pfCause acc), c, b⟩
    else ⟨.ok (pageAddr e.ppn va), c, b⟩
  else
    match walkPage s mstatus priv b va acc with
    | (none, b) => ⟨.error (pfCause acc), c, b⟩
    | (some (ppn, pte), b) =>
      let e := ⟨true, vpn, s.asid.setWidth 32, ppn, (pte &&& 0xff).setWidth 32⟩
      ⟨.ok (pageAddr ppn va), { c with tlb := Function.update c.tlb (tlbIndex vpn) e }, b⟩

/-- An RV32 virtual address is its low 32 bits. -/
def vaOf (xlen : Xlen) (va : BitVec 64) : BitVec 64 :=
  match xlen with
  | .rv32 => va &&& 0xffffffff
  | .rv64 => va

/-- Sign-extended from bit 38, as Sv39 demands. -/
def canonical39 (va : BitVec 64) : Bool := (va <<< 25).sshiftRight 25 == va

def mmuTranslate (c : CPU) (b : Bus) (va : BitVec 64) (acc : AccessType) : Trans :=
  let satp := c.csr CSR_SATP
  let priv := effPriv c acc
  let va := vaOf c.xlen va
  if priv = PRIV_M then ⟨.ok va, c, b⟩
  else
    match satpMode c.xlen satp with
    | .bare => ⟨.ok va, c, b⟩
    | .unsupported => ⟨.ok va, c, b⟩
    | .sv32 => translatePaged (sv32 satp) priv c b va acc
    | .sv39 =>
      if !canonical39 va then ⟨.error (pfCause acc), c, b⟩
      else translatePaged (sv39 satp) priv c b va acc

/-- `satp` selects the paging scheme `s`. -/
def PagedBy (c : CPU) (s : Scheme) : Prop :=
  (satpMode c.xlen (c.csr CSR_SATP) = .sv32 ∧ s = sv32 (c.csr CSR_SATP)) ∨
  (satpMode c.xlen (c.csr CSR_SATP) = .sv39 ∧ s = sv39 (c.csr CSR_SATP))

/-! ## What a translation leaves alone -/

theorem readPte_frame (s : Scheme) {b : Bus} (hf : b.mem.fault = false) (pteAddr : BitVec 64) :
    b.Frame (readPte s b pteAddr).2 ∧ (readPte s b pteAddr).2.mem.data = b.mem.data := by
  unfold readPte
  dsimp only
  cases hm : b.mapped pteAddr s.ptesize
  · rw [memRead_of_unmapped hm]
    exact ⟨⟨rfl, rfl, hf.symm, rfl, .refl _⟩, rfl⟩
  · obtain ⟨hmem, hframe⟩ := memRead_of_mapped hm
    rw [if_neg (by rw [hmem, hf]; decide)]
    split <;> exact ⟨hframe, by rw [hmem]⟩

/-- Only a mapped PTE is read. -/
theorem readPte_mapped {s : Scheme} {b b' : Bus} {pteAddr pte : BitVec 64} (hf : b.mem.fault = false)
    (h : readPte s b pteAddr = (some pte, b')) : b.mapped pteAddr s.ptesize = true := by
  unfold readPte at h
  dsimp only at h
  rw [memRead_fault hf] at h
  cases hm : b.mapped pteAddr s.ptesize
  · rw [hm] at h
    cases h
  · rfl

/-- A walk reads page tables and changes no RAM. -/
theorem walk_frame (s : Scheme) (va : BitVec 64) (level : Nat) : ∀ (a : BitVec 64) {b : Bus},
    b.mem.fault = false →
      b.Frame (walk s va a b level).2 ∧ (walk s va a b level).2.mem.data = b.mem.data := by
  induction level with
  | zero =>
    intro a b hf
    unfold walk
    dsimp only
    have hr := readPte_frame s hf (s.pteAddr va a 0)
    split
    · next hp => rw [hp] at hr; exact hr
    · next hp =>
      rw [hp] at hr
      split <;> exact hr
  | succ level ih =>
    intro a b hf
    unfold walk
    dsimp only
    have hr := readPte_frame s hf (s.pteAddr va a (level + 1))
    split
    · next hp => rw [hp] at hr; exact hr
    · next hp =>
      rw [hp] at hr
      split
      · exact hr
      · next pte _ _ =>
        have h := ih (s.ppn pte <<< 12) (hr.1.fault.trans hf)
        exact ⟨hr.1.trans h.1, h.2.trans hr.2⟩

/-- The leaf a walk finds was read from mapped memory. -/
theorem walk_mapped {s : Scheme} {va : BitVec 64} {level : Nat} {l : Leaf} {b' : Bus} :
    ∀ {a : BitVec 64} {b : Bus}, b.mem.fault = false → walk s va a b level = (some l, b') →
      b.mapped l.pteAddr s.ptesize = true := by
  induction level with
  | zero =>
    intro a b hf h
    unfold walk at h
    dsimp only at h
    split at h
    · cases h
    · next hp =>
      split at h
      · cases h
        exact readPte_mapped hf hp
      · cases h
  | succ level ih =>
    intro a b hf h
    unfold walk at h
    dsimp only at h
    split at h
    · cases h
    · next hp =>
      have hr := readPte_frame s hf (s.pteAddr va a (level + 1))
      rw [hp] at hr
      split at h
      · cases h
        exact readPte_mapped hf hp
      · rw [← hr.1.mapped]
        exact ih (hr.1.fault.trans hf) h

theorem walkPage_frame (s : Scheme) (mstatus : BitVec 64) (priv : BitVec 32) {b : Bus}
    (hf : b.mem.fault = false) (va : BitVec 64) (acc : AccessType) :
    b.Frame (walkPage s mstatus priv b va acc).2 := by
  unfold walkPage
  have hw := walk_frame s va (s.levels - 1) s.root hf
  split
  · next h => rw [h] at hw; exact hw.1
  · next l b' h =>
    have hm : b'.mapped l.pteAddr s.ptesize = true := by
      rw [h] at hw
      rw [hw.1.mapped]
      exact walk_mapped hf h
    rw [h] at hw
    split
    · exact hw.1
    · split
      · exact hw.1
      · dsimp only
        split
        · exact hw.1.trans (memWrite_of_mapped hm _)
        · exact hw.1

theorem translatePaged_frame (s : Scheme) (priv : BitVec 32) (c : CPU) {b : Bus} (hf : b.mem.fault = false)
    (va : BitVec 64) (acc : AccessType) : b.Frame (translatePaged s priv c b va acc).bus := by
  unfold translatePaged
  dsimp only
  split
  · split <;> exact .refl b
  · have hw := walkPage_frame s (c.csr CSR_MSTATUS) priv hf va acc
    split
    · next h => rw [h] at hw; exact hw
    · next h => rw [h] at hw; exact hw

/-- A translation raises no memory fault. -/
theorem mmuTranslate_frame (c : CPU) {b : Bus} (hf : b.mem.fault = false) (va : BitVec 64) (acc : AccessType) :
    b.Frame (mmuTranslate c b va acc).bus := by
  unfold mmuTranslate
  dsimp only
  split
  · exact .refl b
  · split
    · exact .refl b
    · exact .refl b
    · exact translatePaged_frame _ _ _ hf _ _
    · split
      · exact .refl b
      · exact translatePaged_frame _ _ _ hf _ _

theorem readPte_shape (s : Scheme) (b : Bus) (pteAddr : BitVec 64) : b.Shape (readPte s b pteAddr).2 := by
  have hr := memRead_shape b pteAddr s.ptesize
  unfold readPte
  dsimp only
  split
  · exact hr.trans (clearFault_shape _)
  · split <;> exact hr

theorem walk_shape (s : Scheme) (va : BitVec 64) : ∀ (level : Nat) (a : BitVec 64) (b : Bus),
    b.Shape (walk s va a b level).2
  | 0, a, b => by
    have hr := readPte_shape s b (s.pteAddr va a 0)
    unfold walk
    dsimp only
    split
    · next hp => rw [hp] at hr; exact hr
    · next hp => rw [hp] at hr; split <;> exact hr
  | level + 1, a, b => by
    have hr := readPte_shape s b (s.pteAddr va a (level + 1))
    unfold walk
    dsimp only
    split
    · next hp => rw [hp] at hr; exact hr
    · next hp =>
      rw [hp] at hr
      split
      · exact hr
      · exact hr.trans (walk_shape s va level _ _)

theorem walkPage_shape (s : Scheme) (mstatus : BitVec 64) (priv : BitVec 32) (b : Bus) (va : BitVec 64)
    (acc : AccessType) : b.Shape (walkPage s mstatus priv b va acc).2 := by
  have hw := walk_shape s va (s.levels - 1) s.root b
  unfold walkPage
  split
  · next h => rw [h] at hw; exact hw
  · next h =>
    rw [h] at hw
    split
    · exact hw
    split
    · exact hw
    dsimp only
    split
    · exact hw.trans (memWrite_shape ..)
    · exact hw

/-- A translation leaves the bus its shape. -/
theorem mmuTranslate_shape (c : CPU) (b : Bus) (va : BitVec 64) (acc : AccessType) :
    b.Shape (mmuTranslate c b va acc).bus := by
  have hpaged : ∀ (s : Scheme) (priv : BitVec 32) (va : BitVec 64), b.Shape (translatePaged s priv c b va acc).bus := by
    intro s priv va
    have hw := walkPage_shape s (c.csr CSR_MSTATUS) priv b va acc
    unfold translatePaged
    dsimp only
    split
    · split <;> exact .refl b
    · split
      · next h => rw [h] at hw; exact hw
      · next h => rw [h] at hw; exact hw
  unfold mmuTranslate
  dsimp only
  split
  · exact .refl b
  split
  · exact .refl b
  · exact .refl b
  · exact hpaged ..
  · split
    · exact .refl b
    · exact hpaged ..

theorem translatePaged_cpu (s : Scheme) (priv : BitVec 32) (c : CPU) (b : Bus) (va : BitVec 64)
    (acc : AccessType) : ∃ t, (translatePaged s priv c b va acc).cpu = { c with tlb := t } := by
  unfold translatePaged
  dsimp only
  split
  · split <;> exact ⟨c.tlb, rfl⟩
  · split
    · exact ⟨c.tlb, rfl⟩
    · exact ⟨_, rfl⟩

/-- A translation changes the hart's TLB only. -/
theorem mmuTranslate_cpu (c : CPU) (b : Bus) (va : BitVec 64) (acc : AccessType) :
    ∃ t, (mmuTranslate c b va acc).cpu = { c with tlb := t } := by
  unfold mmuTranslate
  dsimp only
  split
  · exact ⟨c.tlb, rfl⟩
  · split
    · exact ⟨c.tlb, rfl⟩
    · exact ⟨c.tlb, rfl⟩
    · exact translatePaged_cpu ..
    · split
      · exact ⟨c.tlb, rfl⟩
      · exact translatePaged_cpu ..

theorem translatePaged_error {s : Scheme} {priv : BitVec 32} {c : CPU} {b : Bus} {va : BitVec 64}
    {acc : AccessType} {cause : BitVec 32} (h : (translatePaged s priv c b va acc).res = .error cause) :
    cause = pfCause acc := by
  unfold translatePaged at h
  dsimp only at h
  split at h
  · split at h <;> cases h
    rfl
  · split at h <;> cases h
    rfl

/-- The only failure is the access kind's page fault. -/
theorem mmuTranslate_error {c : CPU} {b : Bus} {va : BitVec 64} {acc : AccessType} {cause : BitVec 32}
    (h : (mmuTranslate c b va acc).res = .error cause) : cause = pfCause acc := by
  unfold mmuTranslate at h
  dsimp only at h
  split at h
  · cases h
  · split at h
    · cases h
    · cases h
    · exact translatePaged_error h
    · split at h
      · cases h
        rfl
      · exact translatePaged_error h

end Quanta
