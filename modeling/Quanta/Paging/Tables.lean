/-
Page tables in RAM, apart from the machine that walks them. The PTEs a walk reads are the slots of
the tables; where they are all in RAM the walk is a pure function of memory, and it finds the same
leaf after any change that leaves the slots alone but for accessed and dirty bits on leaves, which is
all a walker writes.
-/
import Quanta.Machine.Mmu

namespace Quanta

open Bytes

/-! ## PTEs -/

/-- The usable PTE of `n` bytes at `p` in RAM. -/
def Bus.pte (b : Bus) (n : Nat) (p : BitVec 64) : Option (BitVec 64) :=
  if b.isDevice p then none
  else
    match b.mem.translate p (BitVec.ofNat 64 n) with
    | none => none
    | some i =>
      let v := readLE 64 b.mem.data i n
      if pteBad v then none else some v

/-- `pte'` is `pte` with A or D possibly added, and only on a leaf. -/
structure Grown (pte pte' : BitVec 64) : Prop where
  same : ∀ i, i ≠ 6 → i ≠ 7 → pte'.getLsbD i = pte.getLsbD i
  accessed : pte.getLsbD 6 = true → pte'.getLsbD 6 = true
  dirty : pte.getLsbD 7 = true → pte'.getLsbD 7 = true
  table : pteLeaf pte = false → pte' = pte

namespace Grown

variable {pte pte' : BitVec 64}

theorem refl (pte : BitVec 64) : Grown pte pte := ⟨fun _ _ _ => rfl, id, id, fun _ => rfl⟩

theorem leaf (h : Grown pte pte') : pteLeaf pte' = pteLeaf pte := by
  unfold pteLeaf
  rw [h.same PTE_R (by decide) (by decide), h.same PTE_X (by decide) (by decide)]

theorem bad (h : Grown pte pte') : pteBad pte' = pteBad pte := by
  unfold pteBad
  rw [h.same PTE_R (by decide) (by decide), h.same PTE_V (by decide) (by decide), h.same PTE_W (by decide) (by decide)]

theorem ppn (h : Grown pte pte') (s : Scheme) : s.ppn pte' = s.ppn pte := by
  unfold Scheme.ppn
  congr 1
  apply BitVec.eq_of_getLsbD_eq
  intro i _
  rw [BitVec.getLsbD_ushiftRight, BitVec.getLsbD_ushiftRight]
  exact h.same _ (by omega) (by omega)

theorem resolve (h : Grown pte pte') (s : Scheme) (va p : BitVec 64) (level : Nat) :
    s.resolve va ⟨pte', p, level⟩ = s.resolve va ⟨pte, p, level⟩ := by
  unfold Scheme.resolve
  dsimp only
  rw [h.ppn]

end Grown

theorem getLsbD_PTE_A (i : Nat) : PTE_A.getLsbD i = decide (i = 6) := by
  by_cases hi : i < 64
  · have hall : ∀ j : Fin 64, PTE_A.getLsbD j = decide (j.val = 6) := by decide
    exact hall ⟨i, hi⟩
  · rw [BitVec.getLsbD_of_ge _ _ (by omega), decide_eq_false (by omega)]

theorem getLsbD_PTE_D (i : Nat) : PTE_D.getLsbD i = decide (i = 7) := by
  by_cases hi : i < 64
  · have hall : ∀ j : Fin 64, PTE_D.getLsbD j = decide (j.val = 7) := by decide
    exact hall ⟨i, hi⟩
  · rw [BitVec.getLsbD_of_ge _ _ (by omega), decide_eq_false (by omega)]

/-- What the walker writes back. -/
theorem grown_touchPte {pte : BitVec 64} (hl : pteLeaf pte = true) (acc : AccessType) : Grown pte (touchPte pte acc) := by
  unfold touchPte
  constructor
  · intro i h6 h7
    rw [BitVec.getLsbD_or, BitVec.getLsbD_or, getLsbD_PTE_A]
    split <;> simp [h6, h7, getLsbD_PTE_D]
  · intro h
    simp [h]
  · intro h
    simp [h]
  · intro h
    rw [hl] at h
    cases h

/-! ## Slots and leaves -/

namespace Scheme

variable (s : Scheme) (b : Bus) (va : BitVec 64)

/-- The addresses of the PTEs a walk from the table at `a` reads. -/
def slots : Nat → BitVec 64 → List (BitVec 64)
  | 0, a => [s.pteAddr va a 0]
  | level + 1, a =>
    s.pteAddr va a (level + 1) ::
      match b.pte s.ptesize (s.pteAddr va a (level + 1)) with
      | none => []
      | some pte => if pteLeaf pte then [] else slots level (s.ppn pte <<< 12)

/-- The leaf a walk from the table at `a` finds in RAM. -/
def leaf : Nat → BitVec 64 → Option Leaf
  | 0, a =>
    match b.pte s.ptesize (s.pteAddr va a 0) with
    | none => none
    | some pte => if pteLeaf pte then some ⟨pte, s.pteAddr va a 0, 0⟩ else none
  | level + 1, a =>
    match b.pte s.ptesize (s.pteAddr va a (level + 1)) with
    | none => none
    | some pte =>
      if pteLeaf pte then some ⟨pte, s.pteAddr va a (level + 1), level + 1⟩ else leaf level (s.ppn pte <<< 12)

/-- The slots of the walk of `va` from the root. -/
def tableSlots : List (BitVec 64) := s.slots b va (s.levels - 1) s.root

/-- The leaf of `va`. -/
def leafOf : Option Leaf := s.leaf b va (s.levels - 1) s.root

/-- No PTE of the walk of `va` comes from a device. -/
def InRam : Prop := ∀ p ∈ s.tableSlots b va, b.isDevice p = false

end Scheme

section

variable {s : Scheme} {b b' : Bus} {va p pte : BitVec 64}

theorem pte_some {n : Nat} (h : b.pte n p = some pte) :
    b.isDevice p = false ∧ ∃ i, b.mem.translate p (BitVec.ofNat 64 n) = some i ∧ readLE 64 b.mem.data i n = pte ∧
      pteBad pte = false := by
  unfold Bus.pte at h
  split at h
  · cases h
  · next hd =>
    refine ⟨by simpa using hd, ?_⟩
    split at h
    · cases h
    · next i hi =>
      dsimp only at h
      split at h
      · cases h
      · next hbad =>
        cases h
        exact ⟨i, hi, rfl, by simpa using hbad⟩

theorem pte_of {n : Nat} {i : Nat} (hd : b.isDevice p = false)
    (hi : b.mem.translate p (BitVec.ofNat 64 n) = some i) (hbad : pteBad (readLE 64 b.mem.data i n) = false) :
    b.pte n p = some (readLE 64 b.mem.data i n) := by
  unfold Bus.pte
  rw [hd, if_neg (by decide), hi]
  dsimp only
  rw [hbad, if_neg (by decide)]

/-- An access that goes to no device is one of RAM. -/
theorem memRead_ram (hd : b.isDevice p = false) (n : Nat) :
    memRead b p n =
      match b.mem.translate p (BitVec.ofNat 64 n) with
      | none => (0, b.setFault p)
      | some i => (readLE 64 b.mem.data i n, b) := by
  unfold memRead
  rw [hd]
  rfl

/-- A usable PTE in RAM is what the walk reads, at no effect. -/
theorem readPte_of_pte (hf : b.mem.fault = false) (h : b.pte s.ptesize p = some pte) :
    readPte s b p = (some pte, b) := by
  obtain ⟨hd, i, hi, hv, hbad⟩ := pte_some h
  unfold readPte
  rw [memRead_ram hd, hi]
  dsimp only
  rw [hf, if_neg (by decide), hv, hbad, if_neg (by decide)]

/-- Away from the devices the walk reads nothing else. -/
theorem readPte_of_none (hf : b.mem.fault = false) (hd : b.isDevice p = false)
    (h : b.pte s.ptesize p = none) : (readPte s b p).1 = none := by
  unfold readPte
  rw [memRead_ram hd]
  unfold Bus.pte at h
  rw [hd, if_neg (by decide)] at h
  split at h
  · rfl
  · dsimp only at h ⊢
    split at h
    · next hbad => rw [hf, if_neg (by decide), if_pos hbad]
    · cases h

/-- A leaf in RAM is what the walk finds, at no effect. -/
theorem walk_of_leaf (hf : b.mem.fault = false) {l : Leaf} : ∀ {level : Nat} {a : BitVec 64},
    s.leaf b va level a = some l → walk s va a b level = (some l, b)
  | 0, a, h => by
    unfold Scheme.leaf at h
    unfold walk
    dsimp only
    split at h
    · cases h
    · next pte hp =>
      rw [readPte_of_pte hf hp]
      dsimp only
      split at h
      · next hl => rw [if_pos hl, ← Option.some.inj h]
      · cases h
  | level + 1, a, h => by
    unfold Scheme.leaf at h
    unfold walk
    dsimp only
    split at h
    · cases h
    · next pte hp =>
      rw [readPte_of_pte hf hp]
      dsimp only
      split at h
      · next hl => rw [if_pos hl, ← Option.some.inj h]
      · next hl =>
        rw [if_neg hl]
        exact walk_of_leaf hf h

/-- In RAM the walk finds the leaf or none. -/
theorem walk_inRam (hf : b.mem.fault = false) : ∀ {level : Nat} {a : BitVec 64},
    (∀ p ∈ s.slots b va level a, b.isDevice p = false) → (walk s va a b level).1 = s.leaf b va level a
  | 0, a, hr => by
    have hd := hr _ (List.mem_singleton.mpr rfl)
    unfold Scheme.leaf walk
    dsimp only
    cases hp : b.pte s.ptesize (s.pteAddr va a 0) with
    | none =>
      have hn := readPte_of_none hf hd hp
      split
      · rfl
      · next heq => rw [heq] at hn; cases hn
    | some pte =>
      rw [readPte_of_pte hf hp]
      dsimp only
      split <;> rfl
  | level + 1, a, hr => by
    have hd := hr _ List.mem_cons_self
    unfold Scheme.leaf walk
    dsimp only
    cases hp : b.pte s.ptesize (s.pteAddr va a (level + 1)) with
    | none =>
      have hn := readPte_of_none hf hd hp
      split
      · rfl
      · next heq => rw [heq] at hn; cases hn
    | some pte =>
      rw [readPte_of_pte hf hp]
      dsimp only
      split
      · rfl
      · next hl =>
        refine walk_inRam hf fun p hm => hr p ?_
        unfold Scheme.slots
        rw [hp]
        dsimp only
        rw [if_neg hl]
        exact List.mem_cons_of_mem _ hm

/-- A leaf survives growth of its slots. -/
theorem leaf_grown {l : Leaf} : ∀ {level : Nat} {a : BitVec 64},
    (∀ p ∈ s.slots b va level a, ∀ pte, b.pte s.ptesize p = some pte →
      ∃ pte', b'.pte s.ptesize p = some pte' ∧ Grown pte pte') →
    s.leaf b va level a = some l → ∃ pte', s.leaf b' va level a = some { l with pte := pte' } ∧ Grown l.pte pte'
  | 0, a, hg, h => by
    unfold Scheme.leaf at h ⊢
    split at h
    · cases h
    · next pte hp =>
      obtain ⟨pte', hp', hgrow⟩ := hg _ (List.mem_singleton.mpr rfl) pte hp
      rw [hp']
      dsimp only
      split at h
      · next hl =>
        rw [hgrow.leaf, if_pos hl, ← Option.some.inj h]
        exact ⟨pte', rfl, hgrow⟩
      · cases h
  | level + 1, a, hg, h => by
    unfold Scheme.leaf at h ⊢
    split at h
    · cases h
    · next pte hp =>
      obtain ⟨pte', hp', hgrow⟩ := hg _ List.mem_cons_self pte hp
      rw [hp']
      dsimp only
      split at h
      · next hl =>
        rw [hgrow.leaf, if_pos hl, ← Option.some.inj h]
        exact ⟨pte', rfl, hgrow⟩
      · next hl =>
        rw [hgrow.leaf, if_neg hl, hgrow.ppn]
        refine leaf_grown (fun p hm => hg p ?_) h
        unfold Scheme.slots
        rw [hp]
        dsimp only
        rw [if_neg hl]
        exact List.mem_cons_of_mem _ hm

theorem leaf_slot {l : Leaf} : ∀ {level : Nat} {a : BitVec 64}, s.leaf b va level a = some l →
    l.pteAddr ∈ s.slots b va level a ∧ b.pte s.ptesize l.pteAddr = some l.pte ∧ pteLeaf l.pte = true
  | 0, a, h => by
    unfold Scheme.leaf at h
    split at h
    · cases h
    · next pte hp =>
      split at h
      · next hl =>
        cases h
        exact ⟨List.mem_singleton.mpr rfl, hp, hl⟩
      · cases h
  | level + 1, a, h => by
    unfold Scheme.leaf at h
    unfold Scheme.slots
    split at h
    · cases h
    · next pte hp =>
      split at h
      · next hl =>
        cases h
        exact ⟨List.mem_cons_self, hp, hl⟩
      · next hl =>
        obtain ⟨hm, hpte, hleaf⟩ := leaf_slot h
        rw [if_neg hl]
        exact ⟨List.mem_cons_of_mem _ hm, hpte, hleaf⟩

/-! ## One page -/

theorem pteAddr_page {va' : BitVec 64} (hv : va' >>> 12 = va >>> 12) (a : BitVec 64) (level : Nat) :
    s.pteAddr va' a level = s.pteAddr va a level := by
  unfold Scheme.pteAddr
  rw [BitVec.shiftRight_add, hv, ← BitVec.shiftRight_add]

/-- The leaf is the page's. -/
theorem leaf_page {va' : BitVec 64} (hv : va' >>> 12 = va >>> 12) : ∀ (level : Nat) (a : BitVec 64),
    s.leaf b va' level a = s.leaf b va level a
  | 0, a => by
    unfold Scheme.leaf
    rw [pteAddr_page hv]
  | level + 1, a => by
    unfold Scheme.leaf
    rw [pteAddr_page hv]
    split
    · rfl
    · rw [leaf_page hv level]

theorem resolve_page {va' : BitVec 64} (hv : va' >>> 12 = va >>> 12) (l : Leaf) : s.resolve va' l = s.resolve va l := by
  unfold Scheme.resolve
  rw [hv]

/-! ## Alignment -/

/-- PTEs of four or eight bytes. -/
def Scheme.Regular (s : Scheme) : Prop := s.ptesize = 4 ∨ s.ptesize = 8

theorem table_aligned (x : BitVec 64) : (x <<< 12).toNat % 8 = 0 := by
  rw [BitVec.toNat_shiftLeft, Nat.shiftLeft_eq]
  omega

theorem pteAddr_aligned (hs : s.Regular) {a : BitVec 64} (ha : a.toNat % 8 = 0) (level : Nat) :
    (s.pteAddr va a level).toNat % s.ptesize = 0 := by
  unfold Scheme.pteAddr
  generalize (va >>> (12 + level * s.vpnbits)) &&& ((1#64 <<< s.vpnbits) - 1) = idx
  rw [BitVec.toNat_add, BitVec.toNat_mul, BitVec.toNat_ofNat]
  rcases hs with hs | hs <;> rw [hs] <;> omega

theorem slots_aligned (hs : s.Regular) : ∀ {level : Nat} {a : BitVec 64}, a.toNat % 8 = 0 →
    ∀ p ∈ s.slots b va level a, p.toNat % s.ptesize = 0
  | 0, a, ha, p, hp => by
    rw [List.mem_singleton.mp hp]
    exact pteAddr_aligned hs ha 0
  | level + 1, a, ha, p, hp => by
    unfold Scheme.slots at hp
    rcases List.mem_cons.mp hp with rfl | hp
    · exact pteAddr_aligned hs ha _
    · split at hp
      · cases hp
      · split at hp
        · cases hp
        · exact slots_aligned hs (table_aligned _) p hp

theorem tableSlots_aligned (hs : s.Regular) (hp : p ∈ s.tableSlots b va) : p.toNat % s.ptesize = 0 :=
  slots_aligned hs (table_aligned _) p hp

/-! ## The walk and the test finisher -/

theorem finisher_add_four {a : BitVec 64} (h : a.toNat % 8 = 0) : finisher (a + 4) = finisher a := by
  unfold finisher inWindow BitVec.ult
  refine decide_eq_decide.mpr ?_
  unfold TEST_BASE TEST_SIZE
  rw [BitVec.toNat_sub, BitVec.toNat_sub, BitVec.toNat_add]
  have ha := a.isLt
  have hbase : (0x00100000 : BitVec 64).toNat = 0x00100000 := rfl
  have hsize : (0x00001000 : BitVec 64).toNat = 0x00001000 := rfl
  have hfour : (4 : BitVec 64).toNat = 4 := rfl
  omega

theorem readPte_power (b : Bus) (p : BitVec 64) :
    platPoweroffRequested (readPte s b p).2.plat = platPoweroffRequested b.plat := by
  have h := memRead_power b p s.ptesize
  unfold readPte
  dsimp only
  split
  · exact h
  · split <;> exact h

/-- The finisher reads as an invalid PTE. -/
theorem readPte_finisher {b b' : Bus} (ha : p.toNat % s.ptesize = 0)
    (hp : b.mem.plat = true) (h : readPte s b p = (some pte, b')) :
    finisher p = false ∧ (s.ptesize = 8 → finisher (p + 4) = false) := by
  have h8 : s.ptesize = 8 → finisher (p + 4) = finisher p := fun hn => finisher_add_four (by rw [hn] at ha; exact ha)
  have hfin : finisher p = false := by
    rw [← Bool.not_eq_true]
    intro hfin
    have hzero := memRead_finisher hp hfin fun hn => (h8 hn).trans hfin
    unfold readPte at h
    dsimp only at h
    rw [hzero] at h
    split at h
    · cases h
    · cases h
  exact ⟨hfin, fun hn => (h8 hn).trans hfin⟩

/-- A walk requests no power-off, and its leaf is not in the finisher. -/
theorem walk_power (hs : s.Regular) : ∀ (level : Nat) (a : BitVec 64) (b : Bus), a.toNat % 8 = 0 →
    platPoweroffRequested (walk s va a b level).2.plat = platPoweroffRequested b.plat ∧
    ∀ l, (walk s va a b level).1 = some l → b.mem.plat = true →
      finisher l.pteAddr = false ∧ (s.ptesize = 8 → finisher (l.pteAddr + 4) = false) := by
  intro level
  induction level with
  | zero =>
    intro a b ha
    have hpower := readPte_power (s := s) b (s.pteAddr va a 0)
    unfold walk
    dsimp only
    split
    · next hr =>
      rw [hr] at hpower
      exact ⟨hpower, fun l hl => by cases hl⟩
    · next pte b' hr =>
      rw [hr] at hpower
      split
      · refine ⟨hpower, fun l hl hp => ?_⟩
        cases hl
        exact readPte_finisher (pteAddr_aligned hs ha 0) hp hr
      · exact ⟨hpower, fun l hl => by cases hl⟩
  | succ level ih =>
    intro a b ha
    have hpower := readPte_power (s := s) b (s.pteAddr va a (level + 1))
    have hshape := readPte_shape s b (s.pteAddr va a (level + 1))
    unfold walk
    dsimp only
    split
    · next hr =>
      rw [hr] at hpower
      exact ⟨hpower, fun l hl => by cases hl⟩
    · next pte b' hr =>
      rw [hr] at hpower hshape
      split
      · refine ⟨hpower, fun l hl hp => ?_⟩
        cases hl
        exact readPte_finisher (pteAddr_aligned hs ha _) hp hr
      · obtain ⟨hrest, hleaf⟩ := ih (s.ppn pte <<< 12) b' (table_aligned _)
        exact ⟨hrest.trans hpower, fun l hl hp => hleaf l hl (hshape.plat.trans hp)⟩

theorem walkPage_power (hs : s.Regular) (mstatus : BitVec 64) (priv : BitVec 32) (b : Bus) (va : BitVec 64)
    (acc : AccessType) :
    platPoweroffRequested (walkPage s mstatus priv b va acc).2.plat = platPoweroffRequested b.plat := by
  obtain ⟨hpower, hleaf⟩ := @walk_power s va hs (s.levels - 1) s.root b (table_aligned _)
  have hshape := walk_shape s va (s.levels - 1) s.root b
  unfold walkPage
  split
  · next hw =>
    rw [hw] at hpower
    exact hpower
  · next l b' hw =>
    rw [hw] at hpower hleaf hshape
    split
    · exact hpower
    · split
      · exact hpower
      · dsimp only
        split
        · refine Eq.trans (memWrite_power (fun hp => ?_) (fun hp => ?_) _) hpower
          · exact (hleaf l rfl (hshape.plat.symm.trans hp)).1
          · exact (hleaf l rfl (hshape.plat.symm.trans hp)).2
        · exact hpower

theorem translatePaged_power (hs : s.Regular) (priv : BitVec 32) (c : CPU) (b : Bus) (va : BitVec 64)
    (acc : AccessType) :
    platPoweroffRequested (translatePaged s priv c b va acc).bus.plat = platPoweroffRequested b.plat := by
  have hw := walkPage_power hs (c.csr CSR_MSTATUS) priv b va acc
  unfold translatePaged
  dsimp only
  split
  · split <;> rfl
  · split
    · next h => rw [h] at hw; exact hw
    · next h => rw [h] at hw; exact hw

/-- A translation requests no power-off. -/
theorem mmuTranslate_power (c : CPU) (b : Bus) (va : BitVec 64) (acc : AccessType) :
    platPoweroffRequested (mmuTranslate c b va acc).bus.plat = platPoweroffRequested b.plat := by
  unfold mmuTranslate
  dsimp only
  split
  · rfl
  split
  · rfl
  · rfl
  · exact translatePaged_power (Or.inl rfl) ..
  · split
    · rfl
    · exact translatePaged_power (Or.inr rfl) ..

/-! ## Changes of memory -/

/-- The same RAM window and the same device windows. -/
structure SameWindows (b b' : Bus) : Prop where
  base : b'.mem.base = b.mem.base
  size : b'.mem.size = b.mem.size
  plat : b'.mem.plat = b.mem.plat

theorem Bus.Frame.windows (h : b.Frame b') : SameWindows b b' := ⟨h.base, h.size, h.plat⟩

/-- A PTE whose bytes are as before. -/
theorem pte_congr (h : SameWindows b b') {n : Nat}
    (hdata : ∀ i, b.mem.translate p (BitVec.ofNat 64 n) = some i → ∀ j, i ≤ j → j < i + n → b'.mem.data j = b.mem.data j) :
    b'.pte n p = b.pte n p := by
  have hd : b'.isDevice p = b.isDevice p := by
    unfold Bus.isDevice
    rw [h.plat]
  have ht : b'.mem.translate p (BitVec.ofNat 64 n) = b.mem.translate p (BitVec.ofNat 64 n) := by
    unfold Memory.translate
    rw [h.base, h.size]
  unfold Bus.pte
  rw [hd, ht]
  cases hi : b.mem.translate p (BitVec.ofNat 64 n) with
  | none => rfl
  | some i =>
    dsimp only
    rw [readLE_congr (hdata i hi)]

theorem Memory.translate_some {m : Memory} {a w : BitVec 64} {i : Nat} (h : m.translate a w = some i) :
    a.toNat = m.base.toNat + i := by
  unfold Memory.translate at h
  split at h
  · cases h
  · next hc =>
    cases h
    simp only [Bool.or_eq_true, BitVec.ult, decide_eq_true_eq, not_or] at hc
    have := a.isLt
    have := m.base.isLt
    rw [BitVec.toNat_sub]
    omega

/-- A walker's write goes to RAM. -/
theorem memWrite_pte {n : Nat} (hp : b.pte n p = some pte) (v : BitVec 64) :
    ∃ i, b.mem.translate p (BitVec.ofNat 64 n) = some i ∧ memWrite b p n v = b.setRam (writeLE b.mem.data i n v) := by
  obtain ⟨hd, i, hi, _⟩ := pte_some hp
  refine ⟨i, hi, ?_⟩
  unfold memWrite
  rw [hd, if_neg (by decide), hi]

/-- The slot then holds what was written. -/
theorem pte_memWrite_self {n : Nat} (hn : n = 4 ∨ n = 8) {p pte pte' : BitVec 64} (hp : b.pte n p = some pte)
    (hg : Grown pte pte') : (memWrite b p n pte').pte n p = some pte' := by
  obtain ⟨hd, i, hi, hv, hbad⟩ := pte_some hp
  obtain ⟨j, hj, hw⟩ := memWrite_pte hp pte'
  rw [hi] at hj
  cases hj
  have hback : readLE 64 (writeLE b.mem.data i n pte') i n = pte' := by
    apply readLE_writeLE_low
    intro k hk
    have hlt : decide (k < 8 * n) = false := decide_eq_false (by omega)
    rw [hg.same k (by omega) (by omega), ← hv, getLsbD_readLE, hlt, Bool.and_false, Bool.false_and]
  have hnew := pte_of (b := b.setRam (writeLE b.mem.data i n pte')) (n := n) (p := p) hd hi
  rw [show (b.setRam (writeLE b.mem.data i n pte')).mem.data = writeLE b.mem.data i n pte' from rfl, hback] at hnew
  rw [hw]
  exact hnew (hg.bad.trans hbad)

/-- A walker's write to a leaf grows that slot and touches no other. -/
theorem pte_memWrite {n : Nat} (hn : n = 4 ∨ n = 8) {p pte pte' : BitVec 64} (hp : b.pte n p = some pte)
    (hg : Grown pte pte') (hal : p.toNat % n = 0) {q old : BitVec 64} (hq : q.toNat % n = 0) (hold : b.pte n q = some old) :
    ∃ new, (memWrite b p n pte').pte n q = some new ∧ Grown old new := by
  by_cases hpq : q = p
  · subst hpq
    rw [hp] at hold
    cases hold
    exact ⟨pte', pte_memWrite_self hn hp hg, hg⟩
  · refine ⟨old, ?_, .refl old⟩
    obtain ⟨i, hi, hw⟩ := memWrite_pte hp pte'
    rw [hw, ← hold]
    refine pte_congr (Bus.Frame.setRam b _).windows fun j hj k hk hk' => ?_
    have hpi := Memory.translate_some hi
    have hqj := Memory.translate_some hj
    have hne : q.toNat ≠ p.toNat := fun h => hpq (BitVec.eq_of_toNat_eq h)
    refine writeLE_of_outside ?_
    rcases hn with rfl | rfl <;> omega

/-- Every PTE of every walk of scheme `s` is as before, or a leaf that gained A or D. -/
def Kept (s : Scheme) (b b' : Bus) : Prop :=
  ∀ va, ∀ p ∈ s.tableSlots b va, ∀ pte, b.pte s.ptesize p = some pte →
    ∃ pte', b'.pte s.ptesize p = some pte' ∧ Grown pte pte'

theorem kept_of_pte (h : ∀ p, b'.pte s.ptesize p = b.pte s.ptesize p) : Kept s b b' :=
  fun _ p _ pte hp => ⟨pte, (h p).trans hp, .refl pte⟩

theorem Kept.refl (s : Scheme) (b : Bus) : Kept s b b := kept_of_pte fun _ => rfl

/-- Memory may change, the page tables' bytes do not. -/
structure SameTables (s : Scheme) (b b' : Bus) : Prop where
  windows : SameWindows b b'
  bytes : ∀ va, ∀ p ∈ s.tableSlots b va, ∀ i, b.mem.translate p (BitVec.ofNat 64 s.ptesize) = some i →
    ∀ j, i ≤ j → j < i + s.ptesize → b'.mem.data j = b.mem.data j

theorem SameTables.kept (h : SameTables s b b') : Kept s b b' :=
  fun va p hp pte hpte => ⟨pte, (pte_congr h.windows (h.bytes va p hp)).trans hpte, .refl pte⟩

/-- A walk in RAM that succeeds: the leaf of `va` permits the access, and is touched. -/
theorem walkPage_some (hf : b.mem.fault = false) (hram : s.InRam b va) {mstatus : BitVec 64} {priv : BitVec 32}
    {acc : AccessType} {ppn pte : BitVec 64} (h : walkPage s mstatus priv b va acc = (some (ppn, pte), b')) :
    ∃ l, s.leafOf b va = some l ∧ permOk mstatus l.pte acc priv = true ∧ s.resolve va l = some ppn ∧
      pte = touchPte l.pte acc ∧ b' = if pte ≠ l.pte then memWrite b l.pteAddr s.ptesize pte else b := by
  have hfound : (walk s va s.root b (s.levels - 1)).1 = s.leafOf b va := walk_inRam hf hram
  unfold walkPage at h
  split at h
  · cases h
  · next l b1 hw =>
    rw [hw] at hfound
    have hb1 : b1 = b := congrArg Prod.snd (hw.symm.trans (walk_of_leaf hf hfound.symm))
    split at h
    · cases h
    · next hperm =>
      split at h
      · cases h
      · next ppn' hres =>
        rw [hb1] at h
        cases h
        exact ⟨l, hfound.symm, by simpa using hperm, hres, rfl, rfl⟩

/-- A failed walk in RAM changes no table. -/
theorem walkPage_none (hf : b.mem.fault = false) {mstatus : BitVec 64} {priv : BitVec 32} {acc : AccessType}
    (h : walkPage s mstatus priv b va acc = (none, b')) : b.Frame b' ∧ b'.mem.data = b.mem.data := by
  have hframe := walk_frame s va (s.levels - 1) s.root hf
  unfold walkPage at h
  split at h
  · next hw =>
    cases h
    rw [hw] at hframe
    exact hframe
  · next hw =>
    rw [hw] at hframe
    split at h
    · cases h
      exact hframe
    · split at h
      · cases h
        exact hframe
      · cases h

/-- A walk in RAM leaves every table as it was but for A and D, also the tables of another root with
PTEs of the same size. -/
theorem walkPage_kept {s' : Scheme} (hs : s.Regular) (hsize : s'.ptesize = s.ptesize) (hf : b.mem.fault = false)
    (hram : s.InRam b va) (mstatus : BitVec 64) (priv : BitVec 32) (acc : AccessType) :
    Kept s' b (walkPage s mstatus priv b va acc).2 := by
  rcases hw : walkPage s mstatus priv b va acc with ⟨_ | ⟨ppn, pte⟩, b1⟩
  · obtain ⟨hframe, hdata⟩ := walkPage_none hf hw
    exact kept_of_pte fun p => pte_congr hframe.windows fun _ _ j _ _ => by rw [hdata]
  · obtain ⟨l, hleaf, _, _, rfl, rfl⟩ := walkPage_some hf hram hw
    obtain ⟨hslot, hpte, hl⟩ := leaf_slot hleaf
    dsimp only
    split
    · intro va' p hp old hold
      have hal : p.toNat % s.ptesize = 0 := by
        rw [← hsize]
        exact tableSlots_aligned (by unfold Scheme.Regular; rw [hsize]; exact hs) hp
      rw [hsize] at hold ⊢
      exact pte_memWrite hs hpte (grown_touchPte hl acc) (tableSlots_aligned hs hslot) hal hold
    · exact .refl s' b

/-- The walked page's leaf afterwards is the touched one. -/
theorem leafOf_walkPage (hs : s.Regular) (hf : b.mem.fault = false) (hram : s.InRam b va) {mstatus : BitVec 64}
    {priv : BitVec 32} {acc : AccessType} {ppn pte : BitVec 64}
    (h : walkPage s mstatus priv b va acc = (some (ppn, pte), b')) :
    ∃ l, s.leafOf b' va = some l ∧ l.pte = pte ∧ s.resolve va l = some ppn := by
  have hkept : Kept s b (walkPage s mstatus priv b va acc).2 := walkPage_kept hs rfl hf hram _ _ _
  obtain ⟨l, hleaf, _, hres, hpte, hb'⟩ := walkPage_some hf hram h
  obtain ⟨_, hold, hl⟩ := leaf_slot hleaf
  rw [h] at hkept
  obtain ⟨pte', hleaf', hg⟩ := leaf_grown (hkept va) hleaf
  obtain ⟨_, hnew, _⟩ := leaf_slot hleaf'
  refine ⟨_, hleaf', ?_, (hg.resolve s va l.pteAddr l.level).trans hres⟩
  have hread : b'.pte s.ptesize l.pteAddr = some pte := by
    rw [hb']
    split
    · rw [hpte]
      exact pte_memWrite_self hs hold (grown_touchPte hl acc)
    · next hne => rw [Decidable.not_not.mp hne]; exact hold
  exact Option.some.inj (hnew.symm.trans hread)

end

end Quanta
