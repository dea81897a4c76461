/-
The geometry checks of `cache_init` against the condition over unbounded integers: the block size is
a power of two of at least 4, the associativity is a power of two, and the size is a power of two
number of sets of them. The checks decide it as long as `assoc * block_size` fits 32 bits; otherwise
the product is 0, and a nonzero size is divided by it.
-/
import Quanta.Machine.Cache
import Mathlib.Algebra.Order.Ring.Nat
import Mathlib.Tactic.Ring

namespace Quanta

/-! ## Powers of two -/

theorem toNat_pred {x : BitVec 32} (hx : 0 < x.toNat) : (x - 1).toNat = x.toNat - 1 := by
  bv_omega

theorem isPow2_iff (x : BitVec 32) : isPow2 x = true ↔ x.toNat.isPowerOfTwo := by
  unfold isPow2
  rw [Bool.and_eq_true, bne_iff_ne, beq_iff_eq]
  constructor
  · rintro ⟨hx, hand⟩
    have hpos : x.toNat ≠ 0 := fun h => hx (BitVec.eq_of_toNat_eq h)
    refine ⟨x.toNat.log2, ?_⟩
    have hle := Nat.log2_self_le hpos
    by_contra hne
    -- otherwise the top bit of `x` is set in `x - 1` too
    have hlt : x.toNat < 2 ^ (x.toNat.log2 + 1) := Nat.lt_log2_self
    have hpred := toNat_pred (Nat.pos_of_ne_zero hpos)
    have hboth : (x.toNat &&& (x.toNat - 1)).testBit x.toNat.log2 = true := by
      rw [Nat.testBit_and, Nat.testBit_of_two_pow_le_and_two_pow_add_one_gt hle hlt,
        Nat.testBit_of_two_pow_le_and_two_pow_add_one_gt (by omega) (by omega)]
      rfl
    have hzero : x.toNat &&& (x.toNat - 1) = 0 := by
      rw [← hpred, ← BitVec.toNat_and, hand]
      rfl
    rw [hzero, Nat.zero_testBit] at hboth
    cases hboth
  · rintro ⟨k, hk⟩
    have hpos : 0 < x.toNat := by
      rw [hk]
      exact Nat.two_pow_pos k
    refine ⟨fun h => by simp [h] at hpos, BitVec.eq_of_toNat_eq ?_⟩
    rw [BitVec.toNat_and, toNat_pred hpos, hk, Nat.and_two_pow_sub_one_eq_mod, Nat.mod_self]
    rfl

theorem log2uFrom_eq {x : BitVec 32} {k : Nat} (hx : x.toNat = 2 ^ k) {n f : Nat} (hn : n ≤ k) (hf : k < n + f)
    (hk : k < 32) : log2uFrom x n f = some k := by
  induction f generalizing n with
  | zero => omega
  | succ f ih =>
    have hshift : (1#32 <<< n).toNat = 2 ^ n := by
      have hlt : 2 ^ n < 2 ^ 32 := Nat.pow_lt_pow_right (by decide) (by omega)
      rw [BitVec.toNat_shiftLeft, Nat.shiftLeft_eq]
      simpa using hlt
    unfold log2uFrom
    rw [BitVec.ult, hshift, hx]
    obtain hlt | rfl := Nat.lt_or_eq_of_le hn
    · rw [decide_eq_true (Nat.pow_lt_pow_right (by decide) hlt)]
      exact ih hlt (by omega)
    · rw [decide_eq_false (Nat.lt_irrefl _)]
      rfl

theorem log2u_eq {x : BitVec 32} {k : Nat} (hx : x.toNat = 2 ^ k) : log2u x = some k := by
  have hk : k < 32 := by
    have hlt := x.isLt
    rw [hx] at hlt
    exact (Nat.pow_lt_pow_iff_right (by decide)).mp hlt
  exact log2uFrom_eq hx (Nat.zero_le k) (by omega) hk

/-! ## Acceptance -/

/-- The geometry over unbounded integers. -/
structure ValidGeometry (size assoc block : Nat) : Prop where
  block_pow2 : block.isPowerOfTwo
  four_le : 4 ≤ block
  assoc_pow2 : assoc.isPowerOfTwo
  size_eq : ∃ sets : Nat, sets.isPowerOfTwo ∧ size = sets * assoc * block

/-- The set of an address. -/
def Cache.index (c : Cache) (addr : BitVec 32) : BitVec 32 := (addr >>> c.offsetBits) &&& (c.numSets - 1)

/-- The number of lines `cache_init` allocates. -/
def Cache.allocated (c : Cache) : Nat := c.numSets.toNat * c.assoc.toNat

/-- Every shift of an access is by less than 32 and every line it looks at is allocated. -/
structure Cache.InBounds (c : Cache) : Prop where
  offset_lt : c.offsetBits < 32
  tag_lt : c.offsetBits + c.indexBits < 32
  index_lt : ∀ addr, (c.index addr).toNat < c.numSets.toNat
  line_lt : ∀ addr, ∀ w < c.assoc.toNat, (c.index addr).toNat * c.assoc.toNat + w < c.allocated

/-- With enough memory the checks are defined and decide the geometry, and what they accept is safe to
access. -/
structure GeometryChecked (size assoc block : BitVec 32) : Prop where
  defined : cacheInit (fun _ => true) size assoc block ≠ .undefined
  accepts_iff : (∃ c, cacheInit (fun _ => true) size assoc block = .done c) ↔
    ValidGeometry size.toNat assoc.toNat block.toNat
  inBounds : ∀ c, cacheInit (fun _ => true) size assoc block = .done c → c.InBounds

/-- The fields `cache_init` sets for 2^s sets of 2^a ways with blocks of 2^b bytes. -/
structure Cache.Shaped (c : Cache) (s a b : Nat) : Prop where
  sets_eq : c.numSets.toNat = 2 ^ s
  ways_eq : c.assoc.toNat = 2 ^ a
  offset_eq : c.offsetBits = b
  index_eq : c.indexBits = s
  fits : s + a + b < 32

/-- Nothing was accessed yet. -/
structure Cache.Fresh (c : Cache) : Prop where
  lines : ∀ i, (c.lines i).valid = false
  tick : c.tick = 0

section
variable {size assoc block : BitVec 32} {c : Cache} {s a b : Nat}

theorem toNat_perSet (ha : assoc.toNat = 2 ^ a) (hb : block.toNat = 2 ^ b) (hab : a + b < 32) :
    (assoc * block).toNat = 2 ^ (a + b) := by
  rw [BitVec.toNat_mul, ha, hb, ← Nat.pow_add]
  exact Nat.mod_eq_of_lt (Nat.pow_lt_pow_right (by decide) hab)

theorem perSet_eq_zero_iff (ha : assoc.toNat = 2 ^ a) (hb : block.toNat = 2 ^ b) :
    assoc * block = 0 ↔ 32 ≤ a + b := by
  constructor
  · intro h
    by_contra hab
    have hper := toNat_perSet ha hb (by omega)
    rw [h] at hper
    exact absurd hper (Nat.two_pow_pos (a + b)).ne
  · intro h
    refine BitVec.eq_of_toNat_eq ?_
    rw [BitVec.toNat_mul, ha, hb, ← Nat.pow_add]
    exact Nat.mod_eq_zero_of_dvd (Nat.pow_dvd_pow 2 h)

theorem lt_of_toNat_pow {x : BitVec 32} {k : Nat} (hx : x.toNat = 2 ^ k) : k < 32 := by
  have hlt := x.isLt
  rw [hx] at hlt
  exact (Nat.pow_lt_pow_iff_right (by decide)).mp hlt

theorem cacheInit_done (hsize : size.toNat = 2 ^ (s + a + b)) (ha : assoc.toNat = 2 ^ a) (hb : block.toNat = 2 ^ b)
    (h2 : 2 ≤ b) : ∃ c, cacheInit (fun _ => true) size assoc block = .done c ∧ c.Shaped s a b ∧ c.Fresh := by
  have hfits : s + a + b < 32 := lt_of_toNat_pow hsize
  have hper : (assoc * block).toNat = 2 ^ (a + b) := toNat_perSet ha hb (by omega)
  have hsets : (size / (assoc * block)).toNat = 2 ^ s := by
    rw [BitVec.toNat_udiv, hsize, hper, Nat.add_assoc, Nat.pow_add 2 s, Nat.mul_div_cancel _ (Nat.two_pow_pos _)]
  have hfour : block.ult 4 = false := by
    have : 2 ^ 2 ≤ 2 ^ b := Nat.pow_le_pow_right (by decide) h2
    rw [BitVec.ult, hb]
    exact decide_eq_false (by simpa using this)
  have hzero : assoc * block ≠ 0 := fun h => by
    have := (perSet_eq_zero_iff ha hb).mp h
    omega
  have hne : size ≠ 0 := fun h => by
    have := Nat.two_pow_pos (s + a + b)
    simp [← hsize, h] at this
  have hmod : size % (assoc * block) = 0 := by
    refine BitVec.eq_of_toNat_eq ?_
    rw [BitVec.toNat_umod, hsize, hper, Nat.add_assoc, Nat.pow_add 2 s, Nat.mul_mod_left]
    rfl
  unfold cacheInit
  rw [(isPow2_iff block).mpr ⟨b, hb⟩, (isPow2_iff assoc).mpr ⟨a, ha⟩, hfour]
  dsimp only
  rw [(isPow2_iff _).mpr ⟨s, hsets⟩, log2u_eq hb, log2u_eq hsets]
  simp only [Bool.not_true, Bool.or_self, Bool.false_eq_true, if_false]
  rw [if_neg fun h => hzero h.2, if_neg fun h => h.elim hne fun h => h hmod]
  exact ⟨_, rfl, ⟨hsets, ha, rfl, rfl, hfits⟩, ⟨fun _ => rfl, rfl⟩⟩

/-- What `cache_init` has accepted. -/
theorem cacheInit_valid (h : cacheInit (fun _ => true) size assoc block = .done c) :
    ∃ s a b, 2 ≤ b ∧ size.toNat = 2 ^ (s + a + b) ∧ assoc.toNat = 2 ^ a ∧ block.toNat = 2 ^ b := by
  unfold cacheInit at h
  split at h
  · cases h
  split at h
  · cases h
  dsimp only at h
  split at h
  · cases h
  split at h
  · cases h
  split at h
  · cases h
  next hblock hassoc hdef hmul hsets =>
  simp only [Bool.or_eq_true, Bool.not_eq_true', not_or, Bool.not_eq_false, Bool.not_eq_true] at hblock hassoc hsets
  obtain ⟨b, hb⟩ := (isPow2_iff block).mp hblock.1
  obtain ⟨a, ha⟩ := (isPow2_iff assoc).mp hassoc
  obtain ⟨s, hs⟩ := (isPow2_iff _).mp hsets
  rw [not_or, not_not] at hmul
  have hab : a + b < 32 := by
    by_contra hge
    exact hdef ⟨hmul.1, (perSet_eq_zero_iff ha hb).mpr (by omega)⟩
  have hper := toNat_perSet ha hb hab
  have hmod : size.toNat % 2 ^ (a + b) = 0 := by
    rw [← hper, ← BitVec.toNat_umod, hmul.2]
    rfl
  rw [BitVec.toNat_udiv, hper] at hs
  refine ⟨s, a, b, ?_, ?_, ha, hb⟩
  · by_contra hlt
    have hle : 2 ^ b ≤ 2 ^ 1 := Nat.pow_le_pow_right (by decide) (by omega)
    have hfour := hblock.2
    rw [BitVec.ult, hb, decide_eq_false_iff_not] at hfour
    simp at hfour
    omega
  · rw [← Nat.div_add_mod size.toNat (2 ^ (a + b)), hs, hmod, Nat.add_assoc s, Nat.pow_add 2 s]
    ring

theorem validGeometry_iff : ValidGeometry size.toNat assoc.toNat block.toNat ↔
    ∃ s a b, 2 ≤ b ∧ size.toNat = 2 ^ (s + a + b) ∧ assoc.toNat = 2 ^ a ∧ block.toNat = 2 ^ b := by
  constructor
  · rintro ⟨⟨b, hb⟩, hfour, ⟨a, ha⟩, sets, ⟨s, rfl⟩, hsize⟩
    refine ⟨s, a, b, ?_, ?_, ha, hb⟩
    · rw [hb] at hfour
      exact (Nat.pow_le_pow_iff_right (by decide)).mp (show 2 ^ 2 ≤ 2 ^ b from hfour)
    · rw [hsize, ha, hb, Nat.pow_add, Nat.pow_add]
  · rintro ⟨s, a, b, h2, hsize, ha, hb⟩
    refine ⟨⟨b, hb⟩, ?_, ⟨a, ha⟩, 2 ^ s, ⟨s, rfl⟩, ?_⟩
    · rw [hb]
      exact show 2 ^ 2 ≤ 2 ^ b from Nat.pow_le_pow_right (by decide) h2
    · rw [hsize, ha, hb, Nat.pow_add, Nat.pow_add]

theorem accepts_iff : (∃ c, cacheInit (fun _ => true) size assoc block = .done c) ↔
    ValidGeometry size.toNat assoc.toNat block.toNat := by
  rw [validGeometry_iff]
  constructor
  · rintro ⟨c, hc⟩
    exact cacheInit_valid hc
  · rintro ⟨s, a, b, h2, hsize, ha, hb⟩
    obtain ⟨c, hc, _⟩ := cacheInit_done hsize ha hb h2
    exact ⟨c, hc⟩

namespace Cache.Shaped

theorem index_lt (h : c.Shaped s a b) (addr : BitVec 32) : (c.index addr).toNat < c.numSets.toNat := by
  have hpos : 0 < c.numSets.toNat := by
    rw [h.sets_eq]
    exact Nat.two_pow_pos s
  have hle := @Nat.and_le_right (addr >>> c.offsetBits).toNat (c.numSets - 1).toNat
  rw [toNat_pred hpos] at hle
  rw [index, BitVec.toNat_and, toNat_pred hpos]
  omega

theorem inBounds (h : c.Shaped s a b) : c.InBounds := by
  refine ⟨?_, ?_, h.index_lt, fun addr w hw => ?_⟩
  · have := h.fits
    rw [h.offset_eq]
    omega
  · have := h.fits
    rw [h.offset_eq, h.index_eq]
    omega
  · calc (c.index addr).toNat * c.assoc.toNat + w
        < ((c.index addr).toNat + 1) * c.assoc.toNat := by
          rw [Nat.add_mul, Nat.one_mul]
          omega
      _ ≤ c.numSets.toNat * c.assoc.toNat := Nat.mul_le_mul_right _ (h.index_lt addr)

end Cache.Shaped

theorem cacheInit_inBounds (h : cacheInit (fun _ => true) size assoc block = .done c) : c.InBounds := by
  obtain ⟨s, a, b, h2, hsize, ha, hb⟩ := cacheInit_valid h
  obtain ⟨c', hc', hshaped, _⟩ := cacheInit_done hsize ha hb h2
  rw [h] at hc'
  cases hc'
  exact hshaped.inBounds

end

/-- The powers of two `assoc` and `block` have a product of 2^32 or more, and the size is not 0. -/
structure WaysWrap (size assoc block : BitVec 32) : Prop where
  block_pow2 : block.toNat.isPowerOfTwo
  four_le : 4 ≤ block.toNat
  assoc_pow2 : assoc.toNat.isPowerOfTwo
  size_ne : size ≠ 0
  wraps : 2 ^ 32 ≤ assoc.toNat * block.toNat

theorem cacheInit_undefined_iff (size assoc block : BitVec 32) :
    cacheInit (fun _ => true) size assoc block = .undefined ↔ WaysWrap size assoc block := by
  constructor
  · intro h
    unfold cacheInit at h
    split at h
    · cases h
    split at h
    · cases h
    next hblock hassoc =>
    simp only [Bool.or_eq_true, Bool.not_eq_true', not_or, Bool.not_eq_false, Bool.not_eq_true] at hblock hassoc
    obtain ⟨b, hb⟩ := (isPow2_iff block).mp hblock.1
    obtain ⟨a, ha⟩ := (isPow2_iff assoc).mp hassoc
    dsimp only at h
    split at h
    · next hdef =>
      refine ⟨⟨b, hb⟩, ?_, ⟨a, ha⟩, hdef.1, ?_⟩
      · simpa [BitVec.ult] using hblock.2
      · rw [ha, hb, ← Nat.pow_add]
        exact Nat.pow_le_pow_right (by decide) ((perSet_eq_zero_iff ha hb).mp hdef.2)
    split at h
    · cases h
    split at h
    · cases h
    next hsets =>
    simp only [Bool.not_eq_true', Bool.not_eq_false] at hsets
    obtain ⟨s, hs⟩ := (isPow2_iff _).mp hsets
    rw [log2u_eq hb, log2u_eq hs] at h
    simp at h
  · rintro ⟨⟨b, hb⟩, hfour, ⟨a, ha⟩, hsize, hwraps⟩
    have hzero : assoc * block = 0 := by
      rw [perSet_eq_zero_iff ha hb]
      rw [ha, hb, ← Nat.pow_add] at hwraps
      exact (Nat.pow_le_pow_iff_right (by decide)).mp hwraps
    have hnot : block.ult 4 = false := by
      rw [BitVec.ult]
      exact decide_eq_false (by simpa using hfour)
    unfold cacheInit
    rw [(isPow2_iff block).mpr ⟨b, hb⟩, (isPow2_iff assoc).mpr ⟨a, ha⟩, hnot]
    dsimp only
    rw [if_neg (by decide), if_neg (by decide), if_pos ⟨hsize, hzero⟩]

/-- The geometry is checked exactly unless the product of associativity and block size wraps. -/
theorem geometry_checked_iff (size assoc block : BitVec 32) :
    GeometryChecked size assoc block ↔ ¬WaysWrap size assoc block := by
  constructor
  · intro h hw
    exact h.defined ((cacheInit_undefined_iff size assoc block).mpr hw)
  · intro hw
    exact ⟨fun h => hw ((cacheInit_undefined_iff size assoc block).mp h), accepts_iff,
      fun c hc => cacheInit_inBounds hc⟩

/-- 65536 ways of 65536 bytes: `cache_init` divides by zero. -/
theorem large_ways_undefined :
    cacheInit (fun _ => true) 0x10000 0x10000 0x10000 = .undefined ∧
    ¬GeometryChecked 0x10000 0x10000 0x10000 := by
  have hundef : cacheInit (fun _ => true) 0x10000 0x10000 0x10000 = .undefined := by rfl
  exact ⟨hundef, fun h => h.defined hundef⟩

end Quanta
