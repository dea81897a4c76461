/-
The cache model is exact LRU. An address belongs to block `addr / 2^b`, a block to set `block % 2^s`;
an access hits when its block was accessed before and fewer than `assoc` distinct other blocks of its
set since. The ticks stored in the lines order the ways of a set as the recency order of the blocks
that map to it, and an access moves one way to the front of that order.
-/
import Quanta.Cache.Geometry
import Quanta.Lib.Recency

namespace Quanta

open Recency

/-! ## What LRU is -/

/-- The blocks accessed, newest first. -/
def blocksOf (b : Nat) (accs : List (BitVec 32 × Bool)) : List Nat :=
  (accs.map fun x => x.1.toNat / 2 ^ b).reverse

/-- The block was accessed, and fewer than `ways` distinct others of its set since. -/
def LruHit (sets ways : Nat) (history : List Nat) (block : Nat) : Prop :=
  block ∈ history ∧ ((since block history).filter (· % sets = block % sets)).toFinset.card < ways

/-- The blocks of a set, most recent first. -/
def recentOf (sets : Nat) (history : List Nat) (i : Nat) : List Nat := order (history.filter (· % sets = i))

namespace Cache

/-- The block in way `w` of set `i`. -/
def heldBlock (c : Cache) (i w : Nat) : Option Nat :=
  let line := c.lines (i * c.assoc.toNat + w)
  if line.valid then some (line.tag.toNat * c.numSets.toNat + i) else none

/-- The tick in way `w` of set `i`. -/
def stamp (c : Cache) (i w : Nat) : Nat := (c.lines (i * c.assoc.toNat + w)).used.toNat

def run (c : Cache) (accs : List (BitVec 32 × Bool)) : Cache := accs.foldl (fun c x => cacheAccess c x.1 x.2) c

end Cache

/-! ## Scanning the ways -/

section
variable {lines : Nat → CacheLine} {base : Nat} {tag : BitVec 32} {w n v : Nat}

theorem cacheLookup_some (h : cacheLookup lines base tag w n = some v) :
    v < w + n ∧ (lines (base + v)).valid = true ∧ (lines (base + v)).tag = tag := by
  induction n generalizing w with
  | zero => cases h
  | succ n ih =>
    unfold cacheLookup at h
    split at h
    · next hw =>
      cases h
      exact ⟨by omega, hw⟩
    · obtain ⟨hlt, hv⟩ := ih h
      exact ⟨by omega, hv⟩

theorem cacheLookup_none (h : cacheLookup lines base tag w n = none) (hw : w ≤ v) (hv : v < w + n) :
    ¬((lines (base + v)).valid = true ∧ (lines (base + v)).tag = tag) := by
  induction n generalizing w with
  | zero => omega
  | succ n ih =>
    unfold cacheLookup at h
    split at h
    · cases h
    · next hmiss =>
      obtain rfl | hlt := Nat.eq_or_lt_of_le hw
      · exact hmiss
      · exact ih h hlt (by omega)

/-- Of the ways below `w` the victim so far has the oldest tick, and none is empty. -/
structure Scanned (lines : Nat → CacheLine) (base victim w : Nat) : Prop where
  valid : ∀ u < w, (lines (base + u)).valid = true
  oldest : ∀ u < w, (lines (base + victim)).used.toNat ≤ (lines (base + u)).used.toNat
  lt : victim < w ∨ w = 0 ∧ victim = 0

/-- The victim is an empty way, or the oldest of a full set. -/
theorem cacheVictim_spec {victim : Nat} (hs : Scanned lines base victim w) (hn : 0 < w + n) :
    let v := cacheVictim lines base victim w n
    v < w + n ∧ ((lines (base + v)).valid = false ∨ Scanned lines base v (w + n)) := by
  induction n generalizing victim w with
  | zero =>
    have hlt := hs.lt.resolve_right fun h => by omega
    exact ⟨hlt, .inr hs⟩
  | succ n ih =>
    unfold cacheVictim
    split
    · next hempty => exact ⟨by omega, .inl (by simpa using hempty)⟩
    · next hvalid =>
      have hvalid' : ∀ u < w + 1, (lines (base + u)).valid = true := fun u hu => by
        obtain hu | rfl := Nat.lt_succ_iff_lt_or_eq.mp hu
        · exact hs.valid u hu
        · simpa using hvalid
      rw [show w + (n + 1) = w + 1 + n by omega]
      dsimp only
      split
      · next holder =>
        have hlt := BitVec.ult_iff_lt.mp holder
        refine ih ⟨hvalid', fun u hu => ?_, .inl (by omega)⟩ (by omega)
        obtain hu | rfl := Nat.lt_succ_iff_lt_or_eq.mp hu
        · exact (BitVec.lt_def.mp hlt).le.trans (hs.oldest u hu)
        · exact Nat.le_refl _
      · next hnewer =>
        have hle : (lines (base + victim)).used.toNat ≤ (lines (base + w)).used.toNat := by
          simpa [BitVec.ult] using hnewer
        refine ih ⟨hvalid', fun u hu => ?_, .inl ?_⟩ (by omega)
        · obtain hu | rfl := Nat.lt_succ_iff_lt_or_eq.mp hu
          · exact hs.oldest u hu
          · exact hle
        · obtain hlt | ⟨rfl, rfl⟩ := hs.lt <;> omega

end

/-! ## One access -/

/-- The tag of an address. -/
def Cache.tagOf (c : Cache) (addr : BitVec 32) : BitVec 32 := addr >>> (c.offsetBits + c.indexBits)

/-- What an access does: way `w` of its set is given to the tag at the next tick; the tag was there, or
it was in no way and `w` was empty or the oldest of a full set. -/
structure Accessed (c : Cache) (addr : BitVec 32) (w : Nat) (c' : Cache) : Prop where
  lt : w < c.assoc.toNat
  lines : c'.lines = Function.update c.lines ((c.index addr).toNat * c.assoc.toNat + w) ⟨true, c.tagOf addr, c.tick + 1⟩
  tick : c'.tick = c.tick + 1
  numSets : c'.numSets = c.numSets
  assoc : c'.assoc = c.assoc
  offsetBits : c'.offsetBits = c.offsetBits
  indexBits : c'.indexBits = c.indexBits
  counted :
    let base := (c.index addr).toNat * c.assoc.toNat
    ((c.lines (base + w)).valid = true ∧ (c.lines (base + w)).tag = c.tagOf addr ∧
      c'.hits = c.hits + 1 ∧ c'.misses = c.misses) ∨
    ((∀ v < c.assoc.toNat, ¬((c.lines (base + v)).valid = true ∧ (c.lines (base + v)).tag = c.tagOf addr)) ∧
      ((c.lines (base + w)).valid = false ∨ Scanned c.lines base w c.assoc.toNat) ∧
      c'.hits = c.hits ∧ c'.misses = c.misses + 1)

theorem cacheAccess_accessed {c : Cache} (hpos : 0 < c.assoc.toNat) (addr : BitVec 32) (isStore : Bool) :
    ∃ w, Accessed c addr w (cacheAccess c addr isStore) := by
  -- the counts of loads and stores are apart from everything else
  have hcounts : ∃ loads stores,
      (if isStore then { c with stores := c.stores + 1 } else { c with loads := c.loads + 1 }) =
        { c with loads, stores } := by
    cases isStore <;> exact ⟨_, _, rfl⟩
  obtain ⟨loads, stores, hcounts⟩ := hcounts
  unfold cacheAccess
  rw [hcounts]
  dsimp only
  rw [← Cache.index, ← Cache.tagOf]
  split
  · next w hw =>
    obtain ⟨hlt, hvalid, htag⟩ := cacheLookup_some hw
    refine ⟨w, by omega, ?_, rfl, rfl, rfl, rfl, rfl, .inl ⟨hvalid, htag, rfl, rfl⟩⟩
    rw [← hvalid, ← htag]
  · next hnone =>
    have hscan : Scanned c.lines ((c.index addr).toNat * c.assoc.toNat) 0 0 :=
      ⟨fun u hu => by omega, fun u hu => by omega, .inr ⟨rfl, rfl⟩⟩
    obtain ⟨hlt, hvictim⟩ := cacheVictim_spec hscan (show 0 < 0 + c.assoc.toNat by omega)
    rw [Nat.zero_add] at hlt hvictim
    refine ⟨_, hlt, rfl, rfl, rfl, rfl, rfl, rfl, .inr ⟨fun v hv => ?_, hvictim, rfl, rfl⟩⟩
    exact cacheLookup_none hnone (Nat.zero_le v) (by omega)

theorem line_inj {n i j v w : Nat} (hv : v < n) (hw : w < n) (h : i * n + v = j * n + w) : i = j ∧ v = w := by
  have hpos : 0 < n := by omega
  have hdiv := congrArg (· / n) h
  have hmod := congrArg (· % n) h
  simp only [Nat.mul_comm _ n, Nat.mul_add_div hpos, Nat.mul_add_mod, Nat.div_eq_of_lt hv, Nat.div_eq_of_lt hw,
    Nat.mod_eq_of_lt hv, Nat.mod_eq_of_lt hw] at hdiv hmod
  exact ⟨by omega, hmod⟩

theorem mul_add_mod_iff {n t x : Nat} (hn : 0 < n) : t * n + x % n = x ↔ t = x / n := by
  have hsplit := Nat.div_add_mod' x n
  constructor
  · intro h
    have hmul : t * n = x / n * n := by omega
    exact Nat.eq_of_mul_eq_mul_right hn hmul
  · rintro rfl
    exact hsplit

namespace Accessed

variable {c c' : Cache} {addr : BitVec 32} {w i v s a b : Nat}

theorem line_self (h : Accessed c addr w c') :
    c'.lines ((c.index addr).toNat * c'.assoc.toNat + w) = ⟨true, c.tagOf addr, c.tick + 1⟩ := by
  rw [h.lines, h.assoc, Function.update_self]

theorem line_ne (h : Accessed c addr w c') (hv : v < c.assoc.toNat) (hne : ¬(i = (c.index addr).toNat ∧ v = w)) :
    c'.lines (i * c'.assoc.toNat + v) = c.lines (i * c.assoc.toNat + v) := by
  rw [h.lines, h.assoc, Function.update_of_ne]
  exact fun heq => hne (line_inj hv h.lt heq)

theorem heldBlock_ne (h : Accessed c addr w c') (hv : v < c.assoc.toNat)
    (hne : ¬(i = (c.index addr).toNat ∧ v = w)) : c'.heldBlock i v = c.heldBlock i v := by
  unfold Cache.heldBlock
  rw [h.line_ne hv hne, h.numSets]

theorem stamp_ne (h : Accessed c addr w c') (hv : v < c.assoc.toNat)
    (hne : ¬(i = (c.index addr).toNat ∧ v = w)) : c'.stamp i v = c.stamp i v := by
  unfold Cache.stamp
  rw [h.line_ne hv hne]

theorem shaped (h : Accessed c addr w c') (hc : c.Shaped s a b) : c'.Shaped s a b :=
  ⟨by rw [h.numSets, hc.sets_eq], by rw [h.assoc, hc.ways_eq], by rw [h.offsetBits, hc.offset_eq],
    by rw [h.indexBits, hc.index_eq], hc.fits⟩

end Accessed

namespace Cache.Shaped

variable {c : Cache} {s a b : Nat}

theorem toNat_index (hc : c.Shaped s a b) (addr : BitVec 32) : (c.index addr).toNat = addr.toNat / 2 ^ b % 2 ^ s := by
  have hpos : 0 < c.numSets.toNat := by
    rw [hc.sets_eq]
    exact Nat.two_pow_pos s
  rw [Cache.index, BitVec.toNat_and, toNat_pred hpos, hc.sets_eq, Nat.and_two_pow_sub_one_eq_mod,
    BitVec.toNat_ushiftRight, Nat.shiftRight_eq_div_pow, hc.offset_eq]

theorem toNat_tagOf (hc : c.Shaped s a b) (addr : BitVec 32) : (c.tagOf addr).toNat = addr.toNat / 2 ^ b / 2 ^ s := by
  rw [Cache.tagOf, BitVec.toNat_ushiftRight, Nat.shiftRight_eq_div_pow, hc.offset_eq, hc.index_eq, Nat.pow_add,
    Nat.div_div_eq_div_mul]

/-- A way of the address's set holds the address's tag when it holds its block. -/
theorem heldBlock_iff (hc : c.Shaped s a b) (addr : BitVec 32) (w : Nat) :
    c.heldBlock (c.index addr).toNat w = some (addr.toNat / 2 ^ b) ↔
      (c.lines ((c.index addr).toNat * c.assoc.toNat + w)).valid = true ∧
        (c.lines ((c.index addr).toNat * c.assoc.toNat + w)).tag = c.tagOf addr := by
  unfold Cache.heldBlock
  dsimp only
  split
  · next hvalid =>
    rw [Option.some_inj, and_iff_right hvalid, ← BitVec.toNat_inj, hc.toNat_tagOf, hc.toNat_index, hc.sets_eq]
    exact mul_add_mod_iff (Nat.two_pow_pos s)
  · next hvalid => simp [hvalid]

end Cache.Shaped

/-! ## The invariant -/

/-- The state after a history: every set holds its most recent blocks, stamped in their order. -/
structure Lru (s a b : Nat) (c : Cache) (history : List Nat) : Prop where
  shaped : c.Shaped s a b
  clock : c.tick.toNat = history.length
  sets : ∀ i < 2 ^ s, ∃ ws,
    Holds (2 ^ a) ((recentOf (2 ^ s) history i).take (2 ^ a)) (c.heldBlock i) (c.stamp i) history.length ws

section
variable {c c' : Cache} {addr : BitVec 32} {s a b w : Nat} {history : List Nat}

theorem Lru.fresh (hc : c.Shaped s a b) (hf : c.Fresh) : Lru s a b c [] := by
  refine ⟨hc, by rw [hf.tick]; rfl, fun i _ => ⟨[], ?_, List.Pairwise.nil, ?_, fun w => ?_⟩⟩
  · exact (congrArg (List.map some) List.take_nil).symm
  · rintro w ⟨⟩
  · simp [Cache.heldBlock, hf.lines]

theorem Cache.heldBlock_eq_none {i v : Nat} :
    c.heldBlock i v = none ↔ (c.lines (i * c.assoc.toNat + v)).valid = false := by
  simp [Cache.heldBlock]

/-- What an access preserves. -/
theorem Lru.step (hl : Lru s a b c history) (h : Accessed c addr w c') (hlen : history.length + 1 < 2 ^ 64) :
    Lru s a b c' (addr.toNat / 2 ^ b :: history) := by
  have htick : (c.tick + 1).toNat = history.length + 1 := by
    rw [BitVec.toNat_add, hl.clock]
    exact Nat.mod_eq_of_lt hlen
  have hidx := hl.shaped.toNat_index addr
  have hways := hl.shaped.ways_eq
  refine ⟨h.shaped hl.shaped, by rw [h.tick, htick]; rfl, fun i hi => ?_⟩
  obtain ⟨ws, hs⟩ := hl.sets i hi
  by_cases hset : i = addr.toNat / 2 ^ b % 2 ^ s
  · -- its own set: way `w` comes to the front
    rw [← hidx] at hset
    subst hset
    have hself := h.line_self
    have hput : Put (2 ^ a) w (addr.toNat / 2 ^ b) (history.length + 1) (c.heldBlock (c.index addr).toNat)
        (c'.heldBlock (c.index addr).toNat) (c.stamp (c.index addr).toNat) (c'.stamp (c.index addr).toNat) := by
      refine ⟨hways ▸ h.lt, ?_, ?_, fun v hv hne => ?_, fun v hv hne => ?_⟩
      · unfold Cache.heldBlock
        dsimp only
        rw [hself, if_pos rfl, h.numSets, hl.shaped.toNat_tagOf, hidx, hl.shaped.sets_eq]
        exact congrArg some ((mul_add_mod_iff (Nat.two_pow_pos s)).mpr rfl)
      · unfold Cache.stamp
        rw [hself]
        exact htick
      · exact h.heldBlock_ne (hways ▸ hv) fun heq => hne heq.2
      · exact h.stamp_ne (hways ▸ hv) fun heq => hne heq.2
    have hrecent : recentOf (2 ^ s) (addr.toNat / 2 ^ b :: history) (c.index addr).toNat =
        order (addr.toNat / 2 ^ b :: history.filter (· % 2 ^ s = (c.index addr).toNat)) := by
      exact congrArg order (List.filter_cons_of_pos (by simpa using hidx.symm))
    rw [hrecent]
    refine ⟨_, hs.replace (Nat.lt_succ_self _) hput ?_⟩
    obtain ⟨hvalid, htag, _⟩ | ⟨hmiss, hvictim, _⟩ := h.counted
    · exact .inl ((hl.shaped.heldBlock_iff addr w).mpr ⟨hvalid, htag⟩)
    · refine .inr ⟨fun v hv heq => hmiss v (hways ▸ hv) ((hl.shaped.heldBlock_iff addr v).mp heq), ?_⟩
      obtain hempty | hscan := hvictim
      · exact .inl (Cache.heldBlock_eq_none.mpr hempty)
      · refine .inr ⟨fun v hv heq => ?_, fun v hv => hscan.oldest v (hways ▸ hv)⟩
        have hvalid := hscan.valid v (hways ▸ hv)
        rw [Cache.heldBlock_eq_none.mp heq] at hvalid
        cases hvalid
  · have hrecent : recentOf (2 ^ s) (addr.toNat / 2 ^ b :: history) i = recentOf (2 ^ s) history i := by
      exact congrArg order (List.filter_cons_of_neg (by simpa using Ne.symm hset))
    rw [hrecent]
    rw [← hidx] at hset
    exact ⟨ws, hs.congr (Nat.le_succ _) (fun v hv => h.heldBlock_ne (hways ▸ hv) fun heq => hset heq.1)
      fun v hv => h.stamp_ne (hways ▸ hv) fun heq => hset heq.1⟩

theorem lruHit_iff {sets ways block : Nat} :
    LruHit sets ways history block ↔ block ∈ (recentOf sets history (block % sets)).take ways := by
  have hkeep : decide (block % sets = block % sets) = true := decide_eq_true rfl
  have hsince := @since_filter _ _ block (· % sets = block % sets) hkeep history
  rw [recentOf, mem_take_order, hsince, List.mem_filter, and_iff_left hkeep]
  rfl

/-- An access hits when LRU does. -/
theorem Lru.counted (hl : Lru s a b c history) (h : Accessed c addr w c') :
    (LruHit (2 ^ s) (2 ^ a) history (addr.toNat / 2 ^ b) → c'.hits = c.hits + 1 ∧ c'.misses = c.misses) ∧
    (¬LruHit (2 ^ s) (2 ^ a) history (addr.toNat / 2 ^ b) → c'.hits = c.hits ∧ c'.misses = c.misses + 1) := by
  have hidx := hl.shaped.toNat_index addr
  have hways := hl.shaped.ways_eq
  obtain ⟨ws, hs⟩ := hl.sets (addr.toNat / 2 ^ b % 2 ^ s) (Nat.mod_lt _ (Nat.two_pow_pos s))
  rw [lruHit_iff, hs.mem_held, ← hidx]
  obtain ⟨hvalid, htag, hcount⟩ | ⟨hmiss, _, hcount⟩ := h.counted
  · have hhit := (hl.shaped.heldBlock_iff addr w).mpr ⟨hvalid, htag⟩
    exact ⟨fun _ => hcount, fun hnot => absurd ⟨w, hways ▸ h.lt, hhit⟩ hnot⟩
  · refine ⟨?_, fun _ => hcount⟩
    rintro ⟨v, hv, hhit⟩
    exact absurd ((hl.shaped.heldBlock_iff addr v).mp hhit) (hmiss v (hways ▸ hv))

theorem blocksOf_append (b : Nat) (accs : List (BitVec 32 × Bool)) (x : BitVec 32 × Bool) :
    blocksOf b (accs ++ [x]) = x.1.toNat / 2 ^ b :: blocksOf b accs := by
  simp [blocksOf]

theorem length_blocksOf (b : Nat) (accs : List (BitVec 32 × Bool)) : (blocksOf b accs).length = accs.length := by
  simp [blocksOf]

theorem Cache.Shaped.pos (hc : c.Shaped s a b) : 0 < c.assoc.toNat := by
  rw [hc.ways_eq]
  exact Nat.two_pow_pos a

/-- What a run preserves, by induction on its accesses. -/
theorem Lru.run (hl : Lru s a b c []) (accs : List (BitVec 32 × Bool)) (hlen : accs.length < 2 ^ 64) :
    Lru s a b (c.run accs) (blocksOf b accs) := by
  induction accs using List.reverseRecOn with
  | nil => exact hl
  | append_singleton accs x ih =>
    rw [List.length_append, List.length_singleton] at hlen
    have ih := ih (by omega)
    obtain ⟨w, hw⟩ := cacheAccess_accessed ih.shaped.pos x.1 x.2
    rw [blocksOf_append, Cache.run, List.foldl_append]
    refine ih.step hw ?_
    rw [length_blocksOf]
    exact hlen

end

/-- Every power-of-two geometry, every sequence of accesses: an access counts as a hit exactly when LRU
hits, and the valid lines of a set hold its most recently used blocks, each once. -/
theorem cache_exact_lru (s a b : Nat) (hb : 2 ≤ b) (hfits : s + a + b ≤ 31) :
    ∃ c, cacheInit (fun _ => true) (BitVec.ofNat 32 (2 ^ (s + a + b))) (BitVec.ofNat 32 (2 ^ a))
        (BitVec.ofNat 32 (2 ^ b)) = .done c ∧
      ∀ accs : List (BitVec 32 × Bool), accs.length < 2 ^ 64 →
        (∀ addr isStore, accs.length + 1 < 2 ^ 64 →
          (LruHit (2 ^ s) (2 ^ a) (blocksOf b accs) (addr.toNat / 2 ^ b) →
            (cacheAccess (c.run accs) addr isStore).hits = (c.run accs).hits + 1 ∧
            (cacheAccess (c.run accs) addr isStore).misses = (c.run accs).misses) ∧
          (¬LruHit (2 ^ s) (2 ^ a) (blocksOf b accs) (addr.toNat / 2 ^ b) →
            (cacheAccess (c.run accs) addr isStore).hits = (c.run accs).hits ∧
            (cacheAccess (c.run accs) addr isStore).misses = (c.run accs).misses + 1)) ∧
        ∀ i < 2 ^ s, ((List.range (2 ^ a)).filterMap ((c.run accs).heldBlock i)).Perm
          ((recentOf (2 ^ s) (blocksOf b accs) i).take (2 ^ a)) := by
  have hpow : ∀ k ≤ 31, (BitVec.ofNat 32 (2 ^ k)).toNat = 2 ^ k := fun k hk => by
    rw [BitVec.toNat_ofNat]
    exact Nat.mod_eq_of_lt (Nat.pow_lt_pow_right (by decide) (by omega))
  obtain ⟨c, hc, hshaped, hfresh⟩ := cacheInit_done (hpow (s + a + b) hfits) (hpow a (by omega)) (hpow b (by omega)) hb
  refine ⟨c, hc, fun accs hlen => ?_⟩
  have hrun := (Lru.fresh hshaped hfresh).run accs hlen
  constructor
  · intro addr isStore _
    obtain ⟨w, hw⟩ := cacheAccess_accessed hrun.shaped.pos addr isStore
    exact hrun.counted hw
  · intro i hi
    obtain ⟨ws, hs⟩ := hrun.sets i hi
    exact hs.perm

/-- Two sets of two ways with blocks of four bytes. -/
theorem small_cache_lru :
    ∃ c, cacheInit (fun _ => true) 16 2 4 = .done c ∧
      (c.run [(0, false), (8, true), (0, false), (16, false)]).hits = 1 ∧
      ((List.range 2).filterMap ((c.run [(0, false), (8, true), (0, false), (16, false)]).heldBlock 0)).Perm [4, 0] := by
  obtain ⟨c, hc, hrun⟩ := cache_exact_lru 1 1 2 (by decide) (by decide)
  refine ⟨c, hc, ?_, (hrun [(0, false), (8, true), (0, false), (16, false)] (by decide)).2 0 (by decide)⟩
  cases hc
  decide

end Quanta
