/-
Claims and completions at the PLIC. A context has one `claimed` register, so it serves one source
at a time, and it hides that source from itself only. Claims are then exclusive as long as no
context claims again before it completes and no source in service is enabled for another context.
-/
import Quanta.Device.Platform
import Mathlib.Data.Set.Insert

namespace Quanta

namespace Platform

/-- Source `s` passes the tests of the priority scan for context `ctx`: it contributes to the
context's pending bit. -/
def Presents (p : Platform) (ctx s : Nat) : Prop :=
  (plicLines p).getLsbD s = true ∧ (p.plic.enable ctx).getLsbD s = true ∧
    BitVec.ofNat 32 s ≠ p.plic.claimed ctx ∧ p.plic.threshold ctx < p.plic.priority s

end Platform

/-! ## The scan -/

section
variable (p : Platform) (ctx : Nat)

theorem plicScan_of_presents {s : Nat} (h : p.Presents ctx s) (acc : BitVec 32 × BitVec 32) :
    plicScan p ctx acc s = if acc.2.ult (p.plic.priority s) then (BitVec.ofNat 32 s, p.plic.priority s) else acc := by
  obtain ⟨hline, hen, hclaim, hprio⟩ := h
  have hle : (p.plic.priority s).ule (p.plic.threshold ctx) = false := by
    rw [BitVec.ule_eq_decide, decide_eq_false_iff_not, Nat.not_le]
    exact hprio
  unfold plicScan
  rw [hline, hen, if_neg nofun, if_neg nofun, if_neg hclaim, hle, if_neg nofun]

theorem plicScan_of_not_presents {s : Nat} (h : ¬p.Presents ctx s) (acc : BitVec 32 × BitVec 32) :
    plicScan p ctx acc s = acc := by
  unfold plicScan
  split
  · rfl
  split
  · rfl
  split
  · rfl
  split
  · rfl
  · next h1 h2 h3 h4 =>
    refine absurd ⟨by simpa using h1, by simpa using h2, h3, ?_⟩ h
    rw [BitVec.ule_eq_decide, decide_eq_true_iff, Nat.not_le] at h4
    exact h4

/-- What the scan of some sources leaves: 0, or a source that presents itself and whose priority is
the best of them. -/
def ScanOk (xs : List Nat) (acc : BitVec 32 × BitVec 32) : Prop :=
  (acc = (0, 0) ∨ ∃ s ∈ xs, p.Presents ctx s ∧ acc = (BitVec.ofNat 32 s, p.plic.priority s)) ∧
    ∀ s ∈ xs, p.Presents ctx s → p.plic.priority s ≤ acc.2

theorem scanOk_step {xs : List Nat} {acc : BitVec 32 × BitVec 32} (h : ScanOk p ctx xs acc) (s : Nat) :
    ScanOk p ctx (xs ++ [s]) (plicScan p ctx acc s) := by
  obtain ⟨hacc, hmax⟩ := h
  have hkeep : acc = (0, 0) ∨ ∃ x ∈ xs ++ [s], p.Presents ctx x ∧ acc = (BitVec.ofNat 32 x, p.plic.priority x) := by
    rcases hacc with h0 | ⟨x, hx, hp⟩
    · exact Or.inl h0
    · exact Or.inr ⟨x, List.mem_append_left _ hx, hp⟩
  by_cases hs : p.Presents ctx s
  · rw [plicScan_of_presents p ctx hs]
    split
    · next hlt =>
      refine ⟨Or.inr ⟨s, by simp, hs, rfl⟩, fun x hx hpx => ?_⟩
      rcases List.mem_append.mp hx with hx | hx
      · have hle : (p.plic.priority x).toNat ≤ acc.2.toNat := hmax x hx hpx
        rw [BitVec.ult_eq_decide, decide_eq_true_iff] at hlt
        exact Nat.le_of_lt (Nat.lt_of_le_of_lt hle hlt)
      · rw [List.mem_singleton.mp hx]
        exact BitVec.le_refl _
    · next hlt =>
      refine ⟨hkeep, fun x hx hpx => ?_⟩
      rcases List.mem_append.mp hx with hx | hx
      · exact hmax x hx hpx
      · rw [List.mem_singleton.mp hx]
        rw [BitVec.ult_eq_decide, decide_eq_true_iff, Nat.not_lt] at hlt
        exact hlt
  · rw [plicScan_of_not_presents p ctx hs]
    refine ⟨hkeep, fun x hx hpx => ?_⟩
    rcases List.mem_append.mp hx with hx | hx
    · exact hmax x hx hpx
    · rw [List.mem_singleton.mp hx] at hpx
      exact absurd hpx hs

theorem scanOk_foldl (xs : List Nat) : ∀ (done : List Nat) (acc : BitVec 32 × BitVec 32), ScanOk p ctx done acc →
    ScanOk p ctx (done ++ xs) (xs.foldl (plicScan p ctx) acc) := by
  induction xs with
  | nil =>
    intro done acc h
    rwa [List.append_nil]
  | cons s xs ih =>
    intro done acc h
    rw [List.append_cons]
    exact ih _ _ (scanOk_step p ctx h s)

theorem scanOk_best :
    ScanOk p ctx (List.range' 1 (PLIC_NSOURCES - 1)) ((List.range' 1 (PLIC_NSOURCES - 1)).foldl (plicScan p ctx) (0, 0)) := by
  have h := scanOk_foldl p ctx (List.range' 1 (PLIC_NSOURCES - 1)) [] (0, 0) ⟨Or.inl rfl, nofun⟩
  rwa [List.nil_append] at h

end

/-- The source a claim returns presents itself. -/
theorem presents_plicBest {p : Platform} {ctx : Nat} (h : plicBest p ctx ≠ 0) : p.Presents ctx (plicBest p ctx).toNat := by
  unfold plicBest at h ⊢
  rcases (scanOk_best p ctx).1 with h0 | ⟨s, hs, hp, hacc⟩
  · rw [h0] at h
    exact absurd rfl h
  · rw [hacc]
    have hlt : s < 32 := by
      rw [List.mem_range'_1] at hs
      exact hs.2
    rwa [BitVec.toNat_ofNat, Nat.mod_eq_of_lt (by omega)]

/-- A source for the context to serve: it presents itself, and none that does has a higher priority. -/
def Platform.Foremost (p : Platform) (ctx s : Nat) : Prop :=
  p.Presents ctx s ∧ ∀ t, 0 < t → t < PLIC_NSOURCES → p.Presents ctx t → p.plic.priority t ≤ p.plic.priority s

theorem foremost_plicBest {p : Platform} {ctx : Nat} (h : plicBest p ctx ≠ 0) : p.Foremost ctx (plicBest p ctx).toNat := by
  refine ⟨presents_plicBest h, fun t h0 ht hp => ?_⟩
  obtain ⟨hacc, hmax⟩ := scanOk_best p ctx
  have hle := hmax t (List.mem_range'_1.mpr ⟨h0, ht⟩) hp
  unfold plicBest at h ⊢
  rcases hacc with hz | ⟨s, hs, _, hbest⟩
  · rw [hz] at h
    exact absurd rfl h
  · have hlt : s < 32 := (List.mem_range'_1.mp hs).2
    rw [hbest] at hle ⊢
    rwa [BitVec.toNat_ofNat, Nat.mod_eq_of_lt (by omega)]

/-- A source that presents itself makes the context's best nonzero. -/
theorem plicBest_ne_zero_iff {p : Platform} {ctx : Nat} :
    plicBest p ctx ≠ 0 ↔ ∃ s, 0 < s ∧ s < PLIC_NSOURCES ∧ p.Presents ctx s := by
  obtain ⟨hacc, hmax⟩ := scanOk_best p ctx
  constructor
  · intro h
    unfold plicBest at h
    rcases hacc with h0 | ⟨s, hs, hp, _⟩
    · rw [h0] at h
      exact absurd rfl h
    · rw [List.mem_range'_1] at hs
      exact ⟨s, hs.1, hs.2, hp⟩
  · rintro ⟨s, h0, hs, hp⟩
    have hle : (p.plic.priority s).toNat ≤ _ := hmax s (List.mem_range'_1.mpr ⟨h0, hs⟩) hp
    have hpos : (p.plic.threshold ctx).toNat < (p.plic.priority s).toNat := hp.2.2.2
    unfold plicBest
    rcases hacc with hz | ⟨x, hx, _, hbest⟩
    · rw [hz] at hle
      exact absurd (Nat.lt_of_lt_of_le hpos hle) (Nat.not_lt_zero _)
    · rw [hbest]
      rw [List.mem_range'_1] at hx
      intro hzero
      have hx0 : x % 2 ^ 32 = 0 := congrArg BitVec.toNat hzero
      have hx32 : x < 32 := hx.2
      omega

/-- The external-interrupt bits of a hart: some source presents itself to its M or S context. -/
theorem external_pending_iff {p : Platform} {hart : BitVec 32} :
    (platMipBits p hart &&& MIP_MEIP ≠ 0 ↔ ∃ s, 0 < s ∧ s < PLIC_NSOURCES ∧ p.Presents (2 * hart.toNat) s) ∧
    (platMipBits p hart &&& MIP_SEIP ≠ 0 ↔ ∃ s, 0 < s ∧ s < PLIC_NSOURCES ∧ p.Presents (2 * hart.toNat + 1) s) := by
  have hquiet : ∀ ctx, plicLines p = 0 → plicBest p ctx = 0 := by
    intro ctx hz
    by_contra hne
    have hline := (presents_plicBest hne).1
    rw [hz] at hline
    simp at hline
  rw [← plicBest_ne_zero_iff, ← plicBest_ne_zero_iff]
  unfold platMipBits
  dsimp only
  generalize hc : (if hart.toNat < QUANTA_MAX_HARTS then _ else _ : BitVec 32) = clint
  have hclint : clint &&& MIP_MEIP = 0 ∧ clint &&& MIP_SEIP = 0 := by
    rw [← hc]
    split
    · split <;> split <;> decide
    · decide
  have hand : ∀ y mask : BitVec 32, clint &&& mask = 0 → (clint ||| y) &&& mask = y &&& mask := by
    intro y mask h
    rw [BitVec.and_or_distrib_right, h]
    exact BitVec.zero_or
  rw [hand _ _ hclint.1, hand _ _ hclint.2]
  by_cases hlines : plicLines p = 0
  · rw [if_neg (not_not_intro hlines), hquiet _ hlines, hquiet _ hlines]
    decide
  · rw [if_pos hlines]
    by_cases hm : plicBest p (2 * hart.toNat) = 0 <;> by_cases hs : plicBest p (2 * hart.toNat + 1) = 0 <;>
      simp only [hm, hs, ne_eq, not_true_eq_false, not_false_eq_true, if_true, if_false] <;> decide

/-! ## Claims -/

/-- The context whose claim/complete register is at `off`. -/
def claimRegister (off : BitVec 32) : Option Nat :=
  if 0x200000 ≤ off.toNat ∧ off.toNat < 0x200000 + PLIC_NCONTEXTS * 0x1000 ∧ (off.toNat - 0x200000) % 0x1000 = 4 then
    some ((off.toNat - 0x200000) / 0x1000)
  else none

/-- What happens at the PLIC: the devices change in any way, and any register is read or written. -/
inductive PlicEvent
  | device (d : Platform)
  | read (off : BitVec 32)
  | write (off val : BitVec 32)

/-- The platform with the claims that have been granted and not completed. -/
structure PlicRun where
  plat : Platform
  held : Set (Nat × BitVec 32)

namespace PlicRun

def step (r : PlicRun) : PlicEvent → PlicRun
  | .device d => ⟨{ d with plic := r.plat.plic }, r.held⟩
  | .read off =>
    let x := plicRead r.plat off
    match claimRegister off with
    | some ctx => ⟨x.2, if x.1 = 0 then r.held else insert (ctx, x.1) r.held⟩
    | none => ⟨x.2, r.held⟩
  | .write off val =>
    match claimRegister off with
    | some ctx => ⟨plicWrite r.plat off val, r.held \ {(ctx, val)}⟩
    | none => ⟨plicWrite r.plat off val, r.held⟩

def run (r : PlicRun) (es : List PlicEvent) : PlicRun := es.foldl step r

/-- A held source is returned by no claim and contributes to no pending bit, and its completion by
the context that holds it ends the claim. -/
structure Exclusive (r : PlicRun) : Prop where
  claim : ∀ c s, (c, s) ∈ r.held → ∀ off ctx, claimRegister off = some ctx → (plicRead r.plat off).1 ≠ s
  pending : ∀ c s, (c, s) ∈ r.held → ∀ ctx, ¬r.plat.Presents ctx s.toNat
  complete : ∀ c s, (c, s) ∈ r.held → ∀ off, claimRegister off = some c →
    r.plat.plic.claimed c = s ∧ (plicWrite r.plat off s).plic.claimed c = 0

/-- No source in service in one context is enabled for another above its threshold. -/
def Unshared (p : Platform) : Prop :=
  ∀ c ctx, ctx ≠ c → p.plic.claimed c ≠ 0 →
    ¬((p.plic.enable ctx).getLsbD (p.plic.claimed c).toNat = true ∧
      p.plic.threshold ctx < p.plic.priority (p.plic.claimed c).toNat)

/-- A context does not claim before it has completed. -/
def InTurn (p : Platform) : PlicEvent → Prop
  | .read off => ∀ ctx, claimRegister off = some ctx → p.plic.claimed ctx = 0
  | _ => True

/-- Every state of the run is unshared and every claim in turn. -/
def Disciplined (r : PlicRun) : List PlicEvent → Prop
  | [] => Unshared r.plat
  | e :: es => Unshared r.plat ∧ InTurn r.plat e ∧ (r.step e).Disciplined es

end PlicRun

/-! ## The claim/complete register -/

section
variable {p : Platform} {off : BitVec 32} {ctx : Nat}

theorem claimRegister_some (h : claimRegister off = some ctx) :
    0x200000 ≤ off.toNat ∧ off.toNat < 0x200000 + PLIC_NCONTEXTS * 0x1000 ∧ (off.toNat - 0x200000) % 0x1000 = 4 ∧
      (off.toNat - 0x200000) / 0x1000 = ctx := by
  unfold claimRegister at h
  split at h
  · next hr => exact ⟨hr.1, hr.2.1, hr.2.2, Option.some.inj h⟩
  · cases h

theorem plicRead_claim (h : claimRegister off = some ctx) : plicRead p off = plicClaim p ctx := by
  obtain ⟨hlo, hhi, hreg, hctx⟩ := claimRegister_some h
  unfold plicRead
  dsimp only
  rw [if_neg (by omega), if_neg (by omega), if_neg (by unfold PLIC_NCONTEXTS QUANTA_MAX_HARTS; omega), if_pos ⟨hlo, hhi⟩,
    if_neg (by omega), if_pos hreg, hctx]

/-- The external-interrupt line of a hart and the claims of its M and S contexts agree: the line is up
exactly if a source presents itself, exactly then the claim register reads a source, and that is a
foremost one. -/
theorem external_line_claims {hart : BitVec 32} {toS : Bool} (h : claimRegister off = some (2 * hart.toNat + toS.toNat)) :
    (platMipBits p hart &&& (if toS then MIP_SEIP else MIP_MEIP) ≠ 0 ↔
      ∃ s, 0 < s ∧ s < PLIC_NSOURCES ∧ p.Presents (2 * hart.toNat + toS.toNat) s) ∧
    ((plicRead p off).1 ≠ 0 ↔ ∃ s, 0 < s ∧ s < PLIC_NSOURCES ∧ p.Presents (2 * hart.toNat + toS.toNat) s) ∧
    ((plicRead p off).1 ≠ 0 → p.Foremost (2 * hart.toNat + toS.toNat) (plicRead p off).1.toNat) := by
  have hclaim : (plicRead p off).1 = plicBest p (2 * hart.toNat + toS.toNat) := by rw [plicRead_claim h]; rfl
  rw [hclaim]
  refine ⟨?_, plicBest_ne_zero_iff, foremost_plicBest⟩
  cases toS
  · exact external_pending_iff.1
  · exact external_pending_iff.2

theorem plicWrite_complete (h : claimRegister off = some ctx) (val : BitVec 32) :
    plicWrite p off val =
      if val = p.plic.claimed ctx then
        { p with plic := { p.plic with claimed := Function.update p.plic.claimed ctx 0 } }
      else p := by
  obtain ⟨hlo, hhi, hreg, hctx⟩ := claimRegister_some h
  unfold plicWrite
  dsimp only
  rw [if_neg (by omega), if_neg (by unfold PLIC_NCONTEXTS QUANTA_MAX_HARTS; omega), if_pos ⟨hlo, hhi⟩, if_neg (by omega), hctx]
  by_cases hval : val = p.plic.claimed ctx
  · rw [if_pos ⟨hreg, hval⟩, if_pos hval]
  · rw [if_neg (fun h => hval h.2), if_neg hval]

theorem plicRead_other (h : claimRegister off = none) : (plicRead p off).2 = p := by
  unfold claimRegister at h
  unfold plicRead
  dsimp only
  split
  · rfl
  split
  · rfl
  split
  · rfl
  split
  · next hr =>
    split
    · rfl
    split
    · next hreg =>
      rw [if_pos ⟨hr.1, hr.2, hreg⟩] at h
      cases h
    · rfl
  · rfl

theorem plicWrite_other (h : claimRegister off = none) (val : BitVec 32) :
    (plicWrite p off val).plic.claimed = p.plic.claimed := by
  unfold claimRegister at h
  unfold plicWrite
  dsimp only
  split
  · split
    · rfl
    · rfl
  split
  · split
    · rfl
    · rfl
  split
  · next hr =>
    split
    · rfl
    split
    · next hreg =>
      rw [if_pos ⟨hr.1, hr.2, hreg.1⟩] at h
      cases h
    · rfl
  · rfl

end

namespace PlicRun

variable {r : PlicRun}

/-- The claims held are those in the `claimed` registers. -/
def Matches (r : PlicRun) : Prop := ∀ c s, (c, s) ∈ r.held ↔ s ≠ 0 ∧ r.plat.plic.claimed c = s

theorem Matches.exclusive (h : r.Matches) (hu : Unshared r.plat) : r.Exclusive := by
  have hpending : ∀ c s, (c, s) ∈ r.held → ∀ ctx, ¬r.plat.Presents ctx s.toNat := by
    rintro c s hmem ctx ⟨_, hen, hclaim, hprio⟩
    obtain ⟨hs, hc⟩ := (h c s).mp hmem
    by_cases hctx : ctx = c
    · rw [hctx, hc, BitVec.ofNat_toNat, BitVec.setWidth_eq] at hclaim
      exact hclaim rfl
    · refine hu c ctx hctx (hc ▸ hs) ?_
      rw [hc]
      exact ⟨hen, hprio⟩
  refine ⟨fun c s hmem off ctx hoff hread => ?_, hpending, fun c s hmem off hoff => ?_⟩
  · rw [plicRead_claim hoff] at hread
    have hbest : plicBest r.plat ctx = s := hread
    have hpres : r.plat.Presents ctx (plicBest r.plat ctx).toNat := presents_plicBest (hbest ▸ ((h c s).mp hmem).1)
    rw [hbest] at hpres
    exact hpending c s hmem ctx hpres
  · obtain ⟨hs, hc⟩ := (h c s).mp hmem
    refine ⟨hc, ?_⟩
    rw [plicWrite_complete hoff, if_pos hc.symm]
    exact Function.update_self ..

theorem Matches.step (h : r.Matches) {e : PlicEvent} (ht : InTurn r.plat e) : (r.step e).Matches := by
  intro c s
  cases e with
  | device d => exact h c s
  | read off =>
    dsimp only [PlicRun.step]
    cases hoff : claimRegister off with
    | none =>
      dsimp only
      rw [plicRead_other hoff]
      exact h c s
    | some ctx =>
      have hfree : r.plat.plic.claimed ctx = 0 := ht ctx hoff
      dsimp only
      rw [plicRead_claim hoff]
      unfold plicClaim
      dsimp only
      by_cases hz : plicBest r.plat ctx = 0
      · rw [if_pos hz, if_neg (not_not_intro hz)]
        exact h c s
      · rw [if_neg hz, if_pos hz, Set.mem_insert_iff, h c s]
        dsimp only
        by_cases hc : c = ctx
        · rw [hc, Function.update_self, hfree]
          constructor
          · rintro (heq | ⟨hs, rfl⟩)
            · cases heq
              exact ⟨hz, rfl⟩
            · exact absurd rfl hs
          · rintro ⟨_, rfl⟩
            exact Or.inl rfl
        · rw [Function.update_of_ne hc]
          constructor
          · rintro (heq | hs)
            · cases heq
              exact absurd rfl hc
            · exact hs
          · exact Or.inr
  | write off val =>
    dsimp only [PlicRun.step]
    cases hoff : claimRegister off with
    | none =>
      dsimp only
      rw [plicWrite_other hoff]
      exact h c s
    | some ctx =>
      dsimp only
      rw [plicWrite_complete hoff, Set.mem_sdiff, Set.mem_singleton_iff, h c s]
      split
      · next hval =>
        dsimp only
        by_cases hc : c = ctx
        · rw [hc, Function.update_self, ← hval]
          constructor
          · rintro ⟨⟨_, rfl⟩, hne⟩
            exact absurd rfl hne
          · rintro ⟨hs, rfl⟩
            exact absurd rfl hs
        · rw [Function.update_of_ne hc]
          constructor
          · exact fun hs => hs.1
          · exact fun hs => ⟨hs, fun heq => hc (congrArg Prod.fst heq)⟩
      · next hval =>
        constructor
        · exact fun hs => hs.1
        · rintro ⟨hs, hclaim⟩
          refine ⟨⟨hs, hclaim⟩, fun heq => hval ?_⟩
          cases heq
          exact hclaim.symm

/-- The platform with no claim outstanding. -/
def start (p : Platform) : PlicRun := ⟨p, ∅⟩

theorem matches_start {p : Platform} (h : ∀ c, p.plic.claimed c = 0) : (start p).Matches := by
  intro c s
  constructor
  · exact False.elim
  · rintro ⟨hs, hc⟩
    exact absurd (hc.symm.trans (h c)) hs

theorem Matches.run (h : r.Matches) {es : List PlicEvent} (hd : r.Disciplined es) : (r.run es).Exclusive := by
  induction es generalizing r with
  | nil => exact h.exclusive hd
  | cons e es ih => exact ih (h.step hd.2.1) hd.2.2

/-- In every run in which no context claims before it has completed, and no source in service is
enabled for another context, claims are exclusive. -/
theorem plic_claims_exclusive {p : Platform} (h : ∀ c, p.plic.claimed c = 0) {es : List PlicEvent}
    (hd : (start p).Disciplined es) : ((start p).run es).Exclusive :=
  (matches_start h).run hd

/-- The UART and the disk assert their lines, and the S context of hart 0 has both enabled. -/
def busyPlatform : Platform :=
  { platInit with
    uart := { platInit.uart with ier := 1, rxHave := true }
    virtio := { platInit.virtio with interruptStatus := 1 }
    plic :=
      { platInit.plic with
        priority := fun s => if s = UART_IRQ then 2 else 1
        enable := fun ctx => if ctx = 1 then 0x402 else 0 } }

/-- The claim/complete register of the S context of hart 0. -/
def claimS : BitVec 32 := 0x201004

theorem external_line_claims_uart : claimRegister claimS = some (2 * (0 : BitVec 32).toNat + true.toNat) ∧
    ((plicRead busyPlatform claimS).1 ≠ 0 → busyPlatform.Foremost 1 (plicRead busyPlatform claimS).1.toNat) :=
  ⟨by decide, (@external_line_claims busyPlatform claimS 0 true (by decide)).2.2⟩

theorem plic_claims_exclusive_one : ((start busyPlatform).run [.read claimS]).Exclusive := by
  refine plic_claims_exclusive (fun _ => rfl) ⟨?_, ?_, ?_⟩
  · exact fun c ctx _ hc => absurd rfl hc
  · exact fun ctx _ => rfl
  · -- Only the S context of hart 0 has anything enabled, and it is the one that serves the UART.
    intro c ctx hne hc ⟨hen, _⟩
    have hclaimed : ((start busyPlatform).step (.read claimS)).plat.plic.claimed c = if c = 1 then 10 else 0 := by
      show Function.update (fun _ => (0 : BitVec 32)) 1 10 c = _
      exact Function.update_apply ..
    have henable : ((start busyPlatform).step (.read claimS)).plat.plic.enable ctx = if ctx = 1 then 0x402 else 0 := rfl
    by_cases h1 : c = 1
    · rw [henable, if_neg (h1 ▸ hne)] at hen
      simp at hen
    · rw [hclaimed, if_neg h1] at hc
      exact hc rfl

/-- A second claim makes the context forget the first: the UART is then claimed again while it is
still being served. -/
theorem nested_claim_forgotten : ¬((start busyPlatform).run [.read claimS, .read claimS]).Exclusive := by
  intro h
  have hctx : claimRegister claimS = some 1 := by decide
  have h1 : (plicRead busyPlatform claimS).1 = 10 := by decide
  have h2 : (plicRead (plicRead busyPlatform claimS).2 claimS).1 = 1 := by decide
  have hmem : (1, 10) ∈ ((start busyPlatform).run [.read claimS, .read claimS]).held := by
    simp [run, step, start, hctx, h1, h2]
  refine h.claim 1 10 hmem claimS 1 hctx ?_
  have hplat : ((start busyPlatform).run [.read claimS, .read claimS]).plat =
      (plicRead (plicRead busyPlatform claimS).2 claimS).2 := by
    simp [run, step, start, hctx]
  rw [hplat]
  decide

end PlicRun
end Quanta
