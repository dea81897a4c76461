/-
The integrity of the code cache. Whatever machines `jit_run` is called on and however often the cache
is flushed (fewer than 2^64 times), a live entry points to the code that was emitted for it, inside the
used part of the arena and apart from every other live entry's; code is only ever copied behind the
used part, so it is not overwritten before the generation changes.
-/
import Mathlib.Algebra.Group.Nat.Defs
import Quanta.Effects.System
import Quanta.Jit.Growth

namespace Quanta.Jit

open Bytes

variable {fns : Fns} {j j' : JitState} {n s w s' w' off off' : Nat}

/-! ## Integrity -/

/-- Entry `w` of set `s` is of the current generation and points to `off`. -/
structure JitState.Live (j : JitState) (s w off : Nat) : Prop where
  fn_eq : (j.table s w).fn = some off
  gen_eq : (j.table s w).gen = j.gen

/-- The arena holds at `off` the code emitted for the entry's addresses, within the used part. -/
structure JitState.Holds (fns : Fns) (j : JitState) (s w off : Nat) : Prop where
  emitted : ∃ m : Machine, m.cpu.pc = (j.table s w).va ∧ (j.table s w).code = (blockCode fns m (j.table s w).pa).1.buf
  inside : off + (j.table s w).code.length ≤ j.used
  bytes : readBytes j.arena off (j.table s w).code.length = (j.table s w).code

structure JitState.Integrity (fns : Fns) (j : JitState) : Prop where
  used_le : j.used ≤ JIT_ARENA
  holds : ∀ s w off, j.Live s w off → j.Holds fns s w off
  apart : ∀ s w off s' w' off', j.Live s w off → j.Live s' w' off' → (s, w) ≠ (s', w') →
    off + (j.table s w).code.length ≤ off' ∨ off' + (j.table s' w').code.length ≤ off

/-- The states reached by `jit_run` on any machines and by flushes, with the number of flushes. -/
inductive Reached (fns : Fns) : JitState → Nat → Prop
  | new : Reached fns jitNew 0
  | flush {j : JitState} {n : Nat} (h : Reached fns j n) : Reached fns (jitFlush j) (n + 1)
  | run {j : JitState} {n : Nat} (m : Machine) (maxSteps : BitVec 64) (h : Reached fns j n) :
    Reached fns (jitRun fns j m maxSteps).2.1 (if (jitRun fns j m maxSteps).2.1.gen = j.gen then n else n + 1)

/-! ## The generations -/

/-- With the integrity: the generation counts the flushes, and an entry that points anywhere is of a
generation already reached. -/
structure Sound (fns : Fns) (j : JitState) (n : Nat) : Prop extends j.Integrity fns where
  gen_eq : j.gen = BitVec.ofNat 64 (1 + n)
  stamped : ∀ s w off, (j.table s w).fn = some off → ∃ k ≤ n, (j.table s w).gen = BitVec.ofNat 64 (1 + k)

theorem generation_inj {k n : Nat} (hk : k ≤ n) (hn : n < 2 ^ 64) (h : BitVec.ofNat 64 (1 + k) = BitVec.ofNat 64 (1 + n)) :
    k = n := by
  have h := congrArg BitVec.toNat h
  rw [BitVec.toNat_ofNat, BitVec.toNat_ofNat] at h
  omega

theorem gen_flush (h : j.gen = BitVec.ofNat 64 (1 + n)) : (jitFlush j).gen = BitVec.ofNat 64 (1 + (n + 1)) := by
  show j.gen + 1 = _
  rw [h]
  exact (BitVec.ofNat_add (1 + n) 1).symm

theorem sound_new : Sound fns jitNew 0 where
  used_le := Nat.zero_le _
  holds := fun _ _ _ h => nomatch h.fn_eq
  apart := fun _ _ _ _ _ _ h => nomatch h.fn_eq
  gen_eq := rfl
  stamped := fun _ _ _ h => nomatch h

/-- No entry survives a flush. -/
theorem Sound.not_live_flush (h : Sound fns j n) (hn : n + 1 < 2 ^ 64) : ¬(jitFlush j).Live s w off := by
  rintro ⟨hfn, hgen⟩
  obtain ⟨k, hk, hstamp⟩ := h.stamped s w off hfn
  have heq := generation_inj (by omega) hn ((hstamp.symm.trans hgen).trans (gen_flush h.gen_eq))
  omega

theorem Sound.flush (h : Sound fns j n) (hn : n + 1 < 2 ^ 64) : Sound fns (jitFlush j) (n + 1) where
  used_le := Nat.zero_le _
  holds := fun _ _ _ hl => absurd hl (h.not_live_flush hn)
  apart := fun _ _ _ _ _ _ hl => absurd hl (h.not_live_flush hn)
  gen_eq := gen_flush h.gen_eq
  stamped := fun s w off hfn => by
    obtain ⟨k, hk, hstamp⟩ := h.stamped s w off hfn
    exact ⟨k, by omega, hstamp⟩

/-! ## Setting an entry -/

theorem table_setEntry_self (j : JitState) (s w : Nat) (e : JitEntry) : (j.setEntry s w e).table s w = e := by
  simp [JitState.setEntry]

theorem table_setEntry_ne (j : JitState) (e : JitEntry) (h : (s', w') ≠ (s, w)) :
    (j.setEntry s w e).table s' w' = j.table s' w' := by
  unfold JitState.setEntry
  dsimp only
  by_cases hs : s' = s
  · subst hs
    have hw : w' ≠ w := fun hw => h (by rw [hw])
    rw [Function.update_self, Function.update_of_ne hw]
  · rw [Function.update_of_ne hs]

/-- An entry set to NULL points nowhere. -/
theorem Sound.clear (h : Sound fns j n) {e : JitEntry} (he : e.fn = none) : Sound fns (j.setEntry s w e) n := by
  have hne : ∀ s' w' off, ((j.setEntry s w e).table s' w').fn = some off → (s', w') ≠ (s, w) := by
    rintro s' w' off hfn heq
    cases heq
    rw [table_setEntry_self, he] at hfn
    cases hfn
  have hlive : ∀ {s' w' off}, (j.setEntry s w e).Live s' w' off → j.Live s' w' off := fun {s' w' off} hl => by
    have htable := table_setEntry_ne j e (hne s' w' off hl.fn_eq)
    exact ⟨htable ▸ hl.fn_eq, htable ▸ hl.gen_eq⟩
  refine ⟨⟨h.used_le, fun s' w' off hl => ?_, fun s1 w1 off1 s2 w2 off2 hl1 hl2 hne12 => ?_⟩, h.gen_eq,
    fun s' w' off hfn => ?_⟩
  · have htable := table_setEntry_ne j e (hne s' w' off hl.fn_eq)
    obtain ⟨hemit, hin, hbytes⟩ := h.holds s' w' off (hlive hl)
    exact ⟨by rw [htable]; exact hemit, by rw [htable]; exact hin, by rw [htable]; exact hbytes⟩
  · rw [table_setEntry_ne j e (hne s1 w1 off1 hl1.fn_eq), table_setEntry_ne j e (hne s2 w2 off2 hl2.fn_eq)]
    exact h.apart s1 w1 off1 s2 w2 off2 (hlive hl1) (hlive hl2) hne12
  · have htable := table_setEntry_ne j e (hne s' w' off hfn)
    rw [htable] at hfn ⊢
    exact h.stamped s' w' off hfn

/-- Copy code behind the used part and point entry `w` of set `s` to it. -/
def JitState.install (j : JitState) (s w : Nat) (e : JitEntry) : JitState :=
  { j with arena := writeBytes j.arena j.used e.code, used := j.used + e.code.length }.setEntry s w e

theorem Sound.install (h : Sound fns j n) {e : JitEntry} (hgen : e.gen = j.gen) (hfn : e.fn = some j.used)
    (hemit : ∃ m : Machine, m.cpu.pc = e.va ∧ e.code = (blockCode fns m e.pa).1.buf)
    (hroom : j.used + e.code.length ≤ JIT_ARENA) : Sound fns (j.install s w e) n := by
  have hself : (j.install s w e).table s w = e := table_setEntry_self _ s w e
  have hother : ∀ {s' w'}, (s', w') ≠ (s, w) → (j.install s w e).table s' w' = j.table s' w' :=
    fun hne => table_setEntry_ne _ e hne
  have hlive : ∀ {s' w' off}, (s', w') ≠ (s, w) → (j.install s w e).Live s' w' off → j.Live s' w' off :=
    fun hne hl => ⟨hother hne ▸ hl.fn_eq, hother hne ▸ hl.gen_eq⟩
  -- the new code starts where the used part ended
  have hat : ∀ {off}, (j.install s w e).Live s w off → off = j.used := fun {off} hl => by
    have hoff := hl.fn_eq
    rw [hself, hfn] at hoff
    exact (Option.some.inj hoff).symm
  refine ⟨⟨hroom, fun s' w' off hl => ?_, fun s1 w1 off1 s2 w2 off2 hl1 hl2 hne => ?_⟩, h.gen_eq,
    fun s' w' off hfn' => ?_⟩
  · by_cases heq : (s', w') = (s, w)
    · cases heq
      rw [hat hl]
      refine ⟨by rw [hself]; exact hemit, by rw [hself]; exact Nat.le_refl _, ?_⟩
      rw [hself]
      exact readBytes_writeBytes j.arena j.used e.code
    · obtain ⟨hemit', hin, hbytes⟩ := h.holds s' w' off (hlive heq hl)
      refine ⟨by rw [hother heq]; exact hemit', ?_, ?_⟩
      · rw [hother heq]
        exact Nat.le_trans hin (Nat.le_add_right _ _)
      · rw [hother heq]
        refine Eq.trans (List.map_congr_left fun k hk => writeBytes_of_outside (.inl ?_)) hbytes
        have := List.mem_range.mp hk
        omega
  · by_cases h1 : (s1, w1) = (s, w)
    · cases h1
      have h2 := Ne.symm hne
      rw [hother h2, hat hl1]
      exact .inr (h.holds s2 w2 off2 (hlive h2 hl2)).inside
    · by_cases h2 : (s2, w2) = (s, w)
      · cases h2
        rw [hother h1, hat hl2]
        exact .inl (h.holds s1 w1 off1 (hlive h1 hl1)).inside
      · rw [hother h1, hother h2]
        exact h.apart s1 w1 off1 s2 w2 off2 (hlive h1 hl1) (hlive h2 hl2) hne
  · by_cases heq : (s', w') = (s, w)
    · cases heq
      rw [hself, hgen]
      exact ⟨n, Nat.le_refl n, h.gen_eq⟩
    · rw [hother heq] at hfn' ⊢
      exact h.stamped s' w' off hfn'

/-! ## One call -/

/-- What a call does: within a generation nothing below the used part is written. -/
structure Advances (fns : Fns) (j : JitState) (n : Nat) (j' : JitState) : Prop where
  same : j'.gen = j.gen → Sound fns j' n ∧ ∀ i < j.used, j'.arena i = j.arena i
  next : j'.gen ≠ j.gen → n + 1 < 2 ^ 64 → Sound fns j' (n + 1)

theorem Advances.refl (h : Sound fns j n) : Advances fns j n j :=
  ⟨fun _ => ⟨h, fun _ _ => rfl⟩, fun hne => absurd rfl hne⟩

/-- The state `translate` leaves when it installs a block. -/
theorem translate_eq (j : JitState) (m : Machine) (s w : Nat) (pa : BitVec 64) (hn : (blockCode fns m pa).2 ≠ 0) :
    ∃ ninsn, translate fns j m s w pa =
      (let j1 := if JIT_ARENA < j.used + (blockCode fns m pa).1.buf.length then jitFlush j else j
       j1.install s w { j.table s w with
        gen := if JIT_ARENA < j.used + (blockCode fns m pa).1.buf.length then j1.gen else (j.table s w).gen
        fn := some j1.used, ninsn := ninsn, code := (blockCode fns m pa).1.buf }) := by
  refine ⟨BitVec.ofNat 32 (blockCode fns m pa).2, ?_⟩
  have hfits := (blockCode_fits fns m pa).1
  unfold translate
  rcases hcode : blockCode fns m pa with ⟨c, k⟩
  rw [hcode] at hn hfits
  dsimp only at hn hfits ⊢
  rw [if_neg hn, hfits, if_neg (by decide)]
  by_cases hfull : JIT_ARENA < j.used + c.buf.length
  · simp only [if_pos hfull]
    rfl
  · simp only [if_neg hfull]
    rfl

theorem Sound.translate (h : Sound fns j n) (m : Machine) {pa : BitVec 64} (hgen : (j.table s w).gen = j.gen)
    (hpa : (j.table s w).pa = pa) (hva : (j.table s w).va = m.cpu.pc) : Advances fns j n (translate fns j m s w pa) := by
  by_cases hn : (blockCode fns m pa).2 = 0
  · have hsame : Jit.translate fns j m s w pa = j := by
      unfold Jit.translate
      rcases hcode : blockCode fns m pa with ⟨c, k⟩
      rw [hcode] at hn
      exact if_pos hn
    rw [hsame]
    exact .refl h
  · obtain ⟨ninsn, heq⟩ := translate_eq j m s w pa hn
    have hemit : ∃ m' : Machine, m'.cpu.pc = (j.table s w).va ∧
        (blockCode fns m pa).1.buf = (blockCode fns m' (j.table s w).pa).1.buf := ⟨m, hva.symm, by rw [hpa]⟩
    have hmax := (blockCode_fits fns m pa).2.2
    rw [heq]
    by_cases hfull : JIT_ARENA < j.used + (blockCode fns m pa).1.buf.length
    · simp only [if_pos hfull]
      refine ⟨fun hsame => ?_, fun _ hlt => (h.flush hlt).install rfl rfl hemit ?_⟩
      · have : j.gen + 1 = j.gen := hsame
        bv_omega
      · show 0 + (blockCode fns m pa).1.buf.length ≤ JIT_ARENA
        have : JIT_CODE_MAX ≤ JIT_ARENA := by decide
        omega
    · simp only [if_neg hfull]
      refine ⟨fun _ => ⟨h.install hgen rfl hemit (Nat.le_of_not_lt hfull), fun i hi => ?_⟩, fun hne => absurd rfl hne⟩
      exact writeBytes_of_outside (.inl hi)

/-- The eviction cursor is nothing to the entries. -/
theorem Sound.victim (h : Sound fns j n) (v : BitVec 32) : Sound fns { j with victim := v } n where
  used_le := h.used_le
  holds s w off hl := by
    obtain ⟨hemit, hin, hbytes⟩ := h.holds s w off ⟨hl.fn_eq, hl.gen_eq⟩
    exact ⟨hemit, hin, hbytes⟩
  apart s w off s' w' off' hl hl' := h.apart s w off s' w' off' ⟨hl.fn_eq, hl.gen_eq⟩ ⟨hl'.fn_eq, hl'.gen_eq⟩
  gen_eq := h.gen_eq
  stamped := h.stamped

theorem chooseWay_spec (h : Sound fns j n) (s : Nat) :
    Sound fns (chooseWay j s).2 n ∧ (chooseWay j s).2.gen = j.gen ∧ (chooseWay j s).2.used = j.used ∧
      (chooseWay j s).2.arena = j.arena := by
  unfold chooseWay
  split
  · exact ⟨h, rfl, rfl, rfl⟩
  · exact ⟨h.victim _, rfl, rfl, rfl⟩

theorem Sound.lookupBlock (h : Sound fns j n) (m : Machine) (pa : BitVec 64) :
    Advances fns j n (lookupBlock fns j m pa).2 := by
  unfold Jit.lookupBlock
  dsimp only
  split
  · exact .refl h
  · obtain ⟨hsound, hgen, hused, harena⟩ := chooseWay_spec h (setOf pa)
    rcases hway : chooseWay j (setOf pa) with ⟨w, j1⟩
    rw [hway] at hsound hgen hused harena
    dsimp only at hsound hgen hused harena ⊢
    have hself := table_setEntry_self j1 (setOf pa) w ⟨j1.gen, pa, m.cpu.pc, none, 0, []⟩
    have hclear : Sound fns (j1.setEntry (setOf pa) w ⟨j1.gen, pa, m.cpu.pc, none, 0, []⟩) n :=
      hsound.clear rfl
    have hadv := hclear.translate m (congrArg JitEntry.gen hself) (congrArg JitEntry.pa hself)
      (congrArg JitEntry.va hself)
    refine ⟨fun hsame => ?_, fun hne => hadv.next fun heq => hne (heq.trans hgen)⟩
    obtain ⟨hs, hkept⟩ := hadv.same (hsame.trans hgen.symm)
    exact ⟨hs, fun i hi => (hkept i (hused ▸ hi)).trans (congrFun harena i)⟩

theorem Sound.jitRun (h : Sound fns j n) (m : Machine) (maxSteps : BitVec 64) :
    Advances fns j n (jitRun fns j m maxSteps).2.1 := by
  unfold Jit.jitRun
  split
  · exact .refl h
  · split
    · exact .refl h
    · next pa m' _ =>
      have hadv := h.lookupBlock m' pa
      rcases hblock : Jit.lookupBlock fns j m' pa with ⟨w, j1⟩
      rw [hblock] at hadv
      dsimp only at hadv ⊢
      split
      · exact hadv
      · split
        · exact hadv
        · split <;> exact hadv

/-! ## Whole runs -/

/-- By induction on the run, as long as the generation has not come around. -/
theorem Reached.sound (h : Reached fns j n) (hn : n < 2 ^ 64) : Sound fns j n := by
  induction h with
  | new => exact sound_new
  | flush h ih => exact (ih (by omega)).flush hn
  | @run j n m maxSteps h ih =>
    split at hn
    · next hsame =>
      rw [if_pos hsame]
      exact (((ih hn).jitRun m maxSteps).same hsame).1
    · next hnext =>
      rw [if_neg hnext]
      exact ((ih (by omega)).jitRun m maxSteps).next hnext hn

/-- Translating never overflows the buffer or a short jump. In every state reached with fewer than
2^64 flushes the live entries are sound, and a call that stays in the generation leaves the bytes of
every live entry's code alone. -/
theorem code_cache_integrity (fns : Fns) :
    (∀ m pa, (blockCode fns m pa).1.fail = false ∧ (blockCode fns m pa).1.buf.length ≤ JIT_CODE_MAX) ∧
    ∀ j n, Reached fns j n → n < 2 ^ 64 →
      j.Integrity fns ∧
      ∀ m maxSteps, (jitRun fns j m maxSteps).2.1.gen = j.gen → ∀ s w off, j.Live s w off →
        ∀ k < (j.table s w).code.length, (jitRun fns j m maxSteps).2.1.arena (off + k) = j.arena (off + k) := by
  refine ⟨fun m pa => ⟨(blockCode_fits fns m pa).1, (blockCode_fits fns m pa).2.2⟩, fun j n h hn => ?_⟩
  have hsound := h.sound hn
  refine ⟨hsound.toIntegrity, fun m maxSteps hsame s w off hl k hk => ?_⟩
  have hin := (hsound.holds s w off hl).inside
  exact ((hsound.jitRun m maxSteps).same hsame).2 (off + k) (by omega)

/-- A block of one ADDI, and the JIT after translating it. -/
def addiMachine : Machine := .load .rv32 1 0x80000000 0x1000 0x80000000 [0xfff10113]

def addiJit : JitState := (jitRun ⟨0x2000, 0x3000⟩ jitNew addiMachine 10).2.1

/-- The block is live at the start of the arena, and a second call keeps its code. -/
theorem code_cache_integrity_addi :
    addiJit.Integrity ⟨0x2000, 0x3000⟩ ∧ addiJit.Live 0 0 0 ∧ (addiJit.table 0 0).code.length = 70 ∧
    ∀ k < 70, (jitRun ⟨0x2000, 0x3000⟩ addiJit addiMachine 10).2.1.arena k = addiJit.arena k := by
  have hreached : Reached ⟨0x2000, 0x3000⟩ addiJit _ := .run addiMachine 10 .new
  obtain ⟨hint, hkept⟩ := (code_cache_integrity ⟨0x2000, 0x3000⟩).2 addiJit _ hreached (by decide +kernel)
  have hlive : addiJit.Live 0 0 0 := ⟨by decide +kernel, by decide +kernel⟩
  have hlen : (addiJit.table 0 0).code.length = 70 := by decide +kernel
  refine ⟨hint, hlive, hlen, fun k hk => ?_⟩
  have hsame := hkept addiMachine 10 (by decide +kernel) 0 0 0 hlive k (by omega)
  rwa [Nat.zero_add] at hsame

end Quanta.Jit
