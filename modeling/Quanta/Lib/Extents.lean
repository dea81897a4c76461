/-
Byte strings laid out over several ranges of a memory, one after the other. What is scattered over
ranges that do not meet can be gathered again.
-/
import Mathlib.Data.List.Basic
import Quanta.Lib.Bytes

namespace Quanta

/-- A range of memory: its first index and its length. -/
abbrev Extent := Nat × Nat

def Extent.Apart (s t : Extent) : Prop := s.1 + s.2 ≤ t.1 ∨ t.1 + t.2 ≤ s.1

instance (s t : Extent) : Decidable (s.Apart t) := inferInstanceAs (Decidable (_ ∨ _))

/-- How many bytes the ranges take. -/
def extentTotal : List Extent → Nat
  | [] => 0
  | s :: ss => s.2 + extentTotal ss

/-- Write `src` over the ranges, each as far as it goes. -/
def scatterBytes (ram : Nat → Byte) : List Extent → List Byte → Nat → Byte
  | [], _ => ram
  | s :: ss, src => scatterBytes (writeBytes ram s.1 (src.take s.2)) ss (src.drop s.2)

/-- The contents of the ranges. -/
def gatherBytes (ram : Nat → Byte) (ss : List Extent) : List Byte := ss.flatMap fun s => readBytes ram s.1 s.2

variable {ram ram' : Nat → Byte} {ss : List Extent}

theorem length_readBytes (ram : Nat → Byte) (i n : Nat) : (readBytes ram i n).length = n := by
  simp [readBytes]

theorem readBytes_congr {i n : Nat} (h : ∀ j, i ≤ j → j < i + n → ram j = ram' j) :
    readBytes ram i n = readBytes ram' i n :=
  List.map_congr_left fun k hk => h (i + k) (by omega) (by have := List.mem_range.mp hk; omega)

theorem take_readBytes (ram : Nat → Byte) (i n k : Nat) : (readBytes ram i n).take k = readBytes ram i (min k n) := by
  unfold readBytes
  rw [← List.map_take, List.take_range]

theorem length_gatherBytes (ram : Nat → Byte) (ss : List Extent) : (gatherBytes ram ss).length = extentTotal ss := by
  induction ss with
  | nil => rfl
  | cons s ss ih =>
    unfold gatherBytes at ih ⊢
    rw [List.flatMap_cons, List.length_append, length_readBytes, ih, extentTotal]

theorem gatherBytes_congr (h : ∀ s ∈ ss, ∀ j, s.1 ≤ j → j < s.1 + s.2 → ram j = ram' j) :
    gatherBytes ram ss = gatherBytes ram' ss :=
  List.flatMap_congr fun s hs => readBytes_congr (h s hs)

theorem scatterBytes_of_outside {src : List Byte} {j : Nat} (h : ∀ s ∈ ss, j < s.1 ∨ s.1 + s.2 ≤ j) :
    scatterBytes ram ss src j = ram j := by
  induction ss generalizing ram src with
  | nil => rfl
  | cons s ss ih =>
    have hs := h s List.mem_cons_self
    have hlen : (src.take s.2).length ≤ s.2 := List.length_take_le ..
    unfold scatterBytes
    rw [ih fun t ht => h t (List.mem_cons_of_mem _ ht), writeBytes_of_outside (by omega)]

/-- Ranges that do not meet keep what was scattered over them. -/
theorem gatherBytes_scatterBytes {src : List Byte} (hss : ss.Pairwise Extent.Apart) (hlen : src.length ≤ extentTotal ss) :
    (gatherBytes (scatterBytes ram ss src) ss).take src.length = src := by
  induction ss generalizing ram src with
  | nil =>
    obtain rfl := List.length_eq_zero_iff.mp (Nat.le_zero.mp hlen)
    rfl
  | cons s ss ih =>
    obtain ⟨hs, hss⟩ := List.pairwise_cons.mp hss
    have hrest : (src.drop s.2).length ≤ extentTotal ss := by
      rw [extentTotal] at hlen
      rw [List.length_drop]
      omega
    -- the later ranges leave this one alone
    have hkeep : readBytes (scatterBytes (writeBytes ram s.1 (src.take s.2)) ss (src.drop s.2)) s.1 s.2 =
        readBytes (writeBytes ram s.1 (src.take s.2)) s.1 s.2 := by
      refine readBytes_congr fun j hj hj' => scatterBytes_of_outside fun t ht => ?_
      have := hs t ht
      unfold Extent.Apart at this
      omega
    have hhere : (readBytes (writeBytes ram s.1 (src.take s.2)) s.1 s.2).take src.length = src.take s.2 := by
      have hn : min src.length s.2 = (src.take s.2).length := by rw [List.length_take, Nat.min_comm]
      rw [take_readBytes, hn, readBytes_writeBytes]
    have hcut : src.length - s.2 = (src.drop s.2).length := List.length_drop.symm
    unfold scatterBytes
    show (readBytes _ s.1 s.2 ++ gatherBytes _ ss).take src.length = src
    rw [hkeep, List.take_append, hhere, length_readBytes, hcut, ih hss hrest, List.take_append_drop]

end Quanta
