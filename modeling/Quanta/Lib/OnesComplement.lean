/-
Ones' complement sums of 16-bit words, as internet checksums use them. A sum with end-around carry
is the plain sum of the words modulo `2^16 - 1`, zero only if every word is; so a word that holds the
complement of the sum of the others makes the whole sum all ones.
-/
import Mathlib

namespace Quanta.OnesComplement

/-- Addition with end-around carry. -/
def add (a b : Nat) : Nat := (a + b) % 65536 + (a + b) / 65536

/-- The big-endian words of a byte string; a last odd byte is a high byte. -/
def words : List (BitVec 8) → List Nat
  | [] => []
  | [a] => [a.toNat * 256]
  | a :: b :: rest => (a.toNat * 256 + b.toNat) :: words rest

/-- The sum of the words with end-around carry. -/
def sum (l : List (BitVec 8)) : Nat := (words l).foldl add 0

/-- The sum of the words. -/
def total (l : List (BitVec 8)) : Nat := (words l).sum

/-- The residue modulo `2^16 - 1`, with all ones for the multiples other than zero. -/
def residue (n : Nat) : Nat := if n = 0 then 0 else (n - 1) % 65535 + 1

theorem residue_le (n : Nat) : residue n ≤ 65535 := by
  unfold residue
  split <;> omega

/-- A sum that has been carried round keeps its residue. -/
theorem eq_residue {n r : Nat} (hle : r ≤ 65535) (hmod : r % 65535 = n % 65535) (hzero : r = 0 ↔ n = 0) :
    r = residue n := by
  unfold residue
  split <;> omega

theorem residue_mod (n : Nat) : residue n % 65535 = n % 65535 := by
  unfold residue
  split <;> omega

theorem residue_eq_zero (n : Nat) : residue n = 0 ↔ n = 0 := by
  unfold residue
  split <;> omega

theorem add_residue (n : Nat) {w : Nat} (hw : w < 65536) : add (residue n) w = residue (n + w) := by
  have hle := residue_le n
  have hmod := residue_mod n
  have hzero := residue_eq_zero n
  unfold add
  refine eq_residue ?_ ?_ ?_ <;> omega

theorem foldl_add (ws : List Nat) (hws : ∀ w ∈ ws, w < 65536) (n : Nat) :
    ws.foldl add (residue n) = residue (n + ws.sum) := by
  induction ws generalizing n with
  | nil => rfl
  | cons w ws ih =>
    rw [List.foldl_cons, add_residue n (hws w List.mem_cons_self), ih fun x hx => hws x (List.mem_cons_of_mem w hx),
      List.sum_cons, Nat.add_assoc]

theorem words_lt (l : List (BitVec 8)) : ∀ w ∈ words l, w < 65536 := by
  fun_induction words l with
  | case1 => exact nofun
  | case2 a =>
    intro w hw
    have := a.isLt
    rw [List.mem_singleton.mp hw]
    omega
  | case3 a b rest ih =>
    intro w hw
    have := a.isLt
    have := b.isLt
    rcases List.mem_cons.mp hw with rfl | hw
    · omega
    · exact ih w hw

/-- A sum with end-around carry is the residue of the plain sum. -/
theorem sum_eq (l : List (BitVec 8)) : sum l = residue (total l) := by
  have h := foldl_add (words l) (words_lt l) 0
  rw [Nat.zero_add] at h
  exact h

theorem total_cons (a b : BitVec 8) (rest : List (BitVec 8)) :
    total (a :: b :: rest) = a.toNat * 256 + b.toNat + total rest := List.sum_cons

theorem total_append {l l' : List (BitVec 8)} (h : 2 ∣ l.length) : total (l ++ l') = total l + total l' := by
  fun_induction words l with
  | case1 => exact (Nat.zero_add _).symm
  | case2 a =>
    rw [List.length_singleton] at h
    omega
  | case3 a b rest ih =>
    have hrest : 2 ∣ rest.length := by
      rw [List.length_cons, List.length_cons] at h
      omega
    rw [List.cons_append, List.cons_append, total_cons, total_cons, ih hrest]
    omega

theorem total_le (l : List (BitVec 8)) : total l ≤ 65535 * l.length := by
  fun_induction words l with
  | case1 => exact Nat.le_refl 0
  | case2 a =>
    have := a.isLt
    change a.toNat * 256 + 0 ≤ 65535 * 1
    omega
  | case3 a b rest ih =>
    have := a.isLt
    have := b.isLt
    rw [total_cons, List.length_cons, List.length_cons]
    omega

/-- The complement of a sum, added to it, gives all ones. -/
theorem residue_complement (n : Nat) : residue (n + (65535 - residue n)) = 65535 := by
  have hle := residue_le n
  have hmod := residue_mod n
  have hzero := residue_eq_zero n
  refine (eq_residue (Nat.le_refl _) ?_ ?_).symm <;> omega

/-- A checksum field that was zero when the sum was taken. -/
theorem sum_checksum {pre post : List (BitVec 8)} {hi lo : BitVec 8} (hpre : 2 ∣ pre.length)
    (hc : hi.toNat * 256 + lo.toNat = 65535 - residue (total (pre ++ 0#8 :: 0#8 :: post))) :
    sum (pre ++ hi :: lo :: post) = 65535 := by
  rw [sum_eq]
  have hzero : total (pre ++ 0#8 :: 0#8 :: post) = total pre + total post := by
    rw [total_append hpre, total_cons]
    simp
  rw [hzero] at hc
  have hsum : total (pre ++ hi :: lo :: post) = total pre + total post + (65535 - residue (total pre + total post)) := by
    rw [total_append hpre, total_cons, hc]
    omega
  rw [hsum]
  exact residue_complement _

end Quanta.OnesComplement
