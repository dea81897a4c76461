/-
Little-endian words over a byte array, as a library. An array is a function from index to byte;
`readLE` assembles `n` bytes low-first and `writeLE` overlays them. The lemmas say which bytes a
read depends on, which bytes a write changes, and that a read returns what was written there.
Byte strings are read and written the same way.
-/
import Mathlib.Logic.Function.Basic

namespace Quanta

/-- An octet. -/
abbrev Byte := BitVec 8

/-- A C string: the bytes before its NUL. -/
structure CString where
  bytes : List Byte
  noNul : (0 : Byte) ∉ bytes

/-- The bytes of a string literal. -/
def ascii (s : String) : List Byte := s.toList.map fun c => BitVec.ofNat 8 c.toNat

namespace Bytes

variable {w : Nat} (d : Nat → Byte)

/-- The little-endian word of the `n` bytes of `d` at `i`, at width `w`. -/
def readLE (w : Nat) (d : Nat → Byte) (i : Nat) : Nat → BitVec w
  | 0 => 0
  | n + 1 => (d i).setWidth w ||| (readLE w d (i + 1) n <<< 8)

/-- Byte `k` of a word. -/
def byteAt {w : Nat} (v : BitVec w) (k : Nat) : Byte := (v >>> (8 * k)).setWidth 8

/-- The low `n` bytes of a word, low byte first. -/
def bytesLE {w : Nat} (n : Nat) (v : BitVec w) : List Byte := (List.range n).map (byteAt v)

/-- `d` with the low `n` bytes of `v` stored at `i`. -/
def writeLE {w : Nat} (d : Nat → Byte) (i n : Nat) (v : BitVec w) : Nat → Byte :=
  fun j => if i ≤ j ∧ j < i + n then byteAt v (j - i) else d j

theorem writeLE_of_outside {d : Nat → Byte} {i n : Nat} {v : BitVec w} {j : Nat}
    (h : j < i ∨ i + n ≤ j) : writeLE d i n v j = d j := by
  unfold writeLE
  rw [if_neg (by omega)]

theorem writeLE_of_inside {d : Nat → Byte} {i n : Nat} {v : BitVec w} {j : Nat}
    (h : i ≤ j) (h' : j < i + n) : writeLE d i n v j = byteAt v (j - i) := by
  unfold writeLE
  rw [if_pos ⟨h, h'⟩]

/-- A read depends only on the bytes it covers. -/
theorem readLE_congr {d d' : Nat → Byte} {i n : Nat}
    (h : ∀ j, i ≤ j → j < i + n → d j = d' j) : readLE w d i n = readLE w d' i n := by
  induction n generalizing i with
  | zero => rfl
  | succ n ih =>
    unfold readLE
    rw [h i (by omega) (by omega), ih (fun j hj hj' => h j (by omega) (by omega))]

/-- The same bytes elsewhere. -/
theorem readLE_shift {d d' : Nat → Byte} {i j n : Nat} (h : ∀ k < n, d (i + k) = d' (j + k)) :
    readLE w d i n = readLE w d' j n := by
  induction n generalizing i j with
  | zero => rfl
  | succ n ih =>
    unfold readLE
    have h0 : d i = d' j := h 0 (by omega)
    rw [h0, @ih (i + 1) (j + 1) fun k hk => by
      rw [Nat.add_assoc, Nat.add_assoc, Nat.add_comm 1 k]
      exact h (k + 1) (by omega)]

/-- Bit `k` of a read is bit `k % 8` of byte `k / 8`. -/
theorem getLsbD_readLE (i n k : Nat) :
    (readLE w d i n).getLsbD k =
      (decide (k < w) && decide (k < 8 * n) && (d (i + k / 8)).getLsbD (k % 8)) := by
  induction n generalizing i k with
  | zero => simp [readLE]
  | succ n ih =>
    simp only [readLE, BitVec.getLsbD_or, BitVec.getLsbD_setWidth, BitVec.getLsbD_shiftLeft, ih]
    by_cases hk : k < 8
    · have h0 : k / 8 = 0 := by omega
      have h1 : k % 8 = k := by omega
      simp [hk, h0, h1, show k < 8 * (n + 1) by omega]
    · have h0 : i + 1 + (k - 8) / 8 = i + k / 8 := by omega
      have h1 : (k - 8) % 8 = k % 8 := by omega
      have hz : (d i).getLsbD k = false := BitVec.getLsbD_of_ge _ _ (by omega)
      rw [hz, h0, h1]
      have hn : k - 8 < 8 * n ↔ k < 8 * (n + 1) := by omega
      by_cases hw : k < w
      · simp [hk, hw, hn, show k - 8 < w by omega]
      · simp [hw]

theorem getLsbD_byteAt (v : BitVec w) (k b : Nat) :
    (byteAt v k).getLsbD b = (decide (b < 8) && v.getLsbD (8 * k + b)) := by
  simp [byteAt]

/-- A byte of a read is the byte that was read. -/
theorem byteAt_readLE (i : Nat) {n k : Nat} (hk : k < n) (hw : 8 * n ≤ w) :
    byteAt (readLE w d i n) k = d (i + k) := by
  apply BitVec.eq_of_getLsbD_eq
  intro b hb
  rw [getLsbD_byteAt, getLsbD_readLE]
  simp [hb, show 8 * k + b < w by omega, show 8 * k + b < 8 * n by omega, show (8 * k + b) / 8 = k by omega,
    show (8 * k + b) % 8 = b by omega]

/-- Reading back the whole word just written. -/
theorem readLE_writeLE (i n : Nat) (v : BitVec w) (hw : w ≤ 8 * n) :
    readLE w (writeLE d i n v) i n = v := by
  apply BitVec.eq_of_getLsbD_eq
  intro k hk
  rw [getLsbD_readLE, writeLE_of_inside (by omega) (by omega), getLsbD_byteAt]
  simp [hk, show k < 8 * n by omega, show i + k / 8 - i = k / 8 by omega,
    show 8 * (k / 8) + k % 8 = k by omega, Nat.mod_lt]

/-- Reading back a word whose higher bits are clear. -/
theorem readLE_writeLE_low (i n : Nat) (v : BitVec w)
    (hv : ∀ k, 8 * n ≤ k → v.getLsbD k = false) : readLE w (writeLE d i n v) i n = v := by
  apply BitVec.eq_of_getLsbD_eq
  intro k hk
  rw [getLsbD_readLE]
  by_cases hn : k < 8 * n
  · rw [writeLE_of_inside (by omega) (by omega), getLsbD_byteAt]
    simp [hk, hn, show i + k / 8 - i = k / 8 by omega, show 8 * (k / 8) + k % 8 = k by omega, Nat.mod_lt]
  · simp [hn, hv k (by omega)]

end Bytes

/-- `memcpy` of a byte string into RAM at `i`. -/
def writeBytes (ram : Nat → Byte) (i : Nat) (bs : List Byte) : Nat → Byte :=
  fun j => if i ≤ j ∧ j < i + bs.length then bs.getD (j - i) 0 else ram j

/-- The `n` bytes at `i`. -/
def readBytes (ram : Nat → Byte) (i n : Nat) : List Byte := (List.range n).map fun k => ram (i + k)

theorem writeBytes_of_outside {ram : Nat → Byte} {i : Nat} {bs : List Byte} {j : Nat}
    (h : j < i ∨ i + bs.length ≤ j) : writeBytes ram i bs j = ram j := by
  unfold writeBytes
  rw [if_neg (by omega)]

theorem writeBytes_of_inside {ram : Nat → Byte} {i : Nat} {bs : List Byte} {j : Nat}
    (h : i ≤ j) (h' : j < i + bs.length) : writeBytes ram i bs j = bs.getD (j - i) 0 := by
  unfold writeBytes
  rw [if_pos ⟨h, h'⟩]

/-- A byte string written after another is their concatenation written at once. -/
theorem writeBytes_append (ram : Nat → Byte) (i : Nat) (bs bs' : List Byte) :
    writeBytes (writeBytes ram i bs) (i + bs.length) bs' = writeBytes ram i (bs ++ bs') := by
  funext j
  have hlen : (bs ++ bs').length = bs.length + bs'.length := List.length_append
  by_cases h' : i + bs.length ≤ j ∧ j < i + bs.length + bs'.length
  · rw [writeBytes_of_inside h'.1 h'.2, writeBytes_of_inside (by omega) (by omega),
      List.getD_eq_getElem?_getD, List.getD_eq_getElem?_getD, List.getElem?_append_right (by omega), Nat.sub_sub]
  rw [writeBytes_of_outside (by omega)]
  by_cases h : i ≤ j ∧ j < i + bs.length
  · rw [writeBytes_of_inside h.1 h.2, writeBytes_of_inside h.1 (by omega), List.getD_eq_getElem?_getD,
      List.getD_eq_getElem?_getD, List.getElem?_append_left (by omega)]
  · rw [writeBytes_of_outside (by omega), writeBytes_of_outside (by omega)]

theorem readBytes_writeBytes (ram : Nat → Byte) (i : Nat) (bs : List Byte) :
    readBytes (writeBytes ram i bs) i bs.length = bs := by
  unfold readBytes
  refine List.ext_getElem (by simp) fun k hk hk' => ?_
  rw [List.getElem_map, List.getElem_range, writeBytes_of_inside (by omega) (by omega), Nat.add_sub_cancel_left,
    List.getD_eq_getElem?_getD, List.getElem?_eq_getElem hk', Option.getD_some]

end Quanta
