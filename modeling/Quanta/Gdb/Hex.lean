/-
The hex fields of the remote serial protocol (`gdbstub.c`): values as digits low byte first, and the
numbers `strtoul` reads. A field that parses prints as the same digits in lower case.
-/
import Mathlib.Algebra.Group.Nat.Defs
import Mathlib.Data.List.Basic
import Quanta.Lib.Bytes

namespace Quanta.Gdb

variable {s : List Byte} {v : BitVec 64}

/-! ## Digits and fields -/

def hexNibble (c : Byte) : Option (BitVec 4) :=
  if 0x30#8 ≤ c ∧ c ≤ 0x39#8 then some ((c - 0x30#8).setWidth 4)
  else if 0x61#8 ≤ c ∧ c ≤ 0x66#8 then some ((c - 0x61#8 + 10).setWidth 4)
  else if 0x41#8 ≤ c ∧ c ≤ 0x46#8 then some ((c - 0x41#8 + 10).setWidth 4)
  else none

def nibbleHex (v : Byte) : Byte := (ascii "0123456789abcdef").getD (v &&& 0xf).toNat 0

/-- The byte of the two digits of `s` at `2 * b`; a read past the string's end is its NUL, no digit. -/
def hexByte (s : List Byte) (b : Nat) : Option Byte := do
  let hi ← hexNibble (s.getD (2 * b) 0)
  let lo ← hexNibble (s.getD (2 * b + 1) 0)
  some (hi ++ lo)

def valToHexLe (v : BitVec 64) (nbytes : Nat) : List Byte :=
  (List.range nbytes).flatMap fun b =>
    let byte : Byte := (v >>> (8 * b)).setWidth 8
    [nibbleHex (byte >>> 4), nibbleHex byte]

def hexToValLe (s : List Byte) : Nat → Option (BitVec 64)
  | 0 => some 0
  | b + 1 => do
    let v ← hexToValLe s b
    let byte ← hexByte s b
    some (v ||| byte.setWidth 64 <<< (8 * b))

/-! ## Numbers -/

def isSpace (c : Byte) : Bool := c = 0x20#8 || (0x09#8 ≤ c && c ≤ 0x0d#8)

/-- The sign of a number, and what follows it. -/
def takeSign : List Byte → Bool × List Byte
  | [] => (false, [])
  | c :: s => if c = 0x2d#8 then (true, s) else if c = 0x2b#8 then (false, s) else (false, c :: s)

/-- Without the `0x` before a digit. -/
def skip0x : List Byte → List Byte
  | z :: x :: d :: s =>
    if z = 0x30#8 ∧ (x = 0x78#8 ∨ x = 0x58#8) ∧ (hexNibble d).isSome then d :: s else z :: x :: d :: s
  | s => s

/-- `strtoul(s, &p, 16)`, as `strtoull` on a 64-bit host: the value and the text at `p`, which is `s`
if there is no number. -/
def strtoul (s : List Byte) : BitVec 64 × List Byte :=
  let (neg, t) := takeSign (s.dropWhile isSpace)
  let t := skip0x t
  let digits := t.takeWhile fun c => (hexNibble c).isSome
  if digits = [] then (0, s)
  else
    let n := digits.foldl (fun n c => 16 * n + ((hexNibble c).getD 0).toNat) 0
    (if 2 ^ 64 ≤ n then BitVec.allOnes 64 else if neg then -BitVec.ofNat 64 n else BitVec.ofNat 64 n,
      t.dropWhile fun c => (hexNibble c).isSome)

example : strtoul (ascii " -0x1g") = (BitVec.allOnes 64, ascii "g") := by decide

/-! ## Printing what was parsed -/

/-- `tolower`, on the letters. -/
def lower (c : Byte) : Byte := if 0x41#8 ≤ c ∧ c ≤ 0x5a#8 then c + 0x20 else c

theorem nibbleHex_hexNibble : ∀ {c : Byte} {v : BitVec 4}, hexNibble c = some v → nibbleHex (v.setWidth 8) = lower c := by
  have h : ∀ c : Byte, (hexNibble c).all fun v => nibbleHex (v.setWidth 8) = lower c := by decide +kernel
  intro c v hv
  have := h c
  rw [hv] at this
  simpa using this

theorem nibbleHex_low : ∀ hi lo : BitVec 4, nibbleHex (hi ++ lo : BitVec 8) = nibbleHex (lo.setWidth 8) := by
  decide +kernel

theorem nibbleHex_high : ∀ hi lo : BitVec 4, nibbleHex ((hi ++ lo : BitVec 8) >>> 4) = nibbleHex (hi.setWidth 8) := by
  decide +kernel

/-- The two digits a byte was read from, in lower case. -/
theorem hexByte_spec {b : Nat} {v : Byte} (h : hexByte s b = some v) :
    [nibbleHex (v >>> 4), nibbleHex v] = [lower (s.getD (2 * b) 0), lower (s.getD (2 * b + 1) 0)] := by
  obtain ⟨hi, hhi, h⟩ := Option.bind_eq_some_iff.1 h
  obtain ⟨lo, hlo, h⟩ := Option.bind_eq_some_iff.1 h
  obtain rfl : (hi ++ lo : BitVec 8) = v := Option.some.inj h
  rw [nibbleHex_high, nibbleHex_low, nibbleHex_hexNibble hhi, nibbleHex_hexNibble hlo]

/-- A parse of one more byte: the bytes so far, then this one, and nothing above. -/
theorem hexToValLe_succ {b : Nat} (h : hexToValLe s (b + 1) = some v) :
    ∃ w byte, hexToValLe s b = some w ∧ hexByte s b = some byte ∧ v = w ||| byte.setWidth 64 <<< (8 * b) := by
  obtain ⟨w, hw, h⟩ := Option.bind_eq_some_iff.1 h
  obtain ⟨byte, hbyte, h⟩ := Option.bind_eq_some_iff.1 h
  exact ⟨w, byte, hw, hbyte, (Option.some.inj h).symm⟩

theorem hexToValLe_high {n : Nat} (h : hexToValLe s n = some v) {i : Nat}
    (hi : 8 * n ≤ i) : v.getLsbD i = false := by
  induction n generalizing v with
  | zero =>
    obtain rfl : 0 = v := Option.some.inj h
    exact BitVec.getLsbD_zero
  | succ b ih =>
    obtain ⟨w, byte, hw, _, rfl⟩ := hexToValLe_succ h
    have hbyte : byte.getLsbD (i - 8 * b) = false := BitVec.getLsbD_of_ge _ _ (by omega)
    simp [ih hw (by omega), hbyte]

theorem hexToValLe_byte {n : Nat} (hn : n ≤ 8) (h : hexToValLe s n = some v) {k : Nat}
    (hk : k < n) : hexByte s k = some (Bytes.byteAt v k) := by
  induction n generalizing v with
  | zero => omega
  | succ b ih =>
    obtain ⟨w, byte, hw, hbyte, rfl⟩ := hexToValLe_succ h
    rcases Nat.lt_or_ge k b with hkb | hkb
    · rw [ih (by omega) hw hkb]
      congr 1
      apply BitVec.eq_of_getLsbD_eq
      intro i hi
      simp only [Bytes.getLsbD_byteAt, BitVec.getLsbD_or, BitVec.getLsbD_shiftLeft]
      simp [show 8 * k + i < 8 * b by omega]
    · obtain rfl : k = b := by omega
      rw [hbyte]
      congr 1
      apply BitVec.eq_of_getLsbD_eq
      intro i hi
      simp only [Bytes.getLsbD_byteAt, BitVec.getLsbD_or, BitVec.getLsbD_shiftLeft, hexToValLe_high hw (Nat.le_add_right _ i)]
      simp [hi, show 8 * k + i < 64 by omega, show i < 64 by omega]

/-- A field that parses is all there. -/
theorem length_of_hexToValLe {n : Nat} (h : hexToValLe s n = some v) :
    2 * n ≤ s.length := by
  cases n with
  | zero => omega
  | succ b =>
    obtain ⟨_, byte, _, hbyte, _⟩ := hexToValLe_succ h
    obtain ⟨_, _, hbyte⟩ := Option.bind_eq_some_iff.1 hbyte
    obtain ⟨lo, hlo, _⟩ := Option.bind_eq_some_iff.1 hbyte
    rcases Nat.lt_or_ge (2 * b + 1) s.length with hlt | hge
    · omega
    · rw [List.getD_eq_getElem?_getD, List.getElem?_eq_none hge, Option.getD_none] at hlo
      have hnul : hexNibble 0 = none := by decide
      rw [hnul] at hlo
      exact nomatch hlo

theorem valToHexLe_succ (v : BitVec 64) (n : Nat) :
    valToHexLe v (n + 1) = valToHexLe v n ++ [nibbleHex (Bytes.byteAt v n >>> 4), nibbleHex (Bytes.byteAt v n)] := by
  unfold valToHexLe
  rw [List.range_succ, List.flatMap_append]
  rfl

/-- Only the low bytes are printed. -/
theorem valToHexLe_congr {v w : BitVec 64} {n : Nat} (h : ∀ k < n, Bytes.byteAt v k = Bytes.byteAt w k) :
    valToHexLe v n = valToHexLe w n := by
  induction n with
  | zero => rfl
  | succ n ih => rw [valToHexLe_succ, valToHexLe_succ, ih fun k hk => h k (by omega), h n (by omega)]

/-- A field that parses prints as its digits in lower case. -/
theorem valToHexLe_hexToValLe {n : Nat} (hn : n ≤ 8) (hlen : 2 * n ≤ s.length)
    (h : hexToValLe s n = some v) : valToHexLe v n = (s.take (2 * n)).map lower := by
  have hprefix : ∀ m ≤ n, valToHexLe v m = (s.take (2 * m)).map lower := by
    intro m hm
    induction m with
    | zero => rfl
    | succ m ih =>
      have h0 : s[2 * m]? = some (s.getD (2 * m) 0) := by
        rw [List.getD_eq_getElem?_getD, List.getElem?_eq_getElem (by omega), Option.getD_some]
      have h1 : s[2 * m + 1]? = some (s.getD (2 * m + 1) 0) := by
        rw [List.getD_eq_getElem?_getD, List.getElem?_eq_getElem (by omega), Option.getD_some]
      rw [valToHexLe_succ, ih (by omega), hexByte_spec (hexToValLe_byte hn h (by omega : m < n)),
        show 2 * (m + 1) = 2 * m + 1 + 1 by omega, List.take_add_one, List.take_add_one, h0, h1]
      simp only [Option.toList_some, List.map_append, List.append_assoc]
      rfl
  exact hprefix n (Nat.le_refl n)

end Quanta.Gdb
