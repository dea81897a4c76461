/-
C's integer arithmetic where the standard defines it, as a library: `none` is undefined behaviour.
An `int` is an integer with its range checked at each operation; a shift checks its distance.
-/

namespace Quanta.CArith

/-- The result of an operation on `int`, defined when it is in range. -/
def int (v : Int) : Option Int := if -2147483648 ≤ v ∧ v < 2147483648 then some v else none

variable {w : Nat}

/-- `x << n` on an unsigned type. -/
def shl (x : BitVec w) (n : Int) : Option (BitVec w) := if 0 ≤ n ∧ n < w then some (x <<< n.toNat) else none

/-- `x >> n` on an unsigned type. -/
def shr (x : BitVec w) (n : Int) : Option (BitVec w) := if 0 ≤ n ∧ n < w then some (x >>> n.toNat) else none

/-- `-x` on a signed type of `w` bits. -/
def neg (x : BitVec w) : Option (BitVec w) := if x = BitVec.intMin w then none else some (-x)

/-- What the comment of a function says it requires. -/
def requires (p : Prop) [Decidable p] : Option Unit := if p then some () else none

theorem andThen {α β : Type} {x : Option α} {a : α} {g : α → Option β} {r : Option β} (hx : x = some a) (hr : g a = r) :
    x.bind g = r := by
  rw [hx]
  exact hr

theorem int_eq {v : Int} (hlo : -2147483648 ≤ v) (hhi : v < 2147483648) : int v = some v := if_pos ⟨hlo, hhi⟩

theorem shl_eq (x : BitVec w) {n : Int} (hlo : 0 ≤ n) (hhi : n < w) : shl x n = some (x <<< n.toNat) := if_pos ⟨hlo, hhi⟩

theorem shr_eq (x : BitVec w) {n : Int} (hlo : 0 ≤ n) (hhi : n < w) : shr x n = some (x >>> n.toNat) := if_pos ⟨hlo, hhi⟩

theorem requires_eq {p : Prop} [Decidable p] (h : p) : requires p = some () := if_pos h

end Quanta.CArith
