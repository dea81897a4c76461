/-
Runs of a step relation, as a library. `ThenMaybe R T` is a run of `R` that may end with one `T`
step: the shape of an instruction that does some work and then possibly traps. What every step
preserves, every run preserves.
-/
import Mathlib.Logic.Relation

namespace Quanta.Run

open Relation

variable {α : Type*} {R T : α → α → Prop} {a b c : α}

/-- What a step preserves, a run preserves. -/
theorem preserves {P : α → Prop} (hR : ∀ x y, R x y → P x → P y) (h : ReflTransGen R a b) (ha : P a) :
    P b := by
  induction h with
  | refl => exact ha
  | tail _ hxy ih => exact hR _ _ hxy ih

/-- A run inside a preorder: if every step from a state satisfying `P` is in `S`, so is a run. -/
theorem within {P : α → Prop} {S : α → α → Prop} (hrefl : ∀ x, S x x)
    (htrans : ∀ x y z, S x y → S y z → S x z) (hP : ∀ x y, S x y → P x → P y)
    (hR : ∀ x y, P x → R x y → S x y) (h : ReflTransGen R a b) (ha : P a) : S a b := by
  induction h with
  | refl => exact hrefl _
  | tail _ hxy ih => exact htrans _ _ _ ih (hR _ _ (hP _ _ ih ha) hxy)

/-- A run of `R`, then at most one `T`. -/
def ThenMaybe (R T : α → α → Prop) (a b : α) : Prop := ∃ c, ReflTransGen R a c ∧ (b = c ∨ T c b)

namespace ThenMaybe

theorem of_run (h : ReflTransGen R a b) : ThenMaybe R T a b := ⟨b, h, Or.inl rfl⟩

theorem of_end (h : T a b) : ThenMaybe R T a b := ⟨a, ReflTransGen.refl, Or.inr h⟩

theorem refl (a : α) : ThenMaybe R T a a := of_run ReflTransGen.refl

/-- Prefixing a run. -/
theorem after (h : ReflTransGen R a b) (h' : ThenMaybe R T b c) : ThenMaybe R T a c := by
  obtain ⟨d, hd, hc⟩ := h'
  exact ⟨d, h.trans hd, hc⟩

end ThenMaybe
end Quanta.Run
