/-
Computations that may fail, as a library: how an `Except` result is taken apart at a bind and along
a monadic fold, and when a given error cannot come out of one (`Avoids`).
-/
import Mathlib.Logic.Basic

namespace Quanta.Fallible

universe u

variable {ε : Type*} {α β σ : Type u}

theorem bind_eq_ok {x : Except ε α} {k : α → Except ε β} {b : β} :
    (x >>= k) = .ok b ↔ ∃ a, x = .ok a ∧ k a = .ok b := by
  constructor
  · intro h
    cases x with
    | error e => cases h
    | ok a => exact ⟨a, rfl, h⟩
  · rintro ⟨a, rfl, h⟩
    exact h

theorem bind_eq_error {x : Except ε α} {k : α → Except ε β} {e : ε} :
    (x >>= k) = .error e ↔ x = .error e ∨ ∃ a, x = .ok a ∧ k a = .error e := by
  constructor
  · intro h
    cases x with
    | error e' =>
      cases h
      exact Or.inl rfl
    | ok a => exact Or.inr ⟨a, rfl, h⟩
  · rintro (rfl | ⟨a, rfl, h⟩)
    · rfl
    · exact h

theorem exists_of_isOk {x : Except ε α} (h : x.isOk = true) : ∃ a, x = .ok a := by
  cases x with
  | error e => cases h
  | ok a => exact ⟨a, rfl⟩

/-- The error a computation ends in, if it does. -/
def failure : Except ε α → Option ε
  | .error e => some e
  | .ok _ => none

theorem eq_error_of_failure {x : Except ε α} {e : ε} (h : failure x = some e) : x = .error e := by
  cases x with
  | error e' =>
    cases h
    rfl
  | ok a => cases h

/-! ## Folds -/

/-- A successful fold succeeds at every element, in some state. -/
theorem exists_of_foldlM {step : σ → α → Except ε σ} :
    ∀ {l : List α} {s s' : σ}, l.foldlM step s = .ok s' → ∀ a ∈ l, ∃ s1 s2, step s1 a = .ok s2
  | [], _, _, _, a, ha => by cases ha
  | b :: l, s, s', h, a, ha => by
    rw [List.foldlM_cons, bind_eq_ok] at h
    obtain ⟨s1, h1, h2⟩ := h
    rcases List.mem_cons.mp ha with rfl | ha
    · exact ⟨s, s1, h1⟩
    · exact exists_of_foldlM h2 a ha

/-! ## Errors that cannot come out -/

/-- The computation does not end in error `e`. -/
def Avoids (e : ε) (x : Except ε α) : Prop := x ≠ .error e

namespace Avoids

variable {e : ε} {x : Except ε α}

theorem ok (a : α) : Avoids e (.ok a) := nofun

theorem error {e' : ε} (h : e' ≠ e) : Avoids e (.error e' : Except ε α) := fun h' => h (Except.error.inj h')

theorem bind {k : α → Except ε β} (hx : Avoids e x) (hk : ∀ a, x = .ok a → Avoids e (k a)) :
    Avoids e (x >>= k) := by
  intro h
  rcases bind_eq_error.mp h with h | ⟨a, ha, h⟩
  · exact hx h
  · exact hk a ha h

theorem ite {c : Prop} [Decidable c] {y : Except ε α} (hx : c → Avoids e x) (hy : ¬c → Avoids e y) :
    Avoids e (if c then x else y) := by
  split
  · exact hx ‹_›
  · exact hy ‹_›

/-- A fold avoids an error that every round avoids. -/
theorem foldlM {step : σ → α → Except ε σ} :
    ∀ {l : List α} {s : σ}, (∀ s, ∀ a ∈ l, Avoids e (step s a)) → Avoids e (l.foldlM step s)
  | [], s, _ => ok s
  | a :: l, s, h => by
    rw [List.foldlM_cons]
    exact Avoids.bind (h s a List.mem_cons_self) fun s1 _ => Avoids.foldlM fun s b hb => h s b (List.mem_cons_of_mem _ hb)

end Avoids
end Quanta.Fallible
