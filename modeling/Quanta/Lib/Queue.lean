/-
A queue that can lose what it is given. Something offered to it is kept or refused; the oldest that
waits is delivered, and arrives or not; the queue can be cleared. Nothing is forgotten: what was offered
has arrived, waits, or is lost. A ring of cells with a head and a count holds such a queue.
-/
import Mathlib.Data.List.Induction
import Mathlib.Data.List.Perm.Basic
import Mathlib.Data.Nat.ModEq
import Mathlib.Logic.Function.Basic

namespace Quanta.Lib

variable {α : Type*}

/-! ## Moves -/

inductive Move (α : Type*) where
  | offer (x : α) (kept : Bool)
  | deliver (arrives : α → Bool)
  | clear

/-- What waits, oldest first, and what became of the rest. -/
structure Lossy (α : Type*) where
  waiting : List α := []
  arrived : List α := []
  lost : List α := []

namespace Lossy

def move (q : Lossy α) : Move α → Lossy α
  | .offer x true => { q with waiting := q.waiting ++ [x] }
  | .offer x false => { q with lost := q.lost ++ [x] }
  | .deliver arrives =>
    match q.waiting with
    | [] => q
    | x :: rest =>
      if arrives x then { q with waiting := rest, arrived := q.arrived ++ [x] }
      else { q with waiting := rest, lost := q.lost ++ [x] }
  | .clear => { q with waiting := [], lost := q.lost ++ q.waiting }

def moves (q : Lossy α) (ms : List (Move α)) : Lossy α := ms.foldl move q

theorem moves_append (q : Lossy α) (ms ms' : List (Move α)) : q.moves (ms ++ ms') = (q.moves ms).moves ms' :=
  List.foldl_append ..

/-- Everything offered, in order. -/
def offered : List (Move α) → List α
  | [] => []
  | .offer x _ :: ms => x :: offered ms
  | _ :: ms => offered ms

theorem offered_append (ms ms' : List (Move α)) : offered (ms ++ ms') = offered ms ++ offered ms' := by
  induction ms with
  | nil => rfl
  | cons m ms ih =>
    cases m with
    | offer x kept => exact congrArg (x :: ·) ih
    | _ => exact ih

/-- Nothing disappears in a move. -/
theorem move_perm (q : Lossy α) (m : Move α) :
    ((q.move m).arrived ++ (q.move m).waiting ++ (q.move m).lost).Perm
      (q.arrived ++ q.waiting ++ q.lost ++ offered [m]) := by
  obtain ⟨waiting, arrived, lost⟩ := q
  cases m with
  | offer x kept =>
    cases kept with
    | true =>
      show (arrived ++ (waiting ++ [x]) ++ lost).Perm (arrived ++ waiting ++ lost ++ [x])
      rw [← List.append_assoc, List.append_assoc _ [x], List.append_assoc _ lost]
      exact List.Perm.append_left _ List.perm_append_comm
    | false =>
      show (arrived ++ waiting ++ (lost ++ [x])).Perm (arrived ++ waiting ++ lost ++ [x])
      rw [← List.append_assoc]
  | deliver arrives =>
    rw [show offered [Move.deliver arrives] = [] from rfl, List.append_nil]
    cases waiting with
    | nil => exact .refl _
    | cons x rest =>
      unfold move
      dsimp only
      split
      · rw [List.append_assoc arrived]
        exact .refl _
      · rw [← List.append_assoc]
        refine (List.perm_append_singleton ..).trans ?_
        rw [List.append_assoc arrived, List.append_assoc arrived]
        exact List.perm_middle.symm
  | clear =>
    show (arrived ++ [] ++ (lost ++ waiting)).Perm (arrived ++ waiting ++ lost ++ [])
    rw [List.append_nil, List.append_nil, List.append_assoc]
    exact List.Perm.append_left _ List.perm_append_comm

/-- What was offered has arrived, waits, or is lost. -/
theorem moves_perm (ms : List (Move α)) :
    ((({} : Lossy α).moves ms).arrived ++ (({} : Lossy α).moves ms).waiting ++ (({} : Lossy α).moves ms).lost).Perm
      (offered ms) := by
  induction ms using List.reverseRecOn with
  | nil => exact .refl _
  | append_singleton ms m ih =>
    rw [moves_append, offered_append]
    exact (move_perm _ m).trans (ih.append_right _)

/-- Deliveries take the oldest. -/
theorem waiting_deliver_one (q : Lossy α) (arrives : α → Bool) :
    (q.move (.deliver arrives)).waiting = q.waiting.tail := by
  obtain ⟨waiting, arrived, lost⟩ := q
  cases waiting with
  | nil => rfl
  | cons x rest =>
    unfold move
    dsimp only
    split <;> rfl

theorem waiting_deliver (ds : List (α → Bool)) (q : Lossy α) :
    (q.moves (ds.map .deliver)).waiting = q.waiting.drop ds.length := by
  induction ds generalizing q with
  | nil => rfl
  | cons arrives ds ih =>
    show ((q.move (.deliver arrives)).moves (ds.map .deliver)).waiting = q.waiting.drop (ds.length + 1)
    rw [ih, waiting_deliver_one, List.drop_tail]

theorem offered_deliver (ds : List (α → Bool)) : offered (ds.map .deliver) = [] := by
  induction ds with
  | nil => rfl
  | cons arrives ds ih => exact ih

/-! ## Losing nothing of one kind -/

variable {p : α → Bool}

/-- A move loses nothing of the kind `p`. -/
def Keeps (p : α → Bool) (q : Lossy α) : Move α → Prop
  | .offer x kept => p x = true → kept = true
  | .deliver arrives => ∀ x ∈ q.waiting.head?, p x = true → arrives x = true
  | .clear => ∀ x ∈ q.waiting, p x = false

theorem lost_move_iff (q : Lossy α) (m : Move α) :
    (q.move m).lost.filter p = [] ↔ q.lost.filter p = [] ∧ q.Keeps p m := by
  obtain ⟨waiting, arrived, lost⟩ := q
  cases m with
  | offer x kept => cases kept <;> simp [move, Keeps]
  | deliver arrives =>
    cases waiting with
    | nil => simp [move, Keeps]
    | cons x rest => cases hx : arrives x <;> simp [move, Keeps, hx]
  | clear => simp [move, Keeps]

theorem order_move {q : Lossy α} {m : Move α} {xs : List α} (h : q.Keeps p m)
    (hq : (q.arrived ++ q.waiting).filter p = xs.filter p) :
    ((q.move m).arrived ++ (q.move m).waiting).filter p = (xs ++ offered [m]).filter p := by
  obtain ⟨waiting, arrived, lost⟩ := q
  rw [List.filter_append _ (offered [m]), ← hq]
  cases m with
  | offer x kept =>
    cases kept with
    | true => simp [move, offered]
    | false =>
      have hx : p x = false := by simpa [Keeps] using h
      simp [move, offered, hx]
  | deliver arrives =>
    cases waiting with
    | nil => simp [move, offered]
    | cons x rest =>
      cases ha : arrives x with
      | true => simp [move, offered, ha]
      | false =>
        have hx : p x = false := by simpa [Keeps, ha] using h
        simp [move, offered, ha, hx]
  | clear =>
    have hx : ∀ x ∈ waiting, p x = false := h
    have hw : waiting.filter p = [] := List.filter_eq_nil_iff.mpr fun x hm => by simp [hx x hm]
    simp [move, offered, hw]

/-- Everything of the kind has arrived or waits, in the order offered, exactly if no move lost any. -/
theorem lossless_iff (ms : List (Move α)) :
    ((({} : Lossy α).moves ms).arrived ++ (({} : Lossy α).moves ms).waiting).filter p = (offered ms).filter p ↔
      ∀ pre m post, ms = pre ++ m :: post → (({} : Lossy α).moves pre).Keeps p m := by
  have hlost : ∀ ms : List (Move α), (({} : Lossy α).moves ms).lost.filter p = [] ↔
      ∀ pre m post, ms = pre ++ m :: post → (({} : Lossy α).moves pre).Keeps p m := by
    intro ms
    induction ms using List.reverseRecOn with
    | nil => exact ⟨fun _ pre m post h => by simp at h, fun _ => rfl⟩
    | append_singleton ms m ih =>
      rw [moves_append]
      show ((({} : Lossy α).moves ms).move m).lost.filter p = [] ↔ _
      rw [lost_move_iff, ih]
      constructor
      · rintro ⟨hold, hm⟩ pre m' post he
        rcases List.eq_nil_or_concat post with rfl | ⟨post, m'', rfl⟩
        · obtain ⟨rfl, hm'⟩ := List.append_inj' he rfl
          cases hm'
          exact hm
        · rw [List.concat_eq_append, ← List.cons_append, ← List.append_assoc] at he
          exact hold pre m' post (List.append_inj' he rfl).1
      · intro h
        refine ⟨fun pre m' post he => h pre m' (post ++ [m]) ?_, h ms m [] rfl⟩
        rw [he, List.append_assoc]
        rfl
  rw [← hlost]
  constructor
  · intro heq
    have hlen := ((moves_perm ms).filter p).length_eq
    rw [List.filter_append, heq, List.length_append] at hlen
    exact List.length_eq_zero_iff.mp (by omega)
  · intro hnone
    induction ms using List.reverseRecOn with
    | nil => rfl
    | append_singleton ms m ih =>
      rw [moves_append] at hnone ⊢
      rw [offered_append]
      obtain ⟨hold, hm⟩ := (lost_move_iff _ m).mp hnone
      exact order_move hm (ih hold)

end Lossy

/-! ## A ring of cells -/

/-- The contents of a ring of `cap` cells, oldest first. -/
def ring (cells : Nat → α) (cap head count : Nat) : List α := (List.range count).map fun k => cells ((head + k) % cap)

theorem ring_push {cells : Nat → α} {cap head count : Nat} (h : count < cap) (x : α) :
    ring (Function.update cells ((head + count) % cap) x) cap head (count + 1) = ring cells cap head count ++ [x] := by
  unfold ring
  rw [List.range_succ, List.map_append]
  congr 1
  · refine List.map_congr_left fun k hk => Function.update_of_ne ?_ _ _
    -- the cells in use are apart: their distance is below the capacity
    have hk := List.mem_range.mp hk
    intro he
    have hd : cap ∣ (head + count) - (head + k) := (Nat.modEq_iff_dvd' (by omega)).mp he
    have := Nat.le_of_dvd (by omega) hd
    omega
  · exact congrArg (· :: []) (Function.update_self ..)

theorem ring_pop (cells : Nat → α) (cap head count : Nat) :
    ring cells cap head (count + 1) = cells (head % cap) :: ring cells cap ((head + 1) % cap) count := by
  unfold ring
  rw [List.range_succ_eq_map, List.map_cons, List.map_map]
  congr 1
  refine List.map_congr_left fun k _ => congrArg cells ?_
  show (head + (k + 1)) % cap = ((head + 1) % cap + k) % cap
  rw [Nat.mod_add_mod]
  congr 1
  omega

end Quanta.Lib
