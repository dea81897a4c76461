/-
Least-recently-used replacement. A history is a list with its newest element first; `order` is its
distinct elements, most recent first. A store of `cap` slots, each stamped with the time of its last
use, holds the first `cap` elements of that order when it replaces an empty slot first and else the
slot with the oldest stamp.
-/
import Mathlib.Data.Finset.Card
import Mathlib.Data.List.Basic
import Mathlib.Logic.Function.Basic

namespace Recency

variable {α : Type*} [DecidableEq α] {a b x : α} {h l : List α} {n : Nat}

/-! ## Cutting a list at an element, and dropping it -/

/-- What stands before the first `a`: in a history, what came since its last occurrence. -/
def since (a : α) (l : List α) : List α := l.takeWhile (· ≠ a)

def others (a : α) (l : List α) : List α := l.filter (· ≠ a)

@[simp] theorem since_cons_self : since a (a :: l) = [] := by simp [since]

theorem since_cons_ne (hab : b ≠ a) : since a (b :: l) = b :: since a l := by simp [since, hab]

@[simp] theorem others_nil : others a [] = [] := rfl

@[simp] theorem others_cons_self : others a (a :: l) = others a l := by simp [others]

theorem others_cons_ne (hab : b ≠ a) : others a (b :: l) = b :: others a l := by simp [others, hab]

@[simp] theorem mem_others : x ∈ others a l ↔ x ∈ l ∧ x ≠ a := by simp [others]

theorem others_of_notMem (ha : a ∉ l) : others a l = l := by
  refine List.filter_eq_self.mpr fun x hx => decide_eq_true ?_
  rintro rfl
  exact ha hx

/-- A filter that keeps `a` commutes with cutting at `a`. -/
theorem since_filter {p : α → Bool} (hp : p a) (l : List α) : since a (l.filter p) = (since a l).filter p := by
  induction l with
  | nil => rfl
  | cons b l ih =>
    by_cases hab : b = a
    · subst hab
      rw [List.filter_cons_of_pos hp, since_cons_self, since_cons_self, List.filter_nil]
    · rw [since_cons_ne hab]
      by_cases hb : p b
      · rw [List.filter_cons_of_pos hb, List.filter_cons_of_pos hb, since_cons_ne hab, ih]
      · rw [List.filter_cons_of_neg hb, List.filter_cons_of_neg hb, ih]

theorem since_others (hab : a ≠ b) : since a (others b l) = others b (since a l) := by
  exact @since_filter _ _ a (· ≠ b) (decide_eq_true hab) l

/-- `a` is among the first `n` when fewer than `n` elements stand before it. -/
theorem mem_take_iff : a ∈ l.take n ↔ a ∈ l ∧ (since a l).length < n := by
  induction l generalizing n with
  | nil => simp
  | cons b l ih =>
    cases n with
    | zero => simp
    | succ n =>
      by_cases hab : b = a
      · simp [hab]
      · have hba : a ≠ b := Ne.symm hab
        simp [since_cons_ne hab, hba, ih]

/-- Dropping an element that is not among the first `n` leaves these alone. -/
theorem take_others_of_notMem (ha : a ∉ l.take n) : (others a l).take n = l.take n := by
  induction l generalizing n with
  | nil => rfl
  | cons b l ih =>
    cases n with
    | zero => rfl
    | succ n =>
      rw [List.take_succ_cons, List.mem_cons, not_or] at ha
      rw [others_cons_ne (Ne.symm ha.1), List.take_succ_cons, List.take_succ_cons, ih ha.2]

/-- Dropping one of the first `n + 1` leaves the `n` others of them. -/
theorem take_others_of_mem (hl : l.Nodup) (ha : a ∈ l.take (n + 1)) :
    (others a l).take n = others a (l.take (n + 1)) := by
  induction l generalizing n with
  | nil => simp
  | cons b l ih =>
    obtain ⟨hb, hl⟩ := List.nodup_cons.mp hl
    rw [List.take_succ_cons] at ha ⊢
    by_cases hab : b = a
    · subst hab
      rw [others_cons_self, others_cons_self, others_of_notMem hb,
        others_of_notMem fun h => hb (List.mem_of_mem_take h)]
    · have ha' : a ∈ l.take n := (List.mem_cons.mp ha).resolve_left (Ne.symm hab)
      cases n with
      | zero => simp at ha'
      | succ n => rw [others_cons_ne hab, others_cons_ne hab, List.take_succ_cons, ih hl ha']

/-! ## The recency order -/

/-- The distinct elements of a history, most recent first. -/
def order : List α → List α
  | [] => []
  | a :: h => a :: others a (order h)

theorem mem_order : x ∈ order h ↔ x ∈ h := by
  induction h with
  | nil => rfl
  | cons b h ih =>
    rw [order, List.mem_cons, List.mem_cons, mem_others, ih]
    by_cases hxb : x = b
    · simp [hxb]
    · simp [hxb]

theorem nodup_order (h : List α) : (order h).Nodup := by
  induction h with
  | nil => exact List.nodup_nil
  | cons b h ih => exact List.nodup_cons.mpr ⟨fun hb => (mem_others.mp hb).2 rfl, ih.filter _⟩

/-- The elements ahead of `a` in the order are those that came since. -/
theorem mem_since_order : x ∈ since a (order h) ↔ x ∈ since a h := by
  induction h with
  | nil => rfl
  | cons b h ih =>
    rw [order]
    by_cases hab : b = a
    · subst hab
      rw [since_cons_self, since_cons_self]
    · rw [since_cons_ne hab, since_cons_ne hab, since_others (Ne.symm hab), List.mem_cons, List.mem_cons,
        mem_others, ih]
      by_cases hxb : x = b
      · simp [hxb]
      · simp [hxb]

theorem length_since_order (a : α) (h : List α) : (since a (order h)).length = (since a h).toFinset.card := by
  have hnodup : (since a (order h)).Nodup := (nodup_order h).sublist (List.takeWhile_sublist _)
  rw [← List.toFinset_card_of_nodup hnodup]
  congr 1
  ext x
  rw [List.mem_toFinset, List.mem_toFinset, mem_since_order]

/-- The first `n` in the order are those with fewer than `n` distinct elements since. -/
theorem mem_take_order : a ∈ (order h).take n ↔ a ∈ h ∧ (since a h).toFinset.card < n := by
  rw [mem_take_iff, mem_order, length_since_order]

theorem take_order_of_mem (ha : a ∈ (order h).take (n + 1)) :
    (order (a :: h)).take (n + 1) = a :: others a ((order h).take (n + 1)) := by
  rw [order, List.take_succ_cons, take_others_of_mem (nodup_order h) ha]

theorem take_order_of_notMem (ha : a ∉ (order h).take (n + 1)) :
    (order (a :: h)).take (n + 1) = a :: (order h).take n := by
  have ha' : a ∉ (order h).take n := fun hm => ha (List.take_subset_take_left _ (Nat.le_succ n) hm)
  rw [order, List.take_succ_cons, take_others_of_notMem ha']

/-! ## A store with stamps -/

omit [DecidableEq α]

/-- The slots `ws`, most recent first, hold the elements of `l` in that order: their stamps decrease
and no slot below `cap` but these is in use. -/
structure Holds (cap : Nat) (l : List α) (held : Nat → Option α) (stamp : Nat → Nat) (clock : Nat)
    (ws : List Nat) : Prop where
  held_eq : ws.map held = l.map some
  stamps : ws.Pairwise fun v w => stamp w < stamp v
  le_clock : ∀ w ∈ ws, stamp w ≤ clock
  mem_iff : ∀ w, w ∈ ws ↔ w < cap ∧ held w ≠ none

/-- Between the two stores slot `w` was given to `a` at time `clock'`; the others are as they were. -/
structure Put (cap : Nat) (w : Nat) (a : α) (clock' : Nat) (held held' : Nat → Option α)
    (stamp stamp' : Nat → Nat) : Prop where
  lt : w < cap
  held_self : held' w = some a
  stamp_self : stamp' w = clock'
  held_ne : ∀ v < cap, v ≠ w → held' v = held v
  stamp_ne : ∀ v < cap, v ≠ w → stamp' v = stamp v

namespace Holds

variable {cap clock clock' v w : Nat} {held held' : Nat → Option α} {stamp stamp' : Nat → Nat} {ws : List Nat}

theorem nodup (hs : Holds cap l held stamp clock ws) : ws.Nodup :=
  hs.stamps.imp fun hlt heq => by simp [heq] at hlt

theorem length_eq (hs : Holds cap l held stamp clock ws) : ws.length = l.length := by
  have hlen := congrArg List.length hs.held_eq
  rwa [List.length_map, List.length_map] at hlen

theorem mem_held (hs : Holds cap l held stamp clock ws) : a ∈ l ↔ ∃ w < cap, held w = some a := by
  have hmem : some a ∈ ws.map held ↔ some a ∈ l.map some := by rw [hs.held_eq]
  rw [List.mem_map_of_injective (Option.some_injective α), List.mem_map] at hmem
  rw [← hmem]
  constructor
  · rintro ⟨w, hw, ha⟩
    exact ⟨w, ((hs.mem_iff w).mp hw).1, ha⟩
  · rintro ⟨w, hw, ha⟩
    exact ⟨w, (hs.mem_iff w).mpr ⟨hw, by simp [ha]⟩, ha⟩

/-- Time passes and the slots stay as they are. -/
theorem congr (hs : Holds cap l held stamp clock ws) (hclock : clock ≤ clock')
    (hheld : ∀ v < cap, held' v = held v) (hstamp : ∀ v < cap, stamp' v = stamp v) :
    Holds cap l held' stamp' clock' ws := by
  have hlt : ∀ v ∈ ws, v < cap := fun v hv => ((hs.mem_iff v).mp hv).1
  refine ⟨?_, ?_, fun v hv => ?_, fun v => ?_⟩
  · rw [← hs.held_eq]
    exact List.map_congr_left fun v hv => hheld v (hlt v hv)
  · refine hs.stamps.imp_of_mem fun {u v} hu hv huv => ?_
    rwa [hstamp u (hlt u hu), hstamp v (hlt v hv)]
  · rw [hstamp v (hlt v hv)]
    exact (hs.le_clock v hv).trans hclock
  · rw [hs.mem_iff]
    exact and_congr_right fun hv => by rw [hheld v hv]

/-- Read slot by slot the store holds the elements of `l`, each once. -/
theorem perm (hs : Holds cap l held stamp clock ws) : ((List.range cap).filterMap held).Perm l := by
  have hfilter : (List.range cap).filterMap held =
      ((List.range cap).filter fun w => (held w).isSome).filterMap held := by
    rw [List.filterMap_filter]
    refine List.filterMap_congr fun w _ => ?_
    cases held w <;> rfl
  have hperm : ((List.range cap).filter fun w => (held w).isSome).Perm ws := by
    refine (List.perm_ext_iff_of_nodup (List.nodup_range.filter _) hs.nodup).mpr fun w => ?_
    rw [List.mem_filter, List.mem_range, hs.mem_iff, Option.isSome_iff_ne_none]
  have hmap : ws.filterMap held = l := by
    have hcat := congrArg (List.filterMap id) hs.held_eq
    simpa [List.filterMap_map, Function.comp_def] using hcat
  rw [hfilter, ← hmap]
  exact hperm.filterMap held

/-- The slots but `w` keep what they hold, and `w` comes first. -/
theorem put (hs : Holds cap l held stamp clock ws) {l' : List α} (hkept : (others w ws).map held = l'.map some)
    (hclock : clock < clock') (hp : Put cap w a clock' held held' stamp stamp') :
    Holds cap (a :: l') held' stamp' clock' (w :: others w ws) := by
  have hkeep : ∀ v ∈ others w ws, v < cap ∧ v ≠ w ∧ stamp' v = stamp v ∧ held' v = held v := by
    intro v hv
    obtain ⟨hv, hne⟩ := mem_others.mp hv
    have hlt := ((hs.mem_iff v).mp hv).1
    exact ⟨hlt, hne, hp.stamp_ne v hlt hne, hp.held_ne v hlt hne⟩
  have hbound : ∀ v ∈ others w ws, stamp v ≤ clock := fun v hv => hs.le_clock v (mem_others.mp hv).1
  refine ⟨?_, ?_, fun v hv => ?_, fun v => ?_⟩
  · rw [List.map_cons, List.map_cons, hp.held_self, ← hkept]
    exact congrArg _ (List.map_congr_left fun v hv => (hkeep v hv).2.2.2)
  · refine List.pairwise_cons.mpr ⟨fun v hv => ?_, ?_⟩
    · rw [(hkeep v hv).2.2.1, hp.stamp_self]
      exact Nat.lt_of_le_of_lt (hbound v hv) hclock
    · refine (hs.stamps.filter _).imp_of_mem fun {u v} hu hv huv => ?_
      rwa [(hkeep u hu).2.2.1, (hkeep v hv).2.2.1]
  · obtain rfl | hv := List.mem_cons.mp hv
    · exact hp.stamp_self.le
    · rw [(hkeep v hv).2.2.1]
      exact (hbound v hv).trans hclock.le
  · rw [List.mem_cons, mem_others, hs.mem_iff]
    by_cases hvw : v = w
    · subst hvw
      simp [hp.lt, hp.held_self]
    · by_cases hv : v < cap
      · simp [hvw, hp.held_ne v hv hvw, hv]
      · simp [hvw, hv]

/-- A slot with the oldest stamp is the last. -/
theorem others_oldest (hs : Holds cap l held stamp clock ws) (hw : w ∈ ws) (hold : ∀ v ∈ ws, stamp w ≤ stamp v) :
    others w ws = ws.dropLast := by
  have hne : ws ≠ [] := List.ne_nil_of_mem hw
  obtain ⟨init, last, hsplit⟩ : ∃ init last, ws = init ++ [last] :=
    ⟨ws.dropLast, ws.getLast hne, (List.dropLast_append_getLast hne).symm⟩
  subst hsplit
  obtain ⟨_, _, hlater⟩ := List.pairwise_append.mp hs.stamps
  have hnodup := hs.nodup
  have hlast : w = last := by
    obtain hw | hw := List.mem_append.mp hw
    · have hlt := hlater w hw last (List.mem_singleton_self _)
      have hle := hold last (by simp)
      omega
    · exact List.mem_singleton.mp hw
  subst hlast
  have hinit : w ∉ init := fun hmem =>
    (List.disjoint_of_nodup_append hnodup) hmem (List.mem_singleton_self _)
  have happ : others w (init ++ [w]) = others w init ++ others w [w] := List.filter_append ..
  rw [List.dropLast_concat, happ, others_of_notMem hinit, others_cons_self, others_nil, List.append_nil]

variable [DecidableEq α]

theorem map_others (hs : Holds cap l held stamp clock ws) (hl : l.Nodup) (hw : w ∈ ws) (ha : held w = some a) :
    (others w ws).map held = (others a l).map some := by
  have hnodup : (ws.map held).Nodup := by
    rw [hs.held_eq]
    exact hl.map (Option.some_injective α)
  have hsome : (l.map some).filter (· ≠ some a) = (others a l).map some := by
    rw [List.filter_map]
    congr 1
    exact List.filter_congr fun x _ => by simp
  rw [← hsome, ← hs.held_eq, List.filter_map]
  congr 1
  refine List.filter_congr fun v hv => ?_
  -- no two slots hold the same element
  have hinj : held v = held w ↔ v = w :=
    ⟨fun heq => List.inj_on_of_nodup_map hnodup hv hw heq, fun heq => congrArg held heq⟩
  simp [← ha, hinj]

/-- Least-recently-used replacement keeps the first `cap` of the recency order: a hit refreshes the
slot of the element, a miss fills an empty slot, or replaces the oldest of a full store. -/
theorem replace {h : List α} (hs : Holds cap ((order h).take cap) held stamp clock ws) (hclock : clock < clock')
    (hp : Put cap w a clock' held held' stamp stamp')
    (hcase : held w = some a ∨
      (∀ v < cap, held v ≠ some a) ∧
        (held w = none ∨ (∀ v < cap, held v ≠ none) ∧ ∀ v < cap, stamp w ≤ stamp v)) :
    Holds cap ((order (a :: h)).take cap) held' stamp' clock' (w :: others w ws) := by
  obtain ⟨n, rfl⟩ : ∃ n, cap = n + 1 := ⟨cap - 1, by have := hp.lt; omega⟩
  have hl : ((order h).take (n + 1)).Nodup := (nodup_order h).sublist (List.take_sublist _ _)
  obtain ha | ⟨hmiss, hslot⟩ := hcase
  · have hmem : a ∈ (order h).take (n + 1) := hs.mem_held.mpr ⟨w, hp.lt, ha⟩
    have hw : w ∈ ws := (hs.mem_iff w).mpr ⟨hp.lt, by simp [ha]⟩
    rw [take_order_of_mem hmem]
    exact hs.put (hs.map_others hl hw ha) hclock hp
  · have hnot : a ∉ (order h).take (n + 1) := fun hmem => by
      obtain ⟨v, hv, hav⟩ := hs.mem_held.mp hmem
      exact hmiss v hv hav
    rw [take_order_of_notMem hnot]
    refine hs.put ?_ hclock hp
    obtain hempty | ⟨hfull, hold⟩ := hslot
    · -- an empty slot: fewer than `n + 1` elements were held, so nothing is dropped
      have hw : w ∉ ws := fun hw => ((hs.mem_iff w).mp hw).2 hempty
      have hlt : ws.length < n + 1 := by
        have hsub : ws ⊆ others w (List.range (n + 1)) := fun v hv => by
          have hv' := (hs.mem_iff v).mp hv
          exact mem_others.mpr ⟨List.mem_range.mpr hv'.1, fun heq => hw (heq ▸ hv)⟩
        have hle := (hs.nodup.subperm hsub).length_le
        have hrange : (others w (List.range (n + 1))).length < (List.range (n + 1)).length :=
          List.length_filter_lt_length_iff_exists.mpr ⟨w, List.mem_range.mpr hp.lt, by simp⟩
        rw [List.length_range] at hrange
        omega
      rw [hs.length_eq, List.length_take] at hlt
      have hall : (order h).take (n + 1) = (order h).take n := by
        rw [List.take_of_length_le (by omega), List.take_of_length_le (by omega)]
      rw [others_of_notMem hw, hs.held_eq, hall]
    · have hw : w ∈ ws := (hs.mem_iff w).mpr ⟨hp.lt, hfull w hp.lt⟩
      have hlen : ws.length = n + 1 := by
        have hsub : List.range (n + 1) ⊆ ws := fun v hv =>
          (hs.mem_iff v).mpr ⟨List.mem_range.mp hv, hfull v (List.mem_range.mp hv)⟩
        have hge := (List.nodup_range.subperm hsub).length_le
        have hle : ws.length ≤ n + 1 := by
          rw [hs.length_eq, List.length_take]
          omega
        rw [List.length_range] at hge
        omega
      rw [hs.others_oldest hw fun v hv => hold v ((hs.mem_iff v).mp hv).1, List.map_dropLast, hs.held_eq,
        ← List.map_dropLast, List.dropLast_eq_take, ← hs.length_eq, hlen, Nat.add_sub_cancel, List.take_take,
        Nat.min_eq_left (Nat.le_succ n)]

end Holds

end Recency
