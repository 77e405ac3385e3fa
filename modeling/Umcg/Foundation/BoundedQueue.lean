import Mathlib.Data.List.Basic
import Mathlib.Tactic.Common

/-!
# Bounded first-in first-out queues

A queue of fixed capacity whose `push` reports a full queue instead of growing and whose `pop`
takes the oldest element. The bound is a field, so a queue beyond its capacity cannot be
built.
-/

namespace Umcg

/-- A first-in first-out queue, oldest element first, of at most `cap` elements. -/
@[ext]
structure BoundedQueue (α : Type*) where
  cap : ℕ
  items : List α
  length_le : items.length ≤ cap

namespace BoundedQueue

variable {α : Type*} {q q' : BoundedQueue α} {a b : α}

instance [DecidableEq α] : DecidableEq (BoundedQueue α) := fun q q' =>
  decidable_of_iff (q.cap = q'.cap ∧ q.items = q'.items) BoundedQueue.ext_iff.symm

/-- The empty queue of capacity `cap`. -/
def empty (cap : ℕ) : BoundedQueue α := ⟨cap, [], Nat.zero_le cap⟩

/-- Append `a` at the back; `none` when the queue is full. -/
def push (q : BoundedQueue α) (a : α) : Option (BoundedQueue α) :=
  if h : q.items.length < q.cap then some ⟨q.cap, q.items ++ [a], by
    rw [List.length_append, List.length_singleton]
    exact h⟩ else none

/-- Take the oldest element; `none` when the queue is empty. -/
def pop (q : BoundedQueue α) : Option (α × BoundedQueue α) :=
  match q.items, q.length_le with
  | [], _ => none
  | a :: l, h => some (a, ⟨q.cap, l, Nat.le_of_succ_le h⟩)

@[simp] theorem empty_items (cap : ℕ) : (empty cap : BoundedQueue α).items = [] := rfl

@[simp] theorem empty_cap (cap : ℕ) : (empty cap : BoundedQueue α).cap = cap := rfl

theorem push_eq_some_iff :
    q.push a = some q' ↔ q.items.length < q.cap ∧ q'.cap = q.cap ∧ q'.items = q.items ++ [a] := by
  unfold push
  split_ifs with h
  · simp only [Option.some.injEq, h, true_and]
    constructor
    · rintro rfl
      exact ⟨rfl, rfl⟩
    · rintro ⟨hc, hi⟩
      exact BoundedQueue.ext hc.symm hi.symm
  · simp [h]

theorem push_eq_none_iff : q.push a = none ↔ q.cap ≤ q.items.length := by
  unfold push
  split_ifs with h
  · simpa using h
  · simpa using h

theorem pop_eq_some_iff :
    q.pop = some (a, q') ↔ q.items = a :: q'.items ∧ q'.cap = q.cap := by
  obtain ⟨cap, items, h⟩ := q
  cases items with
  | nil => simp [pop]
  | cons b l =>
    simp only [pop, Option.some.injEq, Prod.mk.injEq, List.cons.injEq]
    constructor
    · rintro ⟨rfl, rfl⟩
      exact ⟨⟨rfl, rfl⟩, rfl⟩
    · rintro ⟨⟨rfl, hl⟩, hc⟩
      exact ⟨rfl, BoundedQueue.ext hc.symm hl⟩

theorem mem_of_pop (h : q.pop = some (a, q')) : a ∈ q.items := by
  rw [(pop_eq_some_iff.mp h).1]
  exact List.mem_cons_self

theorem pop_eq_none_iff : q.pop = none ↔ q.items = [] := by
  obtain ⟨cap, items, h⟩ := q
  cases items <;> simp [pop]

end BoundedQueue

end Umcg
