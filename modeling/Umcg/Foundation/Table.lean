import Mathlib.Data.List.Nodup
import Mathlib.Logic.Function.Basic
import Mathlib.Tactic.Common

/-!
# Tables with a list of keys

A finite map whose keys are listed once each, in the order in which an iteration visits them.
`set` overwrites the value of a key and leaves the keys alone; `insert` adds a key.

The first lemmas are about maps without a list of keys, which are partial functions. The second half
counts the keys whose value satisfies a predicate: after one overwrite, the new count plus the old
value's share is the old count plus the new value's (`Table.count_set`).
-/

namespace Umcg

variable {κ α : Type*} [DecidableEq κ]

section PartialFunction

variable {f : κ → Option α} {k k' : κ} {o : Option α} {a : α}

/-- An entry of a partial function after an update is the new one or an old one. -/
theorem update_eq_some (h : Function.update f k o k' = some a) :
    k' = k ∧ o = some a ∨ k' ≠ k ∧ f k' = some a := by
  by_cases hk : k' = k
  · exact .inl ⟨hk, by simpa [hk] using h⟩
  · exact .inr ⟨hk, by simpa [hk] using h⟩

theorem update_keeps (h : f k' = some a) (hk : k' ≠ k) : Function.update f k o k' = some a :=
  (Function.update_of_ne hk _ _).trans h

end PartialFunction

/-- A finite map: its keys, each once, and a value for every key. -/
structure Table (κ α : Type*) where
  keys : List κ
  nodup : keys.Nodup
  value : κ → α

namespace Table

/-- The table with the given keys, all with value `a`. -/
def const (keys : List κ) (nodup : keys.Nodup) (a : α) : Table κ α := ⟨keys, nodup, fun _ => a⟩

/-- The value of a key of the table. -/
def get? (t : Table κ α) (k : κ) : Option α := if k ∈ t.keys then some (t.value k) else none

/-- Overwrite the value of `k`. -/
def set (t : Table κ α) (k : κ) (a : α) : Table κ α :=
  { t with value := Function.update t.value k a }

/-- Add the key `k`, or overwrite its value when it is already there. A new key comes last; where
a table stands for a hash map, whose iteration has no such order, only the set of its keys may
matter. -/
def insert (t : Table κ α) (k : κ) (a : α) : Table κ α :=
  if h : k ∈ t.keys then t.set k a
  else ⟨t.keys ++ [k], by
    refine t.nodup.append (List.nodup_singleton k) ?_
    simpa [List.disjoint_singleton] using h, Function.update t.value k a⟩

variable (t : Table κ α) {k k' : κ} {a b : α}

theorem get?_eq_some_iff : t.get? k = some a ↔ k ∈ t.keys ∧ t.value k = a := by
  simp [get?]

theorem get?_eq_none_iff : t.get? k = none ↔ k ∉ t.keys := by
  simp [get?]

theorem mem_keys_of_get? (h : t.get? k = some a) : k ∈ t.keys := (t.get?_eq_some_iff.mp h).1

theorem get?_of_mem (h : k ∈ t.keys) : t.get? k = some (t.value k) := by simp [get?, h]

@[simp] theorem keys_set : (t.set k a).keys = t.keys := rfl

@[simp] theorem value_set_self : (t.set k a).value k = a := Function.update_self ..

@[simp] theorem value_set_of_ne (h : k' ≠ k) : (t.set k a).value k' = t.value k' :=
  Function.update_of_ne h ..

theorem get?_set_self (h : k ∈ t.keys) : (t.set k a).get? k = some a := by simp [get?, h]

@[simp] theorem get?_set_of_ne (h : k' ≠ k) : (t.set k a).get? k' = t.get? k' := by
  simp [get?, h]

theorem get?_set (h : k ∈ t.keys) : (t.set k a).get? k' = if k' = k then some a else t.get? k' := by
  split_ifs with hk
  · rw [hk, t.get?_set_self h]
  · exact t.get?_set_of_ne hk

@[simp] theorem set_set : (t.set k a).set k b = t.set k b := by
  simp [set]

theorem keys_insert_of_notMem (h : k ∉ t.keys) : (t.insert k a).keys = t.keys ++ [k] := by
  simp [insert, h]

theorem get?_insert (k : κ) : (t.insert k a).get? k' = if k' = k then some a else t.get? k' := by
  unfold insert
  split_ifs with h hk hk
  · rw [hk, t.get?_set_self h]
  · exact t.get?_set_of_ne hk
  · simp [get?, hk]
  · simp [get?, hk]

/-- The number of keys whose value satisfies `p`. -/
def count (p : α → Bool) : ℕ := t.keys.countP fun k => p (t.value k)

omit [DecidableEq κ] in
theorem count_lt (p : α → Bool) (hk : k ∈ t.keys) (hp : p (t.value k) = false) :
    t.count p < t.keys.length := by
  refine Nat.lt_of_le_of_ne List.countP_le_length fun h => ?_
  have := List.countP_eq_length.mp h k hk
  simp [hp] at this

omit [DecidableEq κ] in
theorem count_pos (p : α → Bool) (hk : k ∈ t.keys) (hp : p (t.value k) = true) :
    0 < t.count p := List.countP_pos_iff.mpr ⟨k, hk, hp⟩

theorem count_insert_of_notMem (p : α → Bool) (h : k ∉ t.keys) :
    (t.insert k a).count p = t.count p + (p a).toNat := by
  have hrest : t.keys.countP (fun x => p (Function.update t.value k a x)) =
      t.keys.countP fun x => p (t.value x) := by
    refine List.countP_congr fun x hx => ?_
    rw [Function.update_of_ne (ne_of_mem_of_not_mem hx h)]
  simp only [count, insert, h, dite_false, List.countP_append, hrest, List.countP_singleton,
    Function.update_self]
  cases p a <;> rfl

theorem count_set (p : α → Bool) (hk : k ∈ t.keys) :
    (t.set k a).count p + (p (t.value k)).toNat = t.count p + (p a).toNat := by
  have hperm := List.perm_cons_erase hk
  have hnot : k ∉ t.keys.erase k := fun h => (List.Nodup.mem_erase_iff t.nodup).mp h |>.1 rfl
  have hrest : (t.keys.erase k).countP (fun x => p ((t.set k a).value x)) =
      (t.keys.erase k).countP fun x => p (t.value x) := by
    refine List.countP_congr fun x hx => ?_
    rw [t.value_set_of_ne (ne_of_mem_of_not_mem hx hnot)]
  have hnew := hperm.countP_eq fun x => p ((t.set k a).value x)
  have hold := hperm.countP_eq fun x => p (t.value x)
  rw [List.countP_cons, hrest, value_set_self] at hnew
  rw [List.countP_cons] at hold
  change t.keys.countP _ + _ = t.keys.countP _ + _
  rw [hnew, hold]
  cases p a <;> cases p (t.value k) <;> simp

end Table

end Umcg
