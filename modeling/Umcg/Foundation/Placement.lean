import Mathlib.Data.List.Nodup
import Mathlib.Data.Set.Card
import Mathlib.Tactic.Common

/-!
# Items that are each at exactly one place

`content p` lists the items at the place `p`, in the order in which they leave it. `Placed
content all` says that the items of `all` are distributed over the places: each is at exactly one
place, there once, and nothing else is anywhere. A hand-over keeps this (`Placed.move`), and so
does the arrival of a new item (`Placed.add`). The places may be infinitely many: counting is
done on the items (`Placed.ncard_elsewhere`).

`Transfer` lists what one step of a system can do with the items. Where a system can lose items,
its steps are classified once, and both what is kept as long as nothing is dropped
(`Placed.transfer`) and what stays lost (`Transfer.notMem`) follow from the classification.
-/

namespace Umcg

variable {P α : Type*} {content content' : P → List α} {all : List α} {p q : P} {a : α}
  {rest : List α}

/-- The items of `all` are distributed over the places. -/
structure Placed (content : P → List α) (all : List α) : Prop where
  nodup_all : all.Nodup
  nodup : ∀ p, (content p).Nodup
  unique : ∀ p q a, a ∈ content p → a ∈ content q → p = q
  mem : ∀ a, a ∈ all ↔ ∃ p, a ∈ content p

namespace Placed

theorem nil : Placed (fun _ : P => ([] : List α)) [] :=
  ⟨List.nodup_nil, fun _ => List.nodup_nil, by simp, by simp⟩

/-- Every item is at one place, once, and at no other. -/
theorem exists_count_eq_one [DecidableEq α] (h : Placed content all) (ha : a ∈ all) :
    ∃ p, (content p).count a = 1 ∧ ∀ q, q ≠ p → a ∉ content q := by
  obtain ⟨p, hp⟩ := (h.mem a).mp ha
  exact ⟨p, List.count_eq_one_of_mem (h.nodup p) hp, fun q hq hqa => hq (h.unique q p a hqa hp)⟩

/-- The oldest item of the place `p` moves to the back of the place `q`. -/
theorem move (h : Placed content all) (hpq : p ≠ q) (hp : content p = a :: rest)
    (hp' : content' p = rest) (hq' : content' q = content q ++ [a])
    (hother : ∀ r, r ≠ p → r ≠ q → content' r = content r) : Placed content' all := by
  have hnodup := h.nodup p
  rw [hp, List.nodup_cons] at hnodup
  have hap : a ∈ content p := hp ▸ List.mem_cons_self
  have haq : a ∉ content q := fun haq => hpq (h.unique p q a hap haq)
  -- an item other than `a` has not moved, and `a` is at `q` only
  have hne : ∀ r b, b ≠ a → (b ∈ content' r ↔ b ∈ content r) := by
    intro r b hb
    by_cases hrp : r = p
    · rw [hrp, hp', hp, List.mem_cons, or_iff_right hb]
    · by_cases hrq : r = q
      · simp [hrq, hq', hb]
      · rw [hother r hrp hrq]
  have ha : ∀ r, a ∈ content' r ↔ r = q := by
    intro r
    by_cases hrq : r = q
    · simp [hrq, hq']
    · refine iff_of_false (fun har => ?_) hrq
      by_cases hrp : r = p
      · exact hnodup.1 (hp' ▸ hrp ▸ har)
      · exact hrp (h.unique r p a (hother r hrp hrq ▸ har) hap)
  refine ⟨h.nodup_all, fun r => ?_, fun r r' b hb hb' => ?_, fun b => ?_⟩
  · by_cases hrp : r = p
    · exact hrp ▸ hp' ▸ hnodup.2
    · by_cases hrq : r = q
      · rw [hrq, hq']
        exact (h.nodup q).append (List.nodup_singleton a) (List.disjoint_singleton.mpr haq)
      · exact hother r hrp hrq ▸ h.nodup r
  · by_cases hba : b = a
    · subst hba
      exact ((ha r).mp hb).trans ((ha r').mp hb').symm
    · exact h.unique r r' b ((hne r b hba).mp hb) ((hne r' b hba).mp hb')
  · rw [h.mem]
    by_cases hba : b = a
    · subst hba
      exact iff_of_true ⟨p, hap⟩ ⟨q, (ha q).mpr rfl⟩
    · exact exists_congr fun r => (hne r b hba).symm

/-- A new item arrives at the back of the place `p`. -/
theorem add (h : Placed content all) (ha : a ∉ all) (hp' : content' p = content p ++ [a])
    (hother : ∀ r, r ≠ p → content' r = content r) : Placed content' (all ++ [a]) := by
  have hnone : ∀ r, a ∉ content r := fun r har => ha ((h.mem a).mpr ⟨r, har⟩)
  have hmem : ∀ r b, b ∈ content' r ↔ b ∈ content r ∨ r = p ∧ b = a := by
    intro r b
    by_cases hrp : r = p
    · simp [hrp, hp']
    · simp [hother r hrp, hrp]
  refine ⟨?_, fun r => ?_, fun r r' b hb hb' => ?_, fun b => ?_⟩
  · exact h.nodup_all.append (List.nodup_singleton a) (List.disjoint_singleton.mpr ha)
  · by_cases hrp : r = p
    · rw [hrp, hp']
      exact (h.nodup p).append (List.nodup_singleton a) (List.disjoint_singleton.mpr (hnone p))
    · exact hother r hrp ▸ h.nodup r
  · rcases (hmem r b).mp hb with hb | ⟨rfl, rfl⟩ <;> rcases (hmem r' b).mp hb' with hb' | ⟨rfl, hba⟩
    · exact h.unique r r' b hb hb'
    · exact absurd (hba ▸ hb) (hnone r)
    · exact absurd hb' (hnone r')
    · rfl
  · simp only [hmem, exists_or, exists_and_right, List.mem_append,
      List.mem_singleton, h.mem]
    simp

/-- Only the contents count. -/
theorem congr (h : Placed content all) (hc : ∀ r, content' r = content r) :
    Placed content' all := by
  rw [funext hc]
  exact h

/-- The items that are not at `p`, counted. -/
theorem ncard_elsewhere (h : Placed content all) (p : P) :
    (content p).length + {a | ∃ q, q ≠ p ∧ a ∈ content q}.ncard = all.length := by
  classical
  have hsub : (content p).toFinset ⊆ all.toFinset := by
    intro a ha
    rw [List.mem_toFinset] at ha ⊢
    exact (h.mem a).mpr ⟨p, ha⟩
  have hset : {a | ∃ q, q ≠ p ∧ a ∈ content q} = ↑(all.toFinset \ (content p).toFinset) := by
    ext a
    simp only [Set.mem_ofPred_eq, Finset.coe_sdiff, List.coe_toFinset, Set.mem_sdiff, h.mem]
    constructor
    · rintro ⟨q, hq, ha⟩
      exact ⟨⟨q, ha⟩, fun hap => hq (h.unique q p a ha hap)⟩
    · rintro ⟨⟨q, ha⟩, hap⟩
      exact ⟨q, fun hq => hap (hq ▸ ha), ha⟩
  rw [hset, Set.ncard_coe_finset, Finset.card_sdiff_of_subset hsub,
    List.toFinset_card_of_nodup h.nodup_all, List.toFinset_card_of_nodup (h.nodup p)]
  have := Finset.card_le_card hsub
  rw [List.toFinset_card_of_nodup h.nodup_all, List.toFinset_card_of_nodup (h.nodup p)] at this
  omega

end Placed

/-- The items at the place `p` are lost. -/
structure Dropped (content : P → List α) (p : P) (content' : P → List α) : Prop where
  gone : content' p = []
  other : ∀ r, r ≠ p → content' r = content r

/-- What was dropped is nowhere. -/
theorem Placed.notMem_of_dropped (h : Placed content all) (hd : Dropped content p content')
    (ha : a ∈ content p) (r : P) : a ∉ content' r := by
  by_cases hr : r = p
  · simp [hr, hd.gone]
  · rw [hd.other r hr]
    exact fun har => hr (h.unique r p a har ha)

/-- What a step does with the items: nothing, a hand-over, the arrival of the item `new`, or,
only if `ok` fails, the loss of items of one place. -/
inductive Transfer (ok : Prop) (content : P → List α) (new : Option α) (content' : P → List α) :
    Prop
  | stay (hn : new = none) (h : ∀ r, content' r = content r)
  | move {p q : P} {a : α} {l : List α} (hn : new = none) (hpq : p ≠ q)
      (hp : content p = a :: l) (hp' : content' p = l) (hq' : content' q = content q ++ [a])
      (hother : ∀ r, r ≠ p → r ≠ q → content' r = content r)
  | arrive {p : P} {a : α} (hn : new = some a) (hp' : content' p = content p ++ [a])
      (hother : ∀ r, r ≠ p → content' r = content r)
  | drop {p : P} (hn : new = none) (hok : ¬ ok) (hd : Dropped content p content')

variable {ok : Prop} {new : Option α}

/-- A step that drops nothing keeps the items at exactly one place each. -/
theorem Placed.transfer (h : Placed content all) (ht : Transfer ok content new content')
    (hok : ok) (hnew : ∀ a, new = some a → a ∉ all) : Placed content' (all ++ new.toList) := by
  cases ht with
  | stay hn hc => simpa [hn] using h.congr hc
  | move hn hpq hp hp' hq' hother => simpa [hn] using h.move hpq hp hp' hq' hother
  | arrive hn hp' hother => simpa [hn] using h.add (hnew _ hn) hp' hother
  | drop hn hno => exact absurd hok hno

/-- An item that is at a place after a step was at a place before it, or has arrived. -/
theorem Transfer.mem (ht : Transfer ok content new content') (ha : a ∈ content' p) :
    (∃ q, a ∈ content q) ∨ new = some a := by
  cases ht with
  | stay _ hc => exact .inl ⟨p, hc p ▸ ha⟩
  | @move p₀ q₀ b l hn hpq hp hp' hq' hother =>
    by_cases h₁ : p = p₀
    · exact .inl ⟨p₀, hp ▸ List.mem_cons_of_mem b (hp' ▸ h₁ ▸ ha)⟩
    · by_cases h₂ : p = q₀
      · rw [h₂, hq', List.mem_append, List.mem_singleton] at ha
        rcases ha with ha | rfl
        · exact .inl ⟨q₀, ha⟩
        · exact .inl ⟨p₀, hp ▸ List.mem_cons_self⟩
      · exact .inl ⟨p, hother p h₁ h₂ ▸ ha⟩
  | @arrive p₀ b hn hp' hother =>
    by_cases h₁ : p = p₀
    · rw [h₁, hp', List.mem_append, List.mem_singleton] at ha
      rcases ha with ha | rfl
      · exact .inl ⟨p₀, ha⟩
      · exact .inr hn
    · exact .inl ⟨p, hother p h₁ ▸ ha⟩
  | @drop p₀ hn hok hd =>
    by_cases h₁ : p = p₀
    · simp [h₁, hd.gone] at ha
    · exact .inl ⟨p, hd.other p h₁ ▸ ha⟩

/-- An item that is nowhere stays away, unless it arrives. -/
theorem Transfer.notMem (ht : Transfer ok content new content') (hnone : ∀ q, a ∉ content q)
    (hnew : new ≠ some a) (p : P) : a ∉ content' p := fun ha =>
  (ht.mem ha).elim (fun ⟨q, hq⟩ => hnone q hq) hnew

end Umcg
